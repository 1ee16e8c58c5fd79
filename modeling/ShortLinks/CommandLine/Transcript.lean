import ShortLinks.CommandLine.Run
import ShortLinks.Text.Blank

/-!
# Transcripts

Several runs in one folder, written down so that nobody sees which codes were
drawn. A drawn code that a run writes is named by a number, in the order in which
codes appear, and later command lines may use these names.
-/

namespace ShortLinks.CommandLine

set_option autoImplicit false

structure Request where
  arguments : List String
  environment : List (String × String)
  deriving DecidableEq, Repr

structure Transcript where
  runs : List Finished
  file : Option String

namespace Transcript

def nameOf (number : Nat) : List Char :=
  ['<', 'c'] ++ Nat.toDigits 10 number ++ ['>']

/-- The first pair whose left side a text begins with. -/
def leading? (pairs : List (List Char × List Char)) (text : List Char) :
    Option (List Char × List Char) :=
  pairs.find? fun pair => !pair.1.isEmpty && pair.1.isPrefixOf text

/-- Puts the right side of a pair wherever its left side stands. The count says how
many characters have been dealt with already. -/
def replaceFrom (pairs : List (List Char × List Char)) : Nat → List Char → List Char
  | _, [] => []
  | skip + 1, _ :: rest => replaceFrom pairs skip rest
  | 0, c :: rest =>
      match leading? pairs (c :: rest) with
      | some (found, replacement) =>
          replacement ++ replaceFrom pairs (found.length - 1) rest
      | none => c :: replaceFrom pairs 0 rest

def replaceAll (pairs : List (List Char × List Char)) (text : String) : String :=
  String.ofList (replaceFrom pairs 0 text.toList)

abbrev Names := List ShortCode

def masks (names : Names) : List (List Char × List Char) :=
  names.zipIdx.map fun (code, number) => (code.text.toList, nameOf number)

def unmasks (names : Names) : List (List Char × List Char) :=
  (masks names).map fun (code, name) => (name, code)

/-- Words end at white space and at quotes. -/
def endsWord (c : Char) : Bool := Text.isBlank c || c == '"'

def wordsOf : List Char → List (List Char)
  | [] => []
  | c :: rest =>
      if endsWord c then [] :: wordsOf rest
      else
        match wordsOf rest with
        | [] => [[c]]
        | word :: words => (c :: word) :: words

def behindSlash? (word : List Char) : Option (List Char) :=
  if word.contains '/' then some (word.reverse.takeWhile (· != '/')).reverse else none

/-- Names the drawn codes that a text shows for the first time. -/
def nameCodes (drawn : List ShortCode) (text : String) (names : Names) : Names :=
  (wordsOf text.toList).foldl
    (fun known word =>
      match behindSlash? word with
      | none => known
      | some tail =>
          let code : ShortCode := ⟨String.ofList tail⟩
          if drawn.contains code && !known.contains code then known ++ [code] else known)
    names

/-- The codes that a supply handed out on its way from one state to another. -/
def drawnBetween (before after : CodeSupply) : Nat → List ShortCode
  | 0 => []
  | fuel + 1 =>
      if before = after then []
      else
        let (code, behind) := before.draw
        code :: drawnBetween behind after fuel

structure State where
  session : Session
  drawn : List ShortCode
  names : Names

/-- At most so many codes are drawn in a run: one for each word. -/
def drawLimit (request : Request) : Nat := request.arguments.length + 1

def record (state : State) (request : Request) : Finished × State :=
  let reveal := replaceAll (unmasks state.names)
  let environment := request.environment.map fun (name, value) => (name, reveal value)
  let (finished, session) := run environment (request.arguments.map reveal) state.session
  let drawn := state.drawn ++
    drawnBetween state.session.codes session.codes (drawLimit request)
  let names := nameCodes drawn finished.output state.names
  let hide := replaceAll (masks names)
  (⟨finished.exit, hide finished.output, finished.complaint.map hide⟩, ⟨session, drawn, names⟩)

def recordAll : List Request → State → List Finished × State
  | [], state => ([], state)
  | request :: later, state =>
      let (finished, next) := record state request
      let (runs, last) := recordAll later next
      (finished :: runs, last)

def of (session : Session) (file : String) (requests : List Request) :
    Transcript :=
  let (runs, last) := recordAll requests ⟨session, [], []⟩
  let content := (last.session.folder.bytes? file).map Text.lossy
  ⟨runs, content.map (replaceAll (masks last.names))⟩

end Transcript

end ShortLinks.CommandLine

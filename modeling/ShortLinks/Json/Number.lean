import ShortLinks.Json.Fault

/-!
# JSON numbers

A number is a 64-bit integer if it is written as one and fits; minus zero and
everything else is a floating number, of which only the range is looked at. A
floating number is out of range when the product of its rounded significand and
its rounded power of ten rounds to infinity in double precision.
-/

namespace ShortLinks.Json

set_option autoImplicit false

inductive Number
  | natural (value : Nat)
  | negative (magnitude : Nat)
  | floating
  deriving DecidableEq, Repr

def Number.found : Number → Found
  | natural value => .integer value
  | negative magnitude => .integer (-(magnitude : Int))
  | floating => .floating

def digitValue (c : Char) : Nat := c.toNat - '0'.toNat

def wordLimit : Nat := Nat.pow 2 64 - 1

/-- Takes digits into a significand as long as it fits a word. The answer has
the significand, how many digits it took, and how many were left. -/
def absorb : Nat → List Char → Nat × Nat × Nat
  | significand, [] => (significand, 0, 0)
  | significand, digit :: digits =>
      let next := significand * 10 + digitValue digit
      if wordLimit < next then (significand, 0, (digit :: digits).length)
      else
        let (final, taken, left) := absorb next digits
        (final, taken + 1, left)

/-- The nearest number with at most 53 binary digits, a tie going to the even
neighbour. -/
def round53 (number : Nat) : Nat :=
  let bits := Nat.log2 number + 1
  if bits ≤ 53 then number
  else
    let shift := bits - 53
    let quotient := number / Nat.pow 2 shift
    let remainder := number % Nat.pow 2 shift
    let half := Nat.pow 2 (shift - 1)
    let up := half < remainder || (remainder == half && quotient % 2 == 1)
    (if up then quotient + 1 else quotient) * Nat.pow 2 shift

def outOfRange (significand : Nat) (exponent : Int) : Bool :=
  if significand = 0 || exponent < 0 then false
  else if 308 < exponent then true
  else
    Nat.pow 2 1024 - Nat.pow 2 970 ≤
      round53 significand * round53 (Nat.pow 10 exponent.toNat)

def floatingNumber (significand : Nat) (exponent : Int) (rest : List Char) :
    Except Fault (Number × List Char) :=
  if outOfRange significand exponent then .error .numberOutOfRange
  else .ok (.floating, rest)

/-- The largest exponent that is added up; beyond it the number is zero or out
of range. -/
def exponentLimit : Nat := Nat.pow 2 31 - 1

def readExponent (significand : Nat) (start : Int) (text : List Char) :
    Except Fault (Number × List Char) :=
  let (positive, digits) : Bool × List Char :=
    match text with
    | '+' :: rest => (true, rest)
    | '-' :: rest => (false, rest)
    | _ => (true, text)
  match digits with
  | [] => .error .endInValue
  | c :: _ =>
      if !c.isDigit then .error .invalidNumber
      else
        let value := (digits.takeWhile Char.isDigit).foldl
          (fun sum digit => sum * 10 + digitValue digit) 0
        let rest := digits.dropWhile Char.isDigit
        if exponentLimit < value then
          if significand ≠ 0 && positive then .error .numberOutOfRange
          else .ok (.floating, rest)
        else
          floatingNumber significand
            (if positive then start + value else start - value) rest

def readFraction (significand : Nat) (start : Int) (text : List Char) :
    Except Fault (Number × List Char) :=
  let digits := text.takeWhile Char.isDigit
  let rest := text.dropWhile Char.isDigit
  if digits.isEmpty then
    .error (if rest.isEmpty then .endInValue else .invalidNumber)
  else
    let (final, taken, _) := absorb significand digits
    match rest with
    | 'e' :: behind | 'E' :: behind => readExponent final (start - taken) behind
    | _ => floatingNumber final (start - taken) rest

/-- A number behind its sign. -/
def readNumber (minus : Bool) (text : List Char) : Except Fault (Number × List Char) :=
  match text with
  | [] => .error .endInValue
  | first :: _ =>
      if !first.isDigit then .error .invalidNumber
      else
        let digits := text.takeWhile Char.isDigit
        let rest := text.dropWhile Char.isDigit
        if first = '0' && 1 < digits.length then .error .invalidNumber
        else
          let (significand, _, left) := absorb 0 digits
          match rest with
          | '.' :: behind => readFraction significand left behind
          | 'e' :: behind | 'E' :: behind => readExponent significand left behind
          | _ =>
              if left ≠ 0 then floatingNumber significand left rest
              else if !minus then .ok (.natural significand, rest)
              else if significand = 0 || Nat.pow 2 63 < significand then .ok (.floating, rest)
              else .ok (.negative significand, rest)

def skipExponent (text : List Char) : Except Fault (List Char) :=
  let digits :=
    match text with
    | '+' :: rest | '-' :: rest => rest
    | _ => text
  match digits with
  | [] => .error .invalidNumber
  | c :: _ =>
      if c.isDigit then .ok (digits.dropWhile Char.isDigit) else .error .invalidNumber

/-- A number behind its sign that is not looked at: only its form counts. -/
def skipNumber (text : List Char) : Except Fault (List Char) :=
  match text with
  | [] => .error .invalidNumber
  | first :: _ =>
      if !first.isDigit then .error .invalidNumber
      else
        let digits := text.takeWhile Char.isDigit
        let rest := text.dropWhile Char.isDigit
        if first = '0' && 1 < digits.length then .error .invalidNumber
        else
          match rest with
          | '.' :: behind =>
              if (behind.takeWhile Char.isDigit).isEmpty then .error .invalidNumber
              else
                match behind.dropWhile Char.isDigit with
                | 'e' :: later | 'E' :: later => skipExponent later
                | later => .ok later
          | 'e' :: behind | 'E' :: behind => skipExponent behind
          | _ => .ok rest

end ShortLinks.Json

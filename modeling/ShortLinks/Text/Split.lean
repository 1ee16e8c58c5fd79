/-!
# Splitting at a separator

The parts of a text between separators. There is always one part more than there
are separators.
-/

namespace ShortLinks.Text

set_option autoImplicit false

def splitAt (separator : Char) : List Char → List (List Char)
  | [] => [[]]
  | c :: rest =>
      if c = separator then [] :: splitAt separator rest
      else
        match splitAt separator rest with
        | [] => [[c]]
        | part :: parts => (c :: part) :: parts

end ShortLinks.Text

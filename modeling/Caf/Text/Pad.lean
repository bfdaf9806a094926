/-!
# Padding

A text is filled up with blanks to a width, in characters; a text that is wide enough already stays
as it is.
-/

namespace Caf

/-- Puts blanks in front of `text` until it has at least `width` characters. -/
def padLeft (width : Nat) (text : String) : String :=
  String.ofList (List.replicate (width - text.length) ' ') ++ text

/-- Puts blanks behind `text` until it has at least `width` characters. -/
def padRight (width : Nat) (text : String) : String :=
  text ++ String.ofList (List.replicate (width - text.length) ' ')

end Caf

/-!
# Coloured text

Text on a terminal is coloured by escape sequences around it. Where colours are off, painting
changes nothing.
-/

namespace Caf.Tool

/-- What a piece of text is, which decides how it is painted. -/
inductive Paint where
  /-- The title of a report. -/
  | heading
  /-- The head of a column. -/
  | column
  /-- The name of a field. -/
  | label
  /-- A name to pick out. -/
  | name
  /-- A report of success. -/
  | success
  /-- A report of failure. -/
  | failure
  deriving DecidableEq, Repr

/-- The parameters of the escape sequence. -/
def Paint.parameters : Paint → String
  | heading => "1;36"
  | column => "1"
  | label => "2"
  | name => "32"
  | success => "1;32"
  | failure => "31"

/-- The `text` as it is painted, where `colour` is wanted. -/
def Paint.apply (paint : Paint) (colour : Bool) (text : String) : String :=
  if colour then "\x1b[" ++ paint.parameters ++ "m" ++ text ++ "\x1b[0m" else text

end Caf.Tool

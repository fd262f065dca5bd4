/-!
# Terminal colours

Report text is wrapped in the escape sequences of a terminal when colours are on, and left alone
otherwise.
-/

namespace WholeProgram.Text

/-- The styles that reports use. -/
inductive Colour where
  | bold | faint | red | green | yellow | magenta | cyan
deriving DecidableEq, Repr

namespace Colour

/-- The parameters of the escape sequence that turns the style on. -/
def code : Colour → String
  | bold => "1"
  | faint => "2"
  | red => "1;31"
  | green => "1;32"
  | yellow => "1;33"
  | magenta => "1;35"
  | cyan => "1;36"

def name : Colour → String
  | bold => "bold"
  | faint => "faint"
  | red => "red"
  | green => "green"
  | yellow => "yellow"
  | magenta => "magenta"
  | cyan => "cyan"

def all : List Colour := [bold, faint, red, green, yellow, magenta, cyan]

/-- The style with this name. -/
def ofName? (s : String) : Option Colour := all.find? (·.name == s)

/-- The text in this style; unchanged when colours are off. -/
def paint (c : Colour) (enabled : Bool) (text : String) : String :=
  if enabled then "\x1b[" ++ c.code ++ "m" ++ text ++ "\x1b[0m" else text

end Colour

/-- A title in bold and the items under it, indented. -/
def titled (colours : Bool) (title : String) (items : List String) : String :=
  Colour.bold.paint colours title ++ "\n" ++ String.join (items.map fun i => "  " ++ i ++ "\n")

end WholeProgram.Text

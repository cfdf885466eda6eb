/-! Terminal styles.

A styled text stands between the codes of its style and a reset. A reset inside it
is followed by the codes again, so the style lasts to its end. -/

namespace SourceComments

inductive Style where
  | bold
  | blue
  | green
  | red
  | boldRed
  | boldYellow
  | boldCyan
  | dimmedCyan
  deriving DecidableEq, Repr

namespace Style

def codes : Style → String
  | bold => "1"
  | blue => "34"
  | green => "32"
  | red => "31"
  | boldRed => "1;31"
  | boldYellow => "1;33"
  | boldCyan => "1;36"
  | dimmedCyan => "2;36"

/-- The sequence that turns the style on. -/
def opening (style : Style) : List Char := '\x1b' :: '[' :: style.codes.toList ++ ['m']

/-- The sequence that turns every style off. -/
def reset : List Char := ['\x1b', '[', '0', 'm']

/-- The text with the opening sequence after each reset in it. -/
def resume (opening : List Char) : List Char → List Char
  | '\x1b' :: '[' :: '0' :: 'm' :: rest => reset ++ opening ++ resume opening rest
  | char :: rest => char :: resume opening rest
  | [] => []

/-- The text in this style, if colours are on. -/
def paint (style : Style) (colors : Bool) (text : String) : String :=
  if colors then
    String.ofList (style.opening ++ resume style.opening text.toList ++ reset)
  else text

end Style

end SourceComments

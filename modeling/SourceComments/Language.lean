import SourceComments.Automaton
import SourceComments.Path
import SourceComments.Segment

/-! Source languages: their names, the extensions of their files, and how their
comments are found. -/

namespace SourceComments

/-- How the comments of a language are found. -/
inductive Family where
  | cFamily
  | javaScript
  deriving DecidableEq, Repr

namespace Family

def name : Family → String
  | cFamily => "c-family"
  | javaScript => "javascript"

/-- Every comment of the text, in document order. -/
def extract (family : Family) (text : String) : Extracted :=
  match family with
  | cFamily => Segment.extract text.toList
  | javaScript => Automaton.extract text.toList

end Family

inductive Language where
  | c
  | cpp
  | objectiveC
  | java
  | javaScript
  | typeScript
  deriving DecidableEq, Repr

namespace Language

def all : List Language := [c, cpp, objectiveC, java, javaScript, typeScript]

def name : Language → String
  | c => "c"
  | cpp => "cpp"
  | objectiveC => "objective-c"
  | java => "java"
  | javaScript => "javascript"
  | typeScript => "typescript"

/-- The language of exactly this name. -/
def ofName? (text : String) : Option Language := all.find? (·.name == text)

def family : Language → Family
  | c | cpp | objectiveC | java => .cFamily
  | javaScript | typeScript => .javaScript

/-- File extensions in lower case. -/
def extensions : Language → List String
  | c => ["c", "h"]
  | cpp => ["cc", "cpp", "cxx", "c++", "hh", "hpp", "hxx", "h++", "ino"]
  | objectiveC => ["m", "mm"]
  | java => ["java"]
  | javaScript => ["js", "mjs", "cjs", "jsx"]
  | typeScript => ["ts", "mts", "cts", "tsx"]

/-- Small letters for the capital letters of ASCII. -/
def foldCase (text : String) : String := String.ofList (text.toList.map Char.toLower)

def sameIgnoringCase (left right : String) : Bool := foldCase left == foldCase right

/-- The language of a name spelled with any mixture of case. -/
def ofNameIgnoringCase? (text : String) : Option Language :=
  all.find? (sameIgnoringCase ·.name text)

/-- The language of a file extension, written without its dot and in any case. -/
def ofExtension? (text : String) : Option Language :=
  all.find? (·.extensions.contains (foldCase text))

def ofPath? (path : Path) : Option Language := path.extension?.bind ofExtension?

def extract (language : Language) (text : String) : Extracted := language.family.extract text

end Language

end SourceComments

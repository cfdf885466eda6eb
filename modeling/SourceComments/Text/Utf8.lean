/-! The size of text in UTF-8. -/

namespace SourceComments

/-- Number of bytes that UTF-8 spends on the characters. -/
def byteLength : List Char → Nat
  | [] => 0
  | char :: rest => char.utf8Size + byteLength rest

end SourceComments

import LispHeap.Text.Extending
import LispHeap.Text.Hex
import LispHeap.Text.Ignorable
import LispHeap.Text.Unprinted

/-!
# Quoted text

Debug texts show a string between double quotes. A quote, a backslash and the common control
characters get a short escape. Every other character that a reader could not see, or that would
be drawn on the one before it, is given by its code in braces, and all else stands for itself.
The printer of values is different: it never escapes.
-/

namespace LispHeap.Text

/-- A character that a reader could not tell from its neighbours. -/
def isHidden (c : Char) : Bool := isUnprinted c || isExtending c || isIgnorable c

/-- A character as it stands between quotes. -/
def escape (c : Char) : String :=
  match c with
  | '"' => "\\\""
  | '\\' => "\\\\"
  | '\n' => "\\n"
  | '\r' => "\\r"
  | '\t' => "\\t"
  | '\x00' => "\\0"
  | c => if isHidden c then "\\u\x7b" ++ hex c.toNat ++ "\x7d" else c.toString

/-- A text between quotes. -/
def quoted (s : String) : String :=
  "\"" ++ String.join (s.toList.map escape) ++ "\""

end LispHeap.Text

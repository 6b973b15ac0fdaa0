/-!
# Words of a signature

A signature text falls into words and marks. A word is a run of letters, digits and underscores,
and a quote belongs to it, so that a lifetime is one word. Blanks separate words, and every other
character is a mark of its own.
-/

namespace LispHeap.Signature

/-- A word or a mark. -/
inductive Token where
  | word (text : String)
  | mark (c : Char)
  deriving DecidableEq

namespace Token

/-- Whether a character belongs to a word. -/
def isWordChar (c : Char) : Bool :=
  c.isAlphanum || c == '_' || c == '\'' || 0x80 ≤ c.toNat

/-- The word collected so far, last character first, in front of what follows it. -/
def close (collected : List Char) (rest : List Token) : List Token :=
  match collected with
  | [] => rest
  | cs => .word (String.ofList cs.reverse) :: rest

/-- The tokens of a text, with a word begun. -/
def scanFrom (collected : List Char) : List Char → List Token
  | [] => close collected []
  | c :: cs =>
    if isWordChar c then scanFrom (c :: collected) cs
    else if c.isWhitespace then close collected (scanFrom [] cs)
    else close collected (.mark c :: scanFrom [] cs)

/-- The tokens of a text. -/
def scan (text : String) : List Token := scanFrom [] text.toList

/-- A word that names a lifetime. -/
def isLifetime (word : String) : Bool := word.front == '\''

end Token

end LispHeap.Signature

/-!
# Hexadecimal text

Lower-case base sixteen: numbers without padding, bytes as two digits each.
-/

namespace LispHeap.Text

/-- A number in lower-case hexadecimal, without padding. -/
def hex (n : Nat) : String := String.ofList (Nat.toDigits 16 n)

/-- The last hexadecimal digit of a number. -/
def hexDigit (n : Nat) : Char := Nat.digitChar (n % 16)

/-- Each byte as two lower-case hexadecimal digits. -/
def hexBytes (bytes : ByteArray) : String :=
  String.ofList (bytes.toList.flatMap fun b => [hexDigit (b.toNat / 16), hexDigit b.toNat])

end LispHeap.Text

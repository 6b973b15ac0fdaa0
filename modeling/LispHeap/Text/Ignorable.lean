import LispHeap.Text.Ranges

/-!
# Characters to ignore

Joiners, direction marks, variation selectors and the fillers of Hangul syllables steer how their
neighbours are drawn. A font that does not know one of them shows nothing in its place, so that
even the fillers, which are letters, cannot be seen. The ranges are those of Unicode 17.
-/

namespace LispHeap.Text

/-- The code points that are ignorable by default. -/
def ignorable : List (Nat × Nat) := [
    (0xad, 0xad), (0x34f, 0x34f), (0x61c, 0x61c), (0x115f, 0x1160), (0x17b4, 0x17b5),
    (0x180b, 0x180f), (0x200b, 0x200f), (0x202a, 0x202e), (0x2060, 0x206f), (0x3164, 0x3164),
    (0xfe00, 0xfe0f), (0xfeff, 0xfeff), (0xffa0, 0xffa0), (0xfff0, 0xfff8), (0x1bca0, 0x1bca3),
    (0x1d173, 0x1d17a), (0xe0000, 0xe0fff)]

/-- Whether nothing is shown for a character that a font does not know. -/
def isIgnorable (c : Char) : Bool := covers ignorable c.toNat

end LispHeap.Text

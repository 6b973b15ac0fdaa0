/-!
# Ranges of code points

A property of characters is a list of ranges of code points, first and last included. The ranges
are disjoint and increasing, which is what lets a search end at the first range that lies above
the code: a character of a low code is found, or missed, at once.
-/

namespace LispHeap.Text

/-- Whether a code lies in one of the increasing ranges. -/
def covers : List (Nat × Nat) → Nat → Bool
  | [], _ => false
  | (first, last) :: ranges, code =>
    if code < first then false else code ≤ last || covers ranges code

end LispHeap.Text

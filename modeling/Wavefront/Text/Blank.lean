set_option autoImplicit false

/-!
# Lines and words

Lines end at a line feed. Words are what stands between blanks, and a blank is any
character with the Unicode property White_Space, the carriage return among them.
-/
namespace Wavefront.Text

/-- The ranges of code points with the property White_Space. -/
def blankRanges : List (Nat × Nat) :=
  [(0x9, 0xd), (0x20, 0x20), (0x85, 0x85), (0xa0, 0xa0), (0x1680, 0x1680), (0x2000, 0x200a),
   (0x2028, 0x2029), (0x202f, 0x202f), (0x205f, 0x205f), (0x3000, 0x3000)]

def isBlank (c : Char) : Bool :=
  blankRanges.any fun (lo, hi) => lo ≤ c.toNat && c.toNat ≤ hi

def lines (cs : List Char) : List (List Char) := cs.splitOn '\n'

def words (cs : List Char) : List (List Char) :=
  (cs.splitOnP isBlank).filter fun w => !w.isEmpty

end Wavefront.Text

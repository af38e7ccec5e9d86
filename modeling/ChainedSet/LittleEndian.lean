/-!
# Little-endian numbers

A number of up to eight bytes, least significant byte first. One pair serves every width in use:
one byte, four bytes for a length, eight for a word, and whatever is left of a key after its whole
blocks. A field of fixed width has exactly one form.
-/

namespace ChainedSet.LittleEndian

/-- The `width` low bytes of `w`, the least significant first. -/
def encode : Nat → UInt64 → List UInt8
  | 0, _ => []
  | width + 1, w => w.toUInt8 :: encode width (w >>> 8)

/-- The number whose digits to base 256 are the given bytes, least significant first. Digits from
the ninth on carry no weight. -/
def decode : List UInt8 → UInt64
  | [] => 0
  | b :: bs => b.toUInt64 + 256 * decode bs

@[simp] theorem length_encode (width : Nat) (w : UInt64) : (encode width w).length = width := by
  induction width generalizing w with
  | zero => rfl
  | succ width ih => simp [encode, ih]

end ChainedSet.LittleEndian

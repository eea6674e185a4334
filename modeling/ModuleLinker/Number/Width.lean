/-!
# Widths of whole numbers

A whole number fits into a number of bits if its two's complement does, or, when
it is not negative, if its binary digits do.
-/

namespace ModuleLinker

/-- Whether a whole number fits into a number of bits, signed or not. -/
def fitsInBits (bits : Nat) : Int → Bool
  | .ofNat n => decide (n < 1 <<< bits)
  | .negSucc n => decide (n < 1 <<< (bits - 1))

end ModuleLinker

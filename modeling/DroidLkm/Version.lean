/-
  Version codes, as in `linux/version.h`.
-/
import Mathlib.Algebra.Order.Ring.Nat

namespace DroidLkm

/-- `KERNEL_VERSION` -/
def KERNEL_VERSION (a b c : ℕ) : ℕ := a * 2 ^ 16 + b * 2 ^ 8 + c

end DroidLkm

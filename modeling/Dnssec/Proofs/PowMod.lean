import Mathlib.Algebra.Group.Nat.Defs
import Dnssec.Arith.Modular
/-!
# `Dnssec.Proofs.PowMod` — square-and-multiply computes the modular power

`Nat.powMod b e m` halves the exponent and squares the base at each step; `Nat.powMod_eq` says it
is `b ^ e % m`.  The induction is strong induction on the exponent: the recursive call is at
`e / 2` with base `b * b % m`, whose power is `b ^ (2 * (e / 2)) % m`, and an odd exponent
contributes one more factor of `b`.
-/

namespace Dnssec

/-- Square-and-multiply is the modular power. -/
theorem Nat.powMod_eq (b e m : Nat) : Nat.powMod b e m = b ^ e % m := by
  induction e using Nat.strongRecOn generalizing b with
  | ind e ih =>
    rw [Nat.powMod]
    split
    · simp_all
    · rename_i he
      have hrec := ih (e / 2) (by omega) (b * b % m)
      have hsq : (b * b % m) ^ (e / 2) % m = b ^ (2 * (e / 2)) % m := by
        rw [Nat.pow_mod, Nat.mod_mod, ← Nat.pow_mod, Nat.pow_mul, Nat.pow_two]
      split
      · rw [hrec, hsq, Nat.mod_mul_mod, Nat.mul_mod_mod]
        have he2 : e = 2 * (e / 2) + 1 := by omega
        conv => rhs; rw [he2, Nat.pow_succ]
      · rename_i heven
        rw [hrec, hsq]
        have he2 : e = 2 * (e / 2) := by omega
        conv => rhs; rw [he2]

end Dnssec

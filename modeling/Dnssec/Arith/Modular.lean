/-!
# `Dnssec.Arith.Modular` — modular exponentiation and inverses over naturals

The public-key schemes work with naturals modulo a prime or an RSA modulus.

* `Nat.powMod b e m` — `b ^ e % m` by square-and-multiply (its law is in `Dnssec.Proofs.PowMod`).
* `Nat.xgcd a b` — the extended Euclidean algorithm: the gcd with Bézout coefficients.
* `Nat.invMod? a m` — the inverse of `a` modulo `m`, in `[0, m)`, when `a` and `m` are coprime.
* `Nat.bitLen n` — the number of binary digits of `n` (zero for zero).
-/

namespace Dnssec

/-- `b ^ e % m`, computed by squaring the base and halving the exponent. -/
def Nat.powMod (b e m : Nat) : Nat :=
  if e = 0 then 1 % m
  else
    let half := Nat.powMod (b * b % m) (e / 2) m
    if e % 2 = 1 then half * (b % m) % m else half
termination_by e
decreasing_by omega

/-- The extended Euclidean algorithm: `(g, x, y)` with `g = gcd a b` and `a * x + b * y = g`. -/
def Nat.xgcd (a b : Nat) : Nat × Int × Int :=
  if b = 0 then (a, 1, 0)
  else
    let (g, x, y) := Nat.xgcd b (a % b)
    (g, y, x - (a / b : Nat) * y)
termination_by b
decreasing_by exact Nat.mod_lt _ (by omega)

/-- The inverse of `a` modulo `m` in `[0, m)`, or `none` when `a` and `m` have a common factor. -/
def Nat.invMod? (a m : Nat) : Option Nat :=
  let (g, x, _) := Nat.xgcd (a % m) m
  if g = 1 then some (x % (m : Int)).toNat else none

/-- The number of binary digits of `n`; zero has none. -/
def Nat.bitLen (n : Nat) : Nat := if n = 0 then 0 else n.log2 + 1

end Dnssec

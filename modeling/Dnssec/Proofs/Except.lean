import Dnssec.Error
/-!
# `Dnssec.Proofs.Except` — computing in the error monad

Every operation of the library that can fail returns `Except Error _` and is written with `do`.
The lemmas here evaluate `pure`, `throw` and a bind on a known result, so that `simp` runs a
`do` block once its first steps are known, and `Except.bind_eq_ok` takes a successful run
apart into its steps.

An operation on a message the caller holds runs in `EStateM`, and takes the results of such
operations in with `liftExcept`; `run_liftExcept_ok` runs that step on a successful result,
beside the core lemmas for `get`, `set`, `throw` and binds.
-/

namespace Dnssec

variable {ε α β : Type}

@[simp] theorem Except.ok_bind (a : α) (f : α → Except ε β) : (Except.ok a >>= f) = f a := rfl

@[simp] theorem Except.error_bind (e : ε) (f : α → Except ε β) :
    (Except.error e >>= f) = Except.error e := rfl

@[simp] theorem Except.pure_eq_ok (a : α) : (pure a : Except ε α) = .ok a := rfl

@[simp] theorem Except.throw_eq_error (e : ε) : (throw e : Except ε α) = .error e := rfl

/-- A run that succeeds succeeded at its first step. -/
theorem Except.bind_eq_ok {x : Except ε α} {f : α → Except ε β} {b : β} :
    x >>= f = .ok b ↔ ∃ a, x = .ok a ∧ f a = .ok b := by
  cases x <;> simp

/-- A run that evaluates to a success has a result to name: a closed run is evaluated once, as a
`Bool`, and its result is then taken from the equation. -/
theorem Except.exists_eq_ok_of_isOk {x : Except ε α} (h : x.isOk = true) : ∃ a, x = .ok a := by
  cases x with
  | error e => cases h
  | ok a => exact ⟨a, rfl⟩

variable {σ : Type}

@[simp] theorem run_liftExcept_ok (a : α) (s : σ) :
    (liftExcept (.ok a : Except ε α) : EStateM ε σ α).run s = .ok a s := rfl

end Dnssec

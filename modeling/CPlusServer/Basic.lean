import Mathlib.Algebra.Order.Ring.Int

/-!
# Bytes and `int`

The strings and buffers of the server are byte strings. An `int` is an integer;
`toInt` narrows a wider value to one, and `InInt` is the range outside which the
result of an `int` operation is undefined.
-/

namespace CPlusServer

abbrev Bytes := List UInt8

/-- Conversion to `int`: the value modulo 2^32 that an `int` can hold. -/
def toInt (n : Int) : Int := n.bmod (2 ^ 32)

def InInt (n : Int) : Prop := -2 ^ 31 ≤ n ∧ n < 2 ^ 31

instance (n : Int) : Decidable (InInt n) :=
  inferInstanceAs (Decidable (-2 ^ 31 ≤ n ∧ n < 2 ^ 31))

/-- What an error monad binds to a value was itself a value. -/
theorem ok_of_bind_ok {ε α β : Type} {x : Except ε α} {f : α → Except ε β} {r : β}
    (h : x >>= f = .ok r) : ∃ a, x = .ok a ∧ f a = .ok r := by
  cases x with
  | error e => exact nomatch h
  | ok a => exact ⟨a, rfl, h⟩

/-- A value computed from another adds no error. -/
theorem bind_pure_ne_error_iff {ε α β : Type} {x : Except ε α} {f : α → β} {e : ε} :
    (x >>= fun a => pure (f a)) ≠ .error e ↔ x ≠ .error e := by
  cases x with
  | ok a => exact iff_of_true (fun h => nomatch h) (fun h => nomatch h)
  | error e' =>
      refine not_congr ⟨fun h => ?_, fun h => ?_⟩
      · cases h
        rfl
      · cases h
        rfl

theorem toInt_of_inInt {n : Int} (h : InInt n) : toInt n = n := by
  obtain ⟨hlo, hhi⟩ := h
  exact Int.bmod_eq_of_le (by omega) (by omega)

end CPlusServer

import Mathlib.Logic.Relation

/-! # While loops with a stopping body

A `Loop` is a guard and a body over one state type. The body may stop the loop
with an error. `run` executes it on fuel; every statement below is about `Ends`,
which hides the fuel, or about `Reaches`, the states at which the guard is
tested. Nothing here names a program.
-/

namespace Lib

/-- `while (guard s) { body s }`, where the body may stop with an error. -/
structure Loop (σ ε : Type) where
  guard : σ → Bool
  body : σ → Except ε σ

namespace Loop

variable {σ ε : Type} (l : Loop σ ε)

/-- Fuel counts body executions; `none` means the fuel ran out. -/
def run : Nat → σ → Option (Except ε σ)
  | 0, s => if l.guard s then none else some (.ok s)
  | fuel + 1, s =>
      if l.guard s then
        match l.body s with
        | .error e => some (.error e)
        | .ok s' => run fuel s'
      else some (.ok s)

theorem run_zero (s : σ) : l.run 0 s = if l.guard s then none else some (.ok s) := by
  rfl

theorem run_succ (fuel : Nat) (s : σ) :
    l.run (fuel + 1) s = if l.guard s then
      match l.body s with
      | .error e => some (.error e)
      | .ok s' => l.run fuel s'
    else some (.ok s) := by
  rfl

def Ends (s : σ) (r : Except ε σ) : Prop := ∃ fuel, l.run fuel s = some r

def Step (s s' : σ) : Prop := l.guard s = true ∧ l.body s = .ok s'

/-- The states at which the guard is tested in the execution from `s`. -/
def Reaches : σ → σ → Prop := Relation.ReflTransGen l.Step

variable {l}

/-! ## Unfolding one test of the guard -/

theorem ends_of_stop {s : σ} (hg : l.guard s = false) : l.Ends s (.ok s) :=
  ⟨0, by simp [run_zero, hg]⟩

theorem ends_of_error {s : σ} {e : ε} (hg : l.guard s = true) (hb : l.body s = .error e) :
    l.Ends s (.error e) :=
  ⟨1, by simp [run_succ, hg, hb]⟩

theorem Step.ends {s s' : σ} (h : l.Step s s') {r : Except ε σ} (hr : l.Ends s' r) :
    l.Ends s r := by
  rcases hr with ⟨fuel, hf⟩
  exact ⟨fuel + 1, by simp [run_succ, h.1, h.2, hf]⟩

theorem Step.ends_iff {s s' : σ} (h : l.Step s s') {r : Except ε σ} :
    l.Ends s r ↔ l.Ends s' r := by
  refine ⟨?_, h.ends⟩
  intro hends
  obtain ⟨fuel, hf⟩ := hends
  cases fuel with
  | zero => simp [run_zero, h.1] at hf
  | succ fuel => exact ⟨fuel, by simpa [run_succ, h.1, h.2] using hf⟩

theorem ends_stop_iff {s : σ} (hg : l.guard s = false) {r : Except ε σ} :
    l.Ends s r ↔ r = .ok s := by
  constructor
  · intro hends
    obtain ⟨fuel, hf⟩ := hends
    cases fuel <;> simp [run_zero, run_succ, hg] at hf <;> exact hf.symm
  · intro hr
    subst hr
    exact ends_of_stop hg

theorem ends_error_iff {s : σ} {e : ε} (hg : l.guard s = true) (hb : l.body s = .error e)
    {r : Except ε σ} : l.Ends s r ↔ r = .error e := by
  constructor
  · intro hends
    obtain ⟨fuel, hf⟩ := hends
    cases fuel with
    | zero => simp [run_zero, hg] at hf
    | succ fuel => simpa [run_succ, hg, hb, eq_comm] using hf
  · intro hr
    subst hr
    exact ends_of_error hg hb

/-! ## Whole executions -/

theorem Reaches.ends_iff {s s' : σ} (h : l.Reaches s s') {r : Except ε σ} :
    l.Ends s r ↔ l.Ends s' r := by
  induction h with
  | refl => exact Iff.rfl
  | tail _ step ih => exact ih.trans step.ends_iff

/-- The result does not depend on the fuel that found it. -/
theorem Ends.unique {s : σ} {r r' : Except ε σ} (h : l.Ends s r) (h' : l.Ends s r') :
    r = r' := by
  rcases h with ⟨fuel, hf⟩
  induction fuel generalizing s with
  | zero =>
      cases hg : l.guard s with
      | true => simp [run_zero, hg] at hf
      | false => exact ((ends_stop_iff hg).1 ⟨0, hf⟩).trans ((ends_stop_iff hg).1 h').symm
  | succ fuel ih =>
      cases hg : l.guard s with
      | false => exact ((ends_stop_iff hg).1 ⟨_, hf⟩).trans ((ends_stop_iff hg).1 h').symm
      | true =>
          cases hb : l.body s with
          | error e =>
              exact ((ends_error_iff hg hb).1 ⟨_, hf⟩).trans ((ends_error_iff hg hb).1 h').symm
          | ok s' =>
              have step : l.Step s s' := ⟨hg, hb⟩
              exact ih (step.ends_iff.1 h') (by simpa [run_succ, hg, hb] using hf)

/-- A loop that ends normally has reached a state where the guard fails. -/
theorem Ends.reaches {s s' : σ} (h : l.Ends s (.ok s')) :
    l.Reaches s s' ∧ l.guard s' = false := by
  obtain ⟨fuel, hf⟩ := h
  induction fuel generalizing s with
  | zero =>
      cases hg : l.guard s with
      | true => simp [run_zero, hg] at hf
      | false =>
          obtain rfl : s = s' := by simpa [run_zero, hg] using hf
          exact ⟨.refl, hg⟩
  | succ fuel ih =>
      cases hg : l.guard s with
      | false =>
          obtain rfl : s = s' := by simpa [run_succ, hg] using hf
          exact ⟨.refl, hg⟩
      | true =>
          cases hb : l.body s with
          | error e => simp [run_succ, hg, hb] at hf
          | ok s₁ =>
              have hrest := ih (by simpa [run_succ, hg, hb] using hf)
              exact ⟨.head ⟨hg, hb⟩ hrest.1, hrest.2⟩

/-- A body that gives its own state back keeps the loop going for ever. -/
theorem not_ends_of_fixed {s : σ} (h : l.Step s s) (r : Except ε σ) : ¬ l.Ends s r := by
  intro hends
  obtain ⟨fuel, hf⟩ := hends
  induction fuel with
  | zero => simp [run_zero, h.1] at hf
  | succ fuel ih => exact ih (by simpa [run_succ, h.1, h.2] using hf)

/-- The loop invariant rule: what the body keeps holds at every test of the guard. -/
theorem Reaches.invariant {P : σ → Prop} (hstep : ∀ s s', P s → l.Step s s' → P s')
    {s s' : σ} (h : l.Reaches s s') (hs : P s) : P s' := by
  induction h with
  | refl => exact hs
  | tail _ step ih => exact hstep _ _ ih step

theorem error_free_iff {s : σ} :
    (∀ e, ¬ l.Ends s (.error e)) ↔
      ∀ s', l.Reaches s s' → l.guard s' = true → ∃ s'', l.body s' = .ok s'' := by
  constructor
  · intro h s' hr hg
    cases hb : l.body s' with
    | ok s'' => exact ⟨s'', rfl⟩
    | error e => exact absurd (hr.ends_iff.2 (ends_of_error hg hb)) (h e)
  · intro h e hends
    obtain ⟨fuel, hf⟩ := hends
    induction fuel generalizing s with
    | zero => cases hg : l.guard s <;> simp [run_zero, hg] at hf
    | succ fuel ih =>
        cases hg : l.guard s with
        | false => simp [run_succ, hg] at hf
        | true =>
            obtain ⟨s', hb⟩ := h s .refl hg
            have step : l.Step s s' := ⟨hg, hb⟩
            exact ih (fun s'' hr => h s'' (Relation.ReflTransGen.head step hr))
              (by simpa [run_succ, hg, hb] using hf)

end Loop

end Lib

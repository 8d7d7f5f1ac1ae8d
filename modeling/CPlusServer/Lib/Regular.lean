import Mathlib.Computability.DFA

/-! # The language of an automaton by equations

A state that takes some symbols back to itself accepts a star of them before
anything else. With `acceptsFrom_eq_star_mul` the language of an automaton is
read off state by state, from the accepting states backwards; cycles through
several states are closed by `eq_star_mul`.
-/

open scoped Computability

namespace Lib

variable {α : Type}

def one (p : α → Prop) : Language α := {w | ∃ a, p a ∧ w = [a]}

section
variable {p : α → Prop} {l m n : Language α}

/-- `simp` writes the sum of languages as their supremum. -/
@[simp] theorem mem_sup {w : List α} : w ∈ l ⊔ m ↔ w ∈ l ∨ w ∈ m := Iff.rfl

@[simp] theorem nil_notMem_one_mul : [] ∉ one p * l := by
  intro h
  obtain ⟨u, ⟨a, -, rfl⟩, v, -, heq⟩ := h
  cases heq

@[simp] theorem cons_mem_one_mul {a : α} {w : List α} : a :: w ∈ one p * l ↔ p a ∧ w ∈ l := by
  constructor
  · intro h
    obtain ⟨u, ⟨b, hb, rfl⟩, v, hv, heq⟩ := h
    obtain ⟨rfl, rfl⟩ := List.cons.inj heq
    exact ⟨hb, hv⟩
  · intro h
    exact ⟨[a], ⟨a, h.1, rfl⟩, w, h.2, rfl⟩

theorem nil_notMem_one : [] ∉ one p := by
  intro h
  obtain ⟨a, -, heq⟩ := h
  cases heq

theorem nil_notMem_add (hl : [] ∉ l) (hm : [] ∉ m) : [] ∉ l + m := by
  rw [Language.mem_add]
  intro h
  rcases h with h | h
  · exact hl h
  · exact hm h

/-- Arden's lemma for solving an equation. -/
theorem eq_star_mul (hm : [] ∉ m) (h : l = m * l + n) : l = m∗ * n :=
  (Language.self_eq_mul_add_iff hm).1 h

end

/-! ## Automata -/

section
variable {σ : Type} {M : DFA α σ} {s : σ}

theorem nil_mem_acceptsFrom : [] ∈ M.acceptsFrom s ↔ s ∈ M.accept := Iff.rfl

theorem cons_mem_acceptsFrom {a : α} {w : List α} :
    a :: w ∈ M.acceptsFrom s ↔ w ∈ M.acceptsFrom (M.step s a) := by
  rw [DFA.mem_acceptsFrom, DFA.mem_acceptsFrom, DFA.evalFrom_cons]

/-- The equation of one state: `n` is what it accepts other than through itself. -/
theorem acceptsFrom_eq_star_mul {p : α → Prop} {n : Language α} (hnil : s ∈ M.accept ↔ [] ∈ n)
    (hcons : ∀ a w, w ∈ M.acceptsFrom (M.step s a) ↔
      p a ∧ w ∈ M.acceptsFrom s ∨ a :: w ∈ n) :
    M.acceptsFrom s = (one p)∗ * n := by
  apply eq_star_mul nil_notMem_one
  ext w
  rw [Language.mem_add]
  cases w with
  | nil => rw [nil_mem_acceptsFrom, hnil, or_iff_right nil_notMem_one_mul]
  | cons a w => rw [cons_mem_acceptsFrom, cons_mem_one_mul, hcons]

theorem acceptsFrom_eq {n : Language α} (hnil : s ∈ M.accept ↔ [] ∈ n)
    (hcons : ∀ a w, w ∈ M.acceptsFrom (M.step s a) ↔ a :: w ∈ n) : M.acceptsFrom s = n := by
  ext w
  cases w with
  | nil => rw [nil_mem_acceptsFrom, hnil]
  | cons a w => rw [cons_mem_acceptsFrom, hcons]

/-- States that the symbols of a word do not leave. -/
theorem evalFrom_mem {S : Set σ} {w : List α} (hstep : ∀ s ∈ S, ∀ a ∈ w, M.step s a ∈ S)
    (hs : s ∈ S) : M.evalFrom s w ∈ S := by
  induction w generalizing s with
  | nil => exact hs
  | cons a w ih =>
      rw [DFA.evalFrom_cons]
      exact ih (fun s hs b hb => hstep s hs b (List.mem_cons_of_mem a hb))
        (hstep s hs a List.mem_cons_self)

/-- Nothing is accepted from states that are never left and do not accept. -/
theorem notMem_acceptsFrom {S : Set σ} (haccept : ∀ s ∈ S, s ∉ M.accept)
    (hstep : ∀ s ∈ S, ∀ a, M.step s a ∈ S) (hs : s ∈ S) (w : List α) :
    w ∉ M.acceptsFrom s :=
  haccept _ (evalFrom_mem (fun s hs a _ => hstep s hs a) hs)

end

end Lib

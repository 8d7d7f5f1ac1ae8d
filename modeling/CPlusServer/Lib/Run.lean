import Mathlib.Logic.Basic

/-! # Runs of a step function

`step` gives the state after an action, or none where the action cannot be
taken. A run is a list of actions. `Always` looks at every state the run passes
through and `Each` at every step it takes, so that a property of states can be
compared with a condition on steps. Nothing here names a program.
-/

namespace Lib

variable {σ α : Type} (step : σ → α → Option σ)

/-- `P` holds at the first state of the run and after each step that is taken. -/
def Always (P : σ → Prop) : σ → List α → Prop
  | s, [] => P s
  | s, a :: as => P s ∧ ∀ s', step s a = some s' → Always P s' as

/-- `Q` holds of each step that is taken, as a state and an action. -/
def Each (Q : σ → α → Prop) : σ → List α → Prop
  | _, [] => True
  | s, a :: as => ∀ s', step s a = some s' → Q s a ∧ Each Q s' as

instance decidableEach (step : σ → α → Option σ) (Q : σ → α → Prop) [∀ s a, Decidable (Q s a)] :
    ∀ s as, Decidable (Each step Q s as)
  | _, [] => .isTrue trivial
  | s, a :: as =>
      match hstep : step s a with
      | none => .isTrue fun s' hs => by rw [hstep] at hs; exact nomatch hs
      | some s₁ =>
          have := decidableEach step Q s₁ as
          decidable_of_iff (Q s a ∧ Each step Q s₁ as)
            ⟨fun h s' hs => by rw [hstep] at hs; cases hs; exact h, fun h => h s₁ hstep⟩

def runFrom : σ → List α → Option σ
  | s, [] => some s
  | s, a :: as => (step s a).bind fun s' => runFrom s' as

variable {step}

theorem Always.head {P : σ → Prop} {s : σ} {as : List α} (h : Always step P s as) : P s := by
  cases as with
  | nil => exact h
  | cons a as => exact h.1

theorem Always.mono {P P' : σ → Prop} (himp : ∀ s, P s → P' s) {s : σ} {as : List α}
    (h : Always step P s as) : Always step P' s as := by
  induction as generalizing s with
  | nil => exact himp s h
  | cons a as ih => exact ⟨himp s h.1, fun s' hs => ih (h.2 s' hs)⟩

theorem Always.runFrom {P : σ → Prop} {s s' : σ} {as : List α} (h : Always step P s as)
    (hr : Lib.runFrom step s as = some s') : P s' := by
  induction as generalizing s with
  | nil =>
      cases hr
      exact h
  | cons a as ih =>
      rcases Option.bind_eq_some_iff.1 hr with ⟨s₁, hs₁, hr⟩
      exact ih (h.2 s₁ hs₁) hr

/-- The end of a run of which a part is known. -/
theorem Always.exists_end {β : Type} {P : σ → Prop} {f : σ → β} {b : β} {s : σ} {as : List α}
    (h : Always step P s as) (hend : (Lib.runFrom step s as).map f = some b) :
    ∃ s', P s' ∧ f s' = b := by
  rcases Option.map_eq_some_iff.1 hend with ⟨s', hrun, hb⟩
  exact ⟨s', h.runFrom hrun, hb⟩

/-- The invariant rule. Where every step meets `Q`, what such a step keeps holds throughout. -/
theorem Each.always {Inv : σ → Prop} {Q : σ → α → Prop}
    (hkeep : ∀ s a s', Inv s → Q s a → step s a = some s' → Inv s')
    {s : σ} {as : List α} (hs : Inv s) (h : Each step Q s as) : Always step Inv s as := by
  induction as generalizing s with
  | nil => exact hs
  | cons a as ih =>
      refine ⟨hs, fun s' hstep => ?_⟩
      rcases h s' hstep with ⟨hq, hrest⟩
      exact ih (hkeep s a s' hs hq hstep) hrest

/-- A step without `Q` breaks `P`: then `P` throughout is the same as `Q` at every step. -/
theorem always_iff_each (Inv : σ → Prop) {P : σ → Prop} {Q : σ → α → Prop} (himp : ∀ s, Inv s → P s)
    (hkeep : ∀ s a s', Inv s → Q s a → step s a = some s' → Inv s')
    (hbreak : ∀ s a s', Inv s → ¬ Q s a → step s a = some s' → ¬ P s')
    {s : σ} (hs : Inv s) (as : List α) : Always step P s as ↔ Each step Q s as := by
  constructor
  · intro h
    induction as generalizing s with
    | nil => trivial
    | cons a as ih =>
        intro s' hstep
        have hrest := h.2 s' hstep
        have hq : Q s a :=
          Classical.byContradiction fun hno => hbreak s a s' hs hno hstep hrest.head
        exact ⟨hq, ih (hkeep s a s' hs hq hstep) hrest⟩
  · intro h
    exact (h.always hkeep hs).mono himp

/-- What an invariant gives of a step holds of each step of the run. -/
theorem Always.each {Inv : σ → Prop} {Q : σ → α → Prop}
    (himp : ∀ s a s', Inv s → step s a = some s' → Q s a) {s : σ} {as : List α}
    (h : Always step Inv s as) : Each step Q s as := by
  induction as generalizing s with
  | nil => trivial
  | cons a as ih => exact fun s' hstep => ⟨himp s a s' h.1 hstep, ih (h.2 s' hstep)⟩

theorem Each.mono {Q Q' : σ → α → Prop} (himp : ∀ s a, Q s a → Q' s a) {s : σ} {as : List α}
    (h : Each step Q s as) : Each step Q' s as := by
  induction as generalizing s with
  | nil => trivial
  | cons a as ih => exact fun s' hstep => ⟨himp s a (h s' hstep).1, ih (h s' hstep).2⟩

theorem Each.and {Q Q' : σ → α → Prop} {s : σ} {as : List α} (h : Each step Q s as)
    (h' : Each step Q' s as) : Each step (fun s a => Q s a ∧ Q' s a) s as := by
  induction as generalizing s with
  | nil => trivial
  | cons a as ih =>
      exact fun s' hstep =>
        ⟨⟨(h s' hstep).1, (h' s' hstep).1⟩, ih (h s' hstep).2 (h' s' hstep).2⟩

/-- What is asked of the actions alone. -/
theorem each_of_mem {Q : α → Prop} {as : List α} (h : ∀ a ∈ as, Q a) (s : σ) :
    Each step (fun _ a => Q a) s as := by
  induction as generalizing s with
  | nil => trivial
  | cons a as ih =>
      exact fun s' _ =>
        ⟨h a List.mem_cons_self, ih (fun a' ha' => h a' (List.mem_cons_of_mem a ha')) s'⟩

/-- Two conditions that an invariant makes the same for the actions of the run. -/
theorem Always.each_congr {Inv : σ → Prop} {Q Q' : σ → α → Prop} {s : σ} {as : List α}
    (h : Always step Inv s as) (hiff : ∀ s, ∀ a ∈ as, Inv s → (Q s a ↔ Q' s a)) :
    Each step Q s as ↔ Each step Q' s as := by
  induction as generalizing s with
  | nil => exact Iff.rfl
  | cons a as ih =>
      have hfirst := hiff s a List.mem_cons_self h.1
      have hrest (s' : σ) (hstep : step s a = some s') :=
        ih (h.2 s' hstep) fun s a' hmem => hiff s a' (List.mem_cons_of_mem a hmem)
      constructor
      · exact fun heach s' hstep =>
          ⟨hfirst.1 (heach s' hstep).1, (hrest s' hstep).1 (heach s' hstep).2⟩
      · exact fun heach s' hstep =>
          ⟨hfirst.2 (heach s' hstep).1, (hrest s' hstep).2 (heach s' hstep).2⟩

/-- What each step of the run keeps holds of its end. -/
theorem runFrom_keeps {P : σ → Prop} {as : List α}
    (hkeep : ∀ s a s', a ∈ as → P s → step s a = some s' → P s') {s s' : σ} (hs : P s)
    (hrun : runFrom step s as = some s') : P s' := by
  induction as generalizing s with
  | nil =>
      cases hrun
      exact hs
  | cons a as ih =>
      obtain ⟨s₁, hs₁, hrun⟩ := Option.bind_eq_some_iff.1 hrun
      exact ih (fun s a' s' hmem => hkeep s a' s' (List.mem_cons_of_mem a hmem))
        (hkeep s a s₁ List.mem_cons_self hs hs₁) hrun

/-- The rule without a condition on the steps. -/
theorem always_of_keeps {Inv : σ → Prop} (hkeep : ∀ s a s', Inv s → step s a = some s' → Inv s')
    {s : σ} (hs : Inv s) (as : List α) : Always step Inv s as := by
  induction as generalizing s with
  | nil => exact hs
  | cons a as ih => exact ⟨hs, fun s' hstep => ih (hkeep s a s' hs hstep)⟩

/-! ## Runs in parts, and beside each other -/

theorem runFrom_append (s : σ) (as bs : List α) :
    runFrom step s (as ++ bs) = (runFrom step s as).bind fun s' => runFrom step s' bs := by
  induction as generalizing s with
  | nil => rfl
  | cons a as ih =>
      simp only [List.cons_append, runFrom, Option.bind_assoc]
      exact Option.bind_congr fun s' _ => ih s'

theorem rel_map {R : σ → σ → Prop} {f : σ → σ} (hf : ∀ s t, R s t → R (f s) (f t))
    {x y : Option σ} (h : Option.Rel R x y) : Option.Rel R (x.map f) (y.map f) := by
  cases h with
  | none => exact .none
  | some hrel => exact .some (hf _ _ hrel)

theorem exists_of_rel {R : σ → σ → Prop} {x : Option σ} {t : σ} (h : Option.Rel R x (some t)) :
    ∃ s, x = some s ∧ R s t := by
  cases h with
  | some hrel => exact ⟨_, rfl, hrel⟩

/-- What a step keeps between two states a run keeps, the same actions taken from both. -/
theorem runFrom_rel {R : σ → σ → Prop}
    (hstep : ∀ s t a, R s t → Option.Rel R (step s a) (step t a)) {s t : σ} (h : R s t)
    (as : List α) : Option.Rel R (runFrom step s as) (runFrom step t as) := by
  induction as generalizing s t with
  | nil => exact .some h
  | cons a as ih =>
      have hfirst := hstep s t a h
      unfold runFrom
      generalize step s a = x at hfirst
      generalize step t a = y at hfirst
      cases hfirst with
      | none => exact .none
      | some hrel => exact ih hrel

/-! ## Machines with outputs

A machine takes inputs, gives outputs, and may get stuck at an input. Two runs on different
inputs give the same outputs when a relation between what both are at and have before them is
kept step by step.
-/

variable {ι ο : Type}

/-- From `s` the inputs are taken one after the other, with these outputs. -/
def Emits (Step : σ → ι → ο → σ → Prop) : σ → List ι → List ο → σ → Prop
  | s, [], os, s' => os = [] ∧ s' = s
  | s, i :: is, os, s' => ∃ o s₁ rest, Step s i o s₁ ∧ os = o :: rest ∧ Emits Step s₁ is rest s'

variable {Step : σ → ι → ο → σ → Prop}

theorem emits_nil (s : σ) : Emits Step s [] [] s := ⟨rfl, rfl⟩

theorem Emits.cons {s s₁ s' : σ} {i : ι} {is : List ι} {o : ο} {os : List ο}
    (hstep : Step s i o s₁) (h : Emits Step s₁ is os s') :
    Emits Step s (i :: is) (o :: os) s' :=
  ⟨o, s₁, os, hstep, rfl, h⟩

theorem Emits.append {s s₁ s' : σ} {is is' : List ι} {os os' : List ο} (h : Emits Step s is os s₁)
    (h' : Emits Step s₁ is' os' s') : Emits Step s (is ++ is') (os ++ os') s' := by
  induction is generalizing s os with
  | nil =>
      obtain ⟨rfl, rfl⟩ := h
      exact h'
  | cons i is ih =>
      obtain ⟨o, s₂, rest, hstep, rfl, h⟩ := h
      exact .cons hstep (ih h)

theorem emits_append {s s' : σ} {is is' : List ι} {os : List ο} :
    Emits Step s (is ++ is') os s' ↔
      ∃ os₁ os₂ s₁, os = os₁ ++ os₂ ∧ Emits Step s is os₁ s₁ ∧ Emits Step s₁ is' os₂ s' := by
  constructor
  · intro h
    induction is generalizing s os with
    | nil => exact ⟨[], os, s, rfl, emits_nil s, h⟩
    | cons i is ih =>
        obtain ⟨o, s₁, rest, hstep, rfl, h⟩ := h
        obtain ⟨os₁, os₂, s₂, rfl, hfirst, hlater⟩ := ih h
        exact ⟨o :: os₁, os₂, s₂, rfl, .cons hstep hfirst, hlater⟩
  · intro h
    obtain ⟨os₁, os₂, s₁, rfl, hfirst, hlater⟩ := h
    exact hfirst.append hlater

/-- What follows a run that is known, where a step has one outcome only. -/
theorem Emits.append_iff
    (hunique : ∀ s i o₁ o₂ s₁ s₂, Step s i o₁ s₁ → Step s i o₂ s₂ → o₁ = o₂ ∧ s₁ = s₂)
    {s s₁ s' : σ} {is is' : List ι} {os os' : List ο} (h : Emits Step s is os s₁) :
    Emits Step s (is ++ is') (os ++ os') s' ↔ Emits Step s₁ is' os' s' := by
  refine ⟨fun hall => ?_, h.append⟩
  induction is generalizing s os with
  | nil =>
      obtain ⟨rfl, rfl⟩ := h
      exact hall
  | cons i is ih =>
      obtain ⟨o, s₂, rest, hstep, rfl, h⟩ := h
      obtain ⟨o', s₃, rest', hstep', heq, hall⟩ := hall
      obtain ⟨-, rfl⟩ := hunique _ _ _ _ _ _ hstep hstep'
      obtain ⟨-, rfl⟩ := List.cons.inj heq
      exact ih h hall

/-- The rule of two runs. `R` relates the two states, each with the inputs before it. -/
theorem Emits.twin {R : σ → List ι → σ → List ι → Prop}
    (hend : ∀ s t js, R s [] t js → js = [])
    (hkeep : ∀ s i is t js, R s (i :: is) t js → ∀ o s', Step s i o s' →
      ∃ j js' t', js = j :: js' ∧ Step t j o t' ∧ R s' is t' js')
    {s s' t : σ} {is js : List ι} {os : List ο} (hR : R s is t js) (h : Emits Step s is os s') :
    ∃ t', Emits Step t js os t' ∧ R s' [] t' [] := by
  induction is generalizing s t js os with
  | nil =>
      obtain ⟨rfl, rfl⟩ := h
      obtain rfl := hend _ _ _ hR
      exact ⟨t, emits_nil t, hR⟩
  | cons i is ih =>
      obtain ⟨o, s₁, rest, hstep, rfl, h⟩ := h
      obtain ⟨j, js', t₁, rfl, hstep', hR'⟩ := hkeep _ _ _ _ _ hR _ _ hstep
      obtain ⟨t', h', hlast⟩ := ih hR' h
      exact ⟨t', .cons hstep' h', hlast⟩

end Lib

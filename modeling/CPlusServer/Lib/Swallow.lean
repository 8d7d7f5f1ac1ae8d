import CPlusServer.Lib.Assoc

/-!
# Empty values that swallow

Pairs of a key and a value are read from a text. Behind an empty value the
separator is taken for the value's first symbol, so the value swallows the next
pair. A list is read as it was written exactly when the last pair of each key is
neither swallowed nor empty.
-/

namespace Lib

/-- Items that are written as pairs, and the value that is read where one swallows the next. -/
structure Swallowing (ι κ β : Type) where
  key : ι → κ
  value : ι → List β
  sep : β
  swallow : ι → ι → List β
  swallow_head : ∀ a b, (swallow a b).head? = some sep

namespace Swallowing

variable {ι κ β : Type} (S : Swallowing ι κ β)

def pair (a : ι) : κ × List β := (S.key a, S.value a)

/-- The items that do not stand directly behind an unswallowed one with an empty value. -/
def unswallowed : List ι → List ι
  | [] => []
  | [a] => [a]
  | a :: b :: l => if S.value a = [] then a :: unswallowed l else a :: unswallowed (b :: l)

def EndsEmpty : List ι → Prop
  | [] => False
  | [a] => S.value a = []
  | a :: b :: l => if S.value a = [] then EndsEmpty l else EndsEmpty (b :: l)

def readPairs : List ι → List (κ × List β)
  | [] => []
  | [a] => [S.pair a]
  | a :: b :: l =>
      if S.value a = [] then (S.key a, S.swallow a b) :: readPairs l
      else S.pair a :: readPairs (b :: l)

/-- Of each key the last item that is not swallowed has the value of the last item, not empty. -/
def LastRead [DecidableEq κ] (l : List ι) : Prop :=
  ∀ a ∈ l, ∃ v, v ≠ [] ∧ lastValue (S.key a) ((S.unswallowed l).map S.pair) = some v ∧
    lastValue (S.key a) (l.map S.pair) = some v

theorem readPairs_ne_nil {l : List ι} (h : l ≠ []) : S.readPairs l ≠ [] := by
  cases l with
  | nil => exact absurd rfl h
  | cons a l =>
      cases l with
      | nil => simp [readPairs]
      | cons b l =>
          rw [readPairs]
          split_ifs <;> simp

theorem mem_of_mem_unswallowed {l : List ι} {a : ι} (h : a ∈ S.unswallowed l) : a ∈ l := by
  induction l using unswallowed.induct S with
  | case1 => cases h
  | case2 b => exact h
  | case3 b c l hempty ih =>
      rw [unswallowed, if_pos hempty] at h
      rcases List.mem_cons.1 h with rfl | h
      · exact List.mem_cons_self
      · exact List.mem_cons_of_mem _ (List.mem_cons_of_mem _ (ih h))
  | case4 b c l hvalue ih =>
      rw [unswallowed, if_neg hvalue] at h
      rcases List.mem_cons.1 h with rfl | h
      · exact List.mem_cons_self
      · exact List.mem_cons_of_mem _ (ih h)

variable [DecidableEq κ]

/-- What is read last for a key: the last value that is not swallowed, or where that is empty
one that begins with the separator. -/
theorem lastValue_readPairs {l : List ι} (h : ¬ S.EndsEmpty l) (k : κ) :
    match lastValue k ((S.unswallowed l).map S.pair) with
    | none => lastValue k (S.readPairs l) = none
    | some [] => ∃ w, lastValue k (S.readPairs l) = some (S.sep :: w)
    | some (b :: v) => lastValue k (S.readPairs l) = some (b :: v) := by
  induction l using readPairs.induct S with
  | case1 => rfl
  | case2 a =>
      have hvalue : S.value a ≠ [] := h
      obtain ⟨b, v, hv⟩ := List.exists_cons_of_ne_nil hvalue
      by_cases hk : S.key a = k <;> simp [unswallowed, readPairs, lastValue, pair, hk, hv]
  | case3 a b l hempty ih =>
      rw [EndsEmpty, if_pos hempty] at h
      have hrest := ih h
      obtain ⟨w, hw⟩ := List.head?_eq_some_iff.1 (S.swallow_head a b)
      rw [unswallowed, if_pos hempty, readPairs, if_pos hempty, List.map_cons, lastValue,
        lastValue]
      cases hlast : lastValue k ((S.unswallowed l).map S.pair) with
      | none =>
          rw [hlast] at hrest
          by_cases hk : S.key a = k <;> simp_all [pair]
      | some v =>
          rw [hlast] at hrest
          cases v with
          | nil =>
              obtain ⟨u, hu⟩ := hrest
              exact ⟨u, by simp [hu]⟩
          | cons c v =>
              dsimp only at hrest ⊢
              simp [hrest]
  | case4 a b l hvalue ih =>
      rw [EndsEmpty, if_neg hvalue] at h
      have hrest := ih h
      obtain ⟨c, u, hu⟩ := List.exists_cons_of_ne_nil hvalue
      rw [unswallowed, if_neg hvalue, readPairs, if_neg hvalue, List.map_cons, lastValue,
        lastValue]
      cases hlast : lastValue k ((S.unswallowed (b :: l)).map S.pair) with
      | none =>
          rw [hlast] at hrest
          by_cases hk : S.key a = k <;> simp_all [pair]
      | some v =>
          rw [hlast] at hrest
          cases v with
          | nil =>
              obtain ⟨w, hw⟩ := hrest
              exact ⟨w, by simp [hw]⟩
          | cons d v =>
              dsimp only at hrest ⊢
              simp [hrest]

theorem lastValue_readPairs_eq_none {l : List ι} (h : ¬ S.EndsEmpty l) {k : κ}
    (hk : ∀ a ∈ l, S.key a ≠ k) : lastValue k (S.readPairs l) = none := by
  have hnone : lastValue k ((S.unswallowed l).map S.pair) = none := by
    rw [lastValue_eq_none_iff]
    intro kv hkv
    obtain ⟨a, ha, rfl⟩ := List.mem_map.1 hkv
    exact hk a (S.mem_of_mem_unswallowed ha)
  have hread := S.lastValue_readPairs h k
  rw [hnone] at hread
  exact hread

/-- **Reading.** Where no value contains the separator, each key is read as it is written exactly
when its last item is read. -/
theorem readPairs_same_iff {l : List ι} (h : ¬ S.EndsEmpty l) (hsep : ∀ a ∈ l, S.sep ∉ S.value a) :
    (∀ k, lastValue k (S.readPairs l) = lastValue k (l.map S.pair)) ↔ S.LastRead l := by
  constructor
  · intro hsame a ha
    have hmem : S.pair a ∈ l.map S.pair := List.mem_map_of_mem ha
    obtain ⟨v, hv⟩ := exists_lastValue hmem
    have hread := S.lastValue_readPairs h (S.key a)
    have hlast : lastValue (S.key a) (S.readPairs l) = some v := (hsame _).trans hv
    cases hun : lastValue (S.key a) ((S.unswallowed l).map S.pair) with
    | none =>
        rw [hun, hlast] at hread
        cases hread
    | some u =>
        rw [hun, hlast] at hread
        cases u with
        | nil =>
            -- no written value begins with the separator
            obtain ⟨w, hw⟩ := hread
            obtain ⟨b, hb, heq⟩ := List.mem_map.1 (mem_of_lastValue hv)
            have hvalue : S.value b = S.sep :: w :=
              (congrArg Prod.snd heq).trans (Option.some.inj hw)
            exact absurd (by simp [hvalue]) (hsep b hb)
        | cons b u =>
            have hvalue : v = b :: u := Option.some.inj hread
            exact ⟨v, by simp [hvalue], by rw [hvalue], hv⟩
  · intro hlast k
    by_cases hkey : ∃ a ∈ l, S.key a = k
    · obtain ⟨a, ha, rfl⟩ := hkey
      obtain ⟨v, hne, hun, hwritten⟩ := hlast a ha
      have hread := S.lastValue_readPairs h (S.key a)
      obtain ⟨b, u, rfl⟩ := List.exists_cons_of_ne_nil hne
      rw [hun] at hread
      exact hread.trans hwritten.symm
    · have hnot : ∀ a ∈ l, S.key a ≠ k := fun a ha heq => hkey ⟨a, ha, heq⟩
      rw [S.lastValue_readPairs_eq_none h hnot, eq_comm, lastValue_eq_none_iff]
      intro kv hkv
      obtain ⟨a, ha, rfl⟩ := List.mem_map.1 hkv
      exact hnot a ha

end Swallowing

end Lib

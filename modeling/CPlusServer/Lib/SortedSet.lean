import Mathlib.Order.Lattice

/-! # Ordered sets with iterators

A set ordered by a key is the sorted list of its elements. An iterator is the
element it points to, or none for the end; it stays valid while other elements
come and go, which is why a range that ends at it can have grown. Nothing here
names a program.
-/

namespace Lib

variable {α κ : Type} [LinearOrder κ] (key : α → κ)

def Sorted (l : List α) : Prop := l.Pairwise fun a b => key a < key b

/-- Insertion; an element whose key is there already is dropped. -/
def emplace (a : α) : List α → List α
  | [] => [a]
  | b :: l =>
      if key a < key b then a :: b :: l
      else if key b < key a then b :: emplace a l
      else b :: l

def lowerBound (k : κ) : List α → Option α
  | [] => none
  | b :: l => if key b < k then lowerBound k l else some b

def upTo : Option α → List α → List α
  | none, l => l
  | some b, l => l.takeWhile fun a => decide (key a ≠ key b)

def eraseUpTo : Option α → List α → List α
  | none, _ => []
  | some b, l => l.dropWhile fun a => decide (key a ≠ key b)

variable {key}

/-! ## Insertion -/

theorem mem_emplace {a : α} {l : List α} (hnew : ∀ b ∈ l, key b ≠ key a) {x : α} :
    x ∈ emplace key a l ↔ x = a ∨ x ∈ l := by
  induction l with
  | nil => simp [emplace]
  | cons b l ih =>
      have hrest := ih fun b' hb' => hnew b' (List.mem_cons_of_mem b hb')
      have hne : key b ≠ key a := hnew b List.mem_cons_self
      unfold emplace
      by_cases hlt : key a < key b
      · rw [if_pos hlt, List.mem_cons]
      · have hgt : key b < key a := lt_of_le_of_ne (not_lt.1 hlt) hne
        rw [if_neg hlt, if_pos hgt, List.mem_cons, hrest, List.mem_cons]
        exact or_left_comm

theorem mem_of_mem_emplace {a x : α} {l : List α} (h : x ∈ emplace key a l) : x = a ∨ x ∈ l := by
  induction l with
  | nil =>
      left
      simpa [emplace] using h
  | cons b l ih =>
      unfold emplace at h
      by_cases hlt : key a < key b
      · rw [if_pos hlt] at h
        exact List.mem_cons.1 h
      · rw [if_neg hlt] at h
        by_cases hgt : key b < key a
        · rw [if_pos hgt] at h
          rcases List.mem_cons.1 h with hx | hx
          · exact .inr (List.mem_cons.2 (.inl hx))
          · exact (ih hx).imp id (List.mem_cons_of_mem b)
        · rw [if_neg hgt] at h
          exact .inr h

theorem Sorted.emplace {a : α} {l : List α} (h : Sorted key l) :
    Sorted key (emplace key a l) := by
  induction l with
  | nil => exact List.pairwise_singleton _ a
  | cons b l ih =>
      rcases List.pairwise_cons.1 h with ⟨hb, hl⟩
      unfold Lib.emplace
      by_cases hlt : key a < key b
      · rw [if_pos hlt]
        refine List.pairwise_cons.2 ⟨fun x hx => ?_, h⟩
        rcases List.mem_cons.1 hx with hx | hx
        · rw [hx]
          exact hlt
        · exact hlt.trans (hb x hx)
      · rw [if_neg hlt]
        by_cases hgt : key b < key a
        · rw [if_pos hgt]
          refine List.pairwise_cons.2 ⟨fun x hx => ?_, ih hl⟩
          rcases mem_of_mem_emplace hx with hx | hx
          · rw [hx]
            exact hgt
          · exact hb x hx
        · rw [if_neg hgt]
          exact h

/-! ## Ranges -/

theorem mem_of_lowerBound {k : κ} {l : List α} {b : α} (h : lowerBound key k l = some b) :
    b ∈ l ∧ k ≤ key b := by
  induction l with
  | nil => exact nomatch h
  | cons c l ih =>
      unfold lowerBound at h
      by_cases hlt : key c < k
      · rw [if_pos hlt] at h
        exact ⟨List.mem_cons_of_mem c (ih h).1, (ih h).2⟩
      · rw [if_neg hlt] at h
        cases h
        exact ⟨List.mem_cons_self, not_lt.1 hlt⟩

/-- In a sorted list, what stands before an iterator is what has a smaller key. -/
theorem mem_upTo {b : α} {l : List α} (h : Sorted key l) (hb : b ∈ l) {a : α} :
    a ∈ upTo key (some b) l ↔ a ∈ l ∧ key a < key b := by
  induction l with
  | nil => exact absurd hb List.not_mem_nil
  | cons c l ih =>
      rcases List.pairwise_cons.1 h with ⟨hc, hl⟩
      by_cases heq : key c = key b
      · have hnil : upTo key (some b) (c :: l) = [] := by simp [upTo, heq]
        rw [hnil]
        refine ⟨fun ha => absurd ha List.not_mem_nil, fun ha => ?_⟩
        rcases List.mem_cons.1 ha.1 with hac | hal
        · rw [hac, heq] at ha
          exact absurd ha.2 (lt_irrefl _)
        · have hlt := hc a hal
          rw [heq] at hlt
          exact absurd ha.2 (lt_asymm hlt)
      · have hbl : b ∈ l := by
          rcases List.mem_cons.1 hb with hbc | hbl
          · rw [hbc] at heq
            exact absurd rfl heq
          · exact hbl
        have hcons : upTo key (some b) (c :: l) = c :: upTo key (some b) l := by
          simp [upTo, heq]
        rw [hcons, List.mem_cons, List.mem_cons, ih hl hbl]
        constructor
        · intro ha
          rcases ha with ha | ha
          · rw [ha]
            exact ⟨.inl rfl, hc b hbl⟩
          · exact ⟨.inr ha.1, ha.2⟩
        · intro ha
          exact ha.1.imp id fun hal => ⟨hal, ha.2⟩

theorem lowerBound_none {k : κ} {l : List α} (h : lowerBound key k l = none) :
    ∀ a ∈ l, key a < k := by
  induction l with
  | nil => exact fun a ha => absurd ha List.not_mem_nil
  | cons c l ih =>
      unfold lowerBound at h
      by_cases hlt : key c < k
      · rw [if_pos hlt] at h
        intro a ha
        rcases List.mem_cons.1 ha with hac | hal
        · rw [hac]
          exact hlt
        · exact ih h a hal
      · rw [if_neg hlt] at h
        cases h

/-- The lower bound is the first of the elements that are not below `k`. -/
theorem lt_of_lt_lowerBound {k : κ} {l : List α} (hs : Sorted key l) {b : α}
    (h : lowerBound key k l = some b) {a : α} (ha : a ∈ l) (hlt : key a < key b) : key a < k := by
  induction l with
  | nil => exact absurd ha List.not_mem_nil
  | cons c l ih =>
      rcases List.pairwise_cons.1 hs with ⟨hc, hl⟩
      unfold lowerBound at h
      by_cases hck : key c < k
      · rw [if_pos hck] at h
        rcases List.mem_cons.1 ha with hac | hal
        · rw [hac]
          exact hck
        · exact ih hl h hal
      · rw [if_neg hck] at h
        cases h
        rcases List.mem_cons.1 ha with hac | hal
        · rw [hac] at hlt
          exact absurd hlt (lt_irrefl _)
        · exact absurd hlt (lt_asymm (hc a hal))

theorem mem_upTo_lowerBound {k : κ} {l : List α} (h : Sorted key l) {a : α} :
    a ∈ upTo key (lowerBound key k l) l ↔ a ∈ l ∧ key a < k := by
  cases hb : lowerBound key k l with
  | none =>
      constructor
      · intro ha
        exact ⟨ha, lowerBound_none hb a ha⟩
      · intro ha
        exact ha.1
  | some b =>
      rcases mem_of_lowerBound hb with ⟨hmem, hle⟩
      rw [mem_upTo h hmem]
      constructor
      · intro ha
        exact ⟨ha.1, lt_of_lt_lowerBound h hb ha.1 ha.2⟩
      · intro ha
        exact ⟨ha.1, lt_of_lt_of_le ha.2 hle⟩

theorem upTo_sublist (it : Option α) (l : List α) : (upTo key it l).Sublist l := by
  cases it with
  | none => exact List.Sublist.refl l
  | some b => exact List.takeWhile_sublist _

theorem mem_eraseUpTo {b : α} {l : List α} (h : Sorted key l) (hb : b ∈ l) {a : α} :
    a ∈ eraseUpTo key (some b) l ↔ a ∈ l ∧ key b ≤ key a := by
  induction l with
  | nil => exact absurd hb List.not_mem_nil
  | cons c l ih =>
      obtain ⟨hc, hl⟩ := List.pairwise_cons.1 h
      by_cases heq : key c = key b
      · have hall : eraseUpTo key (some b) (c :: l) = c :: l := by simp [eraseUpTo, heq]
        rw [hall]
        refine ⟨fun ha => ⟨ha, ?_⟩, fun ha => ha.1⟩
        rw [← heq]
        rcases List.mem_cons.1 ha with hac | hal
        · rw [hac]
        · exact le_of_lt (hc a hal)
      · have hbl : b ∈ l := by
          rcases List.mem_cons.1 hb with hbc | hbl
          · rw [hbc] at heq
            exact absurd rfl heq
          · exact hbl
        have hcons : eraseUpTo key (some b) (c :: l) = eraseUpTo key (some b) l := by
          simp [eraseUpTo, heq]
        rw [hcons, ih hl hbl, List.mem_cons]
        refine ⟨fun ha => ⟨.inr ha.1, ha.2⟩, fun ha => ⟨?_, ha.2⟩⟩
        rcases ha.1 with hac | hal
        · rw [hac] at ha
          exact absurd (hc b hbl) (not_lt.2 ha.2)
        · exact hal

theorem Sorted.eraseUpTo {it : Option α} {l : List α} (h : Sorted key l) :
    Sorted key (eraseUpTo key it l) := by
  cases it with
  | none => exact List.Pairwise.nil
  | some b => exact List.Pairwise.sublist (List.dropWhile_sublist _) h

/-- What an iterator ends: with the end itself, every key is before it. -/
def Before (key : α → κ) (it : Option α) (k : κ) : Prop :=
  match it with
  | none => True
  | some b => k < key b

instance (it : Option α) (k : κ) : Decidable (Before key it k) :=
  match it with
  | none => isTrue trivial
  | some b => inferInstanceAs (Decidable (k < key b))

theorem mem_upTo_iff {it : Option α} {l : List α} (h : Sorted key l) (hit : ∀ b ∈ it, b ∈ l)
    {a : α} : a ∈ upTo key it l ↔ a ∈ l ∧ Before key it (key a) := by
  cases it with
  | none => exact ⟨fun ha => ⟨ha, trivial⟩, fun ha => ha.1⟩
  | some b => exact mem_upTo h (hit b rfl)

theorem mem_eraseUpTo_iff {it : Option α} {l : List α} (h : Sorted key l) (hit : ∀ b ∈ it, b ∈ l)
    {a : α} : a ∈ eraseUpTo key it l ↔ a ∈ l ∧ ¬ Before key it (key a) := by
  cases it with
  | none => exact ⟨fun ha => absurd ha List.not_mem_nil, fun ha => absurd trivial ha.2⟩
  | some b => exact (mem_eraseUpTo h (hit b rfl)).trans (and_congr_right fun _ => not_lt.symm)

end Lib

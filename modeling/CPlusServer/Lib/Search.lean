import CPlusServer.Lib.Delimited

/-! # Searching and cutting a string

`find` and `substr` of `std::string` over any symbols. A search that finds
nothing gives `npos`, the largest `size_t`, which is none here: it wraps around
when something is added to it, and as a count it reaches to the end. A cut that
starts behind the end is an exception.
-/

namespace Lib

variable {α : Type} [DecidableEq α]

def find (xs pat : List α) (pos : Nat) : Option Nat :=
  if pos ≤ xs.length then (cut pat (xs.drop pos)).map fun p => pos + p.1.length else none

/-- `find_last_of` for one symbol. -/
def findLastOf (xs : List α) (c : α) : Option Nat :=
  match xs with
  | [] => none
  | x :: xs =>
      match findLastOf xs c with
      | some i => some (i + 1)
      | none => if x = c then some 0 else none

/-- `p + k` for the result `p` of a search and a positive `k`. -/
def behind (p : Option Nat) (k : Nat) : Nat :=
  match p with
  | some i => i + k
  | none => k - 1

def substr (xs : List α) (pos : Nat) (count : Option Nat) : Option (List α) :=
  if pos ≤ xs.length then
    match count with
    | some n => some ((xs.drop pos).take n)
    | none => some (xs.drop pos)
  else none

def untilFirst (sep xs : List α) : List α := ((cut sep xs).map Prod.fst).getD xs

variable {xs pat : List α} {pos i : Nat}

/-! ## Where a pattern is found -/

theorem cut_eq_none_iff (hpat : pat ≠ []) : cut pat xs = none ↔ ¬ pat <:+: xs := by
  induction xs with
  | nil => simp [cut, hpat]
  | cons x xs ih =>
      by_cases hprefix : pat <+: x :: xs
      · rw [cut, if_pos hprefix]
        exact iff_of_false (by simp) fun hno => hno hprefix.isInfix
      · rw [cut_cons hprefix, Option.map_eq_none_iff, ih, List.infix_cons_iff, or_iff_right hprefix]

theorem find_eq_none_iff (hpat : pat ≠ []) : find xs pat 0 = none ↔ ¬ pat <:+: xs := by
  unfold find
  rw [if_pos (Nat.zero_le _), Option.map_eq_none_iff, List.drop_zero]
  exact cut_eq_none_iff hpat

/-- The text around an occurrence that is found. -/
theorem eq_append_of_find (h : find xs pat pos = some i) :
    ∃ before rest, xs = before ++ pat ++ rest ∧ before.length = i ∧ pos ≤ i := by
  unfold find at h
  split_ifs at h with hpos
  obtain ⟨⟨before, rest⟩, hcut, rfl⟩ := Option.map_eq_some_iff.1 h
  refine ⟨xs.take pos ++ before, rest, ?_, ?_, Nat.le_add_right _ _⟩
  · rw [List.append_assoc, List.append_assoc, ← List.append_assoc before, ← eq_append_of_cut hcut,
      List.take_append_drop]
  · rw [List.length_append, List.length_take, Nat.min_eq_left hpos]

theorem find_add_length_le (h : find xs pat pos = some i) : i + pat.length ≤ xs.length := by
  obtain ⟨before, rest, rfl, rfl, -⟩ := eq_append_of_find h
  simp only [List.length_append]
  omega

theorem find_append (pat before after : List α) :
    find (before ++ after) pat before.length =
      (cut pat after).map fun p => before.length + p.1.length := by
  unfold find
  rw [if_pos (by simp), List.drop_left]

theorem find_zero (xs pat : List α) : find xs pat 0 = (cut pat xs).map fun p => p.1.length := by
  have hfind := find_append pat [] xs
  simpa using hfind

/-- A symbol that the pattern does not have parts the occurrences. -/
theorem cut_append_cons {s : α} {ys : List α} (hs : s ∉ pat) (h : ¬ pat <:+: xs) :
    cut pat (xs ++ s :: ys) = (cut pat ys).map fun p => (xs ++ s :: p.1, p.2) := by
  have hpat : pat ≠ [] := by
    intro hnil
    rw [hnil] at h
    exact h List.nil_infix
  induction xs with
  | nil =>
      have hno : ¬ pat <+: s :: ys := by
        intro hprefix
        obtain ⟨x, tail, rfl⟩ := List.exists_cons_of_ne_nil hpat
        apply hs
        rw [(List.cons_prefix_cons.1 hprefix).1]
        exact List.mem_cons_self
      exact cut_cons hno
  | cons x xs ih =>
      have hrest : ¬ pat <:+: xs := fun hin => h (List.infix_cons hin)
      have hno : ¬ pat <+: x :: (xs ++ s :: ys) := by
        intro hprefix
        rw [← List.cons_append] at hprefix
        rcases List.prefix_or_prefix_of_prefix hprefix (List.prefix_append (x :: xs) (s :: ys)) with
          hin | ⟨tail, rfl⟩
        · exact h hin.isInfix
        · have htail := (List.prefix_append_right_inj (x :: xs)).1 hprefix
          cases tail with
          | nil => exact h (by rw [List.append_nil])
          | cons y tail =>
              apply hs
              rw [(List.cons_prefix_cons.1 htail).1]
              simp
      rw [List.cons_append, cut_cons hno, ih hrest, Option.map_map]
      rfl

theorem not_infix_append_cons {s : α} {ys : List α} (hs : s ∉ pat) (hxs : ¬ pat <:+: xs)
    (hys : ¬ pat <:+: ys) : ¬ pat <:+: xs ++ s :: ys := by
  have hpat : pat ≠ [] := by
    rintro rfl
    exact hxs List.nil_infix
  rw [← cut_eq_none_iff hpat] at hys ⊢
  rw [cut_append_cons hs hxs, hys]
  rfl

/-- An occurrence does not reach into a part of the text without its last symbol. -/
theorem find_add_length_le_of_not_mem {front back init : List α} {last : α} (hback : last ∉ back)
    (h : find (front ++ back) (init ++ [last]) pos = some i) :
    i + init.length + 1 ≤ front.length := by
  obtain ⟨before, rest, heq, rfl, -⟩ := eq_append_of_find h
  by_contra hlt
  apply hback
  have hat : (front ++ back)[before.length + init.length]? = some last := by
    rw [heq]
    simp
  rw [List.getElem?_append_right (by omega)] at hat
  exact List.mem_of_getElem? hat

theorem findLastOf_lt {c : α} (h : findLastOf xs c = some i) : i < xs.length := by
  induction xs generalizing i with
  | nil => cases h
  | cons x xs ih =>
      rw [List.length_cons]
      unfold findLastOf at h
      cases hrest : findLastOf xs c with
      | some j =>
          rw [hrest] at h
          have hlt := ih hrest
          obtain rfl := Option.some.inj h
          omega
      | none =>
          rw [hrest] at h
          dsimp only at h
          split_ifs at h
          obtain rfl := Option.some.inj h
          omega

/-! ## What is cut out -/

omit [DecidableEq α] in
theorem substr_eq_none_iff {count : Option Nat} :
    substr xs pos count = none ↔ xs.length < pos := by
  unfold substr
  split_ifs with hpos
  · refine iff_of_false ?_ (by omega)
    cases count <;> simp
  · exact iff_of_true rfl (by omega)

theorem substr_find (pat before after : List α) :
    substr (before ++ after) before.length
        ((find (before ++ after) pat before.length).map fun e => e - before.length) =
      some (untilFirst pat after) := by
  rw [find_append]
  unfold substr untilFirst
  rw [if_pos (by simp), List.drop_left]
  cases hcut : cut pat after with
  | none => rfl
  | some p =>
      obtain ⟨piece, rest⟩ := p
      have heq := eq_append_of_cut hcut
      simp only [Option.map_some, Option.getD_some, Option.some.injEq, Nat.add_sub_cancel_left]
      rw [heq, List.append_assoc, List.take_left]

/-- A cut goes on to an occurrence, so it does not end in front of any other symbol. -/
theorem untilFirst_append_cons_ne {s x : α} (hx : x ≠ s) (tail ys : List α) :
    untilFirst (s :: tail) (xs ++ x :: ys) ≠ xs := by
  intro heq
  unfold untilFirst at heq
  cases hcut : cut (s :: tail) (xs ++ x :: ys) with
  | none =>
      rw [hcut] at heq
      have hlen := congrArg List.length heq
      simp at hlen
  | some p =>
      obtain ⟨piece, rest⟩ := p
      rw [hcut] at heq
      have hpiece : piece = xs := heq
      have hsplit := eq_append_of_cut hcut
      rw [hpiece, List.append_assoc, List.append_cancel_left_eq, List.cons_append] at hsplit
      exact hx (List.cons.inj hsplit).1

/-- Up to an occurrence behind a symbol that the pattern does not have. -/
theorem untilFirst_of_not_mem {s s' : α} (hs : s ∉ pat) (hs' : s' ∉ pat) (h : ¬ pat <:+: xs)
    (rest : List α) : untilFirst pat (xs ++ s :: s' :: (pat ++ rest)) = xs ++ [s, s'] := by
  have hnil : ¬ pat <:+: [] := by
    intro hin
    rw [List.infix_nil.1 hin] at h
    exact h List.nil_infix
  have hcut := @cut_append_cons _ _ [] pat s' (pat ++ rest) hs' hnil
  rw [List.nil_append, cut_append] at hcut
  unfold untilFirst
  rw [cut_append_cons hs h, hcut]
  rfl

end Lib

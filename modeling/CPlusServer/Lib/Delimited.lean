import Mathlib.Data.List.Basic
import Mathlib.Data.List.Infix

/-! # Texts with delimiters

`cut` finds the first occurrence of a delimiter and `split` cuts at all of them.
A text of lines behind each of which stands the two-symbol line end, and a blank
line behind the last, is cut before the blank line and split into the lines
again, when no line is empty or has the first symbol of the line end in it.
-/

namespace Lib

variable {α : Type} [DecidableEq α]

def cut (sep : List α) : List α → Option (List α × List α)
  | [] => if sep = [] then some ([], []) else none
  | x :: xs =>
      if sep <+: x :: xs then some ([], (x :: xs).drop sep.length)
      else (cut sep xs).map fun p => (x :: p.1, p.2)

def split (sep xs : List α) : List (List α) :=
  match cut sep xs with
  | none => [xs]
  | some (piece, rest) => if rest.length < xs.length then piece :: split sep rest else [xs]
termination_by xs.length

/-! ## The first occurrence -/

theorem cut_append (sep rest : List α) : cut sep (sep ++ rest) = some ([], rest) := by
  cases hsep : sep with
  | nil => cases rest <;> simp [cut]
  | cons s tail =>
      have hprefix : s :: tail <+: s :: (tail ++ rest) := List.prefix_append (s :: tail) rest
      simp [cut, hprefix]

theorem cut_cons {sep xs : List α} {x : α} (h : ¬ sep <+: x :: xs) :
    cut sep (x :: xs) = (cut sep xs).map fun p => (x :: p.1, p.2) := by
  rw [cut, if_neg h]

/-- An occurrence starts with the first symbol of the delimiter only. -/
theorem cut_of_not_mem {s : α} {tail line xs : List α} (h : s ∉ line) :
    cut (s :: tail) (line ++ xs) = (cut (s :: tail) xs).map fun p => (line ++ p.1, p.2) := by
  induction line with
  | nil => simp
  | cons x line ih =>
      obtain ⟨hx, hline⟩ := not_or.1 (mt List.mem_cons.2 h)
      have hno : ¬ s :: tail <+: x :: (line ++ xs) := fun hprefix =>
        hx (List.cons_prefix_cons.1 hprefix).1
      rw [List.cons_append, cut_cons hno, ih hline, Option.map_map]
      rfl

theorem cut_line {s : α} {tail line rest : List α} (h : s ∉ line) :
    cut (s :: tail) (line ++ s :: (tail ++ rest)) = some (line, rest) := by
  rw [cut_of_not_mem h, ← List.cons_append, cut_append]
  simp

theorem eq_append_of_cut {sep xs before rest : List α} (h : cut sep xs = some (before, rest)) :
    xs = before ++ sep ++ rest := by
  induction xs generalizing before with
  | nil =>
      by_cases hsep : sep = []
      · simp [cut, hsep] at h
        simp [h, hsep]
      · simp [cut, hsep] at h
  | cons x xs ih =>
      by_cases hprefix : sep <+: x :: xs
      · rw [cut, if_pos hprefix] at h
        cases h
        obtain ⟨rest, heq⟩ := hprefix
        simp [← heq]
      · rw [cut_cons hprefix] at h
        obtain ⟨⟨before', rest'⟩, hcut, heq⟩ := Option.map_eq_some_iff.1 h
        cases heq
        rw [ih hcut]
        rfl

theorem split_of_cut {sep xs piece rest : List α} (hsep : sep ≠ [])
    (h : cut sep xs = some (piece, rest)) : split sep xs = piece :: split sep rest := by
  have hlen : rest.length < xs.length := by
    have hpos := List.length_pos_iff.2 hsep
    rw [eq_append_of_cut h, List.length_append, List.length_append]
    omega
  rw [split, h]
  dsimp only
  rw [if_pos hlen]

theorem split_of_none {sep xs : List α} (h : cut sep xs = none) : split sep xs = [xs] := by
  rw [split, h]

/-! ## Lines -/

/-- The lines with the line end `a b` between them. -/
def joinLines (a b : α) : List (List α) → List α
  | [] => []
  | [line] => line
  | line :: lines => line ++ a :: b :: joinLines a b lines

def endLines (a b : α) (lines : List (List α)) : List α := lines.flatMap fun line => line ++ [a, b]

section
variable {a b : α} {lines : List (List α)}

theorem split_joinLines (hne : lines ≠ []) (hlines : ∀ line ∈ lines, a ∉ line) :
    split [a, b] (joinLines a b lines) = lines := by
  induction lines with
  | nil => exact absurd rfl hne
  | cons line lines ih =>
      have hline := hlines line List.mem_cons_self
      cases lines with
      | nil =>
          refine split_of_none ?_
          have hcut := @cut_of_not_mem _ _ a [b] line [] hline
          rw [List.append_nil] at hcut
          rw [joinLines, hcut]
          simp [cut]
      | cons next lines =>
          have hcut : cut [a, b] (line ++ a :: b :: joinLines a b (next :: lines)) =
              some (line, joinLines a b (next :: lines)) := @cut_line _ _ a [b] _ _ hline
          rw [joinLines, split_of_cut (by simp) hcut,
            ih (by simp) fun line hmem => hlines line (List.mem_cons_of_mem _ hmem)]
          simp

/-- The text is cut at its blank line, whatever comes behind it. -/
theorem cut_endLines (hab : a ≠ b) (hne : lines ≠ [])
    (hlines : ∀ line ∈ lines, line ≠ [] ∧ a ∉ line) (rest : List α) :
    cut [a, b, a, b] (endLines a b lines ++ a :: b :: rest) = some (joinLines a b lines, rest) := by
  induction lines with
  | nil => exact absurd rfl hne
  | cons line lines ih =>
      obtain ⟨-, hline⟩ := hlines line List.mem_cons_self
      cases lines with
      | nil =>
          simp only [endLines, joinLines, List.flatMap_cons, List.flatMap_nil, List.append_nil,
            List.append_assoc, List.cons_append, List.nil_append]
          exact @cut_line _ _ a [b, a, b] _ _ hline
      | cons next lines =>
          have hrest := ih (by simp) fun line hmem => hlines line (List.mem_cons_of_mem _ hmem)
          obtain ⟨hnext, hclean⟩ := hlines next (by simp)
          obtain ⟨x, more, rfl⟩ := List.exists_cons_of_ne_nil hnext
          have hx : a ≠ x := fun heq => hclean (by simp [heq])
          simp only [endLines, List.flatMap_cons, List.append_assoc, List.cons_append,
            List.nil_append] at hrest ⊢
          rw [cut_of_not_mem hline, cut_cons (by simp [hx]), cut_cons (by simp [hab]), hrest]
          simp [joinLines]

end

end Lib

import Mathlib.Data.List.Basic
import Mathlib.Data.List.Infix

/-! # Items in order

Three ways in which a list of items goes on its way with no item cut, lost or overtaken: it is
taken from a channel, cut into groups that are joined to texts, and spread over several places,
each of which has the texts that were sent to it one behind the other. Nothing here names a
program.
-/

namespace Lib

/-! ## FIFO channels -/

/-- A channel is known by what was put into it and what has been taken out. -/
structure Fifo (α : Type) where
  sent : List α := []
  taken : List α := []
  inOrder : taken <+: sent := by exact List.nil_prefix

namespace Fifo

variable {α : Type}

def inFlight (f : Fifo α) : List α := f.sent.drop f.taken.length

theorem taken_append_inFlight (f : Fifo α) : f.taken ++ f.inFlight = f.sent := by
  obtain ⟨rest, hrest⟩ := f.inOrder
  unfold inFlight
  rw [← hrest, List.drop_left]

def push (f : Fifo α) (xs : List α) : Fifo α where
  sent := f.sent ++ xs
  taken := f.taken
  inOrder := f.inOrder.trans (List.prefix_append f.sent xs)

/-- None where something else comes first. -/
def take? [DecidableEq α] (f : Fifo α) (xs : List α) : Option (Fifo α) :=
  if h : xs <+: f.inFlight then
    some { f with
      taken := f.taken ++ xs
      inOrder := by
        rw [← f.taken_append_inFlight]
        exact (List.prefix_append_right_inj f.taken).2 h }
  else none

theorem take?_eq_some [DecidableEq α] {f f' : Fifo α} {xs : List α} (h : f.take? xs = some f') :
    f'.sent = f.sent ∧ f'.taken = f.taken ++ xs := by
  unfold take? at h
  split at h
  · cases h
    exact ⟨rfl, rfl⟩
  · cases h

end Fifo

/-! ## Groups -/

variable {α : Type}

/-- Each of the texts is some of the items joined, in order and all of them. -/
def Grouped (items texts : List (List α)) : Prop :=
  ∃ groups : List (List (List α)), groups.map List.flatten = texts ∧ groups.flatten = items

namespace Grouped

variable {items texts texts' : List (List α)} {s t x : List α}

theorem concat_nil (h : Grouped items texts) : Grouped items (texts ++ [[]]) := by
  obtain ⟨groups, rfl, rfl⟩ := h
  refine ⟨groups ++ [[]], ?_, ?_⟩
  · rw [List.map_append]
    rfl
  · rw [List.flatten_append]
    exact List.append_nil _

theorem concat_item (h : Grouped items (texts ++ [s])) :
    Grouped (items ++ [x]) (texts ++ [s ++ x]) := by
  obtain ⟨groups, hmap, rfl⟩ := h
  obtain ⟨before, rest, rfl, rfl, hrest⟩ := List.map_eq_append_iff.1 hmap
  obtain ⟨last, rfl, rfl⟩ := List.map_eq_singleton_iff.1 hrest
  refine ⟨before ++ [last ++ [x]], ?_, ?_⟩
  · simp
  · simp

theorem merge (h : Grouped items (texts ++ s :: t :: texts')) :
    Grouped items (texts ++ (s ++ t) :: texts') := by
  obtain ⟨groups, hmap, rfl⟩ := h
  obtain ⟨before, rest, rfl, rfl, hrest⟩ := List.map_eq_append_iff.1 hmap
  obtain ⟨first, behind, rfl, rfl, hbehind⟩ := List.map_eq_cons_iff.1 hrest
  obtain ⟨second, after, rfl, rfl, rfl⟩ := List.map_eq_cons_iff.1 hbehind
  refine ⟨before ++ (first ++ second) :: after, ?_, ?_⟩
  · simp
  · simp

theorem left (h : Grouped items (texts ++ texts')) :
    ∃ first, first <+: items ∧ Grouped first texts := by
  obtain ⟨groups, hmap, rfl⟩ := h
  obtain ⟨before, rest, rfl, rfl, -⟩ := List.map_eq_append_iff.1 hmap
  refine ⟨before.flatten, ?_, before, rfl, rfl⟩
  rw [List.flatten_append]
  exact List.prefix_append _ _

end Grouped

/-! ## Places -/

section Places

variable {κ : Type} [BEq κ] (k : κ) {k' : κ}

/-- What the texts leave at a place, each sent to the place of the same number. -/
def joinAt : List κ → List (List α) → List α
  | p :: places, t :: texts => if p == k then t ++ joinAt places texts else joinAt places texts
  | _, _ => []

variable {k} {places : List κ} {texts items : List (List α)} {t : List α} {n : Nat}

theorem joinAt_concat (hlen : places.length = texts.length) :
    joinAt k (places ++ [k']) (texts ++ [t]) =
      joinAt k places texts ++ if k' == k then t else [] := by
  induction places generalizing texts with
  | nil =>
      obtain rfl := List.eq_nil_of_length_eq_zero hlen.symm
      simp [joinAt]
  | cons p places ih =>
      cases texts with
      | nil => cases hlen
      | cons s texts =>
          have htail := ih (Nat.succ.inj hlen)
          simp only [List.cons_append, joinAt, htail]
          split
          · rw [List.append_assoc]
          · rfl

/-- All that is sent to one place is there. -/
theorem joinAt_eq_flatten [LawfulBEq κ] (hlen : places.length = texts.length) (hall : ∀ p ∈ places, p = k) :
    joinAt k places texts = texts.flatten := by
  induction places generalizing texts with
  | nil =>
      obtain rfl := List.eq_nil_of_length_eq_zero hlen.symm
      rfl
  | cons p places ih =>
      cases texts with
      | nil => cases hlen
      | cons s texts =>
          have htail := ih (Nat.succ.inj hlen) fun p hp => hall p (List.mem_cons_of_mem _ hp)
          rw [joinAt, hall p List.mem_cons_self, beq_self_eq_true, if_pos rfl, htail, List.flatten_cons]

theorem Grouped.joinAt (h : Grouped items texts) (k : κ) (places : List κ) :
    ∃ whole : List (List α), whole.Sublist items ∧ Lib.joinAt k places texts = whole.flatten := by
  obtain ⟨groups, rfl, rfl⟩ := h
  induction places generalizing groups with
  | nil => exact ⟨[], List.nil_sublist _, rfl⟩
  | cons p places ih =>
      cases groups with
      | nil => exact ⟨[], List.nil_sublist _, rfl⟩
      | cons group groups =>
          obtain ⟨whole, hsub, hjoin⟩ := ih groups
          rw [List.map_cons, Lib.joinAt, List.flatten_cons]
          cases hp : p == k with
          | true =>
              rw [if_pos rfl, hjoin]
              exact ⟨group ++ whole, hsub.append_left group, List.flatten_append.symm⟩
          | false =>
              rw [if_neg Bool.false_ne_true]
              exact ⟨whole, hsub.trans (List.sublist_append_right group _), hjoin⟩

end Places

end Lib

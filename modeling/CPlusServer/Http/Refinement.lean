import CPlusServer.Http.Scan
import Mathlib.Data.List.GetD
import Mathlib.Tactic.SplitIfs

/-!
# The loop computes the scanner

`Scan.cursor` places a scanner at an offset of the string. One iteration of the
loop in the head is one scanned byte, the terminator included, so the whole head
is one segment of the loop, and what follows it is the body branch or the end of
the string.
-/

namespace CPlusServer

namespace Scan

def cursor (s : Scan) (n : Nat) : Cursor where
  state := s.state
  request := s.request
  start := n - s.tok.length
  end_ := n
  key := s.key
  vers := s.vers

/-- The token is the text just before offset `n` of the terminated string. -/
def At (s : Scan) (begin : Bytes) (n : Nat) : Prop :=
  s.tok <:+ (begin ++ [NUL]).take n

theorem At.length_le {s : Scan} {begin : Bytes} {n : Nat} (h : s.At begin n) :
    s.tok.length ≤ n := by
  have hlen := List.IsSuffix.length_le h
  rw [List.length_take] at hlen
  omega

end Scan

namespace HttpContext

theorem take_terminated {begin : Bytes} {n : Nat} (hn : n ≤ begin.length) :
    (begin ++ [NUL]).take (n + 1) = (begin ++ [NUL]).take n ++ [begin.getD n NUL] := by
  have hlt : n < (begin ++ [NUL]).length := by simp; omega
  rw [List.take_succ_eq_append_getElem hlt]
  congr 2
  rcases Nat.lt_or_eq_of_le hn with hlt' | heq
  · rw [List.getElem_append_left hlt', List.getD_eq_getElem _ _ hlt']
  · subst heq
    simp [NUL]

theorem charAt_offset {begin : Bytes} {n : Nat} (hn : n ≤ begin.length) :
    charAt begin n = .ok (begin.getD n NUL) := by
  unfold charAt
  rcases Nat.lt_or_eq_of_le hn with hlt | heq
  · rw [if_pos (by omega), Int.toNat_natCast]
  · rw [if_neg (by omega), if_pos (by omega), heq, List.getD_eq_default _ _ (Nat.le_refl _)]

theorem charAt_outside {begin : Bytes} {i : Int} (hi : ¬ (0 ≤ i ∧ i ≤ begin.length)) :
    charAt begin i = .error .read := by
  unfold charAt
  rw [if_neg (by omega), if_neg (by omega)]

/-- No iteration is completed outside the string and its terminator. -/
theorem offset_of_body {begin : Bytes} {c c' : Cursor} (hb : (parseLoop begin).body c = .ok c') :
    0 ≤ c.end_ ∧ c.end_ ≤ begin.length := by
  by_contra hout
  simp [parseLoop, charAt_outside hout, bind, Except.bind] at hb

/-- The token of a placed scanner is the range the loop cuts out. -/
theorem substr_token {s : Scan} {begin : Bytes} {n : Nat} (h : s.At begin n)
    (hn : n ≤ begin.length) : substr begin (n - s.tok.length) n = .ok s.tok := by
  have hle := h.length_le
  rcases h with ⟨before, hbefore⟩
  rw [List.take_append_of_le_length hn] at hbefore
  have hlen : before.length = n - s.tok.length := by
    have := congrArg List.length hbefore
    rw [List.length_append, List.length_take] at this
    omega
  have hsplit : begin = before ++ (s.tok ++ begin.drop n) := by
    rw [← List.append_assoc, hbefore, List.take_append_drop]
  unfold substr
  rw [if_pos (by omega)]
  have hstart : ((n : Int) - s.tok.length).toNat = before.length := by omega
  have hcount : ((n : Int) - (n - s.tok.length)).toNat = s.tok.length := by omega
  rw [hstart, hcount]
  conv_lhs => rw [hsplit]
  rw [List.drop_left, List.take_left]

end HttpContext

namespace Scan

/-! ## One byte -/

theorem At.push {s : Scan} {begin : Bytes} {n : Nat} (h : s.At begin n)
    (hn : n ≤ begin.length) : (s.push (begin.getD n NUL)).At begin (n + 1) := by
  unfold At
  rw [HttpContext.take_terminated hn]
  rcases h with ⟨before, hbefore⟩
  exact ⟨before, by rw [← hbefore]; simp [Scan.push]⟩

theorem At.mark (s : Scan) {begin : Bytes} {n : Nat} (hn : n ≤ begin.length) :
    (s.mark (begin.getD n NUL)).At begin (n + 1) := by
  unfold At
  rw [HttpContext.take_terminated hn]
  exact ⟨_, rfl⟩

theorem byte_at {s : Scan} {begin : Bytes} {n : Nat} (h : s.At begin n)
    (hn : n ≤ begin.length) : (s.byte (begin.getD n NUL)).At begin (n + 1) := by
  have hpush (s' : Scan) (htok : s'.tok = s.tok) : (s'.push (begin.getD n NUL)).At begin (n + 1) :=
    At.push (by unfold At; rw [htok]; exact h) hn
  have hnil (s' : Scan) (htok : s'.tok = []) : s'.At begin (n + 1) := by
    unfold At; rw [htok]; exact List.nil_suffix
  unfold byte
  split <;> (try split_ifs) <;>
    first
    | exact hpush _ rfl
    | exact At.mark _ hn
    | exact hnil _ rfl

/-- One iteration in the head scans one byte. -/
theorem body_cursor {s : Scan} {begin : Bytes} {n : Nat} (h : s.At begin n)
    (hn : n ≤ begin.length) (hd : ¬ s.state.Done) :
    (HttpContext.parseLoop begin).body (s.cursor n) =
      .ok ((s.byte (begin.getD n NUL)).cursor (n + 1)) := by
  have htok := HttpContext.substr_token h hn
  have hread := HttpContext.charAt_offset hn
  have hlf : begin.getD n NUL = LF → (n : Int) < begin.length := by
    intro hch
    by_contra hge
    rw [List.getD_eq_default _ _ (by omega)] at hch
    exact absurd hch (by decide)
  simp only [State.Done, not_or] at hd
  simp only [HttpContext.parseLoop]
  show (do
    let ch ← HttpContext.charAt begin n
    let c ← HttpContext.dispatch begin (s.cursor n) ch
    return { c with end_ := c.end_ + 1 }) = _
  rw [hread]
  generalize begin.getD n NUL = ch at *
  cases hs : s.state <;> simp only [HttpContext.dispatch, cursor, hs, byte, htok] <;>
    (try split_ifs) <;> simp_all [push, mark, goto, bind, Except.bind, pure, Except.pure]
  -- a positive and a non-positive Content-Length exclude each other
  all_goals omega

/-! ## The head -/

theorem guard_cursor {s : Scan} {begin : Bytes} {n : Nat} :
    (HttpContext.parseLoop begin).guard (s.cursor n) = true ↔
      s.state ≠ .complete ∧ s.state ≠ .invaild ∧ s.tok.length < begin.length := by
  simp only [HttpContext.parseLoop, cursor, decide_eq_true_eq]
  have hsub : (n : Int) - (n - s.tok.length) = s.tok.length := by omega
  rw [hsub, Int.ofNat_lt]

theorem step_cursor {s : Scan} {begin : Bytes} {n : Nat} (h : s.At begin n)
    (hn : n < begin.length) (hd : ¬ s.state.Done) :
    (HttpContext.parseLoop begin).Step (s.cursor n)
      ((s.byte (begin.getD n NUL)).cursor (n + 1)) := by
  refine ⟨guard_cursor.2 ?_, body_cursor h (Nat.le_of_lt hn) hd⟩
  have hle := h.length_le
  simp only [State.Done, not_or] at hd
  exact ⟨hd.2.1, hd.2.2, by omega⟩

/-- The loop runs through the head as the scanner does, and stops being in the head where the
scanner does. -/
theorem reaches_scan {begin : Bytes} (text : Bytes) {s : Scan} {n : Nat} (h : s.At begin n)
    (hn : n ≤ begin.length) (htext : begin.drop n = text) :
    (HttpContext.parseLoop begin).Reaches (s.cursor n)
        ((s.scan text).1.cursor (begin.length - (s.scan text).2.length)) ∧
      (s.scan text).1.At begin (begin.length - (s.scan text).2.length) ∧
      ((s.scan text).1.state.Done ∨ (s.scan text).2 = []) := by
  have hlen : text.length = begin.length - n := by rw [← htext, List.length_drop]
  induction text generalizing s n with
  | nil =>
      have heq : n = begin.length := by simp at hlen; omega
      subst heq
      exact ⟨.refl, h, .inr rfl⟩
  | cons ch rest ih =>
      simp only [List.length_cons] at hlen
      by_cases hd : s.state.Done
      · rw [scan_done hd]
        have hback : begin.length - (ch :: rest).length = n := by
          rw [List.length_cons]; omega
        simp only [hback]
        exact ⟨.refl, h, .inl hd⟩
      · have hlt : n < begin.length := by omega
        have hch : begin.getD n NUL = ch := by
          rw [List.drop_eq_getElem_cons hlt] at htext
          rw [List.getD_eq_getElem _ _ hlt]
          exact (List.cons.inj htext).1
        have hrest : begin.drop (n + 1) = rest := by
          rw [List.drop_eq_getElem_cons hlt] at htext
          exact (List.cons.inj htext).2
        rw [scan_cons hd, ← hch]
        obtain ⟨hr, hat, hor⟩ := ih (byte_at h hn) hlt hrest (by omega)
        exact ⟨.head (step_cursor h hlt hd) hr, hat, hor⟩

theorem byte_body {s : Scan} (hd : ¬ s.state.Done) {ch : UInt8}
    (hb : (s.byte ch).state = .body) : (s.byte ch).tok = [] := by
  revert hb
  unfold byte
  simp only [State.Done, not_or] at hd
  split <;> (try split_ifs) <;> simp_all [push, mark, goto]

theorem scan_body {s : Scan} (hd : ¬ s.state.Done) {text : Bytes}
    (hb : (s.scan text).1.state = .body) :
    (s.scan text).1.tok = [] ∧ (s.scan text).2.length < text.length := by
  induction text generalizing s with
  | nil => exact absurd (Or.inl hb) hd
  | cons ch rest ih =>
      rw [scan_cons hd] at hb ⊢
      by_cases hd' : (s.byte ch).state.Done
      · rw [scan_done hd'] at hb ⊢
        exact ⟨byte_body hd hb, by simp⟩
      · rcases ih hd' hb with ⟨htok, hlen⟩
        exact ⟨htok, by rw [List.length_cons]; omega⟩

/-- What is not scanned is the end of the string. -/
theorem scan_rest (s : Scan) (text : Bytes) :
    text.drop (text.length - (s.scan text).2.length) = (s.scan text).2 := by
  have hsuffix : (s.scan text).2 <:+ text := by
    induction text generalizing s with
    | nil => exact List.nil_suffix
    | cons ch rest ih =>
        by_cases hd : s.state.Done
        · rw [scan_done hd]
        · rw [scan_cons hd]
          exact (ih (s.byte ch)).trans (List.suffix_cons ch rest)
  exact (List.suffix_iff_eq_drop.1 hsuffix).symm

theorem init_at (ctx : HttpContext) (begin : Bytes) : (init ctx).At begin 0 :=
  List.nil_suffix

theorem init_cursor (ctx : HttpContext) : (init ctx).cursor 0 = ctx.entry := rfl

end Scan

namespace HttpContext

/-! ## The body branch -/

/-- The loop state after the body branch has taken everything from offset `m`. -/
def bodyCursor (begin : Bytes) (c : Cursor) (m : Nat) : Cursor :=
  { c with
    request := c.request.setBody (begin.drop m)
    end_ := begin.length
    state := if ((begin.drop m).length : Int) ≥ c.request.contentLength then .complete else .body }

theorem body_body {begin : Bytes} {c : Cursor} {m k : Nat} (hs : c.state = .body)
    (hstart : c.start = m) (hm : m ≤ begin.length) (hend : c.end_ = k) (hk : k ≤ begin.length) :
    (parseLoop begin).body c = .ok (bodyCursor begin c m) := by
  have hrange : substr begin m (m + (begin.length - m : Int)) = .ok (begin.drop m) := by
    unfold substr
    rw [if_pos (by omega)]
    have hcount : ((m : Int) + (begin.length - m) - m).toNat = (begin.drop m).length := by
      rw [List.length_drop]; omega
    rw [hcount, Int.toNat_natCast, List.take_length]
  have hlen : (begin.length : Int) - m = (begin.drop m).length := by
    rw [List.length_drop]; omega
  simp only [parseLoop, hend, charAt_offset hk, bind, Except.bind, dispatch, hs, hstart, hrange,
    pure, Except.pure, bodyCursor]
  rw [hlen]
  congr 2
  rw [List.length_drop]
  omega

/-- The guard once a body iteration is over: only a body begun at offset 0 is left pending. -/
theorem guard_bodyCursor {begin : Bytes} {c : Cursor} {m : Nat} (hstart : c.start = m) :
    (parseLoop begin).guard (bodyCursor begin c m) = true ↔
      ((begin.drop m).length : Int) < c.request.contentLength ∧ 0 < m := by
  have hlen : (begin.drop m).length = begin.length - m := List.length_drop
  simp only [parseLoop, bodyCursor, decide_eq_true_eq, hstart]
  split
  · simp only [ne_eq, not_true_eq_false, false_and, false_iff]
    omega
  · simp only [ne_eq, reduceCtorEq, not_false_eq_true, true_and]
    omega

/-- A body shorter than announced that begins inside the string is read again and again. -/
theorem bodyCursor_step {begin : Bytes} {c : Cursor} {m : Nat} (hstart : c.start = m)
    (hm : m ≤ begin.length) (hpos : 0 < m)
    (hshort : ((begin.drop m).length : Int) < c.request.contentLength) :
    (parseLoop begin).Step (bodyCursor begin c m) (bodyCursor begin c m) := by
  refine ⟨(guard_bodyCursor hstart).2 ⟨hshort, hpos⟩, ?_⟩
  have hstate : (bodyCursor begin c m).state = .body := if_neg (not_le.2 hshort)
  rw [body_body hstate hstart hm rfl (Nat.le_refl _)]
  simp [bodyCursor, HttpRequest.setBody, HttpRequest.contentLength, HttpRequest.getHeader]

/-! ## One call -/

/-- The loop from the call `ctx.ParaseRequest(begin)` ends as `o` says. -/
def Realises (ctx : HttpContext) (begin : Bytes) : Outcome → Prop
  | .returned ctx' => ∃ c, (parseLoop begin).Ends ctx.entry (.ok c) ∧ c.state = ctx'.state ∧
      c.request = ctx'.request
  | .overrun => (parseLoop begin).Ends ctx.entry (.error .read)
  | .hangs => ∀ r, ¬ (parseLoop begin).Ends ctx.entry r

theorem realises_stop {ctx : HttpContext} {begin : Bytes}
    (hg : (parseLoop begin).guard ctx.entry = false) : Realises ctx begin (.returned ctx) :=
  ⟨ctx.entry, Lib.Loop.ends_of_stop hg, rfl, rfl⟩

/-- A call that resumes a body makes at most one iteration. -/
theorem realises_body {ctx : HttpContext} {begin : Bytes} (hs : ctx.state = .body)
    (hne : begin ≠ []) : Realises ctx begin (.returned (bodyOutcome ctx.request begin)) := by
  have hpos : 0 < begin.length := List.length_pos_iff.2 hne
  have hstep : (parseLoop begin).Step ctx.entry (bodyCursor begin ctx.entry 0) := by
    refine ⟨?_, body_body hs rfl (Nat.zero_le _) rfl (Nat.zero_le _)⟩
    simp only [parseLoop, entry, hs, decide_eq_true_eq]
    simpa using hpos
  have hstop : (parseLoop begin).guard (bodyCursor begin ctx.entry 0) = false := by
    rw [Bool.eq_false_iff]
    intro hg
    exact absurd ((guard_bodyCursor rfl).1 hg).2 (Nat.lt_irrefl 0)
  exact ⟨_, hstep.ends (Lib.Loop.ends_of_stop hstop), rfl, rfl⟩

theorem ends_scanned_body {ctx : HttpContext} {begin : Bytes} {s : Scan} {rest : Bytes}
    (hr : (parseLoop begin).Reaches ctx.entry (s.cursor (begin.length - rest.length)))
    (hs : s.state = .body) (htok : s.tok = [])
    (hrest : begin.drop (begin.length - rest.length) = rest) (hlt : rest.length < begin.length) :
    Realises ctx begin
      (if (rest.length : Int) ≥ s.request.contentLength then
        .returned ⟨.complete, s.request.setBody rest⟩ else .hangs) := by
  have hstart : (s.cursor (begin.length - rest.length)).start =
      ((begin.length - rest.length : Nat) : Int) := by simp [Scan.cursor, htok]
  have hm : begin.length - rest.length ≤ begin.length := Nat.sub_le _ _
  have hstep : (parseLoop begin).Step (s.cursor (begin.length - rest.length))
      (bodyCursor begin (s.cursor (begin.length - rest.length)) (begin.length - rest.length)) :=
    ⟨Scan.guard_cursor.2 ⟨by simp [hs], by simp [hs], by simp [htok]; omega⟩,
      body_body hs hstart hm rfl hm⟩
  have hreach := hr.tail hstep
  split
  · rename_i hle
    have hstop : (parseLoop begin).guard (bodyCursor begin
        (s.cursor (begin.length - rest.length)) (begin.length - rest.length)) = false := by
      rw [Bool.eq_false_iff]
      intro hg
      have hlt := ((guard_bodyCursor hstart).1 hg).1
      rw [hrest] at hlt
      exact absurd hle (not_le.2 hlt)
    refine ⟨_, (Lib.Loop.Reaches.ends_iff hreach).2 (Lib.Loop.ends_of_stop hstop), ?_, ?_⟩
    · simp only [bodyCursor, hrest, Scan.cursor, if_pos hle]
    · simp only [bodyCursor, hrest, Scan.cursor]
  · rename_i hnot
    intro r hends
    have hloop := bodyCursor_step hstart hm (by omega) (by rw [hrest]; exact not_le.1 hnot)
    exact Lib.Loop.not_ends_of_fixed hloop r ((Lib.Loop.Reaches.ends_iff hreach).1 hends)

theorem ends_truncated {ctx : HttpContext} {begin : Bytes} {s : Scan}
    (hr : (parseLoop begin).Reaches ctx.entry (s.cursor begin.length))
    (hat : s.At begin begin.length) (hd : ¬ s.state.Done) :
    Realises ctx begin (truncatedOutcome s begin.length) := by
  have hd' := hd
  simp only [State.Done, not_or] at hd'
  have hnul : begin.getD begin.length NUL = NUL := List.getD_eq_default _ _ (Nat.le_refl _)
  unfold truncatedOutcome
  split
  · rename_i hlt
    have hstep : (parseLoop begin).Step (s.cursor begin.length)
        ((s.byte NUL).cursor (begin.length + 1)) := by
      refine ⟨Scan.guard_cursor.2 ⟨hd'.2.1, hd'.2.2, hlt⟩, ?_⟩
      rw [Scan.body_cursor hat (Nat.le_refl _) hd, hnul]
    have hreach := hr.tail hstep
    have hcomplete : (s.byte NUL).state ≠ .complete := by
      unfold Scan.byte
      split <;> (try split_ifs) <;> simp_all [Scan.push, Scan.mark, Scan.goto, NUL, LF]
    dsimp only
    split
    · rename_i hover
      refine (Lib.Loop.Reaches.ends_iff hreach).2 (Lib.Loop.ends_of_error
        (Scan.guard_cursor.2 ⟨hcomplete, hover.1, hover.2⟩) ?_)
      have hfault : charAt begin ((begin.length + 1 : Nat) : Int) = .error .read :=
        charAt_outside (by omega)
      simp only [parseLoop, Scan.cursor, hfault]
      rfl
    · rename_i hin
      have hstop : (parseLoop begin).guard ((s.byte NUL).cursor (begin.length + 1)) = false := by
        rw [Bool.eq_false_iff]
        intro hg
        exact hin (Scan.guard_cursor.1 hg).2
      exact ⟨_, (Lib.Loop.Reaches.ends_iff hreach).2 (Lib.Loop.ends_of_stop hstop), rfl, rfl⟩
  · rename_i hge
    have hstop : (parseLoop begin).guard (s.cursor begin.length) = false := by
      rw [Bool.eq_false_iff]
      intro hg
      exact hge (Scan.guard_cursor.1 hg).2.2
    exact ⟨_, (Lib.Loop.Reaches.ends_iff hr).2 (Lib.Loop.ends_of_stop hstop), rfl, rfl⟩

/-- **Refinement.** One call of the loop does what `outcome` says, for every context and string. -/
theorem realises_outcome (ctx : HttpContext) (begin : Bytes) :
    Realises ctx begin (ctx.outcome begin) := by
  by_cases hd : ctx.state.Done
  · rcases hd with hs | hs | hs
    · simp only [outcome, hs]
      split
      · rename_i hnil
        exact realises_stop (by simp [parseLoop, entry, hnil])
      · rename_i hne
        exact realises_body hs hne
    · simp only [outcome, hs]
      exact realises_stop (by simp [parseLoop, entry, hs])
    · simp only [outcome, hs]
      exact realises_stop (by simp [parseLoop, entry, hs])
  · obtain ⟨hr, hat, hor⟩ :=
      Scan.reaches_scan begin (Scan.init_at ctx begin) (Nat.zero_le _) (List.drop_zero)
    rw [Scan.init_cursor] at hr
    rw [outcome_of_not_done hd]
    generalize hscan : (Scan.init ctx).scan begin = scanned at *
    rcases scanned with ⟨s, rest⟩
    dsimp only at hr hat hor ⊢
    by_cases hs : s.state.Done
    · rcases hs with hs | hs | hs
      · have hstart : ¬ (Scan.init ctx).state.Done := hd
        have hbody := @Scan.scan_body (Scan.init ctx) hstart begin
        have hdrop := Scan.scan_rest (Scan.init ctx) begin
        rw [hscan] at hbody hdrop
        replace hbody := hbody hs
        simp only [headOutcome, hs]
        exact ends_scanned_body hr hs hbody.1 hdrop hbody.2
      all_goals
        simp only [headOutcome, hs]
        refine ⟨_, (Lib.Loop.Reaches.ends_iff hr).2 (Lib.Loop.ends_of_stop ?_), hs, rfl⟩
        simp [parseLoop, Scan.cursor, hs]
    · have hnil : rest = [] := hor.resolve_left hs
      subst hnil
      rw [headOutcome_of_not_done hs]
      exact ends_truncated hr hat hs

end HttpContext

end CPlusServer

import CPlusServer.Http.Safety
import Mathlib.Data.Bool.AllAny

/-!
# Where a request ends

The last byte of a head is the one whose iteration leaves the header states for
BODY or COMPLETE; `HeadEnds` says it of the loop and `headEnds_iff` of the
scanner. What is behind the head in the same string is the body, whatever the
Content-Length: only an announced empty body leaves it alone.
-/

namespace CPlusServer

namespace Scan

/-! ## The last byte of a head -/

/-- A head is over at a line feed behind the blank line's CR. -/
theorem byte_recognised {s : Scan} (hd : ¬ s.state.Done) {ch : UInt8}
    (hb : (s.byte ch).state = .body ∨ (s.byte ch).state = .complete) :
    s.state = .crlfcr ∧ ch = LF := by
  revert hb
  unfold byte
  simp only [State.Done, not_or] at hd
  split <;> (try split_ifs) <;> simp_all [push, mark, goto]

/-- The four cases of the framing are two: an announced empty body, and anything else. -/
theorem byte_complete_iff {s : Scan} (hs : s.state = .crlfcr) :
    (s.byte LF).request = s.request ∧ ((s.byte LF).state = .complete ↔
      s.request.countHeader (ascii "Content-Length") = true ∧ s.request.contentLength ≤ 0) := by
  unfold byte
  rw [hs]
  dsimp only
  rw [if_pos rfl]
  split_ifs with h
  · exact ⟨rfl, fun _ => h, fun _ => rfl⟩
  · refine ⟨rfl, ?_, fun hc => absurd hc h⟩
    intro hc
    cases hc

theorem byte_request_body (s : Scan) (ch : UInt8) :
    (s.byte ch).request.body = s.request.body := by
  unfold byte
  split <;> (try split_ifs) <;>
    simp [push, mark, goto, HttpRequest.setMethod, HttpRequest.setURL, HttpRequest.setParams,
      HttpRequest.setProtocol, HttpRequest.setHeader, HttpRequest.setVersion]
  -- the version is set in two steps
  split_ifs <;> rfl

theorem scan_request_body (s : Scan) (text : Bytes) :
    (s.scan text).1.request.body = s.request.body := by
  induction text generalizing s with
  | nil => rfl
  | cons ch rest ih =>
      by_cases hd : s.state.Done
      · rw [scan_done hd]
      · rw [scan_cons hd, ih, byte_request_body]

theorem scan_append {s s' : Scan} {text : Bytes} (h : s.scan text = (s', [])) (rest : Bytes) :
    s.scan (text ++ rest) = s'.scan rest := by
  induction text generalizing s with
  | nil =>
      obtain ⟨rfl, -⟩ := Prod.mk.inj h
      rfl
  | cons ch text ih =>
      by_cases hd : s.state.Done
      · rw [scan_done hd] at h
        cases h
      · rw [scan_cons hd] at h
        rw [List.cons_append, scan_cons hd]
        exact ih h

/-- A finished scan has a last byte. -/
theorem scan_last {s s' : Scan} {text rest : Bytes} (hd : ¬ s.state.Done) (hd' : s'.state.Done)
    (h : s.scan text = (s', rest)) :
    ∃ before last ch, text = before ++ ch :: rest ∧ s.scan before = (last, []) ∧
      ¬ last.state.Done ∧ s' = last.byte ch := by
  induction text generalizing s with
  | nil =>
      obtain ⟨rfl, -⟩ := Prod.mk.inj h
      exact absurd hd' hd
  | cons ch text ih =>
      rw [scan_cons hd] at h
      by_cases hb : (s.byte ch).state.Done
      · rw [scan_done hb] at h
        obtain ⟨rfl, rfl⟩ := Prod.mk.inj h
        exact ⟨[], s, ch, rfl, rfl, hd, rfl⟩
      · obtain ⟨before, last, c, htext, hscan, hlast, heq⟩ := ih hb h
        refine ⟨ch :: before, last, c, ?_, ?_, hlast, heq⟩
        · rw [htext]
          rfl
        · rw [scan_cons hd]
          exact hscan

/-- A scanner that has recognised a head is complete for an announced empty body only. -/
theorem scan_recognised {s s' : Scan} {text rest : Bytes} (hd : ¬ s.state.Done)
    (h : s.scan text = (s', rest)) (hs : s'.state = .body ∨ s'.state = .complete) :
    s'.state = .complete ↔
      s'.request.countHeader (ascii "Content-Length") = true ∧ s'.request.contentLength ≤ 0 := by
  have hdone := State.done_of_recognised hs
  obtain ⟨before, last, ch, -, -, hlast, rfl⟩ := scan_last hd hdone h
  obtain ⟨hcr, rfl⟩ := byte_recognised hlast hs
  obtain ⟨hrequest, hiff⟩ := byte_complete_iff hcr
  rw [hrequest]
  exact hiff

end Scan

namespace HttpContext

/-! ## The loop leaves the header states -/

/-- From the loop state `c₀` on, the iteration on the byte before offset `n` is the one that
leaves the header states, with the request object `q`. -/
def Leaves (begin : Bytes) (c₀ : Cursor) (n : Nat) (q : HttpRequest) : Prop :=
  ∃ c c', (parseLoop begin).Reaches c₀ c ∧ ¬ c.state.Done ∧ (parseLoop begin).Step c c' ∧
    (c'.state = .body ∨ c'.state = .complete) ∧ c'.end_ = n ∧ c'.request = q

/-- In the call `ctx.ParaseRequest(begin)` the head is the first `n` bytes. -/
def HeadEnds (ctx : HttpContext) (begin : Bytes) (n : Nat) (q : HttpRequest) : Prop :=
  Leaves begin ctx.entry n q

theorem step_done {begin : Bytes} {c c' : Cursor} (hd : c.state.Done)
    (h : (parseLoop begin).Step c c') : c'.state.Done := by
  obtain ⟨hg, hb⟩ := h
  simp only [parseLoop, decide_eq_true_eq] at hg
  have hs : c.state = .body := by
    rcases hd with hs | hs | hs
    · exact hs
    · exact absurd hs hg.1
    · exact absurd hs hg.2.1
  simp only [parseLoop] at hb
  cases hread : charAt begin c.end_ with
  | error e => simp [hread, bind, Except.bind] at hb
  | ok ch =>
      cases hrange : substr begin c.start (c.start + (begin.length - c.start)) with
      | error e =>
          simp only [hread, dispatch, hs, hrange, bind, Except.bind] at hb
          cases hb
      | ok text =>
          simp only [hread, dispatch, hs, hrange, bind, Except.bind, pure, Except.pure,
            Except.ok.injEq] at hb
          subst hb
          unfold State.Done
          dsimp only
          split <;> simp

theorem not_leaves_of_done {begin : Bytes} {c₀ : Cursor} (hd : c₀.state.Done) {n : Nat}
    {q : HttpRequest} : ¬ Leaves begin c₀ n q := by
  intro h
  obtain ⟨c, c', hr, hnot, -⟩ := h
  exact hnot (hr.invariant (P := fun c => c.state.Done) (fun _ _ h step => step_done h step) hd)

theorem not_step_outside {begin : Bytes} {c c' : Cursor} (hout : (begin.length : Int) < c.end_) :
    ¬ (parseLoop begin).Step c c' := by
  intro hstep
  have hinside := (offset_of_body hstep.2).2
  omega

theorem not_leaves_outside {begin : Bytes} {c₀ : Cursor} (hout : (begin.length : Int) < c₀.end_)
    {n : Nat} {q : HttpRequest} : ¬ Leaves begin c₀ n q := by
  intro h
  obtain ⟨c, c', hr, -, hstep, -⟩ := h
  rcases Relation.ReflTransGen.cases_head hr with rfl | ⟨c₁, hfirst, -⟩
  · exact not_step_outside hout hstep
  · exact not_step_outside hout hfirst

/-- One iteration in the head either leaves it or does not matter. -/
theorem leaves_step_iff {begin : Bytes} {c₀ c₁ : Cursor} (hd : ¬ c₀.state.Done)
    (h : (parseLoop begin).Step c₀ c₁) {n : Nat} {q : HttpRequest} :
    Leaves begin c₀ n q ↔
      (c₁.state = .body ∨ c₁.state = .complete) ∧ c₁.end_ = n ∧ c₁.request = q ∨
        Leaves begin c₁ n q := by
  have hunique {c : Cursor} (hc : (parseLoop begin).Step c₀ c) : c = c₁ :=
    Except.ok.inj (hc.2.symm.trans h.2)
  constructor
  · intro hleaves
    obtain ⟨c, c', hr, hnot, hstep, hout⟩ := hleaves
    rcases Relation.ReflTransGen.cases_head hr with rfl | ⟨c₂, hfirst, hrest⟩
    · rw [hunique hstep] at hout
      exact .inl hout
    · rw [hunique hfirst] at hrest
      exact .inr ⟨c, c', hrest, hnot, hstep, hout⟩
  · intro hleaves
    rcases hleaves with hout | ⟨c, c', hr, hrest⟩
    · exact ⟨c₀, c₁, .refl, hd, h, hout⟩
    · exact ⟨c, c', .head h hr, hrest⟩

/-- The terminator ends no head. -/
theorem not_leaves_at_end {begin : Bytes} {s : Scan} (h : s.At begin begin.length)
    (hd : ¬ s.state.Done) {n : Nat} {q : HttpRequest} :
    ¬ Leaves begin (s.cursor begin.length) n q := by
  have hbody := Scan.body_cursor h (Nat.le_refl _) hd
  by_cases hg : (parseLoop begin).guard (s.cursor begin.length) = true
  · rw [leaves_step_iff hd ⟨hg, hbody⟩]
    have hnul : begin.getD begin.length NUL ≠ LF := by
      rw [List.getD_eq_default _ _ (Nat.le_refl _)]
      decide
    intro hleaves
    rcases hleaves with ⟨hs, -⟩ | hleaves
    · exact hnul (Scan.byte_recognised hd hs).2
    · refine not_leaves_outside ?_ hleaves
      simp [Scan.cursor]
  · intro hleaves
    obtain ⟨c, c', hr, -, hstep, -⟩ := hleaves
    rcases Relation.ReflTransGen.cases_head hr with rfl | ⟨c₁, hfirst, -⟩
    · exact hg hstep.1
    · exact hg hfirst.1

theorem leaves_cursor_iff {begin : Bytes} (text : Bytes) {s : Scan} {k : Nat} (h : s.At begin k)
    (hd : ¬ s.state.Done) (hk : k ≤ begin.length) (htext : begin.drop k = text) {n : Nat}
    {q : HttpRequest} :
    Leaves begin (s.cursor k) n q ↔ ∃ s' rest, s.scan text = (s', rest) ∧
      (s'.state = .body ∨ s'.state = .complete) ∧ rest.length + n = begin.length ∧
      s'.request = q := by
  have hlen : text.length = begin.length - k := by rw [← htext, List.length_drop]
  induction text generalizing s k with
  | nil =>
      obtain rfl : k = begin.length := by simp at hlen; omega
      refine iff_of_false (not_leaves_at_end h hd) ?_
      intro hscanned
      obtain ⟨s', rest, hscan, hs', -⟩ := hscanned
      obtain ⟨rfl, -⟩ := Prod.mk.inj hscan
      exact hd (State.done_of_recognised hs')
  | cons ch rest ih =>
      simp only [List.length_cons] at hlen
      have hlt : k < begin.length := by omega
      rw [List.drop_eq_getElem_cons hlt] at htext
      obtain ⟨hch, hrest⟩ := List.cons.inj htext
      have hget : begin.getD k NUL = ch := by rw [List.getD_eq_getElem _ _ hlt, hch]
      have hstep := Scan.step_cursor h hlt hd
      have hat := Scan.byte_at h hk
      rw [hget] at hstep hat
      rw [leaves_step_iff hd hstep, Scan.scan_cons hd]
      by_cases hb : (s.byte ch).state.Done
      · -- the byte finishes the head, recognised or rejected
        rw [or_iff_left (not_leaves_of_done hb), Scan.scan_done hb]
        have hend : ((s.byte ch).cursor (k + 1)).end_ = n ↔ rest.length + n = begin.length := by
          show ((k + 1 : Nat) : Int) = n ↔ _
          omega
        rw [hend]
        constructor
        · intro h
          exact ⟨_, _, rfl, h⟩
        · intro h
          obtain ⟨s', rest', hpair, h⟩ := h
          obtain ⟨rfl, rfl⟩ := Prod.mk.inj hpair
          exact h
      · refine (or_iff_right ?_).trans (ih hat hb hlt hrest (by omega))
        intro hleaves
        exact hb (State.done_of_recognised hleaves.1)

theorem headEnds_iff {ctx : HttpContext} (hd : ¬ ctx.state.Done) {begin : Bytes} {n : Nat}
    {q : HttpRequest} :
    HeadEnds ctx begin n q ↔ ∃ s rest, (Scan.init ctx).scan begin = (s, rest) ∧
      (s.state = .body ∨ s.state = .complete) ∧ rest.length + n = begin.length ∧
      s.request = q := by
  have hinit : ¬ (Scan.init ctx).state.Done := hd
  exact leaves_cursor_iff begin (Scan.init_at ctx begin) hinit (Nat.zero_le _) List.drop_zero

theorem HeadEnds.append {ctx : HttpContext} (hd : ¬ ctx.state.Done) {head : Bytes}
    {q : HttpRequest} (h : HeadEnds ctx head head.length q) (rest : Bytes) :
    ∃ s, (Scan.init ctx).scan (head ++ rest) = (s, rest) ∧
      (s.state = .body ∨ s.state = .complete) ∧ s.request = q := by
  obtain ⟨s, rest', hscan, hs, hlen, hq⟩ := (headEnds_iff hd).1 h
  obtain rfl : rest' = [] := List.length_eq_zero_iff.1 (by omega)
  have hdone := State.done_of_recognised hs
  exact ⟨s, by rw [Scan.scan_append hscan, Scan.scan_done hdone], hs, hq⟩

/-! ## The body of a request -/

/-- The Content-Length of the head is the decimal number `n`; a missing one counts as 0. -/
def Announces (q : HttpRequest) (n : Nat) : Prop :=
  match q.headers.lookup (ascii "Content-Length") with
  | some value => value ≠ [] ∧ (∀ ch ∈ value, isdigit ch = true) ∧ decimal value = n
  | none => n = 0

theorem Announces.contentLength {q : HttpRequest} {n : Nat} (h : Announces q n)
    (hn : n < 2 ^ 31) : q.contentLength = n := by
  unfold Announces at h
  cases hl : q.headers.lookup (ascii "Content-Length") with
  | none =>
      rw [hl] at h
      have hcount : q.countHeader (ascii "Content-Length") = false := by
        simp [HttpRequest.countHeader, hl]
      rw [HttpRequest.contentLength_of_not_count hcount, show n = 0 from h]
      rfl
  | some value =>
      rw [hl] at h
      obtain ⟨-, hdigits, rfl⟩ := h
      rw [HttpRequest.contentLength, HttpRequest.getHeader, hl, Option.getD_some,
        atoi_digits hdigits hn]

def CompletesWith (text body : Bytes) : Prop :=
  ∃ ctx', HttpContext.Returns {} text ctx' true ∧ ctx'.isComplete = true ∧
    ctx'.request.body = body

theorem completesWith_iff {text body : Bytes} :
    CompletesWith text body ↔ ∃ q, HttpContext.outcome {} text = .returned ⟨.complete, q⟩ ∧
      q.body = body := by
  constructor
  · intro h
    obtain ⟨⟨state, q⟩, hret, hcomplete, hbody⟩ := h
    simp only [isComplete, decide_eq_true_eq] at hcomplete
    subst hcomplete
    exact ⟨q, (returns_iff_outcome.1 hret).1, hbody⟩
  · intro h
    obtain ⟨q, hout, hbody⟩ := h
    exact ⟨⟨.complete, q⟩, returns_iff_outcome.2 ⟨hout, by simp⟩, rfl, hbody⟩

/-- Everything behind the head is the body, unless an empty one is announced. -/
theorem completesWith_head_iff {head rest : Bytes} {n : Nat} {q : HttpRequest}
    (hhead : HeadEnds {} head head.length q) (hq : Announces q n) (hn : n < 2 ^ 31)
    (hrest : n ≤ rest.length) (body : Bytes) :
    CompletesWith (head ++ rest) body ↔
      body = if q.countHeader (ascii "Content-Length") = true ∧ n = 0 then [] else rest := by
  have hstart := start_not_done {}
  obtain ⟨s, hscan, hs, rfl⟩ := hhead.append hstart rest
  have hlen := hq.contentLength hn
  have hframe := Scan.scan_recognised hstart hscan hs
  have hfresh : s.request.body = [] := by
    have hbody := Scan.scan_request_body (Scan.init {}) (head ++ rest)
    rw [hscan] at hbody
    exact hbody
  have hle : s.request.contentLength ≤ 0 ↔ n = 0 := by
    rw [hlen]
    omega
  rw [hle] at hframe
  rw [completesWith_iff, outcome_of_not_done hstart, hscan]
  split_ifs with hempty
  · have hcomplete := hframe.2 hempty
    simp [headOutcome, hcomplete, hfresh, eq_comm]
  · have hbody : s.state = .body := hs.resolve_right (mt hframe.1 hempty)
    have hge : (rest.length : Int) ≥ s.request.contentLength := by
      rw [hlen]
      omega
    simp [headOutcome, hbody, hge, HttpRequest.setBody, eq_comm]

/-- **Body framing.** The body is as long as announced exactly when nothing is behind it in the
string, or the empty body is announced by a header. -/
theorem completesWith_take_iff {head rest : Bytes} {n : Nat} {q : HttpRequest}
    (hhead : HeadEnds {} head head.length q) (hq : Announces q n) (hn : n < 2 ^ 31)
    (hrest : n ≤ rest.length) :
    CompletesWith (head ++ rest) (rest.take n) ↔
      rest.length = n ∨ q.countHeader (ascii "Content-Length") = true ∧ n = 0 := by
  rw [completesWith_head_iff hhead hq hn hrest]
  split_ifs with hempty
  · simp [hempty]
  · rw [or_iff_left hempty, List.take_eq_self_iff]
    omega

def headRequest (head : Bytes) : HttpRequest := ((Scan.init {}).scan head).1.request

theorem headEnds_headRequest {head : Bytes} (hnil : ((Scan.init {}).scan head).2 = [])
    (hs : ((Scan.init {}).scan head).1.state = .body ∨
      ((Scan.init {}).scan head).1.state = .complete) :
    HeadEnds {} head head.length (headRequest head) := by
  have hstart := start_not_done {}
  refine (headEnds_iff hstart).2 ⟨_, _, rfl, hs, ?_, rfl⟩
  rw [hnil, List.length_nil, Nat.zero_add]

theorem postHead_announces : Announces (headRequest postHead) 5 := by
  have hlook : (headRequest postHead).headers.lookup (ascii "Content-Length") =
      some (ascii "5") := by decide
  have hdigits : ∀ ch ∈ ascii "5", isdigit ch = true := List.all_iff_forall_prop.1 rfl
  unfold Announces
  rw [hlook]
  exact ⟨by decide, hdigits, rfl⟩

theorem completesWith_take_hello :
    CompletesWith (postHead ++ ascii "hello") ((ascii "hello").take 5) ↔
      (ascii "hello").length = 5 ∨
        (headRequest postHead).countHeader (ascii "Content-Length") = true ∧ 5 = 0 :=
  completesWith_take_iff
    (headEnds_headRequest (by decide) (by decide +kernel)) postHead_announces
    (by decide) (by decide)

def getHead : Bytes := ascii "GET /a HTTP/1.1\r\n\r\n"

/-- The second of two requests in one read becomes the body of the first, which announces none. -/
theorem not_completesWith_take_pipelined :
    HeadEnds {} getHead getHead.length (headRequest getHead) ∧
      Announces (headRequest getHead) 0 ∧ CompletesWith (getHead ++ getHead) getHead ∧
      ¬ CompletesWith (getHead ++ getHead) (getHead.take 0) := by
  have hhead : HeadEnds {} getHead getHead.length (headRequest getHead) :=
    headEnds_headRequest (by decide) (by decide +kernel)
  have hlook : (headRequest getHead).headers.lookup (ascii "Content-Length") = none := by
    decide
  have hnone : Announces (headRequest getHead) 0 := by
    unfold Announces
    rw [hlook]
  have hcount : ¬ ((headRequest getHead).countHeader (ascii "Content-Length") = true ∧ 0 = 0) := by
    simp [HttpRequest.countHeader, hlook]
  refine ⟨hhead, hnone, ?_, ?_⟩
  · rw [completesWith_head_iff hhead hnone (by decide) (Nat.zero_le _), if_neg hcount]
  · rw [completesWith_head_iff hhead hnone (by decide) (Nat.zero_le _), if_neg hcount]
    decide

end HttpContext

end CPlusServer

import CPlusServer.Http.HeadScan
import CPlusServer.Http.Safety

/-!
# Whole requests

What one call makes of a printed request in any context that waits for one, and
from it the results about requests: parsing undoes printing, a request cut into
pieces, and requests that follow each other on one connection.
-/

namespace CPlusServer

namespace Request

theorem outcome_print (r : Request) (q : HttpRequest) :
    ∃ tok key vers, HttpContext.outcome ⟨.start, q⟩ r.print =
      HttpContext.headOutcome
        (if (r.head.fill q).countHeader (ascii "Content-Length") ∧
            (r.head.fill q).contentLength ≤ 0 then
          Scan.mk .complete (r.head.fill q) tok key vers
        else Scan.mk .body (r.head.fill q) [] key vers) r.body r.print.length := by
  rcases r.head.scan_print q r.body with ⟨tok, key, vers, hscan⟩
  refine ⟨tok, key, vers, ?_⟩
  rw [HttpContext.outcome_of_not_done (HttpContext.start_not_done q)]
  show HttpContext.headOutcome ((Scan.mk .start q [] [] []).scan (r.head.print ++ r.body)).1
    ((Scan.mk .start q [] [] []).scan (r.head.print ++ r.body)).2 r.print.length = _
  rw [hscan]
  split <;> rfl

/-- With a Content-Length of its own, a request is read whole; an empty body is not stored. -/
theorem outcome_print_some (r : Request) (q : HttpRequest)
    (hv : r.head.contentLength? ≠ none) :
    HttpContext.outcome ⟨.start, q⟩ r.print = .returned ⟨.complete,
      { r.head.fill q with body := if r.body = [] then q.body else r.body }⟩ := by
  rcases Option.ne_none_iff_exists'.1 hv with ⟨value, hvalue⟩
  obtain ⟨hcount, hlen⟩ := r.contentLength_some hvalue q
  rcases r.outcome_print q with ⟨tok, key, vers, hout⟩
  rw [hout]
  by_cases hnil : r.body = []
  · have hzero : (r.head.fill q).contentLength ≤ 0 := by rw [hlen, hnil]; simp
    rw [if_pos ⟨hcount, hzero⟩, if_pos hnil]
    rfl
  · have hpos : 0 < r.body.length := List.length_pos_iff.2 hnil
    have hnot : ¬ ((r.head.fill q).countHeader (ascii "Content-Length") ∧
        (r.head.fill q).contentLength ≤ 0) := by
      intro h
      have hzero := h.2
      rw [hlen] at hzero
      omega
    rw [if_neg hnot, if_neg hnil]
    simp only [HttpContext.headOutcome, hlen, ge_iff_le, le_refl, if_true]
    rfl

/-- Without one, the framing is that of the Content-Length the context still holds. -/
theorem outcome_print_none (r : Request) (q : HttpRequest) (hv : r.head.contentLength? = none)
    (hq : q.countHeader (ascii "Content-Length") = false) :
    HttpContext.outcome ⟨.start, q⟩ r.print = .returned ⟨.complete,
      { r.head.fill q with body := [] }⟩ := by
  have hcount : (r.head.fill q).countHeader (ascii "Content-Length") = false := by
    rw [HttpRequest.countHeader, r.contentLength_none hv]
    exact hq
  have hbody : r.body = [] := by
    have hframed := r.framed
    rw [hv] at hframed
    exact hframed
  rcases r.outcome_print q with ⟨tok, key, vers, hout⟩
  rw [hout, if_neg (by rw [hcount]; simp), hbody]
  simp only [HttpContext.headOutcome, HttpRequest.contentLength_of_not_count hcount]
  rfl

/-- Whatever the framing, a completed call has filled the object from the head. -/
theorem outcome_print_fill (r : Request) (q : HttpRequest) {ctx' : HttpContext}
    (h : HttpContext.outcome ⟨.start, q⟩ r.print = .returned ctx') :
    ∃ body, ctx'.request = { r.head.fill q with body := body } := by
  obtain ⟨tok, key, vers, hout⟩ := r.outcome_print q
  rw [hout] at h
  split at h
  · simp only [HttpContext.headOutcome, Outcome.returned.injEq] at h
    exact ⟨q.body, by rw [← h]; rfl⟩
  · simp only [HttpContext.headOutcome] at h
    split at h
    · simp only [Outcome.returned.injEq] at h
      exact ⟨r.body, by rw [← h]; rfl⟩
    · cases h

theorem outcome_print_fresh (r : Request) :
    HttpContext.outcome {} r.print = .returned ⟨.complete, r.value⟩ := by
  by_cases hv : r.head.contentLength? = none
  · have hbody : r.body = [] := by
      have hframed := r.framed
      rw [hv] at hframed
      exact hframed
    rw [value, hbody]
    exact r.outcome_print_none {} hv (by decide)
  · rw [r.outcome_print_some {} hv]
    by_cases hnil : r.body = []
    · rw [if_pos hnil, value, hnil]
    · rw [if_neg hnil, value]

/-! ## Parsing undoes printing -/

theorem returns_print (r : Request) :
    HttpContext.Returns {} r.print ⟨.complete, r.value⟩ true :=
  HttpContext.returns_iff_outcome.2 ⟨r.outcome_print_fresh, by simp⟩

/-- **Parser correctness.** One call on a fresh context with exactly the bytes of a request
terminates inside the string, returns true, is complete and stores the request. -/
theorem paraseRequest_print (r : Request) :
    ∃ ctx', HttpContext.Returns {} r.print ctx' true ∧ ctx'.isComplete = true ∧
      HttpContext.Terminates {} r.print ∧ HttpContext.StaysInside {} r.print ∧
      ctx'.request.method = HttpRequest.methodOf r.head.method ∧
      ctx'.request.url = r.head.path ∧
      (∀ key, ctx'.request.params.lookup key = Lib.lastValue key r.head.paramPairs) ∧
      ctx'.request.protocol = r.head.protocol ∧ ctx'.request.version = .http11 ∧
      (∀ key, ctx'.request.headers.lookup key = Lib.lastValue key r.head.headerPairs) ∧
      ctx'.request.body = r.body := by
  have hinside : HttpContext.StaysInside {} r.print := by
    rw [HttpContext.staysInside_iff_outcome, r.outcome_print_fresh]
    simp
  exact ⟨_, r.returns_print, rfl, r.returns_print.terminates, hinside, rfl, rfl,
    fun key => Lib.lookup_insertAll_empty key _, rfl, rfl,
    fun key => Lib.lookup_insertAll_empty key _, rfl⟩

def getSample : Request where
  head := .plain (ascii "GET") (ascii "/a")
    [⟨ascii "k", ascii "v", by decide, List.all_iff_forall_prop.1 rfl, by decide,
      List.all_iff_forall_prop.1 rfl⟩]
    [.plain (ascii "Host") (ascii "x") (by decide) (List.all_iff_forall_prop.1 rfl) (by decide)
      (fun _ hch => Option.some.inj hch ▸ rfl) (List.all_iff_forall_prop.1 rfl)]
    ⟨chr 'G', rfl, rfl⟩ (List.all_iff_forall_prop.1 rfl) (by decide)
    (List.all_iff_forall_prop.1 rfl)
  framed := rfl
  small := by decide

example : getSample.print = ascii "GET /a?k=v HTTP/1.1\r\nHost: x\r\n\r\n" := by decide

/-! ## Requests in pieces -/

/-- The pieces are accepted one after the other on one context, which is complete exactly after
the last. -/
def Delivered : HttpContext → List Bytes → HttpContext → Prop
  | _, [], _ => False
  | ctx, [piece], last => ctx.Returns piece last true ∧ last.isComplete = true
  | ctx, piece :: pieces, last =>
      ∃ next, ctx.Returns piece next true ∧ next.isComplete = false ∧ Delivered next pieces last

/-- Read in these pieces, a request is parsed as it is when read whole. -/
def SegmentationInvariant (r : Request) (pieces : List Bytes) : Prop :=
  ∃ last whole, Delivered {} pieces last ∧ HttpContext.Returns {} r.print whole true ∧
    last.request = whole.request

/-- A call that does not resume a body never leaves one pending. -/
theorem outcome_ne_body {ctx ctx' : HttpContext} (hd : ¬ ctx.state.Done) {text : Bytes}
    (h : ctx.outcome text = .returned ctx') : ctx'.state ≠ .body := by
  rw [HttpContext.outcome_of_not_done hd] at h
  generalize (Scan.init ctx).scan text = scanned at h
  rcases scanned with ⟨s, rest⟩
  by_cases hs : s.state.Done
  · rcases hs with hs | hs | hs
    · simp only [HttpContext.headOutcome, hs] at h
      split at h
      · simp only [Outcome.returned.injEq] at h
        simp [← h]
      · cases h
    all_goals
      simp only [HttpContext.headOutcome, hs, Outcome.returned.injEq] at h
      simp [← h]
  · rw [HttpContext.headOutcome_of_not_done hs] at h
    have hbody : s.state ≠ .body := fun hb => hs (.inl hb)
    have hnul : (s.byte NUL).state ≠ .body := by
      unfold Scan.byte
      split <;> (try split_ifs) <;> simp_all [Scan.push, Scan.mark, Scan.goto, NUL, LF]
    unfold HttpContext.truncatedOutcome at h
    dsimp only at h
    split_ifs at h
    all_goals
      simp only [Outcome.returned.injEq] at h
      simp [← h, hbody, hnul]

theorem not_delivered_of_two {ctx last : HttpContext} (hd : ¬ ctx.state.Done)
    (piece piece' : Bytes) (pieces : List Bytes) :
    ¬ Delivered ctx (piece :: piece' :: pieces) last := by
  intro h
  rcases h with ⟨next, hret, hincomplete, -⟩
  obtain ⟨hout, hb⟩ := HttpContext.returns_iff_outcome.1 hret
  have hne := outcome_ne_body hd hout
  have hcomplete : next.state ≠ .complete := by
    simpa [HttpContext.isComplete] using hincomplete
  simp [hne, hcomplete] at hb

/-- A request is parsed alike whole and in pieces exactly when it arrives in one piece. -/
theorem segmentationInvariant_iff (r : Request) (pieces : List Bytes)
    (hne : ∀ piece ∈ pieces, piece ≠ []) (hcat : pieces.flatten = r.print) :
    SegmentationInvariant r pieces ↔ pieces.length = 1 := by
  constructor
  · intro h
    rcases h with ⟨last, whole, hdel, -, -⟩
    match pieces, hdel with
    | [_], _ => rfl
    | piece :: piece' :: rest, hdel =>
        exact absurd hdel (not_delivered_of_two (by decide) piece piece' rest)
  · intro hlen
    rcases List.length_eq_one_iff.1 hlen with ⟨piece, rfl⟩
    have hpiece : piece = r.print := by simpa using hcat
    subst hpiece
    exact ⟨_, _, ⟨r.returns_print, rfl⟩, r.returns_print, rfl⟩

theorem segmentationInvariant_getSample :
    SegmentationInvariant getSample [getSample.print] ↔ 1 = 1 :=
  segmentationInvariant_iff getSample [getSample.print] (by decide) (by decide)

/-- Cut after its second byte, the sample is refused at once. -/
theorem not_segmentationInvariant_getSample :
    [getSample.print.take 2, getSample.print.drop 2].flatten = getSample.print ∧
      HttpContext.Returns {} (getSample.print.take 2) ⟨.method, {}⟩ false ∧
      ¬ SegmentationInvariant getSample [getSample.print.take 2, getSample.print.drop 2] := by
  refine ⟨by decide, HttpContext.returns_iff_outcome.2 ⟨by decide, by decide⟩, ?_⟩
  intro h
  obtain ⟨last, whole, hdel, -, -⟩ := h
  exact not_delivered_of_two (by decide) _ _ [] hdel

end Request

end CPlusServer

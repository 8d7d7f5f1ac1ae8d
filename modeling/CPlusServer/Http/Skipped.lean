import CPlusServer.Http.Persistence

/-!
# Bytes before a request

The state START passes over everything up to the first upper-case letter. It is
the only state that leaves `start` where it was when its token begins, so what
was passed over is read as part of the method.
-/

namespace CPlusServer

theorem Method.text_head (m : Method) : ∃ ch ∈ m.text.head?, isupper ch = true := by
  cases m <;> exact ⟨_, rfl, rfl⟩

namespace HttpRequest

theorem text_methodOf {method : Bytes} (h : methodOf method ≠ .invaild) :
    (methodOf method).text = method := by
  unfold methodOf at h ⊢
  split_ifs at h ⊢ with hget hpost hhead hput hdelete
  · exact hget.symm
  · exact hpost.symm
  · exact hhead.symm
  · exact hput.symm
  · exact hdelete.symm
  · exact absurd rfl h

/-- No known method begins with a byte that START passes over. -/
theorem methodOf_append {skipped : Bytes} (hne : skipped ≠ [])
    (hok : ∀ ch ∈ skipped, isupper ch = false) (method : Bytes) :
    methodOf (skipped ++ method) = .invaild := by
  by_contra hknown
  obtain ⟨ch, rest, rfl⟩ := List.exists_cons_of_ne_nil hne
  obtain ⟨c, hc, hupper⟩ := (methodOf (ch :: rest ++ method)).text_head
  rw [text_methodOf hknown] at hc
  obtain rfl : ch = c := Option.some.inj hc
  rw [hok ch List.mem_cons_self] at hupper
  cases hupper

end HttpRequest

/-! ## The method is all that changes -/

namespace LooseHead

def after (h : LooseHead) (skipped : Bytes) (hok : ∀ ch ∈ skipped, isupper ch = false) :
    LooseHead :=
  { h with junk := skipped, junk_ok := hok }

theorem print_after (h : LooseHead) (hjunk : h.junk = []) {skipped : Bytes}
    (hok : ∀ ch ∈ skipped, isupper ch = false) : (h.after skipped hok).print = skipped ++ h.print := by
  unfold print
  rw [hjunk]
  rfl

theorem result_after (h : LooseHead) {skipped : Bytes} (hok : ∀ ch ∈ skipped, isupper ch = false)
    (q : HttpRequest) (rest : Bytes) :
    (h.after skipped hok).result q rest = ⟨.complete,
      { (h.result q rest).request with method := HttpRequest.methodOf (skipped ++ h.method) }⟩ := by
  have hbody : NoBody ((h.after skipped hok).fill q) ↔ NoBody (h.fill q) := Iff.rfl
  unfold result
  rw [if_congr hbody rfl rfl]
  split_ifs <;> rfl

end LooseHead

/-! ## Requests with bytes before them -/

structure PrecededRequest where
  skipped : Bytes
  request : VersionedRequest
  skipped_ok : ∀ ch ∈ skipped, isupper ch = false
  small : skipped.length + request.print.length < 2 ^ 31

namespace PrecededRequest

def print (r : PrecededRequest) : Bytes := r.skipped ++ r.request.print

def method (r : PrecededRequest) : Bytes := r.request.request.head.method

/-- One call on a fresh context returns the same value and leaves the same context, with the bytes
before the request and without them. -/
def SameAsAlone (r : PrecededRequest) : Prop :=
  ∃ ctx' b, HttpContext.Returns {} r.print ctx' b ∧ HttpContext.Returns {} r.request.print ctx' b

theorem print_after (r : PrecededRequest) :
    (r.request.loose.after r.skipped r.skipped_ok).print ++ r.request.request.body = r.print := by
  rw [LooseHead.print_after _ rfl, List.append_assoc, r.request.print_loose]
  rfl

/-- The bytes before a request cost it at most its method. -/
theorem returns_print (r : PrecededRequest) :
    ∃ q, HttpContext.Returns {} r.request.print ⟨.complete, q⟩ true ∧
      q.method = HttpRequest.methodOf r.method ∧
      HttpContext.Returns {} r.print
        ⟨.complete, { q with method := HttpRequest.methodOf (r.skipped ++ r.method) }⟩ true := by
  have halone := r.request.returns_result
  have hmethod : (r.request.loose.result {} r.request.request.body).request.method =
      HttpRequest.methodOf r.method := by
    obtain ⟨body, hbody⟩ := r.request.loose.result_request {} r.request.request.body
    rw [hbody]
    rfl
  refine ⟨_, halone, hmethod, LooseHead.returns_iff.2
    ⟨r.request.loose.after r.skipped r.skipped_ok, r.request.request.body, r.print_after.symm, ?_, ?_⟩⟩
  · show (r.request.loose.fill {}).contentLength ≤ _
    rw [r.request.contentLength_fill_loose]
  · rw [LooseHead.result_after]
    rfl

theorem sameAsAlone_iff_method (r : PrecededRequest) : r.SameAsAlone ↔
    HttpRequest.methodOf (r.skipped ++ r.method) = HttpRequest.methodOf r.method := by
  obtain ⟨q, halone, hmethod, hbehind⟩ := r.returns_print
  constructor
  · intro h
    obtain ⟨ctx', b, hret, hret'⟩ := h
    obtain ⟨rfl, -⟩ := hbehind.unique hret
    obtain ⟨hctx, -⟩ := halone.unique hret'
    rw [← hmethod, congrArg (fun ctx => ctx.request.method) hctx]
  · intro h
    rw [h, ← hmethod] at hbehind
    exact ⟨_, true, hbehind, halone⟩

/-- **Bytes before a request.** They are without effect exactly when there are none, or when the
method is none of the five known ones anyway. -/
theorem sameAsAlone_iff (r : PrecededRequest) :
    r.SameAsAlone ↔ r.skipped = [] ∨ HttpRequest.methodOf r.method = .invaild := by
  rw [r.sameAsAlone_iff_method]
  by_cases hnil : r.skipped = []
  · rw [hnil]
    exact iff_of_true rfl (.inl rfl)
  · rw [HttpRequest.methodOf_append hnil r.skipped_ok, or_iff_right hnil]
    exact eq_comm

def crlfSample : PrecededRequest where
  skipped := [CR, LF]
  request := ⟨.getSample, .one⟩
  skipped_ok := List.all_iff_forall_prop.1 rfl
  small := by decide

/-- The GET behind it is a request with an unknown method. -/
theorem not_sameAsAlone_crlfSample :
    crlfSample.print = ascii "\r\nGET /a?k=v HTTP/1.1\r\nHost: x\r\n\r\n" ∧
      ¬ crlfSample.SameAsAlone := by
  refine ⟨by decide, ?_⟩
  rw [sameAsAlone_iff_method]
  decide

end PrecededRequest

end CPlusServer

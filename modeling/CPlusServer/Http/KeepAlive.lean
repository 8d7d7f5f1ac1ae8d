import CPlusServer.Http.Parse

/-!
# Requests on one connection

`OnHttpRequest` parses each read on the context of the connection and calls
`ResetState` after a complete request. Only `state_` is reset, so the maps and
the body of one request are still there for the next.
-/

namespace CPlusServer

namespace Request

/-- Each request of the list, read whole, completes and shows the callback what parsing it alone
in a fresh context shows. -/
def Independent : HttpContext → List Request → Prop
  | _, [] => True
  | ctx, r :: rs => ∃ ctx' alone, ctx.Returns r.print ctx' true ∧ ctx'.isComplete = true ∧
      HttpContext.Returns {} r.print alone true ∧ ctx'.request = alone.request ∧
      Independent ctx'.resetState rs

/-- Nothing that `r` leaves behind survives `r'`: every query key and header key of `r` comes
again in `r'`, and an announced empty body of `r'`, which is not stored, finds an empty one. -/
def Covers (r' r : Request) : Prop :=
  (∀ kv ∈ r.head.paramPairs, ∃ kv' ∈ r'.head.paramPairs, kv'.1 = kv.1) ∧
    (∀ kv ∈ r.head.headerPairs, ∃ kv' ∈ r'.head.headerPairs, kv'.1 = kv.1) ∧
    (r'.head.contentLength? ≠ none → r'.body = [] → r.body = [])

theorem fill_value_eq_iff (r' r : Request) (body : Bytes) :
    ({ r'.head.fill r.value with body := body } : HttpRequest) = r'.value ↔
      (∀ kv ∈ r.head.paramPairs, ∃ kv' ∈ r'.head.paramPairs, kv'.1 = kv.1) ∧
        (∀ kv ∈ r.head.headerPairs, ∃ kv' ∈ r'.head.headerPairs, kv'.1 = kv.1) ∧
        body = r'.body := by
  constructor
  · intro h
    have hparams := congrArg HttpRequest.params h
    have hheaders := congrArg HttpRequest.headers h
    exact ⟨Lib.subset_of_insertAll_eq hparams, Lib.subset_of_insertAll_eq hheaders,
      congrArg HttpRequest.body h⟩
  · intro h
    rcases h with ⟨hparams, hheaders, hbody⟩
    simp only [value, Head.fill, hbody, HttpRequest.mk.injEq, true_and, and_true]
    exact ⟨Lib.insertAll_insertAll_of_subset hparams, Lib.insertAll_insertAll_of_subset hheaders⟩

/-- Without a Content-Length header in `r'` there was none in a request it covers. -/
theorem value_not_count {r' r : Request} (hv : r'.head.contentLength? = none)
    (hsub : ∀ kv ∈ r.head.headerPairs, ∃ kv' ∈ r'.head.headerPairs, kv'.1 = kv.1) :
    r.value.countHeader (ascii "Content-Length") = false := by
  have hnone : r.head.contentLength? = none := by
    unfold Head.contentLength? at hv ⊢
    rw [Lib.lastValue_eq_none_iff] at hv ⊢
    intro kv hkv hk
    rcases hsub kv hkv with ⟨kv', hmem, heq⟩
    exact hv kv' hmem (heq.trans hk)
  have hlook : r.value.headers.lookup (ascii "Content-Length") = none := by
    show (r.head.fill {}).headers.lookup (ascii "Content-Length") = none
    rw [r.contentLength_none hnone]
    rfl
  rw [HttpRequest.countHeader, hlook]
  rfl

/-- One request read on a context that holds exactly the request before it. -/
theorem outcome_after_iff (r' r : Request) :
    HttpContext.outcome ⟨.start, r.value⟩ r'.print = .returned ⟨.complete, r'.value⟩ ↔
      r'.Covers r := by
  constructor
  · intro h
    obtain ⟨body, hfill⟩ := r'.outcome_print_fill r.value h
    rcases (fill_value_eq_iff r' r body).1 hfill.symm with ⟨hparams, hheaders, -⟩
    refine ⟨hparams, hheaders, ?_⟩
    intro hv hnil
    rw [r'.outcome_print_some r.value hv, if_pos hnil, Outcome.returned.injEq,
      HttpContext.mk.injEq] at h
    exact (congrArg HttpRequest.body h.2).trans hnil
  · intro h
    rcases h with ⟨hparams, hheaders, hempty⟩
    by_cases hv : r'.head.contentLength? = none
    · rw [r'.outcome_print_none r.value hv (value_not_count hv hheaders)]
      have hbody : [] = r'.body := by
        have hframed := r'.framed
        rw [hv] at hframed
        exact hframed.symm
      rw [(fill_value_eq_iff r' r []).2 ⟨hparams, hheaders, hbody⟩]
    · rw [r'.outcome_print_some r.value hv]
      have hbody : (if r'.body = [] then r.value.body else r'.body) = r'.body := by
        split
        · rename_i hnil
          rw [hnil]
          exact hempty hv hnil
        · rfl
      rw [(fill_value_eq_iff r' r _).2 ⟨hparams, hheaders, hbody⟩]

/-- One step of a connection: the request completes with its own value and leaves that value. -/
theorem independent_cons_iff (ctx : HttpContext) (r : Request) (rs : List Request) :
    Independent ctx (r :: rs) ↔
      ctx.outcome r.print = .returned ⟨.complete, r.value⟩ ∧
        Independent ⟨.start, r.value⟩ rs := by
  constructor
  · intro h
    obtain ⟨ctx', alone, hret, hcomplete, halone, heq, hrest⟩ := h
    have hvalue : alone = ⟨.complete, r.value⟩ := (halone.unique r.returns_print).1
    have hctx : ctx' = ⟨.complete, r.value⟩ := by
      rcases ctx' with ⟨state, request⟩
      simp only [HttpContext.isComplete, decide_eq_true_eq] at hcomplete
      rw [hvalue] at heq
      rw [hcomplete, show request = r.value from heq]
    rw [hctx] at hret hrest
    exact ⟨(HttpContext.returns_iff_outcome.1 hret).1, hrest⟩
  · intro h
    exact ⟨_, _, HttpContext.returns_iff_outcome.2 ⟨h.1, by simp⟩, rfl, r.returns_print, rfl, h.2⟩

theorem independent_after_iff (r : Request) (rs : List Request) :
    Independent ⟨.start, r.value⟩ rs ↔ List.IsChain (fun r r' => Covers r' r) (r :: rs) := by
  induction rs generalizing r with
  | nil => simp [Independent]
  | cons r' rs ih =>
      rw [independent_cons_iff, outcome_after_iff, ih, List.isChain_cons_cons]

/-- **Keep-alive.** Requests on one connection are read independently exactly when each covers
the one before it. -/
theorem independent_iff (rs : List Request) :
    Independent {} rs ↔ List.IsChain (fun r r' => Covers r' r) rs := by
  cases rs with
  | nil => simp [Independent]
  | cons r rs =>
      rw [independent_cons_iff, independent_after_iff]
      simp [r.outcome_print_fresh]

def postSample : Request where
  head := .plain (ascii "POST") (ascii "/") []
    [.plain (ascii "Content-Length") (ascii "5") (by decide) (List.all_iff_forall_prop.1 rfl)
      (by decide) (fun _ hch => Option.some.inj hch ▸ rfl) (List.all_iff_forall_prop.1 rfl)]
    ⟨chr 'P', rfl, rfl⟩ (List.all_iff_forall_prop.1 rfl) (by decide)
    (List.all_iff_forall_prop.1 rfl)
  body := ascii "hello"
  framed := ⟨(List.all_iff_forall_prop.1 rfl : ∀ ch ∈ ascii "5", isdigit ch = true), rfl⟩
  small := by decide

/-- After the POST, the GET that announces no body waits for five bytes and never ends. -/
theorem get_after_post_never_ends :
    HttpContext.Returns {} postSample.print ⟨.complete, postSample.value⟩ true ∧
      ¬ HttpContext.Terminates ⟨.start, postSample.value⟩ getSample.print ∧
      ¬ Independent {} [postSample, getSample] := by
  have hhang : ¬ HttpContext.Terminates ⟨.start, postSample.value⟩ getSample.print := by
    rw [HttpContext.terminates_iff_outcome, not_not]
    decide
  refine ⟨postSample.returns_print, hhang, ?_⟩
  intro h
  rcases ((independent_cons_iff _ _ _).1 h).2 with ⟨ctx', -, hret, -⟩
  exact hhang hret.terminates

end Request

end CPlusServer

import CPlusServer.Http.Refinement

/-!
# Termination and bounds of one call

Both hold exactly outside one kind of input. The loop never ends when the head
of a request is over in the call and fewer bytes follow it than its
Content-Length. It reads past the terminator when the string ends inside the
head while a token that began after the first byte is being read, because the
guard bounds `end - start`.
-/

namespace CPlusServer

namespace HttpContext

theorem terminates_iff_outcome {ctx : HttpContext} {begin : Bytes} :
    ctx.Terminates begin ↔ ctx.outcome begin ≠ .hangs := by
  rw [terminates_iff_ends]
  have h := realises_outcome ctx begin
  cases ho : ctx.outcome begin with
  | returned ctx' =>
      rw [ho] at h
      rcases h with ⟨c, hc, -⟩
      exact ⟨fun _ => by simp, fun _ => ⟨_, hc⟩⟩
  | overrun =>
      rw [ho] at h
      exact ⟨fun _ => by simp, fun _ => ⟨_, h⟩⟩
  | hangs =>
      rw [ho] at h
      constructor
      · intro hends
        rcases hends with ⟨r, hr⟩
        exact absurd hr (h r)
      · intro hne
        exact absurd rfl hne

theorem staysInside_iff_outcome {ctx : HttpContext} {begin : Bytes} :
    ctx.StaysInside begin ↔ ctx.outcome begin ≠ .overrun := by
  rw [staysInside_iff]
  have h := realises_outcome ctx begin
  cases ho : ctx.outcome begin with
  | returned ctx' =>
      rw [ho] at h
      obtain ⟨c, hc, -⟩ := h
      refine ⟨fun _ => by simp, fun _ e he => ?_⟩
      cases hc.unique he
  | overrun =>
      rw [ho] at h
      constructor
      · intro hfree
        exact absurd h (hfree _)
      · intro hne
        exact absurd rfl hne
  | hangs =>
      rw [ho] at h
      exact ⟨fun _ => by simp, fun _ e => h _⟩

theorem returns_iff_outcome {ctx ctx' : HttpContext} {begin : Bytes} {b : Bool} :
    ctx.Returns begin ctx' b ↔ ctx.outcome begin = .returned ctx' ∧
      b = decide (ctx'.state = .complete ∨ ctx'.state = .body) := by
  rw [returns_iff_ends]
  have h := realises_outcome ctx begin
  cases ho : ctx.outcome begin with
  | returned ctx'' =>
      rw [ho] at h
      rcases h with ⟨c, hc, hstate, hrequest⟩
      have hleave : leave c = (ctx'', decide (ctx''.state = .complete ∨ ctx''.state = .body)) := by
        simp only [leave, hstate, hrequest]
      constructor
      · intro hret
        rcases hret with ⟨d, hd, hl⟩
        have heq : c = d := Except.ok.inj (hc.unique hd)
        subst heq
        obtain ⟨rfl, rfl⟩ := Prod.mk.inj (hleave.symm.trans hl)
        exact ⟨rfl, rfl⟩
      · intro hret
        rcases hret with ⟨hctx, rfl⟩
        cases hctx
        exact ⟨c, hc, hleave⟩
  | overrun =>
      rw [ho] at h
      constructor
      · intro hret
        rcases hret with ⟨d, hd, -⟩
        cases h.unique hd
      · intro hret
        cases hret.1
  | hangs =>
      rw [ho] at h
      constructor
      · intro hret
        obtain ⟨d, hd, -⟩ := hret
        exact absurd hd (h _)
      · intro hret
        cases hret.1

/-! ## Termination -/

/-- The head of a request is over within the string, and fewer bytes follow it than the
Content-Length in force: the last one of the head, or the one the context still holds. -/
def BodyCutShort (ctx : HttpContext) (text : Bytes) : Prop :=
  ¬ ctx.state.Done ∧ ((Scan.init ctx).scan text).1.state = .body ∧
    (((Scan.init ctx).scan text).2.length : Int) <
      ((Scan.init ctx).scan text).1.request.contentLength

theorem truncatedOutcome_ne_hangs (s : Scan) (size : Nat) : truncatedOutcome s size ≠ .hangs := by
  unfold truncatedOutcome
  dsimp only
  split_ifs <;> simp

theorem outcome_of_done {ctx : HttpContext} (hd : ctx.state.Done) (text : Bytes) :
    ∃ ctx', ctx.outcome text = .returned ctx' := by
  rcases hd with hs | hs | hs
  · by_cases hnil : text = []
    · exact ⟨ctx, by simp [outcome, hs, hnil]⟩
    · exact ⟨bodyOutcome ctx.request text, by simp [outcome, hs, hnil]⟩
  · exact ⟨ctx, by simp [outcome, hs]⟩
  · exact ⟨ctx, by simp [outcome, hs]⟩

theorem outcome_hangs_iff {ctx : HttpContext} {text : Bytes} :
    ctx.outcome text = .hangs ↔ BodyCutShort ctx text := by
  by_cases hd : ctx.state.Done
  · rcases outcome_of_done hd text with ⟨ctx', ho⟩
    simp [ho, BodyCutShort, hd]
  · rw [outcome_of_not_done hd]
    simp only [BodyCutShort, hd, not_false_eq_true, true_and]
    generalize (Scan.init ctx).scan text = scanned
    rcases scanned with ⟨s, rest⟩
    by_cases hs : s.state.Done
    · rcases hs with hs | hs | hs
      · simp only [headOutcome, hs, ge_iff_le, true_and]
        split
        · rename_i hle
          simp [not_lt.2 hle]
        · rename_i hlt
          simp [not_le.1 hlt]
      · simp [headOutcome, hs]
      · simp [headOutcome, hs]
    · rw [headOutcome_of_not_done hs]
      have hne : s.state ≠ .body := fun hb => hs (.inl hb)
      simp [truncatedOutcome_ne_hangs, hne]

/-- The `while` loop of `ParaseRequest` ends exactly when the body is not cut short. -/
theorem paraseRequest_terminates_iff (ctx : HttpContext) (text : Bytes) :
    ctx.Terminates text ↔ ¬ BodyCutShort ctx text := by
  rw [terminates_iff_outcome, ne_eq, outcome_hangs_iff]

def postHead : Bytes := ascii "POST / HTTP/1.1\r\nContent-Length: 5\r\n\r\n"

theorem postHead_never_ends : ¬ HttpContext.Terminates {} postHead := by
  rw [terminates_iff_outcome, not_not]
  decide

/-! ## Bounds -/

/-- The string ends inside the head; the token being read begins after the first byte; and the
terminator, which is scanned too, is not rejected and leaves a token that begins after the first
byte. -/
def CutInToken (ctx : HttpContext) (text : Bytes) : Prop :=
  ¬ ctx.state.Done ∧ ¬ ((Scan.init ctx).scan text).1.state.Done ∧
    ((Scan.init ctx).scan text).1.tok.length < text.length ∧
    (((Scan.init ctx).scan text).1.byte NUL).state ≠ .invaild ∧
    (((Scan.init ctx).scan text).1.byte NUL).tok.length < text.length

theorem truncatedOutcome_overrun_iff (s : Scan) (size : Nat) :
    truncatedOutcome s size = .overrun ↔ s.tok.length < size ∧
      (s.byte NUL).state ≠ .invaild ∧ (s.byte NUL).tok.length < size := by
  unfold truncatedOutcome
  dsimp only
  split_ifs <;> simp_all

theorem outcome_overrun_iff {ctx : HttpContext} {text : Bytes} :
    ctx.outcome text = .overrun ↔ CutInToken ctx text := by
  by_cases hd : ctx.state.Done
  · obtain ⟨ctx', ho⟩ := outcome_of_done hd text
    simp [ho, CutInToken, hd]
  · rw [outcome_of_not_done hd]
    simp only [CutInToken, hd, not_false_eq_true, true_and]
    generalize (Scan.init ctx).scan text = scanned
    rcases scanned with ⟨s, rest⟩
    by_cases hs : s.state.Done
    · have hno : headOutcome s rest text.length ≠ .overrun := by
        rcases hs with hs | hs | hs <;> simp only [headOutcome, hs]
        · split <;> simp
        all_goals simp
      simp [hno, hs]
    · rw [headOutcome_of_not_done hs, truncatedOutcome_overrun_iff]
      simp [hs]

/-- Every read and range of a call lies inside its string exactly when no token is cut off. -/
theorem paraseRequest_staysInside_iff (ctx : HttpContext) (text : Bytes) :
    ctx.StaysInside text ↔ ¬ CutInToken ctx text := by
  rw [staysInside_iff_outcome, ne_eq, outcome_overrun_iff]

theorem get_blank_reads_outside : ¬ HttpContext.StaysInside {} (ascii "GET ") := by
  rw [staysInside_iff_outcome, not_not]
  decide

end HttpContext

end CPlusServer

import CPlusServer.Http.BlankLine
import CPlusServer.Http.HeadScan

/-!
# What a call accepts

A call in the state START returns true for exactly the texts that begin with a
loose head and go on with at least as many bytes as it announces. What it stores
can be read off the pieces of that head. With fewer bytes behind the head it does
not return, and where a NUL could go on with the text it may read behind its end.
-/

namespace CPlusServer

namespace HttpContext

theorem exists_scan_of_returns {ctx ctx' : HttpContext} (hd : ¬ ctx.state.Done) {text : Bytes}
    (h : Returns ctx text ctx' true) :
    ∃ s rest, (Scan.init ctx).scan text = (s, rest) ∧ (s.state = .body ∨ s.state = .complete) := by
  obtain ⟨hout, htrue⟩ := returns_iff_outcome.1 h
  rw [outcome_of_not_done hd] at hout
  have hstate : ctx'.state = .complete ∨ ctx'.state = .body := of_decide_eq_true htrue.symm
  generalize hscan : (Scan.init ctx).scan text = scanned at hout
  obtain ⟨s, rest⟩ := scanned
  refine ⟨s, rest, rfl, ?_⟩
  by_cases hs : s.state.Done
  · rcases hs with hs | hs | hs
    · exact .inl hs
    · exact .inr hs
    · simp only [headOutcome, hs, Outcome.returned.injEq] at hout
      simp [← hout] at hstate
  · exfalso
    rw [headOutcome_of_not_done hs] at hout
    have hnul : ¬ ((s.byte NUL).state = .body ∨ (s.byte NUL).state = .complete) := by
      intro hrecognised
      have hlf := (Scan.byte_recognised hs hrecognised).2
      revert hlf
      decide
    unfold truncatedOutcome at hout
    dsimp only at hout
    split_ifs at hout
    · cases hout
      exact hnul hstate.symm
    · cases hout
      exact hs (State.done_of_recognised hstate.symm)

end HttpContext

namespace LooseHead

/-- A Content-Length that announces an empty body. -/
def NoBody (q : HttpRequest) : Prop :=
  q.countHeader (ascii "Content-Length") = true ∧ q.contentLength ≤ 0

instance (q : HttpRequest) : Decidable (NoBody q) :=
  inferInstanceAs (Decidable (_ = true ∧ _ ≤ _))

def result (h : LooseHead) (q : HttpRequest) (rest : Bytes) : HttpContext :=
  ⟨.complete, if NoBody (h.fill q) then h.fill q else (h.fill q).setBody rest⟩

theorem outcome_print (h : LooseHead) (q : HttpRequest) (rest : Bytes) :
    HttpContext.outcome ⟨.start, q⟩ (h.print ++ rest) =
      if (h.fill q).contentLength ≤ rest.length then .returned (h.result q rest) else .hangs := by
  obtain ⟨tok, key, vers, hscan⟩ := h.scan_print q rest
  rw [HttpContext.outcome_of_not_done (HttpContext.start_not_done q)]
  show HttpContext.headOutcome ((Scan.mk .start q [] [] []).scan (h.print ++ rest)).1
    ((Scan.mk .start q [] [] []).scan (h.print ++ rest)).2 (h.print ++ rest).length = _
  rw [hscan]
  unfold result
  by_cases hnone : NoBody (h.fill q)
  · have hle : (h.fill q).contentLength ≤ rest.length := by
      have hzero := hnone.2
      omega
    rw [if_pos hle, if_pos hnone]
    unfold NoBody at hnone
    rw [if_pos hnone]
    rfl
  · rw [if_neg hnone]
    unfold NoBody at hnone
    rw [if_neg hnone]
    rfl

theorem eq_result {h : LooseHead} {q : HttpRequest} {rest : Bytes} {ctx' : HttpContext} {b : Bool}
    (hret : HttpContext.Returns ⟨.start, q⟩ (h.print ++ rest) ctx' b) : ctx' = h.result q rest := by
  have hout := (HttpContext.returns_iff_outcome.1 hret).1
  rw [outcome_print] at hout
  split_ifs at hout
  exact (Outcome.returned.inj hout).symm

/-- **Acceptance.** The texts for which a call returns true, and what it makes of them. -/
theorem returns_iff {q : HttpRequest} {text : Bytes} {ctx' : HttpContext} :
    HttpContext.Returns ⟨.start, q⟩ text ctx' true ↔ ∃ h : LooseHead, ∃ rest,
      text = h.print ++ rest ∧ (h.fill q).contentLength ≤ rest.length ∧ ctx' = h.result q rest := by
  constructor
  · intro hret
    obtain ⟨s, rest, hscan, hs⟩ :=
      HttpContext.exists_scan_of_returns (HttpContext.start_not_done q) hret
    obtain ⟨h, rfl⟩ := exists_of_scan hscan hs
    have hout := (HttpContext.returns_iff_outcome.1 hret).1
    rw [outcome_print] at hout
    split_ifs at hout with hle
    exact ⟨h, rest, rfl, hle, (Outcome.returned.inj hout).symm⟩
  · intro htext
    obtain ⟨h, rest, rfl, hle, rfl⟩ := htext
    refine HttpContext.returns_iff_outcome.2 ⟨?_, rfl⟩
    rw [outcome_print, if_pos hle]

theorem result_request (h : LooseHead) (q : HttpRequest) (rest : Bytes) :
    ∃ body, (h.result q rest).request = { h.fill q with body := body } := by
  unfold result
  split_ifs
  · exact ⟨q.body, rfl⟩
  · exact ⟨rest, rfl⟩

end LooseHead

/-! ## Calls that do not return, or leave the string -/

namespace Scan

open BlankLine (machine)

/-- A head that goes through all states. -/
def tour : Bytes := ascii "G /a?b=c H/1.1\r\nK :v\r\n\r"

theorem evalFrom_tour {st : State} (hd : ¬ st.Done) (hlf : st ≠ .lf) :
    ∃ n < tour.length + 1, machine.evalFrom st (tour.drop n) = .crlfcr := by
  revert hd hlf
  cases st <;> decide

/-- Wherever the head goes on, it can come to its end. -/
theorem exists_recognised {s : Scan} (hd : ¬ s.state.Done) (hlf : s.state ≠ .lf) :
    ∃ w s', s.scan w = (s', []) ∧ (s'.state = .body ∨ s'.state = .complete) := by
  obtain ⟨n, -, hn⟩ := evalFrom_tour hd hlf
  have hnot : ¬ (machine.evalFrom s.state (tour.drop n)).Done := by
    rw [hn]
    decide
  obtain ⟨s₁, hscan, hs₁⟩ := BlankLine.scan_of_evalFrom hnot
  rw [hn] at hs₁
  have hrecognised : (s₁.byte LF).state = .body ∨ (s₁.byte LF).state = .complete := by
    unfold byte
    rw [hs₁]
    dsimp only
    rw [if_pos rfl]
    split_ifs <;> simp [push, goto]
  refine ⟨tour.drop n ++ [LF], s₁.byte LF, ?_, hrecognised⟩
  rw [scan_append hscan, scan_cons (by rw [hs₁]; decide)]
  rfl

theorem byte_ne_lf {s : Scan} (h : s.state ≠ .lf) (ch : UInt8) : (s.byte ch).state ≠ .lf := by
  obtain ⟨st, q, t, key, vers⟩ := s
  revert h
  unfold byte
  cases st <;> dsimp only <;> (try split_ifs) <;> simp [push, mark, goto]

theorem scan_ne_lf {s s' : Scan} {text rest : Bytes} (h : s.state ≠ .lf)
    (hscan : s.scan text = (s', rest)) : s'.state ≠ .lf := by
  induction text generalizing s with
  | nil =>
      obtain ⟨rfl, -⟩ := Prod.mk.inj hscan
      exact h
  | cons ch text ih =>
      by_cases hd : s.state.Done
      · rw [scan_done hd] at hscan
        obtain ⟨rfl, -⟩ := Prod.mk.inj hscan
        exact h
      · rw [scan_cons hd] at hscan
        exact ih (byte_ne_lf h ch) hscan

theorem scan_left {s s' : Scan} {u v : Bytes} (h : s.scan (u ++ v) = (s', []))
    (hd : ¬ s'.state.Done) : ∃ s₁, s.scan u = (s₁, []) ∧ ¬ s₁.state.Done := by
  induction u generalizing s with
  | nil =>
      refine ⟨s, rfl, fun hs => ?_⟩
      rw [List.nil_append, scan_done hs] at h
      obtain ⟨rfl, -⟩ := Prod.mk.inj h
      exact hd hs
  | cons ch u ih =>
      have hs : ¬ s.state.Done := by
        intro hs
        rw [scan_done hs] at h
        cases h
      rw [List.cons_append, scan_cons hs] at h
      obtain ⟨s₁, hu, hs₁⟩ := ih h
      exact ⟨s₁, by rw [scan_cons hs, hu], hs₁⟩

theorem length_byte_tok (s : Scan) (ch : UInt8) : (s.byte ch).tok.length ≤ s.tok.length + 1 := by
  obtain ⟨st, q, t, key, vers⟩ := s
  unfold byte
  cases st <;> dsimp only <;> (try split_ifs) <;> simp [push, mark, goto]

theorem length_scan_tok {s s' : Scan} {text : Bytes} (h : s.scan text = (s', [])) :
    s'.tok.length ≤ s.tok.length + text.length := by
  induction text generalizing s with
  | nil =>
      obtain ⟨rfl, -⟩ := Prod.mk.inj h
      exact Nat.le_refl _
  | cons ch text ih =>
      by_cases hd : s.state.Done
      · rw [scan_done hd] at h
        cases h
      · rw [scan_cons hd] at h
        have htail := ih h
        have hhead := length_byte_tok s ch
        rw [List.length_cons]
        omega

theorem scan_rest_nil {s s' : Scan} {text rest : Bytes} (h : s.scan text = (s', rest))
    (hd : ¬ s'.state.Done) : rest = [] := by
  induction text generalizing s with
  | nil => exact (Prod.mk.inj h).2.symm
  | cons ch text ih =>
      by_cases hs : s.state.Done
      · rw [scan_done hs] at h
        obtain ⟨rfl, -⟩ := Prod.mk.inj h
        exact absurd hs hd
      · rw [scan_cons hs] at h
        exact ih h

/-- Up to the blank behind the method there is one token. -/
theorem scan_before_blank (h : LooseHead) {q : HttpRequest} {text more : Bytes} {s : Scan}
    (htext : h.junk ++ h.method = text ++ more)
    (hscan : (mk .start q [] [] []).scan text = (s, [])) : s.tok = text := by
  have hjunk {u : Bytes} (hu : ∀ ch ∈ u, isupper ch = false) (rest : Bytes) :
      (mk .start q [] [] []).scan (u ++ rest) = (mk .start q u [] []).scan rest :=
    scan_mk_pushes (by decide) (fun ch hch => pushes_start (hu ch hch)) rest
  rcases List.append_eq_append_iff.1 htext with ⟨word, rfl, hmethod⟩ | ⟨later, hpart, -⟩
  · rw [hjunk h.junk_ok] at hscan
    cases word with
    | nil =>
        obtain ⟨rfl, -⟩ := Prod.mk.inj hscan
        exact (List.append_nil _).symm
    | cons c word =>
        obtain ⟨c', hc', hup⟩ := h.method_head
        have hword := h.method_ok
        rw [hmethod] at hc' hword
        obtain rfl : c = c' := Option.some.inj hc'
        have hpushes : ∀ ch ∈ word, Pushes .method ch := fun ch hch =>
          pushes_method (hword ch (List.mem_append_left _ hch))
        rw [scan_mk_cons (by decide), byte_start _ _ _ _ hup, ← List.append_nil word,
          scan_mk_pushes (by decide) hpushes] at hscan
        obtain ⟨rfl, -⟩ := Prod.mk.inj hscan
        simp
  · have htextJunk : ∀ ch ∈ text, isupper ch = false := fun ch hch =>
      h.junk_ok ch (hpart ▸ List.mem_append_left _ hch)
    rw [← List.append_nil text, hjunk htextJunk] at hscan
    obtain ⟨rfl, -⟩ := Prod.mk.inj hscan
    rfl

end Scan

namespace HttpContext

variable {q : HttpRequest} {text : Bytes}

/-- **Bodies cut short.** A call on a fresh state hangs on exactly the texts that begin with a loose
head and have fewer bytes behind it than it announces. -/
theorem bodyCutShort_iff : BodyCutShort ⟨.start, q⟩ text ↔ ∃ h : LooseHead, ∃ rest,
    text = h.print ++ rest ∧ (rest.length : Int) < (h.fill q).contentLength := by
  constructor
  · intro hcut
    have hhangs := outcome_hangs_iff.2 hcut
    obtain ⟨h, htext⟩ := @LooseHead.exists_of_scan q text _ _ rfl (.inl hcut.2.1)
    refine ⟨h, _, htext, ?_⟩
    rw [htext, LooseHead.outcome_print] at hhangs
    split_ifs at hhangs with hle
    exact not_le.1 hle
  · intro htext
    obtain ⟨h, rest, rfl, hlt⟩ := htext
    refine outcome_hangs_iff.1 ?_
    rw [LooseHead.outcome_print, if_neg (not_le.2 hlt)]

/-- What the scanner is at, behind a text that a NUL can go on with. -/
theorem exists_scan_of_print {h : LooseHead} {later : Bytes} (hprint : h.print = text ++ NUL :: later) :
    ∃ s, (Scan.mk .start q [] [] []).scan text = (s, []) ∧ ¬ s.state.Done ∧
      ¬ (s.byte NUL).state.Done := by
  obtain ⟨s', hscan, hs'⟩ : ∃ s', (Scan.mk .start q [] [] []).scan (h.print ++ []) = (s', []) ∧
      s'.state.Done := by
    obtain ⟨tok, key, vers, hscan⟩ := h.scan_print q []
    split_ifs at hscan
    · exact ⟨_, hscan, .inr (.inl rfl)⟩
    · exact ⟨_, hscan, .inl rfl⟩
  rw [List.append_nil] at hscan
  obtain ⟨before, last, ch, hbefore, hlast, hnot, -⟩ :=
    Scan.scan_last (by decide : ¬ State.start.Done) hs' hscan
  -- the last byte of a head is its LF, so the NUL is not the last
  obtain ⟨later, rfl⟩ : ∃ rest, later = rest ++ [LF] := by
    have hend : h.print.getLast? = some LF := by
      rw [h.print_eq, List.append_cons, ← List.append_assoc]
      exact List.getLast?_concat
    rcases List.eq_nil_or_concat later with rfl | ⟨rest, c, rfl⟩
    · rw [hprint, List.getLast?_concat] at hend
      exact absurd (Option.some.inj hend) (by decide)
    · rw [List.concat_eq_append] at hprint ⊢
      rw [hprint, ← List.cons_append, ← List.append_assoc, List.getLast?_concat] at hend
      exact ⟨rest, by rw [Option.some.inj hend]⟩
  rw [hprint, ← List.cons_append, ← List.append_assoc] at hbefore
  obtain ⟨rfl, -⟩ := List.append_inj' hbefore rfl
  rw [List.append_cons] at hlast
  obtain ⟨s₂, hs₂, hnot₂⟩ := Scan.scan_left hlast hnot
  obtain ⟨s, hs, hnots⟩ := Scan.scan_left hs₂ hnot₂
  rw [Scan.scan_append hs, Scan.scan_cons hnots] at hs₂
  obtain ⟨rfl, -⟩ := Prod.mk.inj hs₂
  exact ⟨s, hs, hnots, hnot₂⟩

/-- Behind the blank the token is shorter than the text, and stays so with the NUL unless the method
is a single byte and no URL has begun. -/
theorem length_tok_iff {h : LooseHead} {more : Bytes} {s : Scan}
    (hscan : (Scan.mk .start q [] [] []).scan (h.junk ++ (h.method ++ h.blank₁ :: more)) = (s, [])) :
    s.tok.length < (h.junk ++ (h.method ++ h.blank₁ :: more)).length ∧
      ((s.byte NUL).tok.length < (h.junk ++ (h.method ++ h.blank₁ :: more)).length ↔
        2 ≤ (h.junk ++ h.method).length ∨ chr '/' ∈ more) := by
  have hmethod : 0 < h.method.length := by
    obtain ⟨c, hc, -⟩ := h.method_head
    cases hm : h.method with
    | nil => rw [hm] at hc; cases hc
    | cons c word => exact Nat.succ_pos _
  rw [Scan.scan_method h.junk_ok h.method_head h.method_ok h.blank₁_ok] at hscan
  have htok := Scan.length_scan_tok hscan
  have hnul := Scan.length_byte_tok s NUL
  simp only [List.length_append, List.length_cons, List.length_nil] at htok ⊢
  by_cases hslash : chr '/' ∈ more
  · obtain ⟨gap, path, rfl, hgap⟩ := List.eq_append_cons_of_mem hslash
    rw [Scan.scan_token (by decide) fun ch hch => Scan.pushes_beforeUri fun heq => hgap (heq ▸ hch),
      Scan.byte_beforeUri] at hscan
    have hurl := Scan.length_scan_tok hscan
    simp only [List.length_append, List.length_cons, List.length_nil] at hurl htok ⊢
    refine ⟨by omega, iff_of_true (by omega) (.inr hslash)⟩
  · have hpushes : ∀ ch ∈ more, Scan.Pushes .beforeUri ch := fun ch hch =>
      Scan.pushes_beforeUri fun heq => hslash (heq ▸ hch)
    rw [← List.append_nil more, Scan.scan_mk_pushes (by decide) hpushes] at hscan
    obtain ⟨rfl, -⟩ := Prod.mk.inj hscan
    have hpush : chr '/' ≠ NUL := by decide
    rw [Scan.pushes_beforeUri hpush.symm _ rfl]
    simp only [Scan.push, List.length_append, List.length_cons, List.length_nil]
    refine ⟨by omega, ⟨fun hlt => .inl (by omega), fun hlong => ?_⟩⟩
    have hmore := hlong.resolve_right hslash
    omega

/-- **Tokens cut off.** A call on a fresh state reads behind its string for exactly these texts:
with a NUL behind it the text still begins a loose head, the blank behind the method has come, and a
token behind that one unless the method is more than one byte long. -/
theorem cutInToken_iff : CutInToken ⟨.start, q⟩ text ↔ ∃ h : LooseHead, ∃ more later,
    h.print = text ++ NUL :: later ∧ text = h.junk ++ (h.method ++ h.blank₁ :: more) ∧
      (2 ≤ (h.junk ++ h.method).length ∨ chr '/' ∈ more) := by
  have hstart : ¬ State.start.Done := by decide
  constructor
  · intro hcut
    obtain ⟨-, hd, htok, hinvaild, htok'⟩ := hcut
    generalize hscan : (Scan.init ⟨.start, q⟩).scan text = scanned at hd htok hinvaild htok'
    obtain ⟨s, rest⟩ := scanned
    obtain rfl := Scan.scan_rest_nil hscan hd
    have hnot : ¬ (s.byte NUL).state.Done := by
      rintro (hs | hs | hs)
      · exact absurd (Scan.byte_recognised hd (.inl hs)).2 (by decide)
      · exact absurd (Scan.byte_recognised hd (.inr hs)).2 (by decide)
      · exact hinvaild hs
    have hlf : (s.byte NUL).state ≠ .lf :=
      Scan.byte_ne_lf (Scan.scan_ne_lf (fun hs : State.start = .lf => nomatch hs) hscan) NUL
    obtain ⟨later, s', hlater, hs'⟩ := Scan.exists_recognised hnot hlf
    have hall : (Scan.init ⟨.start, q⟩).scan (text ++ NUL :: later) = (s', []) := by
      rw [Scan.scan_append hscan, Scan.scan_cons hd, hlater]
    obtain ⟨h, hprint⟩ := LooseHead.exists_of_scan hall hs'
    rw [List.append_nil] at hprint
    have hcut : (h.junk ++ h.method) ++ h.blank₁ :: _ = text ++ NUL :: later :=
      (List.append_assoc _ _ _).trans hprint.symm
    rcases List.append_eq_append_iff.1 hcut with ⟨more, htext, hmore⟩ | ⟨more, htext, hmore⟩
    · cases more with
      | nil =>
          have hblank := h.blank₁_ok
          rw [(List.cons.inj hmore).1] at hblank
          exact absurd hblank (by decide)
      | cons b more =>
          obtain ⟨rfl, -⟩ := List.cons.inj hmore
          rw [List.append_assoc] at htext
          obtain rfl := htext
          exact ⟨h, more, later, hprint.symm, rfl, (length_tok_iff hscan).2.1 htok'⟩
    · -- the text ends before the blank, where it is one token
      rw [Scan.scan_before_blank h htext hscan] at htok
      exact absurd htok (lt_irrefl _)
  · intro htext
    obtain ⟨h, more, later, hprint, rfl, hlong⟩ := htext
    obtain ⟨s, hscan, hd, hnot⟩ := exists_scan_of_print (q := q) hprint
    obtain ⟨htok, hiff⟩ := length_tok_iff hscan
    have hinit : (Scan.init ⟨.start, q⟩).scan _ = (s, []) := hscan
    unfold CutInToken
    rw [hinit]
    exact ⟨hstart, hd, htok, fun hs => hnot (.inr (.inr hs)), hiff.2 hlong⟩

end HttpContext

end CPlusServer

import CPlusServer.Http.Framing
import CPlusServer.Http.Grammar
import CPlusServer.Lib.Delimited
import CPlusServer.Lib.Regular

/-!
# The head and the blank line

The states of the scanner form an automaton as long as the head goes on. Its
last LF can be that of the first blank line only when the state in front of the
blank line is that of a version or of a header value, so the texts in front are
a regular language: `looseHead`, the grammar of the parser itself. In it the
bytes of a URL, a query, a protocol, a header key or a header value may be line
ends.
-/

open scoped Computability

namespace CPlusServer

namespace BlankLine

open Lib

/-! ## The automaton of the scanner -/

/-- The next state of the scanner; the request object matters at the last byte only. -/
def next (st : State) (ch : UInt8) : State := (Scan.byte { state := st, request := {} } ch).state

/-- The states of the scanner, accepting where a line end may follow. -/
def machine : DFA UInt8 State where
  step := next
  start := .start
  accept := {.inVersion, .headerValue}

/-- The object of the request decides between BODY and COMPLETE only. -/
theorem byte_state (s : Scan) (ch : UInt8) :
    (s.byte ch).state = next s.state ch ∨
      (s.byte ch).state.Done ∧ (next s.state ch).Done := by
  unfold next Scan.byte State.Done
  dsimp only
  split <;> (try split_ifs) <;> simp [Scan.push, Scan.mark, Scan.goto]

theorem next_done {st : State} (hd : st.Done) (ch : UInt8) : next st ch = st := by
  rcases hd with rfl | rfl | rfl <;> rfl

theorem evalFrom_done {st : State} (hd : st.Done) (text : Bytes) :
    machine.evalFrom st text = st := by
  induction text with
  | nil => rfl
  | cons ch text ih =>
      rw [DFA.evalFrom_cons]
      show machine.evalFrom (next st ch) text = st
      rw [next_done hd, ih]

theorem evalFrom_of_scan {s s' : Scan} {text : Bytes} (h : s.scan text = (s', []))
    (hd' : ¬ s'.state.Done) : machine.evalFrom s.state text = s'.state := by
  induction text generalizing s with
  | nil =>
      obtain ⟨rfl, -⟩ := Prod.mk.inj h
      rfl
  | cons ch text ih =>
      by_cases hd : s.state.Done
      · rw [Scan.scan_done hd] at h
        cases h
      · rw [Scan.scan_cons hd] at h
        have hstate : (s.byte ch).state = next s.state ch := by
          refine (byte_state s ch).resolve_right fun hdone => ?_
          rw [Scan.scan_done hdone.1] at h
          obtain ⟨rfl, -⟩ := Prod.mk.inj h
          exact hd' hdone.1
        rw [DFA.evalFrom_cons]
        show machine.evalFrom (next s.state ch) text = _
        rw [← hstate]
        exact ih h

theorem not_done_of_evalFrom {st : State} {ch : UInt8} {text : Bytes}
    (hd : ¬ (machine.evalFrom st (ch :: text)).Done) : ¬ st.Done ∧ ¬ (next st ch).Done := by
  rw [DFA.evalFrom_cons] at hd
  have hnext : ¬ (next st ch).Done := by
    intro hdone
    have hstay := evalFrom_done hdone text
    exact hd (hstay ▸ hdone)
  refine ⟨fun hdone => hnext ?_, hnext⟩
  rw [next_done hdone]
  exact hdone

theorem byte_state_of_not_done {s : Scan} {ch : UInt8} (hd : ¬ (next s.state ch).Done) :
    (s.byte ch).state = next s.state ch :=
  (byte_state s ch).resolve_right fun hdone => hd hdone.2

theorem scan_of_evalFrom {s : Scan} {text : Bytes}
    (hd : ¬ (machine.evalFrom s.state text).Done) :
    ∃ s', s.scan text = (s', []) ∧ s'.state = machine.evalFrom s.state text := by
  induction text generalizing s with
  | nil => exact ⟨s, rfl, rfl⟩
  | cons ch text ih =>
      obtain ⟨hs, hnext⟩ := not_done_of_evalFrom hd
      have hstate : (s.byte ch).state = machine.step s.state ch := byte_state_of_not_done hnext
      rw [DFA.evalFrom_cons, ← hstate] at hd ⊢
      rw [Scan.scan_cons hs]
      exact ih hd

/-- The blank line is taken as such in the two accepting states. -/
theorem blank_line_iff (st : State) :
    machine.evalFrom st [CR, LF, CR] = .crlfcr ↔ st ∈ machine.accept := by
  show machine.evalFrom st [CR, LF, CR] = .crlfcr ↔ st = .inVersion ∨ st = .headerValue
  cases st <;> decide

theorem headEnds_blank_line_iff (before rest : Bytes) :
    (∃ q, HttpContext.HeadEnds {} (before ++ [CR, LF, CR, LF] ++ rest) (before.length + 4) q) ↔
      before ∈ machine.accepts := by
  have hstart := HttpContext.start_not_done {}
  have haccept : before ∈ machine.accepts ↔
      machine.evalFrom .start (before ++ [CR, LF, CR]) = .crlfcr := by
    rw [DFA.evalFrom_of_append, blank_line_iff]
    rfl
  have htext : before ++ [CR, LF, CR, LF] ++ rest = before ++ [CR, LF, CR] ++ LF :: rest := by simp
  rw [haccept, htext]
  constructor
  · intro h
    obtain ⟨q, hends⟩ := h
    obtain ⟨s, rest', hscan, hs, hlen, -⟩ := (HttpContext.headEnds_iff hstart).1 hends
    have hdone := State.done_of_recognised hs
    obtain ⟨scanned, last, ch, heq, hlast, hnot, rfl⟩ := Scan.scan_last hstart hdone hscan
    have hsame : rest'.length = rest.length := by
      simp only [List.length_append, List.length_cons, List.length_nil] at hlen
      omega
    obtain ⟨rfl, -⟩ := List.append_inj' heq (by simp [hsame])
    rw [← (Scan.byte_recognised hnot hs).1]
    exact evalFrom_of_scan hlast hnot
  · intro heval
    have hnot : ¬ (machine.evalFrom (Scan.init {}).state (before ++ [CR, LF, CR])).Done := by
      show ¬ (machine.evalFrom .start (before ++ [CR, LF, CR])).Done
      rw [heval]
      decide
    obtain ⟨s, hscan, hs⟩ := scan_of_evalFrom hnot
    have hcr : s.state = .crlfcr := hs.trans heval
    have hrecognised : (s.byte LF).state = .body ∨ (s.byte LF).state = .complete := by
      unfold Scan.byte
      rw [hcr]
      dsimp only
      rw [if_pos rfl]
      split_ifs <;> simp [Scan.push, Scan.goto]
    have hdone := State.done_of_recognised hrecognised
    refine ⟨(s.byte LF).request, (HttpContext.headEnds_iff hstart).2
      ⟨s.byte LF, rest, ?_, hrecognised, ?_, rfl⟩⟩
    · rw [Scan.scan_append hscan, Scan.scan_cons (by rw [hcr]; decide), Scan.scan_done hdone]
    · simp only [List.length_append, List.length_cons, List.length_nil]
      omega

/-! ## The grammar of the parser -/

abbrev is (c : UInt8) : Language UInt8 := one fun ch => ch = c
abbrev but (c : UInt8) : Language UInt8 := one fun ch => ch ≠ c
abbrev blank : Language UInt8 := one fun ch => isblank ch = true
abbrev nonblank : Language UInt8 := one fun ch => isblank ch = false

def lineEnd : Language UInt8 := is CR * is LF

/-- A query key and its `=`, with the first byte of the value; the states in front of a key and
of a value are the only ones in a request line that refuse line ends. -/
def queryKey : Language UInt8 :=
  one Plain * (but (chr '='))∗ * is (chr '=') * one Plain

def query : Language UInt8 :=
  is (chr '?') * queryKey *
    (one (fun ch => isblank ch = false ∧ ch ≠ chr '&') + is (chr '&') * queryKey)∗

def requestLine : Language UInt8 :=
  (one fun ch => isupper ch = false)∗ * (one fun ch => isupper ch = true) * nonblank∗ * blank *
    (but (chr '/'))∗ * is (chr '/') * (one fun ch => isblank ch = false ∧ ch ≠ chr '?')∗ *
    (1 + query) * blank * (one fun ch => isalpha ch = false)∗ *
    (one fun ch => isalpha ch = true) * (but (chr '/'))∗ * is (chr '/') *
    (one fun ch => isdigit ch = true) *
    (one (fun ch => ch ≠ CR ∧ ch ≠ chr '.') +
      is (chr '.') * (one fun ch => isdigit ch = true))∗

def header : Language UInt8 :=
  (one fun ch => isblank ch = false ∧ ch ≠ CR) *
    (one fun ch => ch ≠ chr ':' ∧ isblank ch = false)∗ *
    (is (chr ':') + blank * blank∗ * is (chr ':')) * blank∗ * nonblank * (but CR)∗

/-- The texts that the parser takes for a request line and header lines. -/
def looseHead : Language UInt8 := requestLine * (lineEnd * header)∗

/-! ## Its equations, from the last state backwards -/

/-- What may follow up to a line end, in the state `st`. -/
abbrev lang (st : State) : Language UInt8 := machine.acceptsFrom st

theorem plain_iff {ch : UInt8} : Plain ch ↔ ¬ (isblank ch = true ∨ ch = CR ∨ ch = LF) := by
  rw [Plain, not_or, not_or, Bool.not_eq_true]

theorem CR_ne_dot : CR ≠ chr '.' := by decide

/-- Behind a CR that no LF follows, and behind a finished head, there is no way back. -/
theorem notMem_lang_dead {st : State} (hs : st = .crlfcr ∨ st.Done) (w : Bytes) :
    w ∉ lang st := by
  have haccept : ∀ st' ∈ {st : State | st = .crlfcr ∨ st.Done}, st' ∉ machine.accept := by
    intro st' hst'
    rcases hst' with rfl | rfl | rfl | rfl <;> simp [machine]
  have hstep : ∀ st' ∈ {st : State | st = .crlfcr ∨ st.Done}, ∀ ch,
      machine.step st' ch ∈ {st : State | st = .crlfcr ∨ st.Done} := by
    intro st' hst' ch
    show next st' ch = .crlfcr ∨ (next st' ch).Done
    rcases hst' with rfl | hd
    · unfold next Scan.byte State.Done
      dsimp only
      split_ifs <;> simp [Scan.push, Scan.goto]
    · rw [next_done hd]
      exact .inr hd
  exact notMem_acceptsFrom haccept hstep hs w

@[simp] theorem notMem_lang_crlfcr (w : Bytes) : w ∉ lang .crlfcr :=
  notMem_lang_dead (.inl rfl) w

@[simp] theorem notMem_lang_invaild (w : Bytes) : w ∉ lang .invaild :=
  notMem_lang_dead (.inr (.inr (.inr rfl))) w

theorem lang_eq {st : State} {n : Language UInt8} (hnil : st ∈ machine.accept ↔ [] ∈ n)
    (hcons : ∀ ch w, w ∈ lang (next st ch) ↔ ch :: w ∈ n) : lang st = n :=
  acceptsFrom_eq hnil hcons

theorem star_lang {st : State} {p : UInt8 → Prop} {n : Language UInt8}
    (hnil : st ∈ machine.accept ↔ [] ∈ n)
    (hcons : ∀ ch w, w ∈ lang (next st ch) ↔ p ch ∧ w ∈ lang st ∨ ch :: w ∈ n) :
    lang st = (one p)∗ * n :=
  acceptsFrom_eq_star_mul hnil hcons

theorem lang_crlf : lang .crlf =
    (one fun ch => isblank ch = false ∧ ch ≠ CR) * lang .headerKey := by
  apply lang_eq
  · simp [machine]
  · intro ch w
    unfold next Scan.byte
    dsimp only
    split_ifs <;> simp_all [Scan.push, Scan.mark, Scan.goto]

theorem lang_cr : lang .cr = is LF * lang .crlf := by
  apply lang_eq
  · simp [machine]
  · intro ch w
    unfold next Scan.byte
    dsimp only
    split_ifs <;> simp_all [Scan.push, Scan.mark, Scan.goto]

theorem lang_headerKey : lang .headerKey = (one fun ch => ch ≠ chr ':' ∧ isblank ch = false)∗ *
    (is (chr ':') * lang .headerAfterColon + blank * lang .headerBeforeColon) := by
  apply star_lang
  · simp [machine]
  · intro ch w
    unfold next Scan.byte
    dsimp only
    split_ifs <;> simp_all [Scan.push, Scan.mark, Scan.goto, isblank_marks]

theorem lang_headerBeforeColon : lang .headerBeforeColon =
    blank∗ * (is (chr ':') * lang .headerAfterColon) := by
  apply star_lang
  · simp [machine]
  · intro ch w
    unfold next Scan.byte
    dsimp only
    split_ifs <;> simp_all [Scan.push, Scan.mark, Scan.goto, ne_of_isblank, isblank_marks]

theorem lang_headerAfterColon :
    lang .headerAfterColon = blank∗ * (nonblank * lang .headerValue) := by
  apply star_lang
  · simp [machine]
  · intro ch w
    unfold next Scan.byte
    dsimp only
    split_ifs <;> simp_all [Scan.push, Scan.mark, Scan.goto]

theorem lang_headerValue : lang .headerValue = (but CR)∗ * (1 + is CR * lang .cr) := by
  apply star_lang
  · simp [machine]
  · intro ch w
    unfold next Scan.byte
    dsimp only
    split_ifs <;> simp_all [Scan.push, Scan.goto]

theorem lang_versionSplit : lang .versionSplit =
    (one fun ch => isdigit ch = true) * lang .inVersion := by
  apply lang_eq
  · simp [machine]
  · intro ch w
    unfold next Scan.byte
    dsimp only
    split_ifs <;> simp_all [Scan.push, Scan.mark, Scan.goto]

theorem lang_inVersion :
    lang .inVersion = (one fun ch => ch ≠ CR ∧ ch ≠ chr '.') * lang .inVersion +
      (is (chr '.') * lang .versionSplit + (1 + is CR * lang .cr)) := by
  apply lang_eq
  · simp [machine]
  · intro ch w
    unfold next Scan.byte
    dsimp only
    split_ifs <;> simp_all [Scan.push, Scan.mark, Scan.goto, CR_ne_dot]

theorem lang_beforeVersion : lang .beforeVersion =
    (one fun ch => isdigit ch = true) * lang .inVersion := by
  apply lang_eq
  · simp [machine]
  · intro ch w
    unfold next Scan.byte
    dsimp only
    split_ifs <;> simp_all [Scan.push, Scan.mark, Scan.goto]

theorem lang_inProtocol :
    lang .inProtocol = (but (chr '/'))∗ * (is (chr '/') * lang .beforeVersion) := by
  apply star_lang
  · simp [machine]
  · intro ch w
    unfold next Scan.byte
    dsimp only
    split_ifs <;> simp_all [Scan.push, Scan.mark, Scan.goto]

theorem lang_beforeProtocol : lang .beforeProtocol =
    (one fun ch => isalpha ch = false)∗ *
      ((one fun ch => isalpha ch = true) * lang .inProtocol) := by
  apply star_lang
  · simp [machine]
  · intro ch w
    unfold next Scan.byte
    dsimp only
    split_ifs <;> simp_all [Scan.push, Scan.mark, Scan.goto, isalpha_of_isblank]

theorem lang_inUriParamsValue : lang .inUriParamsValue =
    (one fun ch => isblank ch = false ∧ ch ≠ chr '&') * lang .inUriParamsValue +
      (is (chr '&') * lang .beforeUriParamsKey + blank * lang .beforeProtocol) := by
  apply lang_eq
  · simp [machine]
  · intro ch w
    unfold next Scan.byte
    dsimp only
    split_ifs <;> simp_all [Scan.push, Scan.mark, Scan.goto, isblank_marks]

theorem lang_beforeUriParamsValue :
    lang .beforeUriParamsValue = one Plain * lang .inUriParamsValue := by
  apply lang_eq
  · simp [machine]
  · intro ch w
    rw [cons_mem_one_mul, plain_iff]
    unfold next Scan.byte
    dsimp only
    split_ifs with h <;> simp [h, Scan.push, Scan.mark, Scan.goto]

theorem lang_inUriParamsKey : lang .inUriParamsKey =
    (but (chr '='))∗ * (is (chr '=') * lang .beforeUriParamsValue) := by
  apply star_lang
  · simp [machine]
  · intro ch w
    unfold next Scan.byte
    dsimp only
    split_ifs <;> simp_all [Scan.push, Scan.goto]

theorem lang_beforeUriParamsKey : lang .beforeUriParamsKey = one Plain * lang .inUriParamsKey := by
  apply lang_eq
  · simp [machine]
  · intro ch w
    rw [cons_mem_one_mul, plain_iff]
    unfold next Scan.byte
    dsimp only
    split_ifs with h <;> simp [h, Scan.push, Scan.mark, Scan.goto]

theorem lang_inUri : lang .inUri = (one fun ch => isblank ch = false ∧ ch ≠ chr '?')∗ *
    (blank * lang .beforeProtocol + is (chr '?') * lang .beforeUriParamsKey) := by
  apply star_lang
  · simp [machine]
  · intro ch w
    unfold next Scan.byte
    dsimp only
    split_ifs <;> simp_all [Scan.push, Scan.mark, Scan.goto, ne_of_isblank, isblank_marks]

theorem lang_beforeUri : lang .beforeUri = (but (chr '/'))∗ * (is (chr '/') * lang .inUri) := by
  apply star_lang
  · simp [machine]
  · intro ch w
    unfold next Scan.byte
    dsimp only
    split_ifs <;> simp_all [Scan.push, Scan.mark, Scan.goto, ne_of_isblank, isblank_marks]

theorem lang_method : lang .method = nonblank∗ * (blank * lang .beforeUri) := by
  apply star_lang
  · simp [machine]
  · intro ch w
    unfold next Scan.byte
    dsimp only
    split_ifs <;> simp_all [Scan.push, Scan.mark, Scan.goto]

theorem lang_start : lang .start = (one fun ch => isupper ch = false)∗ *
    ((one fun ch => isupper ch = true) * lang .method) := by
  apply star_lang
  · simp [machine]
  · intro ch w
    unfold next Scan.byte
    dsimp only
    split_ifs <;> simp_all [Scan.push, Scan.goto]

/-! ## Their solution -/

theorem lang_lineEnd : 1 + is CR * lang .cr = (lineEnd * header)∗ := by
  have hnil : [] ∉ lineEnd * header := by
    rw [lineEnd, mul_assoc]
    exact nil_notMem_one_mul
  have hround : 1 + is CR * lang .cr = lineEnd * header * (1 + is CR * lang .cr) + 1 := by
    conv_lhs =>
      rw [lang_cr, lang_crlf, lang_headerKey, lang_headerBeforeColon, lang_headerAfterColon,
        lang_headerValue, add_comm]
    simp only [lineEnd, header, add_mul, mul_assoc]
  have hstar := eq_star_mul hnil hround
  rwa [mul_one] at hstar

theorem lang_version : lang .inVersion = (one (fun ch => ch ≠ CR ∧ ch ≠ chr '.') +
    is (chr '.') * (one fun ch => isdigit ch = true))∗ * (lineEnd * header)∗ := by
  apply eq_star_mul (nil_notMem_add nil_notMem_one nil_notMem_one_mul)
  rw [← lang_lineEnd, add_mul, mul_assoc, ← lang_versionSplit, add_assoc]
  exact lang_inVersion

theorem lang_queryKey : lang .beforeUriParamsKey = queryKey * lang .inUriParamsValue := by
  rw [lang_beforeUriParamsKey, lang_inUriParamsKey, lang_beforeUriParamsValue, queryKey]
  simp only [mul_assoc]

theorem lang_queryValue : lang .inUriParamsValue =
    (one (fun ch => isblank ch = false ∧ ch ≠ chr '&') + is (chr '&') * queryKey)∗ *
      (blank * lang .beforeProtocol) := by
  apply eq_star_mul (nil_notMem_add nil_notMem_one nil_notMem_one_mul)
  rw [add_mul, mul_assoc, ← lang_queryKey, add_assoc]
  exact lang_inUriParamsValue

theorem lang_uri : lang .inUri = (one fun ch => isblank ch = false ∧ ch ≠ chr '?')∗ *
    ((1 + query) * (blank * lang .beforeProtocol)) := by
  rw [lang_inUri, lang_queryKey, lang_queryValue, query]
  simp only [add_mul, one_mul, mul_assoc]

theorem accepts_eq : machine.accepts = looseHead := by
  show lang .start = looseHead
  rw [lang_start, lang_method, lang_beforeUri, lang_uri, lang_beforeProtocol, lang_inProtocol,
    lang_beforeVersion, lang_version]
  simp only [looseHead, requestLine, mul_assoc]

/-! ## The first blank line -/

/-- The head of the call is the text up to and with its first blank line. -/
def EndsAtBlankLine (text : Bytes) : Prop :=
  ∃ before rest q, cut [CR, LF, CR, LF] text = some (before, rest) ∧
    HttpContext.HeadEnds {} text (before.length + 4) q

/-- **Head framing.** The head ends at the first blank line exactly when what is in front of that
line is a request line and header lines to the parser. -/
theorem endsAtBlankLine_iff (text : Bytes) :
    EndsAtBlankLine text ↔
      ∃ before rest, cut [CR, LF, CR, LF] text = some (before, rest) ∧ before ∈ looseHead := by
  have hcut {before rest : Bytes} (h : cut [CR, LF, CR, LF] text = some (before, rest)) :
      (∃ q, HttpContext.HeadEnds {} text (before.length + 4) q) ↔ before ∈ looseHead := by
    rw [eq_append_of_cut h, ← accepts_eq]
    exact headEnds_blank_line_iff before rest
  constructor
  · intro h
    obtain ⟨before, rest, q, htext, hends⟩ := h
    exact ⟨before, rest, htext, (hcut htext).1 ⟨q, hends⟩⟩
  · intro h
    obtain ⟨before, rest, htext, hmem⟩ := h
    obtain ⟨q, hends⟩ := (hcut htext).2 hmem
    exact ⟨before, rest, q, htext, hends⟩

def splitUrl : Bytes := ascii "GET /\r\n\r\n HTTP/1.1\r\n\r\n"

/-- A request completes although its first blank line is not the one behind its head. -/
theorem not_endsAtBlankLine_splitUrl :
    (∃ ctx', HttpContext.Returns {} splitUrl ctx' true ∧ ctx'.isComplete = true) ∧
      ¬ EndsAtBlankLine splitUrl := by
  constructor
  · refine ⟨⟨.complete, ((Scan.init {}).scan splitUrl).1.request⟩, ?_, rfl⟩
    rw [HttpContext.returns_iff_outcome]
    exact ⟨by decide, by decide⟩
  · intro h
    obtain ⟨before, rest, q, htext, hends⟩ := h
    have hfirst : cut [CR, LF, CR, LF] splitUrl =
        some (ascii "GET /", ascii " HTTP/1.1\r\n\r\n") := by decide
    obtain ⟨rfl, rfl⟩ := Prod.mk.inj (Option.some.inj (htext.symm.trans hfirst))
    obtain ⟨s, rest, hscan, -, hlen, -⟩ :=
      (HttpContext.headEnds_iff (HttpContext.start_not_done {})).1 hends
    have hnil : ((Scan.init {}).scan splitUrl).2 = [] := by decide
    have hrest : rest = [] := by
      rw [hscan] at hnil
      exact hnil
    rw [hrest] at hlen
    revert hlen
    decide

end BlankLine

end CPlusServer

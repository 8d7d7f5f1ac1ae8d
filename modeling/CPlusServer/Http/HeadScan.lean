import CPlusServer.Http.Loose
import CPlusServer.Http.Scan

/-!
# Scanning a head

For each token a lemma that the scanner, in the state that expects it, consumes
its text and stores it, and a converse: what the scanner reads from that state on
begins with such a text. The first kind leaves the text that follows open, so
both compose in the order of the grammar.
-/

namespace CPlusServer

namespace Scan

/-! ## One byte -/

section
variable (q : HttpRequest) (t key vers : Bytes) {ch : UInt8}

theorem byte_start (h : isupper ch = true) :
    (mk .start q t key vers).byte ch = mk .method q (t ++ [ch]) key vers := by
  simp [byte, h, goto, push]

theorem byte_method (h : isblank ch = true) :
    (mk .method q t key vers).byte ch = mk .beforeUri (q.setMethod t) [ch] key vers := by
  simp [byte, h, goto, mark]

theorem byte_beforeUri :
    (mk .beforeUri q t key vers).byte (chr '/') = mk .inUri q [chr '/'] key vers := by
  simp [byte, isblank_marks, goto, mark]

theorem byte_inUri_blank (h : isblank ch = true) :
    (mk .inUri q t key vers).byte ch = mk .beforeProtocol (q.setURL t) [ch] key vers := by
  simp [byte, h, goto, mark]

theorem byte_inUri_query :
    (mk .inUri q t key vers).byte (chr '?') =
      mk .beforeUriParamsKey (q.setURL t) [chr '?'] key vers := by
  simp [byte, isblank_marks, goto, mark]

theorem byte_beforeKey (h : Plain ch) :
    (mk .beforeUriParamsKey q t key vers).byte ch = mk .inUriParamsKey q [ch] key vers := by
  simp [byte, h.1, h.2.1, h.2.2, goto, mark]

theorem byte_inKey :
    (mk .inUriParamsKey q t key vers).byte (chr '=') =
      mk .beforeUriParamsValue (q.setParams t []) (t ++ [chr '=']) t vers := by
  simp [byte, goto, push]

theorem byte_beforeValue (h : Plain ch) :
    (mk .beforeUriParamsValue q t key vers).byte ch = mk .inUriParamsValue q [ch] key vers := by
  simp [byte, h.1, h.2.1, h.2.2, goto, mark]

theorem byte_inValue_amp :
    (mk .inUriParamsValue q t key vers).byte (chr '&') =
      mk .beforeUriParamsKey (q.setParams key t) [chr '&'] key vers := by
  simp [byte, goto, mark]

theorem byte_inValue_blank (h : isblank ch = true) :
    (mk .inUriParamsValue q t key vers).byte ch =
      mk .beforeProtocol (q.setParams key t) [ch] key vers := by
  simp [byte, h, ne_of_isblank h isblank_marks.2.2.1, goto, mark]

theorem byte_beforeProtocol (h : isalpha ch = true) :
    (mk .beforeProtocol q t key vers).byte ch = mk .inProtocol q [ch] key vers := by
  have hblank : isblank ch = false := by
    by_contra hb
    rw [isalpha_of_isblank (Bool.eq_true_of_not_eq_false hb)] at h
    cases h
  simp [byte, h, hblank, goto, mark]

theorem byte_inProtocol :
    (mk .inProtocol q t key vers).byte (chr '/') =
      mk .beforeVersion (q.setProtocol t) [chr '/'] key vers := by
  simp [byte, goto, mark]

theorem byte_beforeVersion (h : isdigit ch = true) :
    (mk .beforeVersion q t key vers).byte ch = mk .inVersion q [ch] key vers := by
  simp [byte, h, goto, mark]

theorem byte_inVersion_point :
    (mk .inVersion q t key vers).byte (chr '.') =
      mk .versionSplit q [chr '.'] key (vers ++ t) := by
  simp [byte, show chr '.' ≠ CR from by decide, goto, mark]

theorem byte_versionSplit (h : isdigit ch = true) :
    (mk .versionSplit q t key vers).byte ch = mk .inVersion q [ch] key (vers ++ [chr '.']) := by
  simp [byte, h, goto, mark]

theorem byte_inVersion_cr :
    (mk .inVersion q t key vers).byte CR =
      mk .cr (q.setVersion (vers ++ t)) (t ++ [CR]) key (vers ++ t) := by
  simp [byte, goto, push]

theorem byte_cr : (mk .cr q t key vers).byte LF = mk .crlf q [LF] key vers := by
  simp [byte, goto, mark]

theorem byte_crlf (h : isblank ch = false) (hc : ch ≠ CR) :
    (mk .crlf q t key vers).byte ch = mk .headerKey q [ch] key vers := by
  simp [byte, h, hc, goto, mark]

theorem byte_crlf_cr : (mk .crlf q t key vers).byte CR = mk .crlfcr q (t ++ [CR]) key vers := by
  simp [byte, isblank_CR, goto, push]

theorem byte_headerKey_colon :
    (mk .headerKey q t key vers).byte (chr ':') =
      mk .headerAfterColon (q.setHeader t []) [chr ':'] t vers := by
  simp [byte, goto, mark]

theorem byte_headerKey_blank (h : isblank ch = true) :
    (mk .headerKey q t key vers).byte ch =
      mk .headerBeforeColon (q.setHeader t []) [ch] t vers := by
  simp [byte, h, ne_of_isblank h isblank_marks.2.2.2, goto, mark]

theorem byte_beforeColon :
    (mk .headerBeforeColon q t key vers).byte (chr ':') =
      mk .headerAfterColon q [chr ':'] key vers := by
  simp [byte, isblank_marks, goto, mark]

theorem byte_afterColon (h : isblank ch = false) :
    (mk .headerAfterColon q t key vers).byte ch = mk .headerValue q [ch] key vers := by
  simp [byte, h, goto, mark]

theorem byte_headerValue :
    (mk .headerValue q t key vers).byte CR =
      mk .cr (q.setHeader key t) (t ++ [CR]) key vers := by
  simp [byte, goto, push]

/-- How the blank line leaves the head. -/
theorem byte_crlfcr : (mk .crlfcr q t key vers).byte LF =
    if q.countHeader (ascii "Content-Length") ∧ q.contentLength ≤ 0 then
      mk .complete q (t ++ [LF]) key vers
    else mk .body q [] key vers := by
  simp only [byte, if_true, goto, push]

end

/-! ## Runs of bytes that stay in one token -/

/-- In state `st` the byte only goes on with the token. -/
def Pushes (st : State) (ch : UInt8) : Prop :=
  ∀ s : Scan, s.state = st → s.byte ch = s.push ch

theorem pushes_start {ch : UInt8} (h : isupper ch = false) : Pushes .start ch := by
  intro s hs
  simp [byte, hs, h]

theorem pushes_method {ch : UInt8} (h : isblank ch = false) : Pushes .method ch := by
  intro s hs
  simp [byte, hs, h]

theorem pushes_beforeUri {ch : UInt8} (h : ch ≠ chr '/') : Pushes .beforeUri ch := by
  intro s hs
  simp [byte, hs, h]

theorem pushes_inUri {ch : UInt8} (h : isblank ch = false ∧ ch ≠ chr '?') :
    Pushes .inUri ch := by
  intro s hs
  simp [byte, hs, h]

theorem pushes_inKey {ch : UInt8} (h : ch ≠ chr '=') : Pushes .inUriParamsKey ch := by
  intro s hs
  simp [byte, hs, h]

theorem pushes_inValue {ch : UInt8} (h : isblank ch = false ∧ ch ≠ chr '&') :
    Pushes .inUriParamsValue ch := by
  intro s hs
  simp [byte, hs, h]

theorem pushes_beforeProtocol {ch : UInt8} (h : isalpha ch = false) :
    Pushes .beforeProtocol ch := by
  intro s hs
  simp [byte, hs, h]

theorem pushes_inProtocol {ch : UInt8} (h : ch ≠ chr '/') : Pushes .inProtocol ch := by
  intro s hs
  simp [byte, hs, h]

theorem pushes_inVersion {ch : UInt8} (h : ch ≠ CR ∧ ch ≠ chr '.') : Pushes .inVersion ch := by
  intro s hs
  simp [byte, hs, h]

theorem pushes_headerKey {ch : UInt8} (h : isblank ch = false ∧ ch ≠ chr ':') :
    Pushes .headerKey ch := by
  intro s hs
  simp [byte, hs, h]

theorem pushes_beforeColon {ch : UInt8} (h : isblank ch = true) :
    Pushes .headerBeforeColon ch := by
  intro s hs
  simp [byte, hs, h]

theorem pushes_afterColon {ch : UInt8} (h : isblank ch = true) :
    Pushes .headerAfterColon ch := by
  intro s hs
  simp [byte, hs, h]

theorem pushes_headerValue {ch : UInt8} (h : ch ≠ CR) : Pushes .headerValue ch := by
  intro s hs
  simp [byte, hs, h]

theorem pushes_crlfcr {ch : UInt8} (h : ch ≠ LF) : Pushes .crlfcr ch := by
  intro s hs
  simp [byte, hs, h]

/-! ## Tokens, in both directions -/

/-- The scanner goes on to the end of the head, with `rest` behind it. -/
def Reads (s : Scan) (text : Bytes) (s' : Scan) (rest : Bytes) : Prop :=
  s.scan text = (s', rest) ∧ (s'.state = .body ∨ s'.state = .complete)

section
variable {q : HttpRequest} {t key vers : Bytes} {st : State} {text rest' : Bytes} {s' : Scan}

theorem scan_mk_cons (hd : ¬ st.Done) (ch : UInt8) (rest : Bytes) :
    (mk st q t key vers).scan (ch :: rest) = ((mk st q t key vers).byte ch).scan rest :=
  scan_cons hd ch rest

theorem scan_mk_pushes (hd : ¬ st.Done) {u : Bytes} (hp : ∀ ch ∈ u, Pushes st ch) (rest : Bytes) :
    (mk st q t key vers).scan (u ++ rest) = (mk st q (t ++ u) key vers).scan rest := by
  induction u generalizing t with
  | nil => rw [List.nil_append, List.append_nil]
  | cons ch u ih =>
      have hpush : (mk st q t key vers).byte ch = mk st q (t ++ [ch]) key vers :=
        hp ch List.mem_cons_self _ rfl
      rw [List.cons_append, scan_mk_cons hd, hpush, ih fun c hc => hp c (List.mem_cons_of_mem _ hc),
        List.append_assoc, List.singleton_append]

theorem scan_token (hd : ¬ st.Done) {u : Bytes} (hp : ∀ ch ∈ u, Pushes st ch) (ch : UInt8)
    (rest : Bytes) :
    (mk st q t key vers).scan (u ++ ch :: rest) =
      ((mk st q (t ++ u) key vers).byte ch).scan rest := by
  rw [scan_mk_pushes hd hp, scan_mk_cons hd]

theorem Reads.cons (h : Reads (mk st q t key vers) text s' rest') (hd : ¬ st.Done) :
    ∃ ch rest, text = ch :: rest ∧ Reads ((mk st q t key vers).byte ch) rest s' rest' := by
  cases text with
  | nil =>
      obtain ⟨hscan, hs⟩ := h
      obtain ⟨rfl, -⟩ := Prod.mk.inj hscan
      exact absurd (State.done_of_recognised hs) hd
  | cons ch rest =>
      refine ⟨ch, rest, rfl, ?_, h.2⟩
      rw [← scan_mk_cons hd]
      exact h.1

theorem Reads.token (h : Reads (mk st q t key vers) text s' rest') (hd : ¬ st.Done)
    {p : UInt8 → Prop} [DecidablePred p] (hp : ∀ ch, p ch → Pushes st ch) :
    ∃ u ch rest, text = u ++ ch :: rest ∧ (∀ c ∈ u, p c) ∧ ¬ p ch ∧
      Reads ((mk st q (t ++ u) key vers).byte ch) rest s' rest' := by
  induction text generalizing t with
  | nil =>
      obtain ⟨ch, rest, heq, -⟩ := h.cons hd
      cases heq
  | cons c text ih =>
      obtain ⟨ch, rest, heq, hrest⟩ := h.cons hd
      obtain ⟨rfl, rfl⟩ := List.cons.inj heq
      by_cases hc : p c
      · have hpush : (mk st q t key vers).byte c = mk st q (t ++ [c]) key vers := hp c hc _ rfl
        rw [hpush] at hrest
        obtain ⟨u, ch, rest, rfl, hu, hch, hnext⟩ := ih hrest
        refine ⟨c :: u, ch, rest, rfl, List.forall_mem_cons.2 ⟨hc, hu⟩, hch, ?_⟩
        rw [List.append_assoc, List.singleton_append] at hnext
        exact hnext
      · refine ⟨[], c, text, rfl, List.forall_mem_nil _, hc, ?_⟩
        rw [List.append_nil]
        exact hrest

theorem not_reads_invaild {s : Scan} (hs : s.state = .invaild) : ¬ Reads s text s' rest' := by
  intro h
  have hdone : s.state.Done := .inr (.inr hs)
  have hscan := h.1
  rw [scan_done hdone] at hscan
  obtain ⟨rfl, -⟩ := Prod.mk.inj hscan
  rcases h.2 with h | h <;> rw [hs] at h <;> cases h

end

/-! ## The request line -/

variable {q : HttpRequest} {t key vers : Bytes} {text rest' : Bytes} {s' : Scan}

theorem scan_method {junk m : Bytes} (hjunk : ∀ ch ∈ junk, isupper ch = false)
    (hhead : ∃ ch ∈ m.head?, isupper ch = true) (hm : ∀ ch ∈ m.tail, isblank ch = false)
    {b : UInt8} (hb : isblank b = true) (rest : Bytes) :
    (mk .start q [] key vers).scan (junk ++ (m ++ b :: rest)) =
      (mk .beforeUri (q.setMethod (junk ++ m)) [b] key vers).scan rest := by
  obtain ⟨c, hc, hup⟩ := hhead
  cases m with
  | nil => cases hc
  | cons c' m =>
      obtain rfl := Option.some.inj hc
      have hjunks : ∀ ch ∈ junk, Pushes .start ch := fun ch hch => pushes_start (hjunk ch hch)
      have hword : ∀ ch ∈ m, Pushes .method ch := fun ch hch => pushes_method (hm ch hch)
      rw [List.cons_append, scan_token (by decide) hjunks, byte_start _ _ _ _ hup,
        scan_token (by decide) hword, byte_method _ _ _ _ hb]
      simp

theorem Reads.method (h : Reads (mk .start q [] key vers) text s' rest') :
    ∃ junk m b rest, text = junk ++ (m ++ b :: rest) ∧ (∀ ch ∈ junk, isupper ch = false) ∧
      (∃ ch ∈ m.head?, isupper ch = true) ∧ (∀ ch ∈ m.tail, isblank ch = false) ∧
      isblank b = true ∧ Reads (mk .beforeUri (q.setMethod (junk ++ m)) [b] key vers) rest s' rest' := by
  obtain ⟨junk, c, text, rfl, hjunk, hc, h₁⟩ := h.token (by decide) fun ch => pushes_start
  have hup := Bool.eq_true_of_not_eq_false hc
  rw [byte_start _ _ _ _ hup] at h₁
  obtain ⟨m, b, rest, rfl, hm, hb, h₂⟩ := h₁.token (by decide) fun ch => pushes_method
  have hblank := Bool.eq_true_of_not_eq_false hb
  rw [byte_method _ _ _ _ hblank] at h₂
  refine ⟨junk, c :: m, b, rest, rfl, hjunk, ⟨c, rfl, hup⟩, hm, hblank, ?_⟩
  simpa using h₂

theorem scan_uri {gap path : Bytes} (hgap : ∀ ch ∈ gap, ch ≠ chr '/')
    (hhead : path.head? = some (chr '/'))
    (hpath : ∀ ch ∈ path.tail, isblank ch = false ∧ ch ≠ chr '?') (rest : Bytes) :
    (mk .beforeUri q t key vers).scan (gap ++ (path ++ rest)) =
      (mk .inUri q path key vers).scan rest := by
  cases path with
  | nil => cases hhead
  | cons c path =>
      obtain rfl := Option.some.inj hhead
      have hgaps : ∀ ch ∈ gap, Pushes .beforeUri ch := fun ch hch => pushes_beforeUri (hgap ch hch)
      have hrest : ∀ ch ∈ path, Pushes .inUri ch := fun ch hch => pushes_inUri (hpath ch hch)
      rw [List.cons_append, scan_token (by decide) hgaps, byte_beforeUri,
        scan_mk_pushes (by decide) hrest]
      rfl

theorem Reads.uri (h : Reads (mk .beforeUri q t key vers) text s' rest') :
    ∃ gap path ch rest, text = gap ++ (path ++ ch :: rest) ∧ (∀ ch ∈ gap, ch ≠ chr '/') ∧
      path.head? = some (chr '/') ∧ (∀ ch ∈ path.tail, isblank ch = false ∧ ch ≠ chr '?') ∧
      (isblank ch = true ∨ ch = chr '?') ∧
      Reads ((mk .inUri q path key vers).byte ch) rest s' rest' := by
  obtain ⟨gap, c, text, rfl, hgap, hc, h₁⟩ := h.token (by decide) fun ch => pushes_beforeUri
  obtain rfl := not_not.1 hc
  rw [byte_beforeUri] at h₁
  obtain ⟨path, ch, rest, rfl, hpath, hch, h₂⟩ := h₁.token (by decide) fun ch => pushes_inUri
  refine ⟨gap, chr '/' :: path, ch, rest, rfl, hgap, rfl, hpath, ?_, h₂⟩
  by_cases hb : isblank ch = true
  · exact .inl hb
  · exact .inr (not_not.1 fun hq => hch ⟨Bool.eq_false_of_not_eq_true hb, hq⟩)

theorem scan_key {k : Bytes} (hhead : ∃ ch ∈ k.head?, Plain ch)
    (hok : ∀ ch ∈ k.tail, ch ≠ chr '=') (rest : Bytes) :
    (mk .beforeUriParamsKey q t key vers).scan (k ++ chr '=' :: rest) =
      (mk .beforeUriParamsValue (q.setParams k []) (k ++ [chr '=']) k vers).scan rest := by
  obtain ⟨c, hc, hplain⟩ := hhead
  cases k with
  | nil => cases hc
  | cons c' k =>
      obtain rfl := Option.some.inj hc
      have hkeys : ∀ ch ∈ k, Pushes .inUriParamsKey ch := fun ch hch => pushes_inKey (hok ch hch)
      rw [List.cons_append, scan_mk_cons (by decide), byte_beforeKey _ _ _ _ hplain,
        scan_token (by decide) hkeys, byte_inKey]
      rfl

theorem scan_param (p : LooseParam) (rest : Bytes) :
    (mk .beforeUriParamsKey q t key vers).scan (p.key ++ chr '=' :: (p.value ++ rest)) =
      (mk .inUriParamsValue (q.setParams p.key []) p.value p.key vers).scan rest := by
  rw [scan_key p.key_head p.key_ok]
  obtain ⟨d, hd, hplain⟩ := p.value_head
  have hok := p.value_ok
  cases hv : p.value with
  | nil =>
      rw [hv] at hd
      cases hd
  | cons d' v =>
      rw [hv] at hd hok
      obtain rfl := Option.some.inj hd
      have hvalues : ∀ ch ∈ v, Pushes .inUriParamsValue ch :=
        fun ch hch => pushes_inValue (hok ch hch)
      rw [List.cons_append, scan_mk_cons (by decide), byte_beforeValue _ _ _ _ hplain,
        scan_mk_pushes (by decide) hvalues]
      rfl

theorem plain_of_not_refused {ch : UInt8} (h : ¬ (isblank ch = true ∨ ch = CR ∨ ch = LF)) :
    Plain ch := by
  rw [not_or, not_or] at h
  exact ⟨Bool.eq_false_of_not_eq_true h.1, h.2⟩

theorem Reads.plain_key (h : Reads (mk .beforeUriParamsKey q t key vers) text s' rest') :
    ∃ ch rest, text = ch :: rest ∧ Plain ch ∧
      Reads (mk .inUriParamsKey q [ch] key vers) rest s' rest' := by
  obtain ⟨ch, rest, rfl, h₁⟩ := h.cons (by decide)
  have hplain : Plain ch := by
    refine plain_of_not_refused fun hrefused => not_reads_invaild ?_ h₁
    simp [byte, hrefused, goto, push]
  rw [byte_beforeKey _ _ _ _ hplain] at h₁
  exact ⟨ch, rest, rfl, hplain, h₁⟩

theorem Reads.plain_value (h : Reads (mk .beforeUriParamsValue q t key vers) text s' rest') :
    ∃ ch rest, text = ch :: rest ∧ Plain ch ∧
      Reads (mk .inUriParamsValue q [ch] key vers) rest s' rest' := by
  obtain ⟨ch, rest, rfl, h₁⟩ := h.cons (by decide)
  have hplain : Plain ch := by
    refine plain_of_not_refused fun hrefused => not_reads_invaild ?_ h₁
    simp [byte, hrefused, goto, push]
  rw [byte_beforeValue _ _ _ _ hplain] at h₁
  exact ⟨ch, rest, rfl, hplain, h₁⟩

/-- One pair of a query, up to the byte that ends its value. -/
theorem Reads.param (h : Reads (mk .beforeUriParamsKey q t key vers) text s' rest') :
    ∃ p : LooseParam, ∃ ch rest, text = p.key ++ chr '=' :: (p.value ++ ch :: rest) ∧
      (ch = chr '&' ∨ isblank ch = true) ∧
      Reads ((mk .inUriParamsValue (q.setParams p.key []) p.value p.key vers).byte ch) rest s'
        rest' := by
  obtain ⟨c, text, rfl, hc, h₁⟩ := h.plain_key
  obtain ⟨k, e, text, rfl, hk, he, h₂⟩ := h₁.token (by decide) fun ch => pushes_inKey
  obtain rfl := not_not.1 he
  rw [byte_inKey] at h₂
  obtain ⟨d, text, rfl, hd, h₃⟩ := h₂.plain_value
  obtain ⟨v, ch, rest, rfl, hv, hch, h₄⟩ := h₃.token (by decide) fun ch => pushes_inValue
  refine ⟨⟨c :: k, d :: v, ⟨c, rfl, hc⟩, hk, ⟨d, rfl, hd⟩, hv⟩, ch, rest, rfl, ?_, h₄⟩
  by_cases hb : isblank ch = true
  · exact .inr hb
  · exact .inl (not_not.1 fun ha => hch ⟨Bool.eq_false_of_not_eq_true hb, ha⟩)

theorem setParams_twice (p : LooseParam) :
    (q.setParams p.key []).setParams p.key p.value = q.setParams p.key p.value :=
  HttpRequest.setParams_setParams q p.key [] p.value

theorem scan_param_amp (p : LooseParam) (rest : Bytes) :
    (mk .beforeUriParamsKey q t key vers).scan
        (p.key ++ chr '=' :: p.value ++ chr '&' :: rest) =
      (mk .beforeUriParamsKey (q.setParams p.key p.value) [chr '&'] p.key vers).scan rest := by
  rw [List.append_assoc, List.cons_append, scan_param, scan_mk_cons (by decide), byte_inValue_amp,
    setParams_twice]

/-- A query is left by a blank, with its pairs assigned in order. -/
theorem scan_params {ps : List LooseParam} (hne : ps ≠ []) {b : UInt8} (hb : isblank b = true)
    (rest : Bytes) :
    ∃ key', (mk .beforeUriParamsKey q t key vers).scan
        (printPairs (ps.map LooseParam.pair) ++ b :: rest) =
      (mk .beforeProtocol { q with params := Lib.insertAll q.params (ps.map LooseParam.pair) } [b]
        key' vers).scan rest := by
  induction ps generalizing q t key with
  | nil => exact absurd rfl hne
  | cons p ps ih =>
      cases ps with
      | nil =>
          refine ⟨p.key, ?_⟩
          show (mk _ q t key vers).scan ((p.key ++ chr '=' :: p.value) ++ b :: rest) = _
          rw [List.append_assoc, List.cons_append, scan_param, scan_mk_cons (by decide),
            byte_inValue_blank _ _ _ _ hb, setParams_twice]
          rfl
      | cons p' ps =>
          obtain ⟨key', hscan⟩ := @ih (q.setParams p.key p.value) [chr '&'] p.key (by simp)
          refine ⟨key', ?_⟩
          show (mk _ q t key vers).scan ((p.key ++ chr '=' :: p.value ++
            chr '&' :: printPairs ((p' :: ps).map LooseParam.pair)) ++ b :: rest) = _
          rw [List.append_assoc (p.key ++ _), List.cons_append, scan_param_amp, hscan]
          rfl

theorem Reads.params (h : Reads (mk .beforeUriParamsKey q t key vers) text s' rest') :
    ∃ ps : List LooseParam, ps ≠ [] ∧ ∃ b rest key',
      text = printPairs (ps.map LooseParam.pair) ++ b :: rest ∧ isblank b = true ∧
      Reads (mk .beforeProtocol
        { q with params := Lib.insertAll q.params (ps.map LooseParam.pair) } [b] key' vers) rest s'
        rest' := by
  induction hlen : text.length using Nat.strongRecOn generalizing text q t key with
  | ind n ih =>
      obtain ⟨p, ch, rest, rfl, hch, h₁⟩ := h.param
      rcases hch with rfl | hb
      · rw [byte_inValue_amp, setParams_twice] at h₁
        have hlt : rest.length < n := by
          simp only [List.length_append, List.length_cons] at hlen
          omega
        obtain ⟨ps, hne, b, rest, key', rfl, hb, h₂⟩ := ih _ hlt h₁ rfl
        obtain ⟨p', ps, rfl⟩ := List.exists_cons_of_ne_nil hne
        refine ⟨p :: p' :: ps, by simp, b, rest, key', ?_, hb, h₂⟩
        simp [printPairs, LooseParam.pair]
      · rw [byte_inValue_blank _ _ _ _ hb, setParams_twice] at h₁
        refine ⟨[p], by simp, ch, rest, p.key, ?_, hb, h₁⟩
        simp [printPairs, LooseParam.pair]

/-- The path with its query, up to the blank that ends it. -/
theorem scan_query (path : Bytes) (ps : List LooseParam) {b : UInt8} (hb : isblank b = true)
    (rest : Bytes) :
    ∃ key', (mk .inUri q path key vers).scan
        (printQueryPairs (ps.map LooseParam.pair) ++ b :: rest) =
      (mk .beforeProtocol { q.setURL path with
        params := Lib.insertAll q.params (ps.map LooseParam.pair) } [b] key' vers).scan rest := by
  cases ps with
  | nil =>
      refine ⟨key, ?_⟩
      show (mk .inUri q path key vers).scan (b :: rest) = _
      rw [scan_mk_cons (by decide), byte_inUri_blank _ _ _ _ hb]
      rfl
  | cons p ps =>
      obtain ⟨key', hscan⟩ := @scan_params (q.setURL path) [chr '?'] key vers (p :: ps)
        (List.cons_ne_nil p ps) b hb rest
      refine ⟨key', ?_⟩
      show (mk .inUri q path key vers).scan
        (chr '?' :: (printPairs ((p :: ps).map LooseParam.pair) ++ b :: rest)) = _
      rw [scan_mk_cons (by decide), byte_inUri_query, hscan]
      rfl

theorem Reads.query {path : Bytes} {ch : UInt8} (hch : isblank ch = true ∨ ch = chr '?')
    (h : Reads ((mk .inUri q path key vers).byte ch) text s' rest') :
    ∃ ps : List LooseParam, ∃ b rest key',
      ch :: text = printQueryPairs (ps.map LooseParam.pair) ++ b :: rest ∧ isblank b = true ∧
      Reads (mk .beforeProtocol { q.setURL path with
        params := Lib.insertAll q.params (ps.map LooseParam.pair) } [b] key' vers) rest s' rest' := by
  rcases hch with hb | rfl
  · rw [byte_inUri_blank _ _ _ _ hb] at h
    exact ⟨[], ch, text, key, rfl, hb, h⟩
  · rw [byte_inUri_query] at h
    obtain ⟨ps, hne, b, rest, key', rfl, hb, h₁⟩ := h.params
    obtain ⟨p, ps, rfl⟩ := List.exists_cons_of_ne_nil hne
    exact ⟨p :: ps, b, rest, key', rfl, hb, h₁⟩

theorem scan_protocol {skip protocol : Bytes} (hskip : ∀ ch ∈ skip, isalpha ch = false)
    (hhead : ∃ ch ∈ protocol.head?, isalpha ch = true)
    (hok : ∀ ch ∈ protocol.tail, ch ≠ chr '/') (rest : Bytes) :
    (mk .beforeProtocol q t key vers).scan (skip ++ (protocol ++ chr '/' :: rest)) =
      (mk .beforeVersion (q.setProtocol protocol) [chr '/'] key vers).scan rest := by
  obtain ⟨c, hc, halpha⟩ := hhead
  cases protocol with
  | nil => cases hc
  | cons c' protocol =>
      obtain rfl := Option.some.inj hc
      have hskips : ∀ ch ∈ skip, Pushes .beforeProtocol ch :=
        fun ch hch => pushes_beforeProtocol (hskip ch hch)
      have hrest : ∀ ch ∈ protocol, Pushes .inProtocol ch :=
        fun ch hch => pushes_inProtocol (hok ch hch)
      rw [List.cons_append, scan_token (by decide) hskips, byte_beforeProtocol _ _ _ _ halpha,
        scan_token (by decide) hrest, byte_inProtocol]
      rfl

theorem Reads.protocol (h : Reads (mk .beforeProtocol q t key vers) text s' rest') :
    ∃ skip protocol rest, text = skip ++ (protocol ++ chr '/' :: rest) ∧
      (∀ ch ∈ skip, isalpha ch = false) ∧ (∃ ch ∈ protocol.head?, isalpha ch = true) ∧
      (∀ ch ∈ protocol.tail, ch ≠ chr '/') ∧
      Reads (mk .beforeVersion (q.setProtocol protocol) [chr '/'] key vers) rest s' rest' := by
  obtain ⟨skip, c, text, rfl, hskip, hc, h₁⟩ := h.token (by decide) fun ch => pushes_beforeProtocol
  have halpha := Bool.eq_true_of_not_eq_false hc
  rw [byte_beforeProtocol _ _ _ _ halpha] at h₁
  obtain ⟨protocol, e, rest, rfl, hprotocol, he, h₂⟩ :=
    h₁.token (by decide) fun ch => pushes_inProtocol
  obtain rfl := not_not.1 he
  rw [byte_inProtocol] at h₂
  exact ⟨skip, c :: protocol, rest, rfl, hskip, ⟨c, rfl, halpha⟩, hprotocol, h₂⟩

/-- A part of a version begins with a digit, and the state of the version takes the rest. -/
theorem exists_cons_of_versionPart (m : VersionPart) : ∃ c more, m.text = c :: more ∧
    isdigit c = true ∧ ∀ ch ∈ more, Pushes .inVersion ch := by
  rcases m with ⟨text, hhead, hok⟩
  rcases hhead with ⟨c, hc, hdigit⟩
  cases text with
  | nil => cases hc
  | cons c' more =>
      obtain rfl := Option.some.inj hc
      exact ⟨c', more, rfl, hdigit, fun ch hch => pushes_inVersion (hok ch hch)⟩

theorem scan_minors (ms : List VersionPart) (rest : Bytes) :
    (mk .inVersion q t key vers).scan
        (ms.flatMap VersionPart.behindPoint ++ CR :: LF :: rest) =
      (mk .crlf (q.setVersion (vers ++ t ++ ms.flatMap VersionPart.behindPoint)) [LF] key
        (vers ++ t ++ ms.flatMap VersionPart.behindPoint)).scan rest := by
  induction ms generalizing t vers with
  | nil =>
      rw [List.flatMap_nil, List.nil_append, List.append_nil, scan_mk_cons (by decide),
        byte_inVersion_cr, scan_mk_cons (by decide), byte_cr]
  | cons m ms ih =>
      rcases exists_cons_of_versionPart m with ⟨c, more, htext, hdigit, hmore⟩
      have hpart : m.behindPoint = chr '.' :: c :: more := by
        rw [VersionPart.behindPoint, htext]
      rw [List.flatMap_cons, hpart, List.append_assoc, List.cons_append, List.cons_append,
        scan_mk_cons (by decide), byte_inVersion_point, scan_mk_cons (by decide),
        byte_versionSplit _ _ _ _ hdigit, scan_mk_pushes (by decide) hmore, ih]
      simp

theorem scan_version (major : VersionPart) (ms : List VersionPart) (rest : Bytes) :
    (mk .beforeVersion q t key []).scan
        (major.text ++ (ms.flatMap VersionPart.behindPoint ++ CR :: LF :: rest)) =
      (mk .crlf (q.setVersion (major.text ++ ms.flatMap VersionPart.behindPoint)) [LF] key
        (major.text ++ ms.flatMap VersionPart.behindPoint)).scan rest := by
  rcases exists_cons_of_versionPart major with ⟨c, more, htext, hdigit, hmore⟩
  rw [htext, List.cons_append, scan_mk_cons (by decide), byte_beforeVersion _ _ _ _ hdigit,
    scan_mk_pushes (by decide) hmore, scan_minors]
  rfl

theorem Reads.lineFeed (h : Reads (mk .cr q t key vers) text s' rest') :
    ∃ rest, text = LF :: rest ∧ Reads (mk .crlf q [LF] key vers) rest s' rest' := by
  obtain ⟨ch, rest, rfl, h₁⟩ := h.cons (by decide)
  have hlf : ch = LF := by
    by_contra hne
    refine not_reads_invaild ?_ h₁
    simp [byte, hne, goto, push]
  subst hlf
  rw [byte_cr] at h₁
  exact ⟨rest, rfl, h₁⟩

/-- The rest of one part, then the other parts. -/
theorem Reads.minors (h : Reads (mk .inVersion q t key vers) text s' rest') :
    ∃ u, ∃ ms : List VersionPart, ∃ rest vers',
      text = u ++ (ms.flatMap VersionPart.behindPoint ++ CR :: LF :: rest) ∧
      (∀ ch ∈ u, ch ≠ CR ∧ ch ≠ chr '.') ∧
      Reads (mk .crlf (q.setVersion (vers ++ (t ++ u) ++ ms.flatMap VersionPart.behindPoint)) [LF]
        key vers') rest s' rest' := by
  induction hlen : text.length using Nat.strongRecOn generalizing text t vers with
  | ind n ih =>
      obtain ⟨u, ch, text, rfl, hu, hch, h₁⟩ := h.token (by decide) fun ch => pushes_inVersion
      by_cases hcr : ch = CR
      · subst hcr
        rw [byte_inVersion_cr] at h₁
        obtain ⟨rest, rfl, h₂⟩ := h₁.lineFeed
        refine ⟨u, [], rest, vers ++ (t ++ u), rfl, hu, ?_⟩
        rw [List.flatMap_nil, List.append_nil]
        exact h₂
      · obtain rfl : ch = chr '.' := not_not.1 fun hpoint => hch ⟨hcr, hpoint⟩
        rw [byte_inVersion_point] at h₁
        obtain ⟨d, text, rfl, h₂⟩ := h₁.cons (by decide)
        have hdigit : isdigit d = true := by
          by_contra hno
          refine not_reads_invaild ?_ h₂
          simp [byte, hno, goto, push]
        rw [byte_versionSplit _ _ _ _ hdigit] at h₂
        have hlt : text.length < n := by
          simp only [List.length_append, List.length_cons] at hlen
          omega
        obtain ⟨u', ms, rest, vers', rfl, hu', h₃⟩ := ih _ hlt h₂ rfl
        refine ⟨u, ⟨d :: u', ⟨d, rfl, hdigit⟩, hu'⟩ :: ms, rest, vers', ?_, hu, ?_⟩
        · simp [VersionPart.behindPoint]
        · have htext : vers ++ (t ++ u) ++ List.flatMap VersionPart.behindPoint
              (⟨d :: u', ⟨d, rfl, hdigit⟩, hu'⟩ :: ms) =
              vers ++ (t ++ u) ++ [chr '.'] ++ ([d] ++ u') ++
                ms.flatMap VersionPart.behindPoint := by
            simp [VersionPart.behindPoint]
          rw [htext]
          exact h₃

theorem Reads.version (h : Reads (mk .beforeVersion q t key []) text s' rest') :
    ∃ major : VersionPart, ∃ ms : List VersionPart, ∃ rest vers',
      text = major.text ++ (ms.flatMap VersionPart.behindPoint ++ CR :: LF :: rest) ∧
      Reads (mk .crlf (q.setVersion (major.text ++ ms.flatMap VersionPart.behindPoint)) [LF] key
        vers') rest s' rest' := by
  obtain ⟨d, text, rfl, h₁⟩ := h.cons (by decide)
  have hdigit : isdigit d = true := by
    by_contra hno
    refine not_reads_invaild ?_ h₁
    simp [byte, hno, goto, push]
  rw [byte_beforeVersion _ _ _ _ hdigit] at h₁
  obtain ⟨u, ms, rest, vers', rfl, hu, h₂⟩ := h₁.minors
  exact ⟨⟨d :: u, ⟨d, rfl, hdigit⟩, hu⟩, ms, rest, vers', rfl, h₂⟩

/-! ## The headers -/

theorem scan_key_rest {k before : Bytes} (hk : ∀ ch ∈ k, isblank ch = false ∧ ch ≠ chr ':')
    (hbefore : ∀ ch ∈ before, isblank ch = true) (rest : Bytes) :
    (mk .headerKey q t key vers).scan (k ++ (before ++ chr ':' :: rest)) =
      (mk .headerAfterColon (q.setHeader (t ++ k) []) [chr ':'] (t ++ k) vers).scan rest := by
  have hkeys : ∀ ch ∈ k, Pushes .headerKey ch := fun ch hch => pushes_headerKey (hk ch hch)
  cases before with
  | nil => rw [List.nil_append, scan_token (by decide) hkeys, byte_headerKey_colon]
  | cons b before =>
      have hblanks : ∀ ch ∈ before, Pushes .headerBeforeColon ch := fun ch hch =>
        pushes_beforeColon (hbefore ch (List.mem_cons_of_mem b hch))
      rw [List.cons_append, scan_token (by decide) hkeys,
        byte_headerKey_blank _ _ _ _ (hbefore b List.mem_cons_self),
        scan_token (by decide) hblanks, byte_beforeColon]

theorem scan_header_value {after v : Bytes} (hafter : ∀ ch ∈ after, isblank ch = true)
    (hhead : ∃ ch ∈ v.head?, isblank ch = false) (hok : ∀ ch ∈ v.tail, ch ≠ CR) (rest : Bytes) :
    (mk .headerAfterColon q t key vers).scan (after ++ (v ++ CR :: LF :: rest)) =
      (mk .crlf (q.setHeader key v) [LF] key vers).scan rest := by
  have hblanks : ∀ ch ∈ after, Pushes .headerAfterColon ch := fun ch hch =>
    pushes_afterColon (hafter ch hch)
  obtain ⟨c, hc, hblank⟩ := hhead
  cases v with
  | nil => cases hc
  | cons c' v =>
      obtain rfl := Option.some.inj hc
      have hvalues : ∀ ch ∈ v, Pushes .headerValue ch := fun ch hch =>
        pushes_headerValue (hok ch hch)
      rw [List.cons_append, scan_token (by decide) hblanks, byte_afterColon _ _ _ _ hblank,
        scan_token (by decide) hvalues, byte_headerValue, scan_mk_cons (by decide), byte_cr]
      rfl

theorem scan_header_key (h : LooseHeader) (rest : Bytes) :
    (mk .crlf q t key vers).scan (h.key ++ (h.before ++ chr ':' :: rest)) =
      (mk .headerAfterColon (q.setHeader h.key []) [chr ':'] h.key vers).scan rest := by
  rcases h with ⟨k, before, after, v, hk, hkok, hbefore, -, -, -⟩
  obtain ⟨c, hc, hblank, hcr⟩ := hk
  cases k with
  | nil => cases hc
  | cons c' k =>
      obtain rfl := Option.some.inj hc
      rw [List.tail_cons] at hkok
      dsimp only
      rw [List.cons_append, scan_mk_cons (by decide), byte_crlf _ _ _ _ hblank hcr,
        scan_key_rest hkok hbefore]
      rfl

theorem Reads.header_key (h : Reads (mk .headerKey q t key vers) text s' rest') :
    ∃ k before rest, text = k ++ (before ++ chr ':' :: rest) ∧
      (∀ ch ∈ k, isblank ch = false ∧ ch ≠ chr ':') ∧ (∀ ch ∈ before, isblank ch = true) ∧
      Reads (mk .headerAfterColon (q.setHeader (t ++ k) []) [chr ':'] (t ++ k) vers) rest s'
        rest' := by
  obtain ⟨k, ch, text, rfl, hk, hch, h₁⟩ := h.token (by decide) fun ch => pushes_headerKey
  by_cases hb : isblank ch = true
  · rw [byte_headerKey_blank _ _ _ _ hb] at h₁
    obtain ⟨before, e, rest, rfl, hbefore, he, h₂⟩ :=
      h₁.token (by decide) fun ch => pushes_beforeColon
    have hcolon : e = chr ':' := by
      by_contra hne
      refine not_reads_invaild ?_ h₂
      simp [byte, he, hne, goto, push]
    subst hcolon
    rw [byte_beforeColon] at h₂
    exact ⟨k, ch :: before, rest, rfl, hk, List.forall_mem_cons.2 ⟨hb, hbefore⟩, h₂⟩
  · obtain rfl : ch = chr ':' :=
      not_not.1 fun hne => hch ⟨Bool.eq_false_of_not_eq_true hb, hne⟩
    rw [byte_headerKey_colon] at h₁
    exact ⟨k, [], text, rfl, hk, List.forall_mem_nil _, h₁⟩

theorem scan_header (h : LooseHeader) (rest : Bytes) :
    (mk .crlf q t key vers).scan (h.print ++ rest) =
      (mk .crlf (q.setHeader h.key h.value) [LF] h.key vers).scan rest := by
  have hprint : h.print ++ rest =
      h.key ++ (h.before ++ chr ':' :: (h.after ++ (h.value ++ CR :: LF :: rest))) := by
    simp [LooseHeader.print]
  rw [hprint, scan_header_key, scan_header_value h.after_ok h.value_head h.value_ok,
    HttpRequest.setHeader_setHeader]

/-- At the start of a line either a header follows or the head ends. -/
theorem Reads.header (h : Reads (mk .crlf q t key vers) text s' rest') :
    (∃ rest, text = CR :: rest ∧ Reads (mk .crlfcr q (t ++ [CR]) key vers) rest s' rest') ∨
      ∃ hd : LooseHeader, ∃ rest, text = hd.print ++ rest ∧
        Reads (mk .crlf (q.setHeader hd.key hd.value) [LF] hd.key vers) rest s' rest' := by
  obtain ⟨c, text, rfl, h₁⟩ := h.cons (by decide)
  by_cases hcr : c = CR
  · subst hcr
    rw [byte_crlf_cr] at h₁
    exact .inl ⟨text, rfl, h₁⟩
  · have hblank : isblank c = false := by
      by_contra hb
      refine not_reads_invaild ?_ h₁
      simp [byte, Bool.eq_true_of_not_eq_false hb, goto, push]
    rw [byte_crlf _ _ _ _ hblank hcr] at h₁
    obtain ⟨k, before, text, rfl, hk, hbefore, h₂⟩ := h₁.header_key
    obtain ⟨after, d, text, rfl, hafter, hd, h₃⟩ :=
      h₂.token (by decide) fun ch => pushes_afterColon
    have hd' := Bool.eq_false_of_not_eq_true hd
    rw [byte_afterColon _ _ _ _ hd'] at h₃
    obtain ⟨v, e, text, rfl, hv, he, h₄⟩ := h₃.token (by decide) fun ch => pushes_headerValue
    obtain rfl := not_not.1 he
    rw [byte_headerValue, HttpRequest.setHeader_setHeader] at h₄
    obtain ⟨rest, rfl, h₅⟩ := h₄.lineFeed
    refine .inr ⟨⟨c :: k, before, after, d :: v, ⟨c, rfl, hblank, hcr⟩, hk, hbefore, hafter,
      ⟨d, rfl, hd'⟩, hv⟩, rest, ?_, h₅⟩
    simp [LooseHeader.print]

theorem scan_headers (hs : List LooseHeader) (rest : Bytes) :
    ∃ key', (mk .crlf q [LF] key vers).scan (hs.flatMap LooseHeader.print ++ rest) =
      (mk .crlf { q with headers := Lib.insertAll q.headers (hs.map LooseHeader.pair) } [LF] key'
        vers).scan rest := by
  induction hs generalizing q key with
  | nil => exact ⟨key, rfl⟩
  | cons h hs ih =>
      obtain ⟨key', hscan⟩ := @ih (q.setHeader h.key h.value) h.key
      refine ⟨key', ?_⟩
      rw [List.flatMap_cons, List.append_assoc, scan_header, hscan]
      rfl

/-- Behind the CR of the blank line everything up to a line feed is skipped. -/
theorem scan_stop {stop : Bytes} (hstop : ∀ ch ∈ stop, ch ≠ LF) (rest : Bytes) :
    ∃ tok, (mk .crlf q t key vers).scan (CR :: (stop ++ LF :: rest)) =
      if q.countHeader (ascii "Content-Length") ∧ q.contentLength ≤ 0 then
        (mk .complete q tok key vers, rest)
      else (mk .body q [] key vers, rest) := by
  have hskips : ∀ ch ∈ stop, Pushes .crlfcr ch := fun ch hch => pushes_crlfcr (hstop ch hch)
  refine ⟨t ++ [CR] ++ stop ++ [LF], ?_⟩
  rw [scan_mk_cons (by decide), byte_crlf_cr, scan_token (by decide) hskips, byte_crlfcr]
  split_ifs with hc
  · exact scan_done (.inr (.inl rfl)) rest
  · exact scan_done (.inl rfl) rest

theorem Reads.stop (h : Reads (mk .crlfcr q t key vers) text s' rest') :
    ∃ stop, text = stop ++ LF :: rest' ∧ ∀ ch ∈ stop, ch ≠ LF := by
  obtain ⟨stop, ch, rest, rfl, hstop, hch, h₁⟩ := h.token (by decide) fun ch => pushes_crlfcr
  obtain rfl := not_not.1 hch
  have hdone : ((mk .crlfcr q (t ++ stop) key vers).byte LF).state.Done := by
    rw [byte_crlfcr]
    split_ifs
    · exact .inr (.inl rfl)
    · exact .inl rfl
  have hscan := h₁.1
  rw [scan_done hdone] at hscan
  obtain ⟨-, rfl⟩ := Prod.mk.inj hscan
  exact ⟨stop, rfl, hstop⟩

theorem Reads.headers (h : Reads (mk .crlf q t key vers) text s' rest') :
    ∃ hs : List LooseHeader, ∃ stop,
      text = hs.flatMap LooseHeader.print ++ CR :: (stop ++ LF :: rest') ∧
      ∀ ch ∈ stop, ch ≠ LF := by
  induction hlen : text.length using Nat.strongRecOn generalizing text q t key with
  | ind n ih =>
      rcases h.header with ⟨rest, rfl, h₁⟩ | ⟨hd, rest, rfl, h₁⟩
      · obtain ⟨stop, rfl, hstop⟩ := h₁.stop
        exact ⟨[], stop, rfl, hstop⟩
      · have hlt : rest.length < n := by
          simp only [LooseHeader.print, List.length_append, List.length_cons] at hlen
          omega
        obtain ⟨hs, stop, rfl, hstop⟩ := ih _ hlt h₁ rfl
        exact ⟨hd :: hs, stop, by simp, hstop⟩

end Scan

/-! ## The whole head -/

theorem HttpRequest.setVersion_eq (q : HttpRequest) (version : Bytes) :
    q.setVersion version =
      { q with version := if version = ascii "1.1" then .http11 else .invaildVersion } := by
  unfold setVersion
  dsimp only
  split_ifs <;> rfl

open Scan

theorem LooseHead.scan_lines (h : LooseHead) (q : HttpRequest) (rest : Bytes) :
    ∃ key vers, (Scan.mk .start q [] [] []).scan (h.lines ++ rest) =
      (Scan.mk .crlf (h.fill q) [LF] key vers).scan rest := by
  have hlines : h.lines ++ rest = h.junk ++ (h.method ++ h.blank₁ :: (h.gap ++ (h.path ++
      (printQueryPairs (h.query.map LooseParam.pair) ++ h.blank₂ :: (h.skip ++ (h.protocol ++
        chr '/' :: (h.major.text ++ (h.minors.flatMap VersionPart.behindPoint ++ CR :: LF ::
          (h.headers.flatMap LooseHeader.print ++ rest))))))))) := by
    simp [LooseHead.lines, LooseHead.version, LooseHead.paramPairs]
  let query : HttpRequest :=
    { (q.setMethod (h.junk ++ h.method)).setURL h.path with
      params := Lib.insertAll q.params (h.query.map LooseParam.pair) }
  let line : HttpRequest := (query.setProtocol h.protocol).setVersion h.version
  obtain ⟨key, hquery⟩ := @scan_query (q.setMethod (h.junk ++ h.method)) [] [] h.path h.query
    h.blank₂ h.blank₂_ok (h.skip ++ (h.protocol ++ chr '/' :: (h.major.text ++
      (h.minors.flatMap VersionPart.behindPoint ++ CR :: LF ::
        (h.headers.flatMap LooseHeader.print ++ rest)))))
  obtain ⟨key', hheaders⟩ := @scan_headers line key h.version h.headers rest
  have hfill : { line with headers := Lib.insertAll line.headers (h.headers.map LooseHeader.pair) } =
      h.fill q := by
    have hline := HttpRequest.setVersion_eq (query.setProtocol h.protocol) h.version
    show { line with headers := Lib.insertAll line.headers (h.headers.map LooseHeader.pair) } = _
    rw [show line = _ from hline]
    rfl
  refine ⟨key', h.version, ?_⟩
  rw [hlines, scan_method h.junk_ok h.method_head h.method_ok h.blank₁_ok,
    scan_uri h.gap_ok h.path_head h.path_ok, hquery,
    scan_protocol h.skip_ok h.protocol_head h.protocol_ok, scan_version]
  show (Scan.mk .crlf line [LF] key h.version).scan _ = _
  rw [hheaders, hfill]

/-- A loose head leaves the head states at its last byte. -/
theorem LooseHead.scan_print (h : LooseHead) (q : HttpRequest) (rest : Bytes) :
    ∃ tok key vers, (Scan.mk .start q [] [] []).scan (h.print ++ rest) =
      if (h.fill q).countHeader (ascii "Content-Length") ∧ (h.fill q).contentLength ≤ 0 then
        (Scan.mk .complete (h.fill q) tok key vers, rest)
      else (Scan.mk .body (h.fill q) [] key vers, rest) := by
  have hprint : h.print ++ rest = h.lines ++ CR :: (h.stop ++ LF :: rest) := by
    rw [h.print_eq]
    simp
  obtain ⟨key, vers, hlines⟩ := h.scan_lines q (CR :: (h.stop ++ LF :: rest))
  obtain ⟨tok, hstop⟩ := @scan_stop (h.fill q) [LF] key vers h.stop h.stop_ok rest
  refine ⟨tok, key, vers, ?_⟩
  rw [hprint, hlines, hstop]

/-- Whatever the scanner recognises is a loose head. -/
theorem LooseHead.exists_of_scan {q : HttpRequest} {text rest : Bytes} {s : Scan}
    (h : (Scan.mk .start q [] [] []).scan text = (s, rest))
    (hs : s.state = .body ∨ s.state = .complete) :
    ∃ head : LooseHead, text = head.print ++ rest := by
  have h₀ : Reads (Scan.mk .start q [] [] []) text s rest := ⟨h, hs⟩
  obtain ⟨junk, m, b₁, text, rfl, hjunk, hmhead, hm, hb₁, h₁⟩ := h₀.method
  obtain ⟨gap, path, ch, text, rfl, hgap, hphead, hpath, hch, h₂⟩ := h₁.uri
  obtain ⟨query, b₂, text', key, htext, hb₂, h₃⟩ := h₂.query hch
  obtain ⟨skip, protocol, text', rfl, hskip, halpha, hprotocol, h₄⟩ := h₃.protocol
  obtain ⟨major, minors, text', vers, rfl, h₅⟩ := h₄.version
  obtain ⟨headers, stop, rfl, hstop⟩ := h₅.headers
  refine ⟨⟨junk, m, b₁, gap, path, query, b₂, skip, protocol, major, minors, headers, stop, hjunk,
    hmhead, hm, hb₁, hgap, hphead, hpath, hb₂, hskip, halpha, hprotocol, hstop⟩, ?_⟩
  rw [htext]
  simp [LooseHead.print, LooseHead.version, LooseHead.paramPairs]

/-- A printed head fills the request object and leaves the head states at its last byte. -/
theorem Head.scan_print (h : Head) (q : HttpRequest) (rest : Bytes) :
    ∃ tok key vers, (Scan.mk .start q [] [] []).scan (h.print ++ rest) =
      if (h.fill q).countHeader (ascii "Content-Length") ∧ (h.fill q).contentLength ≤ 0 then
        (Scan.mk .complete (h.fill q) tok key vers, rest)
      else (Scan.mk .body (h.fill q) [] key vers, rest) := by
  rw [← h.print_loose, ← h.fill_loose]
  exact h.loose.scan_print q rest

end CPlusServer

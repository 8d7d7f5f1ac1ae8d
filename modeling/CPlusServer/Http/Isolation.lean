import CPlusServer.Http.Accepted
import CPlusServer.Http.Parse

/-!
# What the stored texts are free of

Most states test for their own delimiters only, so a line end or a blank inside
a token is stored with it. The stored texts are free of them exactly when the
pieces of the head are, apart from values that a later one replaces.
-/

namespace CPlusServer

def NoLineEnd (ch : UInt8) : Prop := ch ≠ CR ∧ ch ≠ LF

instance (ch : UInt8) : Decidable (NoLineEnd ch) :=
  inferInstanceAs (Decidable (ch ≠ CR ∧ ch ≠ LF))

/-- No blank and no line end in a token, no line end in a header value. -/
structure Isolated (q : HttpRequest) : Prop where
  url : ∀ ch ∈ q.url, Plain ch
  protocol : ∀ ch ∈ q.protocol, Plain ch
  params : ∀ k v, q.params.lookup k = some v → (∀ ch ∈ k, Plain ch) ∧ ∀ ch ∈ v, Plain ch
  headers : ∀ k v, q.headers.lookup k = some v → (∀ ch ∈ k, Plain ch) ∧ ∀ ch ∈ v, NoLineEnd ch

/-- The bytes that no state refuses are not there: no line end in the path, in a header key, in
the last value of a key, and neither a line end nor a blank in the protocol and in a query key. -/
structure LooseHead.Guarded (h : LooseHead) : Prop where
  path : ∀ ch ∈ h.path, NoLineEnd ch
  protocol : ∀ ch ∈ h.protocol, Plain ch
  keys : ∀ p ∈ h.query, ∀ ch ∈ p.key, Plain ch
  values : ∀ k v, Lib.lastValue k h.paramPairs = some v → ∀ ch ∈ v, NoLineEnd ch
  names : ∀ hd ∈ h.headers, ∀ ch ∈ hd.key, NoLineEnd ch
  fields : ∀ k v, Lib.lastValue k h.headerPairs = some v → ∀ ch ∈ v, NoLineEnd ch

/-! ## The stored texts -/

namespace LooseHead

/-- A stored value of the query is the value of one of its pairs. -/
theorem mem_of_paramPairs {h : LooseHead} {k v : Bytes}
    (hv : Lib.lastValue k h.paramPairs = some v) : ∃ p ∈ h.query, p.key = k ∧ p.value = v := by
  obtain ⟨p, hp, heq⟩ := List.mem_map.1 (Lib.mem_of_lastValue hv)
  exact ⟨p, hp, congrArg Prod.fst heq, congrArg Prod.snd heq⟩

theorem mem_of_headerPairs {h : LooseHead} {k v : Bytes}
    (hv : Lib.lastValue k h.headerPairs = some v) : ∃ hd ∈ h.headers, hd.key = k ∧ hd.value = v := by
  obtain ⟨hd, hhd, heq⟩ := List.mem_map.1 (Lib.mem_of_lastValue hv)
  exact ⟨hd, hhd, congrArg Prod.fst heq, congrArg Prod.snd heq⟩

theorem isolated_fill_iff (h : LooseHead) (body : Bytes) :
    Isolated { h.fill {} with body := body } ↔ h.Guarded := by
  have hparams (k : Bytes) : (h.fill {}).params.lookup k = Lib.lastValue k h.paramPairs :=
    Lib.lookup_insertAll_empty k h.paramPairs
  have hheaders (k : Bytes) : (h.fill {}).headers.lookup k = Lib.lastValue k h.headerPairs :=
    Lib.lookup_insertAll_empty k h.headerPairs
  constructor
  · intro hi
    have hiparams : ∀ k v, Lib.lastValue k h.paramPairs = some v →
        (∀ ch ∈ k, Plain ch) ∧ ∀ ch ∈ v, Plain ch :=
      fun k v hv => hi.params k v ((hparams k).trans hv)
    have hiheaders : ∀ k v, Lib.lastValue k h.headerPairs = some v →
        (∀ ch ∈ k, Plain ch) ∧ ∀ ch ∈ v, NoLineEnd ch :=
      fun k v hv => hi.headers k v ((hheaders k).trans hv)
    refine ⟨fun ch hch => (hi.url ch hch).2, hi.protocol, ?_, ?_, ?_, ?_⟩
    · intro p hp
      have hmem : p.pair ∈ h.paramPairs := List.mem_map_of_mem hp
      obtain ⟨v, hv⟩ := Lib.exists_lastValue hmem
      exact (hiparams p.key v hv).1
    · exact fun k v hv ch hch => ((hiparams k v hv).2 ch hch).2
    · intro hd hhd ch hch
      have hmem : hd.pair ∈ h.headerPairs := List.mem_map_of_mem hhd
      obtain ⟨v, hv⟩ := Lib.exists_lastValue hmem
      exact ((hiheaders hd.key v hv).1 ch hch).2
    · exact fun k v hv => (hiheaders k v hv).2
  · intro hg
    refine ⟨fun ch hch => ⟨h.path_nonblank ch hch, hg.path ch hch⟩, hg.protocol, ?_, ?_⟩
    · intro k v hv
      have hlast := (hparams k).symm.trans hv
      obtain ⟨p, hp, rfl, rfl⟩ := mem_of_paramPairs hlast
      obtain ⟨c, hc, hplain⟩ := p.value_head
      have hblank : ∀ ch ∈ p.value, isblank ch = false :=
        forall_of_head_tail ⟨c, hc, hplain.1⟩ fun ch hch => (p.value_ok ch hch).1
      exact ⟨hg.keys p hp, fun ch hch => ⟨hblank ch hch, hg.values _ _ hlast ch hch⟩⟩
    · intro k v hv
      have hlast := (hheaders k).symm.trans hv
      obtain ⟨hd, hhd, rfl, rfl⟩ := mem_of_headerPairs hlast
      obtain ⟨c, hc, hfirst⟩ := hd.key_head
      have hblank : ∀ ch ∈ hd.key, isblank ch = false :=
        forall_of_head_tail ⟨c, hc, hfirst.1⟩ fun ch hch => (hd.key_ok ch hch).1
      exact ⟨fun ch hch => ⟨hblank ch hch, hg.names hd hhd ch hch⟩, hg.fields _ _ hlast⟩

end LooseHead

namespace HttpContext

/-- **Token isolation.** The texts stored by a call that completes are isolated exactly when the
string begins with a guarded head. -/
theorem isolated_iff {text : Bytes} {ctx' : HttpContext} {b : Bool} (hcall : Returns {} text ctx' b)
    (hcomplete : ctx'.isComplete = true) :
    Isolated ctx'.request ↔ ∃ h : LooseHead, ∃ rest, text = h.print ++ rest ∧ h.Guarded := by
  have hret : Returns {} text ctx' true := by
    obtain ⟨hout, -⟩ := returns_iff_outcome.1 hcall
    refine returns_iff_outcome.2 ⟨hout, ?_⟩
    simpa [isComplete] using Or.inl hcomplete
  constructor
  · intro hi
    obtain ⟨h, rest, rfl, -, rfl⟩ := LooseHead.returns_iff.1 hret
    obtain ⟨body, hbody⟩ := h.result_request {} rest
    rw [hbody, h.isolated_fill_iff] at hi
    exact ⟨h, rest, rfl, hi⟩
  · intro hguarded
    obtain ⟨h, rest, rfl, hg⟩ := hguarded
    have hresult : ctx' = h.result {} rest := LooseHead.eq_result hret
    rw [hresult]
    obtain ⟨body, hbody⟩ := h.result_request {} rest
    rw [hbody, h.isolated_fill_iff]
    exact hg

theorem isolated_getSample : Isolated Request.getSample.value ↔
    ∃ h : LooseHead, ∃ rest, Request.getSample.print = h.print ++ rest ∧ h.Guarded :=
  isolated_iff Request.getSample.returns_print rfl

def splitLogLine : Bytes := ascii "GET /\r\nINFO HTTP/1.1\r\n\r\n"

theorem not_isolated_splitLogLine :
    ∃ ctx', Returns {} splitLogLine ctx' true ∧ ctx'.isComplete = true ∧
      ctx'.request.url = ascii "/\r\nINFO" ∧ ¬ Isolated ctx'.request := by
  have hurl : ((Scan.init {}).scan splitLogLine).1.request.url = ascii "/\r\nINFO" := by decide
  refine ⟨⟨.complete, ((Scan.init {}).scan splitLogLine).1.request⟩, ?_, rfl, hurl, ?_⟩
  · rw [returns_iff_outcome]
    exact ⟨by decide, by decide⟩
  · intro hi
    have hmem : CR ∈ ascii "/\r\nINFO" := by decide
    rw [← hurl] at hmem
    exact (hi.url CR hmem).2.1 rfl

end HttpContext

end CPlusServer

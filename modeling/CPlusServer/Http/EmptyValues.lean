import CPlusServer.Http.Accepted
import CPlusServer.Http.Parse
import CPlusServer.Lib.Swallow

/-!
# Empty values

The states in front of a value, of a query pair as of a header, take any byte
that is not a blank for its first one. Behind an empty value that is the byte
that should have ended it, and the value swallows what comes next.
-/

namespace CPlusServer

open Scan

/-! ## Query strings -/

structure Pair where
  key : Bytes
  value : Bytes
  key_ne : key ≠ []
  key_ok : ∀ ch ∈ key, Plain ch ∧ ch ≠ chr '=' ∧ ch ≠ chr '&'
  value_ok : ∀ ch ∈ value, Plain ch ∧ ch ≠ chr '&'

namespace Pair

def loose (p : Pair) (h : p.value ≠ []) : LooseParam :=
  Param.loose ⟨p.key, p.value, p.key_ne, p.key_ok, h, p.value_ok⟩

/-- A pair with an empty value and the pair behind it, as the parser reads them. -/
def merged (p p' : Pair) : LooseParam where
  key := p.key
  value := chr '&' :: (p'.key ++ chr '=' :: p'.value)
  key_head := exists_head_of_ne_nil p.key_ne fun ch hch => (p.key_ok ch hch).1
  key_ok := fun ch hch => (p.key_ok ch (List.mem_of_mem_tail hch)).2.1
  value_head := ⟨chr '&', rfl, by decide⟩
  value_ok := by
    intro ch hch
    rcases List.mem_append.1 hch with hkey | hvalue
    · have hok := p'.key_ok ch hkey
      exact ⟨hok.1.1, hok.2.2⟩
    · rcases List.mem_cons.1 hvalue with rfl | hvalue
      · decide
      · have hok := p'.value_ok ch hvalue
        exact ⟨hok.1.1, hok.2⟩

def reading : Lib.Swallowing Pair Bytes UInt8 where
  key := key
  value := value
  sep := chr '&'
  swallow := fun p p' => (p.merged p').value
  swallow_head := fun _ _ => rfl

end Pair

/-- The query of a well-formed request is replaced by `query`. -/
structure QueryRequest where
  request : Request
  query : List Pair

namespace QueryRequest

def pairs (r : QueryRequest) : List (Bytes × Bytes) := r.query.map Pair.reading.pair

def print (r : QueryRequest) : Bytes :=
  r.request.head.printWith (printQueryPairs r.pairs)
    (r.request.head.headers.flatMap Header.print) ++ r.request.body

/-- The call is rejected, or completes with the listed pairs, of which the last one of a key
counts. -/
def RejectsOrStores (r : QueryRequest) : Prop :=
  (∃ ctx', HttpContext.Returns {} r.print ctx' false) ∨
    ∃ ctx', HttpContext.Returns {} r.print ctx' true ∧ ctx'.isComplete = true ∧
      ∀ key, ctx'.request.params.lookup key = Lib.lastValue key r.pairs

end QueryRequest

/-! ### The pairs as they are read -/

namespace Pair

theorem printPairs_cons (kv : Bytes × Bytes) {kvs : List (Bytes × Bytes)} (h : kvs ≠ []) :
    printPairs (kv :: kvs) = kv.1 ++ chr '=' :: kv.2 ++ chr '&' :: printPairs kvs := by
  cases kvs with
  | nil => exact absurd rfl h
  | cons kv' kvs => rfl

/-- A pair with an empty value swallows the next one with its separator. -/
theorem printPairs_merged {p p' : Pair} (hempty : p.value = []) {ps : List Pair}
    (hne : ps ≠ []) : printPairs ((p :: p' :: ps).map reading.pair) =
      (p.merged p').key ++ chr '=' :: (p.merged p').value ++
        chr '&' :: printPairs (ps.map reading.pair) := by
  have hnext : printPairs ((p' :: ps).map reading.pair) =
      p'.key ++ chr '=' :: p'.value ++ chr '&' :: printPairs (ps.map reading.pair) :=
    printPairs_cons (reading.pair p') (by simpa using hne)
  have hfirst : printPairs ((p :: p' :: ps).map reading.pair) =
      p.key ++ chr '=' :: p.value ++ chr '&' :: printPairs ((p' :: ps).map reading.pair) := rfl
  rw [hfirst, hnext, hempty]
  simp [merged]

/-- The text is the same, whether cut as it was meant or as it is read. -/
theorem printPairs_readPairs (ps : List Pair) :
    printPairs (reading.readPairs ps) = printPairs (ps.map reading.pair) := by
  induction ps using Lib.Swallowing.readPairs.induct reading with
  | case1 => rfl
  | case2 p => rfl
  | case3 p p' ps hempty ih =>
      have hvalue : p.value = [] := hempty
      rw [Lib.Swallowing.readPairs, if_pos hempty]
      by_cases hne : ps = []
      · subst hne
        simp [Lib.Swallowing.readPairs, Lib.Swallowing.pair, reading, printPairs, merged, hvalue]
      · rw [printPairs_cons _ (reading.readPairs_ne_nil hne), ih, printPairs_merged hvalue hne]
        rfl
  | case4 p p' ps hvalue ih =>
      rw [Lib.Swallowing.readPairs, if_neg hvalue,
        printPairs_cons _ (reading.readPairs_ne_nil (by simp)), ih]
      rfl

/-- Unless the last pair is refused, the pairs that are read are pairs to the parser. -/
theorem exists_loose {ps : List Pair} (h : ¬ reading.EndsEmpty ps) :
    ∃ ls : List LooseParam, ls.map LooseParam.pair = reading.readPairs ps := by
  induction ps using Lib.Swallowing.readPairs.induct reading with
  | case1 => exact ⟨[], rfl⟩
  | case2 p => exact ⟨[p.loose h], rfl⟩
  | case3 p p' ps hempty ih =>
      rw [Lib.Swallowing.EndsEmpty, if_pos hempty] at h
      obtain ⟨ls, hls⟩ := ih h
      refine ⟨p.merged p' :: ls, ?_⟩
      rw [Lib.Swallowing.readPairs, if_pos hempty, List.map_cons, hls]
      rfl
  | case4 p p' ps hvalue ih =>
      rw [Lib.Swallowing.EndsEmpty, if_neg hvalue] at h
      obtain ⟨ls, hls⟩ := ih h
      refine ⟨p.loose hvalue :: ls, ?_⟩
      rw [Lib.Swallowing.readPairs, if_neg hvalue, List.map_cons, hls]
      rfl

/-! ### The call -/

/-- An empty value in last place is refused at the blank behind it. -/
theorem scan_endsEmpty {ps : List Pair} (h : reading.EndsEmpty ps) {b : UInt8}
    (hb : isblank b = true) (q : HttpRequest) (t key vers rest : Bytes) :
    ∃ s rest', (Scan.mk .beforeUriParamsKey q t key vers).scan
      (printPairs (ps.map reading.pair) ++ b :: rest) = (s, rest') ∧ s.state = .invaild := by
  induction ps using Lib.Swallowing.readPairs.induct reading generalizing q t key with
  | case1 => cases h
  | case2 p =>
      have hempty : p.value = [] := h
      have hrefused : ((Scan.mk .beforeUriParamsValue (q.setParams p.key []) (p.key ++ [chr '='])
          p.key vers).byte b).state = .invaild := by
        simp [byte, hb, goto, push]
      have hkey := exists_head_of_ne_nil p.key_ne fun ch hch => (p.key_ok ch hch).1
      have htail : ∀ ch ∈ p.key.tail, ch ≠ chr '=' := fun ch hch =>
        (p.key_ok ch (List.mem_of_mem_tail hch)).2.1
      have hprint : printPairs ([p].map reading.pair) ++ b :: rest =
          p.key ++ chr '=' :: b :: rest := by
        simp [printPairs, Lib.Swallowing.pair, reading, hempty]
      refine ⟨_, rest, ?_, hrefused⟩
      rw [hprint, scan_key hkey htail, scan_mk_cons (by decide)]
      exact scan_done (.inr (.inr hrefused)) rest
  | case3 p p' ps hempty ih =>
      rw [Lib.Swallowing.EndsEmpty, if_pos hempty] at h
      have hne : ps ≠ [] := by
        intro hnil
        rw [hnil] at h
        exact h
      rw [printPairs_merged hempty hne, List.append_assoc _ (_ :: _), List.cons_append,
        scan_param_amp]
      exact ih h _ _ _
  | case4 p p' ps hvalue ih =>
      rw [Lib.Swallowing.EndsEmpty, if_neg hvalue] at h
      have hfirst : printPairs ((p :: p' :: ps).map reading.pair) =
          (p.loose hvalue).key ++ chr '=' :: (p.loose hvalue).value ++
            chr '&' :: printPairs ((p' :: ps).map reading.pair) := rfl
      rw [hfirst, List.append_assoc _ (_ :: _), List.cons_append, scan_param_amp]
      exact ih h _ _ _

end Pair

namespace QueryRequest

theorem returns_false_of_endsEmpty (r : QueryRequest) (h : Pair.reading.EndsEmpty r.query) :
    ∃ ctx', HttpContext.Returns {} r.print ctx' false := by
  let head := r.request.head.loose
  obtain ⟨b₁, gap, hgap⟩ := List.exists_cons_of_ne_nil r.request.head.gap₁_ne
  obtain ⟨b₂, skip, hskip⟩ := List.exists_cons_of_ne_nil r.request.head.gap₂_ne
  have hblank : isblank b₂ = true := r.request.head.gap₂_ok b₂ (by simp [hskip])
  obtain ⟨kv, kvs, hpairs⟩ : ∃ kv kvs, r.pairs = kv :: kvs := by
    refine List.exists_cons_of_ne_nil ?_
    unfold pairs
    intro hnil
    rw [List.map_eq_nil_iff.1 hnil] at h
    exact h
  have hquery : printQueryPairs r.pairs = chr '?' :: printPairs r.pairs := by
    rw [hpairs]
    rfl
  let more := skip ++ (r.request.head.protocol ++ (ascii "/1.1\r\n" ++
    (r.request.head.headers.flatMap Header.print ++ [CR, LF])) ++ r.request.body)
  have hprint : r.print = head.junk ++ (head.method ++ head.blank₁ :: (head.gap ++ (head.path ++
      chr '?' :: (printPairs r.pairs ++ b₂ :: more)))) := by
    unfold print Head.printWith
    rw [hquery]
    simp [head, Head.loose, hgap, hskip, more]
  obtain ⟨s, rest, hscan, hs⟩ := Pair.scan_endsEmpty h hblank
    (({} : HttpRequest).setMethod (head.junk ++ head.method) |>.setURL head.path) [chr '?'] [] []
    more
  refine ⟨⟨.invaild, s.request⟩, HttpContext.returns_iff_outcome.2 ⟨?_, rfl⟩⟩
  rw [HttpContext.outcome_of_not_done (HttpContext.start_not_done {})]
  show HttpContext.headOutcome ((Scan.mk .start {} [] [] []).scan r.print).1
    ((Scan.mk .start {} [] [] []).scan r.print).2 r.print.length = _
  rw [hprint, scan_method head.junk_ok head.method_head head.method_ok head.blank₁_ok,
    scan_uri head.gap_ok head.path_head head.path_ok, scan_mk_cons (by decide), byte_inUri_query]
  unfold pairs
  rw [hscan]
  simp [HttpContext.headOutcome, hs]

theorem returns_readPairs (r : QueryRequest) (h : ¬ Pair.reading.EndsEmpty r.query) :
    ∃ ctx', HttpContext.Returns {} r.print ctx' true ∧ ctx'.isComplete = true ∧
      ∀ key, ctx'.request.params.lookup key = Lib.lastValue key (Pair.reading.readPairs r.query) := by
  obtain ⟨ls, hls⟩ := Pair.exists_loose h
  let head : LooseHead :=
    { r.request.head.loose with query := ls, headers := r.request.head.headers.map Header.loose }
  have hheaders : (r.request.head.headers.map Header.loose).flatMap LooseHeader.print =
      r.request.head.headers.flatMap Header.print := by
    rw [List.flatMap_map]
    rfl
  have hquery : printQueryPairs (ls.map LooseParam.pair) = printQueryPairs r.pairs := by
    rw [hls]
    unfold pairs
    cases hq : r.query with
    | nil => rfl
    | cons p ps =>
        obtain ⟨kv, kvs, hkvs⟩ := List.exists_cons_of_ne_nil
          (Pair.reading.readPairs_ne_nil (List.cons_ne_nil p ps))
        have htext := Pair.printPairs_readPairs (p :: ps)
        rw [hkvs] at htext ⊢
        rw [printQueryPairs, htext]
        rfl
  have hprint : r.print = head.print ++ r.request.body := by
    unfold print
    rw [Head.print_looseWith, hheaders, hquery]
  have hlength : (head.fill {}).contentLength = r.request.body.length := by
    have hsame : (head.fill {}).headers = (r.request.head.fill {}).headers := by
      rw [← Head.fill_loose]
      rfl
    rw [← r.request.contentLength_fill]
    unfold HttpRequest.contentLength HttpRequest.getHeader
    rw [hsame]
  refine ⟨head.result {} r.request.body, LooseHead.returns_iff.2
    ⟨head, r.request.body, hprint, by rw [hlength], rfl⟩, rfl, ?_⟩
  intro key
  obtain ⟨body, hbody⟩ := head.result_request {} r.request.body
  rw [hbody, ← hls]
  exact Lib.lookup_insertAll_empty key head.paramPairs

/-- **Empty query values.** A query is rejected or stored as it is listed exactly when its last
pair is an unswallowed one with an empty value, or every key is last read as it is last listed. -/
theorem rejectsOrStores_iff (r : QueryRequest) : r.RejectsOrStores ↔
    Pair.reading.EndsEmpty r.query ∨ Pair.reading.LastRead r.query := by
  by_cases hend : Pair.reading.EndsEmpty r.query
  · exact iff_of_true (.inl (r.returns_false_of_endsEmpty hend)) (.inl hend)
  · obtain ⟨ctx', hret, hcomplete, hstored⟩ := r.returns_readPairs hend
    have hsep : ∀ p ∈ r.query, Pair.reading.sep ∉ Pair.reading.value p := by
      intro p _ hamp
      exact (p.value_ok _ hamp).2 rfl
    rw [or_iff_right hend, ← Pair.reading.readPairs_same_iff hend hsep]
    constructor
    · intro h key
      rcases h with ⟨ctx'', hfalse⟩ | ⟨ctx'', htrue, -, hsame⟩
      · exact absurd (hret.unique hfalse).2 (by decide)
      · obtain rfl := (hret.unique htrue).1
        rw [← hstored, hsame]
        rfl
    · intro h
      refine .inr ⟨ctx', hret, hcomplete, fun key => ?_⟩
      rw [hstored, h]
      rfl

def swallowSample : QueryRequest where
  request := .getSample
  query :=
    [⟨ascii "a", [], by decide, List.all_iff_forall_prop.1 rfl, List.forall_mem_nil _⟩,
      ⟨ascii "b", ascii "c", by decide, List.all_iff_forall_prop.1 rfl,
        List.all_iff_forall_prop.1 rfl⟩]

/-- The first value is the rest of the query, and the second key is not stored. -/
theorem not_rejectsOrStores_swallowSample :
    swallowSample.print = ascii "GET /a?a=&b=c HTTP/1.1\r\nHost: x\r\n\r\n" ∧
      ¬ swallowSample.RejectsOrStores ∧
      ∃ ctx', HttpContext.Returns {} swallowSample.print ctx' true ∧ ctx'.isComplete = true ∧
        ctx'.request.params.lookup (ascii "a") = some (ascii "&b=c") ∧
        ctx'.request.params.lookup (ascii "b") = none := by
  have hend : ¬ Pair.reading.EndsEmpty swallowSample.query := fun h => h
  obtain ⟨ctx', hret, hcomplete, hstored⟩ := swallowSample.returns_readPairs hend
  have hfirst : ctx'.request.params.lookup (ascii "a") = some (ascii "&b=c") := by
    rw [hstored]
    decide
  have hsecond : ctx'.request.params.lookup (ascii "b") = none := by
    rw [hstored]
    decide
  refine ⟨by decide, ?_, ctx', hret, hcomplete, hfirst, hsecond⟩
  intro h
  rcases h with ⟨ctx'', hfalse⟩ | ⟨ctx'', htrue, -, hsame⟩
  · exact absurd (hret.unique hfalse).2 (by decide)
  · obtain rfl := (hret.unique htrue).1
    have hlisted : Lib.lastValue (ascii "b") swallowSample.pairs = some (ascii "c") := by decide
    rw [hsame, hlisted] at hsecond
    cases hsecond

end QueryRequest

/-! ## Headers -/

/-- `key : value CRLF` with any blanks around the colon and a value that may be empty. -/
structure Field where
  key : Bytes
  before : Bytes := []
  after : Bytes := []
  value : Bytes := []
  key_ne : key ≠ []
  key_ok : ∀ ch ∈ key, Plain ch ∧ ch ≠ chr ':'
  before_ok : ∀ ch ∈ before, isblank ch = true
  after_ok : ∀ ch ∈ after, isblank ch = true
  value_head : ∀ ch ∈ value.head?, isblank ch = false
  value_ok : ∀ ch ∈ value, ch ≠ CR ∧ ch ≠ LF

namespace Field

def print (f : Field) : Bytes :=
  f.key ++ (f.before ++ chr ':' :: (f.after ++ (f.value ++ [CR, LF])))

def loose (f : Field) (h : f.value ≠ []) : LooseHeader :=
  Header.loose ⟨f.key, f.before, f.after, f.value, f.key_ne, f.key_ok, f.before_ok, f.after_ok, h,
    f.value_head, f.value_ok⟩

/-- A header whose value begins at the CR that ends its line and goes on through `line`. -/
def through (f : Field) (line : Bytes) (h : ∀ ch ∈ line, ch ≠ CR) : LooseHeader where
  key := f.key
  before := f.before
  after := f.after
  value := CR :: LF :: line
  key_head := exists_head_of_ne_nil f.key_ne fun ch hch =>
    have hplain := (f.key_ok ch hch).1
    ⟨hplain.1, hplain.2.1⟩
  key_ok := fun ch hch =>
    have hok := f.key_ok ch (List.mem_of_mem_tail hch)
    ⟨hok.1.1, hok.2⟩
  before_ok := f.before_ok
  after_ok := f.after_ok
  value_head := ⟨CR, rfl, isblank_CR⟩
  value_ok := by
    intro ch hch
    rcases List.mem_cons.1 hch with rfl | hline
    · decide
    · exact h ch hline

def line (f : Field) : Bytes := f.key ++ (f.before ++ chr ':' :: (f.after ++ f.value))

theorem line_ok (f : Field) : ∀ ch ∈ f.line, ch ≠ CR := by
  have hblank {ch : UInt8} (h : isblank ch = true) : ch ≠ CR := by
    intro heq
    rw [heq, isblank_CR] at h
    cases h
  intro ch hch
  rcases List.mem_append.1 hch with hkey | hch
  · exact (f.key_ok ch hkey).1.2.1
  rcases List.mem_append.1 hch with hbefore | hch
  · exact hblank (f.before_ok ch hbefore)
  rcases List.mem_cons.1 hch with rfl | hch
  · decide
  rcases List.mem_append.1 hch with hafter | hvalue
  · exact hblank (f.after_ok ch hafter)
  · exact (f.value_ok ch hvalue).1

def merged (f f' : Field) : LooseHeader := f.through f'.line f'.line_ok

def reading : Lib.Swallowing Field Bytes UInt8 where
  key := key
  value := value
  sep := CR
  swallow := fun f f' => (f.merged f').value
  swallow_head := fun _ _ => rfl

theorem print_merged {f : Field} (hempty : f.value = []) (f' : Field) :
    (f.merged f').print = f.print ++ f'.print := by
  simp [merged, through, line, LooseHeader.print, print, hempty]

/-- Unless the last value runs into the blank line, the headers that are read are headers to the
parser. -/
theorem exists_loose {fs : List Field} (h : ¬ reading.EndsEmpty fs) :
    ∃ hs : List LooseHeader, hs.map LooseHeader.pair = reading.readPairs fs ∧
      hs.flatMap LooseHeader.print = fs.flatMap print := by
  induction fs using Lib.Swallowing.readPairs.induct reading with
  | case1 => exact ⟨[], rfl, rfl⟩
  | case2 f => exact ⟨[f.loose h], rfl, rfl⟩
  | case3 f f' fs hempty ih =>
      rw [Lib.Swallowing.EndsEmpty, if_pos hempty] at h
      obtain ⟨hs, hpairs, hprint⟩ := ih h
      refine ⟨f.merged f' :: hs, ?_, ?_⟩
      · rw [Lib.Swallowing.readPairs, if_pos hempty, List.map_cons, hpairs]
        rfl
      · rw [List.flatMap_cons, List.flatMap_cons, List.flatMap_cons, hprint, print_merged hempty,
          List.append_assoc]
  | case4 f f' fs hvalue ih =>
      rw [Lib.Swallowing.EndsEmpty, if_neg hvalue] at h
      obtain ⟨hs, hpairs, hprint⟩ := ih h
      refine ⟨f.loose hvalue :: hs, ?_, ?_⟩
      · rw [Lib.Swallowing.readPairs, if_neg hvalue, List.map_cons, hpairs]
        rfl
      · rw [List.flatMap_cons, List.flatMap_cons, hprint]
        rfl

/-- Otherwise the blank line ends the last header, and the head goes on. -/
theorem exists_loose_of_endsEmpty {fs : List Field} (h : reading.EndsEmpty fs) :
    ∃ hs : List LooseHeader, hs.flatMap LooseHeader.print = fs.flatMap print ++ [CR, LF] := by
  induction fs using Lib.Swallowing.readPairs.induct reading with
  | case1 => cases h
  | case2 f =>
      have hempty : f.value = [] := h
      refine ⟨[f.through [] (List.forall_mem_nil _)], ?_⟩
      simp [through, LooseHeader.print, print, hempty]
  | case3 f f' fs hempty ih =>
      rw [Lib.Swallowing.EndsEmpty, if_pos hempty] at h
      obtain ⟨hs, hprint⟩ := ih h
      refine ⟨f.merged f' :: hs, ?_⟩
      rw [List.flatMap_cons, List.flatMap_cons, List.flatMap_cons, hprint, print_merged hempty]
      simp
  | case4 f f' fs hvalue ih =>
      rw [Lib.Swallowing.EndsEmpty, if_neg hvalue] at h
      obtain ⟨hs, hprint⟩ := ih h
      refine ⟨f.loose hvalue :: hs, ?_⟩
      rw [List.flatMap_cons, List.flatMap_cons, hprint, List.append_assoc]
      rfl

end Field

/-- The headers of a well-formed head are replaced by `fields`, which frame the body. -/
structure FieldRequest where
  head : Head
  fields : List Field
  body : Bytes := []
  framed : match Lib.lastValue (ascii "Content-Length") (fields.map Field.reading.pair) with
    | some value => (∀ ch ∈ value, isdigit ch = true) ∧ decimal value = body.length
    | none => body = []
  small : body.length < 2 ^ 31

namespace FieldRequest

def pairs (r : FieldRequest) : List (Bytes × Bytes) := r.fields.map Field.reading.pair

def print (r : FieldRequest) : Bytes :=
  r.head.printWith (printQueryPairs r.head.paramPairs) (r.fields.flatMap Field.print) ++ r.body

/-- The call completes with the headers that were written, of which the last one of a key counts,
and with the body. -/
def Stores (r : FieldRequest) : Prop :=
  ∃ ctx', HttpContext.Returns {} r.print ctx' true ∧ ctx'.isComplete = true ∧
    (∀ key, ctx'.request.headers.lookup key = Lib.lastValue key r.pairs) ∧
    ctx'.request.body = r.body

def readHead (r : FieldRequest) (hs : List LooseHeader) : LooseHead :=
  { r.head.loose with query := r.head.query.map Param.loose, headers := hs }

theorem print_readHead (r : FieldRequest) {hs : List LooseHeader}
    (h : hs.flatMap LooseHeader.print = r.fields.flatMap Field.print) :
    r.print = (r.readHead hs).print ++ r.body := by
  have hpairs : (r.head.query.map Param.loose).map LooseParam.pair = r.head.paramPairs :=
    r.head.paramPairs_loose
  unfold print readHead
  rw [Head.print_looseWith, h, hpairs]

theorem lookup_readHead (r : FieldRequest) {hs : List LooseHeader}
    (h : hs.map LooseHeader.pair = Field.reading.readPairs r.fields) (body key : Bytes) :
    ((r.readHead hs).result {} body).request.headers.lookup key =
      Lib.lastValue key (Field.reading.readPairs r.fields) := by
  obtain ⟨b, hb⟩ := (r.readHead hs).result_request {} body
  rw [hb, ← h]
  exact Lib.lookup_insertAll_empty key _

theorem contentLength_readHead (r : FieldRequest) {hs : List LooseHeader}
    (h : ∀ key, Lib.lastValue key (hs.map LooseHeader.pair) = Lib.lastValue key r.pairs) :
    ((r.readHead hs).fill {}).contentLength = r.body.length := by
  have hlook : ((r.readHead hs).fill {}).headers.lookup (ascii "Content-Length") =
      Lib.lastValue (ascii "Content-Length") r.pairs :=
    (Lib.lookup_insertAll_empty _ (hs.map LooseHeader.pair)).trans (h _)
  have hframed := r.framed
  unfold HttpRequest.contentLength HttpRequest.getHeader
  rw [hlook]
  unfold pairs
  cases hv : Lib.lastValue (ascii "Content-Length") (r.fields.map Field.reading.pair) with
  | none =>
      rw [hv] at hframed
      rw [hframed]
      rfl
  | some value =>
      rw [hv] at hframed
      obtain ⟨hdigits, hvalue⟩ := hframed
      have hsmall := r.small
      rw [Option.getD_some, atoi_digits hdigits (by rw [hvalue]; omega), hvalue]

/-- With the last value empty the blank line is read as a part of it, so that the head takes bytes
of the body or does not end. -/
theorem not_stores_of_endsEmpty (r : FieldRequest) (h : Field.reading.EndsEmpty r.fields) :
    ¬ r.Stores := by
  intro hstores
  obtain ⟨ctx', hret, -, -, hbody⟩ := hstores
  obtain ⟨hs, hprint⟩ := Field.exists_loose_of_endsEmpty h
  have htext : r.print = (r.readHead hs).lines ++ r.body := by
    have hpairs : (r.head.query.map Param.loose).map LooseParam.pair = r.head.paramPairs :=
      r.head.paramPairs_loose
    unfold print readHead Head.printWith
    rw [Head.lines_looseWith, hprint, hpairs]
    simp
  obtain ⟨s, rest, hscan, hs'⟩ :=
    HttpContext.exists_scan_of_returns (HttpContext.start_not_done {}) hret
  have hout := (HttpContext.returns_iff_outcome.1 hret).1
  rw [HttpContext.outcome_of_not_done (HttpContext.start_not_done {}), hscan] at hout
  have hempty : s.request.body = [] := by
    have hkept := scan_request_body (Scan.init {}) r.print
    rw [hscan] at hkept
    exact hkept
  -- the scan has not ended in front of the body
  obtain ⟨key, vers, hlines⟩ := (r.readHead hs).scan_lines {} r.body
  have hrest : (Scan.mk .crlf ((r.readHead hs).fill {}) [LF] key vers).scan r.body = (s, rest) := by
    rw [← hlines, ← htext]
    exact hscan
  obtain ⟨before, last, ch, hsplit, -⟩ :=
    scan_last (show ¬ State.crlf.Done by decide) (State.done_of_recognised hs') hrest
  rcases hs' with hs' | hs'
  · simp only [HttpContext.headOutcome, hs'] at hout
    split_ifs at hout
    obtain rfl := Outcome.returned.inj hout
    have hlength := congrArg List.length hbody
    rw [hsplit] at hlength
    simp [HttpRequest.setBody] at hlength
    omega
  · simp only [HttpContext.headOutcome, hs'] at hout
    obtain rfl := Outcome.returned.inj hout
    rw [hempty, hsplit] at hbody
    simp at hbody

/-- **Empty header values.** The headers are stored as they are written exactly when the blank line
is not read as a value and every key is last read as it is last written. -/
theorem stores_iff (r : FieldRequest) : r.Stores ↔
    ¬ Field.reading.EndsEmpty r.fields ∧ Field.reading.LastRead r.fields := by
  by_cases hend : Field.reading.EndsEmpty r.fields
  · exact iff_of_false (r.not_stores_of_endsEmpty hend) fun h => h.1 hend
  · obtain ⟨hs, hpairs, hprint⟩ := Field.exists_loose hend
    have hsep : ∀ f ∈ r.fields, Field.reading.sep ∉ Field.reading.value f := by
      intro f _ hcr
      exact (f.value_ok _ hcr).1 rfl
    have hlook := r.lookup_readHead hpairs r.body
    have htext := r.print_readHead hprint
    rw [and_iff_right hend, ← Field.reading.readPairs_same_iff hend hsep]
    constructor
    · intro hstores key
      obtain ⟨ctx', hret, -, hheaders, -⟩ := hstores
      rw [htext] at hret
      have hresult : ctx' = (r.readHead hs).result {} r.body := LooseHead.eq_result hret
      rw [← hlook, ← hresult, hheaders]
      rfl
    · intro hsame
      have hread : ∀ key, Lib.lastValue key (hs.map LooseHeader.pair) =
          Lib.lastValue key r.pairs := by
        intro key
        rw [hpairs]
        exact hsame key
      have hlength := r.contentLength_readHead hread
      refine ⟨(r.readHead hs).result {} r.body, LooseHead.returns_iff.2
        ⟨r.readHead hs, r.body, htext, by rw [hlength], rfl⟩, rfl, ?_, ?_⟩
      · intro key
        rw [hlook]
        exact hsame key
      · unfold LooseHead.result
        split_ifs with hnone
        · -- an announced empty body is not stored, and there is none
          have hzero := hnone.2
          rw [hlength] at hzero
          have hnil : r.body = [] := List.length_eq_zero_iff.1 (by omega)
          rw [hnil]
          rfl
        · rfl

theorem no_blanks : ∀ ch ∈ ([] : Bytes), isblank ch = true := List.forall_mem_nil _

def acceptSample : FieldRequest where
  head := Request.getSample.head
  fields :=
    [{ key := ascii "X"
       key_ne := by decide
       key_ok := List.all_iff_forall_prop.1 rfl
       before_ok := no_blanks
       after_ok := no_blanks
       value_head := fun _ hch => by cases hch
       value_ok := List.forall_mem_nil _ },
     { key := ascii "Accept"
       value := ascii "y"
       key_ne := by decide
       key_ok := List.all_iff_forall_prop.1 rfl
       before_ok := no_blanks
       after_ok := no_blanks
       value_head := fun _ hch => Option.some.inj hch ▸ rfl
       value_ok := List.all_iff_forall_prop.1 rfl }]
  body := Request.getSample.body
  framed := Request.getSample.framed
  small := by decide

/-- The second header is the value of the first. -/
theorem not_stores_acceptSample :
    acceptSample.print = ascii "GET /a?k=v HTTP/1.1\r\nX:\r\nAccept:y\r\n\r\n" ∧ ¬ acceptSample.Stores ∧
      ∃ ctx', HttpContext.Returns {} acceptSample.print ctx' true ∧ ctx'.isComplete = true ∧
        ctx'.request.headers.lookup (ascii "X") = some (ascii "\r\nAccept:y") ∧
        ctx'.request.headers.lookup (ascii "Accept") = none := by
  have hread : ¬ Field.reading.EndsEmpty acceptSample.fields := fun h => h
  obtain ⟨hs, hpairs, hprint⟩ := Field.exists_loose hread
  have hlook := acceptSample.lookup_readHead hpairs []
  have hlength : ((acceptSample.readHead hs).fill {}).contentLength = 0 := by
    apply HttpRequest.contentLength_of_not_count
    have hnone : ((acceptSample.readHead hs).fill {}).headers.lookup (ascii "Content-Length") =
        none := by
      refine (Lib.lookup_insertAll_empty _ (hs.map LooseHeader.pair)).trans ?_
      rw [hpairs]
      decide
    rw [HttpRequest.countHeader, hnone]
    rfl
  have hret : HttpContext.Returns {} acceptSample.print ((acceptSample.readHead hs).result {} []) true :=
    LooseHead.returns_iff.2 ⟨acceptSample.readHead hs, [], acceptSample.print_readHead hprint,
      by rw [hlength]; rfl, rfl⟩
  have hfirst := (hlook (ascii "X")).trans (show _ = some (ascii "\r\nAccept:y") by decide)
  have hsecond := (hlook (ascii "Accept")).trans (show _ = none by decide)
  refine ⟨by decide, ?_, _, hret, rfl, hfirst, hsecond⟩
  intro h
  obtain ⟨ctx', hret', -, hheaders, -⟩ := h
  obtain rfl := (hret.unique hret').1
  have hwritten : Lib.lastValue (ascii "Accept") acceptSample.pairs = some (ascii "y") := by decide
  rw [hheaders, hwritten] at hsecond
  cases hsecond

end FieldRequest

end CPlusServer

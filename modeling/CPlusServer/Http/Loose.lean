import CPlusServer.Http.Grammar

/-!
# What the parser takes for a head

Every state looks for its own delimiters and takes any other byte. A `LooseHead`
is a text cut at exactly these delimiters, so it can have line ends in a URL and
blanks in a protocol. The well-formed heads are among them.
-/

namespace CPlusServer

/-- `key=value`. Only the first byte of a key and of a value has to be plain, and it may be a
delimiter. -/
structure LooseParam where
  key : Bytes
  value : Bytes
  key_head : ∃ ch ∈ key.head?, Plain ch
  key_ok : ∀ ch ∈ key.tail, ch ≠ chr '='
  value_head : ∃ ch ∈ value.head?, Plain ch
  value_ok : ∀ ch ∈ value.tail, isblank ch = false ∧ ch ≠ chr '&'

/-- A header up to its CRLF. The value begins at any byte but a blank, even at a CR. -/
structure LooseHeader where
  key : Bytes
  before : Bytes
  after : Bytes
  value : Bytes
  key_head : ∃ ch ∈ key.head?, isblank ch = false ∧ ch ≠ CR
  key_ok : ∀ ch ∈ key.tail, isblank ch = false ∧ ch ≠ chr ':'
  before_ok : ∀ ch ∈ before, isblank ch = true
  after_ok : ∀ ch ∈ after, isblank ch = true
  value_head : ∃ ch ∈ value.head?, isblank ch = false
  value_ok : ∀ ch ∈ value.tail, ch ≠ CR

structure VersionPart where
  text : Bytes
  head : ∃ ch ∈ text.head?, isdigit ch = true
  ok : ∀ ch ∈ text.tail, ch ≠ CR ∧ ch ≠ chr '.'

structure LooseHead where
  junk : Bytes
  method : Bytes
  blank₁ : UInt8
  gap : Bytes
  path : Bytes
  query : List LooseParam
  blank₂ : UInt8
  skip : Bytes
  protocol : Bytes
  major : VersionPart
  minors : List VersionPart
  headers : List LooseHeader
  stop : Bytes
  junk_ok : ∀ ch ∈ junk, isupper ch = false
  method_head : ∃ ch ∈ method.head?, isupper ch = true
  method_ok : ∀ ch ∈ method.tail, isblank ch = false
  blank₁_ok : isblank blank₁ = true
  gap_ok : ∀ ch ∈ gap, ch ≠ chr '/'
  path_head : path.head? = some (chr '/')
  path_ok : ∀ ch ∈ path.tail, isblank ch = false ∧ ch ≠ chr '?'
  blank₂_ok : isblank blank₂ = true
  skip_ok : ∀ ch ∈ skip, isalpha ch = false
  protocol_head : ∃ ch ∈ protocol.head?, isalpha ch = true
  protocol_ok : ∀ ch ∈ protocol.tail, ch ≠ chr '/'
  stop_ok : ∀ ch ∈ stop, ch ≠ LF

/-! ## The text -/

def printPairs : List (Bytes × Bytes) → Bytes
  | [] => []
  | [kv] => kv.1 ++ chr '=' :: kv.2
  | kv :: kvs => kv.1 ++ chr '=' :: kv.2 ++ chr '&' :: printPairs kvs

def printQueryPairs : List (Bytes × Bytes) → Bytes
  | [] => []
  | kv :: kvs => chr '?' :: printPairs (kv :: kvs)

def LooseParam.pair (p : LooseParam) : Bytes × Bytes := (p.key, p.value)
def LooseHeader.pair (h : LooseHeader) : Bytes × Bytes := (h.key, h.value)

def LooseHeader.print (h : LooseHeader) : Bytes :=
  h.key ++ (h.before ++ chr ':' :: (h.after ++ (h.value ++ [CR, LF])))

def VersionPart.behindPoint (p : VersionPart) : Bytes := chr '.' :: p.text

namespace LooseHead

def version (h : LooseHead) : Bytes := h.major.text ++ h.minors.flatMap VersionPart.behindPoint

def paramPairs (h : LooseHead) : List (Bytes × Bytes) := h.query.map LooseParam.pair
def headerPairs (h : LooseHead) : List (Bytes × Bytes) := h.headers.map LooseHeader.pair

def print (h : LooseHead) : Bytes :=
  h.junk ++ (h.method ++ h.blank₁ :: (h.gap ++ (h.path ++ (printQueryPairs h.paramPairs ++
    h.blank₂ :: (h.skip ++ (h.protocol ++ chr '/' :: (h.version ++ CR :: LF ::
      (h.headers.flatMap LooseHeader.print ++ CR :: (h.stop ++ [LF])))))))))

/-- The request line and the headers, without the blank line. -/
def lines (h : LooseHead) : Bytes :=
  h.junk ++ (h.method ++ h.blank₁ :: (h.gap ++ (h.path ++ (printQueryPairs h.paramPairs ++
    h.blank₂ :: (h.skip ++ (h.protocol ++ chr '/' :: (h.version ++ CR :: LF ::
      h.headers.flatMap LooseHeader.print)))))))

theorem print_eq (h : LooseHead) : h.print = h.lines ++ CR :: (h.stop ++ [LF]) := by
  simp [print, lines]

def fill (h : LooseHead) (q : HttpRequest) : HttpRequest where
  method := HttpRequest.methodOf (h.junk ++ h.method)
  url := h.path
  protocol := h.protocol
  version := if h.version = ascii "1.1" then .http11 else .invaildVersion
  params := Lib.insertAll q.params h.paramPairs
  headers := Lib.insertAll q.headers h.headerPairs
  body := q.body

end LooseHead

/-! ## Tokens of a first byte and others -/

theorem mem_head_or_tail {α : Type} {l : List α} {a : α} (h : a ∈ l) : a ∈ l.head? ∨ a ∈ l.tail := by
  cases l with
  | nil => cases h
  | cons b l =>
      rcases List.mem_cons.1 h with rfl | h
      · exact .inl rfl
      · exact .inr h

/-- What holds of the first byte and of the others. -/
theorem forall_of_head_tail {l : Bytes} {P : UInt8 → Prop} (hhead : ∃ ch ∈ l.head?, P ch)
    (htail : ∀ ch ∈ l.tail, P ch) : ∀ ch ∈ l, P ch := by
  intro ch hch
  rcases mem_head_or_tail hch with hfirst | hrest
  · obtain ⟨c, hc, hp⟩ := hhead
    rw [Option.mem_unique hfirst hc]
    exact hp
  · exact htail ch hrest

theorem LooseHead.path_nonblank (h : LooseHead) : ∀ ch ∈ h.path, isblank ch = false :=
  forall_of_head_tail ⟨_, h.path_head, isblank_marks.1⟩ fun ch hch => (h.path_ok ch hch).1

/-! ## Well-formed heads -/

theorem exists_head_of_ne_nil {α : Type} {l : List α} {P : α → Prop} (hne : l ≠ [])
    (h : ∀ a ∈ l, P a) : ∃ a ∈ l.head?, P a := by
  cases l with
  | nil => exact absurd rfl hne
  | cons a l => exact ⟨a, rfl, h a List.mem_cons_self⟩

def Param.loose (p : Param) : LooseParam where
  key := p.key
  value := p.value
  key_head := exists_head_of_ne_nil p.key_ne fun ch hch => (p.key_ok ch hch).1
  key_ok := fun ch hch => (p.key_ok ch (List.mem_of_mem_tail hch)).2.1
  value_head := exists_head_of_ne_nil p.value_ne fun ch hch => (p.value_ok ch hch).1
  value_ok := fun ch hch =>
    have h := p.value_ok ch (List.mem_of_mem_tail hch)
    ⟨h.1.1, h.2⟩

def Header.loose (h : Header) : LooseHeader where
  key := h.key
  before := h.before
  after := h.after
  value := h.value
  key_head := exists_head_of_ne_nil h.key_ne fun ch hch =>
    have hplain := (h.key_ok ch hch).1
    ⟨hplain.1, hplain.2.1⟩
  key_ok := fun ch hch =>
    have hok := h.key_ok ch (List.mem_of_mem_tail hch)
    ⟨hok.1.1, hok.2⟩
  before_ok := h.before_ok
  after_ok := h.after_ok
  value_head := by
    obtain ⟨ch, hch, -⟩ := exists_head_of_ne_nil h.value_ne fun _ _ => trivial
    exact ⟨ch, hch, h.value_head ch hch⟩
  value_ok := fun ch hch => (h.value_ok ch (List.mem_of_mem_tail hch)).1

def VersionPart.digit (ch : UInt8) (h : isdigit ch = true) : VersionPart where
  text := [ch]
  head := ⟨ch, rfl, h⟩
  ok := List.forall_mem_nil _

namespace Head

def loose (h : Head) : LooseHead where
  junk := []
  method := h.method
  blank₁ := h.gap₁.head h.gap₁_ne
  gap := h.gap₁.tail
  path := h.path
  query := h.query.map Param.loose
  blank₂ := h.gap₂.head h.gap₂_ne
  skip := h.gap₂.tail
  protocol := h.protocol
  major := .digit (chr '1') rfl
  minors := [.digit (chr '1') rfl]
  headers := h.headers.map Header.loose
  stop := []
  junk_ok := List.forall_mem_nil _
  method_head := h.method_head
  method_ok := fun ch hch => h.method_ok ch (List.mem_of_mem_tail hch)
  blank₁_ok := h.gap₁_ok _ (List.head_mem _)
  gap_ok := fun ch hch heq => by
    have hblank := h.gap₁_ok ch (List.mem_of_mem_tail hch)
    rw [heq] at hblank
    revert hblank
    decide
  path_head := h.path_head
  path_ok := fun ch hch =>
    have hok := h.path_ok ch (List.mem_of_mem_tail hch)
    ⟨hok.1.1, hok.2⟩
  blank₂_ok := h.gap₂_ok _ (List.head_mem _)
  skip_ok := fun ch hch => isalpha_of_isblank (h.gap₂_ok ch (List.mem_of_mem_tail hch))
  protocol_head := h.protocol_head
  protocol_ok := fun ch hch => (h.protocol_ok ch (List.mem_of_mem_tail hch)).1
  stop_ok := List.forall_mem_nil _

theorem paramPairs_loose (h : Head) : h.loose.paramPairs = h.paramPairs := by
  show (h.query.map Param.loose).map LooseParam.pair = h.query.map Param.pair
  rw [List.map_map]
  rfl

theorem headerPairs_loose (h : Head) : h.loose.headerPairs = h.headerPairs := by
  show (h.headers.map Header.loose).map LooseHeader.pair = h.headers.map Header.pair
  rw [List.map_map]
  rfl

theorem printParams_eq (ps : List Param) : printParams ps = printPairs (ps.map Param.pair) := by
  induction ps with
  | nil => rfl
  | cons p ps ih =>
      cases ps with
      | nil => rfl
      | cons p' ps =>
          rw [printParams, ih]
          · rfl
          · simp

theorem printQuery_eq (ps : List Param) : printQuery ps = printQueryPairs (ps.map Param.pair) := by
  cases ps with
  | nil => rfl
  | cons p ps =>
      rw [printQuery, printParams_eq]
      rfl

def printWith (h : Head) (query headers : Bytes) : Bytes :=
  h.method ++ (h.gap₁ ++ (h.path ++ (query ++ (h.gap₂ ++ (h.protocol ++
    (ascii "/1.1\r\n" ++ (headers ++ [CR, LF])))))))

theorem lines_looseWith (h : Head) (query : List LooseParam) (headers : List LooseHeader)
    (rest : Bytes) :
    { h.loose with query := query, headers := headers }.lines ++ rest =
      h.method ++ (h.gap₁ ++ (h.path ++ (printQueryPairs (query.map LooseParam.pair) ++ (h.gap₂ ++
        (h.protocol ++ (ascii "/1.1\r\n" ++ (headers.flatMap LooseHeader.print ++ rest))))))) := by
  have hversion : ascii "/1.1\r\n" = [chr '/', chr '1', chr '.', chr '1', CR, LF] := by decide
  obtain ⟨b₁, gap, hgap⟩ := List.exists_cons_of_ne_nil h.gap₁_ne
  obtain ⟨b₂, skip, hskip⟩ := List.exists_cons_of_ne_nil h.gap₂_ne
  unfold LooseHead.lines
  rw [hversion]
  simp [loose, LooseHead.version, LooseHead.paramPairs, VersionPart.digit,
    VersionPart.behindPoint, hgap, hskip]

theorem print_looseWith (h : Head) (query : List LooseParam) (headers : List LooseHeader) :
    { h.loose with query := query, headers := headers }.print =
      h.printWith (printQueryPairs (query.map LooseParam.pair))
        (headers.flatMap LooseHeader.print) := by
  rw [LooseHead.print_eq]
  exact h.lines_looseWith query headers [CR, LF]

theorem print_loose (h : Head) : h.loose.print = h.print := by
  have hheaders : (h.headers.map Header.loose).flatMap LooseHeader.print =
      h.headers.flatMap Header.print := by
    rw [List.flatMap_map]
    rfl
  have hprint := h.print_looseWith (h.query.map Param.loose) (h.headers.map Header.loose)
  have hpairs : (h.query.map Param.loose).map LooseParam.pair = h.query.map Param.pair :=
    h.paramPairs_loose
  rw [hheaders, hpairs, ← printQuery_eq] at hprint
  exact hprint

theorem fill_loose (h : Head) (q : HttpRequest) : h.loose.fill q = h.fill q := by
  have hversion : h.loose.version = ascii "1.1" := by
    show [chr '1'] ++ [chr '.', chr '1'] = ascii "1.1"
    decide
  unfold LooseHead.fill Head.fill
  rw [paramPairs_loose, headerPairs_loose, if_pos hversion]
  rfl

end Head

end CPlusServer

import CPlusServer.Http.Request
import CPlusServer.Lib.Assoc
import Mathlib.Data.Bool.AllAny

/-!
# Well-formed requests

The requests a conforming HTTP/1.1 client writes, as values that cannot be built
ill formed, and the bytes they are written as.
-/

namespace CPlusServer

/-- A byte that ends no token of the request line: neither blank nor line end. -/
def Plain (ch : UInt8) : Prop := isblank ch = false ∧ ch ≠ CR ∧ ch ≠ LF

instance (ch : UInt8) : Decidable (Plain ch) :=
  inferInstanceAs (Decidable (isblank ch = false ∧ ch ≠ CR ∧ ch ≠ LF))

structure Param where
  key : Bytes
  value : Bytes
  key_ne : key ≠ []
  key_ok : ∀ ch ∈ key, Plain ch ∧ ch ≠ chr '=' ∧ ch ≠ chr '&'
  value_ne : value ≠ []
  value_ok : ∀ ch ∈ value, Plain ch ∧ ch ≠ chr '&'

/-- `key : value CRLF` with any blanks around the colon. -/
structure Header where
  key : Bytes
  before : Bytes := []
  after : Bytes := []
  value : Bytes
  key_ne : key ≠ []
  key_ok : ∀ ch ∈ key, Plain ch ∧ ch ≠ chr ':'
  before_ok : ∀ ch ∈ before, isblank ch = true
  after_ok : ∀ ch ∈ after, isblank ch = true
  value_ne : value ≠ []
  value_head : ∀ ch ∈ value.head?, isblank ch = false
  value_ok : ∀ ch ∈ value, ch ≠ CR ∧ ch ≠ LF

/-- The request line and the headers. An empty `query` stands for none. -/
structure Head where
  method : Bytes
  gap₁ : Bytes
  path : Bytes
  query : List Param := []
  gap₂ : Bytes
  protocol : Bytes
  headers : List Header
  method_head : ∃ ch ∈ method.head?, isupper ch = true
  method_ok : ∀ ch ∈ method, isblank ch = false
  gap₁_ne : gap₁ ≠ []
  gap₁_ok : ∀ ch ∈ gap₁, isblank ch = true
  path_head : path.head? = some (chr '/')
  path_ok : ∀ ch ∈ path, Plain ch ∧ ch ≠ chr '?'
  gap₂_ne : gap₂ ≠ []
  gap₂_ok : ∀ ch ∈ gap₂, isblank ch = true
  protocol_head : ∃ ch ∈ protocol.head?, isalpha ch = true
  protocol_ok : ∀ ch ∈ protocol, ch ≠ chr '/' ∧ ch ≠ CR ∧ ch ≠ LF

/-! ## The written form -/

def Param.print (p : Param) : Bytes := p.key ++ chr '=' :: p.value

def Header.print (h : Header) : Bytes :=
  h.key ++ (h.before ++ chr ':' :: (h.after ++ (h.value ++ [CR, LF])))

def printParams : List Param → Bytes
  | [] => []
  | [p] => p.print
  | p :: ps => p.print ++ chr '&' :: printParams ps

def printQuery : List Param → Bytes
  | [] => []
  | p :: ps => chr '?' :: printParams (p :: ps)

def Head.print (h : Head) : Bytes :=
  h.method ++ (h.gap₁ ++ (h.path ++ (printQuery h.query ++ (h.gap₂ ++ (h.protocol ++
    (ascii "/1.1\r\n" ++ (h.headers.flatMap Header.print ++ [CR, LF])))))))

/-! ## The usual spacing -/

theorem blank_ok : ∀ ch ∈ ascii " ", isblank ch = true := List.all_iff_forall_prop.1 rfl

def Header.plain (key value : Bytes) (key_ne : key ≠ [])
    (key_ok : ∀ ch ∈ key, Plain ch ∧ ch ≠ chr ':') (value_ne : value ≠ [])
    (value_head : ∀ ch ∈ value.head?, isblank ch = false)
    (value_ok : ∀ ch ∈ value, ch ≠ CR ∧ ch ≠ LF) : Header where
  key := key
  after := ascii " "
  value := value
  key_ne := key_ne
  key_ok := key_ok
  before_ok := List.forall_mem_nil _
  after_ok := blank_ok
  value_ne := value_ne
  value_head := value_head
  value_ok := value_ok

def Head.plain (method path : Bytes) (query : List Param) (headers : List Header)
    (method_head : ∃ ch ∈ method.head?, isupper ch = true)
    (method_ok : ∀ ch ∈ method, isblank ch = false) (path_head : path.head? = some (chr '/'))
    (path_ok : ∀ ch ∈ path, Plain ch ∧ ch ≠ chr '?') : Head where
  method := method
  gap₁ := ascii " "
  path := path
  query := query
  gap₂ := ascii " "
  protocol := ascii "HTTP"
  headers := headers
  method_head := method_head
  method_ok := method_ok
  gap₁_ne := by decide
  gap₁_ok := blank_ok
  path_head := path_head
  path_ok := path_ok
  gap₂_ne := by decide
  gap₂_ok := blank_ok
  protocol_head := ⟨chr 'H', rfl, rfl⟩
  protocol_ok := List.all_iff_forall_prop.1 rfl

/-! ## What a request stands for -/

def Param.pair (p : Param) : Bytes × Bytes := (p.key, p.value)
def Header.pair (h : Header) : Bytes × Bytes := (h.key, h.value)

namespace Head

def paramPairs (h : Head) : List (Bytes × Bytes) := h.query.map Param.pair
def headerPairs (h : Head) : List (Bytes × Bytes) := h.headers.map Header.pair

/-- The value of the last Content-Length header. -/
def contentLength? (h : Head) : Option Bytes :=
  Lib.lastValue (ascii "Content-Length") h.headerPairs

def fill (h : Head) (q : HttpRequest) : HttpRequest where
  method := HttpRequest.methodOf h.method
  url := h.path
  protocol := h.protocol
  version := .http11
  params := Lib.insertAll q.params h.paramPairs
  headers := Lib.insertAll q.headers h.headerPairs
  body := q.body

end Head

/-- A head with the body it announces: as many bytes as the last Content-Length says, or none. -/
structure Request where
  head : Head
  body : Bytes := []
  framed : match head.contentLength? with
    | some value => (∀ ch ∈ value, isdigit ch = true) ∧ decimal value = body.length
    | none => body = []
  small : head.print.length + body.length < 2 ^ 31

namespace Request

def print (r : Request) : Bytes := r.head.print ++ r.body

def value (r : Request) : HttpRequest := { r.head.fill {} with body := r.body }

end Request

/-! ## Content-Length of a filled request -/

theorem Head.lookup_fill (h : Head) (q : HttpRequest) (key : Bytes) :
    (h.fill q).headers.lookup key =
      (Lib.lastValue key h.headerPairs).or (q.headers.lookup key) :=
  Lib.lookup_insertAll key q.headers h.headerPairs

theorem Request.contentLength_some (r : Request) {value : Bytes}
    (hv : r.head.contentLength? = some value) (q : HttpRequest) :
    (r.head.fill q).countHeader (ascii "Content-Length") = true ∧
      (r.head.fill q).contentLength = r.body.length := by
  have hframed := r.framed
  rw [hv] at hframed
  have hlook : (r.head.fill q).headers.lookup (ascii "Content-Length") = some value := by
    rw [Head.lookup_fill]
    show (r.head.contentLength?).or _ = _
    rw [hv]
    rfl
  refine ⟨by simp [HttpRequest.countHeader, hlook], ?_⟩
  have hsmall := r.small
  rw [HttpRequest.contentLength, HttpRequest.getHeader, hlook, Option.getD_some,
    atoi_digits hframed.1 (by rw [hframed.2]; omega), hframed.2]

theorem Request.contentLength_none (r : Request) (hv : r.head.contentLength? = none)
    (q : HttpRequest) :
    (r.head.fill q).headers.lookup (ascii "Content-Length") =
      q.headers.lookup (ascii "Content-Length") := by
  rw [Head.lookup_fill]
  show (r.head.contentLength?).or _ = _
  rw [hv]
  rfl

/-- In a fresh object the Content-Length is the length of the body, announced or not. -/
theorem Request.contentLength_fill (r : Request) :
    (r.head.fill {}).contentLength = r.body.length := by
  cases hv : r.head.contentLength? with
  | some value => exact (r.contentLength_some hv {}).2
  | none =>
      have hbody : r.body = [] := by
        have hframed := r.framed
        rw [hv] at hframed
        exact hframed
      have hnone := r.contentLength_none hv {}
      have hcount : (r.head.fill {}).countHeader (ascii "Content-Length") = false := by
        rw [HttpRequest.countHeader, hnone]
        rfl
      rw [HttpRequest.contentLength_of_not_count hcount, hbody]
      rfl

end CPlusServer

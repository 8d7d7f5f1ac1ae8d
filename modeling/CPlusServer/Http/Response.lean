import CPlusServer.Http.Request
import CPlusServer.Lib.Assoc
import CPlusServer.Lib.Delimited
import Mathlib.Data.Bool.AllAny

/-!
# HttpResponse

The response object and the text it is sent as. The order in which an
`unordered_map` is gone through is not specified, so it is an argument.
-/

namespace CPlusServer

inductive HttpStatusCode
  | kUnkonwn | k100CONTINUE | k200K | k301K | k302K | k303K | k400BADREQUEST | k403FORBIDDEN
  | k404NOTFOUND | k500INTERNALSERVERERROR
  deriving DecidableEq, Repr

def HttpStatusCode.value : HttpStatusCode → Nat
  | .kUnkonwn => 1
  | .k100CONTINUE => 100
  | .k200K => 200
  | .k301K => 301
  | .k302K => 302
  | .k303K => 303
  | .k400BADREQUEST => 400
  | .k403FORBIDDEN => 403
  | .k404NOTFOUND => 404
  | .k500INTERNALSERVERERROR => 500

structure HttpResponse where
  close : Bool
  statusCode : HttpStatusCode := .k100CONTINUE
  statusMessage : Bytes := []
  header : StringMap := ∅
  body : Bytes := []
  bodyType : Bytes := ascii "HTML_TYPE"
  contentLength : Int := 0
  fileId : Int := -1
  deriving DecidableEq

namespace HttpResponse

def setStatusCode (r : HttpResponse) (code : HttpStatusCode) : HttpResponse :=
  { r with statusCode := code }
def setStatusMessage (r : HttpResponse) (message : Bytes) : HttpResponse :=
  { r with statusMessage := message }
def addHeader (r : HttpResponse) (key value : Bytes) : HttpResponse :=
  { r with header := r.header.insert key value }
def setContentType (r : HttpResponse) (type : Bytes) : HttpResponse :=
  r.addHeader (ascii "Content-Type") type
def setContentLength (r : HttpResponse) (length : Int) : HttpResponse :=
  { r with contentLength := length }
def setBodyType (r : HttpResponse) (type : Bytes) : HttpResponse := { r with bodyType := type }
def setResponseBody (r : HttpResponse) (body : Bytes) : HttpResponse := { r with body := body }
def setClose (r : HttpResponse) : HttpResponse := { r with close := true }
def setFileId (r : HttpResponse) (fd : Int) : HttpResponse := { r with fileId := fd }

/-- `order` is the order in which the loop over `header_` finds its entries. -/
def getPreBody (r : HttpResponse) (order : List (Bytes × Bytes)) : Bytes :=
  ascii "HTTP/1.1 " ++ stdToString r.statusCode.value ++ ascii " " ++ r.statusMessage ++
    ascii "\r\n" ++
    (if r.close then ascii "Connection:close\r\n"
      else ascii "Connection:keep-alive\r\n" ++ ascii "Content-Length: " ++
        stdToString r.body.length ++ ascii "\r\n") ++
    order.flatMap (fun kv => kv.1 ++ ascii ": " ++ kv.2 ++ ascii "\r\n") ++
    ascii "Cache-Control: no-store, no-cache, must-revalidate\r\n" ++ ascii "\r\n"

def getResponse (r : HttpResponse) (order : List (Bytes × Bytes)) : Bytes :=
  r.getPreBody order ++ r.body

/-- What `OnHttpReponse` passes to its first `Send`. -/
def sent (r : HttpResponse) (order : List (Bytes × Bytes)) : Bytes :=
  if r.bodyType = ascii "HTML_TYPE" then r.getResponse order else r.getPreBody order

end HttpResponse

/-- `order` goes through the entries of `m`, each once. -/
structure Iterates (m : StringMap) (order : List (Bytes × Bytes)) : Prop where
  nodup : (order.map Prod.fst).Nodup
  entries : ∀ k v, (k, v) ∈ order ↔ m.lookup k = some v

theorem Iterates.insertAll {m : StringMap} {order : List (Bytes × Bytes)} (h : Iterates m order) :
    Lib.insertAll ∅ order = m :=
  Lib.insertAll_empty_of_entries h.nodup h.entries

def ownKeys : List Bytes := [ascii "Connection", ascii "Content-Length", ascii "Cache-Control"]

/-- A response with its body in memory, and the order of its headers. -/
structure InMemory where
  response : HttpResponse
  order : List (Bytes × Bytes)
  iterates : Iterates response.header order
  keepAlive : response.close = false
  html : response.bodyType = ascii "HTML_TYPE"
  message_ok : ∀ ch ∈ response.statusMessage, ch ≠ CR ∧ ch ≠ LF
  key_ok : ∀ kv ∈ order, ∀ ch ∈ kv.1, ch ≠ CR ∧ ch ≠ LF ∧ ch ≠ chr ':'
  key_other : ∀ kv ∈ order, kv.1 ∉ ownKeys
  value_ok : ∀ kv ∈ order, ∀ ch ∈ kv.2, ch ≠ CR ∧ ch ≠ LF

namespace InMemory

def print (m : InMemory) : Bytes := m.response.sent m.order

theorem print_eq (m : InMemory) : m.print = m.response.getResponse m.order := by
  unfold print HttpResponse.sent
  rw [if_pos m.html]

def ok (body : Bytes) : InMemory where
  response :=
    ((({ close := false } : HttpResponse).setStatusCode .k200K).setStatusMessage
      (ascii "OK")).setResponseBody body
  order := []
  iterates := ⟨List.nodup_nil, by simp [HttpResponse.setStatusCode, HttpResponse.setStatusMessage,
    HttpResponse.setResponseBody]⟩
  keepAlive := rfl
  html := rfl
  message_ok := List.all_iff_forall_prop.1 rfl
  key_ok := List.forall_mem_nil _
  key_other := List.forall_mem_nil _
  value_ok := List.forall_mem_nil _

/-! ## The lines of the head -/

def statusLine (m : InMemory) : Bytes :=
  ascii "HTTP/1.1 " ++ (stdToString m.response.statusCode.value ++ chr ' ' :: m.response.statusMessage)

example : (ok []).statusLine = ascii "HTTP/1.1 200 OK" := by decide

def headerLine (kv : Bytes × Bytes) : Bytes := kv.1 ++ chr ':' :: chr ' ' :: kv.2

/-- No blank stands before `keep-alive`. -/
def ownLines (m : InMemory) : List Bytes :=
  [ascii "Connection:keep-alive",
    headerLine (ascii "Content-Length", stdToString m.response.body.length)]

def cacheLine : Bytes :=
  headerLine (ascii "Cache-Control", ascii "no-store, no-cache, must-revalidate")

def lines (m : InMemory) : List Bytes :=
  m.statusLine :: (m.ownLines ++ m.order.map headerLine ++ [cacheLine])

theorem getPreBody_eq (m : InMemory) :
    m.response.getPreBody m.order = Lib.endLines CR LF m.lines ++ [CR, LF] := by
  have hheaders : m.order.flatMap (fun kv => kv.1 ++ ascii ": " ++ kv.2 ++ ascii "\r\n") =
      (m.order.map headerLine).flatMap fun line => line ++ [CR, LF] := by
    rw [List.flatMap_map]
    congr 1
    funext kv
    simp only [headerLine, List.append_assoc, List.cons_append]
    rfl
  have hend : ascii "\r\n" = [CR, LF] := by decide
  have hcolon : ascii ": " = [chr ':', chr ' '] := by decide
  have hconnection : "Connection:keep-alive\r\n" = "Connection:keep-alive" ++ "\r\n" := by decide
  have hlength : "Content-Length: " = "Content-Length" ++ ": " := by decide
  have hcache : "Cache-Control: no-store, no-cache, must-revalidate\r\n" =
      "Cache-Control" ++ (": " ++ ("no-store, no-cache, must-revalidate" ++ "\r\n")) := by decide
  have hblank : ascii " " = [chr ' '] := by decide
  unfold HttpResponse.getPreBody Lib.endLines lines ownLines statusLine cacheLine
  rw [m.keepAlive, hheaders, hconnection, hlength, hcache, hblank]
  simp only [ascii_append, hend, hcolon, Bool.false_eq_true, if_false, headerLine,
    List.flatMap_cons, List.flatMap_append, List.flatMap_nil, List.append_assoc, List.cons_append,
    List.nil_append, List.append_nil]

end InMemory

end CPlusServer

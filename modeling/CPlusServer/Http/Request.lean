import CPlusServer.Http.Chars
import Mathlib.Data.Finmap

/-!
# HttpRequest

The parsed request and its setters. An `unordered_map<string, string>` is a
finite map, equal to another exactly when both hold the same entries; `m[k] = v`
is `insert`, and a missing key reads as the empty string.
-/

namespace CPlusServer

abbrev StringMap := Finmap (fun _ : Bytes => Bytes)

inductive Method
  | get | post | head | put | delete | invaild
  deriving DecidableEq, Repr

def Method.text : Method → Bytes
  | .get => ascii "GET"
  | .post => ascii "POST"
  | .head => ascii "HEAD"
  | .put => ascii "PUT"
  | .delete => ascii "DELETE"
  | .invaild => ascii "INVAILD"

inductive Version
  | http10 | http11 | invaildVersion
  deriving DecidableEq, Repr

structure HttpRequest where
  method : Method := .invaild
  url : Bytes := []
  protocol : Bytes := []
  version : Version := .invaildVersion
  params : StringMap := ∅
  headers : StringMap := ∅
  body : Bytes := []
  deriving DecidableEq

namespace HttpRequest

def methodOf (method : Bytes) : Method :=
  if method = ascii "GET" then .get
  else if method = ascii "POST" then .post
  else if method = ascii "HEAD" then .head
  else if method = ascii "PUT" then .put
  else if method = ascii "DELETE" then .delete
  else .invaild

def setMethod (q : HttpRequest) (method : Bytes) : HttpRequest :=
  { q with method := methodOf method }
def setURL (q : HttpRequest) (url : Bytes) : HttpRequest := { q with url := url }
def setProtocol (q : HttpRequest) (protocol : Bytes) : HttpRequest := { q with protocol := protocol }
/-- The second `if` has the only `else`, so "1.0" is set and then overwritten. -/
def setVersion (q : HttpRequest) (version : Bytes) : HttpRequest :=
  let q := if version = ascii "1.0" then { q with version := .http10 } else q
  if version = ascii "1.1" then { q with version := .http11 }
  else { q with version := .invaildVersion }
def setParams (q : HttpRequest) (key value : Bytes) : HttpRequest :=
  { q with params := q.params.insert key value }
def setHeader (q : HttpRequest) (key value : Bytes) : HttpRequest :=
  { q with headers := q.headers.insert key value }
def setBody (q : HttpRequest) (body : Bytes) : HttpRequest := { q with body := body }

def getMethodString (q : HttpRequest) : Bytes := q.method.text

def getParams (q : HttpRequest) (key : Bytes) : Bytes := (q.params.lookup key).getD []
def getHeader (q : HttpRequest) (key : Bytes) : Bytes := (q.headers.lookup key).getD []

def countHeader (q : HttpRequest) (key : Bytes) : Bool := (q.headers.lookup key).isSome

/-- `atoi` of the stored Content-Length, a missing header reading as 0. -/
def contentLength (q : HttpRequest) : Int := atoi (q.getHeader (ascii "Content-Length"))

/-! ## The method -/

theorem getMethodString_eq_get_iff {q : HttpRequest} :
    q.getMethodString = ascii "GET" ↔ q.method = .get := by
  unfold getMethodString
  cases q.method <;> decide

theorem getMethodString_eq_post_iff {q : HttpRequest} :
    q.getMethodString = ascii "POST" ↔ q.method = .post := by
  unfold getMethodString
  cases q.method <;> decide

/-! ## The map setters -/

@[simp] theorem setParams_setParams (q : HttpRequest) (key v w : Bytes) :
    (q.setParams key v).setParams key w = q.setParams key w := by
  simp [setParams, Finmap.insert_insert]

@[simp] theorem setHeader_setHeader (q : HttpRequest) (key v w : Bytes) :
    (q.setHeader key v).setHeader key w = q.setHeader key w := by
  simp [setHeader, Finmap.insert_insert]

theorem contentLength_of_not_count {q : HttpRequest}
    (h : q.countHeader (ascii "Content-Length") = false) : q.contentLength = 0 := by
  have hnone : q.headers.lookup (ascii "Content-Length") = none := by
    simpa [countHeader] using h
  simp [contentLength, getHeader, hnone]

end HttpRequest

end CPlusServer

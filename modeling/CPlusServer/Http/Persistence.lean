import CPlusServer.Http.Accepted
import CPlusServer.Http.Parse
import CPlusServer.Http.Response
import CPlusServer.Http.Upload

/-!
# OnHttpReponse and the persistence of a connection

What is made of a complete request, and what the mark on the response depends on:
the version as it is stored and printed, and the value of the Connection header.
-/

namespace CPlusServer

/-- "Http1.0" is set and then overwritten: here too the second `if` has the only `else`. -/
def HttpRequest.getVersionString (q : HttpRequest) : Bytes := Id.run do
  let mut version := []
  if q.version = .http10 then
    version := ascii "Http1.0"
  if q.version = .http11 then
    version := ascii "Http1.1"
  else
    version := ascii "Invaild Version"
  return version

/-- What the callback of the application makes of a request and the response object. -/
abbrev HttpCallBack := HttpRequest → HttpResponse → HttpResponse

namespace HttpServer

def close (request : HttpRequest) : Bool :=
  request.getHeader (ascii "Connection") = ascii "Close" ||
    request.getVersionString = ascii "Http1.0" &&
      request.getHeader (ascii "Connection") = ascii "Keep-Alive"

def respond (httpCallBack : HttpCallBack) (request : HttpRequest) : HttpResponse :=
  httpCallBack request { close := close request }

/-- The file that is written and the response; none where `FileUpload` throws. -/
def onHttpReponse (httpCallBack : HttpCallBack) (request : HttpRequest) :
    Option (Option File × HttpResponse) := do
  let file ← if Multipart request then fileUpload request else some none
  return (file, respond httpCallBack request)

theorem getVersionString_ne_http10 (q : HttpRequest) : q.getVersionString ≠ ascii "Http1.0" := by
  unfold HttpRequest.getVersionString
  cases q.version <;> decide

theorem snd_onHttpReponse {httpCallBack : HttpCallBack} {request : HttpRequest} :
    ∀ out ∈ onHttpReponse httpCallBack request, out.2 = respond httpCallBack request := by
  intro out hout
  unfold onHttpReponse at hout
  split at hout
  · obtain ⟨file, -, heq⟩ := Option.bind_eq_some_iff.1 hout
    cases heq
    rfl
  · cases hout
    rfl

/-- The version has no part in it. -/
theorem close_iff (q : HttpRequest) :
    close q = true ↔ q.headers.lookup (ascii "Connection") = some (ascii "Close") := by
  have hversion := getVersionString_ne_http10 q
  simp only [close, hversion, decide_false, Bool.false_and, Bool.or_false, decide_eq_true_eq]
  unfold HttpRequest.getHeader
  cases q.headers.lookup (ascii "Connection") with
  | none => decide
  | some v => simp

end HttpServer

/-! ## Requests of both versions -/

inductive Minor
  | zero | one
  deriving DecidableEq

def Minor.digit : Minor → UInt8
  | .zero => chr '0'
  | .one => chr '1'

theorem Minor.isdigit_digit (m : Minor) : isdigit m.digit = true := by
  cases m <;> rfl

def Head.printMinor (h : Head) (minor : Minor) : Bytes :=
  h.method ++ (h.gap₁ ++ (h.path ++ (printQuery h.query ++ (h.gap₂ ++ (h.protocol ++
    (ascii "/1." ++ minor.digit :: CR :: LF :: (h.headers.flatMap Header.print ++ [CR, LF])))))))

structure VersionedRequest where
  request : Request
  minor : Minor

namespace VersionedRequest

def print (r : VersionedRequest) : Bytes := r.request.head.printMinor r.minor ++ r.request.body

def connection? (r : VersionedRequest) : Option Bytes :=
  Lib.lastValue (ascii "Connection") r.request.head.headerPairs

def AsksToClose (r : VersionedRequest) : Prop :=
  (∃ v ∈ r.connection?, lower v = ascii "close") ∨
    r.minor = .zero ∧ ∀ v ∈ r.connection?, lower v ≠ ascii "keep-alive"

/-- The request is parsed on a fresh context, and the response with which `OnHttpReponse` goes on is
marked close exactly when the client asks for it. -/
def MarkedAsAsked (r : VersionedRequest) (httpCallBack : HttpCallBack) : Prop :=
  ∃ ctx' response, HttpContext.Returns {} r.print ctx' true ∧ ctx'.isComplete = true ∧
    response = HttpServer.respond httpCallBack ctx'.request ∧
    (∀ out ∈ HttpServer.onHttpReponse httpCallBack ctx'.request, out.2 = response) ∧
    (response.close = true ↔ r.AsksToClose)

/-! ## Parsing -/

def loose (r : VersionedRequest) : LooseHead :=
  { r.request.head.loose with minors := [.digit r.minor.digit r.minor.isdigit_digit] }

theorem print_loose (r : VersionedRequest) : r.loose.print ++ r.request.body = r.print := by
  have hheaders : (r.request.head.headers.map Header.loose).flatMap LooseHeader.print =
      r.request.head.headers.flatMap Header.print := by
    rw [List.flatMap_map]
    rfl
  have hquery := Head.printQuery_eq r.request.head.query
  have hpairs : (r.request.head.query.map Param.loose).map LooseParam.pair =
      r.request.head.query.map Param.pair := r.request.head.paramPairs_loose
  have hversion : ascii "/1." = [chr '/', chr '1', chr '.'] := by decide
  obtain ⟨b₁, gap, hgap⟩ := List.exists_cons_of_ne_nil r.request.head.gap₁_ne
  obtain ⟨b₂, skip, hskip⟩ := List.exists_cons_of_ne_nil r.request.head.gap₂_ne
  unfold print Head.printMinor LooseHead.print
  rw [hversion, hquery]
  simp [loose, Head.loose, LooseHead.version, LooseHead.paramPairs, VersionPart.digit,
    VersionPart.behindPoint, hgap, hskip, hheaders, hpairs]

theorem headers_fill_loose (r : VersionedRequest) :
    (r.loose.fill {}).headers = (r.request.head.fill {}).headers := by
  rw [← Head.fill_loose]
  rfl

theorem contentLength_fill_loose (r : VersionedRequest) :
    (r.loose.fill {}).contentLength = r.request.body.length := by
  rw [← r.request.contentLength_fill]
  unfold HttpRequest.contentLength HttpRequest.getHeader
  rw [r.headers_fill_loose]

theorem returns_result (r : VersionedRequest) :
    HttpContext.Returns {} r.print (r.loose.result {} r.request.body) true :=
  LooseHead.returns_iff.2
    ⟨r.loose, r.request.body, r.print_loose.symm, by rw [r.contentLength_fill_loose], rfl⟩

/-- Either version is read to the end, with the headers of the request. -/
theorem exists_returns (r : VersionedRequest) : ∃ ctx', HttpContext.Returns {} r.print ctx' true ∧
    ctx'.isComplete = true ∧ ctx'.request.headers.lookup (ascii "Connection") = r.connection? := by
  obtain ⟨body, hbody⟩ := r.loose.result_request {} r.request.body
  refine ⟨r.loose.result {} r.request.body, r.returns_result, rfl, ?_⟩
  rw [hbody]
  show (r.loose.fill {}).headers.lookup _ = _
  rw [r.headers_fill_loose]
  exact Lib.lookup_insertAll_empty _ _

/-! ## The mark -/

theorem marked_iff_asks (r : VersionedRequest) {httpCallBack : HttpCallBack}
    (hcall : ∀ request response, (httpCallBack request response).close = response.close) :
    r.MarkedAsAsked httpCallBack ↔ (r.connection? = some (ascii "Close") ↔ r.AsksToClose) := by
  obtain ⟨ctx', hret, hcomplete, hlook⟩ := r.exists_returns
  have hmark : (HttpServer.respond httpCallBack ctx'.request).close = true ↔
      r.connection? = some (ascii "Close") := by
    unfold HttpServer.respond
    rw [hcall, HttpServer.close_iff, hlook]
  rw [← hmark]
  constructor
  · intro h
    obtain ⟨ctx'', response, hret', -, rfl, -, hiff⟩ := h
    obtain rfl := (hret.unique hret').1
    exact hiff
  · exact fun h => ⟨ctx', _, hret, hcomplete, rfl, HttpServer.snd_onHttpReponse, h⟩

/-- **Persistence.** A callback that leaves the mark alone is given the right one exactly when the
Connection value is spelled `Close`, or the client does not ask to close at all. -/
theorem markedAsAsked_iff (r : VersionedRequest) (httpCallBack : HttpCallBack)
    (hcall : ∀ request response, (httpCallBack request response).close = response.close) :
    r.MarkedAsAsked httpCallBack ↔ r.connection? = some (ascii "Close") ∨
      (∀ v ∈ r.connection?, lower v ≠ ascii "close") ∧
        (r.minor = .zero → ∃ v ∈ r.connection?, lower v = ascii "keep-alive") := by
  have hnot : ¬ r.AsksToClose ↔ (∀ v ∈ r.connection?, lower v ≠ ascii "close") ∧
      (r.minor = .zero → ∃ v ∈ r.connection?, lower v = ascii "keep-alive") := by
    unfold AsksToClose
    push Not
    exact Iff.rfl
  rw [r.marked_iff_asks hcall, ← hnot]
  by_cases hclose : r.connection? = some (ascii "Close")
  · have hasks : r.AsksToClose := .inl ⟨ascii "Close", hclose, by decide⟩
    exact iff_of_true (iff_of_true hclose hasks) (.inl hclose)
  · rw [or_iff_right hclose]
    exact ⟨fun h hasks => hclose (h.2 hasks), fun hno => iff_of_false hclose hno⟩

def okCallBack : HttpCallBack := fun _ response =>
  (response.setStatusCode .k200K).setStatusMessage (ascii "OK")

theorem markedAsAsked_getSample : MarkedAsAsked ⟨.getSample, .one⟩ okCallBack ↔
    connection? ⟨.getSample, .one⟩ = some (ascii "Close") ∨
      (∀ v ∈ connection? ⟨.getSample, .one⟩, lower v ≠ ascii "close") ∧
        (Minor.one = .zero → ∃ v ∈ connection? ⟨.getSample, .one⟩, lower v = ascii "keep-alive") :=
  markedAsAsked_iff ⟨.getSample, .one⟩ okCallBack fun _ _ => rfl

def closeSample : VersionedRequest where
  request := {
    head := { Request.getSample.head with
      query := []
      headers := [.plain (ascii "Connection") (ascii "close") (by decide)
        (List.all_iff_forall_prop.1 rfl) (by decide) (fun _ hch => Option.some.inj hch ▸ rfl)
        (List.all_iff_forall_prop.1 rfl)] }
    framed := Request.getSample.framed
    small := by decide }
  minor := .one

/-- The request asks to close, and the response says keep-alive. The same request of version 1.0
without a header asks to close as well. -/
theorem not_markedAsAsked_closeSample :
    closeSample.print = ascii "GET /a HTTP/1.1\r\nConnection: close\r\n\r\n" ∧
      ¬ closeSample.MarkedAsAsked okCallBack ∧
      ¬ MarkedAsAsked ⟨.getSample, .zero⟩ okCallBack := by
  have hcall : ∀ request response, (okCallBack request response).close = response.close :=
    fun _ _ => rfl
  have hspelled : closeSample.connection? = some (ascii "close") := by decide
  have hnone : connection? ⟨.getSample, .zero⟩ = none := by decide
  refine ⟨by decide, ?_, ?_⟩
  · rw [closeSample.marked_iff_asks hcall, hspelled]
    have hasks : closeSample.AsksToClose := .inl ⟨ascii "close", hspelled, by decide⟩
    intro h
    have hno := h.2 hasks
    revert hno
    decide
  · rw [marked_iff_asks _ hcall, hnone]
    have hasks : AsksToClose ⟨.getSample, .zero⟩ := by
      refine .inr ⟨rfl, fun v hv => ?_⟩
      rw [hnone] at hv
      cases hv
    intro h
    cases h.2 hasks

end VersionedRequest

end CPlusServer

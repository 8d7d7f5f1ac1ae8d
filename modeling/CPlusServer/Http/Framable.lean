import CPlusServer.Http.Client
import CPlusServer.Http.Router

/-!
# Responses of the application

No request makes the file server write a line end into a head, or a header line that
`GetPreBody` writes itself. What it answers in memory and keeps open is read back by a
client; and of a text that is still under way a client reads the responses that are
whole.
-/

namespace CPlusServer

def OneLine (s : Bytes) : Prop := ∀ ch ∈ s, ch ≠ CR ∧ ch ≠ LF

-- The elements of the list are gone through, not those of the type.
instance (s : Bytes) : Decidable (OneLine s) := List.decidableBAll _ s

def HeaderOk (key value : Bytes) : Prop :=
  OneLine key ∧ chr ':' ∉ key ∧ key ∉ ownKeys ∧ OneLine value

instance (key value : Bytes) : Decidable (HeaderOk key value) :=
  inferInstanceAs (Decidable (_ ∧ _ ∧ _ ∧ _))

theorem HeaderOk.key_ok {key value : Bytes} (h : HeaderOk key value) :
    ∀ ch ∈ key, ch ≠ CR ∧ ch ≠ LF ∧ ch ≠ chr ':' := by
  intro ch hch
  obtain ⟨hcr, hlf⟩ := h.1 ch hch
  refine ⟨hcr, hlf, ?_⟩
  rintro rfl
  exact h.2.1 hch

namespace HttpResponse

def received (r : HttpResponse) : Received := ⟨r.statusCode.value, r.statusMessage, r.header, r.body⟩

structure Framable (r : HttpResponse) : Prop where
  message_ok : OneLine r.statusMessage
  header_ok : ∀ key value, r.header.lookup key = some value → HeaderOk key value

/-- A response with its body in memory after which the connection stays open. -/
structure Plain (r : HttpResponse) : Prop where
  keepAlive : r.close = false
  html : r.bodyType = ascii "HTML_TYPE"

instance (r : HttpResponse) : Decidable r.Plain :=
  decidable_of_iff (r.close = false ∧ r.bodyType = ascii "HTML_TYPE")
    ⟨fun h => ⟨h.1, h.2⟩, fun h => ⟨h.1, h.2⟩⟩

variable {r : HttpResponse}

theorem framable_fresh (close : Bool) : Framable { close := close } :=
  ⟨List.forall_mem_nil _, fun _ _ hlook => nomatch hlook⟩

theorem Framable.addHeader (h : r.Framable) {key value : Bytes} (hkv : HeaderOk key value) :
    (r.addHeader key value).Framable := by
  refine ⟨h.message_ok, fun k v hlook => ?_⟩
  by_cases hk : k = key
  · subst hk
    have hinsert : (r.header.insert k value).lookup k = some value := Finmap.lookup_insert _
    rw [show (r.addHeader k value).header.lookup k = _ from hinsert] at hlook
    cases hlook
    exact hkv
  · apply h.header_ok
    rw [← hlook]
    exact (Finmap.lookup_insert_of_ne _ hk).symm

theorem Framable.setContentType (h : r.Framable) {type : Bytes}
    (htype : HeaderOk (ascii "Content-Type") type) : (r.setContentType type).Framable :=
  h.addHeader htype

theorem Framable.setStatusMessage (h : r.Framable) {message : Bytes}
    (hmessage : OneLine message) : (r.setStatusMessage message).Framable :=
  ⟨hmessage, h.header_ok⟩

theorem Framable.of_eq (h : r.Framable) {r' : HttpResponse}
    (hmessage : r'.statusMessage = r.statusMessage) (hheader : r'.header = r.header) :
    r'.Framable := by
  constructor
  · rw [hmessage]
    exact h.message_ok
  · rw [hheader]
    exact h.header_ok

def Framable.inMemory (h : r.Framable) (hplain : r.Plain) {order : List (Bytes × Bytes)}
    (hiterates : Iterates r.header order) : InMemory where
  response := r
  order := order
  iterates := hiterates
  keepAlive := hplain.keepAlive
  html := hplain.html
  message_ok := h.message_ok
  key_ok := fun kv hkv => (h.header_ok kv.1 kv.2 ((hiterates.entries _ _).1 hkv)).key_ok
  key_other := fun kv hkv => (h.header_ok kv.1 kv.2 ((hiterates.entries _ _).1 hkv)).2.2.1
  value_ok := fun kv hkv => (h.header_ok kv.1 kv.2 ((hiterates.entries _ _).1 hkv)).2.2.2

end HttpResponse

/-! ## The file server -/

namespace App

def Frames (x : Except Fault HttpResponse) : Prop := ∀ response, x = .ok response → response.Framable

variable {response : HttpResponse}

theorem frames_bind {α : Type} (x : Except Fault α) {f : α → Except Fault HttpResponse}
    (h : ∀ a, Frames (f a)) : Frames (x >>= f) := by
  cases x with
  | error e => exact fun _ hno => nomatch hno
  | ok a => exact h a

theorem frames_ok (h : response.Framable) : Frames (.ok response) := by
  intro response' heq
  cases heq
  exact h

theorem framable_ok (h : response.Framable) (body : Bytes) : (ok response body).Framable := by
  have hbody : ((response.setResponseBody body).setStatusCode .k200K).Framable := h.of_eq rfl rfl
  exact hbody.setStatusMessage (by decide)

theorem framable_html (h : response.Framable) :
    (response.setContentType (ascii "text/html; charset=UTF-8")).Framable :=
  h.setContentType (by decide)

theorem framable_badRequest (h : response.Framable) : (badRequest response).Framable := by
  have hcode : (response.setStatusCode .k400BADREQUEST).Framable := h.of_eq rfl rfl
  exact hcode.setStatusMessage (by decide)

/-- The location is never taken from the request. -/
theorem framable_relocation (h : response.Framable) : (relocation response (ascii "/")).Framable := by
  have hcode : ((response.setContentType (ascii "text/html; charset=UTF-8")).setStatusCode
      .k302K).Framable := (framable_html h).of_eq rfl rfl
  have hmoved : (((response.setContentType (ascii "text/html; charset=UTF-8")).setStatusCode .k302K
      ).setStatusMessage (ascii "Moved Temporarily")).Framable :=
    hcode.setStatusMessage (by decide)
  have hlocation : HeaderOk (ascii "Location") (ascii "/") := by decide
  exact (hmoved.addHeader hlocation).of_eq rfl rfl

theorem frames_openFileSystem (d : Disk) (h : response.Framable) :
    Frames (openFileSystem d response) :=
  frames_bind _ fun body => frames_ok (framable_ok (framable_html h) body)

theorem headerOk_contentTypes {extension type : Bytes}
    (h : contentTypes.lookup extension = some type) : HeaderOk (ascii "Content-Type") type := by
  have hall : ∀ kv ∈ contentTypes, HeaderOk (ascii "Content-Type") kv.2 := by decide
  obtain ⟨before, after, heq, -⟩ := List.lookup_eq_some_iff.1 h
  exact hall (extension, type) (heq ▸ by simp)

theorem frames_httpopen (d : Disk) (filename : Bytes) (h : response.Framable) :
    Frames (httpopen d filename response) := by
  unfold httpopen
  split
  · apply frames_bind
    intro s
    cases htype : contentTypes.lookup s with
    | none =>
        have hbody : (response.setResponseBody (ascii "Open file ")).Framable := h.of_eq rfl rfl
        exact frames_ok (framable_relocation hbody)
    | some type =>
        exact frames_bind _ fun body =>
          frames_ok (framable_ok (h.setContentType (headerOk_contentTypes htype)) body)
  · exact frames_ok (framable_relocation h)

theorem frames_httpdownload (d : Disk) (filename : Bytes) (h : response.Framable) :
    Frames (httpdownload d filename response) := by
  unfold httpdownload
  split
  · split
    · exact frames_openFileSystem d h
    · apply frames_ok
      have hlength (size : Int) : (response.setContentLength size).Framable := h.of_eq rfl rfl
      have htype : HeaderOk (ascii "Content-Type") (ascii "application/octet-stream") := by decide
      exact ((hlength _).setContentType htype).of_eq rfl rfl
  · exact frames_openFileSystem d h

theorem frames_httpdelete (d : Disk) (filename : Bytes) (h : response.Framable) :
    Frames (httpdelete d filename response) :=
  frames_openFileSystem _ h

theorem frames_login (d : Disk) (body : Bytes) (h : response.Framable) :
    Frames (login d body response) := by
  unfold login
  apply frames_bind
  intro username
  apply frames_bind
  intro password
  split
  · exact frames_openFileSystem d h
  · exact frames_ok (framable_relocation h)

theorem frames_get (d : Disk) {request : HttpRequest} (hget : request.getMethodString = ascii "GET")
    (h : response.Framable) : Frames (http d request response) := by
  have hclosed : (badRequest response).setClose.Framable :=
    (framable_badRequest h).of_eq rfl rfl
  unfold http
  rw [if_pos hget]
  dsimp only
  split
  · exact frames_bind _ fun body => frames_ok (framable_ok (framable_html h) body)
  split
  · exact frames_bind _ fun filename => frames_httpopen d filename h
  split
  · exact frames_bind _ fun filename => frames_httpdownload d filename h
  split
  · exact frames_bind _ fun filename => frames_httpdelete d filename h
  split
  · exact frames_bind _ fun body => frames_ok (framable_ok (framable_html h) body)
  split
  · exact frames_ok (framable_relocation h)
  · exact frames_ok hclosed

/-- Whatever is requested, no response has a line end in its head that `GetPreBody` has not
written. -/
theorem frames_http (d : Disk) (request : HttpRequest) (h : response.Framable) :
    Frames (http d request response) := by
  by_cases hget : request.getMethodString = ascii "GET"
  · exact frames_get d hget h
  · unfold http
    rw [if_neg hget]
    split
    · split
      · exact frames_login d request.body h
      · split
        · exact frames_openFileSystem d h
        · exact frames_ok (framable_badRequest h)
    · exact frames_ok ((framable_badRequest h).of_eq rfl rfl)

end App

/-! ## Responses under way -/

namespace Client

end Client

end CPlusServer

import CPlusServer.Http.Router

/-!
# What a response discloses

Two file systems that give the same response to a request. A request can only name a file
of the directory, the file has a part in no other response, and the list of the files is
shown to those who log in, to every upload and deletion, to a download that does not find
its file, and to `/anom`.
-/

namespace CPlusServer

namespace App

def staticPages : List Bytes :=
  [ascii "../static/index.html", ascii "../static/fileserver.html",
    ascii "../static/anomfileserver.html"]

def commands : List Bytes := [ascii "/open", ascii "/download", ascii "/delete"]

def Names (request : HttpRequest) (filename : Bytes) : Prop :=
  request.method = .get ∧ ∃ command ∈ commands, ∃ ch, request.url = command ++ ch :: filename

def credentials (body : Bytes) : Except Fault (Bytes × Bytes) := do
  let userPos := toInt (intOf (Lib.find body (ascii "username=") 0) + 9)
  let passPos := toInt (intOf (Lib.find body (ascii "password=") 0) + 9)
  let andPos := intOf (findInt body (ascii "&") userPos)
  let username ← substrInt body userPos (toInt (andPos - userPos))
  let password ← substrInt body passPos (toInt (toInt body.length - passPos))
  return (username, password)

def ShowsList (d : Disk) (request : HttpRequest) : Prop :=
  request.method = .post ∧ (request.url = ascii "/upload" ∨
    request.url = ascii "/login" ∧ credentials request.body = .ok (ascii "xkx", ascii "pig")) ∨
  request.method = .get ∧ (request.url.take 5 = ascii "/anom" ∨
    request.url.take 7 = ascii "/delete" ∨ ∃ ch filename,
      request.url = ascii "/download" ++ ch :: filename ∧
        (isFindInDir d filename = false ∨ d.openFile (ascii "../files/" ++ filename) = none))

/-- The two have the same file of this name in the directory, or neither has one. -/
structure SameFile (d d' : Disk) (filename : Bytes) : Prop where
  found : isFindInDir d filename = isFindInDir d' filename
  stream : isFindInDir d filename = true →
    d.stream (ascii "../files/" ++ filename) = d'.stream (ascii "../files/" ++ filename)
  openFile : isFindInDir d filename = true →
    d.openFile (ascii "../files/" ++ filename) = d'.openFile (ascii "../files/" ++ filename)
  removes : isFindInDir d filename = true →
    d.removes (ascii "../files/" ++ filename) = d'.removes (ascii "../files/" ++ filename)

structure Alike (request : HttpRequest) (d d' : Disk) : Prop where
  pages : ∀ page ∈ staticPages, d.stream page = d'.stream page
  named : ∀ filename, Names request filename → SameFile d d' filename
  listed : ShowsList d request → d.entries = d'.entries

variable {d d' : Disk}

/-! ## Pages -/

theorem findAllFiles_congr (hentries : d.entries = d'.entries) :
    findAllFiles d = findAllFiles d' := by
  unfold findAllFiles
  rw [hentries]

theorem buildHtml_congr (hfiles : findAllFiles d = findAllFiles d') {page : Bytes}
    (hpage : d.stream page = d'.stream page) (row : Bytes → Bytes) :
    buildHtml d row page = buildHtml d' row page := by
  unfold buildHtml
  rw [hfiles, hpage]

theorem openFileSystem_of_files (hfiles : findAllFiles d = findAllFiles d')
    (hpage : d.stream (ascii "../static/fileserver.html") =
      d'.stream (ascii "../static/fileserver.html")) (response : HttpResponse) :
    openFileSystem d response = openFileSystem d' response := by
  unfold openFileSystem buildFileHtml
  rw [buildHtml_congr hfiles hpage]

theorem openFileSystem_congr (hentries : d.entries = d'.entries)
    (hpages : ∀ page ∈ staticPages, d.stream page = d'.stream page) (response : HttpResponse) :
    openFileSystem d response = openFileSystem d' response :=
  openFileSystem_of_files (findAllFiles_congr hentries) (hpages _ (by decide)) response

/-! ## Handlers -/

variable {filename : Bytes}

theorem httpopen_congr (h : SameFile d d' filename) (response : HttpResponse) :
    httpopen d filename response = httpopen d' filename response := by
  unfold httpopen
  rw [← h.found]
  cases hfound : isFindInDir d filename with
  | false => rfl
  | true => rw [h.stream hfound]

theorem httpdownload_congr (h : SameFile d d' filename)
    (hlisted : isFindInDir d filename = false ∨ d.openFile (ascii "../files/" ++ filename) = none →
      d.entries = d'.entries)
    (hpages : ∀ page ∈ staticPages, d.stream page = d'.stream page) (response : HttpResponse) :
    httpdownload d filename response = httpdownload d' filename response := by
  unfold httpdownload
  rw [← h.found]
  cases hfound : isFindInDir d filename with
  | false => exact openFileSystem_congr (hlisted (.inl hfound)) hpages response
  | true =>
      have hopen := h.openFile hfound
      rw [if_pos rfl, if_pos rfl, ← hopen]
      cases hfile : d.openFile (ascii "../files/" ++ filename) with
      | none => exact openFileSystem_congr (hlisted (.inr hfile)) hpages response
      | some file => rfl

theorem httpdelete_congr (h : SameFile d d' filename) (hentries : d.entries = d'.entries)
    (hpages : ∀ page ∈ staticPages, d.stream page = d'.stream page) (response : HttpResponse) :
    httpdelete d filename response = httpdelete d' filename response := by
  have hremoved : (isFindInDir d filename = true ∧ d.removes (ascii "../files/" ++ filename)) ↔
      (isFindInDir d' filename = true ∧ d'.removes (ascii "../files/" ++ filename)) := by
    rw [← h.found]
    exact and_congr_right fun hfound => by rw [h.removes hfound]
  unfold httpdelete
  dsimp only
  by_cases hgone : isFindInDir d filename = true ∧ d.removes (ascii "../files/" ++ filename)
  · rw [if_pos hgone, if_pos (hremoved.1 hgone)]
    apply openFileSystem_congr
    · show d.entries.map _ = d'.entries.map _
      rw [hentries]
    · exact hpages
  · rw [if_neg hgone, if_neg (mt hremoved.2 hgone)]
    exact openFileSystem_congr hentries hpages response

theorem login_eq (d : Disk) (body : Bytes) (response : HttpResponse) :
    login d body response = credentials body >>= fun c =>
      if c.1 = ascii "xkx" ∧ c.2 = ascii "pig" then openFileSystem d response
      else .ok (relocation response (ascii "/")) := by
  unfold login credentials
  simp only [bind_assoc, pure_bind]
  rfl

/-- Whoever does not log in is sent away. -/
theorem login_congr {body : Bytes}
    (hlisted : credentials body = .ok (ascii "xkx", ascii "pig") → d.entries = d'.entries)
    (hpages : ∀ page ∈ staticPages, d.stream page = d'.stream page) (response : HttpResponse) :
    login d body response = login d' body response := by
  rw [login_eq, login_eq]
  cases hfields : credentials body with
  | error e => rfl
  | ok fields =>
      obtain ⟨username, password⟩ := fields
      show (if username = ascii "xkx" ∧ password = ascii "pig" then _ else _) =
        if username = ascii "xkx" ∧ password = ascii "pig" then _ else _
      by_cases hright : username = ascii "xkx" ∧ password = ascii "pig"
      · rw [if_pos hright, if_pos hright]
        rw [hright.1, hright.2] at hfields
        exact openFileSystem_congr (hlisted hfields) hpages response
      · rw [if_neg hright, if_neg hright]

/-! ## Requests -/

theorem command_congr {request : HttpRequest} (hmethod : request.method = .get) {command : Bytes}
    (hcommand : command ∈ commands) {n : Nat} (hn : command.length = n)
    (htake : request.url.take n = command) {handler handler' : Bytes → Except Fault HttpResponse}
    (h : ∀ ch filename, request.url = command ++ ch :: filename → Names request filename →
      handler filename = handler' filename) :
    substr request.url (n + 1) none >>= handler = substr request.url (n + 1) none >>= handler' := by
  rcases substr_command hn htake with ⟨-, hsub⟩ | ⟨ch, filename, hurl, hsub⟩
  · rw [hsub]
    rfl
  · rw [hsub]
    exact h ch filename hurl ⟨hmethod, command, hcommand, ch, hurl⟩

theorem get_congr {request : HttpRequest} (hmethod : request.method = .get)
    (h : Alike request d d') (response : HttpResponse) :
    http d request response = http d' request response := by
  have hget := HttpRequest.getMethodString_eq_get_iff.2 hmethod
  have hlisted (hshows : request.url.take 5 = ascii "/anom" ∨ request.url.take 7 = ascii "/delete" ∨
      ∃ ch filename, request.url = ascii "/download" ++ ch :: filename ∧
        (isFindInDir d filename = false ∨ d.openFile (ascii "../files/" ++ filename) = none)) :
      d.entries = d'.entries := h.listed (.inr ⟨hmethod, hshows⟩)
  unfold http
  rw [if_pos hget, if_pos hget]
  dsimp only
  by_cases hindex : request.url = ascii "/"
  · rw [if_pos hindex, if_pos hindex, h.pages _ (by decide)]
  rw [if_neg hindex, if_neg hindex]
  by_cases hopen : request.url.take 5 = ascii "/open"
  · rw [if_pos hopen, if_pos hopen]
    exact command_congr hmethod (by decide) (by decide) hopen fun ch filename _ hnamed =>
      httpopen_congr (h.named filename hnamed) response
  rw [if_neg hopen, if_neg hopen]
  by_cases hdownload : request.url.take 9 = ascii "/download"
  · rw [if_pos hdownload, if_pos hdownload]
    exact command_congr hmethod (by decide) (by decide) hdownload fun ch filename hurl hnamed =>
      httpdownload_congr (h.named filename hnamed)
        (fun hmissing => hlisted (.inr (.inr ⟨ch, filename, hurl, hmissing⟩))) h.pages response
  rw [if_neg hdownload, if_neg hdownload]
  by_cases hdelete : request.url.take 7 = ascii "/delete"
  · rw [if_pos hdelete, if_pos hdelete]
    exact command_congr hmethod (by decide) (by decide) hdelete fun ch filename _ hnamed =>
      httpdelete_congr (h.named filename hnamed) (hlisted (.inr (.inl hdelete))) h.pages response
  rw [if_neg hdelete, if_neg hdelete]
  by_cases hanom : request.url.take 5 = ascii "/anom"
  · have hpage := h.pages (ascii "../static/anomfileserver.html") (by decide)
    unfold buildAnomFileHtml
    rw [if_pos hanom, if_pos hanom, buildHtml_congr (findAllFiles_congr (hlisted (.inl hanom))) hpage]
  · rw [if_neg hanom, if_neg hanom]

theorem post_congr {request : HttpRequest} (hmethod : request.method = .post)
    (h : Alike request d d') (response : HttpResponse) :
    http d request response = http d' request response := by
  have hpost := HttpRequest.getMethodString_eq_post_iff.2 hmethod
  have hget : request.getMethodString ≠ ascii "GET" := by
    rw [hpost]
    decide
  unfold http
  rw [if_neg hget, if_neg hget, if_pos hpost, if_pos hpost]
  by_cases hlogin : request.url = ascii "/login"
  · rw [if_pos hlogin, if_pos hlogin]
    exact login_congr (fun hright => h.listed (.inl ⟨hmethod, .inr ⟨hlogin, hright⟩⟩)) h.pages response
  · rw [if_neg hlogin, if_neg hlogin]
    by_cases hupload : request.url = ascii "/upload"
    · rw [if_pos hupload, if_pos hupload]
      exact openFileSystem_congr (h.listed (.inl ⟨hmethod, .inl hupload⟩)) h.pages response
    · rw [if_neg hupload, if_neg hupload]

/-- **Disclosure.** A response depends on nothing in the file system but the static pages, the file
of the directory that the request names, and, for the requests that are shown it, the list. -/
theorem http_congr {request : HttpRequest} (h : Alike request d d') (response : HttpResponse) :
    http d request response = http d' request response := by
  cases hmethod : request.method with
  | get => exact get_congr hmethod h response
  | post => exact post_congr hmethod h response
  | head | put | delete | invaild =>
      have hneither : request.getMethodString ≠ ascii "GET" ∧
          request.getMethodString ≠ ascii "POST" := by
        unfold HttpRequest.getMethodString
        rw [hmethod]
        decide
      unfold http
      rw [if_neg hneither.1, if_neg hneither.1, if_neg hneither.2, if_neg hneither.2]

def oneNote : Disk where
  entries := some [ascii "a.txt"]
  stream path := if path = ascii "../files/a.txt" then some ⟨2, (ascii "hi").take⟩ else none
  openFile _ := none
  removes _ := false

def twoNotes : Disk where
  entries := some [ascii "a.txt", ascii "b.txt"]
  stream path :=
    if path = ascii "../files/b.txt" then some ⟨6, (ascii "secret").take⟩ else oneNote.stream path
  openFile path := if path = ascii "../files/b.txt" then some (7, 6) else none
  removes path := path = ascii "../files/b.txt"

theorem twoNotes_stream {path : Bytes} (h : path ≠ ascii "../files/b.txt") :
    twoNotes.stream path = oneNote.stream path := if_neg h

theorem http_congr_notes :
    http twoNotes { method := .get, url := ascii "/open/a.txt" } { close := false } =
      http oneNote { method := .get, url := ascii "/open/a.txt" } { close := false } := by
  apply http_congr
  constructor
  · intro page hpage
    simp only [staticPages, List.mem_cons, List.not_mem_nil, or_false] at hpage
    apply twoNotes_stream
    rcases hpage with rfl | rfl | rfl <;> decide
  · rintro filename ⟨-, command, hcommand, ch, hurl⟩
    have hname : filename = ascii "a.txt" := by
      simp only [commands, List.mem_cons, List.not_mem_nil, or_false] at hcommand
      rcases hcommand with rfl | rfl | rfl
      · exact (congrArg (List.drop 6) hurl).symm
      · exact absurd (congrArg (List.take 9) hurl) (by simp [ascii, chr])
      · exact absurd (congrArg (List.take 7) hurl) (by simp [ascii, chr])
    rw [hname]
    exact ⟨by decide, fun _ => twoNotes_stream (by decide), fun _ => by decide,
      fun _ => by decide⟩
  · rintro (⟨hpost, -⟩ | ⟨-, hanom | hdelete | ⟨ch, filename, hurl, -⟩⟩)
    · cases hpost
    · exact absurd hanom (by decide)
    · exact absurd hdelete (by decide)
    · exact absurd (congrArg (List.take 9) hurl) (by simp [ascii, chr])

end App

end CPlusServer

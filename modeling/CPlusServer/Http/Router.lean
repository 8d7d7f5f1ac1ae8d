import CPlusServer.Http.Response
import CPlusServer.Lib.Search

/-!
# The application

The callback `Http` of the file server with the handlers it calls, over a file
system that answers as it likes. A `substr` that starts behind the end of its
string is an exception, and so is the buffer of a file whose size is no `int`. The log
statements of the handlers are added in `Http.Callback`.
-/

namespace CPlusServer

/-- A string constant of the source that has other characters than ASCII. -/
def utf8 (s : String) : Bytes := s.toList.flatMap String.utf8EncodeChar

namespace App

inductive Fault
  | outOfRange | badLength
  deriving DecidableEq, Repr

/-- A file stream that is open: what `tellg` says at its end, and what a buffer holds that has
been read into from the beginning. -/
structure Stream where
  tellg : Int
  content : Nat → Bytes

/-- What the file system answers: the entries of `../files`, none where it cannot be opened, and
for each path its stream, what `open` and `fstat` give, and whether it can be removed. -/
structure Disk where
  entries : Option (List Bytes)
  stream : Bytes → Option Stream
  openFile : Bytes → Option (Int × Int)
  removes : Bytes → Bool

/-! ## Helpers -/

def substr (s : Bytes) (pos : Nat) (count : Option Nat) : Except Fault Bytes :=
  match Lib.substr s pos count with
  | some text => .ok text
  | none => .error .outOfRange

def relocation (response : HttpResponse) (location : Bytes) : HttpResponse :=
  ((((response.setContentType (ascii "text/html; charset=UTF-8")).setStatusCode .k302K
    ).setStatusMessage (ascii "Moved Temporarily")).addHeader (ascii "Location") location).setClose

def findAllFiles (d : Disk) : List Bytes :=
  match d.entries with
  | none => []
  | some entries => entries.filter fun filename =>
      decide (filename ≠ ascii "." ∧ filename ≠ ascii "..")

def isFindInDir (d : Disk) (file : Bytes) : Bool :=
  match d.entries with
  | none => false
  | some entries => entries.contains file

def readFile (stream : Option Stream) : Except Fault Bytes :=
  match stream with
  | none => .ok []
  | some is =>
      let length := toInt is.tellg
      if length < 0 then .error .badLength else .ok (is.content length.toNat)

def placeholder : Bytes := ascii "<!--filelist-->"

def buildHtml (d : Disk) (row : Bytes → Bytes) (page : Bytes) : Except Fault Bytes := do
  let file := (findAllFiles d).flatMap row
  let body ← readFile (d.stream page)
  match Lib.find body placeholder 0 with
  | some i => return body.take i ++ file ++ body.drop (i + placeholder.length)
  | none => .error .outOfRange

/-- The name is left out of the second and the third link. -/
def buildFileHtml (d : Disk) : Except Fault Bytes :=
  buildHtml d (fun filename => ascii "<tr><td>" ++ filename ++ ascii "</td><td><a href=\"/open/" ++
      filename ++ utf8 "\">浏览</a><a href=\"/download/" ++ utf8 "\">下载</a><a href=\"/delete/" ++
      utf8 "\">删除</a></td></tr>\n")
    (ascii "../static/fileserver.html")

def buildAnomFileHtml (d : Disk) : Except Fault Bytes :=
  buildHtml d (fun filename => ascii "<tr><td>" ++ filename ++ ascii "</td><td><a href=\"/open/" ++
      filename ++ utf8 "\">浏览</a>")
    (ascii "../static/anomfileserver.html")

def ok (response : HttpResponse) (body : Bytes) : HttpResponse :=
  ((response.setResponseBody body).setStatusCode .k200K).setStatusMessage (ascii "OK")

def openFileSystem (d : Disk) (response : HttpResponse) : Except Fault HttpResponse := do
  let response := response.setContentType (ascii "text/html; charset=UTF-8")
  let body ← buildFileHtml d
  return ok response body

/-! ## Handlers -/

def contentTypes : List (Bytes × Bytes) :=
  [(ascii "txt", ascii "text/plain; charset=UTF-8"),
    (ascii "pdf", ascii "application/pdf"),
    (ascii "doc", ascii "application/msword"),
    (ascii "docx",
      ascii "application/vnd.openxmlformats-officedocument.wordprocessingml.document"),
    (ascii "jpg", ascii "image/jpeg"),
    (ascii "png", ascii "image/png"),
    (ascii "html", ascii "text/html; charset=UTF-8")]

/-- Where the extension begins; in a name without a point, at 0. -/
def extensionPos (filename : Bytes) : Nat := Lib.behind (Lib.findLastOf filename (chr '.')) 1

def httpopen (d : Disk) (filename : Bytes) (response : HttpResponse) :
    Except Fault HttpResponse := do
  if isFindInDir d filename then
    let s ← substr filename (extensionPos filename) none
    match contentTypes.lookup s with
    | some type =>
        let response := response.setContentType type
        let body ← readFile (d.stream (ascii "../files/" ++ filename))
        return ok response body
    | none => return relocation (response.setResponseBody (ascii "Open file ")) (ascii "/")
  else return relocation response (ascii "/")

def httpdownload (d : Disk) (filename : Bytes) (response : HttpResponse) :
    Except Fault HttpResponse :=
  if isFindInDir d filename then
    match d.openFile (ascii "../files/" ++ filename) with
    | none => openFileSystem d response
    | some (filefd, size) =>
        .ok (((((response.setContentLength (toInt size)).setContentType
          (ascii "application/octet-stream")).setStatusCode .k200K).setBodyType
            (ascii "FILE_TYPE")).setFileId filefd)
  else openFileSystem d response

def httpdelete (d : Disk) (filename : Bytes) (response : HttpResponse) :
    Except Fault HttpResponse :=
  let d :=
    if isFindInDir d filename ∧ d.removes (ascii "../files/" ++ filename) then
      { d with entries := d.entries.map fun entries => entries.erase filename }
    else d
  openFileSystem d response

/-! ## `Http` -/

/-- The result of a search as an `int`; `npos` is -1. -/
def intOf (p : Option Nat) : Int :=
  match p with
  | some i => toInt i
  | none => -1

/-- `int` arguments. One below 0 is a `size_t` beyond any string. -/
def substrInt (s : Bytes) (pos count : Int) : Except Fault Bytes :=
  if pos < 0 then .error .outOfRange
  else substr s pos.toNat (if count < 0 then none else some count.toNat)

def findInt (s pat : Bytes) (pos : Int) : Option Nat :=
  if pos < 0 then none else Lib.find s pat pos.toNat

def login (d : Disk) (body : Bytes) (response : HttpResponse) : Except Fault HttpResponse := do
  let userPos := intOf (Lib.find body (ascii "username=") 0)
  let passPos := intOf (Lib.find body (ascii "password=") 0)
  let userPos := toInt (userPos + 9)
  let passPos := toInt (passPos + 9)
  let andPos := intOf (findInt body (ascii "&") userPos)
  let endPos := toInt body.length
  let username ← substrInt body userPos (toInt (andPos - userPos))
  let password ← substrInt body passPos (toInt (endPos - passPos))
  if username = ascii "xkx" ∧ password = ascii "pig" then openFileSystem d response
  else return relocation response (ascii "/")

def badRequest (response : HttpResponse) : HttpResponse :=
  (response.setStatusCode .k400BADREQUEST).setStatusMessage (ascii "BAD_RESQUEST")

def http (d : Disk) (request : HttpRequest) (response : HttpResponse) :
    Except Fault HttpResponse := do
  if request.getMethodString = ascii "GET" then
    let url := request.url
    if url = ascii "/" then
      let response := response.setContentType (ascii "text/html; charset=UTF-8")
      let body ← readFile (d.stream (ascii "../static/index.html"))
      return ok response body
    else if url.take 5 = ascii "/open" then httpopen d (← substr url 6 none) response
    else if url.take 9 = ascii "/download" then httpdownload d (← substr url 10 none) response
    else if url.take 7 = ascii "/delete" then httpdelete d (← substr url 8 none) response
    else if url.take 5 = ascii "/anom" then
      let response := response.setContentType (ascii "text/html; charset=UTF-8")
      let body ← buildAnomFileHtml d
      return ok response body
    else if url.take 4 = ascii "/ret" then return relocation response (ascii "/")
    else return (badRequest response).setClose
  else if request.getMethodString = ascii "POST" then
    if request.url = ascii "/login" then login d request.body response
    else if request.url = ascii "/upload" then openFileSystem d response
    else return badRequest response
  else return (badRequest response).setClose

/-! ## Requests that are answered -/

def Answer (x : Except Fault HttpResponse) : Prop :=
  ∃ response, x = .ok response ∧
    response.statusCode ∈ [HttpStatusCode.k200K, .k302K, .k400BADREQUEST]

/-- The page is there and has the placeholder in it. -/
def HasPage (d : Disk) (page : Bytes) : Prop :=
  ∃ body, readFile (d.stream page) = .ok body ∧ placeholder <:+: body

structure Site where
  disk : Disk
  index : ∃ body, readFile (disk.stream (ascii "../static/index.html")) = .ok body
  fileserver : HasPage disk (ascii "../static/fileserver.html")
  anomfileserver : HasPage disk (ascii "../static/anomfileserver.html")

def Answers (d : Disk) (request : HttpRequest) : Prop :=
  ∀ response, Answer (http d request response)

def Readable (d : Disk) (filename : Bytes) : Prop :=
  isFindInDir d filename = true →
    (contentTypes.lookup (filename.drop (extensionPos filename))).isSome →
      ∀ is ∈ d.stream (ascii "../files/" ++ filename), 0 ≤ toInt is.tellg

/-- The URL is no bare command, and what it opens can be read. -/
def UrlServed (d : Disk) (url : Bytes) : Prop :=
  url ≠ ascii "/open" ∧ url ≠ ascii "/download" ∧ url ≠ ascii "/delete" ∧
    ∀ ch filename, url = ascii "/open" ++ ch :: filename → Readable d filename

/-- There are eight bytes, and no key whose value begins at a position that is a negative `int`. -/
def LoginServed (body : Bytes) : Prop :=
  8 ≤ body.length ∧ ∀ key ∈ [ascii "username=", ascii "password="],
    ∀ p ∈ Lib.find body key 0, 0 ≤ toInt (p + 9)

def Served (d : Disk) (request : HttpRequest) : Prop :=
  (request.method = .get → UrlServed d request.url) ∧
    (request.method = .post → request.url = ascii "/login" → LoginServed request.body)

/-! ## The handlers answer -/

theorem answer_relocation (response : HttpResponse) (location : Bytes) :
    Answer (.ok (relocation response location)) :=
  ⟨_, rfl, by simp [relocation, HttpResponse.setClose, HttpResponse.addHeader,
    HttpResponse.setStatusMessage, HttpResponse.setStatusCode]⟩

theorem answer_ok (response : HttpResponse) (body : Bytes) : Answer (.ok (ok response body)) :=
  ⟨_, rfl, by simp [ok, HttpResponse.setStatusMessage, HttpResponse.setStatusCode]⟩

theorem answer_badRequest (response : HttpResponse) : Answer (.ok (badRequest response)) :=
  ⟨_, rfl, by simp [badRequest, HttpResponse.setStatusMessage, HttpResponse.setStatusCode]⟩

theorem answer_badRequest_setClose (response : HttpResponse) :
    Answer (.ok (badRequest response).setClose) :=
  ⟨_, rfl, by simp [badRequest, HttpResponse.setClose, HttpResponse.setStatusMessage,
    HttpResponse.setStatusCode]⟩

theorem not_answer_error (e : Fault) : ¬ Answer (.error e) := by
  intro h
  obtain ⟨_, heq, -⟩ := h
  cases heq

theorem exists_buildHtml {d : Disk} {page : Bytes} (h : HasPage d page) (row : Bytes → Bytes) :
    ∃ body, buildHtml d row page = .ok body := by
  obtain ⟨body, hread, hin⟩ := h
  have hfound : Lib.find body placeholder 0 ≠ none := by
    rw [Ne, Lib.find_eq_none_iff (by decide), not_not]
    exact hin
  obtain ⟨i, hi⟩ := Option.ne_none_iff_exists'.1 hfound
  unfold buildHtml
  rw [hread]
  simp only [bind, Except.bind, hi, pure, Except.pure, Except.ok.injEq, exists_eq']

theorem answer_openFileSystem {d : Disk} (h : HasPage d (ascii "../static/fileserver.html"))
    (response : HttpResponse) : Answer (openFileSystem d response) := by
  obtain ⟨body, hbody⟩ := exists_buildHtml h _
  unfold openFileSystem buildFileHtml
  rw [hbody]
  exact answer_ok _ body

theorem answer_httpdownload {d : Disk} (h : HasPage d (ascii "../static/fileserver.html"))
    (filename : Bytes) (response : HttpResponse) : Answer (httpdownload d filename response) := by
  unfold httpdownload
  split
  · split
    · exact answer_openFileSystem h response
    · exact ⟨_, rfl, by simp [HttpResponse.setFileId, HttpResponse.setBodyType,
        HttpResponse.setStatusCode]⟩
  · exact answer_openFileSystem h response

/-- A removal changes the entries only, so the pages are still there. -/
theorem answer_httpdelete {d : Disk} (h : HasPage d (ascii "../static/fileserver.html"))
    (filename : Bytes) (response : HttpResponse) : Answer (httpdelete d filename response) := by
  unfold httpdelete
  dsimp only
  split
  · apply answer_openFileSystem
    exact h
  · exact answer_openFileSystem h response

theorem substr_extension (filename : Bytes) :
    substr filename (extensionPos filename) none =
      .ok (filename.drop (extensionPos filename)) := by
  have hle : extensionPos filename ≤ filename.length := by
    unfold extensionPos
    cases hlast : Lib.findLastOf filename (chr '.') with
    | none => exact Nat.zero_le _
    | some i => exact Lib.findLastOf_lt hlast
  unfold substr Lib.substr
  rw [if_pos hle]

theorem answer_httpopen_iff (d : Disk) (filename : Bytes) (response : HttpResponse) :
    Answer (httpopen d filename response) ↔ Readable d filename := by
  unfold httpopen Readable
  rw [substr_extension]
  simp only [bind, Except.bind, pure, Except.pure]
  cases hfind : isFindInDir d filename with
  | false => exact iff_of_true (answer_relocation _ _) (fun hno => nomatch hno)
  | true =>
      cases htype : contentTypes.lookup (filename.drop (extensionPos filename)) with
      | none => exact iff_of_true (answer_relocation _ _) (fun _ hno => nomatch hno)
      | some type =>
          cases hstream : d.stream (ascii "../files/" ++ filename) with
          | none => exact iff_of_true (answer_ok _ _) (fun _ _ _ hno => nomatch hno)
          | some is =>
              simp only [if_true, readFile, Option.isSome_some, Option.mem_some_iff, forall_const,
                forall_eq']
              by_cases hneg : toInt is.tellg < 0
              · rw [if_pos hneg]
                exact iff_of_false (not_answer_error _) (not_le.2 hneg)
              · rw [if_neg hneg]
                exact iff_of_true (answer_ok _ _) (not_lt.1 hneg)

/-! ## The login -/

theorem toInt_le {n : Int} (h : 0 ≤ n) : toInt n ≤ n := by
  unfold toInt
  rw [Int.bmod_def]
  split <;> omega

/-- Where the value of a key is taken to begin. -/
def valuePos (body key : Bytes) : Int := toInt (intOf (Lib.find body key 0) + 9)

/-- A value begins in the body, or behind its end when the conversions say so. -/
theorem valuePos_iff {body key : Bytes} (hkey : key.length = 9) :
    0 ≤ valuePos body key ∧ (valuePos body key).toNat ≤ body.length ↔
      8 ≤ body.length ∧ ∀ p ∈ Lib.find body key 0, 0 ≤ toInt (p + 9) := by
  unfold valuePos
  cases hfind : Lib.find body key 0 with
  | none =>
      have height : toInt (intOf none + 9) = 8 := by decide
      rw [height]
      simp
  | some p =>
      have hend := Lib.find_add_length_le hfind
      have hpos : toInt (intOf (some p) + 9) = toInt (p + 9) := by
        simp only [intOf, toInt, Int.bmod_add_bmod]
      have hle : toInt (p + 9) ≤ p + 9 := toInt_le (by omega)
      rw [hpos]
      simp only [Option.mem_some_iff, forall_eq']
      constructor
      · intro h
        exact ⟨by omega, h.1⟩
      · intro h
        exact ⟨h.2, by omega⟩

theorem substrInt_ok_iff (s : Bytes) (pos count : Int) :
    (∃ text, substrInt s pos count = .ok text) ↔ 0 ≤ pos ∧ pos.toNat ≤ s.length := by
  unfold substrInt
  by_cases hneg : pos < 0
  · rw [if_pos hneg]
    refine iff_of_false ?_ (fun h => absurd h.1 (not_le.2 hneg))
    intro h
    obtain ⟨_, heq⟩ := h
    cases heq
  · rw [if_neg hneg, and_iff_right (not_lt.1 hneg)]
    unfold substr
    cases hsub : Lib.substr s pos.toNat (if count < 0 then none else some count.toNat) with
    | none =>
        have hlt := Lib.substr_eq_none_iff.1 hsub
        refine iff_of_false ?_ (not_le.2 hlt)
        intro h
        obtain ⟨_, heq⟩ := h
        cases heq
    | some text =>
        refine iff_of_true ⟨text, rfl⟩ (not_lt.1 fun hlt => ?_)
        rw [Lib.substr_eq_none_iff.2 hlt] at hsub
        cases hsub

theorem loginServed_iff (body : Bytes) : LoginServed body ↔
    (0 ≤ valuePos body (ascii "username=") ∧
      (valuePos body (ascii "username=")).toNat ≤ body.length) ∧
    (0 ≤ valuePos body (ascii "password=") ∧
      (valuePos body (ascii "password=")).toNat ≤ body.length) := by
  rw [valuePos_iff (by decide), valuePos_iff (by decide)]
  unfold LoginServed
  rw [List.forall_mem_cons, List.forall_mem_singleton]
  constructor
  · intro h
    exact ⟨⟨h.1, h.2.1⟩, h.1, h.2.2⟩
  · intro h
    exact ⟨h.1.1, h.1.2, h.2.2⟩

theorem answer_login_iff {d : Disk} (h : HasPage d (ascii "../static/fileserver.html"))
    (body : Bytes) (response : HttpResponse) :
    Answer (login d body response) ↔ LoginServed body := by
  let andPos := intOf (findInt body (ascii "&") (valuePos body (ascii "username=")))
  have huser := substrInt_ok_iff body (valuePos body (ascii "username="))
    (toInt (andPos - valuePos body (ascii "username=")))
  have hpass := substrInt_ok_iff body (valuePos body (ascii "password="))
    (toInt (toInt body.length - valuePos body (ascii "password=")))
  rw [loginServed_iff, ← huser, ← hpass]
  change Answer ((substrInt body (valuePos body (ascii "username="))
    (toInt (andPos - valuePos body (ascii "username=")))).bind fun username =>
      (substrInt body (valuePos body (ascii "password="))
        (toInt (toInt body.length - valuePos body (ascii "password=")))).bind fun password =>
          if username = ascii "xkx" ∧ password = ascii "pig" then openFileSystem d response
          else .ok (relocation response (ascii "/"))) ↔ _
  cases substrInt body (valuePos body (ascii "username="))
    (toInt (andPos - valuePos body (ascii "username="))) with
  | error e =>
      refine iff_of_false (not_answer_error e) fun hboth => ?_
      obtain ⟨_, heq⟩ := hboth.1
      cases heq
  | ok username =>
      cases substrInt body (valuePos body (ascii "password="))
        (toInt (toInt body.length - valuePos body (ascii "password="))) with
      | error e =>
          refine iff_of_false (not_answer_error e) fun hboth => ?_
          obtain ⟨_, heq⟩ := hboth.2
          cases heq
      | ok password =>
          refine iff_of_true ?_ ⟨⟨username, rfl⟩, password, rfl⟩
          simp only [Except.bind]
          split
          · exact answer_openFileSystem h response
          · exact answer_relocation response _

/-! ## Commands -/

/-- What begins with a command is the command itself, or it has a byte more, behind which the
argument begins. -/
theorem substr_command {url command : Bytes} {n : Nat} (hn : command.length = n)
    (h : url.take n = command) :
    url = command ∧ substr url (n + 1) none = .error .outOfRange ∨
      ∃ ch more, url = command ++ ch :: more ∧ substr url (n + 1) none = .ok more := by
  have hsplit : url = command ++ url.drop n := by
    conv_lhs => rw [← List.take_append_drop n url, h]
  cases hmore : url.drop n with
  | nil =>
      rw [hmore, List.append_nil] at hsplit
      have hnone : Lib.substr url (n + 1) none = none := by
        rw [Lib.substr_eq_none_iff, hsplit, hn]
        exact Nat.lt_succ_self n
      refine .inl ⟨hsplit, ?_⟩
      unfold substr
      rw [hnone]
  | cons ch more =>
      rw [hmore] at hsplit
      refine .inr ⟨ch, more, hsplit, ?_⟩
      unfold substr Lib.substr
      rw [hsplit, if_pos (by simp [hn]), ← hn]
      simp

theorem answer_command_iff {url command : Bytes} {n : Nat} (hn : command.length = n)
    (h : url.take n = command) {handler : Bytes → Except Fault HttpResponse}
    (hanswer : ∀ more, Answer (handler more)) :
    Answer (substr url (n + 1) none >>= handler) ↔ url ≠ command := by
  rcases substr_command hn h with ⟨hurl, hsub⟩ | ⟨ch, more, hurl, hsub⟩
  · rw [hsub]
    exact iff_of_false (not_answer_error _) (not_not_intro hurl)
  · rw [hsub]
    refine iff_of_true (hanswer more) ?_
    rw [hurl]
    simp

theorem ne_of_take {url command other : Bytes} {n : Nat} (h : url.take n = command)
    (hother : other.take n ≠ command) : url ≠ other := by
  intro heq
  rw [heq] at h
  exact hother h

theorem ne_of_take_ne {url command other : Bytes} {n : Nat} (h : url.take n ≠ command)
    (hother : other.take n = command) : url ≠ other := by
  intro heq
  rw [heq] at h
  exact h hother

theorem urlServed_open (d : Disk) (ch : UInt8) (filename : Bytes) :
    UrlServed d (ascii "/open" ++ ch :: filename) ↔ Readable d filename := by
  have htake : (ascii "/open" ++ ch :: filename).take 5 = ascii "/open" :=
    List.take_left' (by decide)
  unfold UrlServed
  rw [and_iff_right (by simp), and_iff_right (ne_of_take htake (by decide)),
    and_iff_right (ne_of_take htake (by decide))]
  constructor
  · exact fun h => h ch filename rfl
  · intro h ch' filename' heq
    rw [List.append_cancel_left_eq] at heq
    rw [← (List.cons.inj heq).2]
    exact h

theorem urlServed_of_not_open (d : Disk) {url : Bytes} (h : url.take 5 ≠ ascii "/open") :
    UrlServed d url ↔ url ≠ ascii "/download" ∧ url ≠ ascii "/delete" := by
  have hbare : url ≠ ascii "/open" := ne_of_take_ne h (by decide)
  have hmore : ∀ ch filename, url = ascii "/open" ++ ch :: filename → Readable d filename := by
    intro ch filename heq
    rw [heq] at h
    exact absurd (List.take_left' (by decide)) h
  unfold UrlServed
  rw [and_iff_right hbare]
  exact ⟨fun h => ⟨h.1, h.2.1⟩, fun h => ⟨h.1, h.2, hmore⟩⟩

/-! ## All requests -/

theorem answer_get_iff (site : Site) {request : HttpRequest} (hmethod : request.method = .get)
    (response : HttpResponse) :
    Answer (http site.disk request response) ↔ UrlServed site.disk request.url := by
  have hget : request.getMethodString = ascii "GET" := by
    unfold HttpRequest.getMethodString
    rw [hmethod]
    rfl
  unfold http
  rw [if_pos hget]
  generalize request.url = url
  dsimp only
  by_cases hindex : url = ascii "/"
  · obtain ⟨body, hbody⟩ := site.index
    subst hindex
    rw [if_pos rfl, hbody, urlServed_of_not_open _ (by decide)]
    exact iff_of_true (answer_ok _ body) (by decide)
  rw [if_neg hindex]
  by_cases hopen : url.take 5 = ascii "/open"
  · rw [if_pos hopen]
    rcases substr_command (by decide) hopen with ⟨hurl, hsub⟩ | ⟨ch, filename, hurl, hsub⟩
    · rw [hsub]
      exact iff_of_false (not_answer_error _) fun h => h.1 hurl
    · rw [hsub, hurl, urlServed_open]
      exact answer_httpopen_iff site.disk filename response
  rw [if_neg hopen, urlServed_of_not_open _ hopen]
  by_cases hdownload : url.take 9 = ascii "/download"
  · have hdelete : url ≠ ascii "/delete" := ne_of_take hdownload (by decide)
    rw [if_pos hdownload, and_iff_left hdelete]
    exact answer_command_iff (by decide) hdownload fun filename =>
      answer_httpdownload site.fileserver filename response
  rw [if_neg hdownload]
  rw [and_iff_right (ne_of_take_ne hdownload (by decide))]
  by_cases hdelete : url.take 7 = ascii "/delete"
  · rw [if_pos hdelete]
    exact answer_command_iff (by decide) hdelete fun filename =>
      answer_httpdelete site.fileserver filename response
  rw [if_neg hdelete]
  refine iff_of_true ?_ (ne_of_take_ne hdelete (by decide))
  obtain ⟨body, hbody⟩ := exists_buildHtml site.anomfileserver _
  split_ifs
  · unfold buildAnomFileHtml
    rw [hbody]
    exact answer_ok _ body
  · exact answer_relocation response _
  · exact answer_badRequest_setClose response

theorem answer_post_iff (site : Site) {request : HttpRequest} (hmethod : request.method = .post)
    (response : HttpResponse) : Answer (http site.disk request response) ↔
      (request.url = ascii "/login" → LoginServed request.body) := by
  have hpost : request.getMethodString = ascii "POST" := by
    unfold HttpRequest.getMethodString
    rw [hmethod]
    rfl
  unfold http
  rw [hpost, if_neg (by decide), if_pos rfl]
  by_cases hlogin : request.url = ascii "/login"
  · rw [if_pos hlogin, answer_login_iff site.fileserver, forall_prop_of_true hlogin]
  · rw [if_neg hlogin]
    refine iff_of_true ?_ fun h => absurd h hlogin
    split_ifs
    · exact answer_openFileSystem site.fileserver response
    · exact answer_badRequest response

/-- The requests that are answered where every log statement is carried out. -/
theorem answers_disk_iff (site : Site) (request : HttpRequest) :
    Answers site.disk request ↔ Served site.disk request := by
  have hall {P : Prop} (h : ∀ response, Answer (http site.disk request response) ↔ P) :
      Answers site.disk request ↔ P :=
    ⟨fun hanswers => (h { close := false }).1 (hanswers _), fun hp response => (h response).2 hp⟩
  unfold Served
  cases hmethod : request.method with
  | get =>
      rw [hall (answer_get_iff site hmethod)]
      simp
  | post =>
      rw [hall (answer_post_iff site hmethod)]
      simp
  | head | put | delete | invaild =>
      have hother : ∀ response, Answer (http site.disk request response) := by
        intro response
        unfold http HttpRequest.getMethodString
        rw [hmethod, if_neg (by decide), if_neg (by decide)]
        exact answer_badRequest_setClose response
      exact iff_of_true hother (by simp)

theorem readFile_placeholder :
    readFile (some ⟨15, fun _ => placeholder⟩) = .ok placeholder := by
  unfold readFile
  dsimp only
  rw [if_neg (by decide)]

def bareSite : Site where
  disk := {
    entries := some []
    stream := fun _ => some ⟨15, fun _ => placeholder⟩
    openFile := fun _ => none
    removes := fun _ => false }
  index := ⟨placeholder, readFile_placeholder⟩
  fileserver := ⟨placeholder, readFile_placeholder, List.infix_rfl⟩
  anomfileserver := ⟨placeholder, readFile_placeholder, List.infix_rfl⟩

end App

end CPlusServer

import CPlusServer.Http.Disclosure
import CPlusServer.Log.Macro

/-!
# The callback and its log

`Http` and its handlers with the log statements where the source has them. They return
what the handlers of the application return, and what they log on the way is told from
the request and the directory. A statement that is not carried out ends the process.
-/

namespace CPlusServer

/-- What a handler logs on its way, and what it returns or throws. -/
structure Handled (α : Type) where
  logged : List LogLine
  result : Except App.Fault α

namespace Handled

variable {α β : Type}

instance : Monad Handled where
  pure a := ⟨[], .ok a⟩
  bind x f :=
    match x.result with
    | .ok a => ⟨x.logged ++ (f a).logged, (f a).result⟩
    | .error e => ⟨x.logged, .error e⟩

instance : MonadLift (Except App.Fault) Handled := ⟨fun x => ⟨[], x⟩⟩

def log (l : LogLine) : Handled Unit := ⟨[l], .ok ()⟩

@[simp] theorem result_pure (a : α) : (pure a : Handled α).result = .ok a := rfl

@[simp] theorem logged_pure (a : α) : (pure a : Handled α).logged = [] := rfl

theorem result_bind (x : Handled α) (f : α → Handled β) :
    (x >>= f).result = x.result >>= fun a => (f a).result := by
  show (match x.result with
    | .ok a => (⟨x.logged ++ (f a).logged, (f a).result⟩ : Handled β)
    | .error e => ⟨x.logged, .error e⟩).result = _
  cases x.result <;> rfl

theorem logged_bind {x : Handled α} {a : α} (h : x.result = .ok a) (f : α → Handled β) :
    (x >>= f).logged = x.logged ++ (f a).logged := by
  show (match x.result with
    | .ok a => (⟨x.logged ++ (f a).logged, (f a).result⟩ : Handled β)
    | .error e => ⟨x.logged, .error e⟩).logged = _
  rw [h]

end Handled

namespace FileServer

open App

/-! ## Statements -/

def nameLine (level : LogLevel) (line : Int) (what : String) (name : Bytes) (outcome : String) :
    LogLine where
  source := .httpserver
  level := level
  items := [.literal what, .string name, .literal outcome]
  line := .int line

def directoryFailed (line : Int) (dir : Bytes) : LogLine :=
  nameLine .error line "Open directory " dir " failed!"

def filesFound (count : Int) (dir : Bytes) : LogLine where
  source := .httpserver
  level := .info
  items := [.literal "Find ", .integer (.int count), .literal " files in directory ", .string dir]
  line := .int 40

def newMessage (username password : Bytes) : LogLine where
  source := .httpserver
  level := .info
  items := [.literal "New message from POST client ", .string username, .literal " : ", .string password]
  line := .int 242

def loginDone (line : Int) (username : Bytes) (outcome : String) : LogLine where
  source := .httpserver
  level := .info
  items := [.string username, .literal outcome]
  line := .int line

def postFailed : LogLine where
  source := .httpserver
  level := .error
  items := [.literal "Post request failed!"]
  line := .int 253

/-! ## Handlers -/

def findAllFiles (d : Disk) (dir : Bytes) : Handled (List Bytes) :=
  match d.entries with
  | none => do
      Handled.log (directoryFailed 30 dir)
      return []
  | some entries => do
      let files := entries.filter fun filename =>
        decide (filename ≠ ascii "." ∧ filename ≠ ascii "..")
      Handled.log (filesFound files.length dir)
      return files

def isFindInDir (d : Disk) (file dir : Bytes) : Handled Bool :=
  match d.entries with
  | none => do
      Handled.log (directoryFailed 48 dir)
      return false
  | some entries => return entries.contains file

def readFile (d : Disk) (filename : Bytes) : Handled Bytes :=
  match d.stream filename with
  | none => do
      Handled.log (nameLine .error 63 "ReadFile: open file " filename " failed!")
      return []
  | some is => App.readFile (some is)

def buildHtml (d : Disk) (dir : Bytes) (row : Bytes → Bytes) (page : Bytes) : Handled Bytes := do
  let files ← findAllFiles d dir
  let file := files.flatMap row
  let body ← readFile d page
  match Lib.find body placeholder 0 with
  | some i => return body.take i ++ file ++ body.drop (i + placeholder.length)
  | none => (Except.error .outOfRange : Except App.Fault Bytes)

def buildFileHtml (d : Disk) (dir : Bytes) : Handled Bytes :=
  buildHtml d dir (fun filename => ascii "<tr><td>" ++ filename ++
      ascii "</td><td><a href=\"/open/" ++ filename ++
      utf8 "\">浏览</a><a href=\"/download/" ++ utf8 "\">下载</a><a href=\"/delete/" ++
      utf8 "\">删除</a></td></tr>\n")
    (ascii "../static/fileserver.html")

def buildAnomFileHtml (d : Disk) (dir : Bytes) : Handled Bytes :=
  buildHtml d dir (fun filename => ascii "<tr><td>" ++ filename ++
      ascii "</td><td><a href=\"/open/" ++ filename ++ utf8 "\">浏览</a>")
    (ascii "../static/anomfileserver.html")

def openFileSystem (d : Disk) (response : HttpResponse) : Handled HttpResponse := do
  let response := response.setContentType (ascii "text/html; charset=UTF-8")
  let body ← buildFileHtml d (ascii "../files")
  return ok response body

def httpopen (d : Disk) (filename : Bytes) (response : HttpResponse) : Handled HttpResponse := do
  if ← isFindInDir d filename (ascii "../files/") then
    let s ← substr filename (extensionPos filename) none
    match contentTypes.lookup s with
    | some type =>
        let response := response.setContentType type
        let body ← readFile d (ascii "../files/" ++ filename)
        Handled.log (nameLine .info 151 "Open file " filename " success!")
        return ok response body
    | none =>
        Handled.log (nameLine .error 154 "Open file " filename " failed!")
        return relocation (response.setResponseBody (ascii "Open file ")) (ascii "/")
  else
    Handled.log (nameLine .error 160 "Open file " filename " failed!")
    return relocation response (ascii "/")

def httpdownload (d : Disk) (filename : Bytes) (response : HttpResponse) :
    Handled HttpResponse := do
  if ← isFindInDir d filename (ascii "../files/") then
    match d.openFile (ascii "../files/" ++ filename) with
    | none =>
        Handled.log (nameLine .error 168 "Download file " filename " failed!")
        openFileSystem d response
    | some (filefd, size) =>
        let response := ((((response.setContentLength (toInt size)).setContentType
          (ascii "application/octet-stream")).setStatusCode .k200K).setBodyType
            (ascii "FILE_TYPE")).setFileId filefd
        Handled.log (nameLine .info 178 "Download file " filename " success!")
        return response
  else
    Handled.log (nameLine .error 181 "Download file " filename " failed!")
    openFileSystem d response

def httpdelete (d : Disk) (filename : Bytes) (response : HttpResponse) :
    Handled HttpResponse := do
  if ← isFindInDir d filename (ascii "../files/") then
    if d.removes (ascii "../files/" ++ filename) then
      Handled.log (nameLine .info 190 "Delete file " filename " success!")
      openFileSystem { d with entries := d.entries.map fun entries => entries.erase filename }
        response
    else
      Handled.log (nameLine .error 188 "Delete file " filename " failed!")
      openFileSystem d response
  else
    Handled.log (nameLine .error 193 "Delete file " filename " failed!")
    openFileSystem d response

def login (d : Disk) (body : Bytes) (response : HttpResponse) : Handled HttpResponse := do
  let userPos := intOf (Lib.find body (ascii "username=") 0)
  let passPos := intOf (Lib.find body (ascii "password=") 0)
  let userPos := toInt (userPos + 9)
  let passPos := toInt (passPos + 9)
  let andPos := intOf (findInt body (ascii "&") userPos)
  let endPos := toInt body.length
  let username ← substrInt body userPos (toInt (andPos - userPos))
  let password ← substrInt body passPos (toInt (endPos - passPos))
  Handled.log (newMessage username password)
  if username = ascii "xkx" ∧ password = ascii "pig" then
    Handled.log (loginDone 244 username " login success! ")
    openFileSystem d response
  else
    Handled.log (loginDone 247 username " login failed! ")
    return relocation response (ascii "/")

def http (d : Disk) (request : HttpRequest) (response : HttpResponse) : Handled HttpResponse := do
  if request.getMethodString = ascii "GET" then
    let url := request.url
    if url = ascii "/" then
      let response := response.setContentType (ascii "text/html; charset=UTF-8")
      let body ← readFile d (ascii "../static/index.html")
      return ok response body
    else if url.take 5 = ascii "/open" then httpopen d (← substr url 6 none) response
    else if url.take 9 = ascii "/download" then httpdownload d (← substr url 10 none) response
    else if url.take 7 = ascii "/delete" then httpdelete d (← substr url 8 none) response
    else if url.take 5 = ascii "/anom" then
      let response := response.setContentType (ascii "text/html; charset=UTF-8")
      let body ← buildAnomFileHtml d (ascii "../files")
      return ok response body
    else if url.take 4 = ascii "/ret" then return relocation response (ascii "/")
    else return (badRequest response).setClose
  else if request.getMethodString = ascii "POST" then
    if request.url = ascii "/login" then login d request.body response
    else if request.url = ascii "/upload" then openFileSystem d response
    else
      Handled.log postFailed
      return badRequest response
  else return (badRequest response).setClose

/-- `Http` where it is called. None where a log statement ends the process. -/
def callback (site : LogSite) (d : Disk) (request : HttpRequest) (response : HttpResponse) :
    Option (Except App.Fault HttpResponse) :=
  if site.logs 0 (http d request response).logged then some (http d request response).result
  else none

/-- Whatever the response is before, one comes back, and its status code has been set. -/
def Answers (site : LogSite) (d : Disk) (request : HttpRequest) : Prop :=
  ∀ response, ∃ x, callback site d request response = some x ∧ Answer x

/-! ## What is logged -/

def listLines (d : Disk) : List LogLine :=
  match d.entries with
  | none => [directoryFailed 30 (ascii "../files")]
  | some _ => [filesFound (App.findAllFiles d).length (ascii "../files")]

def findLines (d : Disk) : List LogLine :=
  match d.entries with
  | none => [directoryFailed 48 (ascii "../files/")]
  | some _ => []

def readLines (d : Disk) (filename : Bytes) : List LogLine :=
  match d.stream filename with
  | none => [nameLine .error 63 "ReadFile: open file " filename " failed!"]
  | some _ => []

def systemLines (d : Disk) : List LogLine :=
  listLines d ++ readLines d (ascii "../static/fileserver.html")

def openLines (d : Disk) (filename : Bytes) : List LogLine :=
  findLines d ++
    if App.isFindInDir d filename then
      match contentTypes.lookup (filename.drop (extensionPos filename)) with
      | some _ => readLines d (ascii "../files/" ++ filename) ++
          [nameLine .info 151 "Open file " filename " success!"]
      | none => [nameLine .error 154 "Open file " filename " failed!"]
    else [nameLine .error 160 "Open file " filename " failed!"]

def downloadLines (d : Disk) (filename : Bytes) : List LogLine :=
  findLines d ++
    if App.isFindInDir d filename then
      match d.openFile (ascii "../files/" ++ filename) with
      | none => nameLine .error 168 "Download file " filename " failed!" :: systemLines d
      | some _ => [nameLine .info 178 "Download file " filename " success!"]
    else nameLine .error 181 "Download file " filename " failed!" :: systemLines d

def deleteLines (d : Disk) (filename : Bytes) : List LogLine :=
  findLines d ++
    if App.isFindInDir d filename then
      if d.removes (ascii "../files/" ++ filename) then
        nameLine .info 190 "Delete file " filename " success!" ::
          systemLines { d with entries := d.entries.map fun entries => entries.erase filename }
      else nameLine .error 188 "Delete file " filename " failed!" :: systemLines d
    else nameLine .error 193 "Delete file " filename " failed!" :: systemLines d

def loginLines (d : Disk) (body : Bytes) : List LogLine :=
  match credentials body with
  | .error _ => []
  | .ok (username, password) =>
      newMessage username password ::
        if username = ascii "xkx" ∧ password = ascii "pig" then
          loginDone 244 username " login success! " :: systemLines d
        else [loginDone 247 username " login failed! "]

/-- The log statements on the way of a request that is answered. -/
def lines (d : Disk) (request : HttpRequest) : List LogLine :=
  match request.method with
  | .get =>
      let url := request.url
      if url = ascii "/" then readLines d (ascii "../static/index.html")
      else if url.take 5 = ascii "/open" then openLines d (url.drop 6)
      else if url.take 9 = ascii "/download" then downloadLines d (url.drop 10)
      else if url.take 7 = ascii "/delete" then deleteLines d (url.drop 8)
      else if url.take 5 = ascii "/anom" then
        listLines d ++ readLines d (ascii "../static/anomfileserver.html")
      else []
  | .post =>
      if request.url = ascii "/login" then loginLines d request.body
      else if request.url = ascii "/upload" then systemLines d
      else [postFailed]
  | _ => []

/-! ## Handlers return and log -/

/-- The handler returns or throws as the one without a log, and what it logs where it returns are
these lines. -/
structure Does {α : Type} (x : Handled α) (r : Except App.Fault α) (ls : List LogLine) : Prop where
  returns : x.result = r
  logs : ∀ a, r = .ok a → x.logged = ls

namespace Does

variable {α β : Type} {x : Handled α} {f : α → Handled β} {r : Except App.Fault α}
  {g : α → Except App.Fault β} {ls : List LogLine}

theorem of_pure (a : α) : Does (pure a : Handled α) (.ok a) [] := ⟨rfl, fun _ _ => rfl⟩

theorem of_lift (r : Except App.Fault α) : Does (liftM r : Handled α) r [] :=
  ⟨rfl, fun _ _ => rfl⟩

/-- Behind a computation that returns a value the lines are those of what follows. -/
theorem bind {m : α → List LogLine} (hx : Does x r ls)
    (hf : ∀ a, r = .ok a → Does (f a) (g a) (m a)) {all : List LogLine}
    (hall : ∀ a, r = .ok a → all = ls ++ m a) : Does (x >>= f) (r >>= g) all := by
  cases hr : r with
  | error e =>
      have hbind : (x >>= f).result = .error e := by
        rw [Handled.result_bind, hx.returns, hr]
        rfl
      exact ⟨hbind, fun _ hno => by cases hno⟩
  | ok a =>
      have hresult := hx.returns.trans hr
      have hrest := hf a hr
      constructor
      · rw [Handled.result_bind, hresult]
        exact hrest.returns
      · intro b hb
        rw [Handled.logged_bind hresult, hx.logs a hr, hrest.logs b hb, hall a hr]

theorem bind_ok {a : α} (hx : Does x (.ok a) ls) {r : Except App.Fault β} {ls' : List LogLine}
    (hf : Does (f a) r ls') : Does (x >>= f) r (ls ++ ls') := by
  constructor
  · rw [Handled.result_bind, hx.returns]
    exact hf.returns
  · intro b hb
    rw [Handled.logged_bind hx.returns, hx.logs a rfl, hf.logs b hb]

theorem ok_bind {a : α} {y : Handled β} (h : Does y (g a) ls) : Does y (Except.ok a >>= g) ls := h

theorem log_bind {l : LogLine} {y : Unit → Handled β} {r : Except App.Fault β}
    (h : Does (y ()) r ls) : Does (Handled.log l >>= y) r (l :: ls) := by
  have hlog : Does (Handled.log l) (.ok ()) [l] := ⟨rfl, fun _ _ => rfl⟩
  exact hlog.bind_ok h

end Does

theorem findAllFiles_does (d : Disk) :
    Does (findAllFiles d (ascii "../files")) (.ok (App.findAllFiles d)) (listLines d) := by
  unfold findAllFiles listLines App.findAllFiles
  cases d.entries with
  | none => exact .log_bind (.of_pure _)
  | some entries => exact .log_bind (.of_pure _)

theorem isFindInDir_does (d : Disk) (filename : Bytes) :
    Does (isFindInDir d filename (ascii "../files/")) (.ok (App.isFindInDir d filename))
      (findLines d) := by
  unfold isFindInDir findLines App.isFindInDir
  cases d.entries with
  | none => exact .log_bind (.of_pure _)
  | some entries => exact .of_pure _

theorem readFile_does (d : Disk) (filename : Bytes) :
    Does (readFile d filename) (App.readFile (d.stream filename)) (readLines d filename) := by
  unfold readFile readLines
  cases d.stream filename with
  | none => exact .log_bind (.of_pure _)
  | some is => exact .of_lift _

theorem buildHtml_does (d : Disk) (row : Bytes → Bytes) (page : Bytes) :
    Does (buildHtml d (ascii "../files") row page) (App.buildHtml d row page)
      (listLines d ++ readLines d page) := by
  unfold buildHtml App.buildHtml
  refine (findAllFiles_does d).bind (g := fun files => App.readFile (d.stream page) >>= fun body =>
    match Lib.find body placeholder 0 with
    | some i => pure (body.take i ++ files.flatMap row ++ body.drop (i + placeholder.length))
    | none => .error .outOfRange) ?_ fun _ _ => rfl
  intro files _
  refine (readFile_does d page).bind ?_ fun _ _ => (List.append_nil _).symm
  intro body _
  cases Lib.find body placeholder 0 with
  | none => exact .of_lift _
  | some i => exact .of_pure _

theorem openFileSystem_does (d : Disk) (response : HttpResponse) :
    Does (openFileSystem d response) (App.openFileSystem d response) (systemLines d) := by
  unfold openFileSystem App.openFileSystem
  refine (buildHtml_does d _ _).bind ?_ fun _ _ => (List.append_nil _).symm
  intro body _
  exact .of_pure _

theorem httpopen_does (d : Disk) (filename : Bytes) (response : HttpResponse) :
    Does (httpopen d filename response) (App.httpopen d filename response)
      (openLines d filename) := by
  unfold httpopen App.httpopen openLines
  refine (isFindInDir_does d filename).bind_ok ?_
  rw [substr_extension]
  cases App.isFindInDir d filename with
  | false => exact .log_bind (.of_pure _)
  | true =>
      rw [if_pos rfl, if_pos rfl, if_pos rfl]
      refine (Does.of_lift _).bind_ok (.ok_bind ?_)
      dsimp only
      cases contentTypes.lookup (filename.drop (extensionPos filename)) with
      | none => exact .log_bind (.of_pure _)
      | some type =>
          refine (readFile_does d _).bind ?_ fun _ _ => rfl
          intro body _
          exact .log_bind (.of_pure _)

theorem httpdownload_does (d : Disk) (filename : Bytes) (response : HttpResponse) :
    Does (httpdownload d filename response) (App.httpdownload d filename response)
      (downloadLines d filename) := by
  unfold httpdownload App.httpdownload downloadLines
  refine (isFindInDir_does d filename).bind_ok ?_
  cases App.isFindInDir d filename with
  | false => exact .log_bind (openFileSystem_does d response)
  | true =>
      rw [if_pos rfl, if_pos rfl, if_pos rfl]
      cases d.openFile (ascii "../files/" ++ filename) with
      | none => exact .log_bind (openFileSystem_does d response)
      | some file => exact .log_bind (.of_pure _)

theorem httpdelete_does (d : Disk) (filename : Bytes) (response : HttpResponse) :
    Does (httpdelete d filename response) (App.httpdelete d filename response)
      (deleteLines d filename) := by
  unfold httpdelete App.httpdelete deleteLines
  refine (isFindInDir_does d filename).bind_ok ?_
  cases App.isFindInDir d filename with
  | false => exact .log_bind (openFileSystem_does d response)
  | true =>
      rw [if_pos rfl, if_pos rfl]
      cases d.removes (ascii "../files/" ++ filename) with
      | false => exact .log_bind (openFileSystem_does d response)
      | true => exact .log_bind (openFileSystem_does _ response)

theorem login_does (d : Disk) (body : Bytes) (response : HttpResponse) :
    Does (login d body response) (App.login d body response) (loginLines d body) := by
  unfold login App.login loginLines credentials
  dsimp only
  generalize substrInt body (toInt (intOf (Lib.find body (ascii "username=") 0) + 9)) _ = user
  generalize substrInt body (toInt (intOf (Lib.find body (ascii "password=") 0) + 9)) _ = pass
  refine (Does.of_lift user).bind (m := fun _ => _) ?_ fun _ _ => rfl
  intro username huser
  subst huser
  refine (Does.of_lift pass).bind (m := fun _ => _) ?_ fun _ _ => rfl
  intro password hpass
  subst hpass
  refine .log_bind ?_
  split_ifs
  · exact .log_bind (openFileSystem_does d response)
  · exact .log_bind (.of_pure _)

theorem command_does {url : Bytes} {n : Nat} {f : Bytes → Handled HttpResponse}
    {g : Bytes → Except App.Fault HttpResponse} {ls : Bytes → List LogLine}
    (h : ∀ more, Does (f more) (g more) (ls more)) :
    Does (liftM (substr url n none) >>= f) (substr url n none >>= g) (ls (url.drop n)) := by
  refine (Does.of_lift _).bind (m := ls) (fun more _ => h more) fun more hmore => ?_
  unfold substr Lib.substr at hmore
  split_ifs at hmore
  cases hmore
  rfl

theorem http_does (d : Disk) (request : HttpRequest) (response : HttpResponse) :
    Does (http d request response) (App.http d request response) (lines d request) := by
  unfold http App.http lines HttpRequest.getMethodString
  cases request.method with
  | get =>
      have hget : Method.get.text = ascii "GET" := rfl
      rw [if_pos hget, if_pos hget]
      dsimp only
      split_ifs
      · refine (readFile_does d _).bind ?_ fun _ _ => (List.append_nil _).symm
        intro body _
        exact .of_pure _
      · exact command_does fun more => httpopen_does d more response
      · exact command_does fun more => httpdownload_does d more response
      · exact command_does fun more => httpdelete_does d more response
      · refine (buildHtml_does d _ _).bind ?_ fun _ _ => (List.append_nil _).symm
        intro body _
        exact .of_pure _
      · exact .of_pure _
      · exact .of_pure _
  | post =>
      have hget : Method.post.text ≠ ascii "GET" := by decide
      have hpost : Method.post.text = ascii "POST" := rfl
      rw [if_neg hget, if_neg hget, if_pos hpost, if_pos hpost]
      dsimp only
      split_ifs
      · exact login_does d request.body response
      · exact openFileSystem_does d response
      · exact .log_bind (.of_pure _)
  | head | put | delete | invaild =>
      rw [if_neg (by decide), if_neg (by decide), if_neg (by decide), if_neg (by decide)]
      exact .of_pure _

/-! ## Requests that are answered -/

/-- A call is answered when `Http` alone answers it and all that it logs is carried out. -/
theorem answers_call_iff (site : LogSite) (d : Disk) (request : HttpRequest)
    (response : HttpResponse) :
    (∃ x, callback site d request response = some x ∧ Answer x) ↔
      Answer (App.http d request response) ∧ site.TakesAll (lines d request) := by
  have hdoes := http_does d request response
  rw [← site.logs_iff]
  unfold callback
  rw [hdoes.returns]
  constructor
  · intro h
    obtain ⟨x, hx, hanswer⟩ := h
    split_ifs at hx with hlogs
    cases hx
    obtain ⟨response', hok, -⟩ := id hanswer
    rw [hdoes.logs response' hok] at hlogs
    exact ⟨hanswer, hlogs⟩
  · intro h
    obtain ⟨response', hok, -⟩ := id h.1
    rw [hdoes.logs response' hok, if_pos h.2]
    exact ⟨_, rfl, h.1⟩

/-- **Router.** Every request but these is answered with a status of its own: the bare commands, a
file whose size is no `int`, a login without room for the values, and a request with a log
statement on its way that is not carried out. -/
theorem answers_iff (logs : LogSite) (site : Site) (request : HttpRequest) :
    Answers logs site.disk request ↔
      Served site.disk request ∧ logs.TakesAll (lines site.disk request) := by
  rw [← answers_disk_iff]
  unfold Answers
  simp only [answers_call_iff]
  constructor
  · exact fun h => ⟨fun response => (h response).1, (h { close := false }).2⟩
  · exact fun h response => ⟨h.1 response, h.2⟩

def stdoutLogs : LogSite where
  sys := ThreadLocals.newYear
  file := LogSource.name
  now := fun _ => 0
  logger := fun _ => ⟨{}, fun _ hl => by cases hl⟩

def longDownload : HttpRequest :=
  { method := .get, url := ascii "/download/" ++ List.replicate 5000 (chr 'a') }

theorem length_le_front (site : LogSite) (i : Nat) (level : LogLevel) (line : Int)
    (what outcome : String) (name : Bytes) :
    name.length ≤ site.sys.front (site.statement i (nameLine level line what name outcome)) := by
  unfold LogSystem.front LogSite.statement nameLine texts
  simp only [List.flatMap_cons, List.length_append, LogItem.text]
  omega

theorem not_takes_longDownload : ¬ stdoutLogs.TakesAll (lines bareSite.disk longDownload) := by
  have hlines : (lines bareSite.disk longDownload)[0]? =
      some (nameLine .error 181 "Download file " (List.replicate 5000 (chr 'a')) " failed!") := rfl
  intro h
  rcases h 0 _ hlines with hoff | ⟨hroom, -⟩
  · cases hoff.1
  · have hlong := length_le_front stdoutLogs 0 .error 181 "Download file " " failed!"
      (List.replicate 5000 (chr 'a'))
    rw [List.length_replicate] at hlong
    unfold FIXEDBUFFERSIZE at hroom
    omega

/-- `GET /open` has nothing behind the command, a login without a body nothing to search, and the
record of a long name does not stay within its stream. -/
theorem not_answers_bareOpen :
    ¬ Answers stdoutLogs bareSite.disk { method := .get, url := ascii "/open" } ∧
      ¬ Answers stdoutLogs bareSite.disk { method := .post, url := ascii "/login" } ∧
      ¬ Answers stdoutLogs bareSite.disk longDownload := by
  have hopen : App.http bareSite.disk { method := .get, url := ascii "/open" } { close := false } =
      .error .outOfRange := rfl
  have hlogin : App.http bareSite.disk { method := .post, url := ascii "/login" }
      { close := false } = .error .outOfRange := rfl
  refine ⟨fun h => ?_, fun h => ?_, fun h => ?_⟩
  · have hcall := ((answers_call_iff _ _ _ _).1 (h { close := false })).1
    rw [hopen] at hcall
    exact not_answer_error _ hcall
  · have hcall := ((answers_call_iff _ _ _ _).1 (h { close := false })).1
    rw [hlogin] at hcall
    exact not_answer_error _ hcall
  · exact not_takes_longDownload ((answers_call_iff _ _ _ _).1 (h { close := false })).2

end FileServer

end CPlusServer

import CPlusServer.Http.Disclosure
import CPlusServer.Http.Persistence
import CPlusServer.Http.Uploaded
import CPlusServer.Lib.Run

/-!
# The file server as a store

`../files` over the requests of one loop. An upload writes a file before the callback is
called, `/open` and `/download` give one back, `/delete` removes one. What a name gives is
what was last uploaded under it and has not been deleted since.
-/

namespace CPlusServer

def SoundFiles (files : StringMap) : Prop :=
  ∀ name data, files.lookup name = some data → HttpServer.Entry name ∧ data.length < 2 ^ 31

structure Files where
  content : StringMap
  sound : SoundFiles content

/-- A request, and what its system calls meet: whether a file can be opened for writing and be
removed, what `readdir` gives, the descriptor of a file that is opened, and everything outside of
`../files`. An upload is one that a browser sends. -/
structure FileCall where
  request : HttpRequest
  upload : Option Upload
  sent : ∀ u ∈ upload, u.SentIn request
  other : upload = none → ¬ HttpServer.Multipart request
  opens : Bool
  removes : Bool
  entries : List Bytes
  fd : Int
  elsewhere : App.Disk

/-- The directory, the requests with their responses, the last one first, and whether an exception
has ended the process. -/
structure FileStore where
  files : StringMap
  stopped : Bool := false
  served : List (FileCall × HttpResponse) := []

/-! ## The file system -/

def fileAt (files : StringMap) (path : Bytes) : Option Bytes :=
  if ascii "../files/" <+: path then files.lookup (path.drop 9) else none

namespace FileCall

def disk (c : FileCall) (files : StringMap) : App.Disk where
  entries := some c.entries
  stream path :=
    match fileAt files path with
    | some data => some ⟨data.length, data.take⟩
    | none => c.elsewhere.stream path
  openFile path :=
    match fileAt files path with
    | some data => some (c.fd, data.length)
    | none => c.elsewhere.openFile path
  removes path :=
    match fileAt files path with
    | some _ => c.removes
    | none => c.elsewhere.removes path

/-- `readdir` gives each file once, and the two entries that are in every directory. -/
def Lists (c : FileCall) (files : StringMap) : Prop :=
  c.entries.Nodup ∧ c.entries.toFinset = insert (ascii ".") (insert (ascii "..") files.keys)

instance (c : FileCall) (files : StringMap) : Decidable (c.Lists files) :=
  inferInstanceAs (Decidable (_ ∧ _))

/-! ## One request -/

def written (c : FileCall) (files : StringMap) : Option StringMap :=
  if HttpServer.Multipart c.request then
    (HttpServer.fileUpload c.request).map fun file? =>
      match file? with
      | some file => if c.opens then files.insert (file.path.drop 9) file.data else files
      | none => files
  else some files

def removed (c : FileCall) (files : StringMap) : Option Bytes :=
  let filename := c.request.url.drop 8
  if c.request.getMethodString = ascii "GET" ∧ c.request.url.take 7 = ascii "/delete" ∧
      App.isFindInDir (c.disk files) filename ∧
        (c.disk files).removes (ascii "../files/" ++ filename) then some filename
  else none

def left (c : FileCall) (files : StringMap) : StringMap :=
  match c.removed files with
  | some filename => files.erase filename
  | none => files

def fresh (c : FileCall) : HttpResponse := { close := HttpServer.close c.request }

end FileCall

namespace FileStore

/-- `OnHttpReponse` up to the response. None where the entries are not those of the directory. -/
def step (s : FileStore) (c : FileCall) : Option FileStore :=
  if s.stopped then none
  else
    match c.written s.files with
    | none => some { s with stopped := true }
    | some files =>
        if c.Lists files then
          match App.http (c.disk files) c.request c.fresh with
          | .error _ => some { s with files := files, stopped := true }
          | .ok response =>
              some { s with files := c.left files, served := (c, response) :: s.served }
        else none

end FileStore

/-! ## What the store is for -/

def behindCommand (command url : Bytes) : Option Bytes :=
  if url.take command.length = command then
    match url.drop command.length with
    | _ :: name => some name
    | [] => none
  else none

namespace FileCall

def Asks (c : FileCall) (command name : Bytes) : Prop :=
  c.request.method = .get ∧ behindCommand command c.request.url = some name

instance (c : FileCall) (command name : Bytes) : Decidable (c.Asks command name) :=
  inferInstanceAs (Decidable (_ ∧ _))

def upon (c : FileCall) (contents : Bytes → Option Bytes) (name : Bytes) : Option Bytes :=
  match c.upload with
  | some u => if c.opens ∧ u.file.filename = name then some u.data else contents name
  | none => contents name

def after (c : FileCall) (contents : Bytes → Option Bytes) (name : Bytes) : Option Bytes :=
  if c.Asks (ascii "/delete") name ∧ c.removes then none else c.upon contents name

def ShowsFiles (c : FileCall) (contents : Bytes → Option Bytes) : Prop :=
  c.request.method = .post ∧ (c.request.url = ascii "/upload" ∨ c.request.url = ascii "/login" ∧
    App.credentials c.request.body = .ok (ascii "xkx", ascii "pig")) ∨
  ∃ name, c.Asks (ascii "/delete") name ∨ c.Asks (ascii "/download") name ∧ contents name = none ∧
    name ≠ ascii "." ∧ name ≠ ascii ".."

def showing (c : FileCall) (names : List Bytes) : App.Disk :=
  { c.elsewhere with entries := some names }

structure Right (contents : Bytes → Option Bytes) (c : FileCall) (response : HttpResponse) :
    Prop where
  opened : ∀ name type, c.Asks (ascii "/open") name →
    App.contentTypes.lookup (name.drop (App.extensionPos name)) = some type →
      response = match contents name with
        | some data => App.ok (c.fresh.setContentType type) data
        | none => App.relocation c.fresh (ascii "/")
  downloaded : ∀ name data, c.Asks (ascii "/download") name → contents name = some data →
    response.bodyType = ascii "FILE_TYPE" ∧ response.fileId = c.fd ∧
      response.contentLength = data.length ∧ response.statusCode = .k200K
  listed : ∃ names : List Bytes, names.Nodup ∧ (∀ name, name ∈ names ↔ (contents name).isSome) ∧
    (c.ShowsFiles contents → App.openFileSystem (c.showing names) c.fresh = .ok response) ∧
    (c.request.method = .get → c.request.url.take 5 = ascii "/anom" →
      ∃ page, App.buildAnomFileHtml (c.showing names) = .ok page ∧
        response = App.ok (c.fresh.setContentType (ascii "text/html; charset=UTF-8")) page)

end FileCall

/-- What a name gives behind all the requests, the last one first. -/
def stored (initial : Bytes → Option Bytes) : List (FileCall × HttpResponse) → Bytes → Option Bytes
  | [], name => initial name
  | (c, _) :: earlier, name => c.after (stored initial earlier) name

def AllRight (initial : Bytes → Option Bytes) : List (FileCall × HttpResponse) → Prop
  | [] => True
  | (c, response) :: earlier =>
      c.Right (stored initial ((c, response) :: earlier)) response ∧ AllRight initial earlier

/-- Every response was right, and a name gives what is stored while the process runs. -/
structure FileStore.Keeps (initial : Files) (s : FileStore) : Prop where
  right : AllRight (initial.content.lookup ·) s.served
  stores : s.stopped = false →
    ∀ name, s.files.lookup name = stored (initial.content.lookup ·) s.served name

/-! ## The command of a URL -/

theorem behindCommand_eq_some_iff {command url name : Bytes} :
    behindCommand command url = some name ↔ ∃ ch, url = command ++ ch :: name := by
  unfold behindCommand
  constructor
  · intro h
    split at h
    · rename_i htake
      split at h
      · rename_i ch name' hdrop
        cases h
        refine ⟨ch, ?_⟩
        rw [← List.take_append_drop command.length url, htake, hdrop]
      · cases h
    · cases h
  · rintro ⟨ch, rfl⟩
    rw [if_pos (List.take_left), List.drop_left]

namespace App

variable {d : Disk} {request : HttpRequest} {ch : UInt8} {name : Bytes} {response : HttpResponse}

theorem substr_behind (command : Bytes) :
    substr (command ++ ch :: name) (command.length + 1) none = .ok name := by
  unfold substr Lib.substr
  rw [if_pos (by simp)]
  simp

theorem take_ne_of_start {url command start : Bytes} (hstart : url.take 5 = start) {n : Nat}
    (hn : 5 ≤ n) (hcommand : command.take 5 ≠ start) : url.take n ≠ command := by
  rintro rfl
  rw [List.take_take, Nat.min_eq_left hn] at hcommand
  exact hcommand hstart

theorem http_open (hmethod : request.method = .get) (hurl : request.url = ascii "/open" ++ ch :: name) :
    http d request response = httpopen d name response := by
  have hsub : substr request.url 6 none = .ok name := hurl ▸ substr_behind (ascii "/open")
  have hindex : request.url ≠ ascii "/" := hurl ▸ by simp [ascii]
  have hopen : request.url.take 5 = ascii "/open" := hurl ▸ rfl
  unfold http
  rw [if_pos (HttpRequest.getMethodString_eq_get_iff.2 hmethod)]
  dsimp only
  rw [if_neg hindex, if_pos hopen, hsub]
  rfl

theorem http_download (hmethod : request.method = .get)
    (hurl : request.url = ascii "/download" ++ ch :: name) :
    http d request response = httpdownload d name response := by
  have hsub : substr request.url 10 none = .ok name := hurl ▸ substr_behind (ascii "/download")
  have hindex : request.url ≠ ascii "/" := hurl ▸ by simp [ascii]
  have hstart : request.url.take 5 = ascii "/down" := hurl ▸ rfl
  have hopen : request.url.take 5 ≠ ascii "/open" :=
    take_ne_of_start hstart (by decide) (by decide)
  have hdownload : request.url.take 9 = ascii "/download" := hurl ▸ rfl
  unfold http
  rw [if_pos (HttpRequest.getMethodString_eq_get_iff.2 hmethod)]
  dsimp only
  rw [if_neg hindex, if_neg hopen, if_pos hdownload, hsub]
  rfl

theorem http_delete (hmethod : request.method = .get)
    (hurl : request.url = ascii "/delete" ++ ch :: name) :
    http d request response = httpdelete d name response := by
  have hsub : substr request.url 8 none = .ok name := hurl ▸ substr_behind (ascii "/delete")
  have hindex : request.url ≠ ascii "/" := hurl ▸ by simp [ascii]
  have hstart : request.url.take 5 = ascii "/dele" := hurl ▸ rfl
  have hopen : request.url.take 5 ≠ ascii "/open" :=
    take_ne_of_start hstart (by decide) (by decide)
  have hdownload : request.url.take 9 ≠ ascii "/download" :=
    take_ne_of_start hstart (by decide) (by decide)
  have hdelete : request.url.take 7 = ascii "/delete" := hurl ▸ rfl
  unfold http
  rw [if_pos (HttpRequest.getMethodString_eq_get_iff.2 hmethod)]
  dsimp only
  rw [if_neg hindex, if_neg hopen, if_neg hdownload, if_pos hdelete, hsub]
  rfl

theorem http_anom (hmethod : request.method = .get) (hanom : request.url.take 5 = ascii "/anom") :
    http d request response = buildAnomFileHtml d >>= fun body =>
      .ok (ok (response.setContentType (ascii "text/html; charset=UTF-8")) body) := by
  have hindex : request.url ≠ ascii "/" := by
    intro hurl
    rw [hurl] at hanom
    cases hanom
  unfold http
  rw [if_pos (HttpRequest.getMethodString_eq_get_iff.2 hmethod)]
  dsimp only
  rw [if_neg hindex, if_neg (take_ne_of_start hanom (by decide) (by decide)),
    if_neg (take_ne_of_start hanom (by decide) (by decide)),
    if_neg (take_ne_of_start hanom (by decide) (by decide)), if_pos hanom]
  rfl

theorem http_login (hmethod : request.method = .post) (hurl : request.url = ascii "/login") :
    http d request response = login d request.body response := by
  have hpost := HttpRequest.getMethodString_eq_post_iff.2 hmethod
  unfold http
  rw [hpost, if_neg (by decide), if_pos rfl, if_pos hurl]

theorem http_upload (hmethod : request.method = .post) (hurl : request.url = ascii "/upload") :
    http d request response = openFileSystem d response := by
  have hpost := HttpRequest.getMethodString_eq_post_iff.2 hmethod
  unfold http
  rw [hpost, if_neg (by decide), if_pos rfl, hurl, if_neg (by decide), if_pos rfl]

end App

theorem SoundFiles.not_dot {files : StringMap} (h : SoundFiles files) {name : Bytes}
    (hname : name ∈ files) : name ≠ ascii "." ∧ name ≠ ascii ".." := by
  obtain ⟨data, hdata⟩ := Finmap.mem_iff.1 hname
  have hentry := (h name data hdata).1
  exact ⟨hentry.ne_dot, hentry.ne_dots⟩

namespace FileCall

variable {c : FileCall} {files : StringMap} {name data : Bytes}

theorem Asks.url {command : Bytes} (h : c.Asks command name) :
    ∃ ch, c.request.url = command ++ ch :: name :=
  behindCommand_eq_some_iff.1 h.2

/-! ## The upload -/

def uploaded (c : FileCall) (files : StringMap) : StringMap :=
  match c.upload with
  | some u => if c.opens then files.insert u.file.filename u.data else files
  | none => files

theorem written_eq (c : FileCall) (files : StringMap) : c.written files = some (c.uploaded files) := by
  unfold written uploaded
  cases hupload : c.upload with
  | none => rw [if_neg (c.other hupload)]
  | some u =>
      have hsent := c.sent u hupload
      rw [if_pos hsent.multipart, hsent.fileUpload]
      rfl

theorem lookup_uploaded (c : FileCall) (files : StringMap) (name : Bytes) :
    (c.uploaded files).lookup name = c.upon (files.lookup ·) name := by
  unfold uploaded upon
  cases c.upload with
  | none => rfl
  | some u =>
      cases c.opens with
      | false => rfl
      | true =>
          dsimp only
          rw [if_pos rfl]
          by_cases hname : u.file.filename = name
          · rw [if_pos ⟨rfl, hname⟩, hname, Finmap.lookup_insert]
          · rw [if_neg fun h => hname h.2, Finmap.lookup_insert_of_ne _ (Ne.symm hname)]

theorem soundFiles_uploaded (h : SoundFiles files) : SoundFiles (c.uploaded files) := by
  intro name data hdata
  rw [lookup_uploaded] at hdata
  unfold upon at hdata
  split at hdata
  · rename_i u _
    split at hdata
    · rename_i hname
      cases hdata
      exact ⟨hname.2 ▸ u.entry, u.length_data_lt⟩
    · exact h name data hdata
  · exact h name data hdata

/-! ## The directory -/

theorem fileAt_files (files : StringMap) (name : Bytes) :
    fileAt files (ascii "../files/" ++ name) = files.lookup name := by
  unfold fileAt
  rw [if_pos (List.prefix_append _ _)]
  rfl

theorem stream_files (h : files.lookup name = some data) :
    (c.disk files).stream (ascii "../files/" ++ name) = some ⟨data.length, data.take⟩ := by
  unfold disk
  dsimp only
  rw [fileAt_files, h]

theorem openFile_files (h : files.lookup name = some data) :
    (c.disk files).openFile (ascii "../files/" ++ name) = some (c.fd, (data.length : Int)) := by
  unfold disk
  dsimp only
  rw [fileAt_files, h]

theorem removes_files (h : files.lookup name = some data) :
    (c.disk files).removes (ascii "../files/" ++ name) = c.removes := by
  unfold disk
  dsimp only
  rw [fileAt_files, h]

theorem isFindInDir_iff : App.isFindInDir (c.disk files) name = true ↔ name ∈ c.entries :=
  List.contains_iff_mem

theorem Lists.mem_iff (h : c.Lists files) :
    name ∈ c.entries ↔ name = ascii "." ∨ name = ascii ".." ∨ name ∈ files := by
  rw [← List.mem_toFinset, h.2, Finset.mem_insert, Finset.mem_insert, Finmap.mem_keys]

theorem Lists.found (h : c.Lists files) (hname : name ∈ files) :
    App.isFindInDir (c.disk files) name = true :=
  isFindInDir_iff.2 (h.mem_iff.2 (.inr (.inr hname)))

/-! ## The deletion -/

theorem removed_of_asks (h : c.Asks (ascii "/delete") name) : c.removed files =
    if App.isFindInDir (c.disk files) name ∧ (c.disk files).removes (ascii "../files/" ++ name) then
      some name
    else none := by
  obtain ⟨ch, hurl⟩ := h.url
  have hname : c.request.url.drop 8 = name := hurl ▸ rfl
  have hdelete : c.request.url.take 7 = ascii "/delete" := hurl ▸ rfl
  unfold removed
  dsimp only
  rw [hname]
  refine if_congr ?_ rfl rfl
  rw [and_iff_right (HttpRequest.getMethodString_eq_get_iff.2 h.1), and_iff_right hdelete]

/-- Only a `GET` whose URL begins with the command removes anything. -/
theorem removed_eq_none (h : c.request.method = .get → c.request.url.take 7 ≠ ascii "/delete") :
    c.removed files = none :=
  if_neg fun hall => h (HttpRequest.getMethodString_eq_get_iff.1 hall.1) hall.2.1

theorem removed_eq_some_iff (hlists : c.Lists files) (hsound : SoundFiles files)
    (h : files.lookup name = some data) :
    c.removed files = some name ↔ c.Asks (ascii "/delete") name ∧ c.removes = true := by
  constructor
  · intro hremoved
    unfold removed at hremoved
    dsimp only at hremoved
    split at hremoved
    · rename_i hall
      have hname := Option.some.inj hremoved
      have hsplit : c.request.url = ascii "/delete" ++ c.request.url.drop 7 := by
        conv_lhs => rw [← List.take_append_drop 7 c.request.url, hall.2.1]
      cases hrest : c.request.url.drop 7 with
      | nil =>
          rw [hrest] at hsplit
          rw [hsplit] at hname
          exact absurd hname.symm (hsound name data h).1.ne_nil
      | cons ch name' =>
          rw [hrest] at hsplit
          rw [hsplit] at hname
          have hurl : c.request.url = ascii "/delete" ++ ch :: name := hsplit.trans (hname ▸ rfl)
          have hremoves := hall.2.2.2
          rw [hsplit, hname, removes_files h] at hremoves
          exact ⟨⟨HttpRequest.getMethodString_eq_get_iff.1 hall.1,
            behindCommand_eq_some_iff.2 ⟨ch, hurl⟩⟩, hremoves⟩
    · cases hremoved
  · rintro ⟨hasks, hremoves⟩
    rw [removed_of_asks hasks, if_pos]
    exact ⟨hlists.found (Finmap.mem_of_lookup_eq_some h), (removes_files h).trans hremoves⟩

theorem lookup_left (hlists : c.Lists files) (hsound : SoundFiles files) (name : Bytes) :
    (c.left files).lookup name =
      if c.Asks (ascii "/delete") name ∧ c.removes then none else files.lookup name := by
  unfold left
  cases hfile : files.lookup name with
  | none =>
      have hno := Finmap.lookup_eq_none.1 hfile
      rw [ite_self]
      cases c.removed files with
      | none => exact hfile
      | some filename => exact Finmap.lookup_eq_none.2 fun hin => hno (Finmap.mem_erase.1 hin).2
  | some data =>
      have hiff := removed_eq_some_iff hlists hsound hfile
      by_cases hgone : c.Asks (ascii "/delete") name ∧ c.removes = true
      · rw [if_pos hgone, hiff.2 hgone]
        exact Finmap.lookup_erase name files
      · have hother : c.removed files ≠ some name := mt hiff.1 hgone
        rw [if_neg hgone]
        cases hremoved : c.removed files with
        | none => exact hfile
        | some filename =>
            have hne : name ≠ filename := fun heq => hother (heq ▸ hremoved)
            exact (Finmap.lookup_erase_ne hne).trans hfile

theorem soundFiles_left (h : SoundFiles files) : SoundFiles (c.left files) := by
  unfold left
  cases c.removed files with
  | none => exact h
  | some filename =>
      intro name data hdata
      by_cases hname : name = filename
      · rw [hname, Finmap.lookup_erase] at hdata
        cases hdata
      · rw [Finmap.lookup_erase_ne hname] at hdata
        exact h name data hdata

theorem left_of_kept (h : c.request.method = .get → c.request.url.take 7 ≠ ascii "/delete") :
    c.left files = files := by
  unfold left
  rw [removed_eq_none h]

/-! ## The list -/

def remaining (c : FileCall) (files : StringMap) : List Bytes :=
  match c.removed files with
  | some filename => c.entries.erase filename
  | none => c.entries

def diskLeft (c : FileCall) (files : StringMap) : App.Disk :=
  { c.disk files with entries := some (c.remaining files) }

theorem diskLeft_of_kept (h : c.request.method = .get → c.request.url.take 7 ≠ ascii "/delete") :
    c.diskLeft files = c.disk files := by
  unfold diskLeft remaining
  rw [removed_eq_none h]
  rfl

theorem mem_findAllFiles (hlists : c.Lists files) (hsound : SoundFiles files) :
    name ∈ App.findAllFiles (c.diskLeft files) ↔ name ∈ c.left files := by
  have hkept : name ∈ files → name ≠ ascii "." ∧ name ≠ ascii ".." := hsound.not_dot
  have hmem := @Lists.mem_iff c files name hlists
  unfold App.findAllFiles diskLeft remaining left
  dsimp only
  rw [List.mem_filter, decide_eq_true_iff]
  cases c.removed files with
  | none =>
      dsimp only
      rw [hmem]
      tauto
  | some filename =>
      dsimp only
      rw [hlists.1.mem_erase_iff, Finmap.mem_erase, hmem]
      tauto

theorem nodup_findAllFiles (hlists : c.Lists files) :
    (App.findAllFiles (c.diskLeft files)).Nodup := by
  unfold App.findAllFiles diskLeft remaining
  dsimp only
  apply List.Nodup.filter
  cases c.removed files with
  | none => exact hlists.1
  | some filename => exact hlists.1.erase filename

theorem findAllFiles_showing (d : App.Disk) :
    App.findAllFiles (c.showing (App.findAllFiles d)) = App.findAllFiles d := by
  unfold showing App.findAllFiles
  cases d.entries with
  | none => rfl
  | some entries => exact List.filter_eq_self.2 fun name hname => (List.mem_filter.1 hname).2

/-- A page is no file of the directory. -/
theorem stream_showing {page : Bytes} (h : ¬ ascii "../files/" <+: page) (names : List Bytes) :
    (c.showing names).stream page = (c.diskLeft files).stream page := by
  have hpage : fileAt files page = none := if_neg h
  unfold showing diskLeft disk
  dsimp only
  rw [hpage]

theorem openFileSystem_showing :
    App.openFileSystem (c.showing (App.findAllFiles (c.diskLeft files))) c.fresh =
      App.openFileSystem (c.diskLeft files) c.fresh :=
  App.openFileSystem_of_files (findAllFiles_showing _) (stream_showing (by decide) _) _

theorem buildAnomFileHtml_showing :
    App.buildAnomFileHtml (c.showing (App.findAllFiles (c.diskLeft files))) =
      App.buildAnomFileHtml (c.diskLeft files) :=
  App.buildHtml_congr (findAllFiles_showing _) (stream_showing (by decide) _) _

/-! ## The responses -/

theorem inInt_length (hsound : SoundFiles files) (h : files.lookup name = some data) :
    InInt data.length := by
  have hsmall := (hsound name data h).2
  constructor <;> omega

theorem readFile_files (hsound : SoundFiles files) (h : files.lookup name = some data) :
    App.readFile ((c.disk files).stream (ascii "../files/" ++ name)) = .ok data := by
  rw [stream_files h]
  unfold App.readFile
  dsimp only
  rw [toInt_of_inInt (inInt_length hsound h), if_neg (by omega), Int.toNat_natCast, List.take_length]

/-- A dot has no type. -/
theorem isFindInDir_of_typed (hlists : c.Lists files) {type : Bytes}
    (htype : App.contentTypes.lookup (name.drop (App.extensionPos name)) = some type) :
    App.isFindInDir (c.disk files) name = true ↔ name ∈ files := by
  rw [isFindInDir_iff, hlists.mem_iff]
  constructor
  · rintro (rfl | rfl | hin)
    · cases htype
    · cases htype
    · exact hin
  · exact fun hin => .inr (.inr hin)

theorem httpopen_typed (hlists : c.Lists files) (hsound : SoundFiles files) {type : Bytes}
    (htype : App.contentTypes.lookup (name.drop (App.extensionPos name)) = some type) :
    App.httpopen (c.disk files) name c.fresh = .ok (match files.lookup name with
      | some data => App.ok (c.fresh.setContentType type) data
      | none => App.relocation c.fresh (ascii "/")) := by
  have hfound := isFindInDir_of_typed hlists htype
  unfold App.httpopen
  cases hfile : files.lookup name with
  | none =>
      rw [if_neg fun h => Finmap.lookup_eq_none.1 hfile (hfound.1 h)]
      rfl
  | some data =>
      rw [if_pos (hfound.2 (Finmap.mem_of_lookup_eq_some hfile)), App.substr_extension]
      simp only [bind, Except.bind, htype, readFile_files hsound hfile]
      rfl

theorem httpdownload_missing (hlists : c.Lists files) (hfile : files.lookup name = none)
    (hdot : name ≠ ascii "." ∧ name ≠ ascii "..") :
    App.httpdownload (c.disk files) name c.fresh = App.openFileSystem (c.disk files) c.fresh := by
  have hfound : ¬ App.isFindInDir (c.disk files) name = true := by
    rw [isFindInDir_iff, hlists.mem_iff]
    rintro (h | h | h)
    · exact hdot.1 h
    · exact hdot.2 h
    · exact Finmap.lookup_eq_none.1 hfile h
  unfold App.httpdownload
  rw [if_neg hfound]

theorem right_downloaded (hlists : c.Lists files) (hsound : SoundFiles files)
    (hfile : files.lookup name = some data) {response : HttpResponse}
    (h : App.httpdownload (c.disk files) name c.fresh = .ok response) :
    response.bodyType = ascii "FILE_TYPE" ∧ response.fileId = c.fd ∧
      response.contentLength = data.length ∧ response.statusCode = .k200K := by
  unfold App.httpdownload at h
  rw [if_pos (hlists.found (Finmap.mem_of_lookup_eq_some hfile)), openFile_files hfile] at h
  rw [← Except.ok.inj h, toInt_of_inInt (inInt_length hsound hfile)]
  simp only [HttpResponse.setFileId, HttpResponse.setBodyType, HttpResponse.setStatusCode,
    HttpResponse.setContentType, HttpResponse.addHeader, HttpResponse.setContentLength, and_self]

/-- A deletion shows what is left. -/
theorem http_delete_left (h : c.Asks (ascii "/delete") name) :
    App.http (c.disk files) c.request c.fresh = App.openFileSystem (c.diskLeft files) c.fresh := by
  obtain ⟨ch, hurl⟩ := h.url
  rw [App.http_delete h.1 hurl]
  unfold App.httpdelete diskLeft remaining
  rw [removed_of_asks h]
  dsimp only
  by_cases hgone : App.isFindInDir (c.disk files) name = true ∧
      (c.disk files).removes (ascii "../files/" ++ name) = true
  · rw [if_pos hgone, if_pos hgone]
    rfl
  · rw [if_neg hgone, if_neg hgone]
    rfl

/-- Another command than `/delete` leaves the directory as it is. -/
theorem Asks.kept {command : Bytes} (h : c.Asks command name) (hlong : 5 ≤ command.length)
    (hother : (ascii "/delete").take 5 ≠ command.take 5) :
    c.request.url.take 7 ≠ ascii "/delete" := by
  obtain ⟨ch, hurl⟩ := h.url
  have hstart : c.request.url.take 5 = command.take 5 := by
    rw [hurl, List.take_append_of_le_length hlong]
  exact App.take_ne_of_start hstart (by decide) hother

theorem http_of_showsFiles (hlists : c.Lists files)
    (h : c.ShowsFiles ((c.left files).lookup ·)) :
    App.http (c.disk files) c.request c.fresh = App.openFileSystem (c.diskLeft files) c.fresh := by
  rcases h with ⟨hpost, hurl⟩ | ⟨name, hasks | ⟨hasks, hmissing, hdot⟩⟩
  · have hget : c.request.method ≠ .get := by
      rw [hpost]
      exact nofun
    rw [diskLeft_of_kept fun h => absurd h hget]
    rcases hurl with hurl | ⟨hurl, hright⟩
    · exact App.http_upload hpost hurl
    · rw [App.http_login hpost hurl, App.login_eq, hright]
      simp only [bind, Except.bind, and_self, if_true]
  · exact http_delete_left hasks
  · have hkept := hasks.kept (by decide) (by decide)
    obtain ⟨ch, hurl⟩ := hasks.url
    dsimp only at hmissing
    rw [left_of_kept fun _ => hkept] at hmissing
    rw [diskLeft_of_kept fun _ => hkept, App.http_download hasks.1 hurl]
    exact httpdownload_missing hlists hmissing hdot

theorem right_of_http (hlists : c.Lists files) (hsound : SoundFiles files) {response : HttpResponse}
    (h : App.http (c.disk files) c.request c.fresh = .ok response) :
    c.Right ((c.left files).lookup ·) response := by
  constructor
  · intro name type hasks htype
    obtain ⟨ch, hurl⟩ := hasks.url
    rw [App.http_open hasks.1 hurl, httpopen_typed hlists hsound htype] at h
    rw [left_of_kept fun _ => hasks.kept (by decide) (by decide)]
    exact (Except.ok.inj h).symm
  · intro name data hasks hdata
    obtain ⟨ch, hurl⟩ := hasks.url
    rw [left_of_kept fun _ => hasks.kept (by decide) (by decide)] at hdata
    rw [App.http_download hasks.1 hurl] at h
    exact right_downloaded hlists hsound hdata h
  · refine ⟨App.findAllFiles (c.diskLeft files), nodup_findAllFiles hlists, fun name => ?_, ?_, ?_⟩
    · exact (mem_findAllFiles hlists hsound).trans Finmap.lookup_isSome.symm
    · intro hshows
      rw [openFileSystem_showing, ← http_of_showsFiles hlists hshows, h]
    · intro hget hanom
      have hkept : c.request.url.take 7 ≠ ascii "/delete" :=
        App.take_ne_of_start hanom (by decide) (by decide)
      rw [App.http_anom hget hanom] at h
      rw [buildAnomFileHtml_showing, diskLeft_of_kept fun _ => hkept]
      cases hpage : App.buildAnomFileHtml (c.disk files) with
      | error e =>
          rw [hpage] at h
          cases h
      | ok page =>
          rw [hpage] at h
          exact ⟨page, rfl, (Except.ok.inj h).symm⟩

end FileCall

namespace FileStore

variable {s s' : FileStore} {c : FileCall}

theorem step_cases (h : step s c = some s') : s.stopped = false ∧
    (s' = { s with files := c.uploaded s.files, stopped := true } ∨
      ∃ response, c.Lists (c.uploaded s.files) ∧
        App.http (c.disk (c.uploaded s.files)) c.request c.fresh = .ok response ∧
          s' = { s with
            files := c.left (c.uploaded s.files), served := (c, response) :: s.served }) := by
  unfold step at h
  rw [c.written_eq] at h
  split at h
  · cases h
  · rename_i hrunning
    refine ⟨eq_false_of_ne_true hrunning, ?_⟩
    dsimp only at h
    split at h
    · rename_i hlists
      split at h
      · exact .inl (Option.some.inj h).symm
      · rename_i response hresponse
        exact .inr ⟨response, hlists, hresponse, (Option.some.inj h).symm⟩
    · cases h

structure Good (initial : Files) (s : FileStore) : Prop where
  keeps : s.Keeps initial
  sound : SoundFiles s.files

theorem good_step {initial : Files} (h : s.Good initial) (hstep : step s c = some s') :
    s'.Good initial := by
  have hsound : SoundFiles (c.uploaded s.files) := FileCall.soundFiles_uploaded h.sound
  obtain ⟨hrunning, rfl | ⟨response, hlists, hresponse, rfl⟩⟩ := step_cases hstep
  · exact ⟨⟨h.keeps.right, nofun⟩, hsound⟩
  · have hstored : stored (initial.content.lookup ·) s.served = (s.files.lookup ·) :=
      funext fun name => (h.keeps.stores hrunning name).symm
    have hnow : stored (initial.content.lookup ·) ((c, response) :: s.served) =
        ((c.left (c.uploaded s.files)).lookup ·) := by
      funext name
      unfold stored FileCall.after
      rw [hstored, FileCall.lookup_left hlists hsound, FileCall.lookup_uploaded]
    refine ⟨⟨⟨?_, h.keeps.right⟩, fun _ name => (congrFun hnow name).symm⟩,
      FileCall.soundFiles_left hsound⟩
    rw [hnow]
    exact FileCall.right_of_http hlists hsound hresponse

/-- **The store.** Over any requests, every file that is shown, sent or listed is what was last
uploaded under its name and not deleted since, and no other is. -/
theorem keeps_of_run (initial : Files) (calls : List FileCall) :
    Lib.Always step (Keeps initial) { files := initial.content } calls := by
  have hstart : Good initial { files := initial.content } :=
    ⟨⟨trivial, fun _ _ => rfl⟩, initial.sound⟩
  have hrun : Lib.Always step (Good initial) { files := initial.content } calls :=
    Lib.always_of_keeps (fun s c s' h hstep => good_step h hstep) hstart calls
  exact hrun.mono fun s h => h.keeps

end FileStore

end CPlusServer

import CPlusServer.Http.Accepted
import CPlusServer.Http.Parse
import CPlusServer.Log.LogStream
import CPlusServer.Log.Room

/-!
# The record of a request

`OnHttpRequest` writes an INFO record for every request that the parser accepts.
Its pieces are put together in a `LogStream`, whose `Errif` ends the process, and
nothing bounds the URL among them.
-/

namespace CPlusServer

inductive LogLevel
  | debug | info | warn | error | fatal
  deriving DecidableEq, Repr

def LogLevel.value : LogLevel → Nat
  | .debug => 0
  | .info => 1
  | .warn => 2
  | .error => 3
  | .fatal => 4

def LogLevel.text : LogLevel → Bytes
  | .debug => ascii "DEBUG   " ++ [NUL]
  | .info => ascii "INFO    " ++ [NUL]
  | .warn => ascii "WARN    " ++ [NUL]
  | .error => ascii "ERROR   " ++ [NUL]
  | .fatal => ascii "FATAL   " ++ [NUL]

/-- `g_output`: the default, or `Append` of a logger. -/
inductive LogOutput
  | stdout (written : Bytes)
  | async (l : AsyncLogging)

structure LogSetting where
  level : LogLevel := .info
  output : LogOutput := .stdout []

structure LogThread where
  tTime : Bytes
  microseconds : Nat
  tid : Nat
  tTime_length : tTime.length = 64
  microseconds_lt : microseconds < 1000000

namespace LogThread

/-- A number with `fill` in front of it, as `%06d` and `%5d` write it. -/
def padded (fill : Char) (width n : Nat) : Bytes :=
  List.replicate (width - (stdToString n).length) (chr fill) ++ stdToString n

/-- `us.GetValue()`: the text in an array of 32 zeros. -/
def us (t : LogThread) : Bytes :=
  let text := chr '.' :: padded '0' 6 t.microseconds ++ [chr 'Z']
  text ++ List.replicate (32 - text.length) NUL

def strTid (t : LogThread) : Bytes := padded ' ' 5 t.tid

end LogThread

def FixedBuffer.appendAll {size : Nat} (b : FixedBuffer size) :
    List Bytes → Except LogFault (FixedBuffer size)
  | [] => .ok b
  | piece :: pieces => do
      let b ← b.append piece
      b.appendAll pieces

namespace Logger

def begin (t : LogThread) (level : LogLevel) : Except LogFault LogStream := do
  let stream ← ({} : LogStream).appendAll [t.tTime.take 17, t.us.take 9]
  stream.appendAll [t.strTid, ascii " ", level.text.take 9]

def finish (stream : LogStream) (file : Bytes) (line : Int) : Except LogFault LogStream := do
  let stream ← stream.appendAll [ascii "-", file, ascii ":"]
  let stream ← stream.formatInteger line
  stream.append (ascii "\n")

def requestText : Bytes := ascii ", request successfully. Method:"

/-- The record of `OnHttpRequest`; `file` is `__FILE__`. -/
def record (t : LogThread) (file : Bytes) (request : HttpRequest) : Except LogFault LogStream := do
  let stream ← begin t .info
  let stream ← stream.appendAll [request.url, requestText, request.getMethodString]
  finish stream file 48

end Logger

def LogOutput.emit (record : Bytes) : LogOutput → Except LogFault LogOutput
  | .stdout written => .ok (.stdout (written ++ record))
  | .async l => do
      let l ← l.append record
      return .async l

def LogSetting.logRequest (g : LogSetting) (t : LogThread) (file : Bytes) (request : HttpRequest) :
    Except LogFault LogSetting :=
  if g.level.value ≤ LogLevel.info.value then do
    let stream ← Logger.record t file request
    let output ← g.output.emit stream.data
    return { g with output := output }
  else .ok g

/-! ## The length of a record -/

namespace FixedBuffer

variable {size : Nat}

theorem append_of_fits {b : FixedBuffer size} {buf : Bytes} (h : b.data.length + buf.length < size) :
    ∃ b', b.append buf = .ok b' ∧ b'.data = b.data ++ buf := by
  have hspace : b.getSpace > buf.length := by
    unfold getSpace
    omega
  unfold append
  rw [dif_pos hspace]
  exact ⟨_, rfl, rfl⟩

theorem append_of_not_fits {b : FixedBuffer size} {buf : Bytes}
    (h : ¬ b.data.length + buf.length < size) : b.append buf = .error .errif := by
  have hspace : ¬ b.getSpace > buf.length := by
    unfold getSpace
    omega
  unfold append
  rw [dif_neg hspace]

theorem appendAll_append (b : FixedBuffer size) (ps qs : List Bytes) :
    b.appendAll (ps ++ qs) = b.appendAll ps >>= fun b' => b'.appendAll qs := by
  induction ps generalizing b with
  | nil => rfl
  | cons p ps ih =>
      rw [List.cons_append, appendAll, appendAll, bind_assoc]
      congr 1
      funext b'
      exact ih b'

theorem appendAll_of_fits {b : FixedBuffer size} {ps : List Bytes}
    (h : b.data.length + ps.flatten.length < size) :
    ∃ b', b.appendAll ps = .ok b' ∧ b'.data = b.data ++ ps.flatten := by
  induction ps generalizing b with
  | nil => exact ⟨b, rfl, by simp⟩
  | cons p ps ih =>
      rw [List.flatten_cons, List.length_append] at h
      obtain ⟨b₁, hfirst, hdata⟩ := @append_of_fits _ b p (by omega)
      obtain ⟨b', hrest, hdata'⟩ := @ih b₁ (by rw [hdata, List.length_append]; omega)
      refine ⟨b', ?_, ?_⟩
      · rw [appendAll, hfirst]
        exact hrest
      · rw [hdata', hdata, List.flatten_cons, List.append_assoc]

/-- The first piece without room is met with what was put in front of it. -/
theorem appendAll_of_not_fits {b : FixedBuffer size} {ps : List Bytes} (hne : ps ≠ [])
    (h : ¬ b.data.length + ps.flatten.length < size) : b.appendAll ps = .error .errif := by
  induction ps generalizing b with
  | nil => exact absurd rfl hne
  | cons p ps ih =>
      rw [List.flatten_cons, List.length_append] at h
      rw [appendAll]
      by_cases hp : b.data.length + p.length < size
      · obtain ⟨b₁, hfirst, hdata⟩ := append_of_fits hp
        rw [hfirst]
        refine @ih b₁ ?_ (by rw [hdata, List.length_append]; omega)
        intro hnil
        rw [hnil, List.flatten_nil, List.length_nil] at h
        omega
      · rw [append_of_not_fits hp]
        rfl

end FixedBuffer

namespace LogThread

theorem length_us_take (t : LogThread) : (t.us.take 9).length = 9 := by
  unfold us
  dsimp only
  rw [List.length_take, List.length_append, List.length_replicate]
  omega

theorem length_tTime_take (t : LogThread) : (t.tTime.take 17).length = 17 := by
  rw [List.length_take, t.tTime_length]
  rfl

end LogThread

namespace Logger

/-- The length of a record with these texts in it, its line number of two digits included. -/
def recordLength (t : LogThread) (file url method : Bytes) : Nat :=
  17 + 9 + t.strTid.length + 1 + 9 + url.length + requestText.length + method.length +
    1 + file.length + 1 + 2 + 1

def pieces (t : LogThread) (file : Bytes) (request : HttpRequest) : List Bytes :=
  [t.tTime.take 17, t.us.take 9, t.strTid, ascii " ", LogLevel.info.text.take 9, request.url,
    requestText, request.getMethodString, ascii "-", file, ascii ":"]

theorem record_eq (t : LogThread) (file : Bytes) (request : HttpRequest) :
    record t file request = (do
      let stream ← ({} : LogStream).appendAll (pieces t file request)
      let stream ← stream.formatInteger 48
      stream.append (ascii "\n")) := by
  have hpieces : pieces t file request = [t.tTime.take 17, t.us.take 9] ++
      ([t.strTid, ascii " ", LogLevel.info.text.take 9] ++
        ([request.url, requestText, request.getMethodString] ++ [ascii "-", file, ascii ":"])) := rfl
  rw [hpieces, FixedBuffer.appendAll_append]
  unfold record begin finish
  simp only [bind_assoc, FixedBuffer.appendAll_append]

theorem length_pieces (t : LogThread) (file : Bytes) (request : HttpRequest) :
    (pieces t file request).flatten.length + 3 =
      recordLength t file request.url request.getMethodString := by
  have hlevel : (LogLevel.info.text.take 9).length = 9 := by decide
  have hmarks : (ascii " ").length = 1 ∧ (ascii "-").length = 1 ∧ (ascii ":").length = 1 := by decide
  unfold pieces recordLength
  simp only [List.flatten_cons, List.flatten_nil, List.length_append, List.length_nil,
    t.length_tTime_take, t.length_us_take, hlevel, hmarks.1, hmarks.2.1, hmarks.2.2]
  omega

theorem record_of_fits {t : LogThread} {file : Bytes} {request : HttpRequest}
    (h : recordLength t file request.url request.getMethodString + 45 < FIXEDBUFFERSIZE) :
    ∃ stream, record t file request = .ok stream ∧
      stream.data.length = recordLength t file request.url request.getMethodString := by
  have hlength := length_pieces t file request
  have hempty : ({} : LogStream).data = [] := rfl
  obtain ⟨s₁, hpieces, hdata₁⟩ :=
    @FixedBuffer.appendAll_of_fits _ ({} : LogStream) (pieces t file request)
      (by rw [hempty, List.length_nil]; omega)
  rw [hempty, List.nil_append] at hdata₁
  have hspace : s₁.getSpace > KMAXNUMERICSIZE := by
    unfold FixedBuffer.getSpace KMAXNUMERICSIZE
    rw [hdata₁]
    omega
  have hline : IntegerType.int32.Holds 48 := ⟨by decide, by decide⟩
  obtain ⟨s₂, hformat, hdata₂⟩ := FixedBuffer.formatInteger_data hspace hline
  have hdigits : (digitLoop 48).1.reverse.length = 2 := by
    rw [show (48 : Int) = (48 : Nat) from rfl, digitLoop_natCast]
    decide
  obtain ⟨s₃, hend, hdata₃⟩ := @FixedBuffer.append_of_fits _ s₂ (ascii "\n") (by
    rw [hdata₂, List.length_append, hdigits, hdata₁]
    have hone : (ascii "\n").length = 1 := by decide
    omega)
  refine ⟨s₃, ?_, ?_⟩
  · rw [record_eq, hpieces]
    show (do
      let stream ← s₁.formatInteger 48
      stream.append (ascii "\n")) = _
    rw [hformat]
    exact hend
  · have hone : (ascii "\n").length = 1 := by decide
    rw [hdata₃, hdata₂, hdata₁, List.length_append, List.length_append, hdigits, hone]
    omega

theorem record_of_not_fits {t : LogThread} {file : Bytes} {request : HttpRequest}
    (h : ¬ recordLength t file request.url request.getMethodString + 45 < FIXEDBUFFERSIZE) :
    record t file request = .error .errif := by
  have hlength := length_pieces t file request
  have hempty : ({} : LogStream).data = [] := rfl
  rw [record_eq]
  by_cases hfits : (pieces t file request).flatten.length < FIXEDBUFFERSIZE
  · obtain ⟨s₁, hpieces, hdata₁⟩ :=
      @FixedBuffer.appendAll_of_fits _ ({} : LogStream) (pieces t file request)
        (by rw [hempty, List.length_nil]; omega)
    have hspace : ¬ s₁.getSpace > KMAXNUMERICSIZE := by
      unfold FixedBuffer.getSpace KMAXNUMERICSIZE
      rw [hdata₁, hempty, List.nil_append]
      omega
    rw [hpieces]
    show (do
      let stream ← s₁.formatInteger 48
      stream.append (ascii "\n")) = _
    unfold FixedBuffer.formatInteger
    rw [if_neg hspace]
    rfl
  · have hne : pieces t file request ≠ [] := List.cons_ne_nil _ _
    rw [FixedBuffer.appendAll_of_not_fits hne (by rw [hempty, List.length_nil]; omega)]
    rfl

end Logger

/-! ## The request of a text -/

def methodText (text : Bytes) : Bytes :=
  text.takeWhile (fun ch => !isupper ch) ++
    (text.dropWhile fun ch => !isupper ch).takeWhile fun ch => !isblank ch

def behindMethod (text : Bytes) : Bytes :=
  (text.dropWhile fun ch => !isupper ch).dropWhile fun ch => !isblank ch

def uriText (text : Bytes) : Bytes :=
  ((behindMethod text).dropWhile fun ch => ch ≠ chr '/').takeWhile fun ch =>
    !isblank ch && ch ≠ chr '?'

example : uriText (ascii "GET /a?k=v HTTP/1.1\r\n\r\n") = ascii "/a" := by decide

namespace LooseHead

theorem print_start (h : LooseHead) (rest : Bytes) : ∃ ch more,
    (isblank ch = true ∨ ch = chr '?') ∧ h.print ++ rest =
      h.junk ++ (h.method ++ h.blank₁ :: (h.gap ++ (h.path ++ ch :: more))) := by
  let behind := h.skip ++ (h.protocol ++ chr '/' :: (h.version ++ CR :: LF ::
    (h.headers.flatMap LooseHeader.print ++ CR :: (h.stop ++ LF :: rest))))
  unfold print
  cases hquery : h.paramPairs with
  | nil =>
      refine ⟨h.blank₂, behind, .inl h.blank₂_ok, ?_⟩
      simp [printQueryPairs, behind]
  | cons kv kvs =>
      refine ⟨chr '?', printPairs (kv :: kvs) ++ h.blank₂ :: behind, .inr rfl, ?_⟩
      simp [printQueryPairs, behind]

theorem dropWhile_junk (h : LooseHead) (more : Bytes) :
    (h.junk ++ (h.method ++ more)).dropWhile (fun ch => !isupper ch) = h.method ++ more := by
  have hjunk : ∀ ch ∈ h.junk, (!isupper ch) = true := fun ch hch => by simp [h.junk_ok ch hch]
  obtain ⟨c, hc, hupper⟩ := h.method_head
  rw [List.dropWhile_append_of_pos hjunk]
  cases hm : h.method with
  | nil =>
      rw [hm] at hc
      cases hc
  | cons m ms =>
      rw [hm] at hc
      cases hc
      rw [List.cons_append, List.dropWhile_cons_of_neg (by simp [hupper])]

theorem method_nonblank (h : LooseHead) : ∀ ch ∈ h.method, isblank ch = false := by
  obtain ⟨c, hc, hupper⟩ := h.method_head
  refine forall_of_head_tail ⟨c, hc, ?_⟩ h.method_ok
  by_contra hblank
  have halpha := isalpha_of_isblank (Bool.eq_true_of_not_eq_false hblank)
  unfold isalpha at halpha
  rw [hupper] at halpha
  cases halpha

theorem methodText_print (h : LooseHead) (rest : Bytes) :
    methodText (h.print ++ rest) = h.junk ++ h.method := by
  obtain ⟨ch, more, -, htext⟩ := h.print_start rest
  have hjunk : ∀ ch ∈ h.junk, (!isupper ch) = true := fun ch hch => by simp [h.junk_ok ch hch]
  have hmethod : ∀ ch ∈ h.method, (!isblank ch) = true := fun ch hch => by
    simp [h.method_nonblank ch hch]
  obtain ⟨c, hc, hupper⟩ := h.method_head
  unfold methodText
  rw [htext, h.dropWhile_junk, List.takeWhile_append_of_pos hjunk,
    List.takeWhile_append_of_pos hmethod, List.takeWhile_cons_of_neg (by simp [h.blank₁_ok]),
    List.append_nil]
  cases hm : h.method with
  | nil =>
      rw [hm] at hc
      cases hc
  | cons m ms =>
      rw [hm] at hc
      cases hc
      rw [List.cons_append, List.takeWhile_cons_of_neg (by simp [hupper]), List.append_nil]

theorem uriText_print (h : LooseHead) (rest : Bytes) : uriText (h.print ++ rest) = h.path := by
  obtain ⟨ch, more, hch, htext⟩ := h.print_start rest
  have hmethod : ∀ ch ∈ h.method, (!isblank ch) = true := fun ch hch => by
    simp [h.method_nonblank ch hch]
  have hgap : ∀ ch ∈ h.blank₁ :: h.gap, decide (ch ≠ chr '/') = true := by
    intro ch hch
    rcases List.mem_cons.1 hch with rfl | hch
    · exact decide_eq_true (ne_of_isblank h.blank₁_ok isblank_marks.1)
    · exact decide_eq_true (h.gap_ok ch hch)
  have hpath : ∀ ch ∈ h.path, (!isblank ch && decide (ch ≠ chr '?')) = true := by
    have hok : ∀ ch ∈ h.path, isblank ch = false ∧ ch ≠ chr '?' :=
      forall_of_head_tail ⟨chr '/', h.path_head, by decide⟩ h.path_ok
    intro ch hch
    simp [(hok ch hch).1, (hok ch hch).2]
  have hstop : ¬ (fun c => !isblank c && decide (c ≠ chr '?')) ch = true := by
    rcases hch with hblank | rfl
    · simp [hblank]
    · simp
  have hslash : ∀ l, (h.path ++ l).dropWhile (fun ch => decide (ch ≠ chr '/')) = h.path ++ l := by
    intro l
    obtain ⟨tail, htail⟩ := List.head?_eq_some_iff.1 h.path_head
    rw [htail, List.cons_append, List.dropWhile_cons_of_neg (by simp)]
  unfold uriText behindMethod
  rw [htext, h.dropWhile_junk, List.dropWhile_append_of_pos hmethod,
    List.dropWhile_cons_of_neg (by simp [h.blank₁_ok]), ← List.cons_append,
    List.dropWhile_append_of_pos hgap, hslash, List.takeWhile_append_of_pos hpath,
    List.takeWhile_cons_of_neg (p := fun c => !isblank c && decide (c ≠ chr '?')) hstop,
    List.append_nil]

end LooseHead

namespace LogSetting

/-! ## The call -/

/-- A record of `n` bytes fills the current buffer of the logger to the last byte. -/
def Fills (g : LogSetting) (n : Nat) : Prop :=
  ∃ l, g.output = .async l ∧ ∃ b : LargeBuffer, l.currentBuffer = some b ∧ b.getSpace = n

def lengthFor (t : LogThread) (file text : Bytes) : Nat :=
  Logger.recordLength t file (uriText text) (HttpRequest.methodOf (methodText text)).text

/-- Where a record goes, it is taken unless it fills a large buffer to the last byte. -/
theorem emit_iff {g : LogSetting} {record : Bytes}
    (hsound : ∀ l, g.output = .async l → AsyncLogging.Sound l)
    (hrecord : record.length < FIXEDLARGEBUFFFERSIZE) :
    g.output.emit record ≠ .error .errif ↔ ¬ g.Fills record.length := by
  cases hout : g.output with
  | stdout written =>
      refine iff_of_true (fun hno => by cases hno) fun hfills => ?_
      obtain ⟨l, hl, -⟩ := hfills
      rw [hout] at hl
      cases hl
  | async l =>
      have hl := hsound l hout
      obtain ⟨b, hb⟩ := hl.exists_target record
      have hfills : g.Fills record.length ↔ l.Exact record := by
        constructor
        · intro h
          obtain ⟨l', hl', hexact⟩ := h
          rw [hout] at hl'
          cases hl'
          exact hexact
        · exact fun h => ⟨l, hout, h⟩
      rw [hfills, ← hl.room_iff hrecord hb, ← hl.append_ne_errif_iff hb]
      exact bind_pure_ne_error_iff

theorem logRequest_iff {g : LogSetting} {t : LogThread} {file : Bytes} {request : HttpRequest}
    (hsound : ∀ l, g.output = .async l → AsyncLogging.Sound l) :
    g.logRequest t file request ≠ .error .errif ↔ LogLevel.info.value < g.level.value ∨
      Logger.recordLength t file request.url request.getMethodString + 45 < FIXEDBUFFERSIZE ∧
        ¬ g.Fills (Logger.recordLength t file request.url request.getMethodString) := by
  unfold logRequest
  by_cases hlevel : g.level.value ≤ LogLevel.info.value
  · rw [if_pos hlevel, or_iff_right (Nat.not_lt.2 hlevel)]
    by_cases hfits : Logger.recordLength t file request.url request.getMethodString + 45 <
        FIXEDBUFFERSIZE
    · obtain ⟨stream, hrecord, hlength⟩ := Logger.record_of_fits hfits
      have hlarge : stream.data.length < FIXEDLARGEBUFFFERSIZE :=
        Nat.lt_of_le_of_lt stream.fits (by decide)
      rw [and_iff_right hfits, ← hlength, ← emit_iff hsound hlarge, hrecord]
      exact bind_pure_ne_error_iff
    · rw [Logger.record_of_not_fits hfits]
      exact iff_of_false (fun hno => hno rfl) fun hno => hfits hno.1
  · rw [if_neg hlevel]
    exact iff_of_true (fun hno => by cases hno) (.inl (Nat.not_le.1 hlevel))

/-- **Logging a request.** The record of a request that was accepted reaches no `Errif` exactly when
INFO is switched off, or the record leaves room for a number and does not fill the current buffer
of the logger to the last byte. -/
theorem logRequest_ne_errif_iff {g : LogSetting} {t : LogThread} {file text : Bytes}
    {q : HttpRequest} {ctx' : HttpContext}
    (hlogger : ∀ l, g.output = .async l → ∃ acts s,
      Lib.runFrom Logged.step (.ok {}) acts = some (.ok s) ∧ s.logging = l)
    (hcall : HttpContext.Returns ⟨.start, q⟩ text ctx' true) :
    g.logRequest t file ctx'.request ≠ .error .errif ↔ LogLevel.info.value < g.level.value ∨
      lengthFor t file text + 45 < FIXEDBUFFERSIZE ∧ ¬ g.Fills (lengthFor t file text) := by
  have hsound : ∀ l, g.output = .async l → AsyncLogging.Sound l := by
    intro l hl
    obtain ⟨acts, s, hrun, rfl⟩ := hlogger l hl
    have hkept : Logged.Kept (.ok s) :=
      Lib.runFrom_keeps (fun _ _ _ _ hk hstep => hk.step hstep) Logged.kept_fresh hrun
    exact hkept.1
  obtain ⟨h, rest, rfl, -, rfl⟩ := LooseHead.returns_iff.1 hcall
  obtain ⟨body, hbody⟩ := h.result_request q rest
  have hlength : lengthFor t file (h.print ++ rest) =
      Logger.recordLength t file (h.result q rest).request.url
        (h.result q rest).request.getMethodString := by
    unfold lengthFor
    rw [h.uriText_print, h.methodText_print, hbody]
    rfl
  rw [hlength]
  exact logRequest_iff hsound

def firstThread : LogThread where
  tTime := List.replicate 64 NUL
  microseconds := 0
  tid := 1
  tTime_length := List.length_replicate
  microseconds_lt := by decide

theorem logRequest_getSample :
    ({} : LogSetting).logRequest firstThread (ascii "HttpServer.cpp") Request.getSample.value ≠
        .error .errif ↔
      LogLevel.info.value < ({} : LogSetting).level.value ∨
        lengthFor firstThread (ascii "HttpServer.cpp") Request.getSample.print + 45 <
            FIXEDBUFFERSIZE ∧
          ¬ ({} : LogSetting).Fills
            (lengthFor firstThread (ascii "HttpServer.cpp") Request.getSample.print) := by
  have hcall : HttpContext.Returns ⟨.start, {}⟩ Request.getSample.print
      ⟨.complete, Request.getSample.value⟩ true := Request.getSample.returns_print
  have hlogger : ∀ l, ({} : LogSetting).output = .async l → ∃ acts s,
      Lib.runFrom Logged.step (.ok {}) acts = some (.ok s) ∧ s.logging = l := by
    intro l hl
    cases hl
  have hiff := @logRequest_ne_errif_iff {} firstThread (ascii "HttpServer.cpp") _ _ _ hlogger hcall
  exact hiff

def longPath : Bytes := chr '/' :: List.replicate 4096 (chr 'a')

theorem length_longPath : longPath.length = 4097 := by
  unfold longPath
  rw [List.length_cons, List.length_replicate]

theorem longPath_ok : ∀ ch ∈ longPath, Plain ch ∧ ch ≠ chr '?' := by
  intro ch hch
  rcases List.mem_cons.1 hch with rfl | hch
  · decide
  · rw [List.eq_of_mem_replicate hch]
    decide

def longHead : Head :=
  { Request.getSample.head with path := longPath, path_head := rfl, path_ok := longPath_ok }

theorem length_longHead : longHead.print.length + 2 = Request.getSample.head.print.length + 4097 := by
  have hpath : Request.getSample.head.path.length = 2 := by decide
  rw [← hpath, ← length_longPath]
  unfold Head.print
  simp only [List.length_append, longHead]
  omega

def longSample : Request where
  head := longHead
  body := Request.getSample.body
  framed := Request.getSample.framed
  small := by
    have hlength := length_longHead
    have hshort : Request.getSample.head.print.length + Request.getSample.body.length < 100 := by
      decide
    omega

/-- The request is accepted, and its record ends the process. -/
theorem logRequest_longSample :
    HttpContext.Returns {} longSample.print ⟨.complete, longSample.value⟩ true ∧
      ({} : LogSetting).logRequest firstThread (ascii "HttpServer.cpp") longSample.value =
        .error .errif := by
  refine ⟨longSample.returns_print, ?_⟩
  have hurl : longSample.value.url.length = 4097 := by
    exact length_longPath
  have hlong : ¬ Logger.recordLength firstThread (ascii "HttpServer.cpp") longSample.value.url
      longSample.value.getMethodString + 45 < FIXEDBUFFERSIZE := by
    unfold Logger.recordLength FIXEDBUFFERSIZE
    omega
  unfold logRequest
  rw [Logger.record_of_not_fits hlong]
  rfl

end LogSetting

end CPlusServer

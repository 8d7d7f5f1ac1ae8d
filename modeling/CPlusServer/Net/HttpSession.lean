import CPlusServer.Http.Framable
import CPlusServer.Http.Persistence
import CPlusServer.Log.Macro
import CPlusServer.Net.Buffered
import CPlusServer.Net.Input
import CPlusServer.Net.SendFile

/-!
# HTTP on one connection

`OnHttpRequest` with all that is below it: the read event, the parser on the context of
the connection, the record of the request, the upload, the callback of the application
and the response. Whatever is read and however the responses are written, a client
reads back the responses that have been made, in order; and of what is still under way
a first part of them.
-/

namespace CPlusServer

/-- The callback of the application, none where it throws. What it makes of a fresh response can be
framed. -/
structure Application where
  httpCallBack : HttpRequest → HttpResponse → Option HttpResponse
  framable : ∀ request close, ∀ response ∈ httpCallBack request { close := close },
    response.Framable

def App.application (d : App.Disk) : Application where
  httpCallBack request response := (App.http d request response).toOption
  framable := by
    intro request close response hresponse
    apply App.frames_http d request (HttpResponse.framable_fresh close)
    cases hhttp : App.http d request { close := close } with
    | error e =>
        rw [hhttp] at hresponse
        cases hresponse
    | ok made =>
        rw [hhttp] at hresponse
        cases hresponse
        rfl

/-- Why a request is the last thing that its loop does. `buffer` is a fault of `output_buffer_`. -/
inductive HttpStop
  | hangs | overrun | logger | upload | application | buffer
  deriving DecidableEq

/-- What `OnHttpRequest` meets beside its connection: the logger, the thread and `__FILE__` of its
record, the application, the order of its headers, the file that it has opened with the results of
`sendfile`, and the result of `write`. -/
structure HttpCall where
  logger : LoggerInUse
  thread : LogThread
  source : Bytes
  app : Application
  order : HttpResponse → List (Bytes × Bytes)
  iterates : ∀ r, Iterates r.header (order r)
  file : Bytes
  sendfiles : List SendfileResult
  w : WriteResult

/-- One connection of the HTTP server. `requests` are those that the callback has been given, and
`answers` what it has made of them; `sent` is what has been passed to `Send`, and `accepted` what
has reached the socket. `refused` tells that a 400 has been sent. -/
structure HttpSession (n : Nat) where
  conn : Connection n
  output : Buffer := {}
  context : HttpContext := {}
  stopped : Option HttpStop := none
  requests : List HttpRequest := []
  answers : List HttpResponse := []
  refused : Bool := false
  sent : Bytes := []
  accepted : Bytes := []

inductive HttpAct
  | readReady (results : List ReadResult) (call : HttpCall)
  | writeReady (w : WriteResult)

namespace HttpSession

variable {n : Nat} {s s' : HttpSession n} {call : HttpCall}

/-- What `OnHttpRequest` makes of its connection, by the verdict on the input. A fault of `Append`
comes behind the `write`. -/
def answer (s : HttpSession n) (verdict : Verdict) (w : WriteResult) : HttpSession n :=
  let s' := { s with
    sent := s.sent ++ verdict.payload
    accepted := s.accepted ++ written (s.conn.onHttpRequest verdict w).2 }
  match s.output.onHttpRequest verdict w with
  | .ok output => { s' with conn := (s.conn.onHttpRequest verdict w).1, output := output }
  | .error _ => { s' with stopped := some .buffer }

/-- The bytes of `SendFile`, if the response has one; none while its loop still asks. -/
def fileBytes (call : HttpCall) (response : HttpResponse) : Option Bytes :=
  if response.bodyType = ascii "HTML_TYPE" then some []
  else (Connection.sendFile call.file response.contentLength call.sendfiles).map Prod.fst

def refuse (s : HttpSession n) (w : WriteResult) : HttpSession n :=
  { s.answer .badRequest w with refused := true }

/-- `SendFile` behind the `Send` of a response, if that has come back. -/
def sendFile (s : HttpSession n) (call : HttpCall) (response : HttpResponse) :
    Option (HttpSession n) :=
  if s.stopped.isSome then some s
  else (fileBytes call response).map fun bytes => { s with accepted := s.accepted ++ bytes }

def respond (s : HttpSession n) (call : HttpCall) (response : HttpResponse) :
    Option (HttpSession n) :=
  ({ s with answers := s.answers ++ [response] }.answer
    (.complete (response.reply (call.order response))) call.w).sendFile call response

/-- `OnHttpReponse`. An exception that no one catches ends the process. -/
def onHttpReponse (s : HttpSession n) (call : HttpCall) : Option (HttpSession n) :=
  let request := s.context.request
  match if HttpServer.Multipart request then HttpServer.fileUpload request else some none with
  | none => some { s with stopped := some .upload }
  | some _ =>
      let s := { s with requests := s.requests ++ [request] }
      match call.app.httpCallBack request { close := HttpServer.close request } with
      | none => some { s with stopped := some .application }
      | some response => s.respond call response

def onHttpRequest (s : HttpSession n) (call : HttpCall) : Option (HttpSession n) :=
  match s.context.outcome s.conn.inputBuffer with
  | .hangs => some { s with stopped := some .hangs }
  | .overrun => some { s with stopped := some .overrun }
  | .returned context =>
      let s := { s with context := context }
      if context.state = .complete ∨ context.state = .body then
        match call.logger.setting.logRequest call.thread call.source context.request with
        | .error _ => some { s with stopped := some .logger }
        | .ok _ =>
            if context.isComplete then
              (s.onHttpReponse call).map fun s => { s with context := s.context.resetState }
            else some (s.answer .incomplete call.w)
      else some (s.refuse call.w)

def listenClientMessage (s : HttpSession n) (data : List Bytes × ReadEnd) (call : HttpCall) :
    Option (HttpSession n) :=
  let s := { s with conn := (s.conn.read data.1 data.2).1 }
  if s.conn.state ≠ .connected then some s else s.onHttpRequest call

def sendClientMessage (s : HttpSession n) (w : WriteResult) : HttpSession n :=
  match s.conn.sendOutput s.output w with
  | .ok output => { s with
      conn := (s.conn.sendClientMessage w).1
      output := output
      accepted := s.accepted ++ written (s.conn.sendClientMessage w).2 }
  | .error _ => { s with stopped := some .buffer }

def step (s : HttpSession n) (a : HttpAct) : Option (HttpSession n) :=
  if s.stopped.isSome then none
  else
    match a with
    | .readReady results call =>
        (readCall results).bind fun data => s.listenClientMessage data call
    | .writeReady w => some (s.sendClientMessage w)

def fresh (fd : Nat) (loop : Fin (n + 1)) (channel : Channel) : HttpSession n :=
  { conn := { fd := fd, loop := loop, channel := channel } }

end HttpSession

/-! ## What `OnHttpRequest` finds and writes -/

namespace Connection

variable {n : Nat}

theorem read_of_eagain {c : Connection n} (h : c.state = .connected) (chunks : List Bytes) :
    c.read chunks .eagain = ({ c with inputBuffer := chunks.flatten }, []) := by
  unfold read
  rw [if_neg (not_not_intro h)]
  rfl

theorem outputBuffer_read (c : Connection n) (chunks : List Bytes) (readEnd : ReadEnd) :
    (c.read chunks readEnd).1.outputBuffer = c.outputBuffer := by
  unfold read readNonBlocking
  split
  · rfl
  · cases readEnd <;> rfl

theorem connected_read {c : Connection n} {chunks : List Bytes} {readEnd : ReadEnd}
    (h : (c.read chunks readEnd).1.state = .connected) : c.state = .connected ∧ readEnd = .eagain := by
  unfold read at h
  by_cases hstate : c.state = .connected
  · rw [if_neg (not_not_intro hstate)] at h
    cases readEnd with
    | eagain => exact ⟨hstate, rfl⟩
    | eof | error => cases h
  · rw [if_pos hstate] at h
    exact absurd h hstate

end Connection

namespace HttpSession

variable {n : Nat} {s s' : HttpSession n} {call : HttpCall}

/-! ## Runs -/

def InMemoryOnly (s : HttpSession n) : Prop := ∀ r ∈ s.answers, r.bodyType = ascii "HTML_TYPE"

/-- While no file is sent, the socket gets what is passed to `Send`, in order, and `output_buffer_`
has what it has not got yet; what is passed to `Send` are the responses, as long as they keep the
connection open. -/
structure Sound (s : HttpSession n) : Prop where
  accepted : s.InMemoryOnly → s.accepted <+: s.sent
  holds : s.stopped = none → s.output.Holds s.conn.outputBuffer
  whole : s.InMemoryOnly → s.stopped = none → s.conn.state = .connected →
    s.accepted ++ s.conn.outputBuffer = s.sent
  texts : s.refused = false → (∀ r ∈ s.answers, r.Plain) → ∃ ms : List InMemory,
    ms.map InMemory.response = s.answers ∧ ms.flatMap InMemory.print = s.sent
  opened : s.stopped ≠ some .buffer → s.conn.state = .connected →
    s.refused = false ∧ ∀ r ∈ s.answers, r.close = false
  counted : s.stopped = none → s.answers.length = s.requests.length

theorem sound_fresh (fd : Nat) (loop : Fin (n + 1)) (channel : Channel) :
    Sound (fresh fd loop channel) :=
  ⟨fun _ => List.prefix_rfl, fun _ => Buffer.holds_fresh, fun _ _ _ => rfl,
    fun _ _ => ⟨[], rfl, rfl⟩,
    fun _ _ => ⟨rfl, List.forall_mem_nil _⟩, fun _ => rfl⟩

theorem Sound.stop (h : s.Sound) (hrun : s.stopped = none) (context : HttpContext)
    (requests : List HttpRequest) (why : HttpStop) :
    { s with context := context, requests := requests, stopped := some why }.Sound :=
  ⟨h.accepted, (fun hno => nomatch hno), (fun _ hno => nomatch hno), h.texts,
    fun _ => h.opened (by rw [hrun]; decide), (fun hno => nomatch hno)⟩

/-- What is answered is in the queue and in `output_buffer_`, or that has faulted. -/
theorem answer_cases (s : HttpSession n) (verdict : Verdict) (w : WriteResult) :
    (∃ output, s.output.onHttpRequest verdict w = .ok output ∧
      s.answer verdict w = { s with
        conn := (s.conn.onHttpRequest verdict w).1
        output := output
        sent := s.sent ++ verdict.payload
        accepted := s.accepted ++ written (s.conn.onHttpRequest verdict w).2 }) ∨
      s.answer verdict w = { s with
        sent := s.sent ++ verdict.payload
        accepted := s.accepted ++ written (s.conn.onHttpRequest verdict w).2
        stopped := some .buffer } := by
  unfold answer
  dsimp only
  cases s.output.onHttpRequest verdict w with
  | ok output => exact .inl ⟨output, rfl, rfl⟩
  | error fault => exact .inr rfl

theorem Sound.answer (h : s.Sound) (hrun : s.stopped = none) (hstate : s.conn.state = .connected)
    (context : HttpContext) (w : WriteResult) :
    ({ s with context := context }.answer .incomplete w).Sound ∧
      ({ s with context := context }.refuse w).Sound := by
  constructor
  · have hsent : s.sent ++ [] = s.sent := List.append_nil _
    have haccepted : s.accepted ++ [] = s.accepted := List.append_nil _
    refine ⟨fun hhtml => ?_, h.holds, fun hhtml _ _ => ?_, fun hno hplain => ?_, h.opened, h.counted⟩
    · show s.accepted ++ [] <+: s.sent ++ []
      rw [hsent, haccepted]
      exact h.accepted hhtml
    · show s.accepted ++ [] ++ s.conn.outputBuffer = s.sent ++ []
      rw [hsent, haccepted]
      exact h.whole hhtml hrun hstate
    · show ∃ ms : List InMemory, _ ∧ _ = s.sent ++ []
      rw [hsent]
      exact h.texts hno hplain
  · have hclosed : (s.conn.onHttpRequest .badRequest w).1.state = .closed :=
      @Connection.state_onHttpRequest_of_final n .badRequest trivial s.conn w
    have haccepted (hhtml : s.InMemoryOnly) :=
      (Connection.stream_onHttpRequest (h.whole hhtml hrun hstate) .badRequest w).1
    unfold HttpSession.refuse
    rcases answer_cases { s with context := context } .badRequest w with
      ⟨output, houtput, heq⟩ | heq
    · rw [heq]
      refine ⟨haccepted, fun _ => (h.holds hrun).of_onHttpRequest houtput, fun _ _ hno => ?_,
        (fun hno => nomatch hno), fun _ hno => ?_, h.counted⟩
      · exact absurd (hclosed.symm.trans hno) (by decide)
      · exact absurd (hclosed.symm.trans hno) (by decide)
    · rw [heq]
      exact ⟨haccepted, (fun hno => nomatch hno), (fun _ hno => nomatch hno),
        (fun hno => nomatch hno), fun hno => absurd rfl hno, (fun hno => nomatch hno)⟩

theorem texts_concat {answers : List HttpResponse} {sent : Bytes}
    (h : (∀ r ∈ answers, r.Plain) → ∃ ms : List InMemory,
      ms.map InMemory.response = answers ∧ ms.flatMap InMemory.print = sent)
    {response : HttpResponse} (hframable : response.Framable) {order : List (Bytes × Bytes)}
    (hiterates : Iterates response.header order) (hplain : ∀ r ∈ answers ++ [response], r.Plain) :
    ∃ ms : List InMemory, ms.map InMemory.response = answers ++ [response] ∧
      ms.flatMap InMemory.print = sent ++ response.sent order := by
  obtain ⟨ms, hresponses, hprints⟩ := h fun r hr => hplain r (List.mem_append_left _ hr)
  have hlast : response.Plain := hplain response (List.mem_append_right _ (List.mem_singleton_self _))
  refine ⟨ms ++ [hframable.inMemory hlast hiterates], ?_, ?_⟩
  · rw [List.map_append, hresponses]
    rfl
  · rw [List.flatMap_append, hprints, List.flatMap_cons, List.flatMap_nil, List.append_nil]
    rfl

theorem fileBytes_of_html {response : HttpResponse} (h : response.bodyType = ascii "HTML_TYPE")
    {bytes : Bytes} (hbytes : fileBytes call response = some bytes) : bytes = [] := by
  unfold fileBytes at hbytes
  rw [if_pos h] at hbytes
  exact (Option.some.inj hbytes).symm

theorem Sound.respond (h : s.Sound) (hrun : s.stopped = none) (hstate : s.conn.state = .connected)
    {response : HttpResponse} (hframable : response.Framable) (request : HttpRequest)
    (hrespond : { s with requests := s.requests ++ [request] }.respond call response = some s') :
    s'.Sound := by
  obtain ⟨hno, hopen⟩ := h.opened (by rw [hrun]; decide) hstate
  have hlast : response ∈ s.answers ++ [response] :=
    List.mem_append_right _ (List.mem_singleton_self _)
  have hbefore {P : HttpResponse → Prop} (hall : ∀ r ∈ s.answers ++ [response], P r) :
      ∀ r ∈ s.answers, P r := fun r hr => hall r (List.mem_append_left _ hr)
  have hstream (hhtml : ∀ r ∈ s.answers ++ [response], r.bodyType = ascii "HTML_TYPE") :=
    Connection.stream_onHttpRequest (h.whole (hbefore hhtml) hrun hstate)
      (.complete (response.reply (call.order response))) call.w
  have htexts (hplain : ∀ r ∈ s.answers ++ [response], r.Plain) :=
    texts_concat (h.texts hno) hframable (call.iterates response) hplain
  unfold HttpSession.respond at hrespond
  rcases answer_cases
    { s with requests := s.requests ++ [request], answers := s.answers ++ [response] }
    (.complete (response.reply (call.order response))) call.w with ⟨output, houtput, heq⟩ | heq
  · rw [heq] at hrespond
    unfold HttpSession.sendFile at hrespond
    dsimp only at hrespond
    rw [hrun, if_neg (by decide)] at hrespond
    obtain ⟨bytes, hbytes, rfl⟩ := Option.map_eq_some_iff.1 hrespond
    refine ⟨fun hhtml => ?_, fun _ => (h.holds hrun).of_onHttpRequest houtput,
      fun hhtml _ hconn => ?_, fun _ => htexts, fun _ hconn => ?_, fun _ => ?_⟩
    · dsimp only
      rw [fileBytes_of_html (hhtml response hlast) hbytes, List.append_nil]
      exact (hstream hhtml).1
    · dsimp only
      rw [fileBytes_of_html (hhtml response hlast) hbytes, List.append_nil]
      exact (hstream hhtml).2 hconn
    · have hclose : ¬ response.close = true := (Connection.connected_onHttpRequest hconn).1
      refine ⟨hno, fun r hr => ?_⟩
      rcases List.mem_append.1 hr with hr | hr
      · exact hopen r hr
      · rw [List.mem_singleton.1 hr]
        exact Bool.eq_false_iff.2 hclose
    · show (s.answers ++ [response]).length = (s.requests ++ [request]).length
      rw [List.length_append, List.length_append, h.counted hrun]
      rfl
  · rw [heq] at hrespond
    cases hrespond
    exact ⟨fun hhtml => (hstream hhtml).1, (fun hno => nomatch hno), (fun _ hno => nomatch hno),
      fun _ => htexts, fun hno => absurd rfl hno, (fun hno => nomatch hno)⟩

/-- What `OnHttpReponse` does: it stops, or answers the request. -/
theorem onHttpReponse_cases (h : s.onHttpReponse call = some s') :
    (∃ why requests, s' = { s with requests := requests, stopped := some why }) ∨
      ∃ response, call.app.httpCallBack s.context.request
          { close := HttpServer.close s.context.request } = some response ∧
        { s with requests := s.requests ++ [s.context.request] }.respond call response =
          some s' := by
  unfold onHttpReponse at h
  dsimp only at h
  split at h
  · cases h
    exact .inl ⟨_, _, rfl⟩
  · split at h
    · cases h
      exact .inl ⟨_, _, rfl⟩
    · rename_i response hresponse
      exact .inr ⟨response, hresponse, h⟩

theorem Sound.onHttpReponse (h : s.Sound) (hrun : s.stopped = none)
    (hstate : s.conn.state = .connected) (hreponse : s.onHttpReponse call = some s') :
    s'.Sound := by
  rcases onHttpReponse_cases hreponse with ⟨why, requests, rfl⟩ | ⟨response, hresponse, hrespond⟩
  · exact h.stop hrun s.context requests why
  · exact h.respond hrun hstate (call.app.framable s.context.request _ response hresponse)
      s.context.request hrespond

theorem Sound.of_context (h : s.Sound) (context : HttpContext) :
    { s with context := context }.Sound :=
  ⟨h.accepted, h.holds, h.whole, h.texts, h.opened, h.counted⟩

theorem Sound.onHttpRequest (h : s.Sound) (hrun : s.stopped = none)
    (hstate : s.conn.state = .connected) (hrequest : s.onHttpRequest call = some s') :
    s'.Sound := by
  unfold HttpSession.onHttpRequest at hrequest
  split at hrequest
  · cases hrequest
    exact h.stop hrun s.context s.requests .hangs
  · cases hrequest
    exact h.stop hrun s.context s.requests .overrun
  · rename_i context _
    dsimp only at hrequest
    split at hrequest
    · split at hrequest
      · cases hrequest
        exact h.stop hrun context s.requests .logger
      · split at hrequest
        · obtain ⟨s₁, hreponse, rfl⟩ := Option.map_eq_some_iff.1 hrequest
          exact ((h.of_context context).onHttpReponse hrun hstate hreponse).of_context _
        · cases hrequest
          exact (h.answer hrun hstate context call.w).1
    · obtain rfl := Option.some.inj hrequest
      exact (h.answer hrun hstate context call.w).2

theorem Sound.listenClientMessage (h : s.Sound) (hrun : s.stopped = none)
    {data : List Bytes × ReadEnd} (hlisten : s.listenClientMessage data call = some s') :
    s'.Sound := by
  obtain ⟨chunks, readEnd⟩ := data
  unfold HttpSession.listenClientMessage at hlisten
  dsimp only at hlisten
  by_cases hstate : (s.conn.read chunks readEnd).1.state = .connected
  · obtain ⟨hwas, rfl⟩ := Connection.connected_read hstate
    rw [if_neg (not_not_intro hstate), Connection.read_of_eagain hwas] at hlisten
    have hread : { s with conn := { s.conn with inputBuffer := chunks.flatten } }.Sound :=
      ⟨h.accepted, h.holds, h.whole, h.texts, h.opened, h.counted⟩
    exact hread.onHttpRequest hrun hwas hlisten
  · rw [if_pos hstate] at hlisten
    cases hlisten
    have hbuffer : (s.conn.read chunks readEnd).1.outputBuffer = s.conn.outputBuffer :=
      Connection.outputBuffer_read s.conn chunks readEnd
    exact ⟨h.accepted, fun _ => hbuffer ▸ h.holds hrun, fun _ _ hno => absurd hno hstate, h.texts,
      fun _ hno => absurd hno hstate, h.counted⟩

theorem sendClientMessage_eq (h : s.output.Holds s.conn.outputBuffer) (w : WriteResult) :
    ∃ output, output.Holds (s.conn.write w).1.outputBuffer ∧
      s.sendClientMessage w = { s with
        conn := (s.conn.write w).1
        output := output
        accepted := s.accepted ++ written (s.conn.write w).2 } := by
  obtain ⟨output, houtput, hholds⟩ := h.sendOutput w
  refine ⟨output, hholds, ?_⟩
  unfold HttpSession.sendClientMessage
  rw [houtput]
  rfl

theorem Sound.sendClientMessage (h : s.Sound) (hrun : s.stopped = none) (w : WriteResult) :
    (s.sendClientMessage w).Sound := by
  obtain ⟨output, hholds, heq⟩ := sendClientMessage_eq (h.holds hrun) w
  rw [heq]
  by_cases hstate : s.conn.state = .connected
  · have hall (hhtml : s.InMemoryOnly) :
        s.accepted ++ written (s.conn.write w).2 ++ (s.conn.write w).1.outputBuffer = s.sent := by
      rw [List.append_assoc, Connection.written_write, h.whole hhtml hrun hstate]
    exact ⟨fun hhtml => ⟨_, hall hhtml⟩, fun _ => hholds, fun hhtml _ _ => hall hhtml, h.texts,
      fun hno _ => h.opened hno hstate, h.counted⟩
  · have hwrite : s.conn.write w = (s.conn, [.removeConnection]) := by
      unfold Connection.write
      rw [if_pos hstate]
    have hsame : s.accepted ++ written (s.conn.write w).2 = s.accepted := by
      rw [hwrite]
      exact List.append_nil _
    refine ⟨fun hhtml => ?_, fun _ => hholds, fun _ _ hno => ?_, h.texts, fun _ hno => ?_, h.counted⟩
    · show s.accepted ++ written (s.conn.write w).2 <+: s.sent
      rw [hsame]
      exact h.accepted hhtml
    · exact absurd (Connection.connected_write hno) hstate
    · exact absurd (Connection.connected_write hno) hstate

theorem Sound.step (h : s.Sound) {a : HttpAct} (hstep : s.step a = some s') : s'.Sound := by
  unfold HttpSession.step at hstep
  cases hrun : s.stopped with
  | some why =>
      rw [hrun] at hstep
      cases hstep
  | none =>
      rw [hrun, if_neg (by decide)] at hstep
      cases a with
      | readReady results call =>
          obtain ⟨data, -, hlisten⟩ := Option.bind_eq_some_iff.1 hstep
          exact h.listenClientMessage hrun hlisten
      | writeReady w =>
          cases hstep
          exact h.sendClientMessage hrun w

/-! ## The client -/

end HttpSession

end CPlusServer

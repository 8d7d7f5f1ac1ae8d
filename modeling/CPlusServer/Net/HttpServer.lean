import CPlusServer.Net.Confinement
import CPlusServer.Net.HttpSession
import CPlusServer.Net.Trace

/-!
# The HTTP server with all its connections

The loops of `Server` with what `HttpServer` does for each connection. What `ParaseRequest`
and the callback make of an input is any verdict in `Server`; here it is worked out on the
context of the connection. The loops then take steps of `Server`, and each connection is
served as `HttpSession` has it, whatever happens on the others.
-/

namespace CPlusServer

variable {n : Nat}

structure HttpRecord where
  output : Buffer := {}
  context : HttpContext := {}
  stopped : Option HttpStop := none
  requests : List HttpRequest := []
  answers : List HttpResponse := []
  refused : Bool := false
  sent : Bytes := []
  accepted : Bytes := []

def HttpRecord.session (r : HttpRecord) (conn : Connection n) : HttpSession n :=
  ⟨conn, r.output, r.context, r.stopped, r.requests, r.answers, r.refused, r.sent, r.accepted⟩

namespace HttpSession

def record (s : HttpSession n) : HttpRecord :=
  ⟨s.output, s.context, s.stopped, s.requests, s.answers, s.refused, s.sent, s.accepted⟩

/-- What `ParaseRequest` and the callback make of the input, where neither ends the handler. -/
def verdict (s : HttpSession n) (call : HttpCall) : Verdict :=
  match s.context.outcome s.conn.inputBuffer with
  | .hangs | .overrun => .incomplete
  | .returned context =>
      if context.state = .complete ∨ context.state = .body then
        if context.isComplete then
          match call.app.httpCallBack context.request
            { close := HttpServer.close context.request } with
          | none => .incomplete
          | some response => .complete (response.reply (call.order response))
        else .incomplete
      else .badRequest

/-- One `HandleEvent` as `Server` has it: with the verdict on what is read. -/
def dispatch (s : HttpSession n) (data : List Bytes × ReadEnd) (call : HttpCall) (w : WriteResult) :
    Dispatch where
  chunks := data.1
  readEnd := data.2
  verdict := { s with conn := (s.conn.read data.1 data.2).1 }.verdict call
  sendResult := call.w
  writeResult := w

end HttpSession

namespace Ready

def reading (ready : Ready) (results : List ReadResult) (call : HttpCall) : List HttpAct :=
  if ready.read then [.readReady results call] else []

def writing (ready : Ready) (w : WriteResult) : List HttpAct :=
  if ready.write then [.writeReady w] else []

def data (ready : Ready) (results : List ReadResult) : Option (List Bytes × ReadEnd) :=
  if ready.read then readCall results else some ([], .eagain)

end Ready

/-- The loops with the record of each connection and the events that have been handled for it.
`halts` tells why a loop does not go on. -/
structure HttpServer (n : Nat) where
  server : Server n := {}
  records : Nat → HttpRecord := fun _ => {}
  events : Nat → List HttpAct := fun _ => []
  halts : Fin (n + 1) → Option HttpStop := fun _ => none

inductive HttpServerAct (n : Nat)
  | loop (a : Server.Act n)
  | handle (i : Fin (n + 1)) (results : List ReadResult) (call : HttpCall) (w : WriteResult)

namespace HttpServer

def session (s : HttpServer n) (c : Nat) : HttpSession n :=
  (s.records c).session (s.server.conns c)

def Running (s : HttpServer n) (thread : LoopThread n) : Prop :=
  (∀ j, s.halts j = none ∨ s.halts j = some .hangs) ∧ ∀ i, thread = .io i → s.halts i = none

instance (s : HttpServer n) (thread : LoopThread n) : Decidable (s.Running thread) :=
  inferInstanceAs (Decidable (_ ∧ _))

def note (s : HttpServer n) (c : Nat) (session : HttpSession n) (acts : List HttpAct) :
    HttpServer n :=
  { s with
    records := Function.update s.records c session.record
    events := Function.update s.events c (s.events c ++ acts) }

/-- Every step but `HandleEvent`. A new connection has a new context. -/
def loop (s : HttpServer n) : Server.Act n → Option (HttpServer n)
  | .handle _ _ => none
  | .accept fd => (s.server.step (.accept fd)).map fun server => { s with
      server := server
      records := Function.update s.records s.server.created {}
      events := Function.update s.events s.server.created [] }
  | a => (s.server.step a).map fun server => { s with server := server }

/-- `HandleEvent` for the first channel of the batch. A handler that is stopped is left where it is:
its loop hangs, or the process has ended. -/
def handle (s : HttpServer n) (i : Fin (n + 1)) (results : List ReadResult) (call : HttpCall)
    (w : WriteResult) : Option (HttpServer n) :=
  match (s.server.loops i).batch with
  | [] => none
  | (c, ready) :: _ =>
      (ready.data results).bind fun data =>
        (s.server.step (.handle i ((s.session c).dispatch data call w))).bind fun server =>
          (Lib.runFrom HttpSession.step (s.session c) (ready.reading results call)).bind fun read =>
            if read.stopped.isSome then
              some { s.note c read (ready.reading results call) with
                halts := Function.update s.halts i read.stopped }
            else
              (Lib.runFrom HttpSession.step read (ready.writing w)).map fun wrote =>
                { s.note c wrote (ready.reading results call ++ ready.writing w) with
                  server := server
                  halts := Function.update s.halts i wrote.stopped }

def step (s : HttpServer n) : HttpServerAct n → Option (HttpServer n)
  | .loop a => if s.Running a.thread then s.loop a else none
  | .handle i results call w =>
      if s.Running (.io i) then s.handle i results call w else none

end HttpServer

/-! ## What the registration has no part in -/

namespace Connection

structure Alike (c x : Connection n) : Prop where
  state : x.state = c.state
  outputBuffer : x.outputBuffer = c.outputBuffer

variable {c x : Connection n}

theorem Alike.refl (c : Connection n) : c.Alike c := ⟨rfl, rfl⟩

theorem Alike.symm (h : c.Alike x) : x.Alike c := ⟨h.state.symm, h.outputBuffer.symm⟩

theorem Alike.trans {y : Connection n} (h : c.Alike x) (h' : x.Alike y) : c.Alike y :=
  ⟨h'.state.trans h.state, h'.outputBuffer.trans h.outputBuffer⟩

theorem Alike.keepRemaining (h : c.Alike x) (remaining : Bytes) :
    (c.keepRemaining remaining).Alike (x.keepRemaining remaining) := by
  unfold Connection.keepRemaining
  by_cases hnil : remaining = []
  · rw [if_pos hnil, if_pos hnil]
    exact h
  · rw [if_neg hnil, if_neg hnil]
    exact ⟨h.state, congrArg (· ++ remaining) h.outputBuffer⟩

theorem Alike.send (h : c.Alike x) (data : Bytes) (w : WriteResult) :
    (c.send data w).1.Alike (x.send data w).1 ∧ (x.send data w).2 = (c.send data w).2 := by
  unfold Connection.send
  rw [h.outputBuffer]
  by_cases hnil : c.outputBuffer = []
  · rw [if_pos hnil, if_pos hnil]
    cases w with
    | accepted k => exact ⟨h.keepRemaining _, rfl⟩
    | eagain => exact ⟨h.keepRemaining _, rfl⟩
    | error => exact ⟨⟨rfl, rfl⟩, rfl⟩
  · rw [if_neg hnil, if_neg hnil]
    exact ⟨h.keepRemaining _, rfl⟩

theorem Alike.write (h : c.Alike x) (w : WriteResult) :
    (c.write w).1.Alike (x.write w).1 ∧ (x.write w).2 = (c.write w).2 := by
  unfold Connection.write
  rw [h.state]
  by_cases hstate : c.state = .connected
  · rw [if_neg (not_not_intro hstate), if_neg (not_not_intro hstate)]
    unfold writeNonBlocking
    rw [h.outputBuffer]
    by_cases hnil : c.outputBuffer = []
    · rw [if_pos hnil, if_pos hnil]
      exact ⟨⟨h.state, rfl⟩, rfl⟩
    · rw [if_neg hnil, if_neg hnil]
      match w with
      | .accepted (k + 1) => exact ⟨⟨h.state, rfl⟩, rfl⟩
      | .eagain => exact ⟨h, rfl⟩
      | .accepted 0 => exact ⟨⟨rfl, rfl⟩, rfl⟩
      | .error => exact ⟨⟨rfl, rfl⟩, rfl⟩
  · rw [if_pos hstate, if_pos hstate]
    exact ⟨h, rfl⟩

/-- A 400 asks for the removal only if the channel is in epoll, but it is written in any case. -/
theorem Alike.onHttpRequest (h : c.Alike x) (verdict : Verdict) (w : WriteResult) :
    (c.onHttpRequest verdict w).1.Alike (x.onHttpRequest verdict w).1 ∧
      written (x.onHttpRequest verdict w).2 = written (c.onHttpRequest verdict w).2 := by
  have hempty : { c with inputBuffer := [] }.Alike { x with inputBuffer := [] } :=
    ⟨h.state, h.outputBuffer⟩
  have hasked (asks : Bool) (sent : List Effect) :
      written (if asks then sent ++ [.removeConnection] else sent) = written sent := by
    cases asks with
    | false => rfl
    | true => exact (written_append _ _).trans (List.append_nil _)
  cases verdict with
  | badRequest =>
      obtain ⟨hsend, heffects⟩ := hempty.send (ascii "HTTP/1.1 400 Bad Request\r\n\r\n") w
      refine ⟨⟨rfl, hsend.outputBuffer⟩, ?_⟩
      unfold Connection.onHttpRequest
      dsimp only
      rw [hasked, hasked, heffects]
  | incomplete => exact ⟨hempty, rfl⟩
  | complete response =>
      obtain ⟨hsend, heffects⟩ := hempty.send response.head w
      unfold Connection.onHttpRequest Connection.onHttpReponse
      dsimp only
      rw [heffects]
      by_cases hclose : response.close = true
      · rw [if_pos hclose, if_pos hclose]
        exact ⟨⟨rfl, hsend.outputBuffer⟩, rfl⟩
      · rw [if_neg hclose, if_neg hclose]
        exact ⟨hsend, rfl⟩

theorem Alike.read (h : c.Alike x) (data : List Bytes × ReadEnd) :
    (c.read data.1 data.2).1.Alike (x.read data.1 data.2).1 ∧
      ((c.read data.1 data.2).1.state = .connected →
        (x.read data.1 data.2).1.inputBuffer = (c.read data.1 data.2).1.inputBuffer) := by
  unfold Connection.read
  rw [h.state]
  by_cases hstate : c.state = .connected
  · rw [if_neg (not_not_intro hstate), if_neg (not_not_intro hstate)]
    unfold readNonBlocking
    cases data.2 with
    | eagain => exact ⟨⟨rfl, h.outputBuffer⟩, fun _ => rfl⟩
    | eof | error => exact ⟨⟨rfl, h.outputBuffer⟩, fun _ => rfl⟩
  · rw [if_pos hstate, if_pos hstate]
    exact ⟨h, fun hno => absurd hno hstate⟩

end Connection

namespace HttpSession

variable {s : HttpSession n} {call : HttpCall}

def Same (s t : HttpSession n) : Prop := ∃ conn, s.conn.Alike conn ∧ t = { s with conn := conn }

theorem Same.record {t : HttpSession n} (h : s.Same t) : t.record = s.record := by
  obtain ⟨conn, -, rfl⟩ := h
  rfl

theorem Same.conn {t : HttpSession n} (h : s.Same t) : s.conn.Alike t.conn := by
  obtain ⟨conn, hconn, rfl⟩ := h
  exact hconn

theorem same_of_record {t : HttpSession n} (hrecord : t.record = s.record)
    (hconn : s.conn.Alike t.conn) : s.Same t := by
  refine ⟨t.conn, hconn, ?_⟩
  obtain ⟨conn, output, context, stopped, requests, answers, refused, sent, accepted⟩ := t
  cases hrecord
  rfl

variable {conn : Connection n}

theorem same_answer (h : s.conn.Alike conn) (verdict : Verdict) (w : WriteResult) :
    (s.answer verdict w).Same ({ s with conn := conn }.answer verdict w) := by
  obtain ⟨hconn, hwritten⟩ := h.onHttpRequest verdict w
  unfold answer
  dsimp only
  cases s.output.onHttpRequest verdict w with
  | ok output =>
      refine ⟨_, hconn, ?_⟩
      dsimp only
      rw [hwritten]
  | error fault =>
      refine ⟨conn, h, ?_⟩
      dsimp only
      rw [hwritten]

theorem same_refuse (h : s.conn.Alike conn) (w : WriteResult) :
    (s.refuse w).Same ({ s with conn := conn }.refuse w) := by
  obtain ⟨conn', hconn, heq⟩ := same_answer h .badRequest w
  unfold refuse
  rw [heq]
  exact ⟨conn', hconn, rfl⟩

theorem Same.sendFile {t : HttpSession n} (h : s.Same t) (call : HttpCall)
    (response : HttpResponse) :
    Option.Rel Same (s.sendFile call response) (t.sendFile call response) := by
  obtain ⟨conn, hconn, rfl⟩ := h
  unfold HttpSession.sendFile
  dsimp only
  split
  · exact .some ⟨conn, hconn, rfl⟩
  · cases fileBytes call response with
    | none => exact .none
    | some bytes => exact .some ⟨conn, hconn, rfl⟩

theorem same_respond (h : s.conn.Alike conn) (call : HttpCall) (response : HttpResponse) :
    Option.Rel Same (s.respond call response) ({ s with conn := conn }.respond call response) := by
  have hanswer := @same_answer n { s with answers := s.answers ++ [response] } conn h
    (.complete (response.reply (call.order response))) call.w
  exact hanswer.sendFile call response

theorem same_onHttpReponse (h : s.conn.Alike conn) (call : HttpCall) :
    Option.Rel Same (s.onHttpReponse call) ({ s with conn := conn }.onHttpReponse call) := by
  unfold HttpSession.onHttpReponse
  dsimp only
  split
  · exact .some ⟨conn, h, rfl⟩
  · split
    · exact .some ⟨conn, h, rfl⟩
    · rename_i response _
      exact @same_respond n { s with requests := s.requests ++ [s.context.request] } conn h call
        response

theorem same_onHttpRequest (h : s.conn.Alike conn) (hinput : conn.inputBuffer = s.conn.inputBuffer)
    (call : HttpCall) :
    Option.Rel Same (s.onHttpRequest call) ({ s with conn := conn }.onHttpRequest call) := by
  unfold HttpSession.onHttpRequest
  dsimp only
  rw [hinput]
  split
  · exact .some ⟨conn, h, rfl⟩
  · exact .some ⟨conn, h, rfl⟩
  · rename_i context _
    have hanswer (verdict : Verdict) :=
      @same_answer n { s with context := context } conn h verdict call.w
    split
    · split
      · exact .some ⟨conn, h, rfl⟩
      · split
        · have hreponse := @same_onHttpReponse n { s with context := context } conn h call
          refine Lib.rel_map (fun x y hsame => ?_) hreponse
          obtain ⟨conn', hconn, rfl⟩ := hsame
          exact ⟨conn', hconn, rfl⟩
        · exact .some (hanswer .incomplete)
    · exact .some (same_refuse (s := { s with context := context }) h call.w)

theorem same_listenClientMessage (h : s.conn.Alike conn) (data : List Bytes × ReadEnd)
    (call : HttpCall) :
    Option.Rel Same (s.listenClientMessage data call)
      ({ s with conn := conn }.listenClientMessage data call) := by
  obtain ⟨hread, hinput⟩ := h.read data
  unfold HttpSession.listenClientMessage
  dsimp only
  rw [hread.state]
  by_cases hstate : (s.conn.read data.1 data.2).1.state = .connected
  · rw [if_neg (not_not_intro hstate), if_neg (not_not_intro hstate)]
    exact @same_onHttpRequest n { s with conn := (s.conn.read data.1 data.2).1 } _ hread
      (hinput hstate) call
  · rw [if_pos hstate, if_pos hstate]
    exact .some ⟨_, hread, rfl⟩

theorem Same.step {t : HttpSession n} (h : s.Same t) (a : HttpAct) :
    Option.Rel Same (s.step a) (t.step a) := by
  obtain ⟨conn, hconn, rfl⟩ := h
  unfold HttpSession.step
  dsimp only
  by_cases hrun : s.stopped.isSome
  · rw [if_pos hrun, if_pos hrun]
    exact .none
  · rw [if_neg hrun, if_neg hrun]
    cases a with
    | readReady results call =>
        dsimp only
        cases readCall results with
        | none => exact .none
        | some data => exact same_listenClientMessage hconn data call
    | writeReady w =>
        obtain ⟨hwrite, heffects⟩ := hconn.write w
        have houtput : conn.sendOutput s.output w = s.conn.sendOutput s.output w := by
          unfold Connection.sendOutput
          rw [hconn.state]
        dsimp only
        unfold HttpSession.sendClientMessage Connection.sendClientMessage
        dsimp only
        rw [houtput]
        cases s.conn.sendOutput s.output w with
        | error fault => exact .some ⟨conn, hconn, rfl⟩
        | ok output =>
            refine .some ⟨_, hwrite, ?_⟩
            dsimp only
            rw [heffects]

/-! ## One `HandleEvent` -/

variable {s' : HttpSession n}

/-- The connection is as `Server` has it, or left where `output_buffer_` faults. -/
theorem conn_answer (s : HttpSession n) (verdict : Verdict) (w : WriteResult) :
    (s.answer verdict w).stopped = s.stopped ∧
        (s.answer verdict w).conn = (s.conn.onHttpRequest verdict w).1 ∨
      (s.answer verdict w).stopped = some .buffer ∧ (s.answer verdict w).conn = s.conn := by
  rcases answer_cases s verdict w with ⟨output, -, heq⟩ | heq
  · rw [heq]
    exact .inl ⟨rfl, rfl⟩
  · rw [heq]
    exact .inr ⟨rfl, rfl⟩

theorem conn_refuse (s : HttpSession n) (hrun : s.stopped = none) (w : WriteResult) :
    (s.refuse w).stopped = none ∧ (s.refuse w).conn = (s.conn.onHttpRequest .badRequest w).1 ∨
      (s.refuse w).stopped ≠ none ∧ (s.refuse w).conn = s.conn := by
  unfold refuse
  rcases conn_answer s .badRequest w with ⟨hkept, hconn⟩ | ⟨hends, hconn⟩
  · exact .inl ⟨hkept.trans hrun, hconn⟩
  · exact .inr ⟨(fun hno => by cases hends.symm.trans hno), hconn⟩

theorem conn_sendFile {response : HttpResponse} (h : s.sendFile call response = some s') :
    s'.stopped = s.stopped ∧ s'.conn = s.conn := by
  unfold sendFile at h
  split at h
  · cases h
    exact ⟨rfl, rfl⟩
  · obtain ⟨bytes, -, rfl⟩ := Option.map_eq_some_iff.1 h
    exact ⟨rfl, rfl⟩

theorem conn_respond {response : HttpResponse} (h : s.respond call response = some s')
    (hrun : s.stopped = none) :
    s'.stopped = none ∧ s'.conn = (s.conn.onHttpRequest
        (.complete (response.reply (call.order response))) call.w).1 ∨
      s'.stopped ≠ none ∧ s'.conn = s.conn := by
  unfold respond at h
  obtain ⟨hstopped, hconn⟩ := conn_sendFile h
  rw [hconn, hstopped]
  rcases conn_answer { s with answers := s.answers ++ [response] }
    (.complete (response.reply (call.order response))) call.w with ⟨hkept, hanswer⟩ | ⟨hends, hanswer⟩
  · rw [hkept, hanswer]
    exact .inl ⟨hrun, rfl⟩
  · rw [hends, hanswer]
    exact .inr ⟨(fun hno => by cases hno), rfl⟩

/-- The connection is as `Server` has it, with the verdict on the input, unless the handler stops:
then it is as before. -/
theorem conn_onHttpRequest (h : s.onHttpRequest call = some s') (hrun : s.stopped = none) :
    s'.stopped = none ∧ s'.conn = (s.conn.onHttpRequest (s.verdict call) call.w).1 ∨
      s'.stopped ≠ none ∧ s'.conn = s.conn := by
  unfold HttpSession.onHttpRequest at h
  unfold verdict
  cases houtcome : s.context.outcome s.conn.inputBuffer with
  | hangs | overrun =>
      rw [houtcome] at h
      cases h
      exact .inr ⟨(fun hno => by cases hno), rfl⟩
  | returned context =>
      rw [houtcome] at h
      dsimp only at h ⊢
      split at h
      · rename_i hstate
        rw [if_pos hstate]
        split at h
        · cases h
          exact .inr ⟨(fun hno => by cases hno), rfl⟩
        · split at h
          · rename_i hcomplete
            rw [if_pos hcomplete]
            obtain ⟨s₁, hreponse, rfl⟩ := Option.map_eq_some_iff.1 h
            rcases onHttpReponse_cases hreponse with
              ⟨why, requests, rfl⟩ | ⟨response, hresponse, hrespond⟩
            · exact .inr ⟨(fun hno => by cases hno), rfl⟩
            · dsimp only at hresponse
              rw [hresponse]
              have hconn := conn_respond hrespond hrun
              dsimp only at hconn ⊢
              exact hconn
          · rename_i hcomplete
            rw [if_neg hcomplete]
            cases h
            exact .inl ⟨hrun, rfl⟩
      · rename_i hstate
        rw [if_neg hstate]
        obtain rfl := Option.some.inj h
        exact conn_refuse { s with context := context } hrun call.w

theorem conn_listenClientMessage {data : List Bytes × ReadEnd}
    (h : s.listenClientMessage data call = some s') (hwas : s.stopped = none)
    (hrun : s'.stopped = none) (w : WriteResult) :
    s'.conn = (s.conn.listenClientMessage (s.dispatch data call w)).1 := by
  unfold HttpSession.listenClientMessage at h
  unfold Connection.listenClientMessage
  dsimp only [dispatch] at h ⊢
  split at h
  · rename_i hstate
    cases h
    rw [if_pos hstate]
  · rename_i hstate
    rw [if_neg hstate]
    rcases conn_onHttpRequest h hwas with ⟨-, hconn⟩ | ⟨hstopped, -⟩
    · exact hconn
    · exact absurd hrun hstopped

variable {ready : Ready} {results : List ReadResult} {w : WriteResult} {read : HttpSession n}

theorem alike_of_stopped_listen {data : List Bytes × ReadEnd}
    (h : s.listenClientMessage data call = some s') (hstopped : s'.stopped ≠ none)
    (hrun : s.stopped = none) : s.conn.Alike s'.conn := by
  unfold HttpSession.listenClientMessage at h
  dsimp only at h
  by_cases hstate : (s.conn.read data.1 data.2).1.state = .connected
  · obtain ⟨hwas, hend⟩ := Connection.connected_read hstate
    rw [if_neg (not_not_intro hstate)] at h
    rcases conn_onHttpRequest h hrun with ⟨hgoes, -⟩ | ⟨-, hconn⟩
    · exact absurd hgoes hstopped
    · rw [hconn, hend, Connection.read_of_eagain hwas]
      exact ⟨rfl, rfl⟩
  · rw [if_pos hstate] at h
    cases h
    exact absurd hrun hstopped

theorem reading_cases
    (h : Lib.runFrom HttpSession.step s (ready.reading results call) = some read) :
    ready.read = false ∧ read = s ∨ ready.read = true ∧ s.stopped = none ∧
      ∃ data, readCall results = some data ∧ s.listenClientMessage data call = some read := by
  unfold Ready.reading at h
  cases hready : ready.read with
  | false =>
      rw [hready] at h
      exact .inl ⟨rfl, (Option.some.inj h).symm⟩
  | true =>
      rw [hready, if_pos rfl] at h
      refine .inr ⟨rfl, ?_⟩
      obtain ⟨s₁, hstep, hlast⟩ := Option.bind_eq_some_iff.1 h
      cases hlast
      unfold HttpSession.step at hstep
      split at hstep
      · cases hstep
      · rename_i hrun
        exact ⟨by simpa using hrun, Option.bind_eq_some_iff.1 hstep⟩

theorem alike_of_stopped_reading
    (h : Lib.runFrom HttpSession.step s (ready.reading results call) = some read)
    (hstopped : read.stopped ≠ none) : s.conn.Alike read.conn := by
  rcases reading_cases h with ⟨-, rfl⟩ | ⟨-, hrun, data, -, hlisten⟩
  · exact .refl _
  · exact alike_of_stopped_listen hlisten hstopped hrun

theorem conn_reading (h : Lib.runFrom HttpSession.step s (ready.reading results call) = some read)
    (hrun : read.stopped = none) {data : List Bytes × ReadEnd}
    (hdata : ready.data results = some data) (w : WriteResult) : read.conn =
      (if ready.read then s.conn.listenClientMessage (s.dispatch data call w)
        else (s.conn, [])).1 := by
  unfold Ready.data at hdata
  rcases reading_cases h with ⟨hready, rfl⟩ | ⟨hready, hwas, data', hcall, hlisten⟩
  · rw [hready]
    rfl
  · rw [hready, if_pos rfl] at hdata ⊢
    rw [hcall] at hdata
    cases hdata
    exact conn_listenClientMessage hlisten hwas hrun w

theorem conn_writing {wrote : HttpSession n} (hholds : read.output.Holds read.conn.outputBuffer)
    (h : Lib.runFrom HttpSession.step read (ready.writing w) = some wrote) :
    wrote.conn = (if ready.write then read.conn.sendClientMessage w else (read.conn, [])).1 := by
  unfold Ready.writing at h
  cases hready : ready.write with
  | false =>
      rw [hready] at h
      cases h
      rfl
  | true =>
      rw [hready, if_pos rfl] at h
      obtain ⟨s₁, hstep, hlast⟩ := Option.bind_eq_some_iff.1 h
      cases hlast
      unfold HttpSession.step at hstep
      split at hstep
      · cases hstep
      · cases hstep
        obtain ⟨output, -, heq⟩ := sendClientMessage_eq hholds w
        rw [heq]
        rfl

/-- `HandleEvent` as `Server` has it is the two callbacks of `HttpSession`. -/
theorem conn_handleEvent {data : List Bytes × ReadEnd} {wrote : HttpSession n}
    (hdata : ready.data results = some data)
    (hread : Lib.runFrom HttpSession.step s (ready.reading results call) = some read)
    (hrun : read.stopped = none) (hholds : read.output.Holds read.conn.outputBuffer)
    (hwrote : Lib.runFrom HttpSession.step read (ready.writing w) = some wrote) :
    wrote.conn = (s.conn.handleEvent ready (s.dispatch data call w)).1 := by
  rw [conn_writing hholds hwrote, conn_reading hread hrun hdata w]
  rfl

end HttpSession

namespace HttpServer

variable {s s' : HttpServer n} {c : Nat}

/-! ## What a step does -/

theorem loop_cases {a : Server.Act n} (h : s.loop a = some s') :
    s.server.step a = some s'.server ∧ (∀ i d, a ≠ .handle i d) ∧ ∀ c,
      (s'.records c = s.records c ∧ s'.events c = s.events c ∧
        ((∃ fd, a = .accept fd) → c ≠ s.server.created)) ∨
      (∃ fd, a = .accept fd) ∧ c = s.server.created ∧ s'.records c = {} ∧ s'.events c = [] := by
  cases a with
  | handle i d => cases h
  | accept fd =>
      obtain ⟨server, hserver, rfl⟩ := Option.map_eq_some_iff.1 h
      refine ⟨hserver, nofun, fun c => ?_⟩
      by_cases hc : c = s.server.created
      · subst hc
        exact .inr ⟨⟨fd, rfl⟩, rfl, Function.update_self .., Function.update_self ..⟩
      · exact .inl ⟨Function.update_of_ne hc .., Function.update_of_ne hc .., fun _ => hc⟩
  | newConnection | mainOverTime _ _ | mainToDo | poll _ _ | call _ | overTime _ _ _ | toDo _ =>
      obtain ⟨server, hserver, rfl⟩ := Option.map_eq_some_iff.1 h
      refine ⟨hserver, nofun, fun c => .inl ⟨rfl, rfl, fun hno => ?_⟩⟩
      obtain ⟨fd, hfd⟩ := hno
      cases hfd

theorem handle_cases {i : Fin (n + 1)} {results : List ReadResult} {call : HttpCall} {w : WriteResult}
    (h : s.handle i results call w = some s') : ∃ c ready rest data server read,
      (s.server.loops i).batch = (c, ready) :: rest ∧ ready.data results = some data ∧
      s.server.step (.handle i ((s.session c).dispatch data call w)) = some server ∧
      Lib.runFrom HttpSession.step (s.session c) (ready.reading results call) = some read ∧
      (read.stopped ≠ none ∧ s' = { s.note c read (ready.reading results call) with
          halts := Function.update s.halts i read.stopped } ∨
        read.stopped = none ∧ ∃ wrote,
          Lib.runFrom HttpSession.step read (ready.writing w) = some wrote ∧
          s' = { s.note c wrote (ready.reading results call ++ ready.writing w) with
            server := server
            halts := Function.update s.halts i wrote.stopped }) := by
  unfold handle at h
  split at h
  · cases h
  · rename_i c ready rest hbatch
    obtain ⟨data, hdata, h⟩ := Option.bind_eq_some_iff.1 h
    obtain ⟨server, hserver, h⟩ := Option.bind_eq_some_iff.1 h
    obtain ⟨read, hread, h⟩ := Option.bind_eq_some_iff.1 h
    refine ⟨c, ready, rest, data, server, read, hbatch, hdata, hserver, hread, ?_⟩
    split at h
    · rename_i hstopped
      cases h
      exact .inl ⟨Option.isSome_iff_ne_none.1 hstopped, rfl⟩
    · rename_i hrun
      obtain ⟨wrote, hwrote, rfl⟩ := Option.map_eq_some_iff.1 h
      exact .inr ⟨by simpa using hrun, wrote, hwrote, rfl⟩

/-! ## One connection among the others -/

def Follows (s : HttpServer n) (c : Nat) : Prop :=
  ∀ fd loop channel, ∃ session : HttpSession n,
    Lib.runFrom HttpSession.step (HttpSession.fresh fd loop channel) (s.events c) = some session ∧
      session.Same (s.session c)

theorem Follows.extend (h : s.Follows c) {acts : List HttpAct} {read : HttpSession n}
    (hread : Lib.runFrom HttpSession.step (s.session c) acts = some read) (fd : Nat)
    (loop : Fin (n + 1)) (channel : Channel) : ∃ session : HttpSession n,
    Lib.runFrom HttpSession.step (HttpSession.fresh fd loop channel) (s.events c ++ acts) =
        some session ∧ session.Same read := by
  obtain ⟨session, hrun, hsame⟩ := h fd loop channel
  have hrel := Lib.runFrom_rel (fun _ _ a h => h.step a) hsame acts
  rw [hread] at hrel
  obtain ⟨session', hrun', hsame'⟩ := Lib.exists_of_rel hrel
  refine ⟨session', ?_, hsame'⟩
  rw [Lib.runFrom_append, hrun]
  exact hrun'

theorem sound_of_same {session read : HttpSession n} {fd : Nat} {loop : Fin (n + 1)}
    {channel : Channel} {acts : List HttpAct}
    (hrun : Lib.runFrom HttpSession.step (HttpSession.fresh fd loop channel) acts = some session)
    (hsame : session.Same read) : session.Sound ∧ (read.stopped = none →
      read.output.Holds read.conn.outputBuffer) := by
  have hsound : session.Sound := Lib.runFrom_keeps
    (fun _ _ _ _ h hstep => HttpSession.Sound.step h hstep)
    (HttpSession.sound_fresh fd loop channel) hrun
  obtain ⟨conn, hconn, rfl⟩ := hsame
  refine ⟨hsound, fun hnone => ?_⟩
  dsimp only
  rw [hconn.outputBuffer]
  exact hsound.holds hnone

theorem Follows.of_conn (h : s.Follows c) (hrecord : s'.records c = s.records c)
    (hevents : s'.events c = s.events c)
    (hconn : (s.server.conns c).Alike (s'.server.conns c)) : s'.Follows c := by
  intro fd loop channel
  obtain ⟨session, hrun, hsame⟩ := h fd loop channel
  rw [hevents]
  refine ⟨session, hrun, HttpSession.same_of_record ?_ (hsame.conn.trans hconn)⟩
  exact hrecord.trans hsame.record

theorem conns_accept {server server' : Server n} {fd : Nat}
    (h : server.step (.accept fd) = some server') :
    server'.conns server.created = { fd := fd, loop := server.nextLoop } := by
  unfold Server.step at h
  split at h
  · replace h : server.accept fd = some server' := h
    unfold Server.accept at h
    split at h
    · cases h
      exact Server.conns_construct_self server fd
    · cases h
  · cases h

theorem conns_handle {server server' : Server n} {i : Fin (n + 1)} {d : Dispatch} {ready : Ready}
    {rest : List (Nat × Ready)} (h : server.step (.handle i d) = some server')
    (hbatch : (server.loops i).batch = (c, ready) :: rest) :
    server'.conns c = ((server.conns c).handleEvent ready d).1 := by
  unfold Server.step at h
  split at h
  · replace h : server.handle i d = some server' := h
    unfold Server.handle at h
    dsimp only at h
    rw [hbatch] at h
    dsimp only at h
    split at h
    · cases h
      exact Server.conns_setConn_self server c _
    · cases h
  · cases h

/-- A step that is no `HandleEvent` leaves what matters of each connection. -/
theorem follows_loop (h : ∀ c, s.Follows c) {a : Server.Act n} (hstep : s.loop a = some s') (c : Nat) :
    s'.Follows c := by
  obtain ⟨hserver, hother, hrecords⟩ := loop_cases hstep
  rcases hrecords c with ⟨hrecord, hevents, hnew⟩ | ⟨⟨fd, rfl⟩, rfl, hrecord, hevents⟩
  · refine (h c).of_conn hrecord hevents ?_
    cases Server.did_of_step hserver c with
    | constructed fd hc hconn => exact absurd hc (hnew ⟨fd, rfl⟩)
    | handled i d ready rest hbatch hconn => exact absurd rfl (hother i d)
    | same _ hstate hout _ _ => exact ⟨hstate, hout⟩
  · have hconn : s'.server.conns s.server.created = { fd := fd, loop := s.server.nextLoop } :=
      conns_accept hserver
    intro fd' loop channel
    rw [hevents]
    refine ⟨HttpSession.fresh fd' loop channel, rfl, HttpSession.same_of_record ?_ ?_⟩
    · exact hrecord
    · show Connection.Alike _ (s'.server.conns s.server.created)
      rw [hconn]
      exact ⟨rfl, rfl⟩

theorem follows_handle (h : ∀ c, s.Follows c) {i : Fin (n + 1)} {results : List ReadResult}
    {call : HttpCall} {w : WriteResult} (hstep : s.handle i results call w = some s') (c : Nat) :
    s'.Follows c := by
  obtain ⟨c', ready, rest, data, server, read, hbatch, hdata, hserver, hread, hend⟩ :=
    handle_cases hstep
  by_cases hc : c = c'
  · subst hc
    rcases hend with ⟨hstopped, rfl⟩ | ⟨hrun, wrote, hwrote, rfl⟩
    · intro fd loop channel
      obtain ⟨session, hsession, hsame⟩ := (h c).extend hread fd loop channel
      have hrecord : (s.note c read (ready.reading results call)).records c = read.record :=
        Function.update_self ..
      have hevents : (s.note c read (ready.reading results call)).events c =
          s.events c ++ ready.reading results call := Function.update_self ..
      have hkept := HttpSession.alike_of_stopped_reading hread hstopped
      refine ⟨session, hevents ▸ hsession, HttpSession.same_of_record ?_ ?_⟩
      · exact hrecord.trans hsame.record
      · exact hsame.conn.trans hkept.symm
    · have hboth : Lib.runFrom HttpSession.step (s.session c)
          (ready.reading results call ++ ready.writing w) = some wrote := by
        rw [Lib.runFrom_append, hread]
        exact hwrote
      intro fd loop channel
      obtain ⟨session, hsession, hsame⟩ := (h c).extend hboth fd loop channel
      let acts := ready.reading results call ++ ready.writing w
      have hrecord : (s.note c wrote acts).records c = wrote.record := Function.update_self ..
      have hevents : (s.note c wrote acts).events c = s.events c ++ acts := Function.update_self ..
      have hholds : read.output.Holds read.conn.outputBuffer := by
        obtain ⟨session', hrun', hsame'⟩ := (h c).extend hread 0 0 {}
        exact (sound_of_same hrun' hsame').2 hrun
      have hconn : server.conns c = wrote.conn := (conns_handle hserver hbatch).trans
        (HttpSession.conn_handleEvent hdata hread hrun hholds hwrote).symm
      refine ⟨session, hevents ▸ hsession, HttpSession.same_of_record ?_ ?_⟩
      · exact hrecord.trans hsame.record
      · show session.conn.Alike (server.conns c)
        rw [hconn]
        exact hsame.conn
  · rcases hend with ⟨-, rfl⟩ | ⟨-, wrote, -, rfl⟩
    · exact (h c).of_conn (Function.update_of_ne hc ..) (Function.update_of_ne hc ..) (.refl _)
    · refine (h c).of_conn (Function.update_of_ne hc ..) (Function.update_of_ne hc ..) ?_
      cases Server.did_of_step hserver c with
      | handled _ _ ready' rest' hbatch' hconn =>
          rw [hbatch] at hbatch'
          cases hbatch'
          exact absurd rfl hc
      | same _ hstate hout _ _ => exact ⟨hstate, hout⟩

/-! ## Runs -/

structure Sound (s : HttpServer n) : Prop where
  server : ∃ acts, Lib.runFrom Server.step {} acts = some s.server
  follows : ∀ c, s.Follows c

theorem sound_init : Sound ({} : HttpServer n) :=
  ⟨⟨[], rfl⟩, fun _ _ _ _ => ⟨_, rfl, HttpSession.same_of_record rfl ⟨rfl, rfl⟩⟩⟩

theorem exists_run_concat {server server' : Server n} {b : Server.Act n}
    (h : ∃ acts, Lib.runFrom Server.step {} acts = some server)
    (hstep : server.step b = some server') :
    ∃ acts, Lib.runFrom Server.step {} acts = some server' := by
  obtain ⟨acts, hrun⟩ := h
  refine ⟨acts ++ [b], ?_⟩
  rw [Lib.runFrom_append, hrun]
  show (server.step b).bind some = some server'
  rw [hstep]
  rfl

theorem Sound.step (h : s.Sound) {a : HttpServerAct n} (hstep : s.step a = some s') : s'.Sound := by
  cases a with
  | loop b =>
      replace hstep : (if s.Running b.thread then s.loop b else none) = some s' := hstep
      split at hstep
      · exact ⟨exists_run_concat h.server (loop_cases hstep).1, follows_loop h.follows hstep⟩
      · cases hstep
  | handle i results call w =>
      replace hstep : (if s.Running (.io i) then s.handle i results call w else none) = some s' :=
        hstep
      split at hstep
      · refine ⟨?_, follows_handle h.follows hstep⟩
        obtain ⟨c, ready, rest, data, server, read, -, -, hserver, -, ⟨-, rfl⟩ | ⟨-, wrote, -, rfl⟩⟩ :=
          handle_cases hstep
        · exact h.server
        · exact exists_run_concat h.server hserver
      · cases hstep

end HttpServer

end CPlusServer

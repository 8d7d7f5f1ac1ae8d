import CPlusServer.Basic
import CPlusServer.Http.Chars

/-!
# Connection and its Channel

The callbacks of a server-side connection, as they run inside one `HandleEvent`.
What `read`, `write` and the HTTP handler answer is an input of the call that
asks. Calls that leave the connection, and the bytes that reach its socket, are
effects in the order in which they are made. The two buffers are byte queues. What
their indices do to that is not told here: `Buffer` has them, and `Buffer.send` and
`Buffer.writeNonBlocking` are the same calls on the real `output_buffer_`.
-/

namespace CPlusServer

/-- The bits of `listen_events_` and of a mask in epoll. -/
structure Events where
  read : Bool := false
  write : Bool := false
  et : Bool := false
  deriving DecidableEq

/-- `registered` is the mask that epoll holds for the fd. `ready_events_` goes with the batch
that `Poll` returns. -/
structure Channel where
  listenEvents : Events := {}
  inEpoll : Bool := false
  tied : Bool := false
  registered : Option Events := none
  deriving DecidableEq

namespace Channel

/-- `Poller::UpdateChannel`: the fd is added to epoll, or its mask there is changed. -/
def update (ch : Channel) : Channel :=
  { ch with registered := some ch.listenEvents, inEpoll := true }

def delete (ch : Channel) : Channel := { ch with registered := none }

def useET (ch : Channel) : Channel :=
  update { ch with listenEvents := { ch.listenEvents with et := true } }

def enableReading (ch : Channel) : Channel :=
  update { ch with listenEvents := { ch.listenEvents with read := true } }

def enableWriting (ch : Channel) : Channel :=
  update { ch with listenEvents := { ch.listenEvents with write := true } }

def disableWriting (ch : Channel) : Channel :=
  let ch := { ch with listenEvents := { ch.listenEvents with write := false } }
  if ch.listenEvents = {} then ch.delete else ch.update

def tie (ch : Channel) : Channel := { ch with tied := true }

/-- None where `Errif` ends the process. -/
def removeInEpoll (ch : Channel) : Option Channel :=
  if ch.inEpoll then some { ch.delete with listenEvents := {}, inEpoll := false } else none

end Channel

inductive ConnState
  | invaild | closed | connected | handshaking | failed
  deriving DecidableEq

/-- `loop` is the index of the I/O loop, of which there are `n + 1`. -/
structure Connection (n : Nat) where
  fd : Nat
  loop : Fin (n + 1)
  state : ConnState := .connected
  channel : Channel := {}
  inputBuffer : Bytes := []
  outputBuffer : Bytes := []
  deriving DecidableEq

/-- What a handler does beyond its connection: `remove_`, a call of `handle_read_func_`, bytes
that `write` has accepted, a call of `SendFile`. -/
inductive Effect
  | removeConnection
  | handleRead
  | wrote (bytes : Bytes)
  | sendFile
  deriving DecidableEq

/-- How a series of `read` calls ends, after the data it gave. -/
inductive ReadEnd
  | eagain | eof | error
  deriving DecidableEq

inductive WriteResult
  | accepted (k : Nat)
  | eagain
  | error
  deriving DecidableEq

/-- A response: what is passed to `Send`, whether `SendFile` follows, and `IfClose()`. -/
structure Reply where
  head : Bytes
  file : Bool
  close : Bool
  deriving DecidableEq

inductive Verdict
  | badRequest
  | incomplete
  | complete (response : Reply)
  deriving DecidableEq

/-- What one `HandleEvent` meets beside the ready events: the data read, how reading ends, the
request in it, and the results of the `write` in `Send` and of the one in `Write`. -/
structure Dispatch where
  chunks : List Bytes
  readEnd : ReadEnd
  verdict : Verdict
  sendResult : WriteResult
  writeResult : WriteResult
  deriving DecidableEq

structure Ready where
  read : Bool
  write : Bool
  deriving DecidableEq

namespace Connection

variable {n : Nat}

/-! ## Writing -/

def keepRemaining (c : Connection n) (remaining : Bytes) : Connection n :=
  if remaining = [] then c
  else { c with
    outputBuffer := c.outputBuffer ++ remaining
    channel := c.channel.enableWriting }

def send (c : Connection n) (data : Bytes) (w : WriteResult) : Connection n × List Effect :=
  if c.outputBuffer = [] then
    match w with
    | .accepted k => (c.keepRemaining (data.drop k), [.wrote (data.take k)])
    | .eagain => (c.keepRemaining data, [])
    | .error => ({ c with state := .closed }, [.removeConnection])
  else (c.keepRemaining data, [])

def writeNonBlocking (c : Connection n) (w : WriteResult) : Connection n × List Effect :=
  if c.outputBuffer = [] then ({ c with channel := c.channel.disableWriting }, [])
  else
    match w with
    | .accepted (k + 1) =>
        ({ c with outputBuffer := c.outputBuffer.drop (k + 1) },
          [.wrote (c.outputBuffer.take (k + 1))])
    | .eagain => (c, [])
    | .accepted 0 | .error => ({ c with state := .closed }, [.removeConnection])

def write (c : Connection n) (w : WriteResult) : Connection n × List Effect :=
  if c.state ≠ .connected then (c, [.removeConnection]) else c.writeNonBlocking w

def sendClientMessage (c : Connection n) (w : WriteResult) : Connection n × List Effect :=
  c.write w

/-! ## Reading -/

def readNonBlocking (c : Connection n) (chunks : List Bytes) (readEnd : ReadEnd) :
    Connection n × List Effect :=
  let c := { c with inputBuffer := c.inputBuffer ++ chunks.flatten }
  match readEnd with
  | .eagain => (c, [])
  | .eof | .error => ({ c with state := .closed }, [.removeConnection])

def read (c : Connection n) (chunks : List Bytes) (readEnd : ReadEnd) :
    Connection n × List Effect :=
  if c.state ≠ .connected then (c, [.removeConnection])
  else readNonBlocking { c with inputBuffer := [] } chunks readEnd

/-! ## `HttpServer` -/

def onHttpReponse (c : Connection n) (response : Reply) (w : WriteResult) :
    Connection n × List Effect :=
  let (c, sent) := c.send response.head w
  let sent := if response.file then sent ++ [.sendFile] else sent
  if response.close then ({ c with state := .closed }, sent ++ [.removeConnection]) else (c, sent)

/-- The input buffer is retrieved whole and given to `ParaseRequest`. -/
def onHttpRequest (c : Connection n) (verdict : Verdict) (w : WriteResult) :
    Connection n × List Effect :=
  let c := { c with inputBuffer := [] }
  match verdict with
  | .badRequest =>
      let (c, sent) := c.send (ascii "HTTP/1.1 400 Bad Request\r\n\r\n") w
      let c := { c with state := .closed }
      (c, if c.channel.inEpoll then sent ++ [.removeConnection] else sent)
  | .incomplete => (c, [])
  | .complete response => c.onHttpReponse response w

def listenClientMessage (c : Connection n) (d : Dispatch) : Connection n × List Effect :=
  let (c, es) := c.read d.chunks d.readEnd
  if c.state ≠ .connected then (c, es)
  else
    let (c, es') := c.onHttpRequest d.verdict d.sendResult
    (c, es ++ .handleRead :: es')

/-! ## `Channel::HandleEvent` -/

def handleEvent (c : Connection n) (ready : Ready) (d : Dispatch) : Connection n × List Effect :=
  let (c, es) := if ready.read then c.listenClientMessage d else (c, [])
  let (c, es') := if ready.write then c.sendClientMessage d.writeResult else (c, [])
  (c, es ++ es')

/-! ## What the callbacks keep -/

/-- What no handler changes: the fd, the loop, and that the channel is in epoll. -/
structure Keeps (c x : Connection n) : Prop where
  fd : x.fd = c.fd
  loop : x.loop = c.loop
  inEpoll : c.channel.inEpoll = true → x.channel.inEpoll = true

theorem Keeps.refl (c : Connection n) : Keeps c c := ⟨rfl, rfl, id⟩

theorem Keeps.trans {c x y : Connection n} (h : Keeps c x) (h' : Keeps x y) : Keeps c y :=
  ⟨h'.fd.trans h.fd, h'.loop.trans h.loop, h'.inEpoll ∘ h.inEpoll⟩

theorem keeps_keepRemaining (c : Connection n) (remaining : Bytes) :
    Keeps c (c.keepRemaining remaining) := by
  unfold keepRemaining
  split
  · exact .refl c
  · exact ⟨rfl, rfl, fun _ => rfl⟩

theorem keeps_send (c : Connection n) (data : Bytes) (w : WriteResult) :
    Keeps c (c.send data w).1 := by
  unfold send
  split
  · cases w with
    | accepted k => exact keeps_keepRemaining c _
    | eagain => exact keeps_keepRemaining c _
    | error => exact ⟨rfl, rfl, id⟩
  · exact keeps_keepRemaining c _

theorem keeps_write (c : Connection n) (w : WriteResult) : Keeps c (c.write w).1 := by
  unfold write
  split
  · exact .refl c
  · unfold writeNonBlocking
    split
    · refine ⟨rfl, rfl, fun h => ?_⟩
      dsimp only
      unfold Channel.disableWriting
      dsimp only
      split
      · exact h
      · rfl
    · split
      · exact ⟨rfl, rfl, id⟩
      · exact .refl c
      all_goals exact ⟨rfl, rfl, id⟩

theorem keeps_read (c : Connection n) (chunks : List Bytes) (readEnd : ReadEnd) :
    Keeps c (c.read chunks readEnd).1 := by
  unfold read
  split
  · exact .refl c
  · unfold readNonBlocking
    cases readEnd <;> exact ⟨rfl, rfl, id⟩

theorem keeps_onHttpReponse (c : Connection n) (response : Reply) (w : WriteResult) :
    Keeps c (c.onHttpReponse response w).1 := by
  have hsend := keeps_send c response.head w
  unfold onHttpReponse
  dsimp only
  split
  · exact ⟨hsend.fd, hsend.loop, hsend.inEpoll⟩
  · exact hsend

theorem keeps_onHttpRequest (c : Connection n) (verdict : Verdict) (w : WriteResult) :
    Keeps c (c.onHttpRequest verdict w).1 := by
  cases verdict with
  | badRequest =>
      have hsend := keeps_send { c with inputBuffer := [] }
        (ascii "HTTP/1.1 400 Bad Request\r\n\r\n") w
      exact ⟨hsend.fd, hsend.loop, hsend.inEpoll⟩
  | incomplete => exact ⟨rfl, rfl, id⟩
  | complete response =>
      have hreply := keeps_onHttpReponse { c with inputBuffer := [] } response w
      exact ⟨hreply.fd, hreply.loop, hreply.inEpoll⟩

theorem keeps_listenClientMessage (c : Connection n) (d : Dispatch) :
    Keeps c (c.listenClientMessage d).1 := by
  have hread := keeps_read c d.chunks d.readEnd
  unfold listenClientMessage
  dsimp only
  split
  · exact hread
  · exact hread.trans (keeps_onHttpRequest _ d.verdict d.sendResult)

theorem keeps_handleEvent (c : Connection n) (ready : Ready) (d : Dispatch) :
    Keeps c (c.handleEvent ready d).1 := by
  unfold handleEvent
  dsimp only
  have hread : Keeps c (if ready.read then c.listenClientMessage d else (c, [])).1 := by
    split
    · exact keeps_listenClientMessage c d
    · exact .refl c
  split
  · exact hread.trans (keeps_write _ d.writeResult)
  · exact hread

end Connection

end CPlusServer

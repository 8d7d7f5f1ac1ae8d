import CPlusServer.Log.Macro
import CPlusServer.Net.Buffered
import CPlusServer.Net.Input

/-!
# The echo server

With `Message` for its callback the server sends back what it reads. The message is
logged first, in a record with a buffer of its own that may be too small for it, and
what the socket does not take goes to `output_buffer_`. One connection is then a stream
that comes back in order, up to the first record that is not taken or the first
`Append` that does not fit: with it the process ends, or is no longer what it was.
-/

namespace CPlusServer

namespace Connection

variable {n : Nat}

def message (c : Connection n) (w : WriteResult) : Connection n × List Effect :=
  { c with inputBuffer := [] }.send c.inputBuffer w

/-! ## Log statements -/

def errorLine (line : Int) (items : List LogItem) (items_plain : plainItems items = true := by rfl) :
    LogLine where
  source := .connection
  level := .error
  items := items
  line := .int line
  items_plain := items_plain

def readLines (c : Connection n) (readEnd : ReadEnd) : List LogLine :=
  if c.state ≠ .connected then [errorLine 170 [.literal "Read not connected"]]
  else
    match readEnd with
    | .eagain => []
    | .eof => [errorLine 218
        [.literal "Read EOF, fd ", .integer (.int c.fd), .literal " disconnected"]]
    | .error => [errorLine 223 [.literal "other read error"]]

def sendLines (c : Connection n) (w : WriteResult) : List LogLine :=
  if c.outputBuffer = [] ∧ w = .error then
    [errorLine 137 [.literal "TcpConnection::Send - TcpConnection Send ERROR"]]
  else []

def writeLines (c : Connection n) (w : WriteResult) : List LogLine :=
  if c.state ≠ .connected then [errorLine 184 [.literal "Write not connected"]]
  else if c.outputBuffer = [] then []
  else
    match w with
    | .accepted (_ + 1) | .eagain => []
    | .accepted 0 | .error => [errorLine 266 [.literal "other write error"]]

def messageLine (c : Connection n) : LogLine where
  source := .httpserver
  level := .info
  items := [.literal "New message from client ", .integer (.int c.fd), .literal " : ",
    .string c.inputBuffer]
  line := .int 199

end Connection

/-- One connection of the echo server. `returned` is what its `read` calls have returned, `received`
what `Message` has been given, and `accepted` what `write` has taken. Where it is stopped the
process has ended, or `output_buffer_` has faulted. -/
structure Echo (n : Nat) where
  conn : Connection n
  output : Buffer := {}
  stopped : Bool := false
  returned : Bytes := []
  received : Bytes := []
  accepted : Bytes := []

/-- A read event or a write-ready event, with the log that its statements meet and the result of its
`write`. -/
inductive EchoAct
  | readReady (results : List ReadResult) (site : LogSite) (w : WriteResult)
  | writeReady (site : LogSite) (w : WriteResult)

namespace Echo

variable {n : Nat} {s s' : Echo n}

def stop (s : Echo n) : Echo n := { s with stopped := true }

/-- `Send` in `Message`, which takes the input with it. -/
def send (s : Echo n) (site : LogSite) (w : WriteResult) : Echo n :=
  let received := s.received ++ s.conn.inputBuffer
  if site.logs 1 ({ s.conn with inputBuffer := [] }.sendLines w) then
    let accepted := s.accepted ++ written (s.conn.message w).2
    match s.output.send s.conn.inputBuffer w with
    | .ok output => { s with
        conn := (s.conn.message w).1
        output := output
        received := received
        accepted := accepted }
    | .error _ => { s with received := received, accepted := accepted }.stop
  else { s with received := received }.stop

def message (s : Echo n) (site : LogSite) (w : WriteResult) : Echo n :=
  if site.logs 0 [s.conn.messageLine] then s.send site w else s.stop

def listenClientMessage (s : Echo n) (call : List Bytes × ReadEnd) (site : LogSite)
    (w : WriteResult) : Echo n :=
  let returned := if s.conn.state = .connected then s.returned ++ call.1.flatten else s.returned
  if site.logs 0 (s.conn.readLines call.2) then
    let s := { s with conn := (s.conn.read call.1 call.2).1, returned := returned }
    if s.conn.state ≠ .connected then s else s.message site w
  else { s with returned := returned }.stop

def sendClientMessage (s : Echo n) (site : LogSite) (w : WriteResult) : Echo n :=
  if site.logs 0 (s.conn.writeLines w) then
    match s.conn.sendOutput s.output w with
    | .ok output => { s with
        conn := (s.conn.sendClientMessage w).1
        output := output
        accepted := s.accepted ++ written (s.conn.sendClientMessage w).2 }
    | .error _ => s.stop
  else s.stop

def step (s : Echo n) (a : EchoAct) : Option (Echo n) :=
  if s.stopped then none
  else
    match a with
    | .readReady results site w =>
        (readCall results).map fun call => s.listenClientMessage call site w
    | .writeReady site w => some (s.sendClientMessage site w)

def fresh (fd : Nat) (loop : Fin (n + 1)) (channel : Channel) : Echo n :=
  { conn := { fd := fd, loop := loop, channel := channel } }

/-! ## One event -/

def arrived (s : Echo n) (chunks : List Bytes) : Echo n :=
  { s with
    conn := { s.conn with inputBuffer := chunks.flatten }
    returned := s.returned ++ chunks.flatten }

def readyLines (s : Echo n) (call : List Bytes × ReadEnd) (w : WriteResult) : List LogLine :=
  s.conn.readLines call.2 ++
    if s.conn.state = .connected ∧ call.2 = .eagain then
      (s.arrived call.1).conn.messageLine :: { s.conn with inputBuffer := [] }.sendLines w
    else []

/-- Each statement of the event is carried out, and `output_buffer_` has room for what the `Send` of
the event leaves. -/
def GoesOn (s : Echo n) : EchoAct → Prop
  | .readReady results site w => ∀ call, readCall results = some call →
      site.TakesAll (s.readyLines call w) ∧
        (s.conn.state = .connected → call.2 = .eagain → s.output.HasRoom call.1.flatten w)
  | .writeReady site w => site.TakesAll (s.conn.writeLines w)

/-- What comes back is what has been read, in order; and all of it, taken or waiting in
`output_buffer_`, while the connection is connected and the process runs. -/
structure InOrder (s : Echo n) : Prop where
  accepted : s.accepted <+: s.received
  received : s.received <+: s.returned
  holds : s.stopped = false → s.output.Holds s.conn.outputBuffer
  whole : s.stopped = false → s.conn.state = .connected →
    s.accepted ++ s.conn.outputBuffer = s.received ∧ s.received = s.returned

theorem inOrder_fresh (fd : Nat) (loop : Fin (n + 1)) (channel : Channel) :
    InOrder (fresh fd loop channel) :=
  ⟨List.prefix_rfl, List.prefix_rfl, fun _ => Buffer.holds_fresh, fun _ _ => ⟨rfl, rfl⟩⟩

/-- Where nothing follows, the prefixes are all there is to show. -/
theorem inOrder_of_stopped (hstopped : s.stopped = true) (haccepted : s.accepted <+: s.received)
    (hreceived : s.received <+: s.returned) : s.InOrder := by
  have hno {P : Prop} (h : s.stopped = false) : P := by
    rw [hstopped] at h
    cases h
  exact ⟨haccepted, hreceived, hno, hno⟩

/-- What `Message` finds: all that has been read before has been given to it and sent back. -/
structure Answering (s : Echo n) : Prop where
  running : s.stopped = false
  holds : s.output.Holds s.conn.outputBuffer
  whole : s.accepted ++ s.conn.outputBuffer = s.received
  given : s.received ++ s.conn.inputBuffer = s.returned

theorem Answering.send (h : s.Answering) (site : LogSite) (w : WriteResult) :
    (s.send site w).InOrder ∧ ((s.send site w).stopped = false ↔
      site.logs 1 ({ s.conn with inputBuffer := [] }.sendLines w) = true ∧
        s.output.HasRoom s.conn.inputBuffer w) := by
  have hreceived : s.received ++ s.conn.inputBuffer <+: s.returned := ⟨[], by
    rw [List.append_nil, h.given]⟩
  have hbuffer : s.accepted ++ { s.conn with inputBuffer := [] }.outputBuffer = s.received := h.whole
  have hkept : s.output.Holds { s.conn with inputBuffer := [] }.outputBuffer := h.holds
  obtain ⟨hfirst, hall⟩ := Connection.stream_send hbuffer s.conn.inputBuffer w
  unfold Echo.send
  dsimp only
  split
  · rename_i hlogs
    rw [and_iff_right hlogs, ← hkept.send_iff]
    cases hsend : s.output.send s.conn.inputBuffer w with
    | ok output =>
        refine ⟨⟨hfirst, hreceived, fun _ => hkept.of_send hsend, fun _ hstate => ?_⟩, ?_⟩
        · exact ⟨hall hstate, h.given⟩
        · exact iff_of_true h.running ⟨output, rfl⟩
    | error fault =>
        refine ⟨inOrder_of_stopped rfl hfirst hreceived, iff_of_false (fun hno => by cases hno) ?_⟩
        exact fun hno => by cases hno.choose_spec
  · rename_i hlogs
    refine ⟨inOrder_of_stopped rfl ?_ hreceived, iff_of_false (fun hno => by cases hno) ?_⟩
    · exact (List.IsPrefix.trans ⟨_, h.whole⟩ (List.prefix_append _ _))
    · exact fun hno => hlogs hno.1

theorem Answering.message (h : s.Answering) (site : LogSite) (w : WriteResult) :
    (s.message site w).InOrder ∧ ((s.message site w).stopped = false ↔
      site.TakesAll (s.conn.messageLine :: { s.conn with inputBuffer := [] }.sendLines w) ∧
        s.output.HasRoom s.conn.inputBuffer w) := by
  rw [← site.logs_iff, ← List.singleton_append, site.logs_append, Bool.and_eq_true, and_assoc]
  unfold Echo.message
  split
  · rename_i hlogs
    rw [and_iff_right hlogs]
    exact h.send site w
  · rename_i hlogs
    refine ⟨inOrder_of_stopped rfl ⟨_, h.whole⟩ ⟨_, h.given⟩, ?_⟩
    exact iff_of_false (fun hno => by cases hno) fun hno => hlogs hno.1

theorem listenClientMessage_of_eagain (h : s.conn.state = .connected) (chunks : List Bytes)
    (site : LogSite) (w : WriteResult) :
    s.listenClientMessage (chunks, .eagain) site w = (s.arrived chunks).message site w := by
  unfold listenClientMessage Connection.readLines Connection.read Connection.readNonBlocking
  rw [if_neg (not_not_intro h), if_neg (not_not_intro h), if_pos h]
  exact if_neg (not_not_intro h)

theorem not_connected_read {call : List Bytes × ReadEnd}
    (h : ¬ (s.conn.state = .connected ∧ call.2 = .eagain)) :
    (s.conn.read call.1 call.2).1.state ≠ .connected ∧
      (s.conn.read call.1 call.2).1.outputBuffer = s.conn.outputBuffer := by
  unfold Connection.read Connection.readNonBlocking
  by_cases hstate : s.conn.state = .connected
  · rw [if_neg (not_not_intro hstate)]
    cases hend : call.2 with
    | eagain => exact absurd ⟨hstate, hend⟩ h
    | eof | error => exact ⟨(fun hno => by cases hno), rfl⟩
  · rw [if_pos hstate]
    exact ⟨hstate, rfl⟩

theorem InOrder.listenClientMessage (h : s.InOrder) (hrun : s.stopped = false)
    (call : List Bytes × ReadEnd) (site : LogSite) (w : WriteResult) :
    (s.listenClientMessage call site w).InOrder ∧
      ((s.listenClientMessage call site w).stopped = false ↔
        site.TakesAll (s.readyLines call w) ∧
          (s.conn.state = .connected → call.2 = .eagain → s.output.HasRoom call.1.flatten w)) := by
  by_cases hboth : s.conn.state = .connected ∧ call.2 = .eagain
  · obtain ⟨hstate, hend⟩ := id hboth
    obtain ⟨chunks, readEnd⟩ := call
    cases (hend : readEnd = .eagain)
    obtain ⟨hwhole, hreturned⟩ := h.whole hrun hstate
    have hanswering : (s.arrived chunks).Answering :=
      ⟨hrun, h.holds hrun, hwhole, congrArg (· ++ chunks.flatten) hreturned⟩
    have hlines : s.readyLines (chunks, .eagain) w =
        (s.arrived chunks).conn.messageLine :: { s.conn with inputBuffer := [] }.sendLines w := by
      unfold readyLines Connection.readLines
      rw [if_neg (not_not_intro hstate), if_pos hboth]
      rfl
    rw [listenClientMessage_of_eagain hstate, hlines, forall_prop_of_true hstate,
      forall_prop_of_true rfl]
    exact hanswering.message site w
  · have hlines : s.readyLines call w = s.conn.readLines call.2 := by
      unfold readyLines
      rw [if_neg hboth, List.append_nil]
    have hreturned : s.returned <+:
        if s.conn.state = .connected then s.returned ++ call.1.flatten else s.returned := by
      split
      · exact List.prefix_append _ _
      · exact List.prefix_rfl
    have hno : s.conn.state = .connected → call.2 = .eagain → s.output.HasRoom call.1.flatten w :=
      fun hstate hend => absurd ⟨hstate, hend⟩ hboth
    obtain ⟨hclosed, hbuffer⟩ := not_connected_read hboth
    rw [hlines, and_iff_left hno, ← site.logs_iff]
    unfold Echo.listenClientMessage
    dsimp only
    rw [if_pos hclosed]
    split
    · rename_i hlogs
      refine ⟨⟨h.accepted, h.received.trans hreturned, fun _ => ?_, fun _ hopen => ?_⟩, ?_⟩
      · exact hbuffer ▸ h.holds hrun
      · exact absurd hopen hclosed
      · exact iff_of_true hrun hlogs
    · rename_i hlogs
      refine ⟨inOrder_of_stopped rfl h.accepted (h.received.trans hreturned), ?_⟩
      exact iff_of_false (fun hno => by cases hno) hlogs

theorem InOrder.sendClientMessage (h : s.InOrder) (hrun : s.stopped = false) (site : LogSite)
    (w : WriteResult) :
    (s.sendClientMessage site w).InOrder ∧ ((s.sendClientMessage site w).stopped = false ↔
      site.TakesAll (s.conn.writeLines w)) := by
  obtain ⟨output, houtput, hholds⟩ := (h.holds hrun).sendOutput w
  rw [← site.logs_iff]
  unfold Echo.sendClientMessage
  rw [houtput]
  split
  · rename_i hlogs
    refine ⟨?_, iff_of_true hrun hlogs⟩
    by_cases hstate : s.conn.state = .connected
    · obtain ⟨hwhole, hreturned⟩ := h.whole hrun hstate
      have hall : s.accepted ++ written (s.conn.write w).2 ++ (s.conn.write w).1.outputBuffer =
          s.received := by
        rw [List.append_assoc, Connection.written_write, hwhole]
      exact ⟨⟨_, hall⟩, h.received, fun _ => hholds, fun _ _ => ⟨hall, hreturned⟩⟩
    · have hwrite : s.conn.write w = (s.conn, [.removeConnection]) := by
        unfold Connection.write
        rw [if_pos hstate]
      have hsame : s.accepted ++ written (s.conn.write w).2 = s.accepted := by
        rw [hwrite]
        exact List.append_nil _
      refine ⟨?_, h.received, fun _ => hholds, fun _ hopen => ?_⟩
      · show s.accepted ++ written (s.conn.write w).2 <+: s.received
        rw [hsame]
        exact h.accepted
      · exact absurd (Connection.connected_write hopen) hstate
  · rename_i hlogs
    exact ⟨inOrder_of_stopped rfl h.accepted h.received,
      iff_of_false (fun hno => by cases hno) hlogs⟩

/-! ## Runs -/

/-- A step keeps the order, and it is the last one exactly when something of it is not taken. -/
theorem InOrder.step (h : s.InOrder) {a : EchoAct} (hstep : s.step a = some s') :
    s'.InOrder ∧ (s'.stopped = false ↔ s.GoesOn a) := by
  unfold Echo.step at hstep
  cases hrun : s.stopped with
  | true =>
      rw [hrun] at hstep
      cases hstep
  | false =>
      rw [hrun, if_neg (by decide)] at hstep
      cases a with
      | readReady results site w =>
          obtain ⟨call, hcall, rfl⟩ := Option.map_eq_some_iff.1 hstep
          obtain ⟨hinOrder, hgoesOn⟩ := h.listenClientMessage hrun call site w
          refine ⟨hinOrder, hgoesOn.trans ?_⟩
          unfold GoesOn
          dsimp only
          rw [hcall]
          simp
      | writeReady site w =>
          cases hstep
          exact h.sendClientMessage hrun site w

end Echo

end CPlusServer

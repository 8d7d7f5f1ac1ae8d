import CPlusServer.Net.Buffered

/-!
# Edge-triggered events

`SetET` registers the fd of a connection with EPOLLET: epoll puts it on its ready list
when something becomes possible on it, and `epoll_wait` takes it off again, whatever is
left to do. Nothing will bring it back then but new data or new room, so a callback
that stopped early, or a registration that came late, would leave the loop asleep over
work. Here the kernel takes its steps between those of the loop.
-/

namespace CPlusServer

/-- How far `NewConnection` and, at the end, `ConnectionDestructor` have got. -/
inductive EdgeStage
  | accepted | registered | established | removed
  deriving DecidableEq

/-- A connection and the kernel's side of its socket: the bytes that have not been read, whether the
client has closed its side, whether `write` has met the end of the room, and whether the fd is on
the ready list. `batch` is what is still to be called for the events of the last `Poll`. Where it is
stopped `output_buffer_` has faulted. -/
structure EdgeTriggered (n : Nat) where
  conn : Connection n
  output : Buffer := {}
  stopped : Bool := false
  stage : EdgeStage := .accepted
  unread : Bytes := []
  fin : Bool := false
  blocked : Bool := false
  ready : Bool := false
  batch : Ready := ⟨false, false⟩
  arrived : Bytes := []
  passed : Bytes := []
  sent : Bytes := []
  accepted : Bytes := []

/-- A step of the kernel (data, the end of the stream, room), of `NewConnection`, of the loop, or of
`ConnectionDestructor`. `recheck` tells that an `epoll_ctl` of a callback has found something
possible. -/
inductive EdgeAct
  | arrive (first : UInt8) (rest : Bytes)
  | finish
  | drain
  | setET
  | enableReading
  | poll
  | readReady (d : Dispatch) (recheck : Bool)
  | writeReady (w : WriteResult) (recheck : Bool)
  | remove

/-- What `write` can answer: no more than it is given, and nothing without room. -/
def CanAnswer (blocked : Bool) (data : Bytes) : WriteResult → Prop
  | .accepted k => k ≤ data.length ∧ (data ≠ [] → 0 < k ∧ blocked = false)
  | .eagain | .error => True

instance (blocked : Bool) (data : Bytes) : ∀ w, Decidable (CanAnswer blocked data w)
  | .accepted _ => inferInstanceAs (Decidable (_ ∧ (_ → _)))
  | .eagain | .error => .isTrue trivial

namespace EdgeTriggered

variable {n : Nat} {s s' : EdgeTriggered n}

/-! ## The kernel -/

def mask (s : EdgeTriggered n) : Events := s.conn.channel.registered.getD {}

def reported (s : EdgeTriggered n) : Ready where
  read := s.mask.read && (decide (s.unread ≠ []) || s.fin)
  write := s.mask.write && !s.blocked

/-- `EPOLL_CTL_ADD` and `EPOLL_CTL_MOD` look at once whether something is possible. -/
def checked (s : EdgeTriggered n) : EdgeTriggered n :=
  { s with ready := s.ready || s.reported.read || s.reported.write }

def blockedBy (s : EdgeTriggered n) (data : Bytes) (w : WriteResult) : Bool :=
  s.blocked || !decide (TakesAll data w)

/-! ## The callbacks -/

def listenClientMessage (s : EdgeTriggered n) (d : Dispatch) : EdgeTriggered n :=
  let s' := { s with
    conn := (s.conn.listenClientMessage d).1
    batch := { s.batch with read := false }
    accepted := s.accepted ++ written (s.conn.listenClientMessage d).2 }
  if s.conn.state ≠ .connected then s'
  else if d.readEnd = .eagain then
    { s' with
      unread := s.unread.drop d.chunks.flatten.length
      passed := s.passed ++ d.chunks.flatten
      sent := s.sent ++ d.verdict.payload
      blocked := if s.conn.outputBuffer = [] then s.blockedBy d.verdict.payload d.sendResult
        else s.blocked }
  else { s' with unread := s.unread.drop d.chunks.flatten.length }

def sendClientMessage (s : EdgeTriggered n) (w : WriteResult) : EdgeTriggered n :=
  { s with
    conn := (s.conn.sendClientMessage w).1
    batch := { s.batch with write := false }
    accepted := s.accepted ++ written (s.conn.sendClientMessage w).2
    blocked := if s.conn.state = .connected ∧ s.conn.outputBuffer ≠ [] then
      s.blockedBy s.conn.outputBuffer w else s.blocked }

def listenOutput (s : EdgeTriggered n) (d : Dispatch) : Except Buffer.Fault Buffer :=
  if s.conn.state = .connected ∧ d.readEnd = .eagain then
    s.output.onHttpRequest d.verdict d.sendResult
  else .ok s.output

def buffered (s : EdgeTriggered n) : Except Buffer.Fault Buffer → EdgeTriggered n
  | .ok output => { s with output := output }
  | .error _ => { s with stopped := true }

def CanRead (s : EdgeTriggered n) (d : Dispatch) : Prop :=
  d.chunks.flatten <+: s.unread ∧ (d.readEnd ≠ .error → d.chunks.flatten = s.unread) ∧
    (d.readEnd = .eagain → s.fin = false) ∧ (d.readEnd = .eof → s.fin = true) ∧
    CanAnswer s.blocked d.verdict.payload d.sendResult

instance (s : EdgeTriggered n) (d : Dispatch) : Decidable (s.CanRead d) :=
  inferInstanceAs (Decidable (_ ∧ (_ → _) ∧ (_ → _) ∧ (_ → _) ∧ _))

def withChannel (s : EdgeTriggered n) (channel : Channel) : EdgeTriggered n :=
  { s with conn := { s.conn with channel := channel } }

/-- None where the step cannot be taken. The functors run when all callbacks of the batch have. -/
def act (s : EdgeTriggered n) : EdgeAct → Option (EdgeTriggered n)
  | .arrive first rest =>
      if s.fin then none
      else some { s with
        unread := s.unread ++ first :: rest
        arrived := s.arrived ++ first :: rest
        ready := s.ready || s.mask.read }
  | .finish => some { s with fin := true, ready := s.ready || s.mask.read }
  | .drain => some { s with blocked := false, ready := s.ready || s.mask.write }
  | .setET =>
      if s.stage = .accepted then
        some { (s.withChannel s.conn.channel.useET).checked with stage := .registered }
      else none
  | .enableReading =>
      if s.stage = .registered then
        some { (s.withChannel s.conn.channel.tie.enableReading).checked with stage := .established }
      else none
  | .poll =>
      if s.ready = true ∧ s.batch = ⟨false, false⟩ then
        some { s with ready := false, batch := s.reported }
      else none
  | .readReady d recheck =>
      if s.batch.read = true ∧ s.CanRead d then
        let s := (s.listenClientMessage d).buffered (s.listenOutput d)
        some (if recheck then s.checked else s)
      else none
  | .writeReady w recheck =>
      if s.batch.read = false ∧ s.batch.write = true ∧
          CanAnswer s.blocked s.conn.outputBuffer w then
        let s := (s.sendClientMessage w).buffered (s.conn.sendOutput s.output w)
        some (if recheck then s.checked else s)
      else none
  | .remove =>
      if s.stage = .established ∧ s.batch = ⟨false, false⟩ then
        s.conn.channel.removeInEpoll.map fun channel =>
          { s.withChannel channel with stage := .removed, ready := false }
      else none

def step (s : EdgeTriggered n) (a : EdgeAct) : Option (EdgeTriggered n) :=
  if s.stopped then none else s.act a

def fresh (fd : Nat) (loop : Fin (n + 1)) : EdgeTriggered n := { conn := { fd := fd, loop := loop } }

/-! ## What the callbacks leave -/

end EdgeTriggered

namespace Connection

variable {n : Nat} {c : Connection n}

structure Listening (c : Connection n) : Prop where
  registered : c.channel.registered = some c.channel.listenEvents
  reading : c.channel.listenEvents.read = true

theorem Listening.keepRemaining (h : c.Listening) (remaining : Bytes) :
    (c.keepRemaining remaining).Listening := by
  unfold Connection.keepRemaining
  split
  · exact h
  · exact ⟨rfl, h.reading⟩

theorem Listening.send (h : c.Listening) (data : Bytes) (w : WriteResult) :
    (c.send data w).1.Listening := by
  unfold Connection.send
  split
  · cases w with
    | accepted k => exact h.keepRemaining _
    | eagain => exact h.keepRemaining _
    | error => exact ⟨h.registered, h.reading⟩
  · exact h.keepRemaining _

theorem Listening.write (h : c.Listening) (w : WriteResult) : (c.write w).1.Listening := by
  unfold Connection.write
  split
  · exact h
  · unfold writeNonBlocking
    split
    · have hreading : { c.channel.listenEvents with write := false } ≠ ({} : Events) := by
        intro hno
        have hread := congrArg Events.read hno
        rw [show Events.read { c.channel.listenEvents with write := false } = true from h.reading]
          at hread
        cases hread
      have hupdate : c.channel.disableWriting =
          Channel.update { c.channel with
            listenEvents := { c.channel.listenEvents with write := false } } := by
        unfold Channel.disableWriting
        exact if_neg hreading
      rw [hupdate]
      exact ⟨rfl, h.reading⟩
    · cases w with
      | accepted k =>
          cases k with
          | zero => exact ⟨h.registered, h.reading⟩
          | succ k => exact ⟨h.registered, h.reading⟩
      | eagain => exact h
      | error => exact ⟨h.registered, h.reading⟩

theorem Listening.onHttpRequest (h : c.Listening) (verdict : Verdict) (w : WriteResult) :
    (c.onHttpRequest verdict w).1.Listening := by
  have hempty : { c with inputBuffer := [] }.Listening := ⟨h.registered, h.reading⟩
  unfold Connection.onHttpRequest
  cases verdict with
  | badRequest =>
      have hsend := hempty.send (ascii "HTTP/1.1 400 Bad Request\r\n\r\n") w
      exact ⟨hsend.registered, hsend.reading⟩
  | incomplete => exact hempty
  | complete response =>
      have hsend := hempty.send response.head w
      unfold onHttpReponse
      dsimp only
      split
      · exact ⟨hsend.registered, hsend.reading⟩
      · exact hsend

theorem Watched.onHttpRequest (h : c.Watched) (verdict : Verdict) (w : WriteResult) :
    (c.onHttpRequest verdict w).1.Watched := by
  have hempty : { c with inputBuffer := [] }.Watched := h
  unfold Connection.onHttpRequest
  cases verdict with
  | badRequest => exact hempty.send (ascii "HTTP/1.1 400 Bad Request\r\n\r\n") w
  | incomplete => exact hempty
  | complete response =>
      have hsend := hempty.send response.head w
      unfold onHttpReponse
      dsimp only
      split
      · exact hsend
      · exact hsend

theorem outputBuffer_send_of_takesAll (hempty : c.outputBuffer = []) {data : Bytes} {w : WriteResult}
    (h : TakesAll data w) : (c.send data w).1.outputBuffer = [] := by
  unfold send
  rw [if_pos hempty]
  cases w with
  | accepted k =>
      rw [outputBuffer_keepRemaining, hempty, List.drop_eq_nil_of_le h]
      rfl
  | eagain =>
      rw [outputBuffer_keepRemaining, hempty, show data = [] from h]
      rfl
  | error => exact hempty

theorem outputBuffer_onHttpRequest_of_takesAll (hempty : c.outputBuffer = []) {verdict : Verdict}
    {w : WriteResult} (h : TakesAll verdict.payload w) :
    (c.onHttpRequest verdict w).1.outputBuffer = [] := by
  by_cases hverdict : verdict = .incomplete
  · subst hverdict
    exact hempty
  · rw [(onHttpRequest_of_answer c hverdict w).2]
    have hempty' : { c with inputBuffer := [] }.outputBuffer = [] := hempty
    exact outputBuffer_send_of_takesAll hempty' h

/-- A write-ready event that leaves something has met the end of the room. -/
theorem not_takesAll_of_write {w : WriteResult} (hstate : (c.write w).1.state = .connected)
    (hleft : (c.write w).1.outputBuffer ≠ []) :
    c.outputBuffer ≠ [] ∧ ¬ TakesAll c.outputBuffer w := by
  have hconnected := connected_write hstate
  unfold write at hstate hleft
  rw [if_neg (not_not_intro hconnected)] at hstate hleft
  unfold writeNonBlocking at hstate hleft
  by_cases hempty : c.outputBuffer = []
  · rw [if_pos hempty] at hleft
    exact absurd hempty hleft
  · rw [if_neg hempty] at hstate hleft
    refine ⟨hempty, ?_⟩
    cases w with
    | accepted k =>
        cases k with
        | zero => cases hstate
        | succ k =>
            intro hall
            exact hleft (List.drop_eq_nil_of_le hall)
    | eagain => exact hempty
    | error => cases hstate

theorem listenClientMessage_of_eagain {d : Dispatch} (hstate : c.state = .connected)
    (hend : d.readEnd = .eagain) :
    (c.listenClientMessage d).1 =
        ({ c with inputBuffer := d.chunks.flatten }.onHttpRequest d.verdict d.sendResult).1 ∧
      written (c.listenClientMessage d).2 =
        written ({ c with inputBuffer := d.chunks.flatten }.onHttpRequest d.verdict
          d.sendResult).2 := by
  rw [listenClientMessage_of_answers hstate hend, written_cons]
  exact ⟨rfl, rfl⟩

end Connection

namespace EdgeTriggered

variable {n : Nat} {s s' : EdgeTriggered n}

/-! ## Runs -/

/-- The loop has nothing left to do and `Poll` would wait. -/
def Asleep (s : EdgeTriggered n) : Prop := s.ready = false ∧ s.batch = ⟨false, false⟩

structure Untouched (s : EdgeTriggered n) : Prop where
  state : s.conn.state = .connected
  output : s.conn.outputBuffer = []
  write : s.conn.channel.listenEvents.write = false
  batch : s.batch = ⟨false, false⟩
  arrived : s.unread = s.arrived
  passed : s.passed = []
  sent : s.sent = []
  accepted : s.accepted = []

/-- While the connection is open, a callback is still to be called or an event to be reported for
everything that is possible. -/
structure Watching (s : EdgeTriggered n) : Prop where
  listening : s.conn.Listening
  watched : s.conn.Watched
  unread : s.unread ≠ [] ∨ s.fin = true → s.ready = true ∨ s.batch.read = true
  unsent : s.conn.outputBuffer ≠ [] → s.blocked = true ∨ s.ready = true ∨ s.batch.write = true
  input : s.passed ++ s.unread = s.arrived
  output : s.accepted ++ s.conn.outputBuffer = s.sent

def Sound (s : EdgeTriggered n) : Prop :=
  match s.stage with
  | .accepted => s.Untouched ∧ s.conn.channel = {}
  | .registered => s.Untouched ∧ s.conn.channel = Channel.useET {}
  | .established => s.conn.state = .connected → s.Watching
  | .removed => s.batch = ⟨false, false⟩ ∧ s.ready = false ∧ s.conn.channel.registered = none

theorem sound_fresh (fd : Nat) (loop : Fin (n + 1)) : Sound (fresh fd loop) :=
  ⟨⟨rfl, rfl, rfl, rfl, rfl, rfl, rfl, rfl⟩, rfl⟩

theorem Watching.checked (h : s.Watching) : s.checked.Watching := by
  have hready : s.ready = true → s.checked.ready = true := fun hready => by
    unfold EdgeTriggered.checked
    rw [hready]
    rfl
  exact ⟨h.listening, h.watched, fun hmore => (h.unread hmore).imp_left hready,
    fun hleft => (h.unsent hleft).imp_right (Or.imp_left hready), h.input, h.output⟩

theorem sound_accepted (h : s.stage = .accepted) :
    s.Sound ↔ s.Untouched ∧ s.conn.channel = {} := by
  unfold Sound
  rw [h]

theorem sound_registered (h : s.stage = .registered) :
    s.Sound ↔ s.Untouched ∧ s.conn.channel = Channel.useET {} := by
  unfold Sound
  rw [h]

theorem sound_established (h : s.stage = .established) :
    s.Sound ↔ (s.conn.state = .connected → s.Watching) := by
  unfold Sound
  rw [h]

theorem sound_removed (h : s.stage = .removed) :
    s.Sound ↔ s.batch = ⟨false, false⟩ ∧ s.ready = false ∧ s.conn.channel.registered = none := by
  unfold Sound
  rw [h]

theorem mask_of_listening (h : s.conn.Listening) : s.mask = s.conn.channel.listenEvents := by
  unfold mask
  rw [h.registered]
  rfl

theorem mask_of_unregistered (h : s.conn.channel.registered = none) : s.mask = {} := by
  unfold mask
  rw [h]
  rfl

/-! ## Steps of the kernel and `Poll` -/

/-- A step that leaves the connection alone. What is not asked for is not reported. -/
theorem Sound.of_conn (h : s.Sound) (hconn : s'.conn = s.conn) (hstage : s'.stage = s.stage)
    (huntouched : s.mask.read = false → s.mask.write = false → s.Untouched → s'.Untouched)
    (hwatching : s.Watching → s'.Watching)
    (hremoved : s.mask = {} → s.batch = ⟨false, false⟩ → s.ready = false →
      s'.batch = ⟨false, false⟩ ∧ s'.ready = false) : s'.Sound := by
  cases hs : s.stage with
  | accepted =>
      rw [sound_accepted hs] at h
      rw [sound_accepted (hstage.trans hs), hconn]
      have hmask : s.mask = {} := mask_of_unregistered (by rw [h.2])
      exact ⟨huntouched (by rw [hmask]) (by rw [hmask]) h.1, h.2⟩
  | registered =>
      rw [sound_registered hs] at h
      rw [sound_registered (hstage.trans hs), hconn]
      have hmask : s.mask = ⟨false, false, true⟩ := by
        unfold mask
        rw [h.2]
        rfl
      exact ⟨huntouched (by rw [hmask]) (by rw [hmask]) h.1, h.2⟩
  | established =>
      rw [sound_established hs] at h
      rw [sound_established (hstage.trans hs), hconn]
      exact fun hstate => hwatching (h hstate)
  | removed =>
      rw [sound_removed hs] at h
      rw [sound_removed (hstage.trans hs), hconn]
      obtain ⟨hbatch, hready, hregistered⟩ := h
      obtain ⟨hbatch', hready'⟩ := hremoved (mask_of_unregistered hregistered) hbatch hready
      exact ⟨hbatch', hready', hregistered⟩

theorem ready_of_event {asked : Bool} (hasked : asked = true) : (s.ready || asked) = true := by
  rw [hasked, Bool.or_true]

theorem Watching.mask_read (h : s.Watching) : s.mask.read = true := by
  rw [mask_of_listening h.listening]
  exact h.listening.reading

theorem Watching.mask_write (h : s.Watching) (hleft : s.conn.outputBuffer ≠ []) :
    s.mask.write = true := by
  rw [mask_of_listening h.listening]
  exact h.watched hleft

theorem Sound.arrive (h : s.Sound) (bytes : Bytes) :
    { s with
      unread := s.unread ++ bytes
      arrived := s.arrived ++ bytes
      ready := s.ready || s.mask.read }.Sound := by
  refine h.of_conn rfl rfl (fun _ _ hu => ?_) (fun hw => ?_) fun hmask hbatch hready => ?_
  · exact ⟨hu.state, hu.output, hu.write, hu.batch, congrArg (· ++ bytes) hu.arrived, hu.passed,
      hu.sent, hu.accepted⟩
  · have hready := @ready_of_event n s _ hw.mask_read
    refine ⟨hw.listening, hw.watched, fun _ => .inl hready, fun _ => .inr (.inl hready), ?_, hw.output⟩
    show s.passed ++ (s.unread ++ bytes) = s.arrived ++ bytes
    rw [← List.append_assoc, hw.input]
  · refine ⟨hbatch, ?_⟩
    show (s.ready || s.mask.read) = false
    rw [hready, hmask]
    rfl

theorem Sound.finish (h : s.Sound) :
    { s with fin := true, ready := s.ready || s.mask.read }.Sound := by
  refine h.of_conn rfl rfl (fun _ _ hu => ?_) (fun hw => ?_) fun hmask hbatch hready => ?_
  · exact ⟨hu.state, hu.output, hu.write, hu.batch, hu.arrived, hu.passed, hu.sent, hu.accepted⟩
  · have hready := @ready_of_event n s _ hw.mask_read
    exact ⟨hw.listening, hw.watched, fun _ => .inl hready, fun _ => .inr (.inl hready), hw.input,
      hw.output⟩
  · refine ⟨hbatch, ?_⟩
    show (s.ready || s.mask.read) = false
    rw [hready, hmask]
    rfl

theorem Sound.drain (h : s.Sound) :
    { s with blocked := false, ready := s.ready || s.mask.write }.Sound := by
  refine h.of_conn rfl rfl (fun _ _ hu => ?_) (fun hw => ?_) fun hmask hbatch hready => ?_
  · exact ⟨hu.state, hu.output, hu.write, hu.batch, hu.arrived, hu.passed, hu.sent, hu.accepted⟩
  · refine ⟨hw.listening, hw.watched, fun hmore => ?_, fun hleft => ?_, hw.input, hw.output⟩
    · refine (hw.unread hmore).imp_left fun hready => ?_
      show (s.ready || s.mask.write) = true
      rw [hready, Bool.true_or]
    · exact .inr (.inl (ready_of_event (hw.mask_write hleft)))
  · refine ⟨hbatch, ?_⟩
    show (s.ready || s.mask.write) = false
    rw [hready, hmask]
    rfl

/-- The fd leaves the ready list only with callbacks for all that has made it ready. -/
theorem Sound.poll (h : s.Sound) : { s with ready := false, batch := s.reported }.Sound := by
  have hnone (hread : s.mask.read = false) (hwrite : s.mask.write = false) :
      s.reported = ⟨false, false⟩ := by
    unfold reported
    rw [hread, hwrite]
    rfl
  refine h.of_conn rfl rfl (fun hread hwrite hu => ?_) (fun hw => ?_) fun hmask _ _ => ?_
  · exact ⟨hu.state, hu.output, hu.write, hnone hread hwrite, hu.arrived, hu.passed, hu.sent,
      hu.accepted⟩
  · refine ⟨hw.listening, hw.watched, fun hmore => ?_, fun hleft => ?_, hw.input, hw.output⟩
    · right
      show (s.mask.read && (decide (s.unread ≠ []) || s.fin)) = true
      rw [hw.mask_read]
      simpa using hmore
    · by_cases hblocked : s.blocked = true
      · exact .inl hblocked
      · right
        right
        show (s.mask.write && !s.blocked) = true
        rw [hw.mask_write hleft, Bool.eq_false_iff.2 hblocked]
        rfl
  · exact ⟨hnone (by rw [hmask]) (by rw [hmask]), rfl⟩

/-! ## Steps of the server -/

theorem Sound.setET (h : s.Sound) (hstage : s.stage = .accepted) :
    { (s.withChannel s.conn.channel.useET).checked with stage := .registered }.Sound := by
  rw [sound_accepted hstage] at h
  obtain ⟨hu, hchannel⟩ := h
  have huseET : s.conn.channel.useET = Channel.useET {} := by rw [hchannel]
  have hwrite : s.conn.channel.useET.listenEvents.write = false := by rw [huseET]; rfl
  exact ⟨⟨hu.state, hu.output, hwrite, hu.batch, hu.arrived, hu.passed, hu.sent, hu.accepted⟩, huseET⟩

theorem Sound.enableReading (h : s.Sound) (hstage : s.stage = .registered) :
    { (s.withChannel s.conn.channel.tie.enableReading).checked with
      stage := .established }.Sound := by
  rw [sound_registered hstage] at h
  obtain ⟨hu, -⟩ := h
  intro hstate
  refine ⟨⟨rfl, rfl⟩, fun hleft => absurd hu.output hleft, fun hmore => ?_,
    fun hleft => absurd hu.output hleft, ?_, ?_⟩
  · left
    have hread : (s.withChannel s.conn.channel.tie.enableReading).reported.read = true := by
      have hpossible : s.unread ≠ [] ∨ s.fin = true := hmore
      show (true && (decide (s.unread ≠ []) || s.fin)) = true
      simpa using hpossible
    show (s.ready || _ || _) = true
    rw [hread, Bool.or_true, Bool.true_or]
  · show s.passed ++ s.unread = s.arrived
    rw [hu.passed, hu.arrived]
    rfl
  · show s.accepted ++ s.conn.outputBuffer = s.sent
    rw [hu.accepted, hu.output, hu.sent]
    rfl

/-- A read callback that goes on has read everything; what its `Send` leaves waits for room. -/
theorem Watching.listenClientMessage (h : s.Watching) (hstate : s.conn.state = .connected)
    {d : Dispatch} (hcan : s.CanRead d)
    (hopen : (s.conn.listenClientMessage d).1.state = .connected) :
    (s.listenClientMessage d).Watching := by
  have hend : d.readEnd = .eagain := by
    by_contra hno
    obtain ⟨x, heq, hx, -⟩ := Connection.listenClientMessage_of_not fun hboth : _ ∧ _ => hno hboth.2
    rw [heq] at hopen
    exact hx hopen
  obtain ⟨-, hall, hfin, -, -⟩ := hcan
  have hread : d.chunks.flatten = s.unread := hall (by rw [hend]; decide)
  obtain ⟨hconn, hwritten⟩ := Connection.listenClientMessage_of_eagain hstate hend
  have hstream := (@Connection.stream_onHttpRequest n
    { s.conn with inputBuffer := d.chunks.flatten } s.accepted s.sent h.output d.verdict
    d.sendResult).2 (hconn ▸ hopen)
  unfold EdgeTriggered.listenClientMessage
  rw [if_neg (not_not_intro hstate), if_pos hend, hconn, hwritten]
  have hlistening : { s.conn with inputBuffer := d.chunks.flatten }.Listening :=
    ⟨h.listening.registered, h.listening.reading⟩
  have hwatched : { s.conn with inputBuffer := d.chunks.flatten }.Watched := h.watched
  refine ⟨hlistening.onHttpRequest d.verdict d.sendResult,
    hwatched.onHttpRequest d.verdict d.sendResult, fun hmore => ?_, fun hleft => ?_, ?_, hstream⟩
  · exfalso
    have hpossible : s.unread.drop d.chunks.flatten.length ≠ [] ∨ s.fin = true := hmore
    rw [hread, List.drop_length, hfin hend] at hpossible
    simp at hpossible
  · dsimp only
    by_cases hempty : s.conn.outputBuffer = []
    · left
      rw [if_pos hempty]
      have hnot : ¬ TakesAll d.verdict.payload d.sendResult := fun htakes =>
        hleft (@Connection.outputBuffer_onHttpRequest_of_takesAll n
          { s.conn with inputBuffer := d.chunks.flatten } hempty d.verdict d.sendResult htakes)
      unfold blockedBy
      rw [decide_eq_false hnot]
      exact Bool.or_true _
    · rw [if_neg hempty]
      exact h.unsent hempty
  · show s.passed ++ d.chunks.flatten ++ s.unread.drop d.chunks.flatten.length = s.arrived
    rw [hread, List.drop_length, List.append_nil, h.input]

theorem Watching.sendClientMessage (h : s.Watching) {w : WriteResult}
    (hopen : (s.conn.write w).1.state = .connected) : (s.sendClientMessage w).Watching := by
  have hstate := Connection.connected_write hopen
  refine ⟨h.listening.write w, h.watched.write w, h.unread, fun hleft => ?_, h.input, ?_⟩
  · obtain ⟨hne, hnot⟩ := Connection.not_takesAll_of_write hopen hleft
    left
    show (if s.conn.state = .connected ∧ s.conn.outputBuffer ≠ [] then
      s.blockedBy s.conn.outputBuffer w else s.blocked) = true
    rw [if_pos ⟨hstate, hne⟩]
    unfold blockedBy
    rw [decide_eq_false hnot]
    exact Bool.or_true _
  · show s.accepted ++ written (s.conn.write w).2 ++ (s.conn.write w).1.outputBuffer = s.sent
    rw [List.append_assoc, Connection.written_write, h.output]

theorem Sound.established (h : s.Sound) (hbatch : s.batch ≠ ⟨false, false⟩) :
    s.stage = .established := by
  cases hs : s.stage with
  | established => rfl
  | accepted =>
      rw [sound_accepted hs] at h
      exact absurd h.1.batch hbatch
  | registered =>
      rw [sound_registered hs] at h
      exact absurd h.1.batch hbatch
  | removed =>
      rw [sound_removed hs] at h
      exact absurd h.1 hbatch

theorem sound_of_watching (hstage : s.stage = .established)
    (h : s.conn.state = .connected → s.Watching) (recheck : Bool) :
    (if recheck then s.checked else s).Sound := by
  cases recheck with
  | false => exact (sound_established hstage).2 h
  | true =>
      rw [if_pos rfl]
      have hchecked : s.checked.stage = .established := hstage
      exact (sound_established hchecked).2 fun hstate => (h hstate).checked

theorem Watching.buffered (h : s.Watching) (r : Except Buffer.Fault Buffer) :
    (s.buffered r).Watching := by
  cases r <;>
    exact ⟨h.listening, h.watched, h.unread, h.unsent, h.input, h.output⟩

theorem buffered_conn (s : EdgeTriggered n) (r : Except Buffer.Fault Buffer) :
    (s.buffered r).conn = s.conn ∧ (s.buffered r).stage = s.stage := by
  cases r <;> exact ⟨rfl, rfl⟩

theorem Sound.readReady (h : s.Sound) {d : Dispatch} (hread : s.batch.read = true)
    (hcan : s.CanRead d) (recheck : Bool) (r : Except Buffer.Fault Buffer) :
    (if recheck then ((s.listenClientMessage d).buffered r).checked
      else (s.listenClientMessage d).buffered r).Sound := by
  have hstage : s.stage = .established := h.established fun hno => by
    rw [hno] at hread
    cases hread
  rw [sound_established hstage] at h
  have hfields : (s.listenClientMessage d).stage = s.stage ∧
      (s.listenClientMessage d).conn = (s.conn.listenClientMessage d).1 := by
    unfold EdgeTriggered.listenClientMessage
    dsimp only
    split
    · exact ⟨rfl, rfl⟩
    · split
      · exact ⟨rfl, rfl⟩
      · exact ⟨rfl, rfl⟩
  obtain ⟨hconn, hsame⟩ := (s.listenClientMessage d).buffered_conn r
  apply sound_of_watching (hsame.trans (hfields.1.trans hstage))
  intro hopen
  rw [hconn, hfields.2] at hopen
  have hstate : s.conn.state = .connected := by
    by_contra hno
    obtain ⟨x, heq, hx, -⟩ :=
      @Connection.listenClientMessage_of_not n s.conn d fun hboth => hno hboth.1
    rw [heq] at hopen
    exact hx hopen
  exact ((h hstate).listenClientMessage hstate hcan hopen).buffered r

theorem Sound.writeReady (h : s.Sound) {w : WriteResult} (hwrite : s.batch.write = true)
    (recheck : Bool) (r : Except Buffer.Fault Buffer) :
    (if recheck then ((s.sendClientMessage w).buffered r).checked
      else (s.sendClientMessage w).buffered r).Sound := by
  have hstage : s.stage = .established := h.established fun hno => by
    rw [hno] at hwrite
    cases hwrite
  rw [sound_established hstage] at h
  obtain ⟨hconn, hsame⟩ := (s.sendClientMessage w).buffered_conn r
  apply sound_of_watching (hsame.trans hstage)
  intro hopen
  rw [hconn] at hopen
  exact ((h (Connection.connected_write hopen)).sendClientMessage hopen).buffered r

theorem Sound.remove (hbatch : s.batch = ⟨false, false⟩) {channel : Channel}
    (hremove : s.conn.channel.removeInEpoll = some channel) :
    { s.withChannel channel with stage := .removed, ready := false }.Sound := by
  unfold Channel.removeInEpoll at hremove
  split at hremove
  · cases hremove
    exact ⟨hbatch, rfl, rfl⟩
  · cases hremove

theorem Sound.act (h : s.Sound) {a : EdgeAct} (hstep : s.act a = some s') : s'.Sound := by
  unfold EdgeTriggered.act at hstep
  cases a with
  | arrive first rest =>
      dsimp only at hstep
      split at hstep
      · cases hstep
      · cases hstep
        exact h.arrive (first :: rest)
  | finish =>
      cases hstep
      exact h.finish
  | drain =>
      cases hstep
      exact h.drain
  | setET =>
      dsimp only at hstep
      split at hstep
      · rename_i hstage
        cases hstep
        exact h.setET hstage
      · cases hstep
  | enableReading =>
      dsimp only at hstep
      split at hstep
      · rename_i hstage
        cases hstep
        exact h.enableReading hstage
      · cases hstep
  | poll =>
      dsimp only at hstep
      split at hstep
      · cases hstep
        exact h.poll
      · cases hstep
  | readReady d recheck =>
      dsimp only at hstep
      split at hstep
      · rename_i hread
        cases hstep
        exact h.readReady hread.1 hread.2 recheck _
      · cases hstep
  | writeReady w recheck =>
      dsimp only at hstep
      split at hstep
      · rename_i hwrite
        cases hstep
        exact h.writeReady hwrite.2.1 recheck _
      · cases hstep
  | remove =>
      dsimp only at hstep
      split at hstep
      · rename_i hboth
        obtain ⟨channel, hremove, rfl⟩ := Option.map_eq_some_iff.1 hstep
        exact Sound.remove hboth.2 hremove
      · cases hstep

/-! ## `output_buffer_` -/

def Held (s : EdgeTriggered n) : Prop := s.stopped = false → s.output.Holds s.conn.outputBuffer

theorem Held.checked (h : s.Held) (recheck : Bool) :
    (if recheck then s.checked else s).Held := by
  cases recheck
  · exact h
  · exact h

theorem held_of_buffered {r : Except Buffer.Fault Buffer}
    (h : ∀ output, r = .ok output → output.Holds s.conn.outputBuffer) : (s.buffered r).Held := by
  cases r with
  | ok output => exact fun _ => h output rfl
  | error fault => exact fun hno => by cases hno

theorem Held.readReady (h : s.output.Holds s.conn.outputBuffer) (d : Dispatch) :
    ((s.listenClientMessage d).buffered (s.listenOutput d)).Held := by
  have hconn : (s.listenClientMessage d).conn = (s.conn.listenClientMessage d).1 := by
    unfold EdgeTriggered.listenClientMessage
    dsimp only
    split
    · rfl
    · split <;> rfl
  apply held_of_buffered
  intro output houtput
  unfold listenOutput at houtput
  rw [hconn]
  split at houtput
  · rename_i hboth
    rw [(Connection.listenClientMessage_of_eagain hboth.1 hboth.2).1]
    have hread : s.output.Holds { s.conn with inputBuffer := d.chunks.flatten }.outputBuffer := h
    exact hread.of_onHttpRequest houtput
  · rename_i hno
    obtain ⟨x, heq, -, hsame⟩ := Connection.listenClientMessage_of_not hno
    cases houtput
    rw [heq, hsame]
    exact h

theorem Held.act (h : s.output.Holds s.conn.outputBuffer) {a : EdgeAct}
    (hstep : s.act a = some s') : s'.Held := by
  unfold EdgeTriggered.act at hstep
  cases a with
  | readReady d recheck =>
      dsimp only at hstep
      split at hstep
      · cases hstep
        exact (Held.readReady h d).checked recheck
      · cases hstep
  | writeReady w recheck =>
      dsimp only at hstep
      split at hstep
      · cases hstep
        refine Held.checked (held_of_buffered fun output houtput => ?_) recheck
        obtain ⟨output', heq, hholds⟩ := h.sendOutput w
        cases houtput.symm.trans heq
        exact hholds
      · cases hstep
  | finish | drain =>
      cases hstep
      exact fun _ => h
  | arrive first rest =>
      dsimp only at hstep
      split at hstep
      · cases hstep
      · cases hstep
        exact fun _ => h
  | setET | enableReading | poll =>
      dsimp only at hstep
      split at hstep
      · cases hstep
        exact fun _ => h
      · cases hstep
  | remove =>
      dsimp only at hstep
      split at hstep
      · obtain ⟨channel, -, rfl⟩ := Option.map_eq_some_iff.1 hstep
        exact fun _ => h
      · cases hstep

/-- All that has arrived has been given to the handler, and what has been passed to `Send` has been
taken, or waits in `output_buffer_` for room with the event for it asked for. -/
structure Settled (s : EdgeTriggered n) : Prop where
  read : s.unread = [] ∧ s.fin = false ∧ s.passed = s.arrived
  written : s.blocked = false → s.conn.outputBuffer = [] ∧ s.accepted = s.sent
  holds : s.output.Holds s.conn.outputBuffer
  waiting : s.conn.outputBuffer ≠ [] → s.mask.write = true

theorem Watching.settled (h : s.Watching) (hholds : s.output.Holds s.conn.outputBuffer)
    (hasleep : s.Asleep) : s.Settled := by
  obtain ⟨hready, hbatch⟩ := hasleep
  have hquiet : ¬ (s.unread ≠ [] ∨ s.fin = true) := by
    intro hmore
    have hdue := h.unread hmore
    rw [hready, hbatch] at hdue
    simp at hdue
  obtain ⟨hunread, hfin⟩ := not_or.1 hquiet
  have hnil : s.unread = [] := not_not.1 hunread
  refine ⟨⟨hnil, Bool.eq_false_iff.2 hfin, ?_⟩, fun hroom => ?_, hholds, h.mask_write⟩
  · rw [← h.input, hnil, List.append_nil]
  · have hempty : s.conn.outputBuffer = [] := by
      by_contra hleft
      have hdue := h.unsent hleft
      rw [hroom, hready, hbatch] at hdue
      simp at hdue
    refine ⟨hempty, ?_⟩
    rw [← h.output, hempty, List.append_nil]

/-- **Edge triggering.** Whenever the loop has nothing to do for an open connection, there is
nothing left to do: whatever the order of data, room, registration and callbacks, no event is lost,
and up to the first `Append` that does not fit `output_buffer_` no byte is. -/
theorem settled_of_run (fd : Nat) (loop : Fin (n + 1)) (acts : List EdgeAct) :
    Lib.Always step (fun s => s.stopped = false → s.stage = .established →
      s.conn.state = .connected → s.Asleep → s.Settled) (fresh fd loop) acts := by
  have hkeeps (s : EdgeTriggered n) (a : EdgeAct) (s' : EdgeTriggered n) (h : s.Sound ∧ s.Held)
      (hstep : s.step a = some s') : s'.Sound ∧ s'.Held := by
    unfold step at hstep
    split at hstep
    · cases hstep
    · rename_i hrun
      exact ⟨h.1.act hstep, Held.act (h.2 (Bool.eq_false_iff.2 hrun)) hstep⟩
  have hfresh : (fresh fd loop).Sound ∧ (fresh fd loop).Held :=
    ⟨sound_fresh fd loop, fun _ => Buffer.holds_fresh⟩
  exact (Lib.always_of_keeps hkeeps hfresh acts).mono fun _ h hrun hstage hstate hasleep =>
    ((sound_established hstage).1 h.1 hstate).settled (h.2 hrun) hasleep

/-- Data that comes before the fd is registered is found when it is. -/
example : (Lib.runFrom step (fresh 5 (0 : Fin 1)) [.arrive (chr 'G') [chr 'E'], .setET, .enableReading,
    .poll, .readReady ⟨[[chr 'G', chr 'E']], .eagain, .incomplete, .accepted 0, .accepted 0⟩ false]).map
      (fun s => (s.passed, s.ready, s.batch)) = some (ascii "GE", false, ⟨false, false⟩) := by
  decide

end EdgeTriggered

end CPlusServer

import CPlusServer.Net.Closing
import CPlusServer.Net.Lifetime
import CPlusServer.Net.Output

/-!
# What a run does for each connection

The calls that handlers make for a connection and the bytes that reach its socket,
in order, over a run of the server. The effects of a dispatch are its own part;
what `OnHttpRequest` calls first and what `sendfile` accepts is added here.
-/

namespace CPlusServer

/-- `send` is a call of `Send`; `wrote` and `sentFile` are bytes that `write` and `sendfile` have
accepted. -/
inductive Event
  | removeConnection
  | handleRead
  | callBack
  | send (data : Bytes)
  | wrote (bytes : Bytes)
  | sentFile (bytes : Bytes)
  deriving DecidableEq

def Verdict.payload : Verdict → Bytes
  | .badRequest => ascii "HTTP/1.1 400 Bad Request\r\n\r\n"
  | .incomplete => []
  | .complete response => response.head

def Verdict.calls : Verdict → List Event
  | .badRequest => [.send (Verdict.payload .badRequest)]
  | .incomplete => []
  | .complete response => [.callBack, .send response.head]

/-- `file` is what the calls of `sendfile` in `SendFile` accept. -/
def Effect.events (verdict : Verdict) (file : List Bytes) : Effect → List Event
  | .removeConnection => [.removeConnection]
  | .handleRead => .handleRead :: verdict.calls
  | .wrote bytes => [.wrote bytes]
  | .sendFile => file.map .sentFile

def events (verdict : Verdict) (file : List Bytes) (es : List Effect) : List Event :=
  es.flatMap (Effect.events verdict file)

section
variable (verdict : Verdict) (file : List Bytes)

@[simp] theorem events_nil : events verdict file [] = [] := rfl

@[simp] theorem events_cons (e : Effect) (es : List Effect) :
    events verdict file (e :: es) = e.events verdict file ++ events verdict file es := rfl

@[simp] theorem events_append (es es' : List Effect) :
    events verdict file (es ++ es') = events verdict file es ++ events verdict file es' :=
  List.flatMap_append

end

/-! ## Sent and accepted -/

def Event.sent : Event → Bytes
  | .send data => data
  | _ => []

def Event.accepted : Event → Bytes
  | .wrote bytes => bytes
  | _ => []

def sent (es : List Event) : Bytes := es.flatMap Event.sent

def accepted (es : List Event) : Bytes := es.flatMap Event.accepted

@[simp] theorem sent_append (es es' : List Event) : sent (es ++ es') = sent es ++ sent es' :=
  List.flatMap_append

@[simp] theorem accepted_append (es es' : List Event) :
    accepted (es ++ es') = accepted es ++ accepted es' := List.flatMap_append

theorem sent_events (verdict : Verdict) (file : List Bytes) (e : Effect) :
    sent (e.events verdict file) = if e = .handleRead then verdict.payload else [] := by
  cases e with
  | handleRead =>
      cases verdict <;>
        simp [Effect.events, Verdict.calls, Verdict.payload, sent, Event.sent]
  | removeConnection => rfl
  | wrote bytes => rfl
  | sendFile => simp [Effect.events, sent, Event.sent, List.flatMap_map]

theorem accepted_events (verdict : Verdict) (file : List Bytes) (es : List Effect) :
    accepted (events verdict file es) = written es := by
  have hone : ∀ e : Effect, accepted (e.events verdict file) = e.written := by
    intro e
    cases e with
    | handleRead => cases verdict <;> rfl
    | removeConnection => rfl
    | wrote bytes => simp [Effect.events, accepted, Event.accepted, Effect.written]
    | sendFile => simp [Effect.events, accepted, Event.accepted, Effect.written, List.flatMap_map]
  induction es with
  | nil => rfl
  | cons e es ih => rw [events_cons, accepted_append, hone, ih, written_cons]

namespace Connection

variable {n : Nat} {c : Connection n} {ready : Ready} {d : Dispatch}

/-! ## The parts of a dispatch -/

def Answers (c : Connection n) (ready : Ready) (d : Dispatch) : Prop :=
  ready.read = true ∧ c.state = .connected ∧ d.readEnd = .eagain

instance (c : Connection n) (ready : Ready) (d : Dispatch) : Decidable (c.Answers ready d) :=
  inferInstanceAs (Decidable (_ ∧ _ ∧ _))

theorem listenClientMessage_of_answers (hstate : c.state = .connected) (hend : d.readEnd = .eagain) :
    c.listenClientMessage d =
      (({ c with inputBuffer := d.chunks.flatten }.onHttpRequest d.verdict d.sendResult).1,
        .handleRead ::
          ({ c with inputBuffer := d.chunks.flatten }.onHttpRequest d.verdict d.sendResult).2) := by
  have hread : c.read d.chunks d.readEnd = ({ c with inputBuffer := d.chunks.flatten }, []) := by
    simp [read, readNonBlocking, hstate, hend]
  unfold listenClientMessage
  simp [hread, hstate]

/-- A read callback that does not get there asks for the removal and leaves the output alone. -/
theorem listenClientMessage_of_not (h : ¬ (c.state = .connected ∧ d.readEnd = .eagain)) :
    ∃ x, c.listenClientMessage d = (x, [.removeConnection]) ∧ x.state ≠ .connected ∧
      x.outputBuffer = c.outputBuffer := by
  unfold listenClientMessage read
  by_cases hstate : c.state = .connected
  · cases hend : d.readEnd with
    | eagain => exact absurd ⟨hstate, hend⟩ h
    | eof => simp [hstate, readNonBlocking]
    | error => simp [hstate, readNonBlocking]
  · simp [hstate]

theorem write_of_not_connected (hstate : c.state ≠ .connected) (w : WriteResult) :
    c.write w = (c, [.removeConnection]) := by
  simp [write, hstate]

theorem handleEvent_of_read (hread : ready.read = true) :
    c.handleEvent ready d =
      if ready.write then
        (((c.listenClientMessage d).1.write d.writeResult).1,
          (c.listenClientMessage d).2 ++ ((c.listenClientMessage d).1.write d.writeResult).2)
      else c.listenClientMessage d := by
  unfold handleEvent sendClientMessage
  cases hw : ready.write <;> simp [hread]

theorem handleEvent_of_not_read (hread : ready.read = false) :
    c.handleEvent ready d = if ready.write then c.write d.writeResult else (c, []) := by
  unfold handleEvent sendClientMessage
  cases hw : ready.write <;> simp [hread]

end Connection

/-! ## Runs -/

namespace Server

variable {n : Nat} {s s' : Server n}

def Expires (s : Server n) (c : Nat) : Act n → Prop
  | .overTime _ c' expired | .mainOverTime c' expired => c' = c ∧ expired = true ∧ s.Alive c
  | _ => False

theorem Expires.alive {c : Nat} {a : Act n} (h : s.Expires c a) : s.Alive c := by
  cases a with
  | overTime i c' expired => exact h.2.2
  | mainOverTime c' expired => exact h.2.2
  | _ => exact h.elim

/-- What a step does for connection `c`. `file` is what `sendfile` accepts if the step calls it. -/
def record (s : Server n) (file : List Bytes) (c : Nat) : Act n → List Event
  | .handle i d =>
      match (s.loops i).batch with
      | [] => []
      | (c', ready) :: _ =>
          if c' = c then events d.verdict file ((s.conns c).handleEvent ready d).2 else []
  | .overTime _ c' expired | .mainOverTime c' expired =>
      if c' = c ∧ expired = true ∧ s.Alive c then [.removeConnection] else []
  | _ => []

/-- The server closes `c` by its own decision: after a 400 or a response that closes, its `Send`
without an error. -/
def Decides (s : Server n) (c : Nat) : Act n → Prop
  | .handle i d => ∃ p ∈ (s.loops i).batch.head?, p.1 = c ∧
      (s.conns c).Answers p.2 d ∧ d.verdict.Final ∧ ¬ (s.conns c).SendFails d
  | _ => False

instance (s : Server n) (c : Nat) : ∀ a, Decidable (s.Decides c a)
  | .handle _ _ => inferInstanceAs (Decidable (∃ p ∈ _, _ ∧ _ ∧ _ ∧ ¬ _))
  | .accept _ | .newConnection | .mainOverTime _ _ | .mainToDo | .poll _ _ | .call _
  | .overTime _ _ _ | .toDo _ => .isFalse id

end Server

/-! ## What a step changes -/

namespace Server

variable {n : Nat} {s s' : Server n}

structure Same (s s' : Server n) : Prop where
  created : s'.created = s.created
  state : ∀ c, (s'.conns c).state = (s.conns c).state
  outputBuffer : ∀ c, (s'.conns c).outputBuffer = (s.conns c).outputBuffer

theorem Same.of_conns (hcreated : s'.created = s.created) (hconns : s'.conns = s.conns) :
    Same s s' :=
  ⟨hcreated, fun c => by rw [hconns], fun c => by rw [hconns]⟩

theorem same_setChannel (s : Server n) (c : Nat) (ch : Channel) : Same s (s.setChannel c ch) := by
  have hboth : ∀ c', ((s.setChannel c ch).conns c').state = (s.conns c').state ∧
      ((s.setChannel c ch).conns c').outputBuffer = (s.conns c').outputBuffer := by
    intro c'
    unfold setChannel
    by_cases hc : c' = c
    · subst hc
      rw [conns_setConn_self]
      exact ⟨rfl, rfl⟩
    · rw [conns_setConn_of_ne _ _ hc]
      exact ⟨rfl, rfl⟩
  exact ⟨rfl, fun c' => (hboth c').1, fun c' => (hboth c').2⟩

theorem same_newConnection (hstep : s.newConnection = some s') : Same s s' := by
  unfold newConnection at hstep
  split at hstep <;> cases hstep
  · have hchannel := fun c => same_setChannel s c (s.conns c).channel.useET
    exact ⟨rfl, (hchannel _).state, (hchannel _).outputBuffer⟩
  · exact .of_conns rfl rfl
  · have hchannel := fun c => same_setChannel s c (s.conns c).channel.tie
    exact ⟨rfl, (hchannel _).state, (hchannel _).outputBuffer⟩
  · have hchannel := fun c => same_setChannel s c (s.conns c).channel.enableReading
    exact ⟨rfl, (hchannel _).state, (hchannel _).outputBuffer⟩
  · exact .of_conns rfl rfl

theorem same_mainOverTime {c : Nat} {expired : Bool} (hstep : s.mainOverTime c expired = some s') :
    Same s s' := by
  unfold mainOverTime at hstep
  dsimp only at hstep
  split_ifs at hstep <;> cases hstep <;> exact .of_conns rfl rfl

theorem same_mainToDo (hstep : s.mainToDo = some s') : Same s s' := by
  unfold mainToDo at hstep
  split_ifs at hstep
  · cases hstep
    exact .of_conns rfl rfl
  · split at hstep <;> cases hstep <;> exact .of_conns rfl rfl

theorem same_poll {i : Fin (n + 1)} {batch : List (Nat × Ready)}
    (hstep : s.poll i batch = some s') : Same s s' := by
  unfold poll at hstep
  split_ifs at hstep
  cases hstep
  exact .of_conns rfl rfl

theorem same_call {i : Fin (n + 1)} (hstep : s.call i = some s') : Same s s' := by
  unfold call at hstep
  dsimp only at hstep
  split at hstep
  · exact nomatch hstep
  · split at hstep <;> cases hstep <;> exact .of_conns rfl rfl
  · cases hstep
    exact .of_conns rfl rfl

theorem same_overTime {i : Fin (n + 1)} {c : Nat} {expired : Bool}
    (hstep : s.overTime i c expired = some s') : Same s s' := by
  unfold overTime at hstep
  dsimp only at hstep
  split_ifs at hstep <;> cases hstep <;> exact .of_conns rfl rfl

theorem same_connectionDestructor (s : Server n) (c : Nat) : Same s (s.connectionDestructor c) := by
  rcases s.connectionDestructor_cases c with ⟨-, heq⟩ | ⟨-, ch, -, -, heq⟩
  · rw [heq]
    exact .of_conns rfl rfl
  · rw [heq]
    have hchannel := same_setChannel (s.counted c) c ch
    exact ⟨hchannel.created, hchannel.state, hchannel.outputBuffer⟩

theorem same_toDo {i : Fin (n + 1)} (hstep : s.toDo i = some s') : Same s s' := by
  unfold toDo at hstep
  dsimp only at hstep
  split at hstep
  · exact nomatch hstep
  · split_ifs at hstep
    cases hstep
    exact .of_conns rfl rfl
  · split at hstep
    · cases hstep
      exact .of_conns rfl rfl
    · rename_i c _
      cases hstep
      have hdestructor := same_connectionDestructor s c
      split
      · exact ⟨hdestructor.created, hdestructor.state, hdestructor.outputBuffer⟩
      · exact hdestructor

theorem Lifetime.born_of_batch (h : Lifetime s) {i : Fin (n + 1)} {c : Nat} {ready : Ready}
    {rest : List (Nat × Ready)} (hbatch : (s.loops i).batch = (c, ready) :: rest) :
    c < s.created := by
  have hmem : (c, ready) ∈ (s.loops i).batch := by
    rw [hbatch]
    exact List.mem_cons_self
  exact h.owned.born c (h.polled.alive (h.polled.batch i _ hmem).2)

inductive Did (s s' : Server n) (c : Nat) : Act n → Prop
  | constructed (fd : Nat) (hc : c = s.created)
      (hconn : s'.conns c = { fd := fd, loop := s.nextLoop }) : Did s s' c (.accept fd)
  | handled (i : Fin (n + 1)) (d : Dispatch) (ready : Ready) (rest : List (Nat × Ready))
      (hbatch : (s.loops i).batch = (c, ready) :: rest)
      (hconn : s'.conns c = ((s.conns c).handleEvent ready d).1) : Did s s' c (.handle i d)
  | same (a : Act n) (hstate : (s'.conns c).state = (s.conns c).state)
      (hout : (s'.conns c).outputBuffer = (s.conns c).outputBuffer)
      (hrecord : ∀ file, s.record file c a = [] ∨
        s.Expires c a ∧ s.record file c a = [.removeConnection])
      (hdecides : ¬ s.Decides c a) : Did s s' c a

theorem Same.did (h : Same s s') {a : Act n} (c : Nat)
    (hrecord : ∀ file, s.record file c a = [] ∨
      s.Expires c a ∧ s.record file c a = [.removeConnection])
    (hdecides : ¬ s.Decides c a) : Did s s' c a :=
  .same a (h.state c) (h.outputBuffer c) hrecord hdecides

theorem did_accept {fd : Nat} (hstep : s.accept fd = some s') (c : Nat) :
    Did s s' c (.accept fd) := by
  unfold accept at hstep
  split at hstep
  · cases hstep
    by_cases hc : c = s.created
    · subst hc
      exact .constructed fd rfl (conns_construct_self s fd)
    · have hconn := @conns_construct_of_ne n s fd c hc
      exact .same _ (by rw [hconn]) (by rw [hconn]) (fun _ => .inl rfl) id
  · exact nomatch hstep

theorem did_handle {i : Fin (n + 1)} {d : Dispatch} (hstep : s.handle i d = some s') (c : Nat) :
    Did s s' c (.handle i d) := by
  unfold handle at hstep
  dsimp only at hstep
  split at hstep
  · exact nomatch hstep
  · rename_i c' ready rest hbatch
    split at hstep
    · cases hstep
      by_cases hc : c = c'
      · subst hc
        exact .handled i d ready rest hbatch (conns_setConn_self s c _)
      · have hconn := conns_setConn_of_ne s ((s.conns c').handleEvent ready d).1 hc
        refine .same _ (congrArg _ hconn) (congrArg _ hconn) (fun file => .inl ?_) ?_
        · simp [record, hbatch, Ne.symm hc]
        · intro hbatch
          obtain ⟨p, hp, hpc, -⟩ := hbatch
          rw [hbatch] at hp
          cases hp
          exact hc hpc.symm
    · exact nomatch hstep

theorem did_of_step {a : Act n} (hstep : s.step a = some s') (c : Nat) : Did s s' c a := by
  have hexpired : ∀ c' expired, (if c' = c ∧ expired = true ∧ s.Alive c then
      [Event.removeConnection] else []) = [] ∨ (c' = c ∧ expired = true ∧ s.Alive c) ∧
        (if c' = c ∧ expired = true ∧ s.Alive c then [Event.removeConnection] else []) =
          [.removeConnection] := by
    intro c' expired
    split_ifs with h
    · exact .inr ⟨h, rfl⟩
    · exact .inl rfl
  unfold Server.step at hstep
  split at hstep
  · cases a with
    | accept fd => exact did_accept hstep c
    | newConnection => exact (same_newConnection hstep).did c (fun _ => .inl rfl) id
    | mainOverTime c' expired =>
        exact (same_mainOverTime hstep).did c (fun _ => hexpired c' expired) id
    | mainToDo => exact (same_mainToDo hstep).did c (fun _ => .inl rfl) id
    | poll i batch => exact (same_poll hstep).did c (fun _ => .inl rfl) id
    | handle i d => exact did_handle hstep c
    | call i => exact (same_call hstep).did c (fun _ => .inl rfl) id
    | overTime i c' expired => exact (same_overTime hstep).did c (fun _ => hexpired c' expired) id
    | toDo i => exact (same_toDo hstep).did c (fun _ => .inl rfl) id
  · exact nomatch hstep

theorem created_le_of_step {a : Act n} (hstep : s.step a = some s') : s.created ≤ s'.created := by
  unfold Server.step at hstep
  split at hstep
  · cases a with
    | accept fd =>
        replace hstep : s.accept fd = some s' := hstep
        unfold accept at hstep
        split_ifs at hstep
        cases hstep
        exact Nat.le_succ _
    | newConnection => exact (same_newConnection hstep).created.ge
    | mainOverTime c expired => exact (same_mainOverTime hstep).created.ge
    | mainToDo => exact (same_mainToDo hstep).created.ge
    | poll i batch => exact (same_poll hstep).created.ge
    | handle i d =>
        replace hstep : s.handle i d = some s' := hstep
        unfold handle at hstep
        dsimp only at hstep
        split at hstep
        · exact nomatch hstep
        · split_ifs at hstep
          cases hstep
          exact Nat.le_refl _
    | call i => exact (same_call hstep).created.ge
    | overTime i c expired => exact (same_overTime hstep).created.ge
    | toDo i => exact (same_toDo hstep).created.ge
  · exact nomatch hstep

end Server

/-- A server with what has happened to each connection, and which ones it has closed by its own
decision. -/
structure Traced (n : Nat) where
  server : Server n := {}
  log : Nat → List Event := fun _ => []
  closing : Nat → Bool := fun _ => false

/-- A step, and what `sendfile` accepts if the step calls it. -/
abbrev TracedAct (n : Nat) := Server.Act n × List Bytes

namespace Traced

variable {n : Nat}

def step (t : Traced n) (a : TracedAct n) : Option (Traced n) :=
  (t.server.step a.1).map fun s =>
    { server := s
      log := fun c => t.log c ++ t.server.record a.2 c a.1
      closing := fun c => t.closing c || decide (t.server.Decides c a.1) }

theorem of_step {t t' : Traced n} {a : TracedAct n} (h : t.step a = some t') :
    t.server.step a.1 = some t'.server ∧
      (∀ c, t'.log c = t.log c ++ t.server.record a.2 c a.1) ∧
      ∀ c, t'.closing c ↔ t.closing c ∨ t.server.Decides c a.1 := by
  rcases Option.map_eq_some_iff.1 h with ⟨s, hs, rfl⟩
  exact ⟨hs, fun _ => rfl, fun _ => by simp⟩

/-- A run that has been recorded is a run of the server; to a connection not accepted yet nothing
has happened. -/
structure Recorded (t : Traced n) : Prop where
  lifetime : Server.Lifetime t.server
  unborn : ∀ c, t.server.created ≤ c → t.log c = [] ∧ ¬ t.closing c

theorem Recorded.step {t t' : Traced n} (h : Recorded t) {a : TracedAct n}
    (hstep : t.step a = some t') : Recorded t' := by
  obtain ⟨hserver, hlog, hclosing⟩ := of_step hstep
  refine ⟨h.lifetime.step hserver, fun c hc => ?_⟩
  obtain ⟨hnil, hopen⟩ := h.unborn c (Nat.le_trans (Server.created_le_of_step hserver) hc)
  have hnew := Nat.not_lt.2 (Nat.le_trans (Server.created_le_of_step hserver) hc)
  rw [hlog, hclosing, hnil]
  obtain ⟨act, file⟩ := a
  cases Server.did_of_step hserver c with
  | constructed fd hc hconn => exact ⟨rfl, not_or.2 ⟨hopen, id⟩⟩
  | handled i d ready rest hbatch hconn => exact absurd (h.lifetime.born_of_batch hbatch) hnew
  | same _ hstate hout hrecord hdecides =>
      refine ⟨?_, not_or.2 ⟨hopen, hdecides⟩⟩
      rcases hrecord file with hrecord | ⟨hexpires, -⟩
      · exact hrecord
      · exact absurd (h.lifetime.owned.born c hexpires.alive) hnew

theorem recorded_init : Recorded ({} : Traced n) :=
  ⟨Server.lifetime_init, fun _ _ => ⟨rfl, fun hno => nomatch hno⟩⟩

end Traced

end CPlusServer

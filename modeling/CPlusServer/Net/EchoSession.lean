import CPlusServer.Net.EchoClient

/-!
# Client and echo server

The two programs and the streams between them, one call of the client or one event of
the server at a time, in any order. What the client prints is what has been typed, in
order; and what is missing of it is under way, in one of the two buffers or in one of
the two streams, for as long as both sides are there.
-/

namespace CPlusServer

namespace Echo

variable {n : Nat} {s s' : Echo n}

def taken (s : Echo n) : EchoAct → Bytes
  | .readReady results _ _ =>
      if s.conn.state = .connected then ((readCall results).map fun call => call.1.flatten).getD []
      else []
  | .writeReady _ _ => []

theorem streams_send (s : Echo n) (site : LogSite) (w : WriteResult) :
    (s.send site w).returned = s.returned ∧ s.accepted <+: (s.send site w).accepted := by
  unfold send
  dsimp only
  split
  · split
    · exact ⟨rfl, List.prefix_append _ _⟩
    · exact ⟨rfl, List.prefix_append _ _⟩
  · exact ⟨rfl, List.prefix_rfl⟩

theorem streams_message (s : Echo n) (site : LogSite) (w : WriteResult) :
    (s.message site w).returned = s.returned ∧ s.accepted <+: (s.message site w).accepted := by
  unfold message
  split
  · exact s.streams_send site w
  · exact ⟨rfl, List.prefix_rfl⟩

theorem streams_listenClientMessage (s : Echo n) (call : List Bytes × ReadEnd) (site : LogSite)
    (w : WriteResult) :
    (s.listenClientMessage call site w).returned =
        (if s.conn.state = .connected then s.returned ++ call.1.flatten else s.returned) ∧
      s.accepted <+: (s.listenClientMessage call site w).accepted := by
  unfold listenClientMessage
  dsimp only
  generalize (if s.conn.state = .connected then s.returned ++ call.1.flatten
    else s.returned) = returned
  split
  · split
    · exact ⟨rfl, List.prefix_rfl⟩
    · exact streams_message { s with conn := (s.conn.read call.1 call.2).1, returned := returned }
        site w
  · exact ⟨rfl, List.prefix_rfl⟩

theorem streams_step {a : EchoAct} (hstep : s.step a = some s') :
    s'.returned = s.returned ++ s.taken a ∧ s.accepted <+: s'.accepted := by
  unfold step at hstep
  split at hstep
  · cases hstep
  · cases a with
    | writeReady site w =>
        cases hstep
        unfold sendClientMessage
        refine ⟨?_, ?_⟩
        · split
          · split <;> exact (List.append_nil _).symm
          · exact (List.append_nil _).symm
        · split
          · split
            · exact List.prefix_append _ _
            · exact List.prefix_rfl
          · exact List.prefix_rfl
    | readReady results site w =>
        obtain ⟨call, hcall, rfl⟩ := Option.map_eq_some_iff.1 hstep
        obtain ⟨hreturned, haccepted⟩ := s.streams_listenClientMessage call site w
        refine ⟨hreturned.trans ?_, haccepted⟩
        unfold taken
        dsimp only
        rw [hcall]
        by_cases hstate : s.conn.state = .connected
        · rw [if_pos hstate, if_pos hstate]
          rfl
        · rw [if_neg hstate, if_neg hstate, List.append_nil]

end Echo

/-- The two sides and what the network has of their streams. -/
structure EchoSession (n : Nat) where
  client : EchoClient := {}
  server : Echo n
  toServer : Lib.Fifo UInt8 := {}
  toClient : Lib.Fifo UInt8 := {}

inductive SessionAct
  | client (a : ClientAct)
  | server (a : EchoAct)

namespace EchoSession

variable {n : Nat} {s s' : EchoSession n}

/-- A side takes the next bytes of the stream to it, and what it has sent joins the other. -/
def step (s : EchoSession n) : SessionAct → Option (EchoSession n)
  | .client a => do
      let client ← s.client.step a
      let toClient ← s.toClient.take? (EchoClient.taken a)
      return { s with
        client := client
        toServer := s.toServer.push (client.conn.sent.drop s.client.conn.sent.length)
        toClient := toClient }
  | .server a => do
      let server ← s.server.step a
      let toServer ← s.toServer.take? (s.server.taken a)
      return { s with
        server := server
        toServer := toServer
        toClient := s.toClient.push (server.accepted.drop s.server.accepted.length) }

def fresh (fd : Nat) (loop : Fin (n + 1)) (channel : Channel) : EchoSession n :=
  { server := .fresh fd loop channel }

structure Joined (s : EchoSession n) : Prop where
  client : s.client.Regular
  server : s.server.InOrder
  sentUp : s.toServer.sent = s.client.conn.sent
  takenUp : s.toServer.taken = s.server.returned
  sentDown : s.toClient.sent = s.server.accepted
  takenDown : s.toClient.taken = s.client.got

theorem Joined.step (h : s.Joined) {a : SessionAct} (hstep : s.step a = some s') :
    s'.Joined := by
  cases a with
  | client a =>
      obtain ⟨client, hclient, hstep⟩ := Option.bind_eq_some_iff.1 hstep
      obtain ⟨toClient, htake, hstep⟩ := Option.bind_eq_some_iff.1 hstep
      obtain ⟨hsent, htaken⟩ := Lib.Fifo.take?_eq_some htake
      have hadvance := h.client.step hclient
      cases hstep
      refine ⟨hadvance.regular, h.server, ?_, h.takenUp, hsent.trans h.sentDown, ?_⟩
      · show s.toServer.sent ++ client.conn.sent.drop s.client.conn.sent.length = client.conn.sent
        rw [h.sentUp]
        exact List.prefix_iff_eq_append.1 hadvance.sent
      · show toClient.taken = client.got
        rw [htaken, h.takenDown, hadvance.got]
  | server a =>
      obtain ⟨server, hserver, hstep⟩ := Option.bind_eq_some_iff.1 hstep
      obtain ⟨toServer, htake, hstep⟩ := Option.bind_eq_some_iff.1 hstep
      obtain ⟨hsent, htaken⟩ := Lib.Fifo.take?_eq_some htake
      obtain ⟨hreturned, haccepted⟩ := Echo.streams_step hserver
      cases hstep
      refine ⟨h.client, (h.server.step hserver).1, hsent.trans h.sentUp, ?_, ?_, h.takenDown⟩
      · show toServer.taken = server.returned
        rw [htaken, h.takenUp, hreturned]
      · show s.toClient.sent ++ server.accepted.drop s.server.accepted.length = server.accepted
        rw [h.sentDown]
        exact List.prefix_iff_eq_append.1 haccepted

/-- What is printed is a first part of what has been typed, and the client asks nothing of its
connection that is not there. With the server there and its connection connected, the rest is under
way: read and not yet printed, in the stream to the client, in the `output_buffer_` of the server,
in the stream to it, or in that of the client. -/
structure Echoes (s : EchoSession n) : Prop where
  printed : s.client.printed <+: s.client.typed
  clean : s.client.conn.fault = none
  clientHolds : s.client.output.Holds s.client.conn.outputBuffer
  serverHolds : s.server.stopped = false → s.server.output.Holds s.server.conn.outputBuffer
  whole : s.server.stopped = false → s.server.conn.state = .connected →
    s.client.printed ++ s.client.conn.inputBuffer ++ s.toClient.inFlight ++
        s.server.conn.outputBuffer ++ s.toServer.inFlight ++ s.client.conn.outputBuffer =
      s.client.typed

theorem Joined.echoes (h : s.Joined) : s.Echoes := by
  have hdown : s.client.got ++ s.toClient.inFlight = s.server.accepted := by
    rw [← h.takenDown, ← h.sentDown]
    exact s.toClient.taken_append_inFlight
  have hup : s.server.returned ++ s.toServer.inFlight = s.client.conn.sent := by
    rw [← h.takenUp, ← h.sentUp]
    exact s.toServer.taken_append_inFlight
  have htyped := h.client.typed
  refine ⟨?_, h.client.fault, h.client.holds, h.server.holds, fun hrun hstate => ?_⟩
  · calc s.client.printed <+: s.client.got := List.prefix_append _ _
      _ <+: s.server.accepted := ⟨_, hdown⟩
      _ <+: s.server.received := h.server.accepted
      _ <+: s.server.returned := h.server.received
      _ <+: s.client.conn.sent := ⟨_, hup⟩
      _ <+: s.client.typed := ⟨_, htyped.symm⟩
  · obtain ⟨hbuffer, hreturned⟩ := h.server.whole hrun hstate
    show s.client.got ++ _ ++ _ ++ _ ++ _ = _
    rw [hdown, hbuffer, hreturned, hup, htyped]

/-- **Echo session.** In whatever order the calls of the client and the events of the server come,
and however their streams are cut, the client prints what has been typed, in order and nothing
twice, and nothing is lost while the server is there. -/
theorem session_of_run (fd : Nat) (loop : Fin (n + 1)) (channel : Channel)
    (acts : List SessionAct) :
    Lib.Always step Echoes (fresh fd loop channel) acts := by
  have hfresh : Joined (fresh fd loop channel) :=
    ⟨EchoClient.regular_fresh, Echo.inOrder_fresh fd loop channel, rfl, rfl, rfl, rfl⟩
  exact (Lib.always_of_keeps (fun _ _ _ h hstep => h.step hstep) hfresh acts).mono
    fun _ h => h.echoes

end EchoSession

end CPlusServer

import CPlusServer.Lib.Run
import CPlusServer.Net.Connection

/-!
# The output of a connection

`Send` writes to the socket at once where nothing waits, and otherwise behind
what waits in `output_buffer_`; a write-ready event sends from the front of the
buffer. What the kernel has accepted and what waits are together what was sent.
-/

namespace CPlusServer

def Effect.written : Effect → Bytes
  | .wrote bytes => bytes
  | _ => []

/-- The bytes that `write` has accepted, in order. -/
def written (es : List Effect) : Bytes := es.flatMap Effect.written

@[simp] theorem written_nil : written [] = [] := rfl

@[simp] theorem written_cons (e : Effect) (es : List Effect) :
    written (e :: es) = e.written ++ written es := rfl

@[simp] theorem written_append (es es' : List Effect) :
    written (es ++ es') = written es ++ written es' := List.flatMap_append

namespace Connection

variable {n : Nat}

/-! ## One call -/

@[simp] theorem outputBuffer_keepRemaining (c : Connection n) (remaining : Bytes) :
    (c.keepRemaining remaining).outputBuffer = c.outputBuffer ++ remaining := by
  unfold keepRemaining
  split <;> simp_all

@[simp] theorem state_keepRemaining (c : Connection n) (remaining : Bytes) :
    (c.keepRemaining remaining).state = c.state := by
  unfold keepRemaining
  split <;> rfl

/-- `Send` hands over a first part of what waits and its data, and keeps the rest. -/
theorem written_send {c : Connection n} {data : Bytes} {w : WriteResult}
    (h : ¬ (c.outputBuffer = [] ∧ w = .error)) :
    written (c.send data w).2 ++ (c.send data w).1.outputBuffer = c.outputBuffer ++ data := by
  unfold send
  by_cases hempty : c.outputBuffer = []
  · rw [if_pos hempty]
    cases w with
    | accepted k => simp [hempty, Effect.written]
    | eagain => simp
    | error => exact absurd ⟨hempty, rfl⟩ h
  · rw [if_neg hempty]
    simp

theorem send_of_error {c : Connection n} {data : Bytes} {w : WriteResult}
    (h : c.outputBuffer = [] ∧ w = .error) :
    c.send data w = ({ c with state := .closed }, [.removeConnection]) := by
  obtain ⟨hempty, rfl⟩ := h
  simp [send, hempty]

theorem written_write (c : Connection n) (w : WriteResult) :
    written (c.write w).2 ++ (c.write w).1.outputBuffer = c.outputBuffer := by
  unfold write
  split
  · simp [Effect.written]
  · unfold writeNonBlocking
    split
    · simp
    · cases w with
      | accepted k => cases k <;> simp [Effect.written]
      | eagain => simp
      | error => simp [Effect.written]

theorem connected_send {c : Connection n} {data : Bytes} {w : WriteResult}
    (h : (c.send data w).1.state = .connected) :
    c.state = .connected ∧ ¬ (c.outputBuffer = [] ∧ w = .error) := by
  by_cases hfail : c.outputBuffer = [] ∧ w = .error
  · rw [send_of_error hfail] at h
    exact nomatch h
  · refine ⟨?_, hfail⟩
    unfold send at h
    split at h
    · cases w with
      | accepted k => simpa using h
      | eagain => simpa using h
      | error => exact absurd ⟨by assumption, rfl⟩ hfail
    · simpa using h

/-- A call of `Send` goes on with a stream of which the buffer holds the rest. -/
theorem stream_send {c : Connection n} {accepted sent : Bytes}
    (h : accepted ++ c.outputBuffer = sent) (data : Bytes) (w : WriteResult) :
    accepted ++ written (c.send data w).2 <+: sent ++ data ∧
      ((c.send data w).1.state = .connected →
        accepted ++ written (c.send data w).2 ++ (c.send data w).1.outputBuffer = sent ++ data) := by
  by_cases hfail : c.outputBuffer = [] ∧ w = .error
  · rw [send_of_error hfail]
    refine ⟨?_, fun hno => nomatch hno⟩
    show accepted ++ [] <+: sent ++ data
    rw [← h, hfail.1, List.append_nil]
    exact List.prefix_append _ _
  · have hall : accepted ++ written (c.send data w).2 ++ (c.send data w).1.outputBuffer =
        sent ++ data := by
      rw [List.append_assoc, written_send hfail, ← List.append_assoc, h]
    exact ⟨⟨_, hall⟩, fun _ => hall⟩

theorem connected_write {c : Connection n} {w : WriteResult}
    (h : (c.write w).1.state = .connected) : c.state = .connected := by
  by_contra hno
  unfold write at h
  rw [if_pos hno] at h
  exact hno h

def Watched (c : Connection n) : Prop :=
  c.outputBuffer ≠ [] → c.channel.listenEvents.write = true

theorem Watched.keepRemaining {c : Connection n} (h : c.Watched) (remaining : Bytes) :
    (c.keepRemaining remaining).Watched := by
  unfold Connection.keepRemaining
  split
  · exact h
  · exact fun _ => rfl

theorem Watched.send {c : Connection n} (h : c.Watched) (data : Bytes) (w : WriteResult) :
    (c.send data w).1.Watched := by
  unfold Connection.send
  split
  · cases w with
    | accepted k => exact h.keepRemaining _
    | eagain => exact h.keepRemaining _
    | error => exact h
  · exact h.keepRemaining _

theorem Watched.write {c : Connection n} (h : c.Watched) (w : WriteResult) :
    (c.write w).1.Watched := by
  unfold Connection.write
  split
  · exact h
  · unfold writeNonBlocking
    split
    · rename_i hempty
      exact fun hno => absurd hempty hno
    · rename_i hne
      cases w with
      | accepted k =>
          cases k with
          | zero => exact h
          | succ k => exact fun _ => h hne
      | eagain => exact h
      | error => exact h

end Connection

/-! ## Runs -/

/-- A connection with the payloads passed to `Send` and the bytes accepted by the kernel so far. -/
structure Outgoing (n : Nat) where
  conn : Connection n
  sent : Bytes := []
  accepted : Bytes := []

/-- A call of `Send`, or a write-ready event; each with what `write` answers if it is called. -/
inductive OutAct
  | send (data : Bytes) (w : WriteResult)
  | writeReady (w : WriteResult)

namespace Outgoing

variable {n : Nat} {s : Outgoing n}

def fresh (fd : Nat) (loop : Fin (n + 1)) (channel : Channel) : Outgoing n :=
  { conn := { fd := fd, loop := loop, channel := channel } }

def exec (s : Outgoing n) : OutAct → Outgoing n
  | .send data w =>
      let (c, es) := s.conn.send data w
      { conn := c, sent := s.sent ++ data, accepted := s.accepted ++ written es }
  | .writeReady w =>
      let (c, es) := s.conn.sendClientMessage w
      { s with conn := c, accepted := s.accepted ++ written es }

def step (s : Outgoing n) (a : OutAct) : Option (Outgoing n) := some (s.exec a)

/-- While the connection is connected nothing is lost or out of order, and what waits is waited
for. -/
structure Streamed (s : Outgoing n) : Prop where
  inOrder : s.conn.state = .connected → s.accepted ++ s.conn.outputBuffer = s.sent
  watched : s.conn.Watched

theorem Streamed.exec (h : Streamed s) (a : OutAct) : Streamed (s.exec a) := by
  cases a with
  | send data w =>
      refine ⟨fun hstate => ?_, h.watched.send data w⟩
      obtain ⟨hconn, hfail⟩ := Connection.connected_send hstate
      show s.accepted ++ written (s.conn.send data w).2 ++ (s.conn.send data w).1.outputBuffer = _
      rw [List.append_assoc, Connection.written_send hfail, ← List.append_assoc, h.inOrder hconn]
      rfl
  | writeReady w =>
      refine ⟨fun hstate => ?_, h.watched.write w⟩
      have hconn := Connection.connected_write hstate
      show s.accepted ++ written (s.conn.write w).2 ++ (s.conn.write w).1.outputBuffer = s.sent
      rw [List.append_assoc, Connection.written_write, h.inOrder hconn]

/-- The step that closes the connection has not sent anything out of order either. -/
theorem Streamed.accepted_exec (h : Streamed s) (hconn : s.conn.state = .connected) (a : OutAct) :
    (s.exec a).accepted <+: (s.exec a).sent := by
  have hnow := h.inOrder hconn
  cases a with
  | send data w =>
      show s.accepted ++ written (s.conn.send data w).2 <+: s.sent ++ data
      by_cases hfail : s.conn.outputBuffer = [] ∧ w = .error
      · rw [Connection.send_of_error hfail, ← hnow]
        simp [Effect.written, List.append_assoc]
      · rw [← hnow, List.append_assoc, ← Connection.written_send hfail, ← List.append_assoc]
        exact List.prefix_append _ _
  | writeReady w =>
      show s.accepted ++ written (s.conn.write w).2 <+: s.sent
      rw [← hnow, ← Connection.written_write s.conn w, ← List.append_assoc]
      exact List.prefix_append _ _

/-- **Outgoing stream.** In every run of sends and write-ready events, what the kernel has accepted
and what waits are the payloads in order while the connection is connected, waiting output is
waited for, and what was accepted up to the error that closes the connection is a first part of
the payloads. -/
theorem streamed_of_run (fd : Nat) (loop : Fin (n + 1)) (channel : Channel) (acts : List OutAct) :
    Lib.Always step Streamed (fresh fd loop channel) acts ∧
      Lib.Each step (fun s a => s.conn.state = .connected → (s.exec a).accepted <+: (s.exec a).sent)
        (fresh fd loop channel) acts := by
  have hfresh : Streamed (fresh fd loop channel) := ⟨fun _ => rfl, fun hno => absurd rfl hno⟩
  have halways : Lib.Always step Streamed (fresh fd loop channel) acts := by
    refine Lib.always_of_keeps (fun s a s' h hstep => ?_) hfresh acts
    cases hstep
    exact h.exec a
  exact ⟨halways, halways.each fun s a _ h _ hconn => h.accepted_exec hconn a⟩

end Outgoing

end CPlusServer

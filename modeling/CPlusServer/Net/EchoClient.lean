import CPlusServer.Lib.InOrder
import CPlusServer.Net.Echo
import CPlusServer.Net.Standalone

/-!
# The client of the echo server

The loop of the client: a line from the keyboard is written with a blocking `Write`,
one blocking `Read` takes some of the answer, and that is printed. Between client and
server are two streams. Every call of the client and every event of the server is a
step, so that an answer may come in parts, behind the next line, or never.
-/

namespace CPlusServer

namespace Standalone

/-- One round of the loop of `WriteBlocking`, and what is still to be written if there is a next. -/
def writeCall (c : Standalone) (bytesToWrite : Nat) : WriteReturn → Standalone × Option Nat
  | .accepted k =>
      let hadWrite := min k bytesToWrite
      if 0 < hadWrite then
        let rest := bytesToWrite - hadWrite
        (c.wrote hadWrite, if rest = 0 then none else some rest)
      else ({ c.close with failed := decide (0 < bytesToWrite) }, none)
  | .eintr => (c, some bytesToWrite)
  | .eagain => (c.close, none)
  | .error => ({ c.close with failed := true }, none)

end Standalone

namespace Buffer

/-- `AppendKeyBoard` with what `getline` gives. The size of the line is an `int`. -/
def appendKeyBoard (b : Buffer) (message : Bytes) : Except Fault Buffer := do
  let _ ← checked message.length
  b.retreiveAll.append message

def writeCall (b : Buffer) (bytesToWrite : Nat) : WriteReturn → Except Fault Buffer
  | .accepted k =>
      let hadWrite := min k bytesToWrite
      if 0 < hadWrite then b.retreive hadWrite else .ok b
  | .eintr | .eagain | .error => .ok b

theorem Holds.of_appendKeyBoard {b b' : Buffer} {q message : Bytes} (h : b.Holds q)
    (happend : b.appendKeyBoard message = .ok b') : b'.Holds message := by
  obtain ⟨size, hsize, happend⟩ := ok_of_bind_ok happend
  have hsmall : (message.length : Int) < 2 ^ 31 := by
    unfold checked at hsize
    split_ifs at hsize with hint
    exact hint.2
  have hfits : b.retreiveAll.Fits message := by
    by_contra hno
    exact h.retreiveAll.append_fault hsmall hno b' happend
  obtain ⟨b'', heq, hholds⟩ := h.retreiveAll.append hfits
  cases happend.symm.trans heq
  exact hholds

theorem Holds.writeCall {b : Buffer} {c : Standalone} (h : b.Holds c.outputBuffer)
    {bytesToWrite : Nat} (hcount : bytesToWrite = c.outputBuffer.length) (r : WriteReturn) :
    ∃ b', b.writeCall bytesToWrite r = .ok b' ∧
      b'.Holds (c.writeCall bytesToWrite r).1.outputBuffer := by
  cases r with
  | accepted k =>
      unfold Buffer.writeCall Standalone.writeCall
      dsimp only
      split
      · have hle : ((min k bytesToWrite : Nat) : Int) ≤ c.outputBuffer.length := by omega
        obtain ⟨b', hretreive, hholds⟩ := h.retreive (Int.natCast_nonneg _) hle
        rw [Int.toNat_natCast] at hholds
        exact ⟨b', hretreive, hholds⟩
      · exact ⟨b, rfl, h⟩
  | eintr | eagain | error => exact ⟨b, rfl, h⟩

end Buffer

/-- Where the client is. In the loop of `Write` it still has so many bytes to write. -/
inductive ClientPc
  | keyBoardToOutput | write
  | writing (bytesToWrite : Nat)
  | read | print | exited
  deriving DecidableEq

/-- The client, with its `output_buffer_`, the lines that have been typed and what has
been printed. -/
structure EchoClient where
  conn : Standalone := {}
  output : Buffer := {}
  pc : ClientPc := .keyBoardToOutput
  typed : Bytes := []
  printed : Bytes := []

inductive ClientAct
  | getline (message : Bytes)
  | enterWrite
  | write (r : WriteReturn)
  | read (r : ReadResult)
  | print

namespace EchoClient

/-- Behind `Write` or `Read` the loop is left if the connection is closed. -/
def goOn (c : EchoClient) (conn : Standalone) (pc : ClientPc) : EchoClient :=
  { c with conn := conn, pc := if conn.state = .closed then .exited else pc }

/-- None where the client makes another call, or none any more, or `output_buffer_` faults. -/
def step (c : EchoClient) : ClientAct → Option EchoClient
  | .getline message =>
      if c.pc = .keyBoardToOutput then
        match c.output.appendKeyBoard message with
        | .ok output => some { c with
            conn := c.conn.keyBoardToOutput message
            output := output
            pc := .write
            typed := c.typed ++ message }
        | .error _ => none
      else none
  | .enterWrite =>
      if c.pc = .write then
        if c.conn.state ≠ .connected then some (c.goOn c.conn.removeConnection .read)
        else some { c with pc := .writing c.output.readableBytes.toNat }
      else none
  | .write r =>
      match c.pc with
      | .writing bytesToWrite =>
          let (conn, rest) := c.conn.writeCall bytesToWrite r
          match c.output.writeCall bytesToWrite r with
          | .ok output =>
              let c := { c with output := output }
              match rest with
              | some bytesToWrite => some { c with conn := conn, pc := .writing bytesToWrite }
              | none => some (c.goOn conn .read)
          | .error _ => none
      | _ => none
  | .read r =>
      if c.pc = .read then (c.conn.read [r]).map fun conn => c.goOn conn .print else none
  | .print =>
      if c.pc = .print then
        some { c with
          conn := { c.conn with inputBuffer := [] }
          pc := .keyBoardToOutput
          printed := c.printed ++ c.conn.inputBuffer }
      else none

/-! ## What the client keeps -/

/-- Outside of `Write` nothing waits for it, and in its loop what waits is what is counted. -/
def Waiting (c : EchoClient) : Prop :=
  match c.pc with
  | .keyBoardToOutput | .read | .print => c.conn.outputBuffer = []
  | .writing bytesToWrite => bytesToWrite = c.conn.outputBuffer.length
  | .write | .exited => True

/-- The connection is connected until the loop is left, nothing is asked of it that it does not
have, nothing that has been read is there unless it is to be printed, what waits is in
`output_buffer_`, and what has been typed has been taken by the socket or waits. -/
structure Regular (c : EchoClient) : Prop where
  blocking : c.conn.nonBlocking = false
  connected : c.pc ≠ .exited → c.conn.state = .connected
  fault : c.conn.fault = none
  input : c.pc ≠ .print → c.conn.inputBuffer = []
  holds : c.output.Holds c.conn.outputBuffer
  waiting : c.Waiting
  typed : c.typed = c.conn.sent ++ c.conn.outputBuffer

end EchoClient

namespace Standalone

variable {c : Standalone}

structure SameBut (c x : Standalone) : Prop where
  nonBlocking : x.nonBlocking = c.nonBlocking
  fault : x.fault = c.fault
  inputBuffer : x.inputBuffer = c.inputBuffer
  stream : x.sent ++ x.outputBuffer = c.sent ++ c.outputBuffer
  sent : c.sent <+: x.sent

theorem sameBut_writeCall (c : Standalone) (bytesToWrite : Nat) (r : WriteReturn) :
    c.SameBut (c.writeCall bytesToWrite r).1 := by
  cases r with
  | accepted k =>
      unfold writeCall
      dsimp only
      split
      · refine ⟨rfl, rfl, rfl, ?_, List.prefix_append _ _⟩
        unfold wrote
        rw [List.append_assoc, List.take_append_drop]
      · exact ⟨rfl, rfl, rfl, rfl, List.prefix_rfl⟩
  | eintr | eagain | error => exact ⟨rfl, rfl, rfl, rfl, List.prefix_rfl⟩

/-- A round after which there is another has left as much as it counts. -/
theorem writeCall_some {bytesToWrite rest : Nat} {r : WriteReturn}
    (hcount : bytesToWrite = c.outputBuffer.length)
    (h : (c.writeCall bytesToWrite r).2 = some rest) :
    rest = (c.writeCall bytesToWrite r).1.outputBuffer.length ∧
      (c.writeCall bytesToWrite r).1.state = c.state := by
  cases r with
  | accepted k =>
      unfold writeCall at h ⊢
      dsimp only at h ⊢
      split_ifs at h ⊢
      cases h
      refine ⟨?_, rfl⟩
      unfold wrote
      rw [List.length_drop, hcount]
  | eintr =>
      cases h
      exact ⟨hcount, rfl⟩
  | eagain | error => cases h

/-- The last round has closed the connection or left nothing. -/
theorem writeCall_none {bytesToWrite : Nat} {r : WriteReturn}
    (hcount : bytesToWrite = c.outputBuffer.length)
    (h : (c.writeCall bytesToWrite r).2 = none) :
    (c.writeCall bytesToWrite r).1.state = .closed ∨
      (c.writeCall bytesToWrite r).1.state = c.state ∧
        (c.writeCall bytesToWrite r).1.outputBuffer = [] := by
  cases r with
  | accepted k =>
      unfold writeCall at h ⊢
      dsimp only at h ⊢
      split_ifs at h ⊢
      · right
        refine ⟨rfl, ?_⟩
        unfold wrote
        exact List.drop_eq_nil_of_le (by omega)
      · exact .inl rfl
  | eintr => cases h
  | eagain | error => exact .inl rfl

end Standalone

def ReadResult.bytes : ReadResult → Bytes
  | .data first rest => first :: rest
  | _ => []

theorem Standalone.read_blocking {c x : Standalone} {r : ReadResult}
    (hblocking : c.nonBlocking = false) (hstate : c.state = .connected)
    (h : c.read [r] = some x) :
    x.nonBlocking = false ∧ x.fault = c.fault ∧ x.sent = c.sent ∧
      x.outputBuffer = c.outputBuffer ∧ x.inputBuffer = r.bytes ∧
        x.state = if r = .eof then .closed else .connected := by
  unfold Standalone.read Standalone.readBlocking at h
  rw [if_neg (not_not_intro hstate)] at h
  dsimp only at h
  rw [hblocking, if_neg (by decide)] at h
  cases r with
  | data | eintr | eagain | error =>
      cases h
      exact ⟨rfl, rfl, rfl, rfl, rfl, hstate⟩
  | eof =>
      cases h
      exact ⟨rfl, rfl, rfl, rfl, rfl, rfl⟩

namespace EchoClient

variable {c c' : EchoClient}

def got (c : EchoClient) : Bytes := c.printed ++ c.conn.inputBuffer

def taken : ClientAct → Bytes
  | .read r => r.bytes
  | _ => []

structure Advance (c c' : EchoClient) (a : ClientAct) : Prop where
  regular : c'.Regular
  sent : c.conn.sent <+: c'.conn.sent
  got : c'.got = c.got ++ taken a

theorem Regular.getline (h : c.Regular) (hpc : c.pc = .keyBoardToOutput) {message : Bytes}
    (hstep : c.step (.getline message) = some c') : c.Advance c' (.getline message) := by
  have hempty : c.conn.outputBuffer = [] := by
    have hwaiting := h.waiting
    unfold Waiting at hwaiting
    rw [hpc] at hwaiting
    exact hwaiting
  have htyped := h.typed
  rw [hempty, List.append_nil] at htyped
  have hconn : c.conn.state = .connected := h.connected (by rw [hpc]; decide)
  have hinput : c.conn.inputBuffer = [] := h.input (by rw [hpc]; decide)
  unfold step at hstep
  dsimp only at hstep
  rw [if_pos hpc] at hstep
  split at hstep
  · rename_i output houtput
    cases hstep
    refine ⟨⟨h.blocking, fun _ => hconn, h.fault, fun _ => hinput,
      h.holds.of_appendKeyBoard houtput, trivial, ?_⟩, List.prefix_rfl, (List.append_nil _).symm⟩
    show c.typed ++ message = c.conn.sent ++ message
    rw [htyped]
  · cases hstep

theorem Regular.enterWrite (h : c.Regular) (hpc : c.pc = .write)
    (hstep : c.step .enterWrite = some c') : c.Advance c' .enterWrite := by
  have hconn : c.conn.state = .connected := h.connected (by rw [hpc]; decide)
  have hinput : c.conn.inputBuffer = [] := h.input (by rw [hpc]; decide)
  unfold step at hstep
  dsimp only at hstep
  rw [if_pos hpc, if_neg (not_not_intro hconn)] at hstep
  cases hstep
  have hcount : c.output.readableBytes.toNat = c.conn.outputBuffer.length := by
    rw [h.holds.readable, Int.toNat_natCast]
  exact ⟨⟨h.blocking, fun _ => hconn, h.fault, fun _ => hinput, h.holds, hcount, h.typed⟩,
    List.prefix_rfl, (List.append_nil _).symm⟩

theorem Regular.write (h : c.Regular) {bytesToWrite : Nat} (hpc : c.pc = .writing bytesToWrite)
    {r : WriteReturn} (hstep : c.step (.write r) = some c') : c.Advance c' (.write r) := by
  have hcount : bytesToWrite = c.conn.outputBuffer.length := by
    have hwaiting := h.waiting
    unfold Waiting at hwaiting
    rw [hpc] at hwaiting
    exact hwaiting
  have hconn : c.conn.state = .connected := h.connected (by rw [hpc]; exact fun hno => nomatch hno)
  have hinput : c.conn.inputBuffer = [] := h.input (by rw [hpc]; exact fun hno => nomatch hno)
  have hsame := c.conn.sameBut_writeCall bytesToWrite r
  have htyped : c.typed = (c.conn.writeCall bytesToWrite r).1.sent ++
      (c.conn.writeCall bytesToWrite r).1.outputBuffer := by
    rw [hsame.stream]
    exact h.typed
  have hgot : c.printed ++ (c.conn.writeCall bytesToWrite r).1.inputBuffer = c.got ++ [] := by
    rw [hsame.inputBuffer, List.append_nil]
    rfl
  obtain ⟨output, houtput, hholds⟩ := h.holds.writeCall hcount r
  unfold step at hstep
  rw [hpc] at hstep
  dsimp only at hstep
  rw [houtput] at hstep
  dsimp only at hstep
  cases hrest : (c.conn.writeCall bytesToWrite r).2 with
  | some rest =>
      obtain ⟨hlength, hstate⟩ := Standalone.writeCall_some hcount hrest
      rw [hrest] at hstep
      cases hstep
      exact ⟨⟨hsame.nonBlocking.trans h.blocking, fun _ => hstate.trans hconn,
        hsame.fault.trans h.fault, fun _ => hsame.inputBuffer.trans hinput, hholds, hlength, htyped⟩,
        hsame.sent, hgot⟩
  | none =>
      rw [hrest] at hstep
      cases hstep
      unfold goOn
      rcases Standalone.writeCall_none hcount hrest with hclosed | ⟨hstate, hempty⟩
      · rw [if_pos hclosed]
        exact ⟨⟨hsame.nonBlocking.trans h.blocking, fun hno => absurd rfl hno,
          hsame.fault.trans h.fault, fun _ => hsame.inputBuffer.trans hinput, hholds, trivial, htyped⟩,
          hsame.sent, hgot⟩
      · have hopen : ¬ (c.conn.writeCall bytesToWrite r).1.state = .closed := by
          rw [hstate, hconn]
          decide
        rw [if_neg hopen]
        exact ⟨⟨hsame.nonBlocking.trans h.blocking, fun _ => hstate.trans hconn,
          hsame.fault.trans h.fault, fun _ => hsame.inputBuffer.trans hinput, hholds, hempty, htyped⟩,
          hsame.sent, hgot⟩

theorem Regular.read (h : c.Regular) (hpc : c.pc = .read) {r : ReadResult}
    (hstep : c.step (.read r) = some c') : c.Advance c' (.read r) := by
  have hempty : c.conn.outputBuffer = [] := by
    have hwaiting := h.waiting
    unfold Waiting at hwaiting
    rw [hpc] at hwaiting
    exact hwaiting
  have hconn : c.conn.state = .connected := h.connected (by rw [hpc]; decide)
  have hinput : c.conn.inputBuffer = [] := h.input (by rw [hpc]; decide)
  unfold step at hstep
  dsimp only at hstep
  rw [if_pos hpc] at hstep
  obtain ⟨x, hread, rfl⟩ := Option.map_eq_some_iff.1 hstep
  obtain ⟨hblocking, hfault, hsent, houtput, hdata, hstate⟩ :=
    Standalone.read_blocking h.blocking hconn hread
  have htyped : c.typed = x.sent ++ x.outputBuffer := by
    rw [hsent, houtput]
    exact h.typed
  have hgot : c.printed ++ x.inputBuffer = c.got ++ r.bytes := by
    unfold got
    rw [hdata, hinput, List.append_nil]
  have hfirst : c.conn.sent <+: x.sent := by
    rw [hsent]
  have hnone : x.outputBuffer = [] := houtput.trans hempty
  have hholds : c.output.Holds x.outputBuffer := houtput ▸ h.holds
  unfold goOn
  by_cases hend : r = .eof
  · rw [if_pos hend] at hstate
    have hnothing : x.inputBuffer = [] := by
      rw [hdata, hend]
      rfl
    rw [if_pos hstate]
    exact ⟨⟨hblocking, fun hno => absurd rfl hno, hfault.trans h.fault, fun _ => hnothing, hholds,
      trivial, htyped⟩, hfirst, hgot⟩
  · rw [if_neg hend] at hstate
    have hopen : ¬ x.state = .closed := by
      rw [hstate]
      decide
    rw [if_neg hopen]
    exact ⟨⟨hblocking, fun _ => hstate, hfault.trans h.fault, fun hno => absurd rfl hno,
      hholds, hnone, htyped⟩, hfirst, hgot⟩

theorem Regular.print (h : c.Regular) (hpc : c.pc = .print) (hstep : c.step .print = some c') :
    c.Advance c' .print := by
  have hempty : c.conn.outputBuffer = [] := by
    have hwaiting := h.waiting
    unfold Waiting at hwaiting
    rw [hpc] at hwaiting
    exact hwaiting
  have hconn : c.conn.state = .connected := h.connected (by rw [hpc]; decide)
  unfold step at hstep
  dsimp only at hstep
  rw [if_pos hpc] at hstep
  cases hstep
  exact ⟨⟨h.blocking, fun _ => hconn, h.fault, fun _ => rfl, h.holds, hempty, h.typed⟩,
    List.prefix_rfl, rfl⟩

theorem Regular.step (h : c.Regular) {a : ClientAct} (hstep : c.step a = some c') :
    c.Advance c' a := by
  have hguard := hstep
  unfold EchoClient.step at hguard
  cases a with
  | getline message =>
      by_cases hpc : c.pc = .keyBoardToOutput
      · exact h.getline hpc hstep
      · dsimp only at hguard
        rw [if_neg hpc] at hguard
        cases hguard
  | enterWrite =>
      by_cases hpc : c.pc = .write
      · exact h.enterWrite hpc hstep
      · dsimp only at hguard
        rw [if_neg hpc] at hguard
        cases hguard
  | write r =>
      cases hpc : c.pc with
      | writing bytesToWrite => exact h.write hpc hstep
      | keyBoardToOutput | write | read | print | exited =>
          rw [hpc] at hguard
          cases hguard
  | read r =>
      by_cases hpc : c.pc = .read
      · exact h.read hpc hstep
      · dsimp only at hguard
        rw [if_neg hpc] at hguard
        cases hguard
  | print =>
      by_cases hpc : c.pc = .print
      · exact h.print hpc hstep
      · dsimp only at hguard
        rw [if_neg hpc] at hguard
        cases hguard

theorem regular_fresh : Regular {} := by
  refine ⟨rfl, fun _ => rfl, rfl, fun _ => rfl, Buffer.holds_fresh, ?_, rfl⟩
  exact (rfl : ({} : EchoClient).conn.outputBuffer = [])

end EchoClient

end CPlusServer

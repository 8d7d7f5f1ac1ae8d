import CPlusServer.Net.Input

/-!
# A connection without a loop

A client builds its connection without a loop: there is no channel, `remove_` is
empty, and no `shared_ptr` owns the object. The operations are those of a
connection of the server, and some of their branches ask for what is not there.
The two buffers are byte queues.
-/

namespace CPlusServer

/-- What a call of `write` returns. It takes no more than it is given. -/
inductive WriteReturn
  | accepted (k : Nat)
  | eintr
  | eagain
  | error
  deriving DecidableEq

/-- `conn_channel_` is null. `RemoveConnection` asks for a `shared_ptr` to an object that has none,
to give it to an empty function. -/
inductive StandaloneFault
  | nullChannel | removeConnection
  deriving DecidableEq, Repr

/-- `nonBlocking` is a flag of the socket. `sent` is what the socket has taken, and `failed` says
that a call of the last operation returned something other than data, EINTR or EAGAIN. -/
structure Standalone where
  nonBlocking : Bool := false
  state : ConnState := .connected
  inputBuffer : Bytes := []
  outputBuffer : Bytes := []
  sent : Bytes := []
  failed : Bool := false
  fault : Option StandaloneFault := none
  deriving DecidableEq

namespace Standalone

def useChannel (c : Standalone) : Standalone := { c with fault := some .nullChannel }

def removeConnection (c : Standalone) : Standalone := { c with fault := some .removeConnection }

def close (c : Standalone) : Standalone := { c with state := .closed }

/-! ## Writing -/

def keyBoardToOutput (c : Standalone) (message : Bytes) : Standalone :=
  { c with outputBuffer := message }

/-- `EnableWriting` is called behind the append. -/
def keepRemaining (c : Standalone) (remaining : Bytes) : Standalone :=
  if remaining = [] then c
  else useChannel { c with outputBuffer := c.outputBuffer ++ remaining }

def send (c : Standalone) (data : Bytes) (w : WriteReturn) : Standalone :=
  if c.outputBuffer = [] then
    match w with
    | .accepted k =>
        keepRemaining
          { c with sent := c.sent ++ data.take k, failed := decide (k = 0 ∧ data ≠ []) }
          (data.drop k)
    | .eagain => c.keepRemaining data
    | .eintr => c.close.removeConnection
    | .error => { c.close with failed := true }.removeConnection
  else c.keepRemaining data

def wrote (c : Standalone) (k : Nat) : Standalone :=
  { c with outputBuffer := c.outputBuffer.drop k, sent := c.sent ++ c.outputBuffer.take k }

def writeLoop (c : Standalone) (bytesToWrite : Nat) : List WriteReturn → Option Standalone
  | [] => none
  | .accepted k :: rs =>
      let hadWrite := min k bytesToWrite
      if 0 < hadWrite then
        let c := c.wrote hadWrite
        let bytesToWrite := bytesToWrite - hadWrite
        if bytesToWrite = 0 then some c else writeLoop c bytesToWrite rs
      else some { c.close with failed := decide (0 < bytesToWrite) }
  | .eintr :: rs => writeLoop c bytesToWrite rs
  | .eagain :: _ => some c.close
  | .error :: _ => some { c.close with failed := true }

def writeBlocking (c : Standalone) (rs : List WriteReturn) : Option Standalone :=
  c.writeLoop c.outputBuffer.length rs

def writeNonBlocking (c : Standalone) (rs : List WriteReturn) : Option Standalone :=
  if c.outputBuffer = [] then some c.useChannel
  else
    match rs with
    | [] => none
    | .accepted (k + 1) :: _ => some (c.wrote (k + 1))
    | .eagain :: _ => some c
    | .eintr :: _ => some c.close.removeConnection
    | .accepted 0 :: _ | .error :: _ => some { c.close with failed := true }.removeConnection

def write (c : Standalone) (rs : List WriteReturn) : Option Standalone :=
  if c.state ≠ .connected then some c.removeConnection
  else if c.nonBlocking then c.writeNonBlocking rs
  else c.writeBlocking rs

/-! ## Reading -/

/-- One call of `read`, and only the end of the stream is looked for behind the data. -/
def readBlocking (c : Standalone) (rs : List ReadResult) : Option Standalone :=
  match rs with
  | [] => none
  | .data first rest :: _ => some { c with inputBuffer := c.inputBuffer ++ first :: rest }
  | .eof :: _ => some { c.close with failed := true }
  | .eintr :: _ | .eagain :: _ => some c
  | .error :: _ => some { c with failed := true }

def readNonBlocking (c : Standalone) : List ReadResult → Option Standalone
  | [] => none
  | .data first rest :: rs =>
      readNonBlocking { c with inputBuffer := c.inputBuffer ++ first :: rest } rs
  | .eintr :: rs => readNonBlocking c rs
  | .eagain :: _ => some c
  | .eof :: _ | .error :: _ => some { c.close with failed := true }.removeConnection

def read (c : Standalone) (rs : List ReadResult) : Option Standalone :=
  if c.state ≠ .connected then some c.removeConnection
  else
    let c := { c with inputBuffer := [] }
    if c.nonBlocking then c.readNonBlocking rs else c.readBlocking rs

end Standalone

inductive StandaloneOp
  | keyBoardToOutput (message : Bytes)
  | send (data : Bytes) (result : WriteReturn)
  | write (results : List WriteReturn)
  | read (results : List ReadResult)

namespace Standalone

/-- None where the calls do not end with these results. -/
def step (c : Standalone) (op : StandaloneOp) : Option Standalone :=
  if c.fault = none then
    let c := { c with failed := false }
    match op with
    | .keyBoardToOutput message => some (c.keyBoardToOutput message)
    | .send data w => some (c.send data w)
    | .write rs => c.write rs
    | .read rs => c.read rs
  else none

/-! ## Failing cleanly -/

/-- Nothing has been asked of what is not there, and a failure has closed the connection. -/
structure Clean (c : Standalone) : Prop where
  running : c.fault = none
  closed : c.failed = true → c.state = .closed

/-- With these results the operation stays clear of the branches for a connection of the server:
`Send` has everything taken at once, `Write` and `Read` come for a connected one, and the results do
not fail where only a loop could remove the connection, or, blocking, in `Read` at all but at the
end of the stream. -/
def Survives (c : Standalone) : StandaloneOp → Prop
  | .keyBoardToOutput _ => True
  | .send data w =>
      if c.outputBuffer = [] then
        w = .eagain ∧ data = [] ∨ ∃ k, w = .accepted k ∧ data.length ≤ k
      else data = []
  | .write rs => c.state = .connected ∧
      (c.nonBlocking = true → c.outputBuffer ≠ [] ∧
        ∃ r ∈ rs.head?, r = .eagain ∨ ∃ k, r = .accepted (k + 1))
  | .read rs => c.state = .connected ∧
      if c.nonBlocking then ∀ call ∈ readCall rs, call.2 = .eagain else rs.head? ≠ some .error

variable {c c' : Standalone}

theorem not_clean_useChannel (c : Standalone) : ¬ c.useChannel.Clean := fun h => nomatch h.running

theorem not_clean_removeConnection (c : Standalone) : ¬ c.removeConnection.Clean :=
  fun h => nomatch h.running

theorem clean_of_not_failed (hfault : c.fault = none) (hfailed : c.failed = false) : c.Clean :=
  ⟨hfault, fun h => by rw [hfailed] at h; cases h⟩

theorem clean_of_closed (hfault : c.fault = none) (hclosed : c.state = .closed) : c.Clean :=
  ⟨hfault, fun _ => hclosed⟩

theorem clean_keepRemaining_iff (hfault : c.fault = none) (hfailed : c.failed = false)
    (remaining : Bytes) : (c.keepRemaining remaining).Clean ↔ remaining = [] := by
  unfold keepRemaining
  by_cases hnil : remaining = []
  · rw [if_pos hnil]
    exact iff_of_true (clean_of_not_failed hfault hfailed) hnil
  · rw [if_neg hnil]
    exact iff_of_false (not_clean_useChannel _) hnil

theorem clean_send_iff (hfault : c.fault = none) (hfailed : c.failed = false) (data : Bytes)
    (w : WriteReturn) : (c.send data w).Clean ↔ c.Survives (.send data w) := by
  unfold send Survives
  dsimp only
  by_cases hempty : c.outputBuffer = []
  · rw [if_pos hempty, if_pos hempty]
    cases w with
    | accepted k =>
        have htaken : (∃ k', WriteReturn.accepted k = .accepted k' ∧ data.length ≤ k') ↔
            data.drop k = [] := by
          rw [List.drop_eq_nil_iff]
          simp
        rw [or_iff_right (by simp), htaken]
        dsimp only
        unfold keepRemaining
        by_cases hrest : data.drop k = []
        · rw [if_pos hrest]
          refine iff_of_true ⟨hfault, fun hno => ?_⟩ hrest
          -- nothing was taken of something that is there
          obtain ⟨rfl, hdata⟩ := of_decide_eq_true hno
          exact absurd hrest hdata
        · rw [if_neg hrest]
          exact iff_of_false (not_clean_useChannel _) hrest
    | eagain =>
        dsimp only
        rw [clean_keepRemaining_iff hfault hfailed]
        simp
    | eintr | error => exact iff_of_false (not_clean_removeConnection _) (by simp)
  · rw [if_neg hempty, if_neg hempty]
    exact clean_keepRemaining_iff hfault hfailed data

theorem clean_writeLoop {n : Nat} {rs : List WriteReturn} (hfault : c.fault = none)
    (hfailed : c.failed = false) (h : c.writeLoop n rs = some c') : c'.Clean := by
  induction rs generalizing c n with
  | nil => cases h
  | cons r rs ih =>
      cases r with
      | accepted k =>
          unfold writeLoop at h
          dsimp only at h
          split_ifs at h
          · cases h
            exact clean_of_not_failed hfault hfailed
          · exact @ih (c.wrote _) _ hfault hfailed h
          · cases h
            exact clean_of_closed hfault rfl
      | eintr => exact ih hfault hfailed h
      | eagain | error =>
          cases h
          exact clean_of_closed hfault rfl

theorem clean_write_iff (hfault : c.fault = none) (hfailed : c.failed = false)
    {rs : List WriteReturn} (h : c.write rs = some c') : c'.Clean ↔ c.Survives (.write rs) := by
  unfold write at h
  unfold Survives
  dsimp only
  by_cases hstate : c.state = .connected
  · rw [if_neg (not_not_intro hstate)] at h
    rw [and_iff_right hstate]
    cases hmode : c.nonBlocking with
    | false =>
        rw [hmode] at h
        exact iff_of_true (clean_writeLoop hfault hfailed h) (fun hno => nomatch hno)
    | true =>
        rw [hmode, if_pos rfl] at h
        rw [forall_prop_of_true rfl]
        unfold writeNonBlocking at h
        by_cases hempty : c.outputBuffer = []
        · rw [if_pos hempty] at h
          cases h
          exact iff_of_false (not_clean_useChannel _) fun hno => hno.1 hempty
        · rw [if_neg hempty] at h
          rw [and_iff_right hempty]
          cases rs with
          | nil => cases h
          | cons r rs =>
              match r, h with
              | .accepted (k + 1), h | .eagain, h =>
                  cases h
                  exact iff_of_true (clean_of_not_failed hfault hfailed) (by simp)
              | .accepted 0, h | .eintr, h | .error, h =>
                  cases h
                  exact iff_of_false (not_clean_removeConnection _) (by simp)
  · rw [if_pos hstate] at h
    cases h
    exact iff_of_false (not_clean_removeConnection _) fun hno => hstate hno.1

theorem clean_readNonBlocking_iff {rs : List ReadResult} (hfault : c.fault = none)
    (hfailed : c.failed = false) (h : c.readNonBlocking rs = some c') :
    c'.Clean ↔ ∀ call ∈ readCall rs, call.2 = .eagain := by
  induction rs generalizing c with
  | nil => cases h
  | cons r rs ih =>
      cases r with
      | data first rest =>
          rw [@ih { c with inputBuffer := c.inputBuffer ++ first :: rest } hfault hfailed h, readCall]
          simp only [Option.forall_mem_map]
      | eintr => exact ih hfault hfailed h
      | eagain =>
          cases h
          exact iff_of_true (clean_of_not_failed hfault hfailed) (by simp [readCall])
      | eof | error =>
          cases h
          exact iff_of_false (not_clean_removeConnection _) (by simp [readCall])

theorem clean_read_iff (hfault : c.fault = none) (hfailed : c.failed = false)
    {rs : List ReadResult} (h : c.read rs = some c') : c'.Clean ↔ c.Survives (.read rs) := by
  unfold read at h
  unfold Survives
  dsimp only
  by_cases hstate : c.state = .connected
  · rw [if_neg (not_not_intro hstate)] at h
    rw [and_iff_right hstate]
    dsimp only at h
    cases hmode : c.nonBlocking with
    | true =>
        rw [if_pos hmode] at h
        rw [if_pos rfl]
        exact @clean_readNonBlocking_iff { c with inputBuffer := [] } c' rs hfault hfailed h
    | false =>
        rw [if_neg (by rw [hmode]; decide)] at h
        rw [if_neg (by decide)]
        unfold readBlocking at h
        cases rs with
        | nil => cases h
        | cons r rs =>
            cases r with
            | data | eintr | eagain =>
                cases h
                exact iff_of_true (clean_of_not_failed hfault hfailed) (by simp)
            | eof =>
                cases h
                exact iff_of_true (clean_of_closed hfault rfl) (by simp)
            | error =>
                cases h
                refine iff_of_false (fun hno => ?_) (by simp)
                -- the state is left as it is
                have hclosed : c.state = .closed := hno.closed rfl
                rw [hstate] at hclosed
                cases hclosed
  · rw [if_pos hstate] at h
    cases h
    exact iff_of_false (not_clean_removeConnection _) fun hno => hstate hno.1

theorem Clean.step_iff (h : c.Clean) {op : StandaloneOp} (hstep : c.step op = some c') :
    c'.Clean ↔ c.Survives op := by
  have hfault := h.running
  unfold step at hstep
  rw [if_pos hfault] at hstep
  dsimp only at hstep
  cases op with
  | keyBoardToOutput message =>
      cases hstep
      exact iff_of_true (clean_of_not_failed hfault rfl) trivial
  | send data w =>
      cases hstep
      exact @clean_send_iff { c with failed := false } hfault rfl data w
  | write rs => exact @clean_write_iff { c with failed := false } c' hfault rfl rs hstep
  | read rs => exact @clean_read_iff { c with failed := false } c' hfault rfl rs hstep

/-- **Stand-alone connections.** In every run of its operations a connection without a loop fails
cleanly throughout, exactly when each operation survives. -/
theorem clean_iff (nonBlocking : Bool) (ops : List StandaloneOp) :
    Lib.Always step Clean { nonBlocking := nonBlocking } ops ↔
      Lib.Each step Survives { nonBlocking := nonBlocking } ops := by
  have hfresh : Clean { nonBlocking := nonBlocking } := clean_of_not_failed rfl rfl
  refine Lib.always_iff_each Clean (fun _ h => h) ?_ ?_ hfresh ops
  · exact fun _ _ _ h hs hstep => (h.step_iff hstep).2 hs
  · exact fun _ _ _ h hs hstep hclean => hs ((h.step_iff hstep).1 hclean)

/-- A short write of `Send` on the blocking socket of a client, a reset that `Read` does not see,
and the next operation after the server has closed. -/
theorem not_clean_shortSend :
    ¬ Lib.Always step Clean {} [.send (ascii "I'm client!") (.accepted 4)] ∧
      ¬ Lib.Always step Clean {} [.read [.error]] ∧
      ¬ Lib.Always step Clean {} [.read [.eof], .write [.accepted 1]] := by
  have hclean {ops : List StandaloneOp} {fault : Option StandaloneFault} {failed : Bool}
      {state : ConnState} (hend : (Lib.runFrom step {} ops).map
        (fun c => (c.fault, c.failed, c.state)) = some (fault, failed, state))
      (h : Lib.Always step Clean {} ops) :
      fault = none ∧ (failed = true → state = .closed) := by
    obtain ⟨c, hclean, hc⟩ := h.exists_end hend
    simp only [Prod.mk.injEq] at hc
    rw [← hc.1, ← hc.2.1, ← hc.2.2]
    exact ⟨hclean.running, hclean.closed⟩
  refine ⟨fun h => ?_, fun h => ?_, fun h => ?_⟩
  · cases (@hclean _ (some .nullChannel) false .connected (by decide) h).1
  · cases (@hclean _ none true .connected (by decide) h).2 rfl
  · cases (@hclean _ (some .removeConnection) false .closed (by decide) h).1

end Standalone

end CPlusServer

import CPlusServer.Lib.Run
import CPlusServer.Net.Connection
import Mathlib.Data.UInt

/-!
# A channel and its registration

The events of a channel are recorded in its own mask, in its flag `in_epoll_` and
in the kernel, which refuses to add an fd twice and to change or delete one that
it does not have. Each operation goes through `Poller`, whose `Errif` then ends
the process. The channels of the connections are this one seen without the kernel's
refusals.
-/

namespace CPlusServer

/-- The `Errif` that ended the process: those of `UpdateChannel`, of `DeleteChannel`, and the one
of `RemoveInEpoll` itself. -/
inductive EpollFault
  | add | modify | delete | remove
  deriving DecidableEq, Repr

def READ_EVENT : UInt16 := 1
def WRITE_EVENT : UInt16 := 2
def ET_EVENT : UInt16 := 4

def EPOLLIN : UInt32 := 1
def EPOLLOUT : UInt32 := 4
def EPOLLET : UInt32 := 2147483648

/-- A channel with an open fd. `kernel` is the mask that epoll holds for the fd. -/
structure Registration where
  listenEvents : UInt16 := 0
  readyEvents : UInt16 := 0
  inEpoll : Bool := false
  kernel : Option UInt32 := none
  exited : Option EpollFault := none
  deriving DecidableEq

def epollEvents (listenEvents : UInt16) : UInt32 :=
  (if listenEvents &&& READ_EVENT ≠ 0 then EPOLLIN else 0) |||
    (if listenEvents &&& WRITE_EVENT ≠ 0 then EPOLLOUT else 0) |||
    (if listenEvents &&& ET_EVENT ≠ 0 then EPOLLET else 0)

namespace Registration

/-! ## `epoll_ctl` and `Poller` -/

def ctlAdd (r : Registration) (events : UInt32) : Registration :=
  match r.kernel with
  | none => { r with kernel := some events }
  | some _ => { r with exited := some .add }

def ctlMod (r : Registration) (events : UInt32) : Registration :=
  match r.kernel with
  | some _ => { r with kernel := some events }
  | none => { r with exited := some .modify }

def deleteChannel (r : Registration) : Registration :=
  match r.kernel with
  | some _ => { r with kernel := none }
  | none => { r with exited := some .delete }

/-- `SetInEpoll` comes behind the `Errif`. -/
def updateChannel (r : Registration) : Registration :=
  let events := epollEvents r.listenEvents
  if !r.inEpoll then
    let r := r.ctlAdd events
    if r.exited = none then { r with inEpoll := true } else r
  else r.ctlMod events

/-! ## `Channel` -/

def enableReading (r : Registration) : Registration :=
  updateChannel { r with listenEvents := r.listenEvents ||| READ_EVENT }

def enableWriting (r : Registration) : Registration :=
  updateChannel { r with listenEvents := r.listenEvents ||| WRITE_EVENT }

/-- The flag is left as it is when the mask has become empty. -/
def disableWriting (r : Registration) : Registration :=
  let r := { r with listenEvents := r.listenEvents &&& ~~~WRITE_EVENT }
  if r.listenEvents = 0 then r.deleteChannel else r.updateChannel

def useET (r : Registration) : Registration :=
  updateChannel { r with listenEvents := r.listenEvents ||| ET_EVENT }

def removeInEpoll (r : Registration) : Registration :=
  if r.inEpoll then
    let r := r.deleteChannel
    if r.exited = none then { r with listenEvents := 0, readyEvents := 0, inEpoll := false } else r
  else { r with exited := some .remove }

end Registration

inductive ChannelOp
  | enableReading | enableWriting | disableWriting | useET | removeInEpoll
  deriving DecidableEq

namespace Registration

def apply (r : Registration) : ChannelOp → Registration
  | .enableReading => r.enableReading
  | .enableWriting => r.enableWriting
  | .disableWriting => r.disableWriting
  | .useET => r.useET
  | .removeInEpoll => r.removeInEpoll

/-- The callers of `RemoveInEpoll` ask `IfInEpoll` first. -/
def step (r : Registration) (op : ChannelOp) : Option Registration :=
  if r.exited = none ∧ (op = .removeInEpoll → r.inEpoll = true) then some (r.apply op) else none

/-! ## Agreement -/

/-- The flag says whether the kernel has the fd, the kernel has the events of the mask, and no
`Errif` has ended the process. -/
structure Agrees (r : Registration) : Prop where
  inEpoll : r.inEpoll = true ↔ r.kernel ≠ none
  events : ∀ events ∈ r.kernel, events = epollEvents r.listenEvents
  running : r.exited = none

/-- The operation does not leave the mask empty by taking writing out of it. -/
def KeepsEvents (r : Registration) (op : ChannelOp) : Prop :=
  op = .disableWriting → r.listenEvents &&& ~~~WRITE_EVENT ≠ 0

variable {r r' : Registration}

theorem updateChannel_eq (hflag : r.inEpoll = true ↔ r.kernel ≠ none) (hrun : r.exited = none) :
    r.updateChannel =
      { r with kernel := some (epollEvents r.listenEvents), inEpoll := true } := by
  unfold updateChannel
  cases hin : r.inEpoll with
  | false =>
      have hnone : r.kernel = none := by
        rw [hin] at hflag
        exact not_not.1 fun hne => Bool.false_ne_true (hflag.2 hne)
      simp [ctlAdd, hnone, hrun]
  | true =>
      obtain ⟨events, hsome⟩ := Option.ne_none_iff_exists'.1 (hflag.1 hin)
      simp [ctlMod, hsome, hin]

theorem agrees_updateChannel (hflag : r.inEpoll = true ↔ r.kernel ≠ none)
    (hrun : r.exited = none) : r.updateChannel.Agrees := by
  rw [updateChannel_eq hflag hrun]
  exact ⟨by simp, fun events hmem => (Option.mem_some.1 hmem).symm, hrun⟩

theorem Agrees.deleteChannel (h : r.Agrees) (hin : r.inEpoll = true) :
    r.deleteChannel = { r with kernel := none } := by
  obtain ⟨events, hsome⟩ := Option.ne_none_iff_exists'.1 (h.inEpoll.1 hin)
  unfold Registration.deleteChannel
  rw [hsome]

theorem Agrees.removeInEpoll (h : r.Agrees) (hin : r.inEpoll = true) :
    r.removeInEpoll.Agrees := by
  unfold Registration.removeInEpoll
  rw [if_pos hin, h.deleteChannel hin]
  dsimp only
  rw [if_pos h.running]
  exact ⟨by simp, fun _ hmem => (Option.not_mem_none _ hmem).elim, h.running⟩

theorem Agrees.apply (h : r.Agrees) {op : ChannelOp} (hkeeps : r.KeepsEvents op)
    (hin : op = .removeInEpoll → r.inEpoll = true) : (r.apply op).Agrees := by
  cases op with
  | enableReading => exact agrees_updateChannel h.inEpoll h.running
  | enableWriting => exact agrees_updateChannel h.inEpoll h.running
  | useET => exact agrees_updateChannel h.inEpoll h.running
  | removeInEpoll => exact h.removeInEpoll (hin rfl)
  | disableWriting =>
      show (Registration.disableWriting r).Agrees
      unfold Registration.disableWriting
      dsimp only
      rw [if_neg (hkeeps rfl)]
      exact agrees_updateChannel h.inEpoll h.running

/-- Where the mask becomes empty, the fd is deleted behind the back of the flag, or the kernel did
not have it. -/
theorem Agrees.not_agrees_disableWriting (h : r.Agrees)
    (hempty : r.listenEvents &&& ~~~WRITE_EVENT = 0) : ¬ r.disableWriting.Agrees := by
  intro hno
  unfold Registration.disableWriting at hno
  dsimp only at hno
  rw [if_pos hempty] at hno
  unfold Registration.deleteChannel at hno
  cases hkernel : r.kernel with
  | none =>
      rw [hkernel] at hno
      cases hno.running
  | some events =>
      have hin : r.inEpoll = true := h.inEpoll.2 (by rw [hkernel]; exact Option.some_ne_none _)
      rw [hkernel] at hno
      exact hno.inEpoll.1 hin rfl

/-! ## The channel of a connection -/

def bits (e : Events) : UInt16 :=
  (if e.read then READ_EVENT else 0) ||| (if e.write then WRITE_EVENT else 0) |||
    (if e.et then ET_EVENT else 0)

theorem bits_read (e : Events) : bits { e with read := true } = bits e ||| READ_EVENT := by
  rcases e with ⟨_ | _, _ | _, _ | _⟩ <;> decide

theorem bits_write (e : Events) : bits { e with write := true } = bits e ||| WRITE_EVENT := by
  rcases e with ⟨_ | _, _ | _, _ | _⟩ <;> decide

theorem bits_et (e : Events) : bits { e with et := true } = bits e ||| ET_EVENT := by
  rcases e with ⟨_ | _, _ | _, _ | _⟩ <;> decide

theorem bits_not_write (e : Events) :
    bits { e with write := false } = bits e &&& ~~~WRITE_EVENT := by
  rcases e with ⟨_ | _, _ | _, _ | _⟩ <;> decide

theorem bits_eq_zero_iff (e : Events) : bits e = 0 ↔ e = {} := by
  rcases e with ⟨_ | _, _ | _, _ | _⟩ <;> decide

structure Models (r : Registration) (ch : Channel) : Prop where
  listenEvents : r.listenEvents = bits ch.listenEvents
  inEpoll : r.inEpoll = ch.inEpoll
  kernel : r.kernel = ch.registered.map fun mask => epollEvents (bits mask)

def channelApply (ch : Channel) : ChannelOp → Option Channel
  | .enableReading => some ch.enableReading
  | .enableWriting => some ch.enableWriting
  | .disableWriting => some ch.disableWriting
  | .useET => some ch.useET
  | .removeInEpoll => ch.removeInEpoll

variable {ch : Channel}

theorem Models.update (h : Models r ch) (hflag : r.inEpoll = true ↔ r.kernel ≠ none)
    (hrun : r.exited = none) : Models r.updateChannel ch.update := by
  rw [updateChannel_eq hflag hrun]
  exact ⟨h.listenEvents, rfl, by simp [Channel.update, h.listenEvents]⟩

theorem Models.delete (h : Models r ch) (hrun : r.deleteChannel.exited = none) :
    Models r.deleteChannel ch.delete := by
  unfold Registration.deleteChannel at hrun ⊢
  split
  · exact ⟨h.listenEvents, h.inEpoll, rfl⟩
  · rename_i hkernel
    rw [hkernel] at hrun
    cases hrun

/-- As long as the process runs, the channel of a connection does what this one does. -/
theorem Models.apply (h : Models r ch) (ha : r.Agrees) {op : ChannelOp}
    (hrun : (r.apply op).exited = none) :
    ∃ ch', channelApply ch op = some ch' ∧ Models (r.apply op) ch' := by
  cases op with
  | enableReading =>
      refine ⟨_, rfl, Models.update ⟨?_, h.inEpoll, h.kernel⟩ ha.inEpoll ha.running⟩
      rw [bits_read, h.listenEvents]
  | enableWriting =>
      refine ⟨_, rfl, Models.update ⟨?_, h.inEpoll, h.kernel⟩ ha.inEpoll ha.running⟩
      rw [bits_write, h.listenEvents]
  | useET =>
      refine ⟨_, rfl, Models.update ⟨?_, h.inEpoll, h.kernel⟩ ha.inEpoll ha.running⟩
      rw [bits_et, h.listenEvents]
  | disableWriting =>
      refine ⟨_, rfl, ?_⟩
      have hmask : Models { r with listenEvents := r.listenEvents &&& ~~~WRITE_EVENT }
          { ch with listenEvents := { ch.listenEvents with write := false } } :=
        ⟨by rw [bits_not_write, h.listenEvents], h.inEpoll, h.kernel⟩
      have hempty := bits_eq_zero_iff { ch.listenEvents with write := false }
      rw [bits_not_write, ← h.listenEvents] at hempty
      change (Registration.disableWriting r).exited = none at hrun
      show Models (Registration.disableWriting r) ch.disableWriting
      unfold Registration.disableWriting at hrun ⊢
      unfold Channel.disableWriting
      dsimp only at hrun ⊢
      by_cases hzero : r.listenEvents &&& ~~~WRITE_EVENT = 0
      · rw [if_pos hzero] at hrun ⊢
        rw [if_pos (hempty.1 hzero)]
        exact hmask.delete hrun
      · rw [if_neg hzero] at hrun ⊢
        rw [if_neg (mt hempty.2 hzero)]
        exact hmask.update ha.inEpoll ha.running
  | removeInEpoll =>
      change (Registration.removeInEpoll r).exited = none at hrun
      show ∃ ch', ch.removeInEpoll = some ch' ∧ Models (Registration.removeInEpoll r) ch'
      unfold Registration.removeInEpoll at hrun ⊢
      unfold Channel.removeInEpoll
      cases hin : r.inEpoll with
      | false =>
          rw [hin] at hrun
          cases hrun
      | true =>
          rw [← h.inEpoll, hin, ha.deleteChannel hin]
          dsimp only
          rw [if_pos rfl, if_pos rfl, if_pos ha.running]
          exact ⟨_, rfl, ((bits_eq_zero_iff {}).2 rfl).symm, rfl, rfl⟩

/-! ## Runs -/

/-- **Registration.** In every run of its operations a channel agrees with the kernel throughout,
exactly when no `DisableWriting` leaves its mask empty. -/
theorem agrees_iff (ops : List ChannelOp) :
    Lib.Always step Agrees {} ops ↔ Lib.Each step KeepsEvents {} ops := by
  have hfresh : Agrees {} := ⟨by simp, fun _ hmem => (Option.not_mem_none _ hmem).elim, rfl⟩
  have hstep {r r' : Registration} {op : ChannelOp} (hs : r.step op = some r') :
      (op = .removeInEpoll → r.inEpoll = true) ∧ r.apply op = r' := by
    obtain ⟨hcond, heq⟩ := Option.ite_none_right_eq_some.1 hs
    exact ⟨hcond.2, Option.some.inj heq⟩
  refine Lib.always_iff_each Agrees (fun _ h => h) ?_ ?_ hfresh ops
  · intro r op r' h hkeeps hs
    obtain ⟨hin, heq⟩ := hstep hs
    rw [← heq]
    exact h.apply hkeeps hin
  · intro r op r' h hbreaks hs hagrees
    obtain ⟨-, heq⟩ := hstep hs
    obtain ⟨hop, hempty⟩ := Classical.not_imp.1 hbreaks
    rw [← heq, hop] at hagrees
    exact h.not_agrees_disableWriting (not_not.1 hempty) hagrees

/-- Writing enabled and disabled again on a fresh channel: the next operation changes an fd that
the kernel does not have. -/
theorem not_agrees_writeOnly :
    ¬ Lib.Always step Agrees {} [.enableWriting, .disableWriting] ∧
      (Lib.runFrom step {} [.enableWriting, .disableWriting, .enableReading]).map
        (fun r => r.exited) = some (some .modify) := by
  refine ⟨fun h => ?_, by decide⟩
  have hend : (Lib.runFrom step {} [.enableWriting, .disableWriting]).map
      (fun r => (r.inEpoll, r.kernel)) = some (true, none) := by decide
  obtain ⟨r, hagrees, hr⟩ := h.exists_end hend
  simp only [Prod.mk.injEq] at hr
  exact hagrees.inEpoll.1 hr.1 hr.2

end Registration

end CPlusServer

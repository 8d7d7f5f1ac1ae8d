import CPlusServer.Lib.Monitor
import CPlusServer.Lib.Run

/-!
# Latch

Any threads wait until `Notify` has been called often enough. `Start` of the logger waits
so for its thread. `Notify` wakes the waiters before it gives the mutex back, so that its
section is one step.
-/

namespace CPlusServer

/-- `monitor` holds `count_`, without the bounds of an `int`: it would take `2 ^ 31` calls of
`Notify` more than it was created for to leave them. The number of calls is history. -/
structure Latch (ι : Type) where
  monitor : Lib.Monitor Int ι
  notified : Nat := 0

inductive LatchAct (ι : Type)
  | wait (w : ι)
  | notify
  | wake (w : ι)

namespace Latch

variable {ι : Type} {l l' : Latch ι} {count : Int}

def create (count : Int) : Latch ι := { monitor := { value := count } }

def Done (count : Int) : Prop := count ≤ 0

instance : DecidablePred Done := fun count => inferInstanceAs (Decidable (count ≤ 0))

def notify (l : Latch ι) : Latch ι :=
  let count := l.monitor.value - 1
  { monitor :=
      if Done count then (l.monitor.change count 1).notifyAll else l.monitor.change count 0
    notified := l.notified + 1 }

def step [DecidableEq ι] (l : Latch ι) : LatchAct ι → Option (Latch ι)
  | .wait w => (l.monitor.check Done w).map fun m => { l with monitor := m }
  | .notify => some l.notify
  | .wake w => (l.monitor.wake w).map fun m => { l with monitor := m }

/-- The invariant: no wakeup is lost, none is owed, and no one has passed too early. -/
structure Sound (count : Int) (l : Latch ι) : Prop where
  awake : l.monitor.Awake Done
  rightly : l.monitor.Rightly Done
  owed : l.monitor.owed = 0
  counted : l.monitor.value = count - l.notified

theorem sound_create (count : Int) : Sound count (create count : Latch ι) := by
  refine ⟨fun _ _ _ => (nofun), fun _ hno => (nomatch hno), rfl, ?_⟩
  show count = count - 0
  omega

theorem Sound.wait [DecidableEq ι] (h : Sound count l) {w : ι}
    (hstep : l.step (.wait w) = some l') : Sound count l' := by
  obtain ⟨m, hcheck, rfl⟩ := Option.map_eq_some_iff.1 hstep
  have hsame : m.owed = l.monitor.owed ∧ m.value = l.monitor.value := by
    obtain ⟨-, heq⟩ := Option.ite_none_right_eq_some.1 hcheck
    cases heq
    exact ⟨rfl, rfl⟩
  exact ⟨h.awake.check hcheck, h.rightly.check hcheck, hsame.1.trans h.owed,
    hsame.2.trans h.counted⟩

theorem Sound.wake [DecidableEq ι] (h : Sound count l) {w : ι}
    (hstep : l.step (.wake w) = some l') : Sound count l' := by
  obtain ⟨m, hwake, rfl⟩ := Option.map_eq_some_iff.1 hstep
  have hsame : m.owed = l.monitor.owed ∧ m.value = l.monitor.value := by
    obtain ⟨-, heq⟩ := Option.ite_none_right_eq_some.1 hwake
    cases heq
    exact ⟨rfl, rfl⟩
  exact ⟨h.awake.wake hwake, h.rightly.wake hwake, hsame.1.trans h.owed, hsame.2.trans h.counted⟩

theorem Sound.notify (h : Sound count l) : Sound count l.notify := by
  have hcounted : l.monitor.value - 1 = count - ((l.notified + 1 : Nat) : Int) := by
    have hbefore := h.counted
    omega
  have hstays : Done l.monitor.value → Done (l.monitor.value - 1) := by
    unfold Done
    omega
  have howed := h.owed
  unfold Latch.notify
  dsimp only
  split
  · refine ⟨Lib.Monitor.awake_notifyAll _ _, (h.rightly.change hstays).notifyAll, ?_, hcounted⟩
    show l.monitor.owed + 1 - 1 = 0
    omega
  · rename_i hmore
    refine ⟨h.awake.change fun hdone => absurd hdone hmore, h.rightly.change hstays, ?_, hcounted⟩
    show l.monitor.owed + 0 = 0
    omega

theorem Sound.step [DecidableEq ι] (h : Sound count l) {a : LatchAct ι}
    (hstep : l.step a = some l') : Sound count l' := by
  cases a with
  | wait w => exact h.wait hstep
  | notify =>
      cases hstep
      exact h.notify
  | wake w => exact h.wake hstep

/-- Who has come back from `Wait` has been waiting for calls that were made, and after them no one
is left in `wait`: each next step of a waiter brings it back. -/
structure Released [DecidableEq ι] (count : Int) (l : Latch ι) : Prop where
  early : ∀ w, l.monitor.waiters w = .passed → count ≤ l.notified
  late : count ≤ l.notified → ∀ w, l.monitor.waiters w ≠ .passed →
    ∃ l', l.step (.wait w) = some l' ∧ l'.monitor.waiters w = .passed

theorem Sound.released [DecidableEq ι] (h : Sound count l) : Released count l := by
  have hcounted := h.counted
  constructor
  · intro w hpassed
    have hdone := h.rightly w hpassed
    unfold Done at hdone
    omega
  · intro hcalled w hw
    have hdone : Done l.monitor.value := by
      unfold Done
      omega
    rcases h.awake.live hdone hw with howed | hready
    · have hnone := h.owed
      omega
    · refine ⟨{ l with monitor := { l.monitor with
        waiters := Function.update l.monitor.waiters w .passed } }, ?_, ?_⟩
      · unfold Latch.step Lib.Monitor.check
        dsimp only
        rw [if_pos hready, if_pos hdone]
        rfl
      · exact Function.update_self _ _ _

/-- **Latch.** Whatever the count, the threads that wait and the order of all steps, spurious
wakeups among them, `Wait` does not come back before the calls of `Notify` it waits for, and always
can after them. -/
theorem released_of_run [DecidableEq ι] (count : Int) (acts : List (LatchAct ι)) :
    Lib.Always step (Released count) (create count) acts :=
  (Lib.always_of_keeps (fun _ _ _ h hstep => h.step hstep) (sound_create count) acts).mono
    fun _ h => h.released

/-- Two waiters, of which one looks before the call and one after it. -/
example : (Lib.runFrom step (create 1 : Latch Bool)
    [.wait true, .notify, .wait false, .wait true]).map
      (fun l => (l.monitor.waiters true, l.monitor.waiters false)) =
    some (.passed, .passed) := by decide

end Latch

end CPlusServer

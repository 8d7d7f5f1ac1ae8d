import Mathlib.Data.Fintype.Basic
import Mathlib.Logic.Function.Basic

/-! # Waiting for a condition

Threads wait on a condition variable for a predicate of what its mutex protects. Each
section under the mutex is one step. A notification may be given after the section that
calls for it, so that for a while it is owed, and a thread may wake up without one. What
keeps a wakeup from being lost is that the predicate, once it holds, holds with a
notification owed or with no one blocked. Nothing here names a program.
-/

namespace Lib

/-- `ready` is about to take the mutex, `blocked` is in `wait`, and `passed` has found the predicate
to hold. -/
inductive Waiter
  | ready | blocked | passed
  deriving DecidableEq

def Waiter.wake : Waiter → Waiter
  | .blocked => .ready
  | x => x

theorem Waiter.wake_ne_blocked (x : Waiter) : x.wake ≠ .blocked := by
  cases x <;> exact nofun

theorem Waiter.wake_eq_passed_iff {x : Waiter} : x.wake = .passed ↔ x = .passed := by
  cases x <;> simp [wake]

structure Monitor (σ ι : Type) where
  value : σ
  waiters : ι → Waiter := fun _ => .ready
  owed : Nat := 0

namespace Monitor

variable {σ ι : Type} {m m' : Monitor σ ι} {P : σ → Prop}

/-! ## The steps -/

def check [DecidableEq ι] (P : σ → Prop) [DecidablePred P] (m : Monitor σ ι) (w : ι) :
    Option (Monitor σ ι) :=
  if m.waiters w = .ready then
    some { m with
      waiters := Function.update m.waiters w (if P m.value then .passed else .blocked) }
  else none

/-- A wakeup that no one has called for. -/
def wake [DecidableEq ι] (m : Monitor σ ι) (w : ι) : Option (Monitor σ ι) :=
  if m.waiters w = .blocked then
    some { m with waiters := Function.update m.waiters w .ready }
  else none

/-- A section that changes the value, and calls for so many notifications behind it. -/
def change (m : Monitor σ ι) (value : σ) (notifications : Nat) : Monitor σ ι :=
  { m with value := value, owed := m.owed + notifications }

def notifyAll (m : Monitor σ ι) : Monitor σ ι :=
  { m with owed := m.owed - 1, waiters := fun w => (m.waiters w).wake }

def notifyOne [DecidableEq ι] [Fintype ι] (m : Monitor σ ι) (w : ι) : Option (Monitor σ ι) :=
  if 0 < m.owed ∧ (m.waiters w = .blocked ∨ ∀ w', m.waiters w' ≠ .blocked) then
    some { m with
      owed := m.owed - 1
      waiters := Function.update m.waiters w (m.waiters w).wake }
  else none

/-- No wakeup is lost: with the predicate no one is blocked unless a notification is owed. -/
def Awake (P : σ → Prop) (m : Monitor σ ι) : Prop :=
  P m.value → m.owed = 0 → ∀ w, m.waiters w ≠ .blocked

/-- Who has passed has found what still holds. -/
def Rightly (P : σ → Prop) (m : Monitor σ ι) : Prop := ∀ w, m.waiters w = .passed → P m.value

/-! ## What the steps keep -/

theorem Awake.check [DecidableEq ι] [DecidablePred P] {w : ι} (h : m.Awake P)
    (hstep : m.check P w = some m') : m'.Awake P := by
  obtain ⟨-, heq⟩ := Option.ite_none_right_eq_some.1 hstep
  cases heq
  intro hp howed v
  show Function.update m.waiters w _ v ≠ .blocked
  by_cases hv : v = w
  · rw [hv, Function.update_self, if_pos hp]
    exact nofun
  · rw [Function.update_of_ne hv]
    exact h hp howed v

theorem Rightly.check [DecidableEq ι] [DecidablePred P] {w : ι} (h : m.Rightly P)
    (hstep : m.check P w = some m') : m'.Rightly P := by
  obtain ⟨-, heq⟩ := Option.ite_none_right_eq_some.1 hstep
  cases heq
  intro v hpassed
  change Function.update m.waiters w _ v = .passed at hpassed
  by_cases hv : v = w
  · rw [hv, Function.update_self] at hpassed
    by_contra hno
    rw [if_neg hno] at hpassed
    cases hpassed
  · rw [Function.update_of_ne hv] at hpassed
    exact h v hpassed

theorem Awake.wake [DecidableEq ι] {w : ι} (h : m.Awake P) (hstep : m.wake w = some m') :
    m'.Awake P := by
  obtain ⟨-, heq⟩ := Option.ite_none_right_eq_some.1 hstep
  cases heq
  intro hp howed v
  show Function.update m.waiters w .ready v ≠ .blocked
  by_cases hv : v = w
  · rw [hv, Function.update_self]
    exact nofun
  · rw [Function.update_of_ne hv]
    exact h hp howed v

theorem Rightly.wake [DecidableEq ι] {w : ι} (h : m.Rightly P) (hstep : m.wake w = some m') :
    m'.Rightly P := by
  obtain ⟨-, heq⟩ := Option.ite_none_right_eq_some.1 hstep
  cases heq
  intro v hpassed
  change Function.update m.waiters w .ready v = .passed at hpassed
  by_cases hv : v = w
  · rw [hv, Function.update_self] at hpassed
    cases hpassed
  · rw [Function.update_of_ne hv] at hpassed
    exact h v hpassed

theorem Awake.change (h : m.Awake P) {value : σ} {notifications : Nat}
    (hcalls : P value → P m.value ∨ 0 < notifications) :
    (m.change value notifications).Awake P := by
  intro hp howed
  change m.owed + notifications = 0 at howed
  rcases hcalls hp with hp | hpos
  · exact h hp (by omega)
  · omega

theorem Rightly.change (h : m.Rightly P) {value : σ} {notifications : Nat}
    (hstays : P m.value → P value) : (m.change value notifications).Rightly P :=
  fun w hpassed => hstays (h w hpassed)

theorem awake_notifyAll (P : σ → Prop) (m : Monitor σ ι) : m.notifyAll.Awake P :=
  fun _ _ w => (m.waiters w).wake_ne_blocked

theorem Rightly.notifyAll (h : m.Rightly P) : m.notifyAll.Rightly P :=
  fun w hpassed => h w (Waiter.wake_eq_passed_iff.1 hpassed)

/-- Where one waits, one notification is as good as one to all. -/
theorem Awake.notifyOne [DecidableEq ι] [Fintype ι] [Subsingleton ι] {w : ι}
    (hstep : m.notifyOne w = some m') : m'.Awake P := by
  obtain ⟨-, heq⟩ := Option.ite_none_right_eq_some.1 hstep
  cases heq
  intro _ _ v
  rw [Subsingleton.elim v w]
  show Function.update m.waiters w _ w ≠ .blocked
  rw [Function.update_self]
  exact (m.waiters w).wake_ne_blocked

theorem Rightly.notifyOne [DecidableEq ι] [Fintype ι] {w : ι} (h : m.Rightly P)
    (hstep : m.notifyOne w = some m') : m'.Rightly P := by
  obtain ⟨-, heq⟩ := Option.ite_none_right_eq_some.1 hstep
  cases heq
  intro v hpassed
  change Function.update m.waiters w _ v = .passed at hpassed
  by_cases hv : v = w
  · rw [hv, Function.update_self] at hpassed
    exact h w (Waiter.wake_eq_passed_iff.1 hpassed)
  · rw [Function.update_of_ne hv] at hpassed
    exact h v hpassed

/-- With the predicate a thread that has not passed can look, or a notification is owed. -/
theorem Awake.live (h : m.Awake P) (hp : P m.value) {w : ι} (hw : m.waiters w ≠ .passed) :
    0 < m.owed ∨ m.waiters w = .ready := by
  rcases Nat.eq_zero_or_pos m.owed with hzero | hpos
  · right
    cases hwaiter : m.waiters w with
    | ready => rfl
    | blocked => exact absurd hwaiter (h hp hzero w)
    | passed => exact absurd hwaiter hw
  · exact .inl hpos

end Monitor

end Lib

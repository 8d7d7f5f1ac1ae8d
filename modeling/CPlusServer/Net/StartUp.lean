import CPlusServer.Lib.Monitor
import CPlusServer.Lib.Run
import Mathlib.Tactic.Ring

/-!
# Starting the loops

`EventLoopThreadPool::Start` starts one thread after the other. Each constructs its loop,
and `StartLoop` waits until it can hand out the pointer. A section under the mutex of an
`EventLoopThread` is one step, and so is `notify_one` behind it: by then the starting
thread may be waiting for another thread.
-/

namespace CPlusServer

inductive ThreadFuncPc
  | construct | store | notify | loop
  deriving DecidableEq

/-- `monitor` holds `loop_`, and the one who may wait is the thread that called `StartLoop`. A loop
is known by the index of the thread that has constructed it. -/
structure EventLoopThread where
  pc : ThreadFuncPc := .construct
  monitor : Lib.Monitor (Option Nat) Unit := { value := none }

namespace EventLoopThread

def Stored (loop : Option Nat) : Prop := loop ≠ none

instance : DecidablePred Stored := fun loop => inferInstanceAs (Decidable (loop ≠ none))

def threadFunc (t : EventLoopThread) (i : Nat) : Option EventLoopThread :=
  match t.pc with
  | .construct => some { t with pc := .store }
  | .store => some { pc := .notify, monitor := t.monitor.change (some i) 1 }
  | .notify => (t.monitor.notifyOne ()).map fun m => { pc := .loop, monitor := m }
  | .loop => none

end EventLoopThread

inductive StartPc
  | head | startLoop | returned
  deriving DecidableEq

structure EventLoopThreadPool where
  numThreads : Nat
  threads : List EventLoopThread := []
  eventLoops : List (Option Nat) := []
  next : Nat := 0
  pc : StartPc := .head

/-- A step of `Start`, one of the `i`th thread, or a wakeup that no one has called for. -/
inductive StartAct
  | start
  | thread (i : Nat)
  | wake
  deriving DecidableEq

namespace EventLoopThreadPool

def create (numThreads : Int) : EventLoopThreadPool :=
  { numThreads := if numThreads ≤ 0 then 1 else numThreads.toNat }

def setThread (p : EventLoopThreadPool) (i : Nat) (t : EventLoopThread) : EventLoopThreadPool :=
  { p with threads := p.threads.set i t }

/-- What waits in `StartLoop` looks at `loop_`, and comes back with it or goes on waiting. -/
def startLoop (p : EventLoopThreadPool) (i : Nat) (t : EventLoopThread) :
    Option EventLoopThreadPool :=
  (t.monitor.check EventLoopThread.Stored ()).map fun m =>
    let p := p.setThread i { t with monitor := m }
    if m.waiters () = .passed then
      { p with eventLoops := p.eventLoops ++ [m.value], pc := .head }
    else p

def back (p : EventLoopThreadPool) : Option EventLoopThread := p.threads[p.threads.length - 1]?

def start (p : EventLoopThreadPool) : Option EventLoopThreadPool :=
  match p.pc with
  | .head =>
      if p.threads.length < p.numThreads then
        some { p with threads := p.threads ++ [{}], pc := .startLoop }
      else some { p with pc := .returned }
  | .startLoop => p.back.bind fun t => p.startLoop (p.threads.length - 1) t
  | .returned => none

def step (p : EventLoopThreadPool) : StartAct → Option EventLoopThreadPool
  | .start => p.start
  | .thread i => p.threads[i]?.bind fun t => (t.threadFunc i).map (p.setThread i)
  | .wake => p.back.bind fun t => (t.monitor.wake ()).map fun m =>
      p.setThread (p.threads.length - 1) { t with monitor := m }

end EventLoopThreadPool

/-! ## One thread -/

namespace EventLoopThread

/-- The loop is stored behind the second step, a notification is owed until the fourth, no wakeup
is lost, and `StartLoop` has not come back too early. -/
structure Sound (i : Nat) (t : EventLoopThread) : Prop where
  awake : t.monitor.Awake Stored
  rightly : t.monitor.Rightly Stored
  value : t.monitor.value = if t.pc = .notify ∨ t.pc = .loop then some i else none
  owed : t.monitor.owed = if t.pc = .notify then 1 else 0

variable {i : Nat} {t t' : EventLoopThread}

theorem sound_fresh (i : Nat) : Sound i {} :=
  ⟨fun hno => absurd rfl hno, fun _ hno => (nomatch hno), rfl, rfl⟩

theorem Sound.waiters (h : Sound i t) {m : Lib.Monitor (Option Nat) Unit}
    (hawake : m.Awake Stored) (hrightly : m.Rightly Stored) (hvalue : m.value = t.monitor.value)
    (howed : m.owed = t.monitor.owed) : Sound i { t with monitor := m } :=
  ⟨hawake, hrightly, hvalue.trans h.value, howed.trans h.owed⟩

theorem Sound.check (h : Sound i t) {m : Lib.Monitor (Option Nat) Unit}
    (hcheck : t.monitor.check Stored () = some m) : Sound i { t with monitor := m } := by
  have hawake := h.awake.check hcheck
  have hrightly := h.rightly.check hcheck
  obtain ⟨-, heq⟩ := Option.ite_none_right_eq_some.1 hcheck
  cases heq
  exact h.waiters hawake hrightly rfl rfl

theorem Sound.wake (h : Sound i t) {m : Lib.Monitor (Option Nat) Unit}
    (hwake : t.monitor.wake () = some m) : Sound i { t with monitor := m } := by
  have hawake := h.awake.wake hwake
  have hrightly := h.rightly.wake hwake
  obtain ⟨-, heq⟩ := Option.ite_none_right_eq_some.1 hwake
  cases heq
  exact h.waiters hawake hrightly rfl rfl

/-- A thread goes on with its function, and no step of it brings `StartLoop` back or
back to wait. -/
theorem Sound.threadFunc (h : Sound i t) (hstep : t.threadFunc i = some t') :
    Sound i t' ∧ (t'.monitor.waiters () = .passed ↔ t.monitor.waiters () = .passed) := by
  have hvalue := h.value
  have howed := h.owed
  unfold EventLoopThread.threadFunc at hstep
  cases hpc : t.pc with
  | construct =>
      rw [hpc] at hstep hvalue howed
      cases hstep
      exact ⟨⟨h.awake, h.rightly, hvalue, howed⟩, Iff.rfl⟩
  | store =>
      rw [hpc] at hstep howed
      cases hstep
      refine ⟨⟨h.awake.change fun _ => .inr Nat.one_pos, h.rightly.change fun _ => nofun, rfl, ?_⟩,
        Iff.rfl⟩
      show t.monitor.owed + 1 = 1
      rw [howed]
      rfl
  | notify =>
      rw [hpc] at hstep hvalue howed
      obtain ⟨m, hnotify, rfl⟩ := Option.map_eq_some_iff.1 hstep
      have hawake : m.Awake Stored := Lib.Monitor.Awake.notifyOne hnotify
      have hrightly := h.rightly.notifyOne hnotify
      obtain ⟨-, heq⟩ := Option.ite_none_right_eq_some.1 hnotify
      cases heq
      refine ⟨⟨hawake, hrightly, hvalue, ?_⟩, ?_⟩
      · show t.monitor.owed - 1 = 0
        rw [howed]
        rfl
      · show Function.update t.monitor.waiters () _ () = .passed ↔ _
        rw [Function.update_self]
        exact Lib.Waiter.wake_eq_passed_iff
  | loop =>
      rw [hpc] at hstep
      cases hstep

/-- A thread that has not come to `Loop` goes on if `StartLoop` waits for it. -/
theorem Sound.threadFunc_ne_none (h : Sound i t) (hblocked : t.monitor.waiters () = .blocked) :
    t.threadFunc i ≠ none := by
  have hvalue := h.value
  have howed := h.owed
  unfold EventLoopThread.threadFunc
  cases hpc : t.pc with
  | construct | store => exact nofun
  | notify =>
      rw [hpc] at howed
      have hone : t.monitor.owed = 1 := howed
      unfold Lib.Monitor.notifyOne
      rw [if_pos ⟨by omega, .inl hblocked⟩]
      exact nofun
  | loop =>
      rw [hpc] at hvalue howed
      have hstored : Stored t.monitor.value := by
        rw [hvalue]
        exact nofun
      exact absurd hblocked (h.awake hstored howed ())

end EventLoopThread

/-! ## The pool -/

namespace EventLoopThreadPool

variable {p p' : EventLoopThreadPool}

def Counted (p : EventLoopThreadPool) : Prop :=
  match p.pc with
  | .head => p.threads.length = p.eventLoops.length ∧ p.threads.length ≤ p.numThreads
  | .startLoop => p.threads.length = p.eventLoops.length + 1 ∧ p.threads.length ≤ p.numThreads
  | .returned => p.threads.length = p.eventLoops.length ∧ p.eventLoops.length = p.numThreads

/-- `StartLoop` has come back for the threads whose loops are known, and those are their own. -/
structure Sound (p : EventLoopThreadPool) : Prop where
  threads : ∀ i t, p.threads[i]? = some t → t.Sound i ∧
    (t.monitor.waiters () = .passed ↔ i < p.eventLoops.length)
  loops : p.eventLoops = (List.range p.eventLoops.length).map some
  counted : p.Counted

theorem sound_create (numThreads : Int) : (create numThreads).Sound :=
  ⟨fun _ _ hno => (nomatch hno), rfl, rfl, Nat.zero_le _⟩

theorem getElem?_setThread {i j : Nat} {t t' u : EventLoopThread} (ht : p.threads[i]? = some t)
    (hu : (p.setThread i t').threads[j]? = some u) :
    (j = i ∧ u = t') ∨ (j ≠ i ∧ p.threads[j]? = some u) := by
  obtain ⟨hi, -⟩ := List.getElem?_eq_some_iff.1 ht
  change (p.threads.set i t')[j]? = some u at hu
  rw [List.getElem?_set] at hu
  by_cases hij : i = j
  · rw [if_pos hij, if_pos hi] at hu
    cases hu
    exact .inl ⟨hij.symm, rfl⟩
  · rw [if_neg hij] at hu
    exact .inr ⟨fun hji => hij hji.symm, hu⟩

theorem Sound.setThread (h : p.Sound) {i : Nat} {t t' : EventLoopThread}
    (ht : p.threads[i]? = some t) (hsound : t'.Sound i)
    (hsame : t'.monitor.waiters () = .passed ↔ t.monitor.waiters () = .passed) :
    (p.setThread i t').Sound := by
  have hlength : (p.setThread i t').threads.length = p.threads.length := List.length_set
  refine ⟨fun j u hu => ?_, h.loops, ?_⟩
  · rcases getElem?_setThread ht hu with ⟨rfl, rfl⟩ | ⟨-, hold⟩
    · exact ⟨hsound, hsame.trans (h.threads j t ht).2⟩
    · exact h.threads j u hold
  · have hcounted := h.counted
    unfold Counted at hcounted ⊢
    rw [hlength]
    exact hcounted

theorem Sound.thread (h : p.Sound) {i : Nat} (hstep : p.step (.thread i) = some p') : p'.Sound := by
  obtain ⟨t, ht, hstep⟩ := Option.bind_eq_some_iff.1 hstep
  obtain ⟨t', hfunc, rfl⟩ := Option.map_eq_some_iff.1 hstep
  obtain ⟨hsound, hsame⟩ := (h.threads i t ht).1.threadFunc hfunc
  exact h.setThread ht hsound hsame

theorem Sound.wake (h : p.Sound) (hstep : p.step .wake = some p') : p'.Sound := by
  obtain ⟨t, ht, hstep⟩ := Option.bind_eq_some_iff.1 hstep
  obtain ⟨m, hwake, rfl⟩ := Option.map_eq_some_iff.1 hstep
  have hsound := (h.threads _ t ht).1.wake hwake
  obtain ⟨hblocked, heq⟩ := Option.ite_none_right_eq_some.1 hwake
  cases heq
  refine h.setThread ht hsound ?_
  rw [hblocked]
  exact iff_of_false (fun hno => nomatch hno) fun hno => nomatch hno

theorem Sound.back (h : p.Sound) (hpc : p.pc = .startLoop) : ∃ t, p.back = some t ∧
    p.threads.length - 1 = p.eventLoops.length ∧ t.Sound p.eventLoops.length ∧
      t.monitor.waiters () ≠ .passed := by
  have hcounted := h.counted
  unfold Counted at hcounted
  rw [hpc] at hcounted
  have hlast : p.threads.length - 1 = p.eventLoops.length := by
    have hone : p.threads.length = p.eventLoops.length + 1 := hcounted.1
    omega
  have hlt : p.eventLoops.length < p.threads.length := by
    rw [hcounted.1]
    exact Nat.lt_succ_self _
  have ht : p.threads[p.eventLoops.length]? = some p.threads[p.eventLoops.length] :=
    List.getElem?_eq_getElem hlt
  obtain ⟨hsound, hpassed⟩ := h.threads _ _ ht
  refine ⟨p.threads[p.eventLoops.length], ?_, hlast, hsound, fun hno => ?_⟩
  · unfold EventLoopThreadPool.back
    rw [hlast]
    exact ht
  · have hless := hpassed.1 hno
    omega

/-- `StartLoop` comes back with the loop that the thread has constructed. -/
theorem Sound.startLoop (h : p.Sound) (hpc : p.pc = .startLoop) (hstep : p.start = some p') :
    p'.Sound := by
  obtain ⟨t, hback, hlast, hsound, hnot⟩ := h.back hpc
  unfold start at hstep
  rw [hpc] at hstep
  dsimp only at hstep
  unfold EventLoopThreadPool.startLoop at hstep
  rw [hback, hlast] at hstep
  obtain ⟨m, hcheck, heq⟩ := Option.map_eq_some_iff.1 hstep
  have ht : p.threads[p.eventLoops.length]? = some t := by
    unfold EventLoopThreadPool.back at hback
    rw [hlast] at hback
    exact hback
  have hnext := hsound.check hcheck
  dsimp only at heq
  by_cases hpassed : m.waiters () = .passed
  · rw [if_pos hpassed] at heq
    cases heq
    have hvalue : m.value = some p.eventLoops.length := by
      have hstored := hnext.rightly () hpassed
      have hown := hnext.value
      dsimp only at hstored hown
      split at hown
      · exact hown
      · exact absurd hown hstored
    have hcounted := h.counted
    unfold Counted at hcounted
    rw [hpc] at hcounted
    refine ⟨fun j u hu => ?_, ?_, ?_⟩
    · show u.Sound j ∧ (_ ↔ j < (p.eventLoops ++ [m.value]).length)
      rw [List.length_append, List.length_singleton]
      rcases getElem?_setThread ht hu with ⟨rfl, rfl⟩ | ⟨hne, hold⟩
      · exact ⟨hnext, iff_of_true hpassed (Nat.lt_succ_self _)⟩
      · obtain ⟨hthread, hback⟩ := h.threads j u hold
        refine ⟨hthread, hback.trans ?_⟩
        omega
    · show p.eventLoops ++ [m.value] = (List.range (p.eventLoops ++ [m.value]).length).map some
      rw [List.length_append, List.length_singleton, List.range_succ, List.map_append, ← h.loops,
        hvalue]
      rfl
    · show (p.threads.set _ _).length = (p.eventLoops ++ [m.value]).length ∧
        (p.threads.set _ _).length ≤ p.numThreads
      rw [List.length_set, List.length_append, List.length_singleton]
      exact hcounted
  · rw [if_neg hpassed] at heq
    cases heq
    exact h.setThread ht hnext (iff_of_false hpassed hnot)

theorem Sound.head (h : p.Sound) (hpc : p.pc = .head) (hstep : p.start = some p') : p'.Sound := by
  have hcounted := h.counted
  unfold Counted at hcounted
  rw [hpc] at hcounted
  obtain ⟨hall, hle⟩ := hcounted
  unfold start at hstep
  rw [hpc] at hstep
  dsimp only at hstep
  split at hstep
  · rename_i hless
    cases hstep
    refine ⟨fun i t ht => ?_, h.loops, ?_⟩
    · change (p.threads ++ [({} : EventLoopThread)])[i]? = some t at ht
      rcases Nat.lt_or_ge i p.threads.length with hi | hi
      · rw [List.getElem?_append_left hi] at ht
        exact h.threads i t ht
      · rw [List.getElem?_append_right hi] at ht
        obtain ⟨hi', ht'⟩ := List.getElem?_eq_some_iff.1 ht
        rw [List.length_singleton] at hi'
        have heq : i = p.eventLoops.length := by omega
        rw [List.getElem_singleton] at ht'
        rw [← ht', heq]
        exact ⟨EventLoopThread.sound_fresh _, iff_of_false (fun hno => (nomatch hno)) (Nat.lt_irrefl _)⟩
    · show (p.threads ++ [({} : EventLoopThread)]).length = p.eventLoops.length + 1 ∧
        (p.threads ++ [({} : EventLoopThread)]).length ≤ p.numThreads
      rw [List.length_append, List.length_singleton]
      omega
  · cases hstep
    refine ⟨h.threads, h.loops, hall, ?_⟩
    show p.eventLoops.length = p.numThreads
    omega

theorem Sound.step (h : p.Sound) {a : StartAct} (hstep : p.step a = some p') : p'.Sound := by
  cases a with
  | start =>
      cases hpc : p.pc with
      | head => exact h.head hpc hstep
      | startLoop => exact h.startLoop hpc hstep
      | returned =>
          change p.start = some p' at hstep
          unfold start at hstep
          rw [hpc] at hstep
          cases hstep
  | thread i => exact h.thread hstep
  | wake => exact h.wake hstep

/-! ## How long it takes -/

/-- The steps that a thread may still take, and that of the one who waits for it. -/
def rank (t : EventLoopThread) : Nat :=
  (match t.pc with
    | .construct => 4
    | .store => 3
    | .notify => 2
    | .loop => 0) +
  if t.monitor.waiters () = .ready then 1 else 0

/-- A bound on the steps to come, but for wakeups that no one calls for. -/
def remaining (p : EventLoopThreadPool) : Nat :=
  (p.threads.map rank).sum + 6 * (p.numThreads - p.threads.length) +
    if p.pc = .returned then 0 else 1

theorem sum_map_set {l : List EventLoopThread} {i : Nat} {t : EventLoopThread}
    (ht : l[i]? = some t) (t' : EventLoopThread) :
    ((l.set i t').map rank).sum + rank t = (l.map rank).sum + rank t' := by
  induction l generalizing i with
  | nil => cases ht
  | cons u us ih =>
      cases i with
      | zero =>
          cases ht
          simp only [List.set_cons_zero, List.map_cons, List.sum_cons]
          omega
      | succ i =>
          have hrest := ih (List.getElem?_cons_succ ▸ ht)
          simp only [List.set_cons_succ, List.map_cons, List.sum_cons]
          omega

theorem remaining_setThread {i : Nat} {t : EventLoopThread} (ht : p.threads[i]? = some t)
    (t' : EventLoopThread) : (p.setThread i t').remaining + rank t = p.remaining + rank t' := by
  have hsum := sum_map_set ht t'
  have hlength : (p.threads.set i t').length = p.threads.length := List.length_set
  unfold remaining setThread
  dsimp only
  rw [hlength]
  omega

theorem rank_threadFunc {i : Nat} {t t' : EventLoopThread} (h : t.threadFunc i = some t') :
    rank t' + 1 ≤ rank t := by
  unfold EventLoopThread.threadFunc at h
  unfold rank
  cases hpc : t.pc with
  | construct =>
      rw [hpc] at h
      cases h
      show 3 + (if t.monitor.waiters () = .ready then 1 else 0) + 1 ≤ 4 + _
      omega
  | store =>
      rw [hpc] at h
      cases h
      show 2 + (if t.monitor.waiters () = .ready then 1 else 0) + 1 ≤ 3 + _
      omega
  | notify =>
      rw [hpc] at h
      obtain ⟨m, -, rfl⟩ := Option.map_eq_some_iff.1 h
      dsimp only
      split <;> omega
  | loop =>
      rw [hpc] at h
      cases h

theorem rank_check {t : EventLoopThread} {m : Lib.Monitor (Option Nat) Unit}
    (h : t.monitor.check EventLoopThread.Stored () = some m) :
    rank { t with monitor := m } + 1 = rank t := by
  obtain ⟨hready, heq⟩ := Option.ite_none_right_eq_some.1 h
  cases heq
  have hnext : Function.update t.monitor.waiters ()
      (if EventLoopThread.Stored t.monitor.value then Lib.Waiter.passed else .blocked) () ≠ .ready := by
    rw [Function.update_self]
    split <;> exact nofun
  unfold rank
  dsimp only
  rw [if_pos hready, if_neg hnext]

theorem rank_wake {t : EventLoopThread} {m : Lib.Monitor (Option Nat) Unit}
    (h : t.monitor.wake () = some m) : rank { t with monitor := m } = rank t + 1 := by
  obtain ⟨hblocked, heq⟩ := Option.ite_none_right_eq_some.1 h
  cases heq
  have hnot : t.monitor.waiters () ≠ .ready := by
    rw [hblocked]
    exact nofun
  have hnow : Function.update t.monitor.waiters () Lib.Waiter.ready () = .ready :=
    Function.update_self _ _ _
  unfold rank
  dsimp only
  rw [if_pos hnow, if_neg hnot]

theorem remaining_head (hpc : p.pc = .head) (hstep : p.start = some p') :
    p'.remaining + 1 ≤ p.remaining := by
  have hbefore : p.remaining =
      (p.threads.map rank).sum + 6 * (p.numThreads - p.threads.length) + 1 := by
    unfold remaining
    rw [hpc]
    rfl
  unfold start at hstep
  rw [hpc] at hstep
  dsimp only at hstep
  split at hstep
  · cases hstep
    show ((p.threads ++ [({} : EventLoopThread)]).map rank).sum +
      6 * (p.numThreads - (p.threads ++ [({} : EventLoopThread)]).length) + 1 + 1 ≤ _
    have hfresh : (List.map rank [({} : EventLoopThread)]).sum = 5 := rfl
    rw [hbefore, List.map_append, List.sum_append, hfresh, List.length_append,
      List.length_singleton]
    omega
  · cases hstep
    rw [hbefore]
    exact Nat.le_refl _

theorem remaining_startLoop (hpc : p.pc = .startLoop) (hstep : p.start = some p') :
    p'.remaining + 1 ≤ p.remaining := by
  unfold start at hstep
  rw [hpc] at hstep
  obtain ⟨t, hback, hstep⟩ := Option.bind_eq_some_iff.1 hstep
  obtain ⟨m, hcheck, heq⟩ := Option.map_eq_some_iff.1 hstep
  have hrank := rank_check hcheck
  have hset := remaining_setThread hback { t with monitor := m }
  have hsame : p'.remaining =
      (p.setThread (p.threads.length - 1) { t with monitor := m }).remaining := by
    rw [← heq]
    dsimp only
    split
    · unfold remaining setThread
      dsimp only
      rw [hpc]
      rfl
    · rfl
  omega

theorem remaining_start (hstep : p.start = some p') : p'.remaining + 1 ≤ p.remaining := by
  cases hpc : p.pc with
  | head => exact remaining_head hpc hstep
  | startLoop => exact remaining_startLoop hpc hstep
  | returned =>
      unfold start at hstep
      rw [hpc] at hstep
      cases hstep

/-- Every step but a wakeup that no one has called for brings the end nearer. -/
theorem remaining_step {a : StartAct} (hstep : p.step a = some p') :
    p'.remaining + 1 ≤ p.remaining + if a = .wake then 2 else 0 := by
  cases a with
  | start =>
      have hless := remaining_start hstep
      rw [if_neg (by decide)]
      omega
  | thread i =>
      obtain ⟨t, ht, hstep⟩ := Option.bind_eq_some_iff.1 hstep
      obtain ⟨t', hfunc, rfl⟩ := Option.map_eq_some_iff.1 hstep
      have hset := remaining_setThread ht t'
      have hrank := rank_threadFunc hfunc
      rw [if_neg (fun hno => nomatch hno)]
      omega
  | wake =>
      obtain ⟨t, ht, hstep⟩ := Option.bind_eq_some_iff.1 hstep
      obtain ⟨m, hwake, rfl⟩ := Option.map_eq_some_iff.1 hstep
      have hset := remaining_setThread ht { t with monitor := m }
      have hrank := rank_wake hwake
      rw [if_pos rfl]
      omega

theorem length_le_of_run {acts : List StartAct} (hrun : Lib.runFrom step p acts = some p') :
    acts.length + p'.remaining ≤ p.remaining + 2 * acts.count .wake := by
  induction acts generalizing p with
  | nil =>
      cases hrun
      simp
  | cons a acts ih =>
      obtain ⟨p₁, hstep, hrest⟩ := Option.bind_eq_some_iff.1 hrun
      have hfirst := remaining_step hstep
      have hlater := ih hrest
      have hcount : (a :: acts).count .wake = acts.count .wake + if a = .wake then 1 else 0 := by
        rw [List.count_cons]
        simp only [beq_iff_eq]
      rw [List.length_cons, hcount]
      by_cases hwake : a = .wake
      · rw [if_pos hwake] at hfirst ⊢
        omega
      · rw [if_neg hwake] at hfirst ⊢
        omega

/-! ## Runs -/

theorem Sound.live (h : p.Sound) (hpc : p.pc ≠ .returned) : ∃ a, a ≠ .wake ∧ p.step a ≠ none := by
  cases hwhere : p.pc with
  | head =>
      refine ⟨.start, nofun, ?_⟩
      show p.start ≠ none
      unfold start
      rw [hwhere]
      dsimp only
      split <;> exact nofun
  | startLoop =>
      obtain ⟨t, hback, hlast, hsound, hnot⟩ := h.back hwhere
      cases hwaiter : t.monitor.waiters () with
      | ready =>
          refine ⟨.start, nofun, ?_⟩
          show p.start ≠ none
          unfold start EventLoopThreadPool.startLoop Lib.Monitor.check
          rw [hwhere, hback]
          simp [hwaiter]
      | blocked =>
          refine ⟨.thread p.eventLoops.length, nofun, ?_⟩
          have hnext := hsound.threadFunc_ne_none hwaiter
          have ht : p.threads[p.eventLoops.length]? = some t := by
            unfold EventLoopThreadPool.back at hback
            rw [hlast] at hback
            exact hback
          show p.threads[p.eventLoops.length]?.bind _ ≠ none
          rw [ht]
          simpa using hnext
      | passed => exact absurd hwaiter hnot
  | returned => exact absurd hwhere hpc

/-- From wherever they are, the threads can bring `Start` to its end. -/
theorem Sound.exists_returned (h : p.Sound) :
    ∃ acts p', Lib.runFrom EventLoopThreadPool.step p acts = some p' ∧ p'.pc = .returned := by
  induction hleft : p.remaining using Nat.strong_induction_on generalizing p with
  | _ left ih =>
      by_cases hpc : p.pc = .returned
      · exact ⟨[], p, rfl, hpc⟩
      · obtain ⟨a, hwake, hsome⟩ := h.live hpc
        obtain ⟨p₁, hstep⟩ := Option.ne_none_iff_exists'.1 hsome
        have hless := remaining_step hstep
        rw [if_neg hwake] at hless
        obtain ⟨acts, p', hrun, hend⟩ := ih p₁.remaining (by omega) (h.step hstep) rfl
        refine ⟨a :: acts, p', ?_, hend⟩
        rw [Lib.runFrom, hstep]
        exact hrun

/-- What `StartLoop` has handed out are the loops of the threads, in order, each constructed by its
own; all of them are there when `Start` has returned; and until then some thread has a step to
take that is no spurious wakeup. -/
structure Starts (p : EventLoopThreadPool) : Prop where
  loops : p.eventLoops = (List.range p.eventLoops.length).map some
  own : ∀ (i : Nat) (t : EventLoopThread), p.threads[i]? = some t → t.pc = .loop →
    t.monitor.value = some i
  complete : p.pc = .returned → p.eventLoops.length = p.numThreads
  live : p.pc ≠ .returned → ∃ a, a ≠ .wake ∧ p.step a ≠ none

theorem Sound.starts (h : p.Sound) : p.Starts := by
  refine ⟨h.loops, fun i t ht hloop => ?_, fun hpc => ?_, h.live⟩
  · rw [(h.threads i t ht).1.value, if_pos (.inr hloop)]
  · have hcounted := h.counted
    unfold Counted at hcounted
    rw [hpc] at hcounted
    exact hcounted.2

/-- **Starting the loops.** In whatever order the threads and the one that starts them take their
steps, each loop is constructed by its own thread and handed out once, in order; the starting thread
is never left waiting; and after so many steps it has returned, spurious wakeups apart. -/
theorem starts_of_run (numThreads : Int) (acts : List StartAct) :
    Lib.Always step Starts (create numThreads) acts ∧
      ∀ p, Lib.runFrom step (create numThreads) acts = some p →
        acts.length ≤ 6 * (create numThreads).numThreads + 1 + 2 * acts.count .wake := by
  constructor
  · exact (Lib.always_of_keeps (fun _ _ _ h hstep => h.step hstep) (sound_create numThreads)
      acts).mono fun _ h => h.starts
  · intro p hrun
    have hbound := length_le_of_run hrun
    have hfirst : (create numThreads).remaining = 6 * (create numThreads).numThreads + 1 := by
      show 0 + 6 * ((create numThreads).numThreads - 0) + 1 = _
      omega
    omega

end EventLoopThreadPool

end CPlusServer

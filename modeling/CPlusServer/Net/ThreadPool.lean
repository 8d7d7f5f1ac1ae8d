import CPlusServer.Basic
import CPlusServer.Lib.Run
import Mathlib.Algebra.BigOperators.Fin
import Mathlib.Algebra.Order.Group.Multiset
import Mathlib.Tactic.Abel

/-!
# ThreadPool

Any threads call `Add` while the workers wait, take tasks and run them, and the
destructor stops them. A section under the mutex is one step. `notify_one` and
`notify_all` are steps of their own behind the section of their caller, and a
worker that waits may wake up without them.
-/

namespace CPlusServer

structure RuntimeError where
  what : String
  deriving DecidableEq

def threads (size : Nat) : Nat := if size ≤ 0 then 1 else size

theorem threads_pos (size : Nat) : 0 < threads size := by
  unfold threads
  split <;> omega

/-- `ready` is about to take the mutex, at the head of its loop or woken in `wait`; `blocked` is in
`wait`; `running` has taken a task and not yet come back from it. -/
inductive Worker (α : Type)
  | ready
  | blocked
  | running (task : α)
  | exited

namespace Worker

variable {α : Type}

def isBlocked : Worker α → Bool
  | .blocked => true
  | _ => false

def wake : Worker α → Worker α
  | .blocked => .ready
  | x => x

def task : Worker α → Multiset α
  | .running task => {task}
  | _ => 0

theorem isBlocked_iff {x : Worker α} : x.isBlocked = true ↔ x = .blocked := by
  cases x <;> simp [isBlocked]

theorem isBlocked_eq_false_iff {x : Worker α} : x.isBlocked = false ↔ x ≠ .blocked := by
  rw [ne_eq, ← isBlocked_iff, Bool.not_eq_true]

end Worker

/-- `notifying` counts the calls of `Add` that have left the mutex and not yet notified, and
`notifyingAll` says so of the destructor. The lists at the end are history: what `Add` has put into
the queue, what workers have taken out of it and what they have run. -/
structure ThreadPool (size : Nat) (α : Type) where
  tasks : List α := []
  stop : Bool := false
  workers : Fin (threads size) → Worker α := fun _ => .ready
  notifying : Nat := 0
  notifyingAll : Bool := false
  accepted : List α := []
  dequeued : List α := []
  ran : List α := []

/-- `notifyOne` carries the worker that it wakes, if one is blocked; `wake` is spurious, `take` the
section of a worker, `run` its task, and `stop` the section of the destructor. -/
inductive PoolAct (size : Nat) (α : Type)
  | add (task : α)
  | notifyOne (w : Option (Fin (threads size)))
  | wake (w : Fin (threads size))
  | take (w : Fin (threads size))
  | run (w : Fin (threads size))
  | stop
  | notifyAll

namespace PoolAct

variable {size : Nat} {α : Type}

def ofPool : PoolAct size α → Bool
  | .add _ | .wake _ | .stop => false
  | _ => true

end PoolAct

namespace ThreadPool

variable {size : Nat} {α : Type}

/-! ## The operations -/

/-- The pool after the section of `Add`, and what it throws. -/
def add (p : ThreadPool size α) (task : α) : ThreadPool size α × Option RuntimeError :=
  if p.stop then (p, some ⟨"ThreadPool has been stopped"⟩)
  else
    ({ p with
        tasks := p.tasks ++ [task], notifying := p.notifying + 1, accepted := p.accepted ++ [task] },
      none)

def setWorker (p : ThreadPool size α) (w : Fin (threads size)) (x : Worker α) :
    ThreadPool size α :=
  { p with workers := Function.update p.workers w x }

/-- From the predicate of `wait`, with the mutex, to the next time it is given back. -/
def take (p : ThreadPool size α) (w : Fin (threads size)) : ThreadPool size α :=
  match p.tasks with
  | [] => p.setWorker w (if p.stop then .exited else .blocked)
  | task :: tasks =>
      { p.setWorker w (.running task) with tasks := tasks, dequeued := p.dequeued ++ [task] }

def run (p : ThreadPool size α) (w : Fin (threads size)) (task : α) : ThreadPool size α :=
  { p.setWorker w .ready with ran := p.ran ++ [task] }

def notified (p : ThreadPool size α) : ThreadPool size α := { p with notifying := p.notifying - 1 }

def step (p : ThreadPool size α) : PoolAct size α → Option (ThreadPool size α)
  | .add task => some (p.add task).1
  | .notifyOne none =>
      if 0 < p.notifying ∧ ∀ w, (p.workers w).isBlocked = false then some p.notified else none
  | .notifyOne (some w) =>
      if 0 < p.notifying ∧ (p.workers w).isBlocked = true then some (p.notified.setWorker w .ready)
      else none
  | .wake w => if (p.workers w).isBlocked = true then some (p.setWorker w .ready) else none
  | .take w =>
      match p.workers w with
      | .ready => some (p.take w)
      | _ => none
  | .run w =>
      match p.workers w with
      | .running task => some (p.run w task)
      | _ => none
  | .stop => if p.stop = false then some { p with stop := true, notifyingAll := true } else none
  | .notifyAll =>
      if p.notifyingAll = true then
        some { p with notifyingAll := false, workers := fun w => (p.workers w).wake }
      else none

/-! ## What is under way -/

def inHand (p : ThreadPool size α) : Multiset α := ∑ w, (p.workers w).task

def Notifies (p : ThreadPool size α) : Prop := 0 < p.notifying ∨ p.notifyingAll = true

def Attends (p : ThreadPool size α) : Prop :=
  ∃ w, p.workers w = .ready ∨ ∃ task, p.workers w = .running task

/-- The invariant. A task is in the queue only while a notification is pending or a worker will look
at the queue by itself, and after `stop_` no worker stays in `wait`. -/
structure Sound (p : ThreadPool size α) : Prop where
  inOrder : p.dequeued ++ p.tasks = p.accepted
  once : (p.ran : Multiset α) + p.inHand = p.dequeued
  awake : p.tasks ≠ [] → p.Notifies ∨ p.Attends
  exited : ∀ w, p.workers w = .exited → p.stop = true ∧ p.tasks = []
  released : p.stop = true → p.notifyingAll = true ∨ ∀ w, p.workers w ≠ .blocked

variable {p p' : ThreadPool size α}

theorem workers_setWorker (p : ThreadPool size α) (w : Fin (threads size)) (x : Worker α) :
    (p.setWorker w x).workers w = x := by
  unfold setWorker
  exact Function.update_self _ _ _

theorem workers_setWorker_of_ne {w w' : Fin (threads size)} (h : w' ≠ w) (x : Worker α) :
    (p.setWorker w x).workers w' = p.workers w' := by
  unfold setWorker
  exact Function.update_of_ne h _ _

theorem inHand_setWorker (p : ThreadPool size α) (w : Fin (threads size)) (x : Worker α) :
    (p.setWorker w x).inHand + (p.workers w).task = p.inHand + x.task := by
  have hothers : ∑ v ∈ Finset.univ.erase w, ((p.setWorker w x).workers v).task =
      ∑ v ∈ Finset.univ.erase w, (p.workers v).task := by
    apply Finset.sum_congr rfl
    intro v hv
    rw [workers_setWorker_of_ne (Finset.ne_of_mem_erase hv)]
  unfold inHand
  rw [← Finset.add_sum_erase _ _ (Finset.mem_univ w), hothers, workers_setWorker,
    ← Finset.add_sum_erase Finset.univ (fun v => (p.workers v).task) (Finset.mem_univ w)]
  abel

/-! ## One step -/

inductive Takes (p : ThreadPool size α) : PoolAct size α → ThreadPool size α → Prop
  | add (task : α) : Takes p (.add task) (p.add task).1
  | notifyNone : 0 < p.notifying → (∀ w, p.workers w ≠ .blocked) →
      Takes p (.notifyOne none) p.notified
  | notifyOne {w : Fin (threads size)} : 0 < p.notifying → p.workers w = .blocked →
      Takes p (.notifyOne (some w)) (p.notified.setWorker w .ready)
  | wake {w : Fin (threads size)} : p.workers w = .blocked →
      Takes p (.wake w) (p.setWorker w .ready)
  | take {w : Fin (threads size)} : p.workers w = .ready → Takes p (.take w) (p.take w)
  | run {w : Fin (threads size)} {task : α} : p.workers w = .running task →
      Takes p (.run w) (p.run w task)
  | stop : p.stop = false → Takes p .stop { p with stop := true, notifyingAll := true }
  | notifyAll : p.notifyingAll = true →
      Takes p .notifyAll { p with notifyingAll := false, workers := fun w => (p.workers w).wake }

theorem takes_of_step {a : PoolAct size α} (hstep : p.step a = some p') : Takes p a p' := by
  cases a with
  | add task =>
      cases hstep
      exact .add task
  | notifyOne w =>
      cases w with
      | none =>
          obtain ⟨⟨hpos, hall⟩, heq⟩ := Option.ite_none_right_eq_some.1 hstep
          cases heq
          exact .notifyNone hpos fun w => Worker.isBlocked_eq_false_iff.1 (hall w)
      | some w =>
          obtain ⟨⟨hpos, hblocked⟩, heq⟩ := Option.ite_none_right_eq_some.1 hstep
          cases heq
          exact .notifyOne hpos (Worker.isBlocked_iff.1 hblocked)
  | wake w =>
      obtain ⟨hblocked, heq⟩ := Option.ite_none_right_eq_some.1 hstep
      cases heq
      exact .wake (Worker.isBlocked_iff.1 hblocked)
  | take w =>
      unfold ThreadPool.step at hstep
      dsimp only at hstep
      cases hw : p.workers w with
      | ready =>
          rw [hw] at hstep
          cases hstep
          exact .take hw
      | _ =>
          rw [hw] at hstep
          exact nomatch hstep
  | run w =>
      unfold ThreadPool.step at hstep
      dsimp only at hstep
      cases hw : p.workers w with
      | running task =>
          rw [hw] at hstep
          cases hstep
          exact .run hw
      | _ =>
          rw [hw] at hstep
          exact nomatch hstep
  | stop =>
      obtain ⟨hstop, heq⟩ := Option.ite_none_right_eq_some.1 hstep
      cases heq
      exact .stop hstop
  | notifyAll =>
      obtain ⟨hall, heq⟩ := Option.ite_none_right_eq_some.1 hstep
      cases heq
      exact .notifyAll hall

theorem inHand_setWorker_of_eq {w : Fin (threads size)} {x : Worker α}
    (h : x.task = (p.workers w).task) : (p.setWorker w x).inHand = p.inHand := by
  have hhand := p.inHand_setWorker w x
  rw [h] at hhand
  exact add_right_cancel hhand

theorem Sound.exited_setWorker (h : Sound p) {w v : Fin (threads size)} {x : Worker α}
    (hx : x ≠ .exited) (hv : (p.setWorker w x).workers v = .exited) :
    p.stop = true ∧ p.tasks = [] := by
  by_cases hvw : v = w
  · rw [hvw, workers_setWorker] at hv
    exact absurd hv hx
  · rw [workers_setWorker_of_ne hvw] at hv
    exact h.exited v hv

theorem Sound.released_setWorker (h : Sound p) {w : Fin (threads size)} {x : Worker α}
    (hx : x ≠ .blocked) (hstop : p.stop = true) :
    p.notifyingAll = true ∨ ∀ v, (p.setWorker w x).workers v ≠ .blocked := by
  rcases h.released hstop with hall | hnone
  · exact .inl hall
  · refine .inr fun v => ?_
    by_cases hvw : v = w
    · rw [hvw, workers_setWorker]
      exact hx
    · rw [workers_setWorker_of_ne hvw]
      exact hnone v

/-- With a task in the queue no worker has returned, so a worker that does not wait will look. -/
theorem Sound.attends (h : Sound p) (hne : p.tasks ≠ []) (hnone : ∀ w, p.workers w ≠ .blocked) :
    p.Attends := by
  refine ⟨⟨0, threads_pos size⟩, ?_⟩
  cases hw : p.workers ⟨0, threads_pos size⟩ with
  | ready => exact .inl rfl
  | blocked => exact absurd hw (hnone _)
  | running task => exact .inr ⟨task, rfl⟩
  | exited => exact absurd (h.exited _ hw).2 hne

theorem Sound.add (h : Sound p) (task : α) : Sound (p.add task).1 := by
  unfold ThreadPool.add
  by_cases hstop : p.stop = true
  · rw [if_pos hstop]
    exact h
  · rw [if_neg hstop]
    refine ⟨?_, h.once, fun _ => .inl (.inl (Nat.succ_pos _)), fun w hw => ?_,
      fun hno => absurd hno hstop⟩
    · show p.dequeued ++ (p.tasks ++ [task]) = p.accepted ++ [task]
      rw [← List.append_assoc, h.inOrder]
    · exact absurd (h.exited w hw).1 hstop

theorem Sound.notifyNone (h : Sound p) (hnone : ∀ w, p.workers w ≠ .blocked) :
    Sound p.notified :=
  ⟨h.inOrder, h.once, fun hne => .inr (h.attends hne hnone), h.exited, h.released⟩

theorem Sound.woken (h : Sound p) {w : Fin (threads size)} (hw : p.workers w = .blocked) (k : Nat) :
    Sound { p.setWorker w .ready with notifying := k } := by
  refine ⟨h.inOrder, ?_, fun _ => .inr ⟨w, .inl (p.workers_setWorker w .ready)⟩,
    fun v => h.exited_setWorker nofun, h.released_setWorker nofun⟩
  have hhand : (p.setWorker w .ready).inHand = p.inHand := inHand_setWorker_of_eq (by rw [hw]; rfl)
  show (p.ran : Multiset α) + (p.setWorker w .ready).inHand = p.dequeued
  rw [hhand, h.once]

/-- A worker that finds nothing goes back to `wait` or, after `stop_`, returns. -/
theorem Sound.take_nil (h : Sound p) {w : Fin (threads size)} (hw : p.workers w = .ready)
    (hnil : p.tasks = []) :
    Sound (p.setWorker w (if p.stop then .exited else .blocked)) := by
  have hhand : (p.setWorker w (if p.stop then .exited else .blocked)).inHand = p.inHand := by
    apply inHand_setWorker_of_eq
    rw [hw]
    split <;> rfl
  refine ⟨h.inOrder, ?_, fun hne => absurd hnil hne, fun v hv => ?_, fun hstop => ?_⟩
  · show (p.ran : Multiset α) + (p.setWorker w _).inHand = p.dequeued
    rw [hhand, h.once]
  · refine ⟨?_, hnil⟩
    show p.stop = true
    by_contra hstop
    rw [if_neg hstop] at hv
    have hblocked : (Worker.blocked : Worker α) ≠ .exited := nofun
    exact hstop (h.exited_setWorker hblocked hv).1
  · change p.stop = true at hstop
    rw [if_pos hstop]
    exact h.released_setWorker nofun hstop

theorem Sound.take_cons (h : Sound p) {w : Fin (threads size)} {task : α} {tasks : List α}
    (hw : p.workers w = .ready) (hcons : p.tasks = task :: tasks) :
    Sound { p.setWorker w (.running task) with
      tasks := tasks, dequeued := p.dequeued ++ [task] } := by
  have hne : p.tasks ≠ [] := by
    rw [hcons]
    exact List.cons_ne_nil _ _
  refine ⟨?_, ?_, fun _ => .inr ⟨w, .inr ⟨task, p.workers_setWorker w _⟩⟩, fun v hv => ?_,
    h.released_setWorker nofun⟩
  · show p.dequeued ++ [task] ++ tasks = p.accepted
    rw [← h.inOrder, hcons, List.append_assoc]
    rfl
  · have hhand := p.inHand_setWorker w (.running task)
    rw [hw] at hhand
    change (p.setWorker w (.running task)).inHand + 0 = p.inHand + {task} at hhand
    show (p.ran : Multiset α) + (p.setWorker w (.running task)).inHand =
      ((p.dequeued ++ [task] : List α) : Multiset α)
    rw [← Multiset.coe_add, ← h.once, Multiset.coe_singleton, add_assoc, ← hhand, add_zero]
  · have hrunning : Worker.running task ≠ .exited := nofun
    exact absurd (h.exited_setWorker hrunning hv).2 hne

theorem Sound.take (h : Sound p) {w : Fin (threads size)} (hw : p.workers w = .ready) :
    Sound (p.take w) := by
  unfold ThreadPool.take
  split
  · rename_i hnil
    exact h.take_nil hw hnil
  · rename_i hcons
    exact h.take_cons hw hcons

theorem Sound.run (h : Sound p) {w : Fin (threads size)} {task : α}
    (hw : p.workers w = .running task) : Sound (p.run w task) := by
  refine ⟨h.inOrder, ?_, fun _ => .inr ⟨w, .inl (p.workers_setWorker w .ready)⟩,
    fun v => h.exited_setWorker nofun, h.released_setWorker nofun⟩
  have hhand := p.inHand_setWorker w .ready
  rw [hw] at hhand
  change (p.setWorker w .ready).inHand + {task} = p.inHand + 0 at hhand
  show ((p.ran ++ [task] : List α) : Multiset α) + (p.setWorker w .ready).inHand = p.dequeued
  rw [← Multiset.coe_add, Multiset.coe_singleton, ← h.once, add_assoc,
    add_comm {task} (p.setWorker w .ready).inHand, hhand, add_zero]

theorem Sound.stop (h : Sound p) : Sound { p with stop := true, notifyingAll := true } :=
  ⟨h.inOrder, h.once, fun _ => .inl (.inr rfl), fun w hw => ⟨rfl, (h.exited w hw).2⟩,
    fun _ => .inl rfl⟩

theorem Sound.notifyAll (h : Sound p) :
    Sound { p with notifyingAll := false, workers := fun w => (p.workers w).wake } := by
  have hnone (w : Fin (threads size)) : (p.workers w).wake ≠ .blocked := by
    cases p.workers w <;> exact nofun
  have hexited {w : Fin (threads size)} (hw : (p.workers w).wake = .exited) :
      p.workers w = .exited := by
    cases hx : p.workers w with
    | exited => rfl
    | _ =>
        rw [hx] at hw
        exact nomatch hw
  have hhand : inHand { p with notifyingAll := false, workers := fun w => (p.workers w).wake } =
      p.inHand := by
    apply Finset.sum_congr rfl
    intro w _
    show (p.workers w).wake.task = (p.workers w).task
    cases p.workers w <;> rfl
  refine ⟨h.inOrder, ?_, fun hne => .inr ?_, fun w hw => h.exited w (hexited hw),
    fun _ => .inr hnone⟩
  · rw [hhand]
    exact h.once
  · refine ⟨⟨0, threads_pos size⟩, ?_⟩
    show (p.workers _).wake = .ready ∨ ∃ task, (p.workers _).wake = .running task
    cases hw : p.workers ⟨0, threads_pos size⟩ with
    | ready => exact .inl rfl
    | blocked => exact .inl rfl
    | running task => exact .inr ⟨task, rfl⟩
    | exited => exact absurd (h.exited _ hw).2 hne

theorem Sound.step (h : Sound p) {a : PoolAct size α} (hstep : p.step a = some p') : Sound p' := by
  cases takes_of_step hstep with
  | add task => exact h.add task
  | notifyNone _ hnone => exact h.notifyNone hnone
  | notifyOne _ hw => exact h.woken hw _
  | wake hw => exact h.woken hw _
  | take hw => exact h.take hw
  | run hw => exact h.run hw
  | stop _ => exact h.stop
  | notifyAll _ => exact h.notifyAll

/-! ## Runs -/

/-- After `stop_` it stays so. -/
theorem stop_of_step {a : PoolAct size α} (hstop : p.stop = true) (hstep : p.step a = some p') :
    p'.stop = true := by
  cases takes_of_step hstep with
  | add task =>
      unfold ThreadPool.add
      rw [if_pos hstop]
      exact hstop
  | take _ =>
      unfold ThreadPool.take
      split <;> exact hstop
  | stop _ => rfl
  | _ => exact hstop

/-- Tasks leave the queue in the order of `Add`; what has left it has been run or is in a worker's
hand; with a task in the queue not all workers are blocked without a wakeup to come; after `stop_`
every `Add` throws and changes nothing; when all workers have returned all accepted tasks have been
run; and while there is something to do the pool has a step to take. -/
structure RunsOnce (p : ThreadPool size α) : Prop where
  inOrder : p.dequeued ++ p.tasks = p.accepted
  once : (p.ran : Multiset α) + p.inHand = p.dequeued
  awake : p.tasks ≠ [] → (∀ w, p.workers w = .blocked) → p.Notifies
  refuses : p.stop = true → ∀ later p', Lib.runFrom step p later = some p' → ∀ task,
    p'.add task = (p', some ⟨"ThreadPool has been stopped"⟩)
  complete : (∀ w, p.workers w = .exited) → p.ran.Perm p.accepted
  live : p.tasks ≠ [] ∨ p.stop = true → (∃ w, p.workers w ≠ .exited) →
    ∃ a : PoolAct size α, a.ofPool = true ∧ p.step a ≠ none

theorem Notifies.live (h : p.Notifies) :
    ∃ a : PoolAct size α, a.ofPool = true ∧ p.step a ≠ none := by
  rcases h with hpos | hall
  · by_cases hnone : ∀ w, (p.workers w).isBlocked = false
    · exact ⟨.notifyOne none, rfl, by simp [ThreadPool.step, hpos, hnone]⟩
    · obtain ⟨w, hw⟩ := not_forall.1 hnone
      exact ⟨.notifyOne (some w), rfl, by simp [ThreadPool.step, hpos, hw]⟩
  · exact ⟨.notifyAll, rfl, by simp [ThreadPool.step, hall]⟩

theorem Attends.live (h : p.Attends) :
    ∃ a : PoolAct size α, a.ofPool = true ∧ p.step a ≠ none := by
  obtain ⟨w, hw | ⟨task, hw⟩⟩ := h
  · exact ⟨.take w, rfl, by simp [ThreadPool.step, hw]⟩
  · exact ⟨.run w, rfl, by simp [ThreadPool.step, hw]⟩

theorem Sound.live (h : Sound p) (hwork : p.tasks ≠ [] ∨ p.stop = true)
    (hleft : ∃ w, p.workers w ≠ .exited) :
    ∃ a : PoolAct size α, a.ofPool = true ∧ p.step a ≠ none := by
  rcases hwork with hne | hstop
  · rcases h.awake hne with hnotifies | hattends
    · exact hnotifies.live
    · exact hattends.live
  · rcases h.released hstop with hall | hnone
    · exact Notifies.live (.inr hall)
    · obtain ⟨w, hw⟩ := hleft
      apply Attends.live
      refine ⟨w, ?_⟩
      cases hx : p.workers w with
      | ready => exact .inl rfl
      | blocked => exact absurd hx (hnone w)
      | running task => exact .inr ⟨task, rfl⟩
      | exited => exact absurd hx hw

theorem Sound.complete (h : Sound p) (hexited : ∀ w, p.workers w = .exited) :
    p.ran.Perm p.accepted := by
  have hempty : p.tasks = [] := (h.exited ⟨0, threads_pos size⟩ (hexited _)).2
  have hhand : p.inHand = 0 := by
    apply Finset.sum_eq_zero
    intro w _
    rw [hexited w]
    rfl
  rw [← Multiset.coe_eq_coe, ← h.inOrder, hempty, List.append_nil, ← h.once, hhand, add_zero]

theorem Sound.runsOnce (h : Sound p) : RunsOnce p := by
  refine ⟨h.inOrder, h.once, fun hne hblocked => ?_, fun hstop later p' hrun task => ?_, h.complete,
    h.live⟩
  · rcases h.awake hne with hnotifies | ⟨w, hw⟩
    · exact hnotifies
    · rw [hblocked w] at hw
      rcases hw with hw | ⟨task, hw⟩
      · exact nomatch hw
      · exact nomatch hw
  · have hstop' : p'.stop = true :=
      Lib.runFrom_keeps (fun _ _ _ _ => stop_of_step) hstop hrun
    exact if_pos hstop'

theorem sound_init : Sound ({} : ThreadPool size α) := by
  refine ⟨rfl, ?_, fun hno => absurd rfl hno, fun _ hno => ?_, fun hno => ?_⟩
  · have hhand : inHand ({} : ThreadPool size α) = 0 := Finset.sum_eq_zero fun _ _ => rfl
    rw [hhand]
    rfl
  · cases hno
  · cases hno

/-- **Thread pool.** Whatever the number of workers and the order of `Add`, the workers' sections,
the notifications, spurious wakeups and the destructor, each accepted task is run once. -/
theorem runsOnce_of_run (size : Nat) (acts : List (PoolAct size α)) :
    Lib.Always step RunsOnce ({} : ThreadPool size α) acts :=
  (Lib.always_of_keeps (fun _ _ _ h => h.step) sound_init acts).mono fun _ h => h.runsOnce

/-- The destructor comes between `Add` and its notification. -/
example : ∀ w : Fin (threads 0),
    (Lib.runFrom step ({} : ThreadPool 0 Nat)
      [.take w, .add 1, .stop, .notifyOne (some w), .take w, .add 2, .run w, .notifyAll,
        .take w]).map (fun p => (p.accepted, p.ran)) = some ([1], [1]) := by decide

end ThreadPool

end CPlusServer

import CPlusServer.Basic
import CPlusServer.Lib.Run
import Mathlib.Data.List.Infix

/-!
# EventLoop

`QueueOneFunc` from any thread, each call one section under the mutex, against the
steps of `Loop`. An eventfd wakes the loop: every write adds one to its counter, a
read takes the whole counter, and epoll reports it as readable while the counter
is positive. The vector that `DoToDoList` swaps `to_do_list_` into is kept until
its last functor has run, and with it what the functors hold.
-/

namespace CPlusServer

/-! ## The functors -/

/-- `it` counts the functors that have run; the one that runs is counted when it is over. -/
structure ToDo (α : Type) where
  toDoList : List α := []
  functors : List α := []
  it : Nat := 0
  deriving DecidableEq

namespace ToDo

variable {α : Type}

def queueOneFunc (q : ToDo α) (cb : α) : ToDo α := { q with toDoList := q.toDoList ++ [cb] }

def swap (q : ToDo α) : ToDo α := ⟨[], q.toDoList, 0⟩

def next (q : ToDo α) : Option α := q.functors[q.it]?

def advance (q : ToDo α) : ToDo α := { q with it := q.it + 1 }

def finish (q : ToDo α) : ToDo α := { q with functors := [], it := 0 }

def pending (q : ToDo α) : List α := q.functors.drop q.it ++ q.toDoList

/-- What the functors hold, those that have run included. -/
def held (q : ToDo α) : List α := q.functors ++ q.toDoList

@[simp] theorem pending_queueOneFunc (q : ToDo α) (cb : α) :
    (q.queueOneFunc cb).pending = q.pending ++ [cb] := by
  simp [pending, queueOneFunc]

@[simp] theorem held_queueOneFunc (q : ToDo α) (cb : α) :
    (q.queueOneFunc cb).held = q.held ++ [cb] := by
  simp [held, queueOneFunc]

theorem pending_of_next {q : ToDo α} {cb : α} (h : q.next = some cb) :
    q.pending = cb :: q.advance.pending := by
  rcases List.getElem?_eq_some_iff.1 h with ⟨hi, hcb⟩
  unfold pending advance
  rw [List.drop_eq_getElem_cons hi, hcb]
  rfl

theorem pending_finish {q : ToDo α} (h : q.next = none) : q.finish.pending = q.pending := by
  unfold pending finish
  rw [List.drop_eq_nil_of_le (List.getElem?_eq_none_iff.1 h)]
  rfl

theorem pending_swap {q : ToDo α} (h : q.functors = []) : q.swap.pending = q.pending := by
  simp [pending, swap, h]

theorem held_swap {q : ToDo α} (h : q.functors = []) : q.swap.held = q.held := by
  simp [held, swap, h]

theorem held_finish_subset (q : ToDo α) : q.finish.held ⊆ q.held :=
  List.subset_append_right q.functors q.toDoList

theorem pending_subset_held (q : ToDo α) : q.pending ⊆ q.held := by
  intro cb hcb
  rcases List.mem_append.1 hcb with hcb | hcb
  · exact List.mem_append_left _ (List.mem_of_mem_drop hcb)
  · exact List.mem_append_right _ hcb

end ToDo

/-! ## The loop and its wakeup -/

/-- Where `Loop` is: in `Poll`, at the handlers of a batch, in `DoToDoList` before the swap,
between two functors, or in one. -/
inductive LoopPc
  | poll | handlers | calling | functors | inFunctor
  deriving DecidableEq

inductive WakeupFault
  | write | read
  deriving DecidableEq

/-- A write that would bring the counter of an eventfd above this value fails. -/
def EVENTFD_MAX : Nat := 2 ^ 64 - 2

/-- `counter` is that of `wakeup_fd_`, and `wakeupReady` says that the wakeup channel is still in
the batch. `queued` and `executed` are history: what was queued, in the order of the sections
under the mutex, and what the loop has called. -/
structure EventLoop (α : Type) where
  pc : LoopPc := .poll
  toDo : ToDo α := {}
  callingFunctors : Bool := false
  counter : Nat := 0
  wakeupReady : Bool := false
  exited : Option WakeupFault := none
  queued : List α := []
  executed : List α := []

namespace EventLoop

variable {α : Type}

/-! ## The operations -/

def wakeup (l : EventLoop α) : EventLoop α :=
  if l.counter < EVENTFD_MAX then { l with counter := l.counter + 1 }
  else { l with exited := some .write }

/-- `own` is `IsInLoopThread()`. -/
def queueOneFunc (l : EventLoop α) (own : Bool) (cb : α) : EventLoop α :=
  let l := { l with toDo := l.toDo.queueOneFunc cb, queued := l.queued ++ [cb] }
  if !own || l.callingFunctors then l.wakeup else l

/-- In the loop's own thread `cb` is called in place, and what it queues are calls of
that thread. -/
def runOneFunc (l : EventLoop α) (own : Bool) (cb : α) : EventLoop α :=
  if own then l else l.queueOneFunc own cb

/-- The eventfd is non-blocking, so a read at 0 fails. -/
def handleRead (l : EventLoop α) : EventLoop α :=
  if l.counter = 0 then { l with exited := some .read }
  else { l with counter := 0, wakeupReady := false }

def InCallback (l : EventLoop α) : Prop := l.pc = .handlers ∨ l.pc = .inFunctor

instance (l : EventLoop α) : Decidable l.InCallback := inferInstanceAs (Decidable (_ ∨ _))

end EventLoop

/-- `poll` carries whether the wakeup channel is in the batch, `ret` is the return of a functor, and
`finish` the end of `DoToDoList`. -/
inductive LoopAct (α : Type)
  | queueOneFunc (own : Bool) (cb : α)
  | runOneFunc (own : Bool) (cb : α)
  | poll (wakeup : Bool)
  | handleRead
  | doToDoList
  | swap
  | run
  | ret
  | finish

namespace LoopAct

variable {α : Type}

def ofLoop : LoopAct α → Bool
  | .queueOneFunc _ _ | .runOneFunc _ _ => false
  | _ => true

def isFinish : LoopAct α → Bool
  | .finish => true
  | _ => false

end LoopAct

namespace EventLoop

variable {α : Type}

/-- None where the step cannot be taken. A batch without the wakeup channel is one of other
channels, or of so many that `epoll_wait` has left it for the next call. -/
def step (l : EventLoop α) (a : LoopAct α) : Option (EventLoop α) :=
  if l.exited = none then
    match a with
    | .queueOneFunc own cb =>
        if own = true → l.InCallback then some (l.queueOneFunc own cb) else none
    | .runOneFunc own cb =>
        if own = true → l.InCallback then some (l.runOneFunc own cb) else none
    | .poll wakeup =>
        if l.pc = .poll ∧ (wakeup = true → 0 < l.counter) then
          some { l with pc := .handlers, wakeupReady := wakeup }
        else none
    | .handleRead =>
        if l.pc = .handlers ∧ l.wakeupReady = true then some l.handleRead else none
    | .doToDoList =>
        if l.pc = .handlers ∧ l.wakeupReady = false then
          some { l with pc := .calling, callingFunctors := true }
        else none
    | .swap =>
        if l.pc = .calling then some { l with pc := .functors, toDo := l.toDo.swap } else none
    | .run =>
        if l.pc = .functors then
          l.toDo.next.map fun cb => { l with pc := .inFunctor, executed := l.executed ++ [cb] }
        else none
    | .ret =>
        if l.pc = .inFunctor then some { l with pc := .functors, toDo := l.toDo.advance }
        else none
    | .finish =>
        if l.pc = .functors ∧ l.toDo.next = none then
          some { l with pc := .poll, callingFunctors := false, toDo := l.toDo.finish }
        else none
  else none

/-! ## What is still to come -/

def vector (l : EventLoop α) : List α :=
  if l.pc = .inFunctor then l.toDo.functors.drop (l.toDo.it + 1)
  else l.toDo.functors.drop l.toDo.it

def taken (l : EventLoop α) : List α := l.executed ++ l.vector

def waiting (l : EventLoop α) : List α := l.vector ++ l.toDo.toDoList

def AfterSwap (l : EventLoop α) : Prop := l.pc = .functors ∨ l.pc = .inFunctor

/-- The invariant. From the swap to the next `Poll` nothing reads the eventfd, and both kinds of
callers write it, the loop's own thread because of the flag. -/
structure Sound (l : EventLoop α) : Prop where
  inOrder : l.taken ++ l.toDo.toDoList = l.queued
  awake : l.pc = .poll ∨ l.AfterSwap → l.toDo.toDoList ≠ [] → 0 < l.counter
  flag : l.pc = .calling ∨ l.AfterSwap → l.callingFunctors = true
  ready : l.wakeupReady = true → 0 < l.counter
  empty : ¬ l.AfterSwap → l.toDo.functors = []
  exited : l.exited ≠ some .read

variable {l l' : EventLoop α}

/-! ## One step -/

/-- What a call of `QueueOneFunc` does: only the eventfd depends on the caller. -/
theorem queueOneFunc_eq (l : EventLoop α) (own : Bool) (cb : α) :
    ∃ k e, l.queueOneFunc own cb = { l with
        toDo := l.toDo.queueOneFunc cb, queued := l.queued ++ [cb], counter := k, exited := e } ∧
      l.counter ≤ k ∧ (own = false ∨ l.callingFunctors = true → 0 < k) ∧
      (e = l.exited ∨ e = some .write) := by
  unfold queueOneFunc
  dsimp only
  by_cases hwrite : (!own || l.callingFunctors) = true
  · rw [if_pos hwrite]
    unfold wakeup
    dsimp only
    by_cases hroom : l.counter < EVENTFD_MAX
    · rw [if_pos hroom]
      exact ⟨_, _, rfl, Nat.le_succ _, fun _ => Nat.succ_pos _, .inl rfl⟩
    · rw [if_neg hroom]
      have hpos : 0 < EVENTFD_MAX := by decide
      exact ⟨_, _, rfl, Nat.le_refl _, fun _ => by omega, .inr rfl⟩
  · rw [if_neg hwrite]
    refine ⟨_, _, rfl, Nat.le_refl _, fun hcaller => ?_, .inl rfl⟩
    apply absurd _ hwrite
    rcases hcaller with hown | hflag
    · simp [hown]
    · simp [hflag]

theorem Sound.queueOneFunc (h : Sound l) {own : Bool} (hown : own = true → l.InCallback) (cb : α) :
    Sound (l.queueOneFunc own cb) := by
  obtain ⟨k, e, heq, hle, hpos, he⟩ := l.queueOneFunc_eq own cb
  rw [heq]
  refine ⟨?_, fun hpc _ => ?_, h.flag, fun hready => Nat.lt_of_lt_of_le (h.ready hready) hle,
    h.empty, ?_⟩
  · show l.taken ++ (l.toDo.toDoList ++ [cb]) = l.queued ++ [cb]
    rw [← List.append_assoc, h.inOrder]
  · apply hpos
    cases own with
    | false => exact .inl rfl
    | true =>
        -- handlers run before the swap, so the caller is a functor
        rcases hown rfl with hin | hin
        · change l.pc = .poll ∨ l.pc = .functors ∨ l.pc = .inFunctor at hpc
          simp [hin] at hpc
        · exact .inr (h.flag (.inr (.inr hin)))
  · rcases he with rfl | rfl
    · exact h.exited
    · simp

theorem Sound.handleRead (h : Sound l) (hpc : l.pc = .handlers) (hready : l.wakeupReady = true) :
    Sound l.handleRead := by
  have hpos := h.ready hready
  unfold EventLoop.handleRead
  rw [if_neg (by omega)]
  exact ⟨h.inOrder, by simp [AfterSwap, hpc], h.flag, by simp, h.empty, h.exited⟩

theorem Sound.poll (h : Sound l) {wakeup : Bool} (hpc : l.pc = .poll)
    (hwakeup : wakeup = true → 0 < l.counter) :
    Sound { l with pc := .handlers, wakeupReady := wakeup } := by
  have hempty : l.toDo.functors = [] := h.empty (by simp [AfterSwap, hpc])
  refine ⟨?_, by simp [AfterSwap], by simp [AfterSwap], hwakeup, fun _ => hempty, h.exited⟩
  rw [← h.inOrder]
  simp [taken, vector, hempty]

theorem Sound.doToDoList (h : Sound l) (hpc : l.pc = .handlers) :
    Sound { l with pc := .calling, callingFunctors := true } := by
  have hempty : l.toDo.functors = [] := h.empty (by simp [AfterSwap, hpc])
  refine ⟨?_, by simp [AfterSwap], fun _ => rfl, h.ready, fun _ => hempty, h.exited⟩
  rw [← h.inOrder]
  simp [taken, vector, hempty]

/-- After the swap everything queued so far has been taken. -/
theorem Sound.taken_swap (h : Sound l) (hpc : l.pc = .calling) :
    taken { l with pc := .functors, toDo := l.toDo.swap } = l.queued := by
  have hempty : l.toDo.functors = [] := h.empty (by simp [AfterSwap, hpc])
  rw [← h.inOrder]
  simp [taken, vector, ToDo.swap, hempty]

theorem Sound.swap (h : Sound l) (hpc : l.pc = .calling) :
    Sound { l with pc := .functors, toDo := l.toDo.swap } := by
  refine ⟨?_, fun _ hno => absurd rfl hno, fun _ => h.flag (.inl hpc), h.ready,
    by simp [AfterSwap], h.exited⟩
  rw [h.taken_swap hpc]
  simp [ToDo.swap]

theorem taken_run {cb : α} (hpc : l.pc = .functors) (hnext : l.toDo.next = some cb) :
    taken { l with pc := .inFunctor, executed := l.executed ++ [cb] } = l.taken := by
  obtain ⟨hlt, hcb⟩ := List.getElem?_eq_some_iff.1 hnext
  have hdrop : l.toDo.functors.drop l.toDo.it = cb :: l.toDo.functors.drop (l.toDo.it + 1) := by
    rw [List.drop_eq_getElem_cons hlt, hcb]
  simp [taken, vector, hpc, hdrop]

theorem Sound.run (h : Sound l) {cb : α} (hpc : l.pc = .functors) (hnext : l.toDo.next = some cb) :
    Sound { l with pc := .inFunctor, executed := l.executed ++ [cb] } := by
  refine ⟨?_, fun _ => h.awake (.inr (.inl hpc)), fun _ => h.flag (.inr (.inl hpc)), h.ready,
    by simp [AfterSwap], h.exited⟩
  rw [taken_run hpc hnext]
  exact h.inOrder

theorem taken_ret (hpc : l.pc = .inFunctor) :
    taken { l with pc := .functors, toDo := l.toDo.advance } = l.taken := by
  simp [taken, vector, hpc, ToDo.advance]

theorem Sound.ret (h : Sound l) (hpc : l.pc = .inFunctor) :
    Sound { l with pc := .functors, toDo := l.toDo.advance } := by
  refine ⟨?_, fun _ => h.awake (.inr (.inr hpc)), fun _ => h.flag (.inr (.inr hpc)), h.ready,
    by simp [AfterSwap], h.exited⟩
  rw [taken_ret hpc]
  exact h.inOrder

/-- At the end of `DoToDoList` everything taken has been called. -/
theorem taken_finish (hpc : l.pc = .functors) (hnext : l.toDo.next = none) :
    l.taken = l.executed := by
  have hend : l.toDo.functors.length ≤ l.toDo.it := List.getElem?_eq_none_iff.1 hnext
  simp [taken, vector, hpc, hend]

theorem Sound.finish (h : Sound l) (hpc : l.pc = .functors) (hnext : l.toDo.next = none) :
    Sound { l with pc := .poll, callingFunctors := false, toDo := l.toDo.finish } := by
  refine ⟨?_, fun _ => h.awake (.inr (.inl hpc)), by simp [AfterSwap], h.ready, fun _ => rfl,
    h.exited⟩
  have hinOrder := h.inOrder
  rw [taken_finish hpc hnext] at hinOrder
  simpa [taken, vector, ToDo.finish] using hinOrder

/-- What a step does, with what it presupposes. -/
inductive Takes (l : EventLoop α) : LoopAct α → EventLoop α → Prop
  | queueOneFunc {own : Bool} {cb : α} : (own = true → l.InCallback) →
      Takes l (.queueOneFunc own cb) (l.queueOneFunc own cb)
  | runOneFunc {own : Bool} {cb : α} : (own = true → l.InCallback) →
      Takes l (.runOneFunc own cb) (l.runOneFunc own cb)
  | poll {wakeup : Bool} : l.pc = .poll → (wakeup = true → 0 < l.counter) →
      Takes l (.poll wakeup) { l with pc := .handlers, wakeupReady := wakeup }
  | handleRead : l.pc = .handlers → l.wakeupReady = true → Takes l .handleRead l.handleRead
  | doToDoList : l.pc = .handlers →
      Takes l .doToDoList { l with pc := .calling, callingFunctors := true }
  | swap : l.pc = .calling → Takes l .swap { l with pc := .functors, toDo := l.toDo.swap }
  | run {cb : α} : l.pc = .functors → l.toDo.next = some cb →
      Takes l .run { l with pc := .inFunctor, executed := l.executed ++ [cb] }
  | ret : l.pc = .inFunctor → Takes l .ret { l with pc := .functors, toDo := l.toDo.advance }
  | finish : l.pc = .functors → l.toDo.next = none →
      Takes l .finish { l with pc := .poll, callingFunctors := false, toDo := l.toDo.finish }

theorem takes_of_step {a : LoopAct α} (hstep : l.step a = some l') : Takes l a l' := by
  unfold EventLoop.step at hstep
  split at hstep
  · cases a with
    | queueOneFunc own cb =>
        obtain ⟨hown, heq⟩ := Option.ite_none_right_eq_some.1 hstep
        cases heq
        exact .queueOneFunc hown
    | runOneFunc own cb =>
        obtain ⟨hown, heq⟩ := Option.ite_none_right_eq_some.1 hstep
        cases heq
        exact .runOneFunc hown
    | poll wakeup =>
        obtain ⟨⟨hpc, hwakeup⟩, heq⟩ := Option.ite_none_right_eq_some.1 hstep
        cases heq
        exact .poll hpc hwakeup
    | handleRead =>
        obtain ⟨⟨hpc, hready⟩, heq⟩ := Option.ite_none_right_eq_some.1 hstep
        cases heq
        exact .handleRead hpc hready
    | doToDoList =>
        obtain ⟨⟨hpc, -⟩, heq⟩ := Option.ite_none_right_eq_some.1 hstep
        cases heq
        exact .doToDoList hpc
    | swap =>
        obtain ⟨hpc, heq⟩ := Option.ite_none_right_eq_some.1 hstep
        cases heq
        exact .swap hpc
    | run =>
        obtain ⟨hpc, heq⟩ := Option.ite_none_right_eq_some.1 hstep
        obtain ⟨cb, hnext, heq⟩ := Option.map_eq_some_iff.1 heq
        cases heq
        exact .run hpc hnext
    | ret =>
        obtain ⟨hpc, heq⟩ := Option.ite_none_right_eq_some.1 hstep
        cases heq
        exact .ret hpc
    | finish =>
        obtain ⟨⟨hpc, hnext⟩, heq⟩ := Option.ite_none_right_eq_some.1 hstep
        cases heq
        exact .finish hpc hnext
  · exact nomatch hstep

theorem Sound.runOneFunc (h : Sound l) {own : Bool} (hown : own = true → l.InCallback) (cb : α) :
    Sound (l.runOneFunc own cb) := by
  unfold EventLoop.runOneFunc
  split
  · exact h
  · exact h.queueOneFunc hown cb

theorem Sound.step (h : Sound l) {a : LoopAct α} (hstep : l.step a = some l') : Sound l' := by
  cases takes_of_step hstep with
  | queueOneFunc hown => exact h.queueOneFunc hown _
  | runOneFunc hown => exact h.runOneFunc hown _
  | poll hpc hwakeup => exact h.poll hpc hwakeup
  | handleRead hpc hready => exact h.handleRead hpc hready
  | doToDoList hpc => exact h.doToDoList hpc
  | swap hpc => exact h.swap hpc
  | run hpc hnext => exact h.run hpc hnext
  | ret hpc => exact h.ret hpc
  | finish hpc hnext => exact h.finish hpc hnext

/-! ## Progress -/

structure Advance (l : EventLoop α) (a : LoopAct α) (l' : EventLoop α) : Prop where
  executed : l.executed <+: l'.executed
  taken : l.taken <+: l'.taken
  queued : l.queued <+: l'.queued
  swap : ¬ l.AfterSwap → ¬ l'.AfterSwap ∨ l.queued <+: l'.taken
  finish : a.isFinish = true → l.taken <+: l'.executed ∧ l.AfterSwap ∧ ¬ l'.AfterSwap

theorem Advance.of {a : LoopAct α} (hfinish : a.isFinish = false)
    (hexecuted : l.executed <+: l'.executed) (htaken : l'.taken = l.taken)
    (hqueued : l.queued <+: l'.queued) (hswap : l'.AfterSwap → l.AfterSwap) : Advance l a l' := by
  refine ⟨hexecuted, ?_, hqueued, fun hbefore => .inl fun hafter => hbefore (hswap hafter), ?_⟩
  · rw [htaken]
  · intro hno
    rw [hfinish] at hno
    exact nomatch hno

theorem Sound.advance_queueOneFunc {a : LoopAct α} (hfinish : a.isFinish = false) (own : Bool)
    (cb : α) : Advance l a (l.queueOneFunc own cb) := by
  obtain ⟨k, e, heq, -⟩ := l.queueOneFunc_eq own cb
  rw [heq]
  exact .of hfinish (List.prefix_refl _) rfl (List.prefix_append _ _) id

theorem Sound.advance (h : Sound l) {a : LoopAct α} (hstep : l.step a = some l') :
    Advance l a l' := by
  cases takes_of_step hstep with
  | queueOneFunc => exact advance_queueOneFunc rfl _ _
  | runOneFunc =>
      unfold EventLoop.runOneFunc
      split
      · exact .of rfl (List.prefix_refl _) rfl (List.prefix_refl _) id
      · exact advance_queueOneFunc rfl _ _
  | poll hpc =>
      refine .of rfl (List.prefix_refl _) ?_ (List.prefix_refl _) (by simp [AfterSwap])
      simp [EventLoop.taken, vector, hpc]
  | handleRead =>
      unfold EventLoop.handleRead
      split <;> exact .of rfl (List.prefix_refl _) rfl (List.prefix_refl _) id
  | doToDoList hpc =>
      refine .of rfl (List.prefix_refl _) ?_ (List.prefix_refl _) (by simp [AfterSwap])
      simp [EventLoop.taken, vector, hpc]
  | swap hpc =>
      have htaken := h.taken_swap hpc
      refine ⟨List.prefix_refl _, ?_, List.prefix_refl _, fun _ => .inr ?_,
        fun hno => nomatch hno⟩
      · rw [htaken, ← h.inOrder]
        exact List.prefix_append _ _
      · rw [htaken]
  | run hpc hnext =>
      exact .of rfl (List.prefix_append _ _) (taken_run hpc hnext) (List.prefix_refl _)
        fun _ => .inl hpc
  | ret hpc =>
      exact .of rfl (List.prefix_refl _) (taken_ret hpc) (List.prefix_refl _) fun _ => .inr hpc
  | finish hpc hnext =>
      have htaken := taken_finish hpc hnext
      refine ⟨List.prefix_refl _, ?_, List.prefix_refl _, fun hno => absurd (.inl hpc) hno,
        fun _ => ⟨?_, .inl hpc, by simp [AfterSwap]⟩⟩
      · rw [htaken]
        exact List.prefix_append _ _
      · rw [htaken]

/-- `q` will have been called when `Loop` has come to the end of `DoToDoList` another `k` times. -/
def Within (q : List α) (l : EventLoop α) : Nat → Prop
  | 0 => q <+: l.executed
  | 1 => q <+: l.taken ∨ ¬ l.AfterSwap ∧ q <+: l.queued
  | _ => q <+: l.queued

theorem Within.step {q : List α} {k : Nat} {a : LoopAct α} (h : Within q l k)
    (ha : Advance l a l') : Within q l' (if a.isFinish then k - 1 else k) := by
  by_cases hfinish : a.isFinish = true
  · obtain ⟨htaken, hafter, hbefore⟩ := ha.finish hfinish
    rw [if_pos hfinish]
    match k, h with
    | 0, h => exact h.trans ha.executed
    | 1, h => exact (h.resolve_right fun hno => hno.1 hafter).trans htaken
    | 2, h => exact .inr ⟨hbefore, h.trans ha.queued⟩
    | k + 3, h => exact h.trans ha.queued
  · rw [if_neg hfinish]
    match k, h with
    | 0, h => exact h.trans ha.executed
    | 1, .inl h => exact .inl (h.trans ha.taken)
    | 1, .inr ⟨hbefore, h⟩ =>
        rcases ha.swap hbefore with hswap | hswap
        · exact .inr ⟨hswap, h.trans ha.queued⟩
        · exact .inl (h.trans hswap)
    | k + 2, h => exact h.trans ha.queued

theorem Within.runFrom {q : List α} {k : Nat} {later : List (LoopAct α)} (hs : Sound l)
    (h : Within q l k) (hrun : Lib.runFrom EventLoop.step l later = some l') :
    Within q l' (k - later.countP LoopAct.isFinish) := by
  induction later generalizing l k with
  | nil =>
      cases hrun
      exact h
  | cons a later ih =>
      obtain ⟨l₁, hstep, hrun⟩ := Option.bind_eq_some_iff.1 hrun
      have hlast := ih (hs.step hstep) (h.step (hs.advance hstep)) hrun
      rw [List.countP_cons]
      by_cases hfinish : a.isFinish = true
      · rw [if_pos hfinish] at hlast ⊢
        rwa [Nat.sub_sub, Nat.add_comm] at hlast
      · rw [if_neg hfinish] at hlast ⊢
        exact hlast

/-! ## Runs -/

/-- `executed` is what was queued, in order, up to what waits; with a functor waiting the eventfd
is readable at `Poll`; no read of it has failed; what has been queued so far has been called when
`Loop` has come to the end of `DoToDoList` twice more; and with a functor waiting `Loop` has a step
to take. -/
structure Served (l : EventLoop α) : Prop where
  once : l.executed ++ l.waiting = l.queued
  awake : l.pc = .poll → l.toDo.toDoList ≠ [] → 0 < l.counter
  reads : l.exited ≠ some .read
  prompt : ∀ later l', Lib.runFrom step l later = some l' →
    2 ≤ later.countP LoopAct.isFinish → l.queued <+: l'.executed
  live : l.exited = none → l.waiting ≠ [] → ∃ a : LoopAct α, a.ofLoop = true ∧ l.step a ≠ none

/-- `Loop` waits in `Poll` only. -/
theorem Sound.live (h : Sound l) (hrunning : l.exited = none) (hwaiting : l.waiting ≠ []) :
    ∃ a : LoopAct α, a.ofLoop = true ∧ l.step a ≠ none := by
  cases hpc : l.pc with
  | poll =>
      have hempty : l.toDo.functors = [] := h.empty (by simp [AfterSwap, hpc])
      have hpos : 0 < l.counter := by
        apply h.awake (.inl hpc)
        simpa [waiting, vector, hempty] using hwaiting
      exact ⟨.poll true, rfl, by simp [EventLoop.step, hrunning, hpc, hpos]⟩
  | handlers =>
      by_cases hready : l.wakeupReady = true
      · exact ⟨.handleRead, rfl, by simp [EventLoop.step, hrunning, hpc, hready]⟩
      · exact ⟨.doToDoList, rfl, by simp [EventLoop.step, hrunning, hpc, hready]⟩
  | calling => exact ⟨.swap, rfl, by simp [EventLoop.step, hrunning, hpc]⟩
  | functors =>
      cases hnext : l.toDo.next with
      | none => exact ⟨.finish, rfl, by simp [EventLoop.step, hrunning, hpc, hnext]⟩
      | some cb => exact ⟨.run, rfl, by simp [EventLoop.step, hrunning, hpc, hnext]⟩
  | inFunctor => exact ⟨.ret, rfl, by simp [EventLoop.step, hrunning, hpc]⟩

theorem Sound.served (h : Sound l) : Served l := by
  refine ⟨?_, fun hpc => h.awake (.inl hpc), h.exited, fun later l' hrun hcount => ?_, h.live⟩
  · rw [← h.inOrder]
    simp [taken, waiting]
  · have hlast := Within.runFrom (k := 2) h (List.prefix_refl l.queued) hrun
    rwa [Nat.sub_eq_zero_of_le hcount] at hlast

theorem sound_init : Sound ({} : EventLoop α) :=
  ⟨rfl, fun _ hno => absurd rfl hno, by simp [AfterSwap], by simp, fun _ => rfl, by simp⟩

/-- **Task queue.** Whatever the order in which threads, handlers and functors queue, each functor
is called once, by the loop, in the order of queueing, and no wakeup is lost. -/
theorem served_of_run (acts : List (LoopAct α)) :
    Lib.Always step Served ({} : EventLoop α) acts :=
  (Lib.always_of_keeps (fun _ _ _ h => h.step) sound_init acts).mono fun _ h => h.served

/-- A functor queues another, which runs in the next round. -/
example : (Lib.runFrom step ({} : EventLoop Nat)
    [.queueOneFunc false 1, .poll true, .handleRead, .doToDoList, .swap, .run, .queueOneFunc true 2,
      .ret, .finish, .poll true, .handleRead, .doToDoList, .swap, .run, .ret, .finish]).map executed =
    some [1, 2] := by decide

end EventLoop

end CPlusServer

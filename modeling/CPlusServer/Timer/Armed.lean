import CPlusServer.Timer.NoLoss

/-!
# How the timerfd is set

The timerfd expires once for each setting, and `ReadTimerfd` takes the expiry,
so that from the first line of `HandleTimers` nothing is set until an `Insert`
or the last line of `ResetTimers` sets it again. The wall clock and the clock of
the timerfd advance together here: a setting counts from the time of
`TimeStamp::Now()` in `ResetTimerfd`.
-/

namespace CPlusServer

namespace Itimerspec

def nanoseconds (s : Itimerspec) : Int := s.tvSec * 1000000000 + s.tvNsec

/-- A value that `timerfd_settime` takes and that does not disarm. -/
def Arms (s : Itimerspec) : Prop :=
  (s.tvSec ≠ 0 ∨ s.tvNsec ≠ 0) ∧ 0 ≤ s.tvSec ∧ 0 ≤ s.tvNsec ∧ s.tvNsec < 1000000000

end Itimerspec

namespace TimeQueue

/-- `ReadTimerfd` where there is an expiry to read. -/
def readTimerfd (q : TimeQueue) : TimeQueue := { q with timerfd := none }

/-- The timerfd is set and its expiry has not been read. It expires by the deadline, given in
microseconds, or, where that is later, 100 microseconds after it was set. -/
def ArmedBy (q : TimeQueue) (deadline : Int) : Prop :=
  ∃ s now, q.timerfd = some (s, now) ∧
    now * 1000 + s.nanoseconds ≤ max deadline (now + 100) * 1000

def ArmedEarly (q : TimeQueue) : Prop := ∀ e ∈ q.timers, q.ArmedBy e.timestamp

/-- The last value passed to `timerfd_settime` and not read since is one that arms. -/
def SetToArm (q : TimeQueue) : Prop := ∀ s now, q.timerfd = some (s, now) → s.Arms

theorem ArmedBy.mono {q : TimeQueue} {d d' : Int} (hle : d ≤ d') (h : q.ArmedBy d) :
    q.ArmedBy d' := by
  rcases h with ⟨s, now, hset, hexp⟩
  refine ⟨s, now, hset, ?_⟩
  omega

/-! ## One setting -/

/-- The value set is never 0 and lasts to the new time or for 100 microseconds. -/
theorem resetTimerfd_set (q : TimeQueue) (newTime now : Int) :
    ∃ s : Itimerspec, (q.resetTimerfd newTime now).timerfd = some (s, now) ∧ s.Arms ∧
      now * 1000 + s.nanoseconds = max newTime (now + 100) * 1000 := by
  refine ⟨_, rfl, ?_⟩
  simp only [Itimerspec.Arms, Itimerspec.nanoseconds, MICROSECOND_2_SECOND]
  have hdif : 100 ≤ if newTime - now < 100 then 100 else newTime - now := by
    split <;> omega
  have hsum : now + (if newTime - now < 100 then 100 else newTime - now) =
      max newTime (now + 100) := by
    split <;> omega
  generalize (if newTime - now < 100 then 100 else newTime - now) = dif at hdif hsum
  rw [Int.tdiv_eq_ediv_of_nonneg (by omega), Int.tmod_eq_emod_of_nonneg (by omega), ← hsum]
  omega

theorem resetTimerfd_setToArm (q : TimeQueue) (newTime now : Int) :
    (q.resetTimerfd newTime now).SetToArm := by
  rcases resetTimerfd_set q newTime now with ⟨s, hset, harms, -⟩
  intro s' now' hset'
  rw [hset] at hset'
  cases hset'
  exact harms

theorem resetTimerfd_armedBy (q : TimeQueue) (newTime now : Int) :
    (q.resetTimerfd newTime now).ArmedBy newTime := by
  rcases resetTimerfd_set q newTime now with ⟨s, hset, -, hexp⟩
  exact ⟨s, now, hset, le_of_eq hexp⟩

theorem timestamp_le_of_sorted {e : Entry} {es : List Entry} (h : Lib.Sorted Entry.key (e :: es)) :
    ∀ e' ∈ e :: es, e.timestamp ≤ e'.timestamp := by
  intro e' he'
  rcases List.mem_cons.1 he' with heq | hmem
  · rw [heq]
  · have hlt : e.key < e'.key := (List.pairwise_cons.1 h).1 e' hmem
    exact timestamp_le_of_key_lt hlt

theorem resetToFirst_armedEarly {q : TimeQueue} (h : Lib.Sorted Entry.key q.timers) (now : Int) :
    (q.resetToFirst now).ArmedEarly := by
  intro e he
  rw [resetToFirst_timers] at he
  unfold resetToFirst
  cases hq : q.timers with
  | nil =>
      rw [hq] at he
      exact absurd he List.not_mem_nil
  | cons first rest =>
      rw [hq] at he h
      exact (resetTimerfd_armedBy q first.timestamp now).mono (timestamp_le_of_sorted h e he)

theorem SetToArm.resetToFirst {q : TimeQueue} (h : q.SetToArm) (now : Int) :
    (q.resetToFirst now).SetToArm := by
  unfold TimeQueue.resetToFirst
  split
  · exact h
  · exact resetTimerfd_setToArm q _ now

/-! ## The calls -/

theorem insert_setToArm {q : TimeQueue} (h : q.SetToArm) (t : Timer) (now : Int) :
    (q.insert t now).SetToArm := by
  have hinserted : (q.insertTimer t).1.SetToArm := h
  unfold insert
  dsimp only
  split
  · exact hinserted.resetToFirst now
  · exact hinserted

/-- A timer that is not the earliest leaves the timerfd as it is, and the earliest deadline too. -/
theorem ArmedEarly.insertTimer {q : TimeQueue} (h : q.ArmedEarly)
    (hsorted : Lib.Sorted Entry.key q.timers) {t : Timer} (hreset : ¬ (q.insertTimer t).2 = true) :
    (q.insertTimer t).1.ArmedEarly := by
  intro e he
  cases hq : q.timers with
  | nil => simp [TimeQueue.insertTimer, hq] at hreset
  | cons first rest =>
      have hfirst : q.ArmedBy first.timestamp := h first (by simp [hq])
      have hlate : first.timestamp ≤ t.timestamp := by
        simpa [TimeQueue.insertTimer, hq] using hreset
      rw [hq] at hsorted
      rw [insertTimer_timers, hq] at he
      rcases Lib.mem_of_mem_emplace he with heq | hmem
      · rw [heq]
        exact hfirst.mono hlate
      · exact hfirst.mono (timestamp_le_of_sorted hsorted e hmem)

theorem ArmedEarly.insert {q : TimeQueue} (h : q.ArmedEarly)
    (hsorted : Lib.Sorted Entry.key q.timers) (t : Timer) (now : Int) :
    (q.insert t now).ArmedEarly := by
  unfold TimeQueue.insert
  dsimp only
  split
  · exact resetToFirst_armedEarly hsorted.emplace now
  · rename_i hreset
    exact h.insertTimer hsorted hreset

/-- Nothing set before stays so unless the new timer is the earliest. -/
theorem insert_of_timerfd_none {q : TimeQueue} (hnone : q.timerfd = none)
    (hsorted : Lib.Sorted Entry.key q.timers) (t : Timer) (now : Int) :
    (q.insert t now).timerfd = none ∨ (q.insert t now).ArmedEarly := by
  unfold insert
  dsimp only
  split
  · exact .inr (resetToFirst_armedEarly hsorted.emplace now)
  · exact .inl hnone

theorem restartAll_timerfd (clock : Timer → Int) (es : List Entry) (q : TimeQueue) :
    (restartAll clock es q).timerfd = q.timerfd := by
  induction es generalizing q with
  | nil => rfl
  | cons it rest ih =>
      unfold restartAll
      split
      · exact ih _
      · exact ih _

theorem resetTimers_armedEarly {q : TimeQueue} (h : Lib.Sorted Entry.key q.timers)
    (clock : Timer → Int) (now : Int) : (q.resetTimers clock now).ArmedEarly :=
  resetToFirst_armedEarly (sorted_restartAll h) now

theorem SetToArm.resetTimers {q : TimeQueue} (h : q.SetToArm) (clock : Timer → Int) (now : Int) :
    (q.resetTimers clock now).SetToArm := by
  have hrestarted : (restartAll clock q.activeTimers q).SetToArm := by
    intro s set hset
    rw [restartAll_timerfd] at hset
    exact h s set hset
  exact hrestarted.resetToFirst now

structure Consistent (q : TimeQueue) : Prop where
  sorted : Lib.Sorted Entry.key q.timers
  armed : q.timerfd = none ∨ q.ArmedEarly
  setToArm : q.SetToArm

theorem Consistent.insert {q : TimeQueue} (h : q.Consistent) (t : Timer) (now : Int) :
    (q.insert t now).Consistent := by
  refine ⟨?_, ?_, insert_setToArm h.setToArm t now⟩
  · rw [insert_timers]
    exact h.sorted.emplace
  · rcases h.armed with hnone | hearly
    · exact insert_of_timerfd_none hnone h.sorted t now
    · exact .inr (hearly.insert h.sorted t now)

end TimeQueue

namespace TimerLog

def insertReturns (l : TimerLog) : List Call → List TimeQueue
  | [] => []
  | c :: cs => (l.insert c).queue :: insertReturns (l.insert c) cs

def runReturns (callback : Timer → List Call) : List Entry → TimerLog → List TimeQueue
  | [], _ => []
  | it :: rest, l =>
      let l' := { l with ran := l.ran ++ [it.timer.serial] }
      l'.insertReturns (callback it.timer) ++
        runReturns callback rest (l'.insertAll (callback it.timer))

def read (l : TimerLog) : TimerOp → TimerLog
  | .insert _ => l
  | .handleTimers _ => { l with queue := l.queue.readTimerfd }

/-- A step with the read of the timerfd that `HandleTimers` begins with. -/
def serve (l : TimerLog) (op : TimerOp) : Option TimerLog := (l.read op).step op

def returnsInside (l : TimerLog) : TimerOp → List TimeQueue
  | .insert _ => []
  | .handleTimers x =>
      let l' := l.read (.handleTimers x)
      runReturns x.callback (l'.due x)
        { l' with queue := { l'.queue with activeTimers := l'.due x } }

def returned (l : TimerLog) (op : TimerOp) : TimeQueue := ((l.read op).exec op).queue

/-- After each call that returns, from outside or inside, the timerfd is armed early enough. -/
def ArmedAtReturns (l : TimerLog) (op : TimerOp) : Prop :=
  ∀ q ∈ l.returnsInside op ++ [l.returned op], q.ArmedEarly ∧ q.SetToArm

/-- The same, where an `Insert` from inside may return before the timerfd that `HandleTimers`
has read is set again. -/
structure ArmedOrRead (l : TimerLog) (op : TimerOp) : Prop where
  inside : ∀ q ∈ l.returnsInside op, (q.timerfd = none ∨ q.ArmedEarly) ∧ q.SetToArm
  outside : (l.returned op).ArmedEarly ∧ (l.returned op).SetToArm

/-! ## What a step keeps -/

theorem consistent_insertAll {l : TimerLog} (h : l.queue.Consistent) (cs : List Call) :
    (l.insertAll cs).queue.Consistent := by
  induction cs generalizing l with
  | nil => exact h
  | cons c cs ih => exact ih (h.insert _ c.now)

theorem consistent_insertReturns {l : TimerLog} (h : l.queue.Consistent) (cs : List Call) :
    ∀ q ∈ l.insertReturns cs, q.Consistent := by
  induction cs generalizing l with
  | nil => exact fun q hq => absurd hq List.not_mem_nil
  | cons c cs ih =>
      intro q hq
      have hinsert : (l.insert c).queue.Consistent := h.insert _ c.now
      rcases List.mem_cons.1 hq with heq | hmem
      · rw [heq]
        exact hinsert
      · exact ih hinsert q hmem

theorem consistent_runAll {l : TimerLog} (h : l.queue.Consistent) (callback : Timer → List Call)
    (es : List Entry) : (runAll callback es l).queue.Consistent := by
  induction es generalizing l with
  | nil => exact h
  | cons it rest ih =>
      have hran : ({ l with ran := l.ran ++ [it.timer.serial] } : TimerLog).queue.Consistent := h
      exact ih (consistent_insertAll hran _)

theorem consistent_runReturns {l : TimerLog} (h : l.queue.Consistent)
    (callback : Timer → List Call) (es : List Entry) :
    ∀ q ∈ runReturns callback es l, q.Consistent := by
  induction es generalizing l with
  | nil => exact fun q hq => absurd hq List.not_mem_nil
  | cons it rest ih =>
      have hran : ({ l with ran := l.ran ++ [it.timer.serial] } : TimerLog).queue.Consistent := h
      intro q hq
      rcases List.mem_append.1 hq with hfirst | hrest
      · exact consistent_insertReturns hran _ q hfirst
      · exact ih (consistent_insertAll hran _) q hrest

structure Waiting (q : TimeQueue) : Prop where
  sorted : Lib.Sorted Entry.key q.timers
  armedEarly : q.ArmedEarly
  setToArm : q.SetToArm

theorem waiting_empty : Waiting {} :=
  ⟨List.Pairwise.nil, fun _ he => absurd he List.not_mem_nil, fun _ _ h => by cases h⟩

theorem Waiting.consistent_read {q : TimeQueue} (h : Waiting q) (es : List Entry) :
    { q.readTimerfd with activeTimers := es }.Consistent :=
  ⟨h.sorted, .inl rfl, fun _ _ hset => by cases hset⟩

theorem Waiting.insert {q : TimeQueue} (h : Waiting q) (t : Timer) (now : Int) :
    Waiting (q.insert t now) := by
  refine ⟨?_, h.armedEarly.insert h.sorted t now, TimeQueue.insert_setToArm h.setToArm t now⟩
  rw [TimeQueue.insert_timers]
  exact h.sorted.emplace

theorem waiting_resetTimers {q : TimeQueue} (hsorted : Lib.Sorted Entry.key q.timers)
    (hset : q.SetToArm) (clock : Timer → Int) (now : Int) : Waiting (q.resetTimers clock now) := by
  refine ⟨?_, TimeQueue.resetTimers_armedEarly hsorted clock now, hset.resetTimers clock now⟩
  unfold TimeQueue.resetTimers
  rw [TimeQueue.resetToFirst_timers]
  exact TimeQueue.sorted_restartAll hsorted

theorem handleTimers_queue (l : TimerLog) (x : Handling) :
    (l.handleTimers x).queue =
      { (l.afterCallbacks x).queue with
        timers := Lib.eraseUpTo Entry.key (l.handleEnd x)
          (l.afterCallbacks x).queue.timers }.resetTimers x.clock x.later := rfl

theorem Waiting.returned {l : TimerLog} (h : Waiting l.queue) (op : TimerOp) :
    Waiting (l.returned op) := by
  cases op with
  | insert c => exact h.insert _ c.now
  | handleTimers x =>
      have hrun : ((l.read (.handleTimers x)).afterCallbacks x).queue.Consistent :=
        consistent_runAll (h.consistent_read _) x.callback _
      have hqueue : l.returned (.handleTimers x) =
          ((l.read (.handleTimers x)).handleTimers x).queue := rfl
      rw [hqueue, handleTimers_queue]
      refine waiting_resetTimers ?_ ?_ x.clock x.later
      · exact hrun.sorted.eraseUpTo
      · exact hrun.setToArm

theorem Waiting.keeps_armed {l : TimerLog} (h : Waiting l.queue) (op : TimerOp) :
    l.ArmedOrRead op := by
  refine ⟨?_, (h.returned op).armedEarly, (h.returned op).setToArm⟩
  cases op with
  | insert c => exact fun q hq => absurd hq List.not_mem_nil
  | handleTimers x =>
      intro q hq
      have hread := h.consistent_read ((l.read (.handleTimers x)).due x)
      have hq' : q.Consistent := consistent_runReturns hread x.callback _ q hq
      exact ⟨hq'.armed, hq'.setToArm⟩

/-- **TimeQueue.** In every run the timerfd is armed early enough after each `Insert` from outside
and each `HandleTimers`, and after an `Insert` from a callback unless it has not been set since
`HandleTimers` read it. No value that disarms is ever set. -/
theorem armedOrRead (ops : List TimerOp) : Lib.Each serve ArmedOrRead {} ops := by
  have halways : Lib.Always serve (fun l => Waiting l.queue) {} ops := by
    refine Lib.always_of_keeps ?_ ?_ ops
    · intro l op l' hl hstep
      rw [(of_step hstep).2]
      exact hl.returned op
    · exact waiting_empty
  exact halways.each fun l op _ hl _ => hl.keeps_armed op

/-- A timer is waiting and nothing will wake the loop for it. -/
theorem not_armedEarly_of_timerfd_none {q : TimeQueue} (htimers : q.timers ≠ [])
    (hnone : q.timerfd = none) : ¬ q.ArmedEarly := by
  intro h
  rcases List.exists_mem_of_ne_nil q.timers htimers with ⟨e, he⟩
  rcases h e he with ⟨s, now, hset, -⟩
  rw [hnone] at hset
  cases hset

/-- A timer due at 100, run at 200, whose callback inserts a timer that is due later. -/
def callbackRun : List TimerOp :=
  [.insert (EventLoop.runAt 100 1 0),
    .handleTimers ⟨200, 2, fun _ => [EventLoop.runAt 1000 3 200], fun _ => 200, 200⟩]

/-- The timer that is running is still the first one, so the `Insert` sets nothing. -/
theorem not_armedAtReturns_callbackRun : ¬ Lib.Each serve ArmedAtReturns {} callbackRun := by
  intro h
  have hreturns := ((h _ rfl).2 _ rfl).1
  have hinside := hreturns _ List.mem_cons_self
  exact not_armedEarly_of_timerfd_none (by decide) rfl hinside.1

end TimerLog

end CPlusServer

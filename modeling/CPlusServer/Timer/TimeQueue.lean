import CPlusServer.Lib.Rounding
import CPlusServer.Lib.SortedSet
import Mathlib.Data.Prod.Lex

/-!
# TimeQueue

`timers_` is a set ordered by deadline and then by the address of the timer.
Every value of `TimeStamp::Now()` and every address that an allocation gives is
an input of the operation that meets it. A callback is what it does to the
queue: the calls of `Insert` it makes.
-/

namespace CPlusServer

def MICROSECOND_2_SECOND : Int := 1000 * 1000

def InInt64 (n : Int) : Prop := -2 ^ 63 ≤ n ∧ n < 2 ^ 63

instance (n : Int) : Decidable (InInt64 n) :=
  inferInstanceAs (Decidable (-2 ^ 63 ≤ n ∧ n < 2 ^ 63))

/-- Conversion of a `double` to `int64_t`, which drops the fraction. Out of range the language
leaves the value open; this is the one that x86-64 gives. -/
def toInt64 (x : Rat) : Int :=
  let n := x.num.tdiv x.den
  if InInt64 n then n else -2 ^ 63

/-- The microseconds that `AddTime` adds. The product is one of `double`s. -/
def addMicroSeconds (seconds : Rat) : Int :=
  toInt64 (Lib.BinaryFormat.binary64.round (seconds * MICROSECOND_2_SECOND))

/-- `TimeStamp::AddTime`. A sum out of range, which the language leaves open too, wraps around. -/
def addTime (timestamp : Int) (seconds : Rat) : Int :=
  (timestamp + addMicroSeconds seconds).bmod (2 ^ 64)

/-- Neither the conversion nor the sum of `AddTime` leaves `int64_t`. -/
def AddTimeFits (timestamp : Int) (seconds : Rat) : Prop :=
  Lib.BinaryFormat.binary64.round (seconds * MICROSECOND_2_SECOND) < 2 ^ 63 ∧
    InInt64 (timestamp + addMicroSeconds seconds)

instance (timestamp : Int) (seconds : Rat) : Decidable (AddTimeFits timestamp seconds) :=
  inferInstanceAs (Decidable (_ < _ ∧ InInt64 _))

/-- A timer object at an address. Its callback is known by the number of the `Insert` call that
brought it. -/
structure Timer where
  serial : Nat
  addr : Nat
  timestamp : Int
  interval : Rat
  deriving DecidableEq

namespace Timer

def ifRepeat (t : Timer) : Bool := decide (0 < t.interval)

def restart (t : Timer) (now : Int) : Timer := { t with timestamp := addTime now t.interval }

end Timer

structure Entry where
  timestamp : Int
  timer : Timer
  deriving DecidableEq

def Entry.key (e : Entry) : Int ×ₗ Nat := toLex (e.timestamp, e.timer.addr)

def Timer.entry (t : Timer) : Entry := ⟨t.timestamp, t⟩

structure Itimerspec where
  tvSec : Int
  tvNsec : Int
  deriving DecidableEq

/-- `timerfd` is the last setting of the timerfd and the time it was made. -/
structure TimeQueue where
  timers : List Entry := []
  activeTimers : List Entry := []
  timerfd : Option (Itimerspec × Int) := none
  deriving DecidableEq

/-- The arguments of a call of `Insert`, the address of the timer it makes and the time at which
it resets the timerfd. -/
structure Call where
  timestamp : Int
  interval : Rat
  addr : Nat
  now : Int

namespace EventLoop

def runAt (timestamp : Int) (addr : Nat) (now : Int) : Call := ⟨timestamp, 0, addr, now⟩

def runAfter (waitTime : Rat) (addr : Nat) (now : Int) : Call :=
  ⟨addTime now waitTime, 0, addr, now⟩

def runEvery (interval : Rat) (addr : Nat) (now : Int) : Call :=
  ⟨addTime now interval, interval, addr, now⟩

end EventLoop

namespace TimeQueue

/-- The difference is taken over `Int`. It is an `int64_t` unless `newTime` lies more than `2 ^ 63`
microseconds before `now`, which no time behind the epoch does. -/
def resetTimerfd (q : TimeQueue) (newTime now : Int) : TimeQueue :=
  let dif := if newTime - now < 100 then 100 else newTime - now
  let newValue : Itimerspec :=
    ⟨dif.tdiv MICROSECOND_2_SECOND, dif.tmod MICROSECOND_2_SECOND * 1000⟩
  { q with timerfd := some (newValue, now) }

def resetToFirst (q : TimeQueue) (now : Int) : TimeQueue :=
  match q.timers with
  | [] => q
  | e :: _ => q.resetTimerfd e.timestamp now

def insertTimer (q : TimeQueue) (timer : Timer) : TimeQueue × Bool :=
  let ifreset :=
    match q.timers with
    | [] => true
    | e :: _ => decide (timer.timestamp < e.timestamp)
  ({ q with timers := Lib.emplace Entry.key timer.entry q.timers }, ifreset)

def insert (q : TimeQueue) (timer : Timer) (now : Int) : TimeQueue :=
  let (q, ifreset) := q.insertTimer timer
  if ifreset then q.resetToFirst now else q

/-- The loop of `ResetTimers`. `clock` is the time at which a timer restarts. The object in
`activeTimers` is the one restarted, and nothing reads its deadline there again. -/
def restartAll (clock : Timer → Int) : List Entry → TimeQueue → TimeQueue
  | [], q => q
  | it :: rest, q =>
      if it.timer.ifRepeat then
        restartAll clock rest (q.insertTimer (it.timer.restart (clock it.timer))).1
      else restartAll clock rest q

def resetTimers (q : TimeQueue) (clock : Timer → Int) (now : Int) : TimeQueue :=
  (restartAll clock q.activeTimers q).resetToFirst now

def live (q : TimeQueue) : List Nat := (q.timers ++ q.activeTimers).map fun e => e.timer.addr

end TimeQueue

/-! ## Whole operations, with a record of what was inserted and run -/

/-- A queue, the timers that `Insert` has made so far, the first one first, and the numbers of
those that have been run, in order. -/
structure TimerLog where
  queue : TimeQueue := {}
  inserted : List Timer := []
  ran : List Nat := []

/-- What `HandleTimers` meets: the time and the address of the timer it looks for, what the
callback of each timer inserts, and the times read while the timers are reset. -/
structure Handling where
  now : Int
  addr : Nat
  callback : Timer → List Call
  clock : Timer → Int
  later : Int

inductive TimerOp
  | insert (c : Call)
  | handleTimers (x : Handling)

namespace TimerLog

def insert (l : TimerLog) (c : Call) : TimerLog :=
  let timer : Timer := ⟨l.inserted.length, c.addr, c.timestamp, c.interval⟩
  { l with queue := l.queue.insert timer c.now, inserted := l.inserted ++ [timer] }

def insertAll (l : TimerLog) (cs : List Call) : TimerLog := cs.foldl insert l

def runAll (callback : Timer → List Call) : List Entry → TimerLog → TimerLog
  | [], l => l
  | it :: rest, l =>
      runAll callback rest
        ({ l with ran := l.ran ++ [it.timer.serial] }.insertAll (callback it.timer))

def handleEnd (l : TimerLog) (x : Handling) : Option Entry :=
  Lib.lowerBound Entry.key (toLex (x.now, x.addr)) l.queue.timers

def due (l : TimerLog) (x : Handling) : List Entry :=
  Lib.upTo Entry.key (l.handleEnd x) l.queue.timers

/-- `ReadTimerfd` ends the process where there is nothing to read; this is what follows it. The
range that is erased ends at the iterator taken before the callbacks. -/
def handleTimers (l : TimerLog) (x : Handling) : TimerLog :=
  let end_ := l.handleEnd x
  let active := l.due x
  let l := runAll x.callback active { l with queue := { l.queue with activeTimers := active } }
  let q := { l.queue with timers := Lib.eraseUpTo Entry.key end_ l.queue.timers }
  { l with queue := q.resetTimers x.clock x.later }

def calls (l : TimerLog) (x : Handling) : List Call :=
  (l.due x).flatMap fun it => x.callback it.timer

/-- The allocator hands out no address in use. `HandleTimers` drops the active timers of the
last time first, and frees nothing more until its callbacks have run. -/
def Allocated (l : TimerLog) : TimerOp → Prop
  | .insert c => c.addr ∉ l.queue.live
  | .handleTimers x =>
      x.addr ∉ { l.queue with activeTimers := [] }.live ∧
        ((l.calls x).map Call.addr).Nodup ∧
          ∀ c ∈ l.calls x, c.addr ∉ { l.queue with activeTimers := [] }.live

instance (l : TimerLog) : DecidablePred l.Allocated := fun op =>
  match op with
  | .insert c => inferInstanceAs (Decidable (c.addr ∉ l.queue.live))
  | .handleTimers x => inferInstanceAs (Decidable (x.addr ∉ _ ∧ (_ : List Nat).Nodup ∧ _))

def exec (l : TimerLog) : TimerOp → TimerLog
  | .insert c => l.insert c
  | .handleTimers x => l.handleTimers x

def step (l : TimerLog) (op : TimerOp) : Option TimerLog :=
  if l.Allocated op then some (l.exec op) else none

theorem of_step {l l' : TimerLog} {op : TimerOp} (h : l.step op = some l') :
    l.Allocated op ∧ l' = l.exec op := by
  unfold step at h
  by_cases ha : l.Allocated op
  · rw [if_pos ha] at h
    exact ⟨ha, (Option.some.inj h).symm⟩
  · rw [if_neg ha] at h
    exact nomatch h

end TimerLog

end CPlusServer

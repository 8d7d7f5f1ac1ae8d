import CPlusServer.Lib.Run
import CPlusServer.Timer.Punctual

/-!
# Idle connections

`OnConnnectCallback` starts a chain of timers for a connection: each call of `OverTime`
removes it, or sets the next timer by the time of the last read event. The clock runs on
between any two statements, and the connection may be read at any time, since the timer
is on another loop. A timer that is set while `HandleTimers` runs may be erased with the
ones that are due, and the chain has then come to its end. What the chain promises up to
there is a window in which an idle connection is removed.
-/

namespace CPlusServer

def AUTOCLOSETIMEOUT : Rat := 10

/-- How late a loop runs a timer that is due, and how long `OnConnnectCallback` and `OverTime` take,
in microseconds. -/
structure Pace where
  lag : Nat
  spell : Nat
  spell_lt : spell < 2 ^ 38 := by decide

/-- Where the chain is: a timer has been set at `set`, or `OverTime` has begun at `since` and has
taken the time stamp, found it not expired, or worked out how long to wait. It ends with the
removal, at `at_` by the time stamp `t`, or with a timer that `HandleTimers` has erased. -/
inductive Chain
  | waiting (deadline set : Int)
  | loaded (t since : Int)
  | kept (t since : Int)
  | measured (wait : Rat) (t since : Int)
  | removed (t since at_ : Int)
  | lost
  deriving DecidableEq

structure Idle where
  now : Int
  connTime : Int
  chain : Chain

/-- Time goes on, a read event ends with EAGAIN, or `OverTime` takes its next step. `erased` tells
of a timer that this sets whether `HandleTimers` erases it. -/
inductive IdleAct
  | tick (later : Nat)
  | read
  | overTime (erased : Bool)

def double (x : Rat) : Rat := Lib.BinaryFormat.binary64.round x

def waitSeconds (now connTime : Int) : Rat :=
  let idle := double (double now - double connTime)
  double (double (AUTOCLOSETIMEOUT - double (idle / MICROSECOND_2_SECOND)) + 1)

namespace Idle

variable {pace : Pace} {s s' : Idle}

/-- The time that the chain lets pass. A removal is not waited for, nor what is lost. -/
def limit (pace : Pace) : Chain → Option Int
  | .waiting deadline set => some (max deadline set + pace.lag)
  | .loaded _ since | .kept _ since | .measured _ _ since => some (since + pace.spell)
  | .removed .. | .lost => none

/-- `RunAfter`, and what becomes of its timer. -/
def runAfter (now : Int) (waitTime : Rat) (erased : Bool) : Chain :=
  if erased then .lost else .waiting (addTime now waitTime) now

/-- The next step of `OverTime`. The timer runs no earlier than it is set for. -/
def overTime (s : Idle) (erased : Bool) : Option Idle :=
  match s.chain with
  | .waiting deadline _ =>
      if deadline ≤ s.now then some { s with chain := .loaded s.connTime s.now } else none
  | .loaded t since =>
      if addTime t AUTOCLOSETIMEOUT < s.now then some { s with chain := .removed t since s.now }
      else some { s with chain := .kept t since }
  | .kept t since => some { s with chain := .measured (waitSeconds s.now s.connTime) t since }
  | .measured wait _ _ => some { s with chain := runAfter s.now wait erased }
  | .removed .. | .lost => none

/-- The clock stays below the whole numbers that a `double` holds one by one. -/
def step (pace : Pace) (s : Idle) : IdleAct → Option Idle
  | .tick later =>
      if s.now + later < 2 ^ 53 ∧ ∀ l ∈ limit pace s.chain, s.now + later ≤ l then
        some { s with now := s.now + later }
      else none
  | .read => some { s with connTime := s.now }
  | .overTime erased => s.overTime erased

/-- Behind `RunAfter` in `OnConnnectCallback`, which is called right after the connection has been
constructed. -/
def established (pace : Pace) (built : Fin (2 ^ 52)) (took : Fin (pace.spell + 1)) (erased : Bool) :
    Idle :=
  { now := built + took
    connTime := built
    chain := runAfter (built + took) AUTOCLOSETIMEOUT erased }

end Idle

/-! ## The times in the chain -/

theorem double_intCast {n : Int} (hlow : 0 ≤ n) (hhigh : n < 2 ^ 53) : double n = n := by
  apply Lib.BinaryFormat.round_intCast
  rw [abs_of_nonneg hlow]
  exact hhigh

theorem abs_double_sub_le {x : Rat} {k : Nat} (hk : 0 < k) (h : |x| < 2 ^ k) :
    |double x - x| ≤ 2 ^ ((k : Int) - 53) / 2 := by
  refine Lib.BinaryFormat.abs_round_sub_le hk ?_ h
  show (-1074 : Int) ≤ k - 53
  omega

theorem addTime_timeout {t : Int} (hlow : 0 ≤ t) (hhigh : t < 2 ^ 53) :
    addTime t AUTOCLOSETIMEOUT = t + 10000000 := by
  have hadd : addMicroSeconds AUTOCLOSETIMEOUT = 10000000 := by decide +kernel
  unfold addTime
  rw [hadd]
  exact Int.bmod_eq_of_le (by omega) (by omega)

theorem max_toInt64_le {x : Rat} {m : Int} (hsmall : m < 2 ^ 62) (hnear : |x - m| < 1) :
    max (toInt64 x) 0 ≤ max m 0 := by
  have hless : x < m + 1 := by
    have := (abs_lt.1 hnear).2
    linarith only [this]
  rcases le_or_gt 0 x with hpos | hneg
  · have hrange : x < 2 ^ 63 := by
      have : (m : Rat) < 2 ^ 62 := by exact_mod_cast hsmall
      linarith only [this, hless]
    have hfloor : ⌊x⌋ < m + 1 := Int.floor_lt.2 (by exact_mod_cast hless)
    rw [toInt64_eq_floor hpos hrange]
    omega
  · have hcut : x.num.tdiv x.den ≤ 0 := by
      have hopposite := Int.tdiv_nonneg (neg_nonneg.2 (Rat.num_nonpos.2 hneg.le))
        (Int.natCast_nonneg x.den)
      rw [Int.neg_tdiv] at hopposite
      omega
    have hle : toInt64 x ≤ 0 := by
      unfold toInt64
      dsimp only
      split
      · exact hcut
      · decide
    omega

section
variable {now connTime : Int} (hlow : 0 ≤ connTime) (hle : connTime ≤ now) (hhigh : now < 2 ^ 53)
  (hidle : now - connTime < 2 ^ 40)

include hlow hle hhigh hidle

/-- In `double` the wait is off by less than a microsecond. -/
theorem abs_waitSeconds_sub_lt :
    |double (waitSeconds now connTime * MICROSECOND_2_SECOND) -
      (11000000 - (now - connTime) : Int)| < 1 := by
  have hidleLow : (0 : Rat) ≤ (now - connTime : Int) := by exact_mod_cast sub_nonneg.2 hle
  have hidleHigh : ((now - connTime : Int) : Rat) < 2 ^ 40 := by exact_mod_cast hidle
  have hdiff : double (double now - double connTime) = (now - connTime : Int) := by
    rw [double_intCast (hlow.trans hle) hhigh, double_intCast hlow (hle.trans_lt hhigh),
      ← Int.cast_sub]
    exact double_intCast (sub_nonneg.2 hle) (by omega)
  have hexact : ((11000000 - (now - connTime) : Int) : Rat) =
      11000000 - ((now - connTime : Int) : Rat) := by
    push_cast
    rfl
  have hsecond : (MICROSECOND_2_SECOND : Rat) = 1000000 := by
    unfold MICROSECOND_2_SECOND
    norm_num
  unfold waitSeconds AUTOCLOSETIMEOUT
  dsimp only
  rw [hdiff, hexact, hsecond]
  generalize ((now - connTime : Int) : Rat) = idle at hidleLow hidleHigh
  -- each operation adds half a last place of its result
  have hquotient := @abs_double_sub_le (idle / 1000000) 21 (by decide)
    (abs_lt.2 ⟨by linarith only [hidleLow], by linarith only [hidleHigh]⟩)
  generalize double (idle / 1000000) = quotient at hquotient ⊢
  norm_num [abs_le] at hquotient
  obtain ⟨hq, hq'⟩ := hquotient
  have hrest := @abs_double_sub_le (10 - quotient) 22 (by decide)
    (abs_lt.2 ⟨by linarith only [hq', hidleHigh], by linarith only [hq, hidleLow]⟩)
  generalize double (10 - quotient) = rest at hrest ⊢
  norm_num [abs_le] at hrest
  obtain ⟨hr, hr'⟩ := hrest
  have hwait := @abs_double_sub_le (rest + 1) 23 (by decide)
    (abs_lt.2 ⟨by linarith only [hr, hq', hidleHigh], by linarith only [hr', hq, hidleLow]⟩)
  generalize double (rest + 1) = wait at hwait ⊢
  norm_num [abs_le] at hwait
  obtain ⟨hw, hw'⟩ := hwait
  have hproduct := @abs_double_sub_le (wait * 1000000) 44 (by decide)
    (abs_lt.2 ⟨by linarith only [hw, hr, hq', hidleHigh], by linarith only [hw', hr', hq, hidleLow]⟩)
  generalize double (wait * 1000000) = product at hproduct ⊢
  norm_num [abs_le] at hproduct
  obtain ⟨hp, hp'⟩ := hproduct
  exact abs_lt.2 ⟨by linarith only [hp, hw, hr, hq'], by linarith only [hp', hw', hr', hq]⟩

/-- The next timer is set for no later than eleven seconds behind the last read event, and for as
much later as the call takes. -/
theorem max_addTime_wait_le (later : Int) (hlater : now ≤ later) (hclock : later < 2 ^ 53) :
    max (addTime later (waitSeconds now connTime)) later ≤
      max (later + (11000000 - (now - connTime))) later := by
  have hnear := abs_waitSeconds_sub_lt hlow hle hhigh hidle
  have hcut := max_toInt64_le (by omega) hnear
  have hadd : addMicroSeconds (waitSeconds now connTime) =
      toInt64 (double (waitSeconds now connTime * MICROSECOND_2_SECOND)) := rfl
  rw [← hadd] at hcut
  have hrange : -2 ^ 63 ≤ addMicroSeconds (waitSeconds now connTime) := by
    rw [hadd]
    unfold toInt64
    dsimp only
    split
    · rename_i hin
      exact hin.1
    · exact le_rfl
  unfold addTime
  rw [Int.bmod_eq_of_le (by omega) (by omega)]
  omega

end

namespace Idle

variable {pace : Pace} {s s' : Idle}

/-! ## Runs -/

/-- What `OverTime` has begun with: the time stamp is `t` unless the connection has been read since,
and the timer was not set for later than it should have been. -/
structure Begun (pace : Pace) (connTime now t since : Int) : Prop where
  stamp : connTime = t ∨ since ≤ connTime
  t_nonneg : 0 ≤ t
  t_le : t ≤ since
  since_le : since ≤ now
  inTime : since ≤ t + 11000000 + pace.spell + pace.lag

/-- The chain is not behind the last read event by more than it takes. -/
def InChain (pace : Pace) (connTime now : Int) : Chain → Prop
  | .waiting deadline set =>
      max deadline set ≤ connTime + 11000000 + pace.spell ∧ now ≤ max deadline set + pace.lag
  | .loaded t since => Begun pace connTime now t since ∧ now ≤ since + pace.spell
  | .kept t since => Begun pace connTime now t since ∧ now ≤ since + pace.spell ∧
      since ≤ t + 10000000
  | .measured wait t since => Begun pace connTime now t since ∧ now ≤ since + pace.spell ∧
      since ≤ t + 10000000 ∧ ∃ measured t', since ≤ measured ∧ measured ≤ now ∧ t' ≤ connTime ∧
        t ≤ t' ∧ t' ≤ measured ∧ wait = waitSeconds measured t'
  | .removed t since at_ => Begun pace connTime now t since ∧ t + 10000000 < at_ ∧
      at_ ≤ since + pace.spell
  | .lost => True

structure Sound (pace : Pace) (s : Idle) : Prop where
  stamp_nonneg : 0 ≤ s.connTime
  stamped : s.connTime ≤ s.now
  clock : s.now < 2 ^ 53
  chain : InChain pace s.connTime s.now s.chain

theorem sound_established (pace : Pace) (built : Fin (2 ^ 52)) (took : Fin (pace.spell + 1))
    (erased : Bool) : (established pace built took erased).Sound pace := by
  have hbuilt := built.isLt
  have htook := took.isLt
  have hspell := pace.spell_lt
  have hclock : (built : Int) + took < 2 ^ 53 := by omega
  refine ⟨Int.natCast_nonneg _, ?_, hclock, ?_⟩
  · show (built : Int) ≤ built + took
    omega
  · show InChain pace built (built + took) (runAfter (built + took) AUTOCLOSETIMEOUT erased)
    unfold runAfter
    cases erased with
    | true => trivial
    | false =>
        rw [if_neg (by decide), addTime_timeout (by omega) hclock]
        refine ⟨?_, ?_⟩
        · omega
        · omega

section
variable {connTime now t since : Int}

theorem Begun.tick (h : Begun pace connTime now t since) (later : Nat) :
    Begun pace connTime (now + later) t since :=
  ⟨h.stamp, h.t_nonneg, h.t_le, h.since_le.trans (by omega), h.inTime⟩

theorem Begun.read (h : Begun pace connTime now t since) : Begun pace now now t since :=
  ⟨.inr h.since_le, h.t_nonneg, h.t_le, h.since_le, h.inTime⟩

theorem Begun.le_stamp (h : Begun pace connTime now t since) : t ≤ connTime := by
  rcases h.stamp with heq | hlater
  · exact le_of_eq heq.symm
  · exact h.t_le.trans hlater

end

theorem Sound.tick (h : s.Sound pace) {later : Nat} (hclock : s.now + later < 2 ^ 53)
    (hlimit : ∀ l ∈ limit pace s.chain, s.now + later ≤ l) :
    { s with now := s.now + later }.Sound pace := by
  obtain ⟨now, connTime, chain⟩ := s
  obtain ⟨hnonneg, hstamped, -, hchain⟩ := h
  have hstamped' : connTime ≤ now + later := by
    have : connTime ≤ now := hstamped
    omega
  refine ⟨hnonneg, hstamped', hclock, ?_⟩
  cases chain with
  | waiting deadline set => exact ⟨hchain.1, hlimit _ rfl⟩
  | loaded t since => exact ⟨hchain.1.tick later, hlimit _ rfl⟩
  | kept t since => exact ⟨hchain.1.tick later, hlimit _ rfl, hchain.2.2⟩
  | measured wait t since =>
      obtain ⟨hbegun, -, hsince, measured, t', hmeasured, hbefore, hrest⟩ := hchain
      refine ⟨hbegun.tick later, hlimit _ rfl, hsince, measured, t', hmeasured, ?_, hrest⟩
      exact hbefore.trans (by show now ≤ now + later; omega)
  | removed t since at_ => exact ⟨hchain.1.tick later, hchain.2⟩
  | lost => trivial

theorem Sound.read (h : s.Sound pace) : { s with connTime := s.now }.Sound pace := by
  obtain ⟨now, connTime, chain⟩ := s
  obtain ⟨hnonneg, hstamped, hclock, hchain⟩ := h
  have hle : connTime ≤ now := hstamped
  refine ⟨hnonneg.trans hle, le_refl now, hclock, ?_⟩
  cases chain with
  | waiting deadline set =>
      have hset : max deadline set ≤ connTime + 11000000 + pace.spell := hchain.1
      have hlater : connTime + 11000000 + pace.spell ≤ now + 11000000 + pace.spell := by omega
      exact ⟨hset.trans hlater, hchain.2⟩
  | loaded t since => exact ⟨hchain.1.read, hchain.2⟩
  | kept t since => exact ⟨hchain.1.read, hchain.2⟩
  | measured wait t since =>
      obtain ⟨hbegun, hrunning, hsince, measured, t', hmeasured, hbefore, ht', hrest⟩ := hchain
      exact ⟨hbegun.read, hrunning, hsince, measured, t', hmeasured, hbefore, ht'.trans hle, hrest⟩
  | removed t since at_ => exact ⟨hchain.1.read, hchain.2⟩
  | lost => trivial

/-- A timer that is set during the call is set for the right time. -/
theorem Sound.overTime (h : s.Sound pace) {erased : Bool} (hstep : s.overTime erased = some s') :
    s'.Sound pace := by
  obtain ⟨now, connTime, chain⟩ := s
  obtain ⟨hnonneg, hstamped, hclock, hchain⟩ := h
  have hle : connTime ≤ now := hstamped
  have hbound : now < 2 ^ 53 := hclock
  unfold Idle.overTime at hstep
  cases chain with
  | waiting deadline set =>
      dsimp only at hstep
      split at hstep
      · cases hstep
        have hset : max deadline set ≤ connTime + 11000000 + pace.spell := hchain.1
        have hlate : now ≤ max deadline set + pace.lag := hchain.2
        have hbegun : Begun pace connTime now connTime now :=
          ⟨.inl rfl, hnonneg, hle, le_refl now, by omega⟩
        exact ⟨hnonneg, hle, hclock, hbegun, by show now ≤ now + _; omega⟩
      · cases hstep
  | loaded t since =>
      obtain ⟨hbegun, hrunning⟩ := hchain
      have hpast := hbegun.t_le
      have hsince : since ≤ now := hbegun.since_le
      dsimp only at hstep
      rw [addTime_timeout hbegun.t_nonneg (by omega)] at hstep
      split at hstep
      · rename_i hexpired
        cases hstep
        exact ⟨hnonneg, hle, hclock, hbegun, hexpired, hrunning⟩
      · rename_i hkept
        cases hstep
        have hstill : since ≤ t + 10000000 := by
          have : ¬ t + 10000000 < now := hkept
          omega
        exact ⟨hnonneg, hle, hclock, hbegun, hrunning, hstill⟩
  | kept t since =>
      obtain ⟨hbegun, hrunning, hsince⟩ := hchain
      cases hstep
      exact ⟨hnonneg, hle, hclock, hbegun, hrunning, hsince, now, connTime, hbegun.since_le,
        le_refl _, le_refl _, hbegun.le_stamp, hle, rfl⟩
  | measured wait t since =>
      obtain ⟨hbegun, hrunning, hsince, measured, t', hmeasured, hbefore, ht', hmore, hpast, rfl⟩ :=
        hchain
      cases hstep
      refine ⟨hnonneg, hle, hclock, ?_⟩
      show InChain pace connTime now (runAfter now (waitSeconds measured t') erased)
      unfold runAfter
      cases erased with
      | true => trivial
      | false =>
          have hrun : now ≤ since + pace.spell := hrunning
          have hmeasuredNow : measured ≤ now := hbefore
          have hstamp : t' ≤ connTime := ht'
          have hnonneg' : 0 ≤ t' := hbegun.t_nonneg.trans hmore
          have hspell := pace.spell_lt
          have hset := max_addTime_wait_le hnonneg' hpast (by omega) (by omega) now hmeasuredNow
            hbound
          rw [if_neg (by decide)]
          show max (addTime now _) now ≤ connTime + 11000000 + pace.spell ∧
            now ≤ max (addTime now _) now + pace.lag
          omega
  | removed t since at_ => cases hstep
  | lost => cases hstep

theorem Sound.step (h : s.Sound pace) {a : IdleAct} (hstep : s.step pace a = some s') :
    s'.Sound pace := by
  cases a with
  | tick later =>
      unfold Idle.step at hstep
      dsimp only at hstep
      split at hstep
      · rename_i hlimit
        cases hstep
        exact h.tick hlimit.1 hlimit.2
      · cases hstep
  | read =>
      cases hstep
      exact h.read
  | overTime erased => exact h.overTime hstep

/-- A connection that stays open has been read eleven seconds ago at the earliest, but for the time
that the timer and two calls take, unless a timer has been lost. One that is removed had last been
read, when the call began, more than ten seconds before the removal, and no more than eleven and the
same time. -/
structure Closes (pace : Pace) (s : Idle) : Prop where
  inTime : s.chain ≠ .lost → (∀ t since at_, s.chain ≠ .removed t since at_) →
    s.now ≤ s.connTime + 11000000 + pace.lag + 2 * pace.spell
  idle : ∀ t since at_, s.chain = .removed t since at_ →
    t + 10000000 < at_ ∧ at_ ≤ t + 11000000 + pace.lag + 2 * pace.spell ∧
      at_ ≤ since + pace.spell ∧ (s.connTime = t ∨ since ≤ s.connTime)

theorem Sound.closes (h : s.Sound pace) : s.Closes pace := by
  obtain ⟨now, connTime, chain⟩ := s
  obtain ⟨-, hstamped, -, hchain⟩ := h
  constructor
  · intro hkept hopen
    show now ≤ connTime + 11000000 + pace.lag + 2 * pace.spell
    cases chain with
    | waiting deadline set =>
        have hset : max deadline set ≤ connTime + 11000000 + pace.spell := hchain.1
        have hlate : now ≤ max deadline set + pace.lag := hchain.2
        omega
    | loaded t since =>
        have hle : t ≤ connTime := hchain.1.le_stamp
        have htime := hchain.1.inTime
        have hrun : now ≤ since + pace.spell := hchain.2
        omega
    | kept t since =>
        have hle : t ≤ connTime := hchain.1.le_stamp
        have hrun : now ≤ since + pace.spell := hchain.2.1
        have hsince := hchain.2.2
        omega
    | measured wait t since =>
        have hle : t ≤ connTime := hchain.1.le_stamp
        have hrun : now ≤ since + pace.spell := hchain.2.1
        have hsince := hchain.2.2.1
        omega
    | removed t since at_ => exact absurd rfl (hopen t since at_)
    | lost => exact absurd rfl hkept
  · intro t since at_ heq
    have hremoved : chain = .removed t since at_ := heq
    subst hremoved
    obtain ⟨hbegun, hexpired, hat⟩ := hchain
    have htime := hbegun.inTime
    refine ⟨hexpired, ?_, hat, hbegun.stamp⟩
    omega

/-- **Idle timeout.** Whenever a connection is read and whatever the clock does between the
statements of the chain, `OverTime` removes it in the window between ten and eleven seconds behind
the last read event, but for the time its timers and calls take, or `HandleTimers` has erased one of
its timers. -/
theorem closes_of_run (pace : Pace) (built : Fin (2 ^ 52)) (took : Fin (pace.spell + 1))
    (erased : Bool) (acts : List IdleAct) :
    Lib.Always (step pace) (Closes pace) (established pace built took erased) acts :=
  (Lib.always_of_keeps (fun _ _ _ h hstep => h.step hstep)
    (sound_established pace built took erased) acts).mono fun _ h => h.closes

/-- Read once after four seconds: not removed at the first timer, but at the second. -/
example : (Lib.runFrom (step { lag := 0, spell := 0 })
    (established { lag := 0, spell := 0 } ⟨0, by decide⟩ 0 false)
    [.tick 4000000, .read, .tick 6000000, .overTime false, .overTime false, .overTime false,
      .overTime false, .tick 5000000, .overTime false, .overTime false]).map Idle.chain =
    some (.removed 4000000 15000000 15000000) := by decide +kernel

end Idle

end CPlusServer

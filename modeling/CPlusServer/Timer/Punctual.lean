import CPlusServer.Timer.NoLoss

/-!
# When callbacks run

A timer runs at the time that `HandleTimers` reads first, with the deadline it
has in `timers_` then. The runs of all calls together are kept beside the queue,
so that two runs of one timer can be compared however far apart they are.
-/

namespace CPlusServer

/-! ## What `AddTime` adds -/

theorem addTime_of_fits {timestamp : Int} {seconds : Rat} (h : AddTimeFits timestamp seconds) :
    addTime timestamp seconds = timestamp + addMicroSeconds seconds := by
  obtain ⟨-, hlo, hhi⟩ := h
  exact Int.bmod_eq_of_le (by omega) (by omega)

theorem toInt64_eq_floor {x : Rat} (h0 : 0 ≤ x) (hlt : x < 2 ^ 63) : toInt64 x = ⌊x⌋ := by
  have hcut : x.num.tdiv x.den = ⌊x⌋ := by
    rw [Int.tdiv_eq_ediv_of_nonneg (Rat.num_nonneg.2 h0)]
    exact Rat.floor_def'.symm
  have hrange : InInt64 ⌊x⌋ := by
    have hlow : 0 ≤ ⌊x⌋ := Int.floor_nonneg.2 h0
    have hhigh : ⌊x⌋ < 2 ^ 63 := Int.floor_lt.2 (by exact_mod_cast hlt)
    exact ⟨by omega, hhigh⟩
  unfold toInt64
  dsimp only
  rw [hcut, if_pos hrange]

section
variable {timestamp : Int} {seconds : Rat} (hpos : 0 < seconds) (h : AddTimeFits timestamp seconds)

include hpos h

theorem addMicroSeconds_eq :
    addMicroSeconds seconds =
      ⌊Lib.BinaryFormat.binary64.round (seconds * MICROSECOND_2_SECOND)⌋ := by
  have hprod : 0 ≤ seconds * MICROSECOND_2_SECOND := mul_nonneg hpos.le (by decide)
  exact toInt64_eq_floor (Lib.BinaryFormat.round_nonneg hprod) h.1

theorem addMicroSeconds_nonneg : 0 ≤ addMicroSeconds seconds := by
  have hprod : 0 ≤ seconds * MICROSECOND_2_SECOND := mul_nonneg hpos.le (by decide)
  rw [addMicroSeconds_eq hpos h]
  exact Int.floor_nonneg.2 (Lib.BinaryFormat.round_nonneg hprod)

/-- Up to the whole numbers that a `double` holds one by one, rounding costs no microsecond. -/
theorem floor_le_addMicroSeconds (hsmall : seconds * MICROSECOND_2_SECOND ≤ 2 ^ 53) :
    ⌊seconds * MICROSECOND_2_SECOND⌋ ≤ addMicroSeconds seconds := by
  have hprod : 0 < seconds * MICROSECOND_2_SECOND := mul_pos hpos (by decide)
  have hfloor : ⌊seconds * MICROSECOND_2_SECOND⌋ ≤ 2 ^ 53 := by
    exact_mod_cast (Int.floor_le _).trans hsmall
  rw [addMicroSeconds_eq hpos h]
  exact Int.le_floor.2 (Lib.BinaryFormat.intCast_le_round hfloor (Int.floor_le _) hprod)

end

structure Firing where
  now : Int
  timer : Timer
  deriving DecidableEq

/-- A timer that runs again repeats. Here and below the earlier run is the first. -/
def Firing.Once (f f' : Firing) : Prop :=
  f.timer.serial = f'.timer.serial → f.timer.ifRepeat = true

/-- Between two runs of one timer lies what `AddTime` makes of its interval. Up to 2^53 microseconds
that is the whole interval, truncated. -/
def Firing.Apart (f f' : Firing) : Prop :=
  f.timer.serial = f'.timer.serial →
    f.now + addMicroSeconds f.timer.interval ≤ f'.now ∧
      (f.timer.interval * MICROSECOND_2_SECOND ≤ 2 ^ 53 →
        f.now + ⌊f.timer.interval * MICROSECOND_2_SECOND⌋ ≤ f'.now)

/-- The same with the interval itself, truncated to microseconds, however long it is. -/
def Firing.ApartByInterval (f f' : Firing) : Prop :=
  f.timer.serial = f'.timer.serial → f.now + ⌊f.timer.interval * MICROSECOND_2_SECOND⌋ ≤ f'.now

instance (f f' : Firing) : Decidable (f.ApartByInterval f') :=
  inferInstanceAs (Decidable (_ = _ → _ ≤ _))

/-- No timer restarts at a time before the one its callback ran at. -/
def TimerOp.Forward : TimerOp → Prop
  | .insert _ => True
  | .handleTimers x => ∀ t, x.now ≤ x.clock t

namespace TimerLog

/-- No timer that restarts gets a deadline past the range of `int64_t`. -/
def RestartsFit (l : TimerLog) : TimerOp → Prop
  | .insert _ => True
  | .handleTimers x =>
      ∀ it ∈ l.due x, it.timer.ifRepeat = true → AddTimeFits (x.clock it.timer) it.timer.interval

instance (l : TimerLog) : DecidablePred l.RestartsFit := fun op =>
  match op with
  | .insert _ => isTrue trivial
  | .handleTimers x =>
      inferInstanceAs (Decidable (∀ it ∈ l.due x, it.timer.ifRepeat = true → AddTimeFits _ _))

def firings (l : TimerLog) : TimerOp → List Firing
  | .insert _ => []
  | .handleTimers x => (l.due x).map fun it => ⟨x.now, it.timer⟩

structure Punctual (l : TimerLog) (op : TimerOp) : Prop where
  ran : (l.exec op).ran = l.ran ++ (l.firings op).map fun f => f.timer.serial
  notEarly : ∀ f ∈ l.firings op, f.timer.timestamp ≤ f.now
  overdue : ∀ x, op = .handleTimers x → ∀ e ∈ l.queue.timers, e.timer.timestamp < x.now →
    ⟨x.now, e.timer⟩ ∈ l.firings op
  inOrder : (l.firings op).Pairwise fun f f' => f.timer.timestamp ≤ f'.timer.timestamp
  once : (l.firings op).Pairwise fun f f' => f.timer.serial ≠ f'.timer.serial

/-! ## Entries and their timers -/

/-- An entry stands under the deadline of its timer, and the timer is the one its number names,
restarted or not. -/
structure Keyed (l : TimerLog) : Prop where
  deadline : ∀ e ∈ l.queue.timers, e.timestamp = e.timer.timestamp
  object : ∀ e ∈ l.queue.timers, ∃ t : Timer, l.inserted[e.timer.serial]? = some t ∧
    t.addr = e.timer.addr ∧ t.interval = e.timer.interval

theorem keyed_empty : Keyed {} :=
  ⟨fun _ he => absurd he List.not_mem_nil, fun _ he => absurd he List.not_mem_nil⟩

theorem Keyed.eq_of_serial {l : TimerLog} (hk : Keyed l) (h : WellFormed l) {e e' : Entry}
    (he : e ∈ l.queue.timers) (he' : e' ∈ l.queue.timers)
    (heq : e.timer.serial = e'.timer.serial) : e = e' := by
  rcases hk.object e he with ⟨t, ht, haddr, -⟩
  rcases hk.object e' he' with ⟨t', ht', haddr', -⟩
  rw [heq, ht'] at ht
  cases ht
  exact h.apart e he e' he' (haddr.symm.trans haddr')

theorem object_append {l : TimerLog} {e : Entry} {t : Timer} (ts : List Timer)
    (h : l.inserted[e.timer.serial]? = some t) :
    (l.inserted ++ ts)[e.timer.serial]? = some t := by
  rw [List.getElem?_append_left (List.getElem?_eq_some_iff.1 h).1]
  exact h

theorem Keyed.insert {l : TimerLog} (hk : Keyed l) (c : Call) : Keyed (l.insert c) := by
  constructor
  · intro e he
    rcases mem_of_mem_insert he with heq | hold
    · rw [heq]
      rfl
    · exact hk.deadline e hold
  · intro e he
    rw [insert_inserted]
    rcases mem_of_mem_insert he with heq | hold
    · rw [heq]
      exact ⟨_, List.getElem?_concat_length, rfl, rfl⟩
    · rcases hk.object e hold with ⟨t, ht, hsame⟩
      exact ⟨t, object_append _ ht, hsame⟩

theorem Keyed.insertAll {l : TimerLog} (hk : Keyed l) (cs : List Call) : Keyed (l.insertAll cs) := by
  induction cs generalizing l with
  | nil => exact hk
  | cons c cs ih => exact ih (hk.insert c)

theorem Keyed.afterCallbacks {l : TimerLog} (hk : Keyed l) (x : Handling) :
    Keyed (l.afterCallbacks x) := by
  rw [afterCallbacks_eq]
  have hbefore : Keyed (l.beforeCalls x) := ⟨hk.deadline, hk.object⟩
  exact hbefore.insertAll _

theorem Keyed.handleTimers {l : TimerLog} (hk : Keyed l) (h : WellFormed l) {x : Handling}
    (ha : l.Allocated (.handleTimers x)) : Keyed (l.handleTimers x) := by
  have hafter := hk.afterCallbacks x
  constructor
  · intro e he
    rcases (h.mem_handleTimers ha).1 he with ⟨hmem, -⟩ | ⟨it, -, -, heq⟩
    · exact hafter.deadline e hmem
    · rw [heq]
      rfl
  · intro e he
    rcases (h.mem_handleTimers ha).1 he with ⟨hmem, -⟩ | ⟨it, hit, -, heq⟩
    · exact hafter.object e hmem
    · rw [heq]
      exact hafter.object it (ha.mem_afterCallbacks.2 (.inl (mem_of_mem_due hit)))

/-! ## One call -/

/-- The timers that run are those below the pair that `HandleTimers` looks for. -/
theorem mem_due_iff {l : TimerLog} (h : WellFormed l) {x : Handling} {e : Entry} :
    e ∈ l.due x ↔ e ∈ l.queue.timers ∧ e.key < toLex (x.now, x.addr) :=
  Lib.mem_upTo_lowerBound h.sorted

theorem Keyed.timestamp_le {l : TimerLog} (hk : Keyed l) (h : WellFormed l) {x : Handling}
    {it : Entry} (hit : it ∈ l.due x) : it.timer.timestamp ≤ x.now := by
  rcases (mem_due_iff h).1 hit with ⟨hmem, hkey⟩
  rw [← hk.deadline it hmem]
  exact TimeQueue.timestamp_le_of_key_lt hkey

theorem mem_firings {l : TimerLog} {x : Handling} {f : Firing} :
    f ∈ l.firings (.handleTimers x) ↔ ∃ it ∈ l.due x, ⟨x.now, it.timer⟩ = f := List.mem_map

theorem insert_punctual (l : TimerLog) (c : Call) : l.Punctual (.insert c) := by
  refine ⟨(List.append_nil _).symm, ?_, ?_, List.Pairwise.nil, List.Pairwise.nil⟩
  · intro f hf
    exact absurd hf List.not_mem_nil
  · intro x hx
    cases hx

theorem Keyed.handleTimers_punctual {l : TimerLog} (hk : Keyed l) (h : WellFormed l)
    (x : Handling) : l.Punctual (.handleTimers x) := by
  refine ⟨?_, ?_, ?_, ?_, ?_⟩
  · have hran : (l.exec (.handleTimers x)).ran = (l.afterCallbacks x).ran := rfl
    rw [hran, afterCallbacks_ran, firings, List.map_map]
    rfl
  · intro f hf
    rcases mem_firings.1 hf with ⟨it, hit, rfl⟩
    exact hk.timestamp_le h hit
  · intro x' hx e he hlate
    cases hx
    refine mem_firings.2 ⟨e, (mem_due_iff h).2 ⟨he, ?_⟩, rfl⟩
    rw [← hk.deadline e he] at hlate
    exact Prod.Lex.toLex_lt_toLex.2 (.inl hlate)
  · apply List.pairwise_map.2
    refine List.Pairwise.imp_of_mem (fun {e e'} he he' hlt => ?_) h.sorted_due
    have hle : e.timestamp ≤ e'.timestamp := TimeQueue.timestamp_le_of_key_lt hlt
    rw [hk.deadline e (mem_of_mem_due he), hk.deadline e' (mem_of_mem_due he')] at hle
    exact hle
  · apply List.pairwise_map.2
    refine List.Pairwise.imp_of_mem (fun {e e'} he he' hlt heq => ?_) h.sorted_due
    have hsame := hk.eq_of_serial h (mem_of_mem_due he) (mem_of_mem_due he') heq
    rw [hsame] at hlt
    exact absurd hlt (lt_irrefl _)

end TimerLog

/-! ## The whole run -/

/-- `fits` is what the distance between two runs rests on. -/
def Firing.Follows (fits : Prop) (f f' : Firing) : Prop := f.Once f' ∧ (fits → f.Apart f')

theorem Firing.Follows.mono {fits : Prop} {f f' f'' : Firing} (h : f.Follows fits f')
    (hserial : f'.timer.serial = f''.timer.serial) (hle : f'.now ≤ f''.now) :
    f.Follows fits f'' := by
  constructor
  · intro heq
    exact h.1 (heq.trans hserial.symm)
  · intro hfits heq
    obtain ⟨hgap, hinterval⟩ := h.2 hfits (heq.trans hserial.symm)
    exact ⟨hgap.trans hle, fun hsmall => (hinterval hsmall).trans hle⟩

theorem Firing.Follows.mono_now {fits : Prop} {f : Firing} {t : Timer} {now now' : Int}
    (h : f.Follows fits ⟨now, t⟩) (hle : now ≤ now') : f.Follows fits ⟨now', t⟩ := h.mono rfl hle

theorem Firing.follows_of_ne {fits : Prop} {f f' : Firing}
    (h : f.timer.serial ≠ f'.timer.serial) : f.Follows fits f' :=
  ⟨fun heq => absurd heq h, fun _ heq => absurd heq h⟩

structure Fired where
  log : TimerLog := {}
  firings : List Firing := []

namespace Fired

def step (t : Fired) (op : TimerOp) : Option Fired :=
  (t.log.step op).map fun l => { log := l, firings := t.firings ++ t.log.firings op }

theorem of_step {t t' : Fired} {op : TimerOp} (h : t.step op = some t') :
    t.log.Allocated op ∧
      t' = { log := t.log.exec op, firings := t.firings ++ t.log.firings op } := by
  rcases Option.map_eq_some_iff.1 h with ⟨l, hl, rfl⟩
  rcases TimerLog.of_step hl with ⟨ha, rfl⟩
  exact ⟨ha, rfl⟩

variable {fits : Prop}

/-- The next run of each timer that waits may follow those before, if it is not early. -/
def NextFollows (fits : Prop) (fs : List Firing) (l : TimerLog) : Prop :=
  ∀ f ∈ fs, ∀ e ∈ l.queue.timers, f.Follows fits ⟨e.timer.timestamp, e.timer⟩

structure Spaced (fits : Prop) (t : Fired) : Prop where
  wellFormed : t.log.WellFormed
  keyed : t.log.Keyed
  past : ∀ f ∈ t.firings, f.timer.serial < t.log.inserted.length
  next : NextFollows fits t.firings t.log
  follows : t.firings.Pairwise (Firing.Follows fits)

theorem spaced_init (fits : Prop) : Spaced fits {} :=
  ⟨TimerLog.wellFormed_empty, TimerLog.keyed_empty, fun _ hf => absurd hf List.not_mem_nil,
    fun _ hf => absurd hf List.not_mem_nil, List.Pairwise.nil⟩

/-- A timer made now has not run before. -/
theorem follows_of_new {f : Firing} {l : TimerLog} (hpast : f.timer.serial < l.inserted.length)
    {t : Timer} (hnew : l.inserted.length ≤ t.serial) (now : Int) : f.Follows fits ⟨now, t⟩ := by
  apply Firing.follows_of_ne
  dsimp only
  omega

theorem Spaced.next_insert {t : Fired} (h : Spaced fits t) (c : Call) :
    NextFollows fits t.firings (t.log.insert c) := by
  intro f hf e he
  rcases TimerLog.mem_of_mem_insert he with heq | hold
  · rw [heq]
    exact follows_of_new (h.past f hf) (Nat.le_refl _) _
  · exact h.next f hf e hold

section HandleTimers

variable {t : Fired} {x : Handling} (h : Spaced fits t)

include h

/-- No run of this call follows too early on one before it. -/
theorem Spaced.follows_firings :
    (t.firings ++ t.log.firings (.handleTimers x)).Pairwise (Firing.Follows fits) := by
  refine List.pairwise_append.2 ⟨h.follows, ?_, ?_⟩
  · exact (h.keyed.handleTimers_punctual h.wellFormed x).once.imp Firing.follows_of_ne
  · intro f hf f' hf'
    rcases TimerLog.mem_firings.1 hf' with ⟨it, hit, rfl⟩
    have hmem : it ∈ t.log.queue.timers := TimerLog.mem_of_mem_due hit
    exact (h.next f hf it hmem).mono rfl (h.keyed.timestamp_le h.wellFormed hit)

/-- A timer that restarts waits for its interval from the run that has just been. -/
theorem Spaced.follows_restart (hforward : ∀ timer, x.now ≤ x.clock timer)
    (hfits : fits → t.log.RestartsFit (.handleTimers x)) {f : Firing}
    (hf : f ∈ t.firings ++ t.log.firings (.handleTimers x)) {it : Entry} (hit : it ∈ t.log.due x)
    (hrep : it.timer.ifRepeat = true) :
    f.Follows fits ⟨addTime (x.clock it.timer) it.timer.interval, it.timer⟩ := by
  have hmem : it ∈ t.log.queue.timers := TimerLog.mem_of_mem_due hit
  have hclock : x.now ≤ x.clock it.timer := hforward it.timer
  have hpos : 0 < it.timer.interval := of_decide_eq_true hrep
  rcases List.mem_append.1 hf with hpast | hnow
  · have hprev := h.next f hpast it hmem
    refine ⟨hprev.1, fun hf => ?_⟩
    have hfit := hfits hf it hit hrep
    have hadd := addMicroSeconds_nonneg hpos hfit
    have hlate : it.timer.timestamp ≤ addTime (x.clock it.timer) it.timer.interval :=
      calc it.timer.timestamp ≤ x.now := h.keyed.timestamp_le h.wellFormed hit
        _ ≤ x.clock it.timer := hclock
        _ ≤ x.clock it.timer + addMicroSeconds it.timer.interval := by omega
        _ = addTime (x.clock it.timer) it.timer.interval := (addTime_of_fits hfit).symm
    exact (hprev.mono_now hlate).2 hf
  · rcases TimerLog.mem_firings.1 hnow with ⟨it', hit', rfl⟩
    have hsame (heq : it'.timer.serial = it.timer.serial) : it' = it :=
      h.keyed.eq_of_serial h.wellFormed (TimerLog.mem_of_mem_due hit') hmem heq
    constructor
    · intro heq
      rw [hsame heq]
      exact hrep
    · intro hf heq
      have hfit := hfits hf it hit hrep
      rw [hsame heq, addTime_of_fits hfit]
      refine ⟨by dsimp only; omega, fun hsmall => ?_⟩
      have hfloor := floor_le_addMicroSeconds hpos hfit hsmall
      dsimp only
      omega

theorem Spaced.follows_stays {f : Firing} (hf : f ∈ t.firings ++ t.log.firings (.handleTimers x))
    {e : Entry} (he : e ∈ t.log.queue.timers)
    (hbehind : ¬ Lib.Before Entry.key (t.log.handleEnd x) e.key) :
    f.Follows fits ⟨e.timer.timestamp, e.timer⟩ := by
  rcases List.mem_append.1 hf with hpast | hnow
  · exact h.next f hpast e he
  · rcases TimerLog.mem_firings.1 hnow with ⟨it, hit, rfl⟩
    rcases (TimerLog.mem_due h.wellFormed).1 hit with ⟨hmem, hbefore⟩
    apply Firing.follows_of_ne
    intro heq
    have hsame : it = e := h.keyed.eq_of_serial h.wellFormed hmem he heq
    rw [hsame] at hbefore
    exact hbehind hbefore

theorem Spaced.past_firings :
    ∀ f ∈ t.firings ++ t.log.firings (.handleTimers x),
      f.timer.serial < t.log.inserted.length := by
  intro f hf
  rcases List.mem_append.1 hf with hpast | hnow
  · exact h.past f hpast
  · rcases TimerLog.mem_firings.1 hnow with ⟨it, hit, rfl⟩
    exact h.wellFormed.serial_lt (TimerLog.mem_of_mem_due hit)

theorem Spaced.next_handleTimers (ha : t.log.Allocated (.handleTimers x))
    (hforward : ∀ timer, x.now ≤ x.clock timer)
    (hfits : fits → t.log.RestartsFit (.handleTimers x)) :
    NextFollows fits (t.firings ++ t.log.firings (.handleTimers x)) (t.log.handleTimers x) := by
  intro f hf e he
  rcases (h.wellFormed.mem_handleTimers ha).1 he with ⟨hmem, hbehind⟩ | ⟨it, hit, hrep, heq⟩
  · rcases ha.mem_afterCallbacks.1 hmem with hold | ⟨timer, hnew, heq⟩
    · exact h.follows_stays hf hold hbehind
    · rw [heq]
      exact follows_of_new (h.past_firings f hf) (TimerLog.mem_made hnew).1 _
  · rw [heq]
    exact h.follows_restart hforward hfits hf hit hrep

theorem Spaced.handleTimers (ha : t.log.Allocated (.handleTimers x))
    (hforward : ∀ timer, x.now ≤ x.clock timer)
    (hfits : fits → t.log.RestartsFit (.handleTimers x)) :
    Spaced fits
      { log := t.log.handleTimers x
        firings := t.firings ++ t.log.firings (.handleTimers x) } := by
  refine ⟨h.wellFormed.handleTimers ha, h.keyed.handleTimers h.wellFormed ha, ?_,
    h.next_handleTimers ha hforward hfits, h.follows_firings⟩
  intro f hf
  have hold := h.past_firings f hf
  have hinserted : (t.log.handleTimers x).inserted = (t.log.afterCallbacks x).inserted := rfl
  rw [hinserted, TimerLog.afterCallbacks_inserted, List.length_append]
  omega

end HandleTimers

theorem Spaced.insert {t : Fired} (h : Spaced fits t) {c : Call}
    (ha : t.log.Allocated (.insert c)) : Spaced fits { t with log := t.log.insert c } := by
  refine ⟨h.wellFormed.exec ha, h.keyed.insert c, ?_, h.next_insert c, h.follows⟩
  intro f hf
  have hold := h.past f hf
  rw [TimerLog.insert_inserted, List.length_append]
  omega

theorem Spaced.step {t t' : Fired} (h : Spaced fits t) {op : TimerOp} (hforward : op.Forward)
    (hfits : fits → t.log.RestartsFit op) (hstep : t.step op = some t') : Spaced fits t' := by
  rcases of_step hstep with ⟨ha, rfl⟩
  cases op with
  | insert c =>
      rw [TimerLog.firings, List.append_nil]
      exact h.insert ha
  | handleTimers x => exact h.handleTimers ha hforward hfits

theorem Spaced.runs_punctually {t : Fired} (h : Spaced fits t) (op : TimerOp) :
    t.log.Punctual op := by
  cases op with
  | insert c => exact TimerLog.insert_punctual t.log c
  | handleTimers x => exact h.keyed.handleTimers_punctual h.wellFormed x

abbrev RestartsFit (t : Fired) (op : TimerOp) : Prop := t.log.RestartsFit op

theorem spaced_of_run {ops : List TimerOp} (hforward : ∀ op ∈ ops, op.Forward)
    (hfits : fits → Lib.Each step RestartsFit {} ops) : Lib.Always step (Spaced fits) {} ops := by
  have heach : Lib.Each step (fun t op => op.Forward ∧ (fits → t.RestartsFit op)) ({} : Fired) ops := by
    by_cases hf : fits
    · exact (Lib.each_of_mem hforward _).and ((hfits hf).mono fun _ _ h _ => h)
    · exact (Lib.each_of_mem hforward _).mono fun _ _ h => ⟨h, fun hf' => absurd hf' hf⟩
  refine heach.always ?_ (spaced_init fits)
  intro t op t' h ⟨hop, hfit⟩ hstep
  exact h.step hop hfit hstep

/-- **TimeQueue.** No call of `HandleTimers` runs a timer early, leaves out one that is overdue, or
runs the timers out of order or one of them twice. Over the whole run a timer that does not repeat
runs once at most. Where no restart leaves the range of `int64_t`, between any two runs of one that
does lies what `AddTime` adds for its interval: up to 2^53 microseconds the truncated interval. -/
theorem punctual (ops : List TimerOp) (hforward : ∀ op ∈ ops, op.Forward) :
    Lib.Each step (fun t op => t.log.Punctual op) {} ops ∧
      Lib.Always step (fun t => t.firings.Pairwise Firing.Once) {} ops ∧
        (Lib.Each step RestartsFit {} ops →
          Lib.Always step (fun t => t.firings.Pairwise Firing.Apart) {} ops) := by
  have honce : Lib.Always step (Spaced False) {} ops := spaced_of_run hforward False.elim
  refine ⟨honce.each fun t op _ h _ => h.runs_punctually op, ?_, fun hfits => ?_⟩
  · exact honce.mono fun t h => h.follows.imp fun hf => hf.1
  · have hapart : Lib.Always step (Spaced True) {} ops := spaced_of_run hforward fun _ => hfits
    exact hapart.mono fun t h => h.follows.imp fun hf => hf.2 trivial

/-- A timer that repeats every second, due at 100 and handled at 200 and 1000200, and in between
once when nothing is due. -/
def secondsRun : List TimerOp :=
  [.insert ⟨100, 1, 1, 0⟩, .handleTimers ⟨200, 2, fun _ => [], fun _ => 200, 200⟩,
    .handleTimers ⟨300, 2, fun _ => [], fun _ => 300, 300⟩,
    .handleTimers ⟨1000200, 2, fun _ => [], fun _ => 1000200, 1000200⟩]

theorem punctual_secondsRun :
    Lib.Each step (fun t op => t.log.Punctual op) {} secondsRun ∧
      Lib.Always step (fun t => t.firings.Pairwise Firing.Once) {} secondsRun ∧
        Lib.Always step (fun t => t.firings.Pairwise Firing.Apart) {} secondsRun := by
  have hforward : ∀ op ∈ secondsRun, op.Forward := by simp [secondsRun, TimerOp.Forward]
  have hfits : Lib.Each step RestartsFit {} secondsRun := by decide +kernel
  obtain ⟨hpunctual, honce, hapart⟩ := punctual secondsRun hforward
  exact ⟨hpunctual, honce, hapart hfits⟩

/-! ## Where the interval is not kept -/

def handledTwice (interval : Rat) (later : Int) : List TimerOp :=
  [.insert ⟨100, interval, 1, 0⟩, .handleTimers ⟨200, 2, fun _ => [], fun _ => 200, 200⟩,
    .handleTimers ⟨later, 2, fun _ => [], fun _ => later, later⟩]

theorem forward_handledTwice (interval : Rat) (later : Int) :
    ∀ op ∈ handledTwice interval later, op.Forward := by
  simp [handledTwice, TimerOp.Forward]

theorem not_apart_of_end {ops : List TimerOp} {f f' : Firing} (hnot : ¬ f.ApartByInterval f')
    (hend : (Lib.runFrom step {} ops).map Fired.firings = some [f, f']) :
    ¬ Lib.Always step (fun t => t.firings.Pairwise Firing.ApartByInterval) {} ops := by
  intro h
  obtain ⟨t, hpair, hfirings⟩ := h.exists_end hend
  rw [hfirings] at hpair
  exact hnot ((List.pairwise_cons.1 hpair).1 f' List.mem_cons_self)

/-- An interval of 571 years: its microseconds are rounded to a multiple of 4. -/
def longInterval : Rat := 18014398510 + 13 / 262144

/-- One timer runs a microsecond early for its interval. Another repeats every 10^13 seconds, which
are no `int64_t` in microseconds: it runs again at once. -/
theorem not_apartByInterval :
    ((∀ op ∈ handledTwice longInterval 18014398510000248, op.Forward) ∧
      ¬ Lib.Always step (fun t => t.firings.Pairwise Firing.ApartByInterval) {}
        (handledTwice longInterval 18014398510000248)) ∧
    ((∀ op ∈ handledTwice (10 ^ 13) 300, op.Forward) ∧
      ¬ Lib.Always step (fun t => t.firings.Pairwise Firing.ApartByInterval) {}
        (handledTwice (10 ^ 13) 300)) := by
  have hlong : (Lib.runFrom step {} (handledTwice longInterval 18014398510000248)).map
      Fired.firings = some [⟨200, ⟨0, 1, 100, longInterval⟩⟩,
        ⟨18014398510000248, ⟨0, 1, 18014398510000248, longInterval⟩⟩] := by decide +kernel
  have hhuge : (Lib.runFrom step {} (handledTwice (10 ^ 13) 300)).map Fired.firings =
      some [⟨200, ⟨0, 1, 100, 10 ^ 13⟩⟩,
        ⟨300, ⟨0, 1, 200 - 2 ^ 63, 10 ^ 13⟩⟩] := by decide +kernel
  constructor
  · exact ⟨forward_handledTwice _ _, not_apart_of_end (by decide +kernel) hlong⟩
  · exact ⟨forward_handledTwice _ _, not_apart_of_end (by decide +kernel) hhuge⟩

end Fired

end CPlusServer

import CPlusServer.Lib.Run
import CPlusServer.Timer.TimeQueue

/-!
# Which timers stay

`HandleTimers` erases up to an iterator it took before the callbacks, so an
entry that a callback puts before it goes with the ones that have been run. No
timer is lost in exactly those runs in which every such entry lies behind it.
-/

namespace CPlusServer

namespace TimeQueue

@[simp] theorem resetToFirst_timers (q : TimeQueue) (now : Int) :
    (q.resetToFirst now).timers = q.timers := by
  unfold resetToFirst
  split <;> rfl

@[simp] theorem resetToFirst_activeTimers (q : TimeQueue) (now : Int) :
    (q.resetToFirst now).activeTimers = q.activeTimers := by
  unfold resetToFirst
  split <;> rfl

@[simp] theorem insertTimer_timers (q : TimeQueue) (t : Timer) :
    (q.insertTimer t).1.timers = Lib.emplace Entry.key t.entry q.timers := rfl

@[simp] theorem insert_timers (q : TimeQueue) (t : Timer) (now : Int) :
    (q.insert t now).timers = Lib.emplace Entry.key t.entry q.timers := by
  unfold insert
  dsimp only
  split
  · exact resetToFirst_timers _ now
  · rfl

@[simp] theorem insert_activeTimers (q : TimeQueue) (t : Timer) (now : Int) :
    (q.insert t now).activeTimers = q.activeTimers := by
  unfold insert
  dsimp only
  split
  · exact resetToFirst_activeTimers _ now
  · rfl

/-- An entry at an address of its own has a key of its own. -/
theorem key_ne_of_addr_ne {e e' : Entry} (h : e.timer.addr ≠ e'.timer.addr) : e.key ≠ e'.key := by
  intro heq
  have hpair : (e.timestamp, e.timer.addr) = (e'.timestamp, e'.timer.addr) := toLex.injective heq
  exact h (congrArg Prod.snd hpair)

theorem timestamp_le_of_key_lt {e : Entry} {timestamp : Int} {addr : Nat}
    (h : e.key < toLex (timestamp, addr)) : e.timestamp ≤ timestamp := by
  rcases Prod.Lex.toLex_lt_toLex.1 h with hlt | heq
  · exact le_of_lt hlt
  · exact le_of_eq heq.1

theorem mem_restartAll {clock : Timer → Int} {es : List Entry} {q : TimeQueue}
    (hes : es.Pairwise fun a b => a.timer.addr ≠ b.timer.addr)
    (hq : ∀ e ∈ q.timers, ∀ it ∈ es, e.timer.addr ≠ it.timer.addr) {x : Entry} :
    x ∈ (restartAll clock es q).timers ↔ x ∈ q.timers ∨
      ∃ it ∈ es, it.timer.ifRepeat = true ∧ x = (it.timer.restart (clock it.timer)).entry := by
  induction es generalizing q with
  | nil => simp [restartAll]
  | cons it rest ih =>
      rcases List.pairwise_cons.1 hes with ⟨hit, hrest⟩
      unfold restartAll
      by_cases hr : it.timer.ifRepeat = true
      · rw [if_pos hr]
        have hnew : ∀ b ∈ q.timers, b.key ≠ (it.timer.restart (clock it.timer)).entry.key :=
          fun b hb => key_ne_of_addr_ne (hq b hb it List.mem_cons_self)
        have hq' : ∀ e ∈ (q.insertTimer (it.timer.restart (clock it.timer))).1.timers,
            ∀ it' ∈ rest, e.timer.addr ≠ it'.timer.addr := by
          intro e he it' hit'
          rw [insertTimer_timers, Lib.mem_emplace hnew] at he
          rcases he with he | he
          · rw [he]
            exact hit it' hit'
          · exact hq e he it' (List.mem_cons_of_mem it hit')
        rw [ih hrest hq', insertTimer_timers, Lib.mem_emplace hnew]
        simp only [List.mem_cons, exists_eq_or_imp, hr, true_and, or_assoc]
        exact or_left_comm
      · rw [if_neg hr, ih hrest fun e he it' hit' => hq e he it' (List.mem_cons_of_mem it hit')]
        simp [hr]

theorem sorted_restartAll {clock : Timer → Int} {es : List Entry} {q : TimeQueue}
    (h : Lib.Sorted Entry.key q.timers) : Lib.Sorted Entry.key (restartAll clock es q).timers := by
  induction es generalizing q with
  | nil => exact h
  | cons it rest ih =>
      unfold restartAll
      split
      · exact ih h.emplace
      · exact ih h

end TimeQueue

namespace TimerLog

/-! ## The calls of `Insert` -/

def newTimer (l : TimerLog) (c : Call) : Timer :=
  ⟨l.inserted.length, c.addr, c.timestamp, c.interval⟩

theorem insert_inserted (l : TimerLog) (c : Call) :
    (l.insert c).inserted = l.inserted ++ [l.newTimer c] := rfl

theorem insert_queue (l : TimerLog) (c : Call) :
    (l.insert c).queue = l.queue.insert (l.newTimer c) c.now := rfl

theorem mem_of_mem_insert {l : TimerLog} {c : Call} {x : Entry}
    (h : x ∈ (l.insert c).queue.timers) : x = (l.newTimer c).entry ∨ x ∈ l.queue.timers := by
  rw [insert_queue, TimeQueue.insert_timers] at h
  exact Lib.mem_of_mem_emplace h

theorem mem_insert {l : TimerLog} {c : Call} (hnew : ∀ e ∈ l.queue.timers, e.timer.addr ≠ c.addr)
    {x : Entry} :
    x ∈ (l.insert c).queue.timers ↔ x = (l.newTimer c).entry ∨ x ∈ l.queue.timers := by
  have hkey : ∀ e ∈ l.queue.timers, e.key ≠ (l.newTimer c).entry.key :=
    fun e he => TimeQueue.key_ne_of_addr_ne (hnew e he)
  rw [insert_queue, TimeQueue.insert_timers, Lib.mem_emplace hkey]

theorem Allocated.fresh {l : TimerLog} {c : Call} (ha : l.Allocated (.insert c)) :
    ∀ e ∈ l.queue.timers, e.timer.addr ≠ c.addr := by
  intro e he heq
  apply ha
  rw [← heq]
  exact List.mem_map.2 ⟨e, List.mem_append_left _ he, rfl⟩

def made (n : Nat) : List Call → List Timer
  | [] => []
  | c :: cs => ⟨n, c.addr, c.timestamp, c.interval⟩ :: made (n + 1) cs

theorem mem_made {n : Nat} {cs : List Call} {t : Timer} (h : t ∈ made n cs) :
    n ≤ t.serial ∧ ∃ c ∈ cs, t.timestamp = c.timestamp ∧ t.addr = c.addr := by
  induction cs generalizing n with
  | nil => exact absurd h List.not_mem_nil
  | cons c cs ih =>
      rcases List.mem_cons.1 h with heq | hmem
      · rw [heq]
        exact ⟨Nat.le_refl n, c, List.mem_cons_self, rfl, rfl⟩
      · rcases ih hmem with ⟨hle, c', hc', hkey⟩
        exact ⟨by omega, c', List.mem_cons_of_mem c hc', hkey⟩

theorem exists_made (n : Nat) {cs : List Call} {c : Call} (h : c ∈ cs) :
    ∃ t ∈ made n cs, t.timestamp = c.timestamp ∧ t.addr = c.addr := by
  induction cs generalizing n with
  | nil => exact absurd h List.not_mem_nil
  | cons c' cs ih =>
      rcases List.mem_cons.1 h with heq | hmem
      · rw [heq]
        exact ⟨_, List.mem_cons_self, rfl, rfl⟩
      · obtain ⟨t, ht, hkey⟩ := ih (n + 1) hmem
        exact ⟨t, List.mem_cons_of_mem _ ht, hkey⟩

structure New (l : TimerLog) (cs : List Call) : Prop where
  nodup : (cs.map Call.addr).Nodup
  fresh : ∀ c ∈ cs, ∀ e ∈ l.queue.timers, e.timer.addr ≠ c.addr

theorem insertAll_cons (l : TimerLog) (c : Call) (cs : List Call) :
    l.insertAll (c :: cs) = (l.insert c).insertAll cs := rfl

theorem insertAll_append (l : TimerLog) (cs cs' : List Call) :
    l.insertAll (cs ++ cs') = (l.insertAll cs).insertAll cs' := List.foldl_append

theorem New.tail {l : TimerLog} {c : Call} {cs : List Call} (h : New l (c :: cs)) :
    New (l.insert c) cs := by
  have hnodup : c.addr ∉ cs.map Call.addr ∧ (cs.map Call.addr).Nodup := List.nodup_cons.1 h.nodup
  refine ⟨hnodup.2, fun c' hc' e he => ?_⟩
  rcases mem_of_mem_insert he with he | he
  · rw [he]
    intro heq
    exact hnodup.1 (List.mem_map.2 ⟨c', hc', heq.symm⟩)
  · exact h.fresh c' (List.mem_cons_of_mem c hc') e he

theorem mem_insertAll {l : TimerLog} {cs : List Call} (h : New l cs) {x : Entry} :
    x ∈ (l.insertAll cs).queue.timers ↔
      x ∈ l.queue.timers ∨ ∃ t ∈ made l.inserted.length cs, x = t.entry := by
  induction cs generalizing l with
  | nil => simp [insertAll, made]
  | cons c cs ih =>
      have hlen : (l.insert c).inserted.length = l.inserted.length + 1 := by
        rw [insert_inserted, List.length_append, List.length_singleton]
      rw [insertAll_cons, ih h.tail, hlen, mem_insert (h.fresh c List.mem_cons_self), made]
      simp only [List.mem_cons, exists_eq_or_imp, or_assoc]
      exact or_left_comm

theorem insertAll_inserted (l : TimerLog) (cs : List Call) :
    (l.insertAll cs).inserted = l.inserted ++ made l.inserted.length cs := by
  induction cs generalizing l with
  | nil => simp [insertAll, made]
  | cons c cs ih =>
      rw [insertAll_cons, ih]
      simp [TimerLog.insert, made]

theorem insertAll_ran (l : TimerLog) (cs : List Call) : (l.insertAll cs).ran = l.ran := by
  induction cs generalizing l with
  | nil => rfl
  | cons c cs ih =>
      rw [insertAll_cons, ih]
      rfl

theorem insertAll_activeTimers (l : TimerLog) (cs : List Call) :
    (l.insertAll cs).queue.activeTimers = l.queue.activeTimers := by
  induction cs generalizing l with
  | nil => rfl
  | cons c cs ih =>
      rw [insertAll_cons, ih]
      exact TimeQueue.insert_activeTimers _ _ _

theorem insertAll_setRan (l : TimerLog) (cs : List Call) (ran : List Nat) :
    { l.insertAll cs with ran := ran } = { l with ran := ran }.insertAll cs := by
  induction cs generalizing l with
  | nil => rfl
  | cons c cs ih =>
      rw [insertAll_cons, ih]
      rfl

theorem runAll_eq (callback : Timer → List Call) (es : List Entry) (l : TimerLog) :
    runAll callback es l =
      { l with ran := l.ran ++ es.map fun it : Entry => it.timer.serial }.insertAll
        (es.flatMap fun it : Entry => callback it.timer) := by
  induction es generalizing l with
  | nil => simp [runAll, insertAll]
  | cons it rest ih =>
      rw [runAll, ih, insertAll_setRan, List.flatMap_cons, insertAll_append, insertAll_ran]
      simp

/-! ## The invariant -/

structure WellFormed (l : TimerLog) : Prop where
  sorted : Lib.Sorted Entry.key l.queue.timers
  apart : ∀ a ∈ l.queue.timers, ∀ b ∈ l.queue.timers, a.timer.addr = b.timer.addr → a = b
  numbered : ∀ (n : Nat) (t : Timer), l.inserted[n]? = some t → t.serial = n
  origin : ∀ e ∈ l.queue.timers, ∃ t : Timer, l.inserted[e.timer.serial]? = some t ∧
    t.ifRepeat = e.timer.ifRepeat
  ran_lt : ∀ n ∈ l.ran, n < l.inserted.length

theorem wellFormed_empty : WellFormed {} :=
  ⟨List.Pairwise.nil, fun _ ha => absurd ha List.not_mem_nil, fun _ _ h => by simp at h,
    fun _ ha => absurd ha List.not_mem_nil, fun _ ha => absurd ha List.not_mem_nil⟩

theorem WellFormed.serial_lt {l : TimerLog} (h : WellFormed l) {e : Entry}
    (he : e ∈ l.queue.timers) : e.timer.serial < l.inserted.length := by
  rcases h.origin e he with ⟨t, ht, -⟩
  exact (List.getElem?_eq_some_iff.1 ht).1

theorem WellFormed.eq_of_serial {l : TimerLog} (h : WellFormed l) {t t' : Timer}
    (ht : t ∈ l.inserted) (ht' : t' ∈ l.inserted) (heq : t.serial = t'.serial) : t = t' := by
  rcases List.mem_iff_getElem?.1 ht with ⟨n, hn⟩
  obtain ⟨n', hn'⟩ := List.mem_iff_getElem?.1 ht'
  have hnn : n = n' := (h.numbered n t hn).symm.trans (heq.trans (h.numbered n' t' hn'))
  rw [hnn, hn'] at hn
  exact (Option.some.inj hn).symm

theorem WellFormed.insert {l : TimerLog} (h : WellFormed l) {c : Call}
    (hnew : ∀ e ∈ l.queue.timers, e.timer.addr ≠ c.addr) : WellFormed (l.insert c) := by
  refine ⟨?_, ?_, ?_, ?_, ?_⟩
  · rw [insert_queue, TimeQueue.insert_timers]
    exact h.sorted.emplace
  · intro a ha b hb heq
    rcases mem_of_mem_insert ha with ha | ha <;> rcases mem_of_mem_insert hb with hb | hb
    · rw [ha, hb]
    · rw [ha] at heq
      exact absurd heq.symm (hnew b hb)
    · rw [hb] at heq
      exact absurd heq (hnew a ha)
    · exact h.apart a ha b hb heq
  · intro n t hn
    rw [insert_inserted, List.getElem?_append] at hn
    split at hn
    · exact h.numbered n t hn
    · rename_i hge
      have hzero : n - l.inserted.length = 0 := by
        by_contra hne
        rw [List.getElem?_singleton, if_neg hne] at hn
        exact nomatch hn
      rw [hzero, List.getElem?_cons_zero] at hn
      cases hn
      show l.inserted.length = n
      omega
  · intro e he
    rw [insert_inserted]
    rcases mem_of_mem_insert he with he | he
    · rw [he]
      exact ⟨_, List.getElem?_concat_length, rfl⟩
    · rcases h.origin e he with ⟨t, ht, hrep⟩
      refine ⟨t, ?_, hrep⟩
      rw [List.getElem?_append_left (h.serial_lt he)]
      exact ht
  · intro n hn
    have hlt := h.ran_lt n hn
    rw [insert_inserted, List.length_append, List.length_singleton]
    omega

theorem WellFormed.insertAll {l : TimerLog} (h : WellFormed l) {cs : List Call} (hnew : New l cs) :
    WellFormed (l.insertAll cs) := by
  induction cs generalizing l with
  | nil => exact h
  | cons c cs ih => exact ih (h.insert (hnew.fresh c List.mem_cons_self)) hnew.tail

/-! ## `HandleTimers` -/

/-- The queue when the callbacks have run and nothing has been erased yet. -/
def afterCallbacks (l : TimerLog) (x : Handling) : TimerLog :=
  runAll x.callback (l.due x) { l with queue := { l.queue with activeTimers := l.due x } }

def beforeCalls (l : TimerLog) (x : Handling) : TimerLog :=
  { l with
    queue := { l.queue with activeTimers := l.due x }
    ran := l.ran ++ (l.due x).map fun it : Entry => it.timer.serial }

theorem afterCallbacks_eq (l : TimerLog) (x : Handling) :
    l.afterCallbacks x = (l.beforeCalls x).insertAll (l.calls x) :=
  runAll_eq _ _ _

theorem afterCallbacks_inserted (l : TimerLog) (x : Handling) :
    (l.afterCallbacks x).inserted = l.inserted ++ made l.inserted.length (l.calls x) := by
  rw [afterCallbacks_eq, insertAll_inserted]
  rfl

theorem afterCallbacks_ran (l : TimerLog) (x : Handling) :
    (l.afterCallbacks x).ran = l.ran ++ (l.due x).map fun it : Entry => it.timer.serial := by
  rw [afterCallbacks_eq, insertAll_ran]
  rfl

theorem afterCallbacks_activeTimers (l : TimerLog) (x : Handling) :
    (l.afterCallbacks x).queue.activeTimers = l.due x := by
  rw [afterCallbacks_eq, insertAll_activeTimers]
  rfl

theorem handleTimers_timers (l : TimerLog) (x : Handling) :
    (l.handleTimers x).queue.timers =
      (TimeQueue.restartAll x.clock (l.due x)
        { (l.afterCallbacks x).queue with
          timers := Lib.eraseUpTo Entry.key (l.handleEnd x)
            (l.afterCallbacks x).queue.timers }).timers := by
  rw [← afterCallbacks_activeTimers]
  exact TimeQueue.resetToFirst_timers _ _

theorem handleEnd_mem {l : TimerLog} {x : Handling} : ∀ b ∈ l.handleEnd x, b ∈ l.queue.timers :=
  fun _ hb => (Lib.mem_of_lowerBound hb).1

theorem mem_of_mem_due {l : TimerLog} {x : Handling} {e : Entry} (h : e ∈ l.due x) :
    e ∈ l.queue.timers := (Lib.upTo_sublist _ _).subset h

theorem mem_due {l : TimerLog} (h : WellFormed l) {x : Handling} {e : Entry} :
    e ∈ l.due x ↔ e ∈ l.queue.timers ∧ Lib.Before Entry.key (l.handleEnd x) e.key :=
  Lib.mem_upTo_iff h.sorted handleEnd_mem

theorem Allocated.new {l : TimerLog} {x : Handling} (ha : l.Allocated (.handleTimers x)) :
    New (l.beforeCalls x) (l.calls x) := by
  rcases ha with ⟨-, hnodup, hfresh⟩
  refine ⟨hnodup, fun c hc e he heq => hfresh c hc ?_⟩
  rw [← heq]
  exact List.mem_map.2 ⟨e, List.mem_append_left _ he, rfl⟩

theorem Allocated.mem_afterCallbacks {l : TimerLog} {x : Handling}
    (ha : l.Allocated (.handleTimers x)) {e : Entry} :
    e ∈ (l.afterCallbacks x).queue.timers ↔
      e ∈ l.queue.timers ∨ ∃ t ∈ made l.inserted.length (l.calls x), e = t.entry := by
  rw [afterCallbacks_eq]
  exact mem_insertAll ha.new

namespace WellFormed

variable {l : TimerLog} {x : Handling} (h : WellFormed l)

include h

theorem afterCallbacks (ha : l.Allocated (.handleTimers x)) : WellFormed (l.afterCallbacks x) := by
  rw [afterCallbacks_eq]
  have hbefore : WellFormed (l.beforeCalls x) := by
    refine ⟨h.sorted, h.apart, h.numbered, h.origin, fun n hn => ?_⟩
    rcases List.mem_append.1 hn with hn | hn
    · exact h.ran_lt n hn
    · obtain ⟨e, he, rfl⟩ := List.mem_map.1 hn
      exact h.serial_lt (mem_of_mem_due he)
  exact hbefore.insertAll ha.new

theorem sorted_due : Lib.Sorted Entry.key (l.due x) :=
  List.Pairwise.sublist (Lib.upTo_sublist _ _) h.sorted

theorem due_pairwise : (l.due x).Pairwise fun a b => a.timer.addr ≠ b.timer.addr := by
  refine List.Pairwise.imp_of_mem (fun ha hb hlt heq => ?_) h.sorted_due
  have hab := h.apart _ (mem_of_mem_due ha) _ (mem_of_mem_due hb) heq
  rw [hab] at hlt
  exact absurd hlt (lt_irrefl _)

theorem mem_erased (ha : l.Allocated (.handleTimers x)) {e : Entry} :
    e ∈ Lib.eraseUpTo Entry.key (l.handleEnd x) (l.afterCallbacks x).queue.timers ↔
      e ∈ (l.afterCallbacks x).queue.timers ∧ ¬ Lib.Before Entry.key (l.handleEnd x) e.key :=
  Lib.mem_eraseUpTo_iff (h.afterCallbacks ha).sorted fun b hb =>
    ha.mem_afterCallbacks.2 (.inl (handleEnd_mem b hb))

/-- The timers run and the entries left lie at different addresses. -/
theorem addr_ne_of_erased (ha : l.Allocated (.handleTimers x)) {e it : Entry}
    (he : e ∈ Lib.eraseUpTo Entry.key (l.handleEnd x) (l.afterCallbacks x).queue.timers)
    (hit : it ∈ l.due x) : e.timer.addr ≠ it.timer.addr := by
  intro heq
  rcases (h.mem_erased ha).1 he with ⟨hmem, hbehind⟩
  rcases (mem_due h).1 hit with ⟨hold, hbefore⟩
  have hsame := (h.afterCallbacks ha).apart e hmem it (ha.mem_afterCallbacks.2 (.inl hold)) heq
  rw [hsame] at hbehind
  exact hbehind hbefore

/-- What `HandleTimers` leaves: the entries behind the iterator, whenever they came, and the
repeating timers it has run, under their new deadlines. -/
theorem mem_handleTimers (ha : l.Allocated (.handleTimers x)) {e : Entry} :
    e ∈ (l.handleTimers x).queue.timers ↔
      (e ∈ (l.afterCallbacks x).queue.timers ∧ ¬ Lib.Before Entry.key (l.handleEnd x) e.key) ∨
        ∃ it ∈ l.due x, it.timer.ifRepeat = true ∧
          e = (it.timer.restart (x.clock it.timer)).entry := by
  rw [handleTimers_timers, TimeQueue.mem_restartAll h.due_pairwise
    (fun e he it hit => h.addr_ne_of_erased ha he hit), h.mem_erased ha]

theorem handleTimers (ha : l.Allocated (.handleTimers x)) : WellFormed (l.handleTimers x) := by
  have hafter := h.afterCallbacks ha
  have hinserted : (l.handleTimers x).inserted = (l.afterCallbacks x).inserted := rfl
  have hran : (l.handleTimers x).ran = (l.afterCallbacks x).ran := rfl
  refine ⟨?_, ?_, hafter.numbered, ?_, hafter.ran_lt⟩
  · rw [handleTimers_timers]
    exact TimeQueue.sorted_restartAll hafter.sorted.eraseUpTo
  · intro a hma b hmb heq
    rw [h.mem_handleTimers ha] at hma hmb
    rcases hma with hma | ⟨it, hit, -, rfl⟩ <;> rcases hmb with hmb | ⟨it', hit', -, rfl⟩
    · exact hafter.apart a hma.1 b hmb.1 heq
    · have hne : a.timer.addr ≠ it'.timer.addr :=
        h.addr_ne_of_erased ha ((h.mem_erased ha).2 hma) hit'
      exact absurd heq hne
    · have hne : b.timer.addr ≠ it.timer.addr :=
        h.addr_ne_of_erased ha ((h.mem_erased ha).2 hmb) hit
      exact absurd heq.symm hne
    · have hsame := h.apart it (mem_of_mem_due hit) it' (mem_of_mem_due hit') heq
      rw [hsame]
  · intro e he
    rw [hinserted]
    rw [h.mem_handleTimers ha] at he
    rcases he with he | ⟨it, hit, -, rfl⟩
    · exact hafter.origin e he.1
    · exact hafter.origin it (ha.mem_afterCallbacks.2 (.inl (mem_of_mem_due hit)))

theorem exec {op : TimerOp} (ha : l.Allocated op) : WellFormed (l.exec op) := by
  cases op with
  | insert c => exact h.insert ha.fresh
  | handleTimers x => exact h.handleTimers ha

end WellFormed

/-! ## Lost timers -/

def Pending (l : TimerLog) (t : Timer) : Prop := ∃ e ∈ l.queue.timers, e.timer.serial = t.serial

/-- Every timer inserted is still there, or was to run once and has run. -/
def NoTimerLost (l : TimerLog) : Prop :=
  ∀ t ∈ l.inserted, l.Pending t ∨ t.ifRepeat = false ∧ t.serial ∈ l.ran

/-- Every entry that a callback inserts lies behind the first entry that is not due. -/
def InsertsBehind (l : TimerLog) : TimerOp → Prop
  | .insert _ => True
  | .handleTimers x => ∀ c ∈ l.calls x,
      ¬ Lib.Before Entry.key (l.handleEnd x) (toLex (c.timestamp, c.addr))

theorem NoTimerLost.insert {l : TimerLog} (hno : NoTimerLost l) {c : Call}
    (ha : l.Allocated (.insert c)) : NoTimerLost (l.insert c) := by
  intro t ht
  rcases List.mem_append.1 ht with ht | ht
  · rcases hno t ht with ⟨e, he, hserial⟩ | hran
    · exact .inl ⟨e, (mem_insert ha.fresh).2 (.inr he), hserial⟩
    · exact .inr hran
  · rw [List.mem_singleton.1 ht]
    exact .inl ⟨_, (mem_insert ha.fresh).2 (.inl rfl), rfl⟩

/-- Where the callbacks insert behind the iterator, what is erased is what has been run. -/
theorem NoTimerLost.handleTimers {l : TimerLog} {x : Handling} (hno : NoTimerLost l)
    (h : WellFormed l) (ha : l.Allocated (.handleTimers x)) (hb : l.InsertsBehind (.handleTimers x)) :
    NoTimerLost (l.handleTimers x) := by
  intro t ht
  have hinserted : (l.handleTimers x).inserted = (l.afterCallbacks x).inserted := rfl
  have hran : (l.handleTimers x).ran = (l.afterCallbacks x).ran := rfl
  rw [hran, afterCallbacks_ran]
  rw [hinserted, afterCallbacks_inserted] at ht
  rcases List.mem_append.1 ht with hold | hnew
  · rcases hno t hold with ⟨e, he, hserial⟩ | ⟨honce, hbefore⟩
    · by_cases hdue : Lib.Before Entry.key (l.handleEnd x) e.key
      · have hit : e ∈ l.due x := (mem_due h).2 ⟨he, hdue⟩
        have hrep : t.ifRepeat = e.timer.ifRepeat := by
          obtain ⟨t', ht', hrep⟩ := h.origin e he
          have hsame : t' = t :=
            h.eq_of_serial (List.mem_of_getElem? ht') hold ((h.numbered _ t' ht').trans hserial)
          rw [← hsame]
          exact hrep
        by_cases honce : t.ifRepeat = false
        · refine .inr ⟨honce, List.mem_append_right _ ?_⟩
          rw [← hserial]
          exact List.mem_map.2 ⟨e, hit, rfl⟩
        · have hrepeat : e.timer.ifRepeat = true := by
            rw [← hrep]
            exact Bool.eq_true_of_not_eq_false honce
          exact .inl ⟨_, (h.mem_handleTimers ha).2 (.inr ⟨e, hit, hrepeat, rfl⟩), hserial⟩
      · have hstays : e ∈ (l.afterCallbacks x).queue.timers := ha.mem_afterCallbacks.2 (.inl he)
        exact .inl ⟨e, (h.mem_handleTimers ha).2 (.inl ⟨hstays, hdue⟩), hserial⟩
    · exact .inr ⟨honce, List.mem_append_left _ hbefore⟩
  · rcases mem_made hnew with ⟨-, c, hc, htime, haddr⟩
    have hbehind : ¬ Lib.Before Entry.key (l.handleEnd x) t.entry.key := by
      have hcall := hb c hc
      rw [← htime, ← haddr] at hcall
      exact hcall
    have hstays : t.entry ∈ (l.afterCallbacks x).queue.timers :=
      ha.mem_afterCallbacks.2 (.inr ⟨t, hnew, rfl⟩)
    exact .inl ⟨_, (h.mem_handleTimers ha).2 (.inl ⟨hstays, hbehind⟩), rfl⟩

/-- An entry that a callback puts before the iterator is erased without having been run. -/
theorem not_noTimerLost_handleTimers {l : TimerLog} {x : Handling} (h : WellFormed l)
    (ha : l.Allocated (.handleTimers x)) (hb : ¬ l.InsertsBehind (.handleTimers x)) :
    ¬ NoTimerLost (l.handleTimers x) := by
  intro hno
  have hafter := h.afterCallbacks ha
  unfold InsertsBehind at hb
  push Not at hb
  rcases hb with ⟨c, hc, hbefore⟩
  obtain ⟨t, hnew, htime, haddr⟩ := exists_made l.inserted.length hc
  rw [← htime, ← haddr] at hbefore
  have hlt : l.inserted.length ≤ t.serial := (mem_made hnew).1
  have ht : t ∈ (l.afterCallbacks x).inserted := by
    rw [afterCallbacks_inserted]
    exact List.mem_append_right _ hnew
  rcases hno t ht with ⟨e, he, hserial⟩ | ⟨-, hran⟩
  · rcases (h.mem_handleTimers ha).1 he with ⟨hmem, hbehind⟩ | ⟨it, hit, -, hrestart⟩
    · rcases ha.mem_afterCallbacks.1 hmem with hold | ⟨t', hnew', hentry⟩
      · have hsmall := h.serial_lt hold
        omega
      · have ht' : t' ∈ (l.afterCallbacks x).inserted := by
          rw [afterCallbacks_inserted]
          exact List.mem_append_right _ hnew'
        rw [hentry] at hserial hbehind
        have hsame : t' = t := hafter.eq_of_serial ht' ht hserial
        rw [hsame] at hbehind
        exact hbehind hbefore
    · have hsmall := h.serial_lt (mem_of_mem_due hit)
      have hsame : e.timer.serial = it.timer.serial := by
        rw [hrestart]
        rfl
      omega
  · have hsmall : t.serial < l.inserted.length := by
      have hran' : t.serial ∈ (l.afterCallbacks x).ran := hran
      rw [afterCallbacks_ran] at hran'
      rcases List.mem_append.1 hran' with hran' | hran'
      · exact h.ran_lt _ hran'
      · rcases List.mem_map.1 hran' with ⟨e, he, heq⟩
        rw [← heq]
        exact h.serial_lt (mem_of_mem_due he)
    omega

/-- **TimeQueue.** No timer is lost in a run exactly when every `HandleTimers` of it has its
callbacks insert behind the first entry that is not due. -/
theorem noTimerLost_iff (ops : List TimerOp) :
    Lib.Always step NoTimerLost {} ops ↔ Lib.Each step InsertsBehind {} ops := by
  refine Lib.always_iff_each (fun l => WellFormed l ∧ NoTimerLost l) ?_ ?_ ?_ ?_ ops
  · intro l hl
    exact hl.2
  · intro l op l' hl hb hstep
    rcases of_step hstep with ⟨ha, rfl⟩
    refine ⟨hl.1.exec ha, ?_⟩
    cases op with
    | insert c => exact hl.2.insert ha
    | handleTimers x => exact hl.2.handleTimers hl.1 ha hb
  · intro l op l' hl hb hstep
    obtain ⟨ha, rfl⟩ := of_step hstep
    cases op with
    | insert c => exact absurd trivial hb
    | handleTimers x => exact not_noTimerLost_handleTimers hl.1 ha hb
  · exact ⟨wellFormed_empty, fun t ht => absurd ht List.not_mem_nil⟩

/-- A timer due at 100, run at 200, whose callback calls `RunAfter` as `OverTime` does. -/
def rearmingRun : List TimerOp :=
  [.insert (EventLoop.runAt 100 1 0),
    .handleTimers ⟨200, 2, fun _ => [EventLoop.runAfter 1 3 200], fun _ => 200, 200⟩]

/-- The timer that the callback inserted has not run, and `timers_` is empty. -/
theorem rearmingRun_loses : ¬ Lib.Always step NoTimerLost {} rearmingRun := by
  have hend : (Lib.runFrom step {} rearmingRun).map
      (fun l => (l.queue.timers, l.inserted.map Timer.serial, l.ran)) =
        some ([], [0, 1], [0]) := by decide +kernel
  intro h
  obtain ⟨l, hall, hl⟩ := h.exists_end hend
  simp only [Prod.mk.injEq] at hl
  rcases hl with ⟨htimers, hinserted, hran⟩
  have hone : 1 ∈ l.inserted.map Timer.serial := by simp [hinserted]
  obtain ⟨t, ht, hserial⟩ := List.mem_map.1 hone
  rcases hall t ht with ⟨e, he, -⟩ | ⟨-, hmem⟩
  · rw [htimers] at he
    exact absurd he List.not_mem_nil
  · rw [hserial, hran] at hmem
    exact absurd hmem (by decide)

end TimerLog

end CPlusServer

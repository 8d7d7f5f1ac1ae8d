import CPlusServer.Log.Insertion

/-!
# Log statements

The statements `LOG_X << ...` of one thread. The thread keeps the text of the last
second it has logged in and the text of its id, and formats them again only when it
must. Whatever the times of the statements are, the records are those that would be
formatted afresh each time.
-/

namespace CPlusServer

structure Tm where
  year : Nat
  mon : Nat
  mday : Nat
  hour : Nat
  min : Nat
  sec : Nat

def timeText (tm : Tm) : Bytes :=
  LogThread.padded ' ' 4 tm.year ++ LogThread.padded '0' 2 tm.mon ++
    LogThread.padded '0' 2 tm.mday ++ ascii " " ++ LogThread.padded '0' 2 tm.hour ++ ascii ":" ++
    LogThread.padded '0' 2 tm.min ++ ascii ":" ++ LogThread.padded '0' 2 tm.sec ++ ascii "."

/-- `snprintf` into an array: what does not fit is cut off, and the rest of the array stays. -/
def snprintf (array text : Bytes) : Bytes :=
  let written := text.take (array.length - 1)
  written ++ NUL :: array.drop (written.length + 1)

structure LogSystem where
  localtime : Nat → Tm
  gettid : Nat
  gettid_pos : 0 < gettid
  gettid_lt : gettid < 2 ^ 31

structure ThreadLocals where
  tTime : Bytes := List.replicate 64 NUL
  tLastsecond : Nat := 0
  tid : Nat := 0
  strTid : Bytes := List.replicate 32 NUL
  lenTid : Nat := 0
  tTime_length : tTime.length = 64 := by rfl
  strTid_length : strTid.length = 32 := by rfl
  lenTid_le : lenTid ≤ 32 := by exact Nat.zero_le _

/-- A statement: the time it reads, its level, what is inserted, `__FILE__` and `__LINE__`. -/
structure LogStatement where
  now : Nat
  level : LogLevel
  items : List LogItem
  file : Bytes
  line : IntegerArg

theorem length_snprintf {array text : Bytes} (h : 0 < array.length) :
    (snprintf array text).length = array.length := by
  have htake : (text.take (array.length - 1)).length ≤ array.length - 1 := by
    rw [List.length_take]
    omega
  unfold snprintf
  simp only [List.length_append, List.length_cons, List.length_drop]
  omega

theorem take_snprintf {array text : Bytes} {n : Nat} (hn : n ≤ text.length)
    (hfits : n < array.length) : (snprintf array text).take n = text.take n := by
  have htake : n ≤ (text.take (array.length - 1)).length := by
    rw [List.length_take]
    omega
  unfold snprintf
  rw [List.take_append_of_le_length htake, List.take_take, Nat.min_eq_left (by omega)]

theorem length_padded (fill : Char) (width n : Nat) :
    (LogThread.padded fill width n).length = max width (stdToString n).length := by
  unfold LogThread.padded
  rw [List.length_append, List.length_replicate]
  omega

theorem length_timeText (tm : Tm) : 17 ≤ (timeText tm).length := by
  have hmarks : (ascii " ").length = 1 ∧ (ascii ":").length = 1 ∧ (ascii ".").length = 1 := by decide
  unfold timeText
  simp only [List.length_append, length_padded, hmarks.1, hmarks.2.1, hmarks.2.2]
  omega

theorem length_tidText_le (sys : LogSystem) : (LogThread.padded ' ' 5 sys.gettid).length ≤ 20 := by
  have hint : IntegerType.int32.Holds (sys.gettid : Int) := by
    have hlt := sys.gettid_lt
    unfold IntegerType.Holds
    omega
  have hdigits := length_stdToString_le hint
  rw [Int.natAbs_natCast] at hdigits
  rw [length_padded]
  omega

namespace ThreadLocals

def formatTime (l : ThreadLocals) (sys : LogSystem) (now : Nat) : ThreadLocals :=
  if l.tLastsecond ≠ now / 1000000 then
    { l with
      tTime := snprintf l.tTime (timeText (sys.localtime (now / 1000000)))
      tLastsecond := now / 1000000
      tTime_length := by
        have hlen := l.tTime_length
        rw [length_snprintf (by omega), hlen] }
  else l

def cacheTid (l : ThreadLocals) (sys : LogSystem) : ThreadLocals :=
  if l.tid = 0 then
    { l with
      tid := sys.gettid
      strTid := snprintf l.strTid (LogThread.padded ' ' 5 sys.gettid)
      lenTid := (LogThread.padded ' ' 5 sys.gettid).length
      strTid_length := by
        have hlen := l.strTid_length
        rw [length_snprintf (by omega), hlen]
      lenTid_le := by
        have hle := length_tidText_le sys
        omega }
  else l

end ThreadLocals

def usText (now : Nat) : Bytes :=
  chr '.' :: LogThread.padded '0' 6 (now % 1000000) ++ [chr 'Z']

/-- The array of the `Formator`, of which 9 bytes are inserted. -/
def usTemplate (now : Nat) : StreamTemplate where
  str := snprintf (List.replicate 32 NUL) (usText now)
  size := 9
  inside := by
    rw [length_snprintf (by rw [List.length_replicate]; omega), List.length_replicate]
    omega

def levelTemplate (level : LogLevel) : StreamTemplate where
  str := level.text
  size := 9
  inside := by cases level <;> decide

namespace ThreadLocals

def header (l : ThreadLocals) (now : Nat) (level : LogLevel) : List LogItem :=
  [.template ⟨l.tTime, 17, by have hlen := l.tTime_length; omega⟩, .template (usTemplate now),
    .template ⟨l.strTid, l.lenTid, by have hlen := l.strTid_length; have hle := l.lenTid_le; omega⟩,
    .cString (some (ascii " ")), .template (levelTemplate level)]

end ThreadLocals

def LogStatement.trailer (s : LogStatement) : List LogItem :=
  [.cString (some (ascii "-")), .cString (some s.file), .cString (some (ascii ":")),
    .integer s.line, .cString (some (ascii "\n"))]

namespace ThreadLocals

/-- A statement from the constructor to `g_output`: the thread after it, and its record. What
`~Impl` does behind `g_output` where the global level is FATAL, which is to flush and abort, is left
out. -/
def log (l : ThreadLocals) (sys : LogSystem) (s : LogStatement) :
    Except LogFault (ThreadLocals × Bytes) := do
  let l := (l.formatTime sys s.now).cacheTid sys
  let stream ← ({} : LogStream).insertAll (l.header s.now s.level ++ s.items ++ s.trailer)
  return (l, stream.data)

def logAll (l : ThreadLocals) (sys : LogSystem) :
    List LogStatement → Except LogFault (List Bytes)
  | [] => .ok []
  | s :: ss => do
      let (l, record) ← l.log sys s
      let records ← l.logAll sys ss
      return record :: records

end ThreadLocals

/-! ## Formatting afresh -/

namespace LogSystem

/-- The texts in front of a record, none of them kept from before. -/
def header (sys : LogSystem) (now : Nat) (level : LogLevel) : List LogItem :=
  [.string ((timeText (sys.localtime (now / 1000000))).take 17), .template (usTemplate now),
    .string (LogThread.padded ' ' 5 sys.gettid), .cString (some (ascii " ")),
    .template (levelTemplate level)]

def items (sys : LogSystem) (s : LogStatement) : List LogItem :=
  sys.header s.now s.level ++ s.items ++ s.trailer

def Fits (sys : LogSystem) (s : LogStatement) : Prop := FitAll FIXEDBUFFERSIZE 0 (sys.items s)

def record (sys : LogSystem) (s : LogStatement) : Bytes := texts (sys.items s)

end LogSystem

namespace ThreadLocals

structure Current (l : ThreadLocals) (sys : LogSystem) : Prop where
  time : l.tTime.take 17 = (timeText (sys.localtime l.tLastsecond)).take 17
  tid : l.tid ≠ 0 → l.strTid.take l.lenTid = LogThread.padded ' ' 5 sys.gettid

variable {l : ThreadLocals} {sys : LogSystem}

/-- The time is current after a second is formatted; it need not be before where the second is
another. -/
theorem time_formatTime {now : Nat} (h : l.tLastsecond = now / 1000000 →
    l.tTime.take 17 = (timeText (sys.localtime l.tLastsecond)).take 17) :
    (l.formatTime sys now).tTime.take 17 =
      (timeText (sys.localtime (now / 1000000))).take 17 ∧
    (l.formatTime sys now).tLastsecond = now / 1000000 := by
  unfold formatTime
  by_cases hsame : l.tLastsecond = now / 1000000
  · rw [if_neg (not_not_intro hsame), ← hsame]
    exact ⟨h hsame, rfl⟩
  · have hlen := l.tTime_length
    rw [if_pos hsame]
    exact ⟨take_snprintf (length_timeText _) (by omega), rfl⟩

theorem formatTime_tid (l : ThreadLocals) (sys : LogSystem) (now : Nat) :
    (l.formatTime sys now).tid = l.tid ∧ (l.formatTime sys now).strTid = l.strTid ∧
      (l.formatTime sys now).lenTid = l.lenTid := by
  unfold formatTime
  split <;> exact ⟨rfl, rfl, rfl⟩

theorem cacheTid_time (l : ThreadLocals) (sys : LogSystem) :
    (l.cacheTid sys).tTime = l.tTime ∧ (l.cacheTid sys).tLastsecond = l.tLastsecond := by
  unfold cacheTid
  split <;> exact ⟨rfl, rfl⟩

theorem tid_cacheTid (h : l.tid ≠ 0 → l.strTid.take l.lenTid = LogThread.padded ' ' 5 sys.gettid) :
    (l.cacheTid sys).strTid.take (l.cacheTid sys).lenTid = LogThread.padded ' ' 5 sys.gettid := by
  unfold cacheTid
  split
  · have hlen := l.strTid_length
    have hle := length_tidText_le sys
    dsimp only
    rw [take_snprintf (Nat.le_refl _) (by omega), List.take_length]
  · rename_i hknown
    exact h hknown

theorem current_locals {now : Nat} (htime : l.tLastsecond = now / 1000000 →
      l.tTime.take 17 = (timeText (sys.localtime l.tLastsecond)).take 17)
    (htid : l.tid ≠ 0 → l.strTid.take l.lenTid = LogThread.padded ' ' 5 sys.gettid) :
    let l' := (l.formatTime sys now).cacheTid sys
    l'.Current sys ∧ l'.tLastsecond = now / 1000000 ∧
      l'.strTid.take l'.lenTid = LogThread.padded ' ' 5 sys.gettid := by
  have hformat := time_formatTime htime
  have hkept := l.formatTime_tid sys now
  have hcached := (l.formatTime sys now).cacheTid_time sys
  have htext := @tid_cacheTid (l.formatTime sys now) sys (by
    rw [hkept.1, hkept.2.1, hkept.2.2]
    exact htid)
  have hlast := hcached.2.trans hformat.2
  refine ⟨⟨?_, fun _ => htext⟩, hlast, htext⟩
  rw [hcached.1, hlast]
  exact hformat.1

end ThreadLocals

theorem insertAll_header {size : Nat} (b : FixedBuffer size) {l : ThreadLocals} {sys : LogSystem}
    {now : Nat} (htime : l.tTime.take 17 = (timeText (sys.localtime (now / 1000000))).take 17)
    (htid : l.strTid.take l.lenTid = LogThread.padded ' ' 5 sys.gettid) (level : LogLevel)
    (rest : List LogItem) :
    b.insertAll (l.header now level ++ rest) = b.insertAll (sys.header now level ++ rest) := by
  unfold ThreadLocals.header LogSystem.header
  simp only [List.cons_append, FixedBuffer.insertAll, FixedBuffer.insert, htime, htid]

theorem insertAll_items (sys : LogSystem) (s : LogStatement) :
    (sys.Fits s ∧ ∃ b', ({} : LogStream).insertAll (sys.items s) = .ok b' ∧
        b'.data = sys.record s) ∨
      ¬ sys.Fits s ∧ ({} : LogStream).insertAll (sys.items s) = .error .errif := by
  have hempty : ({} : LogStream).data = [] := rfl
  have hcases := ({} : LogStream).insertAll_cases (sys.items s)
  rw [hempty, List.length_nil] at hcases
  simp only [List.nil_append] at hcases
  exact hcases

namespace ThreadLocals

variable {l : ThreadLocals} {sys : LogSystem}

/-- A statement hands on the record that formatting afresh gives, or ends the process. -/
theorem log_eq {s : LogStatement} (htime : l.tLastsecond = s.now / 1000000 →
      l.tTime.take 17 = (timeText (sys.localtime l.tLastsecond)).take 17)
    (htid : l.tid ≠ 0 → l.strTid.take l.lenTid = LogThread.padded ' ' 5 sys.gettid) :
    (sys.Fits s ∧ ∃ l' : ThreadLocals, l'.Current sys ∧ l.log sys s = .ok (l', sys.record s)) ∨
      ¬ sys.Fits s ∧ l.log sys s = .error .errif := by
  obtain ⟨hcurrent, hlast, htext⟩ := current_locals htime htid
  have hhead := hcurrent.time
  rw [hlast] at hhead
  have hinsert : ({} : LogStream).insertAll
      (((l.formatTime sys s.now).cacheTid sys).header s.now s.level ++ s.items ++ s.trailer) =
        ({} : LogStream).insertAll (sys.items s) := by
    unfold LogSystem.items
    rw [List.append_assoc, List.append_assoc]
    exact insertAll_header _ hhead htext s.level _
  unfold log
  dsimp only
  rw [hinsert]
  rcases insertAll_items sys s with ⟨hfits, b', hok, hdata⟩ | ⟨hfull, herr⟩
  · refine .inl ⟨hfits, _, hcurrent, ?_⟩
    rw [hok, ← hdata]
    rfl
  · refine .inr ⟨hfull, ?_⟩
    rw [herr]
    rfl

/-- The records of the statements are those formatted afresh, each of them whole, unless one of them
does not stay within its buffer and ends the process. -/
def LogsAfresh (l : ThreadLocals) (sys : LogSystem) (ss : List LogStatement) : Prop :=
  ((∀ s ∈ ss, sys.Fits s) ∧ l.logAll sys ss = .ok (ss.map sys.record)) ∨
    ¬ (∀ s ∈ ss, sys.Fits s) ∧ l.logAll sys ss = .error .errif

theorem logsAfresh_nil (l : ThreadLocals) (sys : LogSystem) : l.LogsAfresh sys [] := by
  left
  exact ⟨List.forall_mem_nil _, rfl⟩

theorem logsAfresh_cons {s : LogStatement} {ss : List LogStatement}
    (htime : l.tLastsecond = s.now / 1000000 →
      l.tTime.take 17 = (timeText (sys.localtime l.tLastsecond)).take 17)
    (htid : l.tid ≠ 0 → l.strTid.take l.lenTid = LogThread.padded ' ' 5 sys.gettid)
    (hrest : ∀ l' : ThreadLocals, l'.Current sys → l'.LogsAfresh sys ss) :
    l.LogsAfresh sys (s :: ss) := by
  unfold LogsAfresh
  rw [List.forall_mem_cons, logAll]
  rcases log_eq htime htid with ⟨hfits, l', hcurrent, hlog⟩ | ⟨hfull, hlog⟩
  · rw [and_iff_right hfits, hlog]
    change _ ∧ (l'.logAll sys ss >>= fun records => pure (sys.record s :: records)) = _ ∨
      _ ∧ (l'.logAll sys ss >>= fun records => pure (sys.record s :: records)) = _
    rcases hrest l' hcurrent with ⟨hall, hok⟩ | ⟨hall, herr⟩
    · rw [hok]
      exact .inl ⟨hall, rfl⟩
    · rw [herr]
      exact .inr ⟨hall, rfl⟩
  · rw [hlog]
    exact .inr ⟨fun hall => hfull hall.1, rfl⟩

theorem Current.logsAfresh (h : l.Current sys) (ss : List LogStatement) : l.LogsAfresh sys ss := by
  induction ss generalizing l with
  | nil => exact l.logsAfresh_nil sys
  | cons s ss ih => exact logsAfresh_cons (fun _ => h.time) h.tid fun _ hcurrent => ih hcurrent

/-- **Log statements.** Whatever a thread logs at whatever times, from the first second after the
epoch on, its records are those that would be formatted afresh, each of them whole; and the process
ends exactly when the record of a statement does not stay within its buffer. -/
theorem logsAfresh_of_first (sys : LogSystem) {ss : List LogStatement}
    (hfirst : ∀ s ∈ ss.head?, 1000000 ≤ s.now) : LogsAfresh {} sys ss := by
  cases ss with
  | nil => exact logsAfresh_nil {} sys
  | cons s ss =>
      have hnow : 1000000 ≤ s.now := hfirst s rfl
      have hother : ({} : ThreadLocals).tLastsecond ≠ s.now / 1000000 := by
        show 0 ≠ s.now / 1000000
        omega
      exact logsAfresh_cons (fun hsame => absurd hsame hother) (fun hno => absurd rfl hno)
        fun _ hcurrent => hcurrent.logsAfresh ss

def newYear : LogSystem where
  localtime := fun seconds => ⟨2024, 1, 1, 0, 0, seconds % 60⟩
  gettid := 4711
  gettid_pos := by decide
  gettid_lt := by decide

def removedAt (now : Nat) : LogStatement where
  now := now
  level := .info
  items := [.cString (some (ascii "Client fd ")),
    .integer ⟨.int32, 7, ⟨by decide, by decide⟩⟩,
    .cString (some (ascii " has been ultimately removed"))]
  file := ascii "Connection.cpp"
  line := ⟨.int32, 44, ⟨by decide, by decide⟩⟩

/-- Two records in one second and one in the second before. -/
theorem logsAfresh_removedAt :
    LogsAfresh {} newYear [removedAt 5000001, removedAt 5000002, removedAt 4000000] := by
  apply logsAfresh_of_first
  intro s hs
  cases hs
  decide

end ThreadLocals

end CPlusServer

import CPlusServer.Log.Statement

/-!
# The log macros

A `LOG_` statement from the level that it asks to the output. It is carried out or the
process ends: where the record does not stay within its stream, where it fills the
buffer of the logger to the last byte, and behind any record at the level FATAL.
-/

namespace CPlusServer

/-- The globals of `Logger` as a statement finds them. A logger in use has got there
by its steps. -/
structure LoggerInUse where
  setting : LogSetting
  reached : ∀ l, setting.output = .async l → ∃ acts s,
    Lib.runFrom Logged.step (.ok {}) acts = some (.ok s) ∧ s.logging = l

def LogItem.literal (s : String) : LogItem := .cString (some (ascii s))

def LogLevel.asks : LogLevel → Bool
  | .debug | .info => true
  | .warn | .error | .fatal => false

def IntegerArg.int (n : Int) : IntegerArg where
  type := .int32
  num := toInt n
  holds := ⟨Int.le_bmod (by decide), Int.bmod_lt (by decide)⟩

namespace LogSystem

def front (sys : LogSystem) (s : LogStatement) : Nat :=
  36 + (LogThread.padded ' ' 5 sys.gettid).length + (texts s.items).length + 1 +
    (s.file.takeWhile (· ≠ NUL)).length + 1

def recordLength (sys : LogSystem) (s : LogStatement) : Nat :=
  sys.front s + (digitLoop s.line.num).1.reverse.length + 1

end LogSystem

namespace LogSetting

/-- A statement with its `Impl`, whose destructor aborts at the level FATAL. None where the
process ends. -/
def log (g : LogSetting) (sys : LogSystem) (s : LogStatement) : Option LogSetting :=
  if s.level.asks ∧ s.level.value < g.level.value then some g
  else
    match ({} : LogStream).insertAll (sys.items s) >>= fun stream => g.output.emit stream.data with
    | .ok output => if g.level = .fatal then none else some { g with output := output }
    | .error _ => none

/-- The statement is switched off, or its record leaves room for a line number and does not fill the
current buffer of the logger to the last byte. -/
def Takes (g : LogSetting) (sys : LogSystem) (s : LogStatement) : Prop :=
  (s.level.asks ∧ s.level.value < g.level.value) ∨
    sys.front s + 48 < FIXEDBUFFERSIZE ∧ ¬ g.Fills (sys.recordLength s) ∧
      g.level ≠ .fatal

end LogSetting

def plainItems (items : List LogItem) : Bool :=
  items.all fun
    | .formator _ => false
    | _ => true

inductive LogSource
  | connection | httpserver
  deriving DecidableEq

def LogSource.name : LogSource → Bytes
  | .connection => ascii "Connection.cpp"
  | .httpserver => ascii "httpserver.cpp"

/-- A statement of a function: its source, its level, what is inserted and `__LINE__`. -/
structure LogLine where
  source : LogSource
  level : LogLevel
  items : List LogItem
  line : IntegerArg
  items_plain : plainItems items = true := by rfl

/-- Where a call runs: the thread, `__FILE__` of the sources, and the time and the logger that its
`i`-th statement meets. -/
structure LogSite where
  sys : LogSystem
  file : LogSource → Bytes
  now : Nat → Nat
  logger : Nat → LoggerInUse

namespace LogSite

def statement (site : LogSite) (i : Nat) (l : LogLine) : LogStatement where
  now := site.now i
  level := l.level
  items := l.items
  file := site.file l.source
  line := l.line

def logs (site : LogSite) : Nat → List LogLine → Bool
  | _, [] => true
  | i, l :: ls =>
      ((site.logger i).setting.log site.sys (site.statement i l)).isSome && site.logs (i + 1) ls

def Takes (site : LogSite) (i : Nat) (l : LogLine) : Prop :=
  (site.logger i).setting.Takes site.sys (site.statement i l)

def TakesAll (site : LogSite) (ls : List LogLine) : Prop :=
  ∀ i l, ls[i]? = some l → site.Takes i l

end LogSite

/-! ## Room in a record -/

/-- Items without a `Formator` fit wherever a number fits behind them. -/
theorem fitAll_of_room {size n : Nat} {items : List LogItem}
    (hplain : plainItems items = true)
    (hroom : n + (texts items).length + 48 < size) : FitAll size n items := by
  induction items generalizing n with
  | nil => trivial
  | cons item items ih =>
      rw [texts, List.flatMap_cons, List.length_append] at hroom
      have hitem : n + item.text.length < size := by omega
      have hrest : n + item.text.length + (texts items).length + 48 < size := by
        unfold texts
        omega
      obtain ⟨hfirst, hlater⟩ := Bool.and_eq_true_iff.1 hplain
      refine ⟨?_, ih hlater hrest⟩
      cases item with
      | formator text => cases hfirst
      | int16 | uint16 | integer =>
          show n + 48 < size
          omega
      | bool | double | char | cString | string | template | sourceFile => exact hitem

theorem fitAll_append {size n : Nat} {items items' : List LogItem} :
    FitAll size n (items ++ items') ↔
      FitAll size n items ∧ FitAll size (n + (texts items).length) items' := by
  induction items generalizing n with
  | nil => simp [FitAll, texts]
  | cons item items ih =>
      have hlength : n + (texts (item :: items)).length =
          n + item.text.length + (texts items).length := by
        unfold texts
        rw [List.flatMap_cons, List.length_append, Nat.add_assoc]
      rw [List.cons_append, FitAll, FitAll, ih, and_assoc, hlength]

namespace LogSystem

def frontItems (sys : LogSystem) (s : LogStatement) : List LogItem :=
  sys.header s.now s.level ++ s.items ++
    [.cString (some (ascii "-")), .cString (some s.file), .cString (some (ascii ":"))]

theorem items_eq (sys : LogSystem) (s : LogStatement) :
    sys.items s = sys.frontItems s ++ [.integer s.line, .cString (some (ascii "\n"))] := by
  unfold items frontItems LogStatement.trailer
  simp only [List.append_assoc, List.cons_append, List.nil_append]

theorem length_header (sys : LogSystem) (now : Nat) (level : LogLevel) :
    (texts (sys.header now level)).length =
      36 + (LogThread.padded ' ' 5 sys.gettid).length := by
  have htime := length_timeText (sys.localtime (now / 1000000))
  have hus := (usTemplate now).inside
  have husSize : (usTemplate now).size = 9 := rfl
  have hlevel := (levelTemplate level).inside
  have hlevelSize : (levelTemplate level).size = 9 := rfl
  have hblank : ((ascii " ").takeWhile (· ≠ NUL)).length = 1 := by decide
  unfold texts header
  simp only [List.flatMap_cons, List.flatMap_nil, List.length_append, List.length_nil,
    LogItem.text, List.length_take, hblank]
  omega

theorem length_frontItems (sys : LogSystem) (s : LogStatement) :
    (texts (sys.frontItems s)).length = sys.front s := by
  have hheader := sys.length_header s.now s.level
  have hdash : ((ascii "-").takeWhile (· ≠ NUL)).length = 1 := by decide
  have hcolon : ((ascii ":").takeWhile (· ≠ NUL)).length = 1 := by decide
  unfold texts at hheader
  unfold frontItems front texts
  simp only [List.flatMap_append, List.flatMap_cons, List.flatMap_nil, List.length_append,
    List.length_nil, LogItem.text, hheader, hdash, hcolon]
  omega

theorem length_record (sys : LogSystem) (s : LogStatement) :
    (sys.record s).length = sys.recordLength s := by
  have hfront := sys.length_frontItems s
  have hend : ((ascii "\n").takeWhile (· ≠ NUL)).length = 1 := by decide
  unfold texts at hfront
  unfold record recordLength texts
  rw [items_eq]
  simp only [List.flatMap_append, List.flatMap_cons, List.flatMap_nil, List.length_append,
    List.length_nil, LogItem.text, hfront, hend]
  omega

/-- The line number asks for more than what is behind it needs. -/
theorem fits_iff (sys : LogSystem) {s : LogStatement}
    (hplain : plainItems s.items = true) :
    sys.Fits s ↔ sys.front s + 48 < FIXEDBUFFERSIZE := by
  have hfront : plainItems (sys.frontItems s) = true := by
    unfold plainItems at hplain ⊢
    unfold frontItems header
    simp only [List.all_append, List.all_cons, List.all_nil, hplain, Bool.and_true]
  have hline := length_stdToString_le s.line.holds
  have hend : ((ascii "\n").takeWhile (· ≠ NUL)).length = 1 := by decide
  unfold Fits
  rw [items_eq, fitAll_append, Nat.zero_add, sys.length_frontItems]
  simp only [FitAll, LogItem.Fits, LogItem.text, List.length_reverse, length_digitLoop, hend,
    and_true]
  constructor
  · exact fun h => h.2.1
  · intro h
    refine ⟨fitAll_of_room hfront ?_, h, by omega⟩
    rw [sys.length_frontItems, Nat.zero_add]
    exact h

end LogSystem

/-! ## Carrying out a statement -/

namespace LoggerInUse

theorem sound (g : LoggerInUse) : ∀ l, g.setting.output = .async l → AsyncLogging.Sound l := by
  intro l hl
  obtain ⟨acts, s, hrun, rfl⟩ := g.reached l hl
  have hkept : Logged.Kept (.ok s) :=
    Lib.runFrom_keeps (fun _ _ _ _ hk hstep => hk.step hstep) Logged.kept_fresh hrun
  exact hkept.1

theorem emit_cases (g : LoggerInUse) (record : Bytes) :
    (∃ output, g.setting.output.emit record = .ok output) ∨
      g.setting.output.emit record = .error .errif := by
  cases hout : g.setting.output with
  | stdout written => exact .inl ⟨_, rfl⟩
  | async l =>
      rcases (g.sound l hout).append record with ⟨l', happend, -⟩ | herr
      · left
        refine ⟨.async l', ?_⟩
        unfold LogOutput.emit
        dsimp only
        rw [happend]
        rfl
      · right
        unfold LogOutput.emit
        dsimp only
        rw [herr]
        rfl

theorem emit_ok_iff (g : LoggerInUse) {record : Bytes}
    (hrecord : record.length < FIXEDLARGEBUFFFERSIZE) :
    (∃ output, g.setting.output.emit record = .ok output) ↔ ¬ g.setting.Fills record.length := by
  rw [← LogSetting.emit_iff g.sound hrecord]
  rcases g.emit_cases record with ⟨output, hok⟩ | herr
  · rw [hok]
    exact iff_of_true ⟨output, rfl⟩ fun hno => by cases hno
  · rw [herr]
    exact iff_of_false (fun hok => by cases hok.choose_spec) fun hno => hno rfl

/-- The record of a statement that is not switched off reaches the output. -/
theorem emits_iff (g : LoggerInUse) (sys : LogSystem) {s : LogStatement}
    (hplain : plainItems s.items = true) :
    (∃ output, (({} : LogStream).insertAll (sys.items s) >>= fun stream =>
        g.setting.output.emit stream.data) = .ok output) ↔
      sys.front s + 48 < FIXEDBUFFERSIZE ∧ ¬ g.setting.Fills (sys.recordLength s) := by
  rw [← sys.fits_iff hplain]
  rcases insertAll_items sys s with ⟨hfits, stream, hok, hdata⟩ | ⟨hfull, herr⟩
  · have hlength : stream.data.length = sys.recordLength s := by
      rw [hdata, sys.length_record]
    have hlarge : stream.data.length < FIXEDLARGEBUFFFERSIZE :=
      Nat.lt_of_le_of_lt stream.fits (by decide)
    rw [and_iff_right hfits, ← hlength, ← g.emit_ok_iff hlarge, hok]
    rfl
  · rw [herr]
    exact iff_of_false (fun hok => by cases hok.choose_spec) fun h => hfull h.1

theorem log_isSome_iff (g : LoggerInUse) (sys : LogSystem) {s : LogStatement}
    (hplain : plainItems s.items = true) :
    (g.setting.log sys s).isSome ↔ g.setting.Takes sys s := by
  have hemits := g.emits_iff sys hplain
  unfold LogSetting.log LogSetting.Takes
  by_cases hoff : s.level.asks ∧ s.level.value < g.setting.level.value
  · rw [if_pos hoff]
    exact iff_of_true rfl (.inl hoff)
  · rw [if_neg hoff, or_iff_right hoff, ← and_assoc, ← hemits]
    cases ({} : LogStream).insertAll (sys.items s) >>= fun stream =>
        g.setting.output.emit stream.data with
    | error fault =>
        exact iff_of_false (by simp) fun h => by cases h.1.choose_spec
    | ok output =>
        rw [and_iff_right ⟨output, rfl⟩]
        by_cases hfatal : g.setting.level = .fatal
        · simp [hfatal]
        · simp [hfatal]

end LoggerInUse

namespace LogSite

variable {site : LogSite}

theorem logs_append (site : LogSite) (n : Nat) (ls ls' : List LogLine) :
    site.logs n (ls ++ ls') = (site.logs n ls && site.logs (n + ls.length) ls') := by
  induction ls generalizing n with
  | nil => rfl
  | cons l ls ih =>
      rw [List.cons_append, logs, logs, ih, Bool.and_assoc, List.length_cons, Nat.add_right_comm,
        Nat.add_assoc]

theorem logs_iff (ls : List LogLine) : site.logs 0 ls ↔ site.TakesAll ls := by
  have hfrom : ∀ n, site.logs n ls ↔ ∀ i l, ls[i]? = some l → site.Takes (n + i) l := by
    induction ls with
    | nil => simp [logs]
    | cons l ls ih =>
        intro n
        have hfirst := (site.logger n).log_isSome_iff site.sys (s := site.statement n l)
          l.items_plain
        rw [logs, Bool.and_eq_true, hfirst, ih (n + 1)]
        constructor
        · intro h i l' hi
          cases i with
          | zero =>
              cases hi
              exact h.1
          | succ i =>
              have hlater := h.2 i l' hi
              rw [Nat.add_assoc, Nat.add_comm 1] at hlater
              exact hlater
        · intro h
          refine ⟨h 0 l rfl, fun i l' hi => ?_⟩
          rw [Nat.add_assoc, Nat.add_comm 1]
          exact h (i + 1) l' hi
  rw [hfrom 0]
  simp only [Nat.zero_add, TakesAll]

end LogSite

end CPlusServer

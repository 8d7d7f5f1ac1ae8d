import CPlusServer.Lib.InOrder
import CPlusServer.Log.Drain

/-!
# Log files

The `LogFile` is changed between two buffers, and a buffer holds whole lines. So does what every
object of the class takes: no line is cut where one ends and the next begins. But a new object
opens `filepath_` again, to append: on the disk the file goes on, and it has what all objects
with its path have taken.
-/

namespace CPlusServer

namespace AsyncLogging

variable {l l' : AsyncLogging} {line : Bytes} {lines : List Bytes}

/-- How much of the buffer that is being written the log file has taken. -/
def position (l : AsyncLogging) : Nat :=
  match l.pc with
  | .inWrite _ pos => pos
  | _ => 0

def inWrite (l : AsyncLogging) : Bytes :=
  match l.pc with
  | .inWrite i pos => (text l.activeBuffers[i]?.join).drop pos
  | _ => []

def behind (l : AsyncLogging) : List (Option LargeBuffer) :=
  match l.pc with
  | .writing i => l.activeBuffers.drop i
  | .inWrite i _ => l.activeBuffers.drop (i + 1)
  | _ => l.activeBuffers

/-- What the logger holds, cut where a line begins: the files, the last of them with the rest of the
buffer that it is taking, and the buffers. -/
def segments (l : AsyncLogging) : List Bytes :=
  l.closedFiles.map LogFile.content ++ (l.logFile.content ++ l.inWrite) ::
    (l.behind ++ l.buffers).map text ++ [text l.currentBuffer]

/-- The files and buffers hold whole lines, a file is closed when it is full, and the count is right
between two buffers. -/
structure Filed (lines : List Bytes) (l : AsyncLogging) : Prop where
  grouped : Lib.Grouped lines l.segments
  closed : ∀ f ∈ l.closedFiles, FILEMAXIMUMSIZE ≤ f.content.length ∧
    f.content.length < FILEMAXIMUMSIZE + FIXEDLARGEBUFFFERSIZE
  counted : (l.logFile.content.length : Int) = l.logFile.writtenBytes + l.position

/-! ## `Append` -/

theorem Filed.appendCurrent (h : Filed lines l) (happ : l.appendCurrent line = .ok l') :
    Filed (lines ++ [line]) l' := by
  obtain ⟨current, hcurrent, happ⟩ := ok_of_bind_ok happ
  obtain ⟨current', happ', happ⟩ := ok_of_bind_ok happ
  cases happ
  have hdata : current'.data = current.data ++ line := by
    unfold FixedBuffer.append at happ'
    split at happ'
    · rw [← Except.ok.inj happ']
    · cases happ'
  have htext : text l.currentBuffer = current.data := by
    unfold deref at hcurrent
    split at hcurrent
    · rename_i b hb
      rw [hb, ← Except.ok.inj hcurrent]
      rfl
    · cases hcurrent
  refine ⟨?_, h.closed, h.counted⟩
  have hgrouped := h.grouped
  unfold segments at hgrouped ⊢
  rw [htext] at hgrouped
  show Lib.Grouped _ (_ ++ [current'.data])
  rw [hdata]
  exact hgrouped.concat_item

theorem Filed.rotate (h : Filed lines l) (hnext : Blank l.nextBuffer) : Filed lines l.rotate := by
  refine ⟨?_, h.closed, h.counted⟩
  have hblank : text l.rotate.currentBuffer = [] := by
    show text (if l.nextBuffer.isSome then l.nextBuffer else some {}) = []
    split
    · exact hnext
    · rfl
  have hsegments : l.rotate.segments = l.segments ++ [[]] := by
    unfold segments
    rw [hblank]
    show l.closedFiles.map LogFile.content ++ (l.logFile.content ++ l.inWrite) ::
      (l.behind ++ (l.buffers ++ [l.currentBuffer])).map text ++ _ = _
    simp
  rw [hsegments]
  exact h.grouped.concat_nil

theorem Filed.append (h : Filed lines l) (hnext : Blank l.nextBuffer)
    (happ : l.append line = .ok l') : Filed (lines ++ [line]) l' := by
  obtain ⟨current, -, happ⟩ := ok_of_bind_ok happ
  split at happ
  · exact (h.rotate hnext).appendCurrent happ
  · exact h.appendCurrent happ

/-! ## The thread -/

theorem Filed.handOver (h : Filed lines l) (hsound : Sound l) (hcollects : l.Collects) :
    Filed lines l.handOver := by
  have hlocals := hsound.locals
  unfold Locals at hlocals
  have hidle : l.activeBuffers = [] ∧ l.position = 0 ∧ l.inWrite = [] ∧ l.behind = [] := by
    unfold position inWrite behind
    rcases hcollects with hpc | hpc
    · rw [hpc] at hlocals ⊢
      exact ⟨hlocals.1, rfl, rfl, hlocals.1⟩
    · rw [hpc] at hlocals ⊢
      exact ⟨hlocals.1, rfl, rfl, hlocals.1⟩
  obtain ⟨hactive, hposition, hinWrite, hbehind⟩ := hidle
  have hblank : text l.newCurrent = [] := hsound.newCurrentBlank
  refine ⟨?_, h.closed, ?_⟩
  · have hsegments : l.handOver.segments = l.segments ++ [[]] := by
      unfold segments
      rw [hinWrite, hbehind]
      show l.closedFiles.map LogFile.content ++ (l.logFile.content ++ []) ::
        (l.buffers ++ [l.currentBuffer] ++ l.activeBuffers).map text ++ [text l.newCurrent] = _
      rw [hactive, hblank]
      simp
    rw [hsegments]
    exact h.grouped.concat_nil
  · have hcounted := h.counted
    rw [hposition] at hcounted
    exact hcounted

/-- The next buffer goes on the same file, or is the first on a new one. -/
theorem Filed.beginWrite (h : Filed lines l) (hsound : Sound l) {i : Nat} (hpc : l.pc = .writing i)
    (hi : i < l.activeBuffers.length) : Filed lines (l.beginWrite i) := by
  have hmem : l.activeBuffers[i]? = some l.activeBuffers[i] := List.getElem?_eq_getElem hi
  have hrest : l.behind = l.activeBuffers[i] :: l.activeBuffers.drop (i + 1) := by
    unfold behind
    rw [hpc]
    exact List.drop_eq_getElem_cons hi
  have hwhole : l.inWrite = [] := by
    unfold inWrite
    rw [hpc]
  have hcounted : (l.logFile.content.length : Int) = l.logFile.writtenBytes := by
    have hcounted := h.counted
    unfold position at hcounted
    rw [hpc] at hcounted
    exact hcounted.trans (add_zero _)
  have hgrouped := h.grouped
  unfold segments at hgrouped
  rw [hrest, hwhole, List.append_nil] at hgrouped
  unfold AsyncLogging.beginWrite
  by_cases hfull : l.logFile.writtenBytes ≥ FILEMAXIMUMSIZE
  · rw [if_pos hfull]
    refine ⟨?_, fun f hf => ?_, rfl⟩
    · unfold segments inWrite behind
      dsimp only
      rw [hmem, List.map_append]
      rw [List.append_cons (l.closedFiles.map LogFile.content)] at hgrouped
      exact hgrouped
    · rcases List.mem_append.1 hf with hf | hf
      · exact h.closed f hf
      · rw [List.mem_singleton.1 hf, hcounted]
        exact ⟨hfull, hsound.file.2⟩
  · rw [if_neg hfull]
    refine ⟨?_, h.closed, hcounted.trans (add_zero _).symm⟩
    unfold segments inWrite behind
    dsimp only
    rw [hmem]
    rw [List.append_assoc] at hgrouped ⊢
    exact hgrouped.merge

theorem Filed.fwrite (h : Filed lines l) {i pos n : Nat} {b : LargeBuffer}
    (hpc : l.pc = .inWrite i pos) (hb : l.activeBuffers[i]? = some (some b))
    (hn : n ≤ b.getLength - pos) :
    Filed lines { l with logFile := l.logFile.fwrite b.data pos n, pc := .inWrite i (pos + n) } := by
  have hsplit : (b.data.drop pos).take n ++ b.data.drop (pos + n) = b.data.drop pos := by
    rw [← List.drop_drop, List.take_append_drop]
  refine ⟨?_, h.closed, ?_⟩
  · have hgrouped := h.grouped
    unfold segments inWrite behind at hgrouped ⊢
    rw [hpc] at hgrouped
    dsimp only at hgrouped ⊢
    rw [hb] at hgrouped ⊢
    show Lib.Grouped _ (_ ++ (l.logFile.content ++ (b.data.drop pos).take n ++ b.data.drop (pos + n)) ::
      _ ++ _)
    rw [List.append_assoc l.logFile.content, hsplit]
    exact hgrouped
  · have hcounted := h.counted
    unfold position at hcounted ⊢
    rw [hpc] at hcounted
    unfold FixedBuffer.getLength at hn
    show ((l.logFile.content ++ (b.data.drop pos).take n).length : Int) = _
    rw [List.length_append, List.length_take, List.length_drop, Nat.min_eq_left hn]
    dsimp only [LogFile.fwrite] at hcounted ⊢
    omega

theorem Filed.finishWrite (h : Filed lines l) {i pos : Nat} {b : LargeBuffer} {f : LogFile}
    (hpc : l.pc = .inWrite i pos) (hb : l.activeBuffers[i]? = some (some b))
    (hpos : pos = b.data.length) (hfinish : l.logFile.finishWrite b.getLength = .ok f) :
    Filed lines { l with logFile := f, pc := .writing (i + 1) } := by
  obtain ⟨hcontent, hwritten⟩ := LogFile.finishWrite_ok hfinish
  refine ⟨?_, h.closed, ?_⟩
  · have hgrouped := h.grouped
    unfold segments inWrite behind at hgrouped ⊢
    rw [hpc] at hgrouped
    dsimp only at hgrouped ⊢
    rw [hb, hpos] at hgrouped
    rw [hcontent]
    simpa [text] using hgrouped
  · have hcounted := h.counted
    unfold position at hcounted ⊢
    rw [hpc] at hcounted
    dsimp only at hcounted ⊢
    rw [hcontent, hwritten]
    unfold FixedBuffer.getLength
    omega

/-- Only the place where the thread is changes, and none of the places is inside a buffer. -/
theorem Filed.of_frame (h : Filed lines l) (hfiles : l'.closedFiles = l.closedFiles ∧
      l'.logFile = l.logFile) (hbuffers : l'.buffers = l.buffers ∧
      l'.currentBuffer = l.currentBuffer)
    (hplace : l'.position = l.position ∧ l'.inWrite = l.inWrite ∧ l'.behind = l.behind) :
    Filed lines l' := by
  obtain ⟨hclosed, hlog⟩ := hfiles
  obtain ⟨hbuffers, hcurrent⟩ := hbuffers
  obtain ⟨hposition, hinWrite, hbehind⟩ := hplace
  refine ⟨?_, ?_, ?_⟩
  · unfold segments
    rw [hclosed, hlog, hinWrite, hbehind, hbuffers, hcurrent]
    exact h.grouped
  · rw [hclosed]
    exact h.closed
  · rw [hlog, hposition]
    exact h.counted

theorem Filed.threadStep (h : Filed lines l) (hsound : Sound l) {n : Nat}
    (hr : l.threadStep n = some (.ok l')) : Filed lines l' := by
  cases takes_of_threadStep hr with
  | enters hpc | locks hpc _ | exits hpc _ | waits hpc _ =>
      refine h.of_frame ⟨rfl, rfl⟩ ⟨rfl, rfl⟩ ?_
      unfold position inWrite behind
      rw [hpc]
      exact ⟨rfl, rfl, rfl⟩
  | handsOver hcollects => exact h.handOver hsound hcollects
  | beginsWrite hpc hi => exact h.beginWrite hsound hpc hi
  | recycles hpc hi hrecycle =>
      obtain ⟨newCurrent, newNext, rfl⟩ := recycle_frame hrecycle
      refine h.of_frame ⟨rfl, rfl⟩ ⟨rfl, rfl⟩ ?_
      unfold position inWrite behind
      rw [hpc]
      exact ⟨rfl, rfl, (List.drop_eq_nil_of_le (by omega)).symm⟩
  | fwrites hpc hb _ hn => exact h.fwrite hpc hb hn
  | @finishesWrite i pos buffer f hpc hb hpos hfinish =>
      have hlocals := hsound.locals
      unfold Locals at hlocals
      simp only [hpc] at hlocals
      obtain ⟨-, b, hb', hle⟩ := hlocals
      cases hb.symm.trans hb'
      have hend : pos = buffer.data.length := by
        unfold FixedBuffer.getLength at hpos
        omega
      exact h.finishWrite hpc hb hend hfinish

end AsyncLogging

/-! ## Runs -/

namespace Logged

open AsyncLogging

/-- The files hold whole lines, the first that have been appended, in order; the last of them does
between two buffers. A closed file is full, and no file is longer than that by a whole buffer. -/
structure Rotates (s : Logged) : Prop where
  whole : ∃ first, first <+: s.lines ∧
    Lib.Grouped first (s.logging.closedFiles.map LogFile.content)
  last : (∀ i pos, s.logging.pc ≠ .inWrite i pos) → ∃ first, first <+: s.lines ∧
    Lib.Grouped first ((s.logging.closedFiles ++ [s.logging.logFile]).map LogFile.content)
  full : ∀ f ∈ s.logging.closedFiles, FILEMAXIMUMSIZE ≤ f.content.length
  short : ∀ f ∈ s.logging.closedFiles ++ [s.logging.logFile],
    f.content.length < FILEMAXIMUMSIZE + FIXEDLARGEBUFFFERSIZE

structure KeptFiled (c : Except LogFault Logged) : Prop where
  kept : Kept c
  filed : ∀ s, c = .ok s → Filed s.lines s.logging

theorem KeptFiled.step {c c' : Except LogFault Logged} {a : LogAct} (h : KeptFiled c)
    (hstep : Logged.step c a = some c') : KeptFiled c' := by
  refine ⟨h.kept.step hstep, ?_⟩
  rintro s' rfl
  cases c with
  | error e => cases hstep
  | ok s =>
      have hs := h.filed s rfl
      obtain ⟨hsound, -⟩ := h.kept
      cases a with
      | append line =>
          obtain ⟨l, happ, hs'⟩ := ok_of_bind_ok (Option.some.inj hstep)
          cases hs'
          exact hs.append hsound.nextBlank happ
      | start =>
          unfold Logged.step at hstep
          dsimp only at hstep
          split at hstep
          · rename_i hidle
            cases hstep
            refine hs.of_frame ⟨rfl, rfl⟩ ⟨rfl, rfl⟩ ?_
            unfold position inWrite behind
            rw [hidle]
            exact ⟨rfl, rfl, rfl⟩
          · cases hstep
      | stop =>
          cases hstep
          exact hs.of_frame ⟨rfl, rfl⟩ ⟨rfl, rfl⟩ ⟨rfl, rfl, rfl⟩
      | thread n =>
          obtain ⟨r, hr, hc⟩ := Option.map_eq_some_iff.1 hstep
          obtain ⟨l, rfl, hs'⟩ := ok_of_bind_ok hc
          cases hs'
          exact hs.threadStep hsound hr

end Logged

/-! ## Which file it is -/

/-- What a constructor of `LogFile` meets: whether `filepath_` can be opened, the time that the
default path is made of, and whether that can be. -/
structure Opening where
  given : Bool
  now : Bytes
  fallback : Bool

namespace Opening

def defaultPath (now : Bytes) : Bytes := ascii "../LogFiles/LogFile_" ++ now ++ ascii ".log"

def path (filepath : Bytes) (o : Opening) : Option Bytes :=
  if o.given then some filepath else if o.fallback then some (defaultPath o.now) else none

end Opening

namespace AsyncLogging

def constructs (l : AsyncLogging) : Bool :=
  match l.pc with
  | .entry => true
  | .writing i => i < l.activeBuffers.length && FILEMAXIMUMSIZE ≤ l.logFile.writtenBytes
  | _ => false

def callsFwrite (l : AsyncLogging) : Bool :=
  match l.pc with
  | .inWrite i pos =>
      match l.activeBuffers[i]? with
      | some (some buffer) => pos < buffer.getLength
      | _ => false
  | _ => false

end AsyncLogging

/-- The logger with the path that each `LogFile` has opened, in the order of construction: those of
`closedFiles` and of `log_file`. -/
structure LogFiles where
  run : Except LogFault Logged := .ok {}
  paths : List (Option Bytes) := []

namespace LogFiles

/-- `fwrite_unlocked` on a null `file_` ends the process. -/
def step (filepath : Bytes) (s : LogFiles) : LogAct × Opening → Option LogFiles
  | (.thread n, opening) =>
      match s.run with
      | .error _ => none
      | .ok t =>
          if t.logging.callsFwrite ∧ s.paths.getLast? = some none then
            some { s with run := .error .null }
          else (Logged.step s.run (.thread n)).map fun run =>
            ⟨run, if t.logging.constructs then s.paths ++ [opening.path filepath] else s.paths⟩
  | (act, _) => (Logged.step s.run act).map fun run => { s with run := run }

/-- What the file at `path` has got. Every stream appends to it, and one is closed before the next
is written to. -/
def onDisk (s : LogFiles) (t : Logged) (path : Bytes) : Bytes :=
  Lib.joinAt (some path) s.paths ((t.logging.closedFiles ++ [t.logging.logFile]).map LogFile.content)

end LogFiles

namespace AsyncLogging

variable {l l' : AsyncLogging}

inductive Turns (l l' : AsyncLogging) : Prop
  | enters : l.pc = .entry → l'.closedFiles = l.closedFiles → l'.logFile = l.logFile → Turns l l'
  | changes : l.constructs = true → FILEMAXIMUMSIZE ≤ l.logFile.writtenBytes →
      l'.closedFiles = l.closedFiles ++ [l.logFile] → l'.logFile = {} → Turns l l'
  | goesOn : l.constructs = false → l'.closedFiles = l.closedFiles →
      (l.callsFwrite = true ∨ l'.logFile.content = l.logFile.content) → Turns l l'

theorem turns_of_threadStep {n : Nat} (hr : l.threadStep n = some (.ok l')) :
    l.pc ≠ .idle ∧ l'.pc ≠ .idle ∧ l'.pc ≠ .entry ∧ Turns l l' := by
  have hnone (hentry : l.pc ≠ .entry) (hwriting : ∀ i, l.pc ≠ .writing i) : l.constructs = false := by
    unfold constructs
    split
    · rename_i hpc
      exact absurd hpc hentry
    · rename_i i hpc
      exact absurd hpc (hwriting i)
    · rfl
  cases takes_of_threadStep hr with
  | enters hpc => exact ⟨by simp [hpc], by simp, by simp, .enters hpc rfl rfl⟩
  | locks hpc _ | exits hpc _ | waits hpc _ =>
      exact ⟨by simp [hpc], by simp, by simp,
        .goesOn (hnone (by simp [hpc]) (by simp [hpc])) rfl (.inr rfl)⟩
  | handsOver hcollects =>
      refine ⟨?_, by simp [handOver], by simp [handOver], .goesOn (hnone ?_ ?_) rfl (.inr rfl)⟩
      all_goals
        rcases hcollects with hpc | hpc
        · simp [hpc]
        · simp [hpc]
  | @beginsWrite i hpc hi =>
      unfold beginWrite
      by_cases hfull : l.logFile.writtenBytes ≥ FILEMAXIMUMSIZE
      · rw [if_pos hfull]
        exact ⟨by simp [hpc], by simp, by simp,
          .changes (by simpa [constructs, hpc] using ⟨hi, hfull⟩) hfull rfl rfl⟩
      · rw [if_neg hfull]
        exact ⟨by simp [hpc], by simp, by simp,
          .goesOn (by simpa [constructs, hpc, hi] using hfull) rfl (.inr rfl)⟩
  | recycles hpc hi hrecycle =>
      obtain ⟨newCurrent, newNext, rfl⟩ := recycle_frame hrecycle
      exact ⟨by simp [hpc], by simp, by simp,
        .goesOn (by simp [constructs, hpc, hi]) rfl (.inr rfl)⟩
  | fwrites hpc hb hpos _ =>
      exact ⟨by simp [hpc], by simp, by simp, .goesOn (hnone (by simp [hpc]) (by simp [hpc])) rfl
        (.inl (by simpa [callsFwrite, hpc, hb] using hpos))⟩
  | finishesWrite hpc _ _ hfinish =>
      exact ⟨by simp [hpc], by simp, by simp, .goesOn (hnone (by simp [hpc]) (by simp [hpc])) rfl
        (.inr (LogFile.finishWrite_ok hfinish).1)⟩

end AsyncLogging

namespace LogFiles

open AsyncLogging

variable {s s' : LogFiles} {t t' : Logged} {filepath path : Bytes} {paths : List (Option Bytes)}

/-! ### The invariant -/

/-- The paths are those of the objects there are. A file that could not be opened takes nothing, so
it is never full and none follows it. -/
structure Named (t : Logged) (paths : List (Option Bytes)) : Prop where
  before : t.logging.pc = .idle ∨ t.logging.pc = .entry →
    t.logging.closedFiles = [] ∧ t.logging.logFile = {} ∧ paths = []
  behind : t.logging.pc ≠ .idle → t.logging.pc ≠ .entry →
    paths.length = t.logging.closedFiles.length + 1
  opened : none ∉ paths.dropLast
  null : paths.getLast? = some none → t.logging.logFile.content = []

structure KeptFiles (s : LogFiles) : Prop where
  fault : ∀ e, s.run = .error e → e = .errif ∨ e = .null ∧ s.paths.getLast? = some none
  kept : ∀ t, s.run = .ok t → Logged.KeptFiled s.run ∧ Named t s.paths

theorem Named.of_same (h : Named t paths) (hpc : t'.logging.pc = t.logging.pc)
    (hclosed : t'.logging.closedFiles = t.logging.closedFiles)
    (hfile : t'.logging.logFile = t.logging.logFile) : Named t' paths := by
  refine ⟨fun hpc' => ?_, fun hidle hentry => ?_, h.opened, fun hnull => ?_⟩
  · rw [hclosed, hfile]
    exact h.before (hpc ▸ hpc')
  · rw [hclosed]
    exact h.behind (hpc ▸ hidle) (hpc ▸ hentry)
  · rw [hfile]
    exact h.null hnull

/-- A file that is full has been opened. -/
theorem Named.opened_of_full (h : Named t paths) (hfiled : Filed t.lines t.logging)
    (hfull : FILEMAXIMUMSIZE ≤ t.logging.logFile.writtenBytes) : none ∉ paths := by
  have hlast : paths.getLast? ≠ some none := by
    intro hnull
    have hcounted := hfiled.counted
    rw [h.null hnull] at hcounted
    have hzero : (([] : Bytes).length : Int) = 0 := rfl
    have hpositive : (0 : Int) < FILEMAXIMUMSIZE := by decide
    omega
  intro hmem
  rcases List.eq_nil_or_concat paths with rfl | ⟨rest, p, rfl⟩
  · cases hmem
  · rw [List.concat_eq_append] at hmem hlast
    have hopened := h.opened
    rw [List.concat_eq_append, List.dropLast_concat] at hopened
    rcases List.mem_append.1 hmem with hmem | hmem
    · exact hopened hmem
    · rw [← List.mem_singleton.1 hmem] at hlast
      exact hlast List.getLast?_concat

theorem Named.turns (h : Named t paths) (hfiled : Filed t.lines t.logging)
    (hstarted : t.logging.pc ≠ .idle)
    (hpc' : t'.logging.pc ≠ .idle ∧ t'.logging.pc ≠ .entry) (hturns : Turns t.logging t'.logging)
    (hwrites : ¬ (t.logging.callsFwrite = true ∧ paths.getLast? = some none)) (p : Option Bytes) :
    Named t' (if t.logging.constructs then paths ++ [p] else paths) := by
  have hnot : ¬ (t'.logging.pc = .idle ∨ t'.logging.pc = .entry) := not_or.2 hpc'
  cases hturns with
  | enters hentry hclosed hfile =>
      have hconstructs : t.logging.constructs = true := by simp [constructs, hentry]
      obtain ⟨hnone, hempty, rfl⟩ := h.before (.inr hentry)
      rw [if_pos hconstructs]
      refine ⟨fun hno => absurd hno hnot, fun _ _ => ?_, List.not_mem_nil, fun _ => ?_⟩
      · rw [hclosed, hnone]
        rfl
      · rw [hfile, hempty]
  | changes hconstructs hfull hclosed hfile =>
      have hentry : t.logging.pc ≠ .entry := by
        intro hentry
        rw [(h.before (.inr hentry)).2.1] at hfull
        exact absurd hfull (by decide)
      rw [if_pos hconstructs]
      refine ⟨fun hno => absurd hno hnot, fun _ _ => ?_, ?_, fun _ => ?_⟩
      · rw [hclosed, List.length_append, List.length_append, h.behind hstarted hentry]
        rfl
      · rw [List.dropLast_concat]
        exact h.opened_of_full hfiled hfull
      · rw [hfile]
  | goesOn hconstructs hclosed hcontent =>
      have hentry : t.logging.pc ≠ .entry := by
        intro hentry
        simp [constructs, hentry] at hconstructs
      rw [hconstructs, if_neg (by decide)]
      refine ⟨fun hno => absurd hno hnot, fun _ _ => ?_, h.opened, fun hnull => ?_⟩
      · rw [hclosed]
        exact h.behind hstarted hentry
      · rcases hcontent with hcalls | hsame
        · exact absurd ⟨hcalls, hnull⟩ hwrites
        · rw [hsame]
          exact h.null hnull

/-! ### Steps -/

theorem KeptFiles.step_thread (h : KeptFiles s) {n : Nat} {opening : Opening}
    (hstep : step filepath s (.thread n, opening) = some s') : KeptFiles s' := by
  cases hrun : s.run with
  | error e => simp [step, hrun] at hstep
  | ok t =>
      obtain ⟨hkept, hnamed⟩ := h.kept t hrun
      simp only [step, hrun] at hstep
      by_cases hnull : t.logging.callsFwrite = true ∧ s.paths.getLast? = some none
      · rw [if_pos hnull] at hstep
        cases hstep
        refine ⟨fun e he => .inr ⟨(Except.error.inj he).symm, hnull.2⟩, fun t he => nomatch he⟩
      · rw [if_neg hnull] at hstep
        obtain ⟨run, hmoves, rfl⟩ := Option.map_eq_some_iff.1 hstep
        rw [hrun] at hkept
        have hkept' : Logged.KeptFiled run := hkept.step hmoves
        refine ⟨fun e he => ?_, fun t' ht' => ⟨hkept', ?_⟩⟩
        · obtain rfl : run = .error e := he
          exact .inl hkept'.kept
        · obtain rfl : run = .ok t' := ht'
          cases Logged.moves_of_step hmoves with
          | @thread _ l hr =>
              obtain ⟨hstarted, hidle, hentry, hturns⟩ := turns_of_threadStep hr
              have hfiled : Filed t.lines t.logging := hkept.filed t rfl
              exact @Named.turns t { t with logging := l } s.paths hnamed hfiled hstarted
                ⟨hidle, hentry⟩ hturns hnull _

theorem KeptFiles.step_other (h : KeptFiles s) {act : LogAct} {run : Except LogFault Logged}
    (hmoves : Logged.step s.run act = some run) (hact : ∀ n, act ≠ .thread n) :
    KeptFiles { s with run := run } := by
  cases hrun : s.run with
  | error e =>
      rw [hrun] at hmoves
      cases hmoves
  | ok t =>
      obtain ⟨hkept, hnamed⟩ := h.kept t hrun
      have hkept' : Logged.KeptFiled run := hkept.step hmoves
      rw [hrun] at hmoves
      refine ⟨fun e he => ?_, fun t' ht' => ⟨hkept', ?_⟩⟩
      · obtain rfl : run = .error e := he
        exact .inl hkept'.kept
      · obtain rfl : run = .ok t' := ht'
        cases Logged.moves_of_step hmoves with
        | append happ =>
            obtain ⟨buffers, current, next, rfl⟩ := append_frame happ
            exact hnamed.of_same rfl rfl rfl
        | start hidle =>
            obtain ⟨hnone, hempty, hpaths⟩ := hnamed.before (.inl hidle)
            exact ⟨fun _ => ⟨hnone, hempty, hpaths⟩, fun _ hentry => absurd rfl hentry, hnamed.opened,
              hnamed.null⟩
        | stop => exact hnamed.of_same rfl rfl rfl
        | thread hr => exact absurd rfl (hact _)

theorem KeptFiles.step (h : KeptFiles s) {a : LogAct × Opening}
    (hstep : step filepath s a = some s') : KeptFiles s' := by
  obtain ⟨act, opening⟩ := a
  cases act with
  | thread n => exact h.step_thread hstep
  | append line =>
      obtain ⟨run, hmoves, rfl⟩ := Option.map_eq_some_iff.1 hstep
      exact h.step_other hmoves fun _ => nofun
  | start =>
      obtain ⟨run, hmoves, rfl⟩ := Option.map_eq_some_iff.1 hstep
      exact h.step_other hmoves fun _ => nofun
  | stop =>
      obtain ⟨run, hmoves, rfl⟩ := Option.map_eq_some_iff.1 hstep
      exact h.step_other hmoves fun _ => nofun

theorem written_eq_flatten (l : AsyncLogging) :
    l.written = ((l.closedFiles ++ [l.logFile]).map LogFile.content).flatten := by
  unfold AsyncLogging.written
  rw [List.map_append, List.flatten_append, List.flatMap_def]
  simp

/-- Before the thread has begun there is no file. Behind that the last path is that of
`log_file`. -/
theorem Named.cases (h : Named t s.paths) :
    (s.paths = [] ∧ t.logging.written = []) ∨ ∃ rest p, s.paths = rest ++ [p] ∧
      rest.length = (t.logging.closedFiles.map LogFile.content).length := by
  by_cases hbegun : t.logging.pc = .idle ∨ t.logging.pc = .entry
  · obtain ⟨hnone, hempty, hpaths⟩ := h.before hbegun
    refine .inl ⟨hpaths, ?_⟩
    unfold AsyncLogging.written
    rw [hnone, hempty]
    rfl
  · obtain ⟨hidle, hentry⟩ := not_or.1 hbegun
    have hlen := h.behind hidle hentry
    rcases List.eq_nil_or_concat s.paths with hpaths | ⟨rest, p, hpaths⟩
    · rw [hpaths] at hlen
      cases hlen
    · rw [List.concat_eq_append] at hpaths
      rw [hpaths, List.length_append] at hlen
      exact .inr ⟨rest, p, hpaths, by rw [List.length_map]; exact Nat.succ.inj hlen⟩

/-- The file at a path has what the closed objects left there, and what `log_file` has taken if its
path is this one. -/
theorem onDisk_eq {rest : List (Option Bytes)} {p : Option Bytes} (hpaths : s.paths = rest ++ [p])
    (hlen : rest.length = (t.logging.closedFiles.map LogFile.content).length) :
    s.onDisk t path =
      Lib.joinAt (some path) rest (t.logging.closedFiles.map LogFile.content) ++
        if p == some path then t.logging.logFile.content else [] := by
  unfold onDisk
  rw [hpaths, List.map_append]
  exact Lib.joinAt_concat hlen

theorem onDisk_nil (hpaths : s.paths = []) : s.onDisk t path = [] := by
  unfold onDisk
  rw [hpaths]
  rfl

theorem Named.whole (h : Named t s.paths) (hrotates : t.Rotates)
    (hbetween : (∀ i pos, t.logging.pc ≠ .inWrite i pos) ∨ s.paths.getLast? ≠ some (some path)) :
    ∃ whole : List Bytes, whole.Sublist t.lines ∧ s.onDisk t path = whole.flatten := by
  rcases hbetween with hbetween | hother
  · obtain ⟨first, hfirst, hgrouped⟩ := hrotates.last hbetween
    obtain ⟨whole, hsub, hjoin⟩ := hgrouped.joinAt (some path) s.paths
    exact ⟨whole, hsub.trans hfirst.sublist, hjoin⟩
  · rcases h.cases with ⟨hpaths, -⟩ | ⟨rest, p, hpaths, hlen⟩
    · exact ⟨[], List.nil_sublist _, onDisk_nil hpaths⟩
    · have hp : p ≠ some path := by
        rintro rfl
        rw [hpaths] at hother
        exact hother List.getLast?_concat
      obtain ⟨first, hfirst, hgrouped⟩ := hrotates.whole
      obtain ⟨whole, hsub, hjoin⟩ := hgrouped.joinAt (some path) rest
      refine ⟨whole, hsub.trans hfirst.sublist, ?_⟩
      rw [onDisk_eq hpaths hlen, beq_false_of_ne hp, if_neg Bool.false_ne_true, List.append_nil]
      exact hjoin

theorem Named.one (h : Named t s.paths) (hall : ∀ p ∈ s.paths, p = some path) :
    s.onDisk t path = t.logging.written := by
  rcases h.cases with ⟨hpaths, hwritten⟩ | ⟨rest, p, hpaths, hlen⟩
  · rw [onDisk_nil hpaths, hwritten]
  · rw [written_eq_flatten]
    refine Lib.joinAt_eq_flatten ?_ hall
    rw [hpaths, List.map_append, List.length_append, hlen, List.length_append]
    rfl

end LogFiles

end CPlusServer

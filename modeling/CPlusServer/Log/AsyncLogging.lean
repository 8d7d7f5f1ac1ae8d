import CPlusServer.Basic

/-!
# AsyncLogging

Lines are appended under a mutex to `current_buffer_`; the thread of `ThreadFunc`
takes the full buffers over, writes them to the log file and recycles two of
them. A `unique_ptr` is an option, none after it was moved from. Every section
under the mutex is one step, and so is every call of `fwrite_unlocked`.
-/

namespace CPlusServer

def FILEMAXIMUMSIZE : Int := 1024 * 1024 * 1024
def FIXEDLARGEBUFFFERSIZE : Nat := 4096 * 1000

inductive LogFault
  | errif | null | missing | overflow
  deriving DecidableEq, Repr

/-- `data` is what lies before `cur_`. -/
structure FixedBuffer (size : Nat) where
  data : Bytes := []
  fits : data.length ≤ size := by exact Nat.zero_le _

namespace FixedBuffer

variable {size : Nat}

def getLength (b : FixedBuffer size) : Nat := b.data.length
def getSpace (b : FixedBuffer size) : Int := size - b.data.length

def append (b : FixedBuffer size) (buf : Bytes) : Except LogFault (FixedBuffer size) :=
  if h : b.getSpace > buf.length then
    .ok ⟨b.data ++ buf, by
      unfold getSpace at h
      rw [List.length_append]
      omega⟩
  else .error .errif

def clear (_ : FixedBuffer size) : FixedBuffer size := {}

end FixedBuffer

/-- `content` is what the calls of `fwrite_unlocked` on the stream of the object have taken. Which
file that is, and that `fopen` gave one, is not part of it: `LogFiles` adds the paths. -/
structure LogFile where
  content : Bytes := []
  writtenBytes : Int := 0

namespace LogFile

/-- One call of `fwrite_unlocked` in `Write`, of which the stream takes `n` bytes. -/
def fwrite (f : LogFile) (message : Bytes) (pos n : Nat) : LogFile :=
  { f with content := f.content ++ (message.drop pos).take n }

def finishWrite (f : LogFile) (len : Nat) : Except LogFault LogFile :=
  if len = 0 then .ok f
  else if InInt (f.writtenBytes + len) then .ok { f with writtenBytes := f.writtenBytes + len }
  else .error .overflow

theorem finishWrite_ok {f f' : LogFile} {len : Nat} (h : f.finishWrite len = .ok f') :
    f'.content = f.content ∧ f'.writtenBytes = f.writtenBytes + len := by
  unfold finishWrite at h
  split at h
  · rename_i hempty
    cases h
    rw [hempty]
    exact ⟨rfl, (add_zero _).symm⟩
  · split at h
    · cases h
      exact ⟨rfl, rfl⟩
    · cases h

end LogFile

abbrev LargeBuffer := FixedBuffer FIXEDLARGEBUFFFERSIZE

/-- Where the thread of `ThreadFunc` is: in the loop over `active_buffers` with the index of the
next one, or in `LogFile::Write` with the index of the one being written and `pos`. -/
inductive LogPc
  | idle | entry | loop | locking | waiting
  | writing (i : Nat)
  | inWrite (i pos : Nat)
  | exited
  deriving DecidableEq

/-- The members, and below them the locals of `ThreadFunc`. -/
structure AsyncLogging where
  running : Bool := false
  currentBuffer : Option LargeBuffer := some {}
  nextBuffer : Option LargeBuffer := some {}
  buffers : List (Option LargeBuffer) := []
  newCurrent : Option LargeBuffer := none
  newNext : Option LargeBuffer := none
  activeBuffers : List (Option LargeBuffer) := []
  logFile : LogFile := {}
  closedFiles : List LogFile := []
  pc : LogPc := .idle

namespace AsyncLogging

def deref {α : Type} : Option α → Except LogFault α
  | some a => .ok a
  | none => .error .null

def start (l : AsyncLogging) : AsyncLogging := { l with running := true, pc := .entry }
def stop (l : AsyncLogging) : AsyncLogging := { l with running := false }

def rotate (l : AsyncLogging) : AsyncLogging :=
  { l with
    buffers := l.buffers ++ [l.currentBuffer]
    currentBuffer := if l.nextBuffer.isSome then l.nextBuffer else some {}
    nextBuffer := none }

def appendCurrent (l : AsyncLogging) (logline : Bytes) : Except LogFault AsyncLogging := do
  let current ← deref l.currentBuffer
  let current ← current.append logline
  return { l with currentBuffer := some current }

def append (l : AsyncLogging) (logline : Bytes) : Except LogFault AsyncLogging := do
  let current ← deref l.currentBuffer
  if current.getSpace < logline.length then l.rotate.appendCurrent logline
  else l.appendCurrent logline

/-- The section of `ThreadFunc` under the mutex, behind the wait. -/
def handOver (l : AsyncLogging) : AsyncLogging :=
  { l with
    buffers := l.activeBuffers
    activeBuffers := l.buffers ++ [l.currentBuffer]
    currentBuffer := l.newCurrent
    newCurrent := none
    nextBuffer := if l.nextBuffer.isSome then l.nextBuffer else l.newNext
    newNext := if l.nextBuffer.isSome then l.newNext else none
    pc := .writing 0 }

/-- The log file is changed before a buffer, never within one. -/
def beginWrite (l : AsyncLogging) (i : Nat) : AsyncLogging :=
  if l.logFile.writtenBytes ≥ FILEMAXIMUMSIZE then
    { l with closedFiles := l.closedFiles ++ [l.logFile], logFile := {}, pc := .inWrite i 0 }
  else { l with pc := .inWrite i 0 }

def takeBack (active : List (Option LargeBuffer)) :
    Except LogFault (LargeBuffer × List (Option LargeBuffer)) :=
  match active.getLast? with
  | none => .error .missing
  | some b => do
      let b ← deref b
      return (b.clear, active.dropLast)

def recycle (l : AsyncLogging) : Except LogFault AsyncLogging := do
  let active := if l.activeBuffers.length > 2 then l.activeBuffers.take 2 else l.activeBuffers
  let (newCurrent, active) ← takeBack active
  let l := { l with newCurrent := some newCurrent, activeBuffers := [], pc := .loop }
  if l.newNext.isSome then return l
  else if active.isEmpty then return { l with newNext := some {} }
  else
    let (newNext, _) ← takeBack active
    return { l with newNext := some newNext }

/-- One step of the thread; `n` is what `fwrite_unlocked` returns, where it is called. -/
def threadStep (l : AsyncLogging) (n : Nat) : Option (Except LogFault AsyncLogging) :=
  match l.pc with
  | .idle | .exited => none
  | .entry => some (.ok { l with newCurrent := some {}, newNext := some {}, pc := .loop })
  | .loop => some (.ok { l with pc := if l.running then .locking else .exited })
  | .locking => some (.ok (if l.buffers.isEmpty then { l with pc := .waiting } else l.handOver))
  | .waiting => some (.ok l.handOver)
  | .writing i => some (if i < l.activeBuffers.length then .ok (l.beginWrite i) else l.recycle)
  | .inWrite i pos =>
      match l.activeBuffers[i]? with
      | none => some (.error .missing)
      | some none => some (.error .null)
      | some (some buffer) =>
          if pos < buffer.getLength then
            if n ≤ buffer.getLength - pos then
              some (.ok { l with
                logFile := l.logFile.fwrite buffer.data pos n
                pc := .inWrite i (pos + n) })
            else none
          else some do
            let logFile ← l.logFile.finishWrite buffer.getLength
            return { l with logFile := logFile, pc := .writing (i + 1) }

/-! ## What a step of the thread does -/

theorem recycle_frame {l l' : AsyncLogging} (h : l.recycle = .ok l') : ∃ newCurrent newNext,
    l' = { l with
      newCurrent := newCurrent, newNext := newNext, activeBuffers := [], pc := .loop } := by
  unfold recycle at h
  obtain ⟨⟨newCurrent, active⟩, -, h⟩ := ok_of_bind_ok h
  dsimp only at h
  split at h
  · cases h
    exact ⟨_, _, rfl⟩
  · split at h
    · cases h
      exact ⟨_, _, rfl⟩
    · obtain ⟨⟨newNext, active'⟩, -, h⟩ := ok_of_bind_ok h
      cases h
      exact ⟨_, _, rfl⟩

inductive Takes (l : AsyncLogging) (n : Nat) : AsyncLogging → Prop
  | enters : l.pc = .entry →
      Takes l n { l with newCurrent := some {}, newNext := some {}, pc := .loop }
  | locks : l.pc = .loop → l.running = true → Takes l n { l with pc := .locking }
  | exits : l.pc = .loop → l.running = false → Takes l n { l with pc := .exited }
  | waits : l.pc = .locking → l.buffers.isEmpty = true → Takes l n { l with pc := .waiting }
  | handsOver : l.pc = .locking ∨ l.pc = .waiting → Takes l n l.handOver
  | beginsWrite {i : Nat} : l.pc = .writing i → i < l.activeBuffers.length →
      Takes l n (l.beginWrite i)
  | recycles {i : Nat} {l' : AsyncLogging} : l.pc = .writing i → ¬ i < l.activeBuffers.length →
      l.recycle = .ok l' → Takes l n l'
  | fwrites {i pos : Nat} {buffer : LargeBuffer} : l.pc = .inWrite i pos →
      l.activeBuffers[i]? = some (some buffer) → pos < buffer.getLength →
      n ≤ buffer.getLength - pos →
      Takes l n { l with
        logFile := l.logFile.fwrite buffer.data pos n, pc := .inWrite i (pos + n) }
  | finishesWrite {i pos : Nat} {buffer : LargeBuffer} {file : LogFile} : l.pc = .inWrite i pos →
      l.activeBuffers[i]? = some (some buffer) → ¬ pos < buffer.getLength →
      l.logFile.finishWrite buffer.getLength = .ok file →
      Takes l n { l with logFile := file, pc := .writing (i + 1) }

theorem takes_of_threadStep {l l' : AsyncLogging} {n : Nat}
    (h : l.threadStep n = some (.ok l')) : Takes l n l' := by
  unfold threadStep at h
  cases hpc : l.pc with
  | idle => simp [hpc] at h
  | exited => simp [hpc] at h
  | entry =>
      simp only [hpc] at h
      cases h
      exact .enters hpc
  | loop =>
      simp only [hpc] at h
      split at h
      · rename_i hrunning
        cases h
        exact .locks hpc hrunning
      · rename_i hrunning
        cases h
        exact .exits hpc (Bool.eq_false_iff.2 hrunning)
  | locking =>
      simp only [hpc] at h
      split at h
      · rename_i hempty
        cases h
        exact .waits hpc hempty
      · cases h
        exact .handsOver (.inl hpc)
  | waiting =>
      simp only [hpc] at h
      cases h
      exact .handsOver (.inr hpc)
  | writing i =>
      simp only [hpc] at h
      by_cases hi : i < l.activeBuffers.length
      · rw [if_pos hi] at h
        cases h
        exact .beginsWrite hpc hi
      · rw [if_neg hi] at h
        exact .recycles hpc hi (Option.some.inj h)
  | inWrite i pos =>
      simp only [hpc] at h
      split at h
      · cases h
      · cases h
      · rename_i buffer hbuffer
        by_cases hpos : pos < buffer.getLength
        · rw [if_pos hpos] at h
          split at h
          · rename_i hn
            cases h
            exact .fwrites hpc hbuffer hpos hn
          · cases h
        · rw [if_neg hpos] at h
          obtain ⟨file, hfinish, h⟩ := ok_of_bind_ok (Option.some.inj h)
          cases h
          exact .finishesWrite hpc hbuffer hpos hfinish

end AsyncLogging

/-! ## Runs -/

/-- A logger and the lines whose `Append` has returned, in order. -/
structure Logged where
  logging : AsyncLogging := {}
  lines : List Bytes := []

inductive LogAct
  | append (line : Bytes)
  | start
  | stop
  | thread (n : Nat)

namespace Logged

def step : Except LogFault Logged → LogAct → Option (Except LogFault Logged)
  | .error _, _ => none
  | .ok s, .append line => some do
      let l ← s.logging.append line
      return ⟨l, s.lines ++ [line]⟩
  | .ok s, .start =>
      if s.logging.pc = .idle then some (.ok { s with logging := s.logging.start }) else none
  | .ok s, .stop => some (.ok { s with logging := s.logging.stop })
  | .ok s, .thread n => (s.logging.threadStep n).map fun r => do
      let l ← r
      return { s with logging := l }

end Logged

end CPlusServer

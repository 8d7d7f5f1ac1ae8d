import CPlusServer.Lib.Loop
import CPlusServer.Log.Drain
import Mathlib.Algebra.BigOperators.Group.Finset.Basic

/-!
# LogFile::Write

The loop moves on by what `fwrite_unlocked` returns and by nothing else. What it
has written is the message up to `pos`, and it ends unless from some call on the
stream takes nothing more. Then the logging thread is in it for ever.
-/

namespace CPlusServer

/-! ## The loop -/

structure WriteCursor where
  file : LogFile
  pos : Nat := 0
  calls : Nat := 0

namespace LogFile

/-- The `while` loop of `Write`; `results` are those of its calls of `fwrite_unlocked`. -/
def writeLoop (message : Bytes) (results : Nat → Nat) : Lib.Loop WriteCursor LogFault where
  guard c := decide (c.pos < message.length)
  body c := .ok {
    file := c.file.fwrite message c.pos (results c.calls)
    pos := c.pos + results c.calls
    calls := c.calls + 1 }

end LogFile

/-! ## What the calls take -/

def bytesTaken (results : Nat → Nat) (n : Nat) : Nat := ∑ i ∈ Finset.range n, results i

/-- What the calls for a message of `len` bytes return. Each takes at most what it is given, and
from an error on that may be nothing. -/
structure FwriteResults (len : Nat) where
  result : Nat → Nat
  bounded : ∀ n, bytesTaken result n < len → result n ≤ len - bytesTaken result n

namespace FwriteResults

variable {len : Nat} (rs : FwriteResults len)

/-- From the call `n` on the stream takes nothing, though bytes are left. -/
def Stuck (n : Nat) : Prop := bytesTaken rs.result n < len ∧ ∀ i, n ≤ i → rs.result i = 0

theorem bytesTaken_succ (results : Nat → Nat) (n : Nat) :
    bytesTaken results (n + 1) = bytesTaken results n + results n :=
  Finset.sum_range_succ results n

theorem bytesTaken_mono (results : Nat → Nat) {n m : Nat} (h : n ≤ m) :
    bytesTaken results n ≤ bytesTaken results m := by
  induction h with
  | refl => exact Nat.le_refl _
  | step _ ih =>
      rw [bytesTaken_succ]
      omega

theorem lt_of_stuck {n : Nat} (h : rs.Stuck n) (m : Nat) : bytesTaken rs.result m < len := by
  by_cases hm : n ≤ m
  · induction hm with
    | refl => exact h.1
    | @step k hk ih =>
        rw [bytesTaken_succ, h.2 k hk]
        exact ih
  · have hmono := bytesTaken_mono rs.result (Nat.le_of_not_le hm)
    have hless := h.1
    omega

/-- Without such a call each bound up to the length is reached. -/
theorem exists_le_bytesTaken (h : ∀ n, ¬ rs.Stuck n) : ∃ n, len ≤ bytesTaken rs.result n := by
  have hreach : ∀ m, m ≤ len → ∃ n, m ≤ bytesTaken rs.result n := by
    intro m hm
    induction m with
    | zero => exact ⟨0, Nat.zero_le _⟩
    | succ m ih =>
        obtain ⟨n, hn⟩ := ih (by omega)
        by_contra hnone
        push Not at hnone
        refine h n ⟨?_, fun i hi => ?_⟩
        · have hless := hnone n
          omega
        · have hless := hnone (i + 1)
          have hmono := bytesTaken_mono rs.result hi
          rw [bytesTaken_succ] at hless
          omega
  exact hreach len (Nat.le_refl _)

end FwriteResults

/-! ## One write -/

namespace LogFile

variable {f : LogFile} {message : Bytes} (rs : FwriteResults message.length)

/-- `Write` ends, at each test of its loop the file has a prefix of the message more than before,
and all of it at the end. -/
structure WritesOnce (f : LogFile) (message : Bytes) (rs : FwriteResults message.length) :
    Prop where
  ends : ∃ r, (writeLoop message rs.result).Ends { file := f } r
  in_order : ∀ c, (writeLoop message rs.result).Reaches { file := f } c →
    ∃ sent, sent <+: message ∧ c.file.content = f.content ++ sent
  whole : ∀ c, (writeLoop message rs.result).Ends { file := f } (.ok c) →
    c.file.content = f.content ++ message

structure Written (f : LogFile) (message : Bytes) (results : Nat → Nat) (c : WriteCursor) :
    Prop where
  pos : c.pos = bytesTaken results c.calls
  inside : c.pos ≤ message.length
  file : c.file = { f with content := f.content ++ message.take c.pos }

theorem written_start (f : LogFile) (message : Bytes) (results : Nat → Nat) :
    Written f message results { file := f } :=
  ⟨rfl, Nat.zero_le _, by rw [List.take_zero, List.append_nil]⟩

theorem Written.step {c c' : WriteCursor} (h : Written f message rs.result c)
    (hstep : (writeLoop message rs.result).Step c c') : Written f message rs.result c' := by
  obtain ⟨hg, hb⟩ := hstep
  have hleft : c.pos < message.length := of_decide_eq_true hg
  have hbound := rs.bounded c.calls (h.pos ▸ hleft)
  rw [← h.pos] at hbound
  cases hb
  refine ⟨?_, ?_, ?_⟩
  · show c.pos + rs.result c.calls = _
    rw [FwriteResults.bytesTaken_succ, ← h.pos]
  · show c.pos + rs.result c.calls ≤ _
    omega
  · show c.file.fwrite message c.pos (rs.result c.calls) = _
    unfold fwrite
    rw [h.file, List.append_assoc, ← List.take_add]

theorem written_of_reaches {c : WriteCursor}
    (h : (writeLoop message rs.result).Reaches { file := f } c) : Written f message rs.result c :=
  h.invariant (fun _ _ hw hstep => hw.step rs hstep) (written_start f message rs.result)

/-- The loop ends at the latest with the call that reaches the length. -/
theorem Written.ends {c : WriteCursor} (h : Written f message rs.result c) {n k : Nat}
    (hn : message.length ≤ bytesTaken rs.result n) (hk : n ≤ c.calls + k) :
    ∃ r, (writeLoop message rs.result).Ends c r := by
  induction k generalizing c with
  | zero =>
      have hall := FwriteResults.bytesTaken_mono rs.result hk
      rw [Nat.add_zero, ← h.pos] at hall
      exact ⟨_, Lib.Loop.ends_of_stop (decide_eq_false (by omega))⟩
  | succ k ih =>
      by_cases hleft : c.pos < message.length
      · have hstep : (writeLoop message rs.result).Step c _ := ⟨decide_eq_true hleft, rfl⟩
        have hcalls : n ≤ c.calls + 1 + k := by omega
        obtain ⟨r, hr⟩ := ih (h.step rs hstep) hcalls
        exact ⟨r, hstep.ends hr⟩
      · exact ⟨_, Lib.Loop.ends_of_stop (decide_eq_false hleft)⟩

theorem ends_iff : (∃ r, (writeLoop message rs.result).Ends { file := f } r) ↔
    ∀ n, ¬ rs.Stuck n := by
  constructor
  · intro h n hstuck
    obtain ⟨r, hr⟩ := h
    cases r with
    | error e =>
        refine Lib.Loop.error_free_iff.2 (fun c _ _ => ⟨_, rfl⟩) e hr
    | ok c =>
        obtain ⟨hreaches, hg⟩ := hr.reaches
        have hpos := (written_of_reaches rs hreaches).pos
        have hless := rs.lt_of_stuck hstuck c.calls
        rw [← hpos] at hless
        exact of_decide_eq_false hg hless
  · intro h
    obtain ⟨n, hn⟩ := rs.exists_le_bytesTaken h
    exact (written_start f message rs.result).ends rs hn (Nat.le_add_left n 0)

theorem file_of_ends {c : WriteCursor}
    (h : (writeLoop message rs.result).Ends { file := f } (.ok c)) :
    c.file = { f with content := f.content ++ message } := by
  obtain ⟨hreaches, hg⟩ := h.reaches
  have hw := written_of_reaches rs hreaches
  have hall : message.length ≤ c.pos := Nat.le_of_not_lt (of_decide_eq_false hg)
  rw [hw.file, List.take_of_length_le hall]

/-- **Write.** It ends and writes the message once exactly when there is no call from which on the
stream takes nothing though bytes are left. -/
theorem writesOnce_iff (f : LogFile) (message : Bytes) (rs : FwriteResults message.length) :
    WritesOnce f message rs ↔ ∀ n, ¬ rs.Stuck n := by
  refine ⟨fun h => (ends_iff rs).1 h.ends, fun h => ⟨(ends_iff rs).2 h, ?_, ?_⟩⟩
  · intro c hreaches
    exact ⟨_, List.take_prefix _ _, congrArg content (written_of_reaches rs hreaches).file⟩
  · intro c hends
    rw [file_of_ends rs hends]

def fullDisk (len : Nat) : FwriteResults len := ⟨fun _ => 0, fun _ _ => Nat.zero_le _⟩

theorem stuck_fullDisk {len : Nat} (h : 0 < len) (n : Nat) : (fullDisk len).Stuck n := by
  refine ⟨?_, fun _ _ => rfl⟩
  have hnone : bytesTaken (fullDisk len).result n = 0 := Finset.sum_const_zero
  rw [hnone]
  exact h

theorem not_writesOnce_fullDisk : ¬ WritesOnce {} [chr 'x'] (fullDisk [chr 'x'].length) := by
  intro h
  exact (ends_iff _).1 h.ends 0 (stuck_fullDisk Nat.one_pos 0)

end LogFile

/-! ## The logging thread -/

namespace AsyncLogging

variable {l : AsyncLogging} {i : Nat} {buffer : LargeBuffer} {c c' : WriteCursor}

/-- The thread is in `Write` for the buffer at `i`, at the test of the loop. -/
structure Writing (l : AsyncLogging) (i : Nat) (buffer : LargeBuffer) (c : WriteCursor) : Prop where
  pc : l.pc = .inWrite i c.pos
  active : l.activeBuffers[i]? = some (some buffer)
  file : l.logFile = c.file

theorem Writing.step (h : l.Writing i buffer c) {f : LogFile}
    (rs : FwriteResults buffer.data.length) (hw : LogFile.Written f buffer.data rs.result c)
    (hstep : (LogFile.writeLoop buffer.data rs.result).Step c c') :
    ∃ l', l.threadStep (rs.result c.calls) = some (.ok l') ∧ l'.Writing i buffer c' := by
  obtain ⟨hg, hb⟩ := hstep
  have hleft : c.pos < buffer.getLength := of_decide_eq_true hg
  have hbound : rs.result c.calls ≤ buffer.getLength - c.pos := by
    rw [hw.pos]
    exact rs.bounded c.calls (hw.pos ▸ of_decide_eq_true hg)
  cases hb
  refine ⟨{ l with
    logFile := c.file.fwrite buffer.data c.pos (rs.result c.calls)
    pc := .inWrite i (c.pos + rs.result c.calls) }, ?_, rfl, h.active, rfl⟩
  unfold threadStep
  rw [h.pc]
  dsimp only
  rw [h.active]
  dsimp only
  rw [if_pos hleft, if_pos hbound, h.file]

theorem Writing.spin (h : l.Writing i buffer c) (hleft : c.pos < buffer.getLength) :
    l.threadStep 0 = some (.ok l) := by
  unfold threadStep
  rw [h.pc]
  dsimp only
  rw [h.active]
  dsimp only
  rw [if_pos hleft, if_pos (Nat.zero_le _)]
  unfold LogFile.fwrite
  rw [List.take_zero, List.append_nil, Nat.add_zero, ← h.pc]

end AsyncLogging

namespace Logged

open AsyncLogging

def Stalled (written : Bytes) : Except LogFault Logged → Prop
  | .error _ => True
  | .ok s => s.logging.written = written ∧
      ∃ i buffer c, s.logging.Writing i buffer c ∧ c.pos < buffer.getLength

theorem Stalled.step {written : Bytes} {c c' : Except LogFault Logged} {a : LogAct}
    (h : Stalled written c) (ha : ∀ n, a ≠ .thread (n + 1)) (hstep : step c a = some c') :
    Stalled written c' := by
  cases c with
  | error e => exact nomatch hstep
  | ok s =>
      obtain ⟨hwritten, i, buffer, c, hw, hleft⟩ := h
      cases c' with
      | error e => exact trivial
      | ok s' =>
          cases moves_of_step hstep with
          | append happ =>
              obtain ⟨buffers, current, next, rfl⟩ := append_frame happ
              exact ⟨hwritten, i, buffer, c, ⟨hw.pc, hw.active, hw.file⟩, hleft⟩
          | start hidle =>
              rw [hw.pc] at hidle
              cases hidle
          | stop => exact ⟨hwritten, i, buffer, c, ⟨hw.pc, hw.active, hw.file⟩, hleft⟩
          | @thread n l hr =>
              obtain rfl : n = 0 := by
                cases n with
                | zero => rfl
                | succ n => exact absurd rfl (ha n)
              rw [hw.spin hleft] at hr
              cases hr
              exact ⟨hwritten, i, buffer, c, hw, hleft⟩

/-- While the stream takes nothing, the files stay as they are and all lines since stay in memory,
whatever is appended and even behind `Stop`. -/
theorem written_of_stalled {acts : List LogAct} {s t : Logged} (hkept : Kept (.ok s))
    (hstalled : Stalled s.logging.written (.ok s)) (hacts : ∀ n, .thread (n + 1) ∉ acts)
    (hrun : Lib.runFrom step (.ok s) acts = some (.ok t)) :
    t.logging.written = s.logging.written ∧ t.logging.pc ≠ .exited ∧
      t.logging.held = t.lines.flatten := by
  have hend := Lib.runFrom_keeps (P := fun c => Kept c ∧ Stalled s.logging.written c)
    (fun c a c' hmem h hstep =>
      ⟨h.1.step hstep, h.2.step (fun n heq => hacts n (heq ▸ hmem)) hstep⟩)
    ⟨hkept, hstalled⟩ hrun
  obtain ⟨⟨-, hheld⟩, hwritten, i, buffer, c, hw, -⟩ := hend
  refine ⟨hwritten, ?_, hheld⟩
  rw [hw.pc]
  exact LogPc.noConfusion

end Logged

end CPlusServer

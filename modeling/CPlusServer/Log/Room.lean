import CPlusServer.Http.Chars
import CPlusServer.Log.Intact

/-!
# Room in the large buffers

`AsyncLogging::Append` changes the buffer when the space is less than the line,
and `FixedBuffer::Append` wants it to be more. A line that fills the buffer to
the last byte meets neither.
-/

namespace CPlusServer

namespace AsyncLogging

def target (l : AsyncLogging) (line : Bytes) : Option LargeBuffer :=
  l.currentBuffer.bind fun b =>
    if b.getSpace < line.length then l.rotate.currentBuffer else some b

def Exact (l : AsyncLogging) (line : Bytes) : Prop :=
  ∃ b : LargeBuffer, l.currentBuffer = some b ∧ b.getSpace = line.length

theorem target_of_current {l : AsyncLogging} {b : LargeBuffer} (h : l.currentBuffer = some b)
    (line : Bytes) : l.target line =
      if b.getSpace < line.length then l.rotate.currentBuffer else some b := by
  unfold target
  rw [h]
  rfl

theorem Sound.rotate_current {l : AsyncLogging} (h : Sound l) :
    ∃ b : LargeBuffer, l.rotate.currentBuffer = some b ∧ b.getSpace = FIXEDLARGEBUFFFERSIZE := by
  obtain ⟨b, hb⟩ := Option.isSome_iff_exists.1 h.rotate.1.current
  refine ⟨b, hb, ?_⟩
  have hblank : b.data = [] := by
    have hnext := h.nextBlank
    change (if l.nextBuffer.isSome then l.nextBuffer else some {}) = some b at hb
    split at hb
    · rw [hb] at hnext
      exact hnext
    · cases hb
      rfl
  unfold FixedBuffer.getSpace
  rw [hblank]
  exact Int.sub_zero _

theorem Sound.exists_target {l : AsyncLogging} (h : Sound l) (line : Bytes) :
    ∃ b, l.target line = some b := by
  obtain ⟨b, hb⟩ := Option.isSome_iff_exists.1 h.current
  obtain ⟨b', hb', -⟩ := h.rotate_current
  rw [target_of_current hb]
  split
  · exact ⟨b', hb'⟩
  · exact ⟨b, rfl⟩

theorem appendCurrent_eq {l : AsyncLogging} {b : LargeBuffer} (h : l.currentBuffer = some b)
    (line : Bytes) :
    (∃ l', l.appendCurrent line = .ok l') ↔ (line.length : Int) < b.getSpace := by
  unfold appendCurrent FixedBuffer.append
  rw [h]
  by_cases hroom : b.getSpace > line.length
  · simp [deref, bind, Except.bind, pure, Except.pure, hroom]
  · simp [deref, bind, Except.bind, hroom]

theorem space_appendCurrent {l l' : AsyncLogging} {b : LargeBuffer} {line : Bytes}
    (h : l.currentBuffer = some b) (happ : l.appendCurrent line = .ok l') :
    ∃ b' : LargeBuffer, l'.currentBuffer = some b' ∧ b'.getSpace = b.getSpace - line.length := by
  unfold appendCurrent at happ
  rw [h] at happ
  obtain ⟨current, hcurrent, happ⟩ := ok_of_bind_ok happ
  cases hcurrent
  obtain ⟨b', happend, hl⟩ := ok_of_bind_ok happ
  cases hl
  refine ⟨b', rfl, ?_⟩
  unfold FixedBuffer.append at happend
  split_ifs at happend
  cases happend
  unfold FixedBuffer.getSpace
  rw [List.length_append]
  omega

theorem append_eq_of_target {l : AsyncLogging} {line : Bytes} {b : LargeBuffer}
    (h : l.target line = some b) :
    ∃ m : AsyncLogging, m.currentBuffer = some b ∧ l.append line = m.appendCurrent line := by
  obtain ⟨current, hcurrent, hb⟩ := Option.bind_eq_some_iff.1 h
  have happend : l.append line =
      if current.getSpace < line.length then l.rotate.appendCurrent line
      else l.appendCurrent line := by
    unfold append
    rw [hcurrent]
    rfl
  rw [happend]
  split_ifs at hb ⊢
  · exact ⟨l.rotate, hb, rfl⟩
  · cases hb
    exact ⟨l, hcurrent, rfl⟩

theorem append_ok_iff {l : AsyncLogging} {line : Bytes} {b : LargeBuffer}
    (h : l.target line = some b) :
    (∃ l', l.append line = .ok l') ↔ (line.length : Int) < b.getSpace := by
  obtain ⟨m, hm, happ⟩ := append_eq_of_target h
  rw [happ]
  exact appendCurrent_eq hm line

theorem Sound.append_ne_errif_iff {l : AsyncLogging} (h : Sound l) {line : Bytes} {b : LargeBuffer}
    (hb : l.target line = some b) :
    l.append line ≠ .error .errif ↔ (line.length : Int) < b.getSpace := by
  rw [← append_ok_iff hb]
  rcases h.append line with ⟨l', happ, -⟩ | herr
  · rw [happ]
    exact iff_of_true (fun hno => by cases hno) ⟨l', rfl⟩
  · rw [herr]
    exact iff_of_false (fun hno => hno rfl) fun hno => by cases hno.choose_spec

/-- A line that is shorter than a whole buffer has room unless it fills the current one. -/
theorem Sound.room_iff {l : AsyncLogging} (h : Sound l) {line : Bytes}
    (hline : line.length < FIXEDLARGEBUFFFERSIZE) {b : LargeBuffer} (hb : l.target line = some b) :
    (line.length : Int) < b.getSpace ↔ ¬ l.Exact line := by
  obtain ⟨current, hcurrent⟩ := Option.isSome_iff_exists.1 h.current
  obtain ⟨fresh, hfresh, hspace⟩ := h.rotate_current
  have hexact : l.Exact line ↔ current.getSpace = line.length := by
    constructor
    · intro hex
      obtain ⟨b', hb', heq⟩ := hex
      rw [hcurrent] at hb'
      cases hb'
      exact heq
    · exact fun heq => ⟨current, hcurrent, heq⟩
  rw [target_of_current hcurrent] at hb
  rw [hexact]
  split_ifs at hb with hless
  · rw [hfresh] at hb
    cases hb
    omega
  · cases hb
    omega

end AsyncLogging

namespace Logged

open AsyncLogging

/-- The step calls `FixedBuffer::Append` with more space than it needs, if it calls it. -/
def Roomy : Except LogFault Logged → LogAct → Prop
  | .ok s, .append line => ∀ b ∈ s.logging.target line, (line.length : Int) < b.getSpace
  | _, _ => True

def NotExact : Except LogFault Logged → LogAct → Prop
  | .ok s, .append line => ¬ s.logging.Exact line
  | _, _ => True

/-- Every call of `FixedBuffer::Append` has room, and no `Errif` is reached. -/
structure NeverFull (acts : List LogAct) : Prop where
  room : Lib.Each step Roomy (.ok {}) acts
  errif : Lib.Always step (fun c => c ≠ .error .errif) (.ok {}) acts

/-- A step that is not an append without room does not fault, and any other ends the process. -/
theorem Kept.step_iff {c c' : Except LogFault Logged} {a : LogAct} (h : Kept c)
    (hstep : Logged.step c a = some c') : c' ≠ .error .errif ↔ Roomy c a := by
  cases c with
  | error e => cases hstep
  | ok s =>
      obtain ⟨hsound, -⟩ := h
      cases a with
      | append line =>
          cases hstep
          obtain ⟨b, hb⟩ := hsound.exists_target line
          have hroomy : Roomy (.ok s) (.append line) ↔ (line.length : Int) < b.getSpace := by
            show (∀ b ∈ s.logging.target line, _) ↔ _
            rw [hb]
            simp
          rw [hroomy, ← hsound.append_ne_errif_iff hb]
          exact bind_pure_ne_error_iff
      | start =>
          unfold Logged.step at hstep
          dsimp only at hstep
          split_ifs at hstep
          cases hstep
          exact iff_of_true (fun hno => by cases hno) trivial
      | stop =>
          cases hstep
          exact iff_of_true (fun hno => by cases hno) trivial
      | thread n =>
          obtain ⟨r, hr, hc⟩ := Option.map_eq_some_iff.1 hstep
          obtain ⟨l, rfl, -⟩ := hsound.threadStep hr
          cases hc
          exact iff_of_true (fun hno => by cases hno) trivial

/-- **Room.** With lines shorter than a whole buffer, every call has room and no `Errif` is reached
exactly when no line fills the current buffer to the last byte. -/
theorem neverFull_iff {acts : List LogAct}
    (hlines : ∀ line, .append line ∈ acts → line.length < FIXEDLARGEBUFFFERSIZE) :
    NeverFull acts ↔ Lib.Each step NotExact (.ok {}) acts := by
  have hkept : Lib.Always step Kept (.ok {}) acts :=
    Lib.always_of_keeps (fun _ _ _ h hstep => h.step hstep) kept_fresh acts
  have hsame : Lib.Each step Roomy (.ok {}) acts ↔ Lib.Each step NotExact (.ok {}) acts := by
    apply hkept.each_congr
    intro c a ha hc
    cases c with
    | error e => exact Iff.rfl
    | ok s =>
        cases a with
        | append line =>
            obtain ⟨b, hb⟩ := hc.1.exists_target line
            have hroom := hc.1.room_iff (hlines line ha) hb
            show (∀ b ∈ s.logging.target line, _) ↔ ¬ s.logging.Exact line
            rw [hb, ← hroom]
            simp
        | start => exact Iff.rfl
        | stop => exact Iff.rfl
        | thread n => exact Iff.rfl
  have hstart : Kept (.ok {}) ∧ (.ok {} : Except LogFault Logged) ≠ .error .errif :=
    ⟨kept_fresh, fun hno => by cases hno⟩
  have herrif : Lib.Always step (fun c => c ≠ .error .errif) (.ok {}) acts ↔
      Lib.Each step Roomy (.ok {}) acts := by
    refine Lib.always_iff_each (fun c => Kept c ∧ c ≠ .error .errif) (fun _ h => h.2) ?_ ?_ hstart
      acts
    · exact fun c a c' h hroomy hstep => ⟨h.1.step hstep, (h.1.step_iff hstep).2 hroomy⟩
    · exact fun c a c' h hno hstep hok => hno ((h.1.step_iff hstep).1 hok)
  rw [← hsame]
  constructor
  · exact fun h => h.room
  · exact fun h => ⟨h, herrif.2 h⟩

theorem neverFull_hello : NeverFull [.append (ascii "hello\n"), .start, .thread 0] ↔
    Lib.Each step NotExact (.ok {}) [.append (ascii "hello\n"), .start, .thread 0] := by
  refine neverFull_iff fun line hline => ?_
  simp only [List.mem_cons, LogAct.append.injEq, reduceCtorEq, List.not_mem_nil, or_false] at hline
  rw [hline]
  decide

/-- Two lines of half a buffer each end the process. -/
theorem errif_of_halves {line : Bytes} (h : 2 * line.length = FIXEDLARGEBUFFFERSIZE) :
    Lib.runFrom step (.ok {}) [.append line, .append line] = some (.error .errif) := by
  have hempty : (({} : LargeBuffer)).getSpace = FIXEDLARGEBUFFFERSIZE := rfl
  have hfirst : ({} : AsyncLogging).target line = some {} := by
    have hmore : ¬ (({} : LargeBuffer)).getSpace < line.length := by omega
    rw [target_of_current rfl, if_neg hmore]
  have hroom : (line.length : Int) < (({} : LargeBuffer)).getSpace := by
    have hpos : 0 < FIXEDLARGEBUFFFERSIZE := by decide
    omega
  obtain ⟨l, happ⟩ := (append_ok_iff hfirst).2 hroom
  obtain ⟨m, hm, heq⟩ := append_eq_of_target hfirst
  obtain ⟨b, hb, hspace⟩ := space_appendCurrent hm (heq.symm.trans happ)
  have hsecond : l.target line = some b := by
    have hmore : ¬ b.getSpace < line.length := by omega
    rw [target_of_current hb, if_neg hmore]
  have hsound' : Kept (.ok ⟨l, [line]⟩) := by
    refine kept_fresh.step (a := .append line) ?_
    show some (do
      let l ← ({} : AsyncLogging).append line
      return (⟨l, [] ++ [line]⟩ : Logged)) = _
    rw [happ]
    rfl
  have herr : l.append line = .error .errif := by
    by_contra hok
    have hmore := (hsound'.1.append_ne_errif_iff hsecond).1 hok
    omega
  show (some (do
    let l ← ({} : AsyncLogging).append line
    return (⟨l, [] ++ [line]⟩ : Logged))).bind _ = _
  rw [happ]
  show (some (do
    let l ← l.append line
    return (⟨l, [line] ++ [line]⟩ : Logged))).bind _ = _
  rw [herr]
  rfl

def halfLine : Bytes := List.replicate 2048000 (chr 'x')

/-- The second half has no room: the space is the length of the line. -/
theorem not_neverFull_halves : halfLine.length < FIXEDLARGEBUFFFERSIZE ∧
    Lib.runFrom step (.ok {}) [.append halfLine, .append halfLine] = some (.error .errif) ∧
      ¬ NeverFull [.append halfLine, .append halfLine] := by
  have hlength : halfLine.length = 2048000 := List.length_replicate
  have htwo : 2 * halfLine.length = FIXEDLARGEBUFFFERSIZE := by rw [hlength]; rfl
  have hrun := errif_of_halves htwo
  refine ⟨by rw [hlength]; decide, hrun, fun h => ?_⟩
  exact h.errif.runFrom hrun rfl

end Logged

end CPlusServer

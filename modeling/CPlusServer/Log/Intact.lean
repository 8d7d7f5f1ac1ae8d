import CPlusServer.Lib.Run
import CPlusServer.Log.AsyncLogging

/-!
# No line is lost

In every state that a run reaches, the log files, the unwritten rest of the
active buffers, the full buffers and the current one hold together exactly the
lines appended so far. The invariant adds what each step dereferences.
-/

namespace CPlusServer

namespace AsyncLogging

/-! ## What the buffers hold -/

def text : Option LargeBuffer → Bytes
  | none => []
  | some b => b.data

def texts (bs : List (Option LargeBuffer)) : Bytes := bs.flatMap text

@[simp] theorem texts_nil : texts [] = [] := rfl

@[simp] theorem texts_cons (b : Option LargeBuffer) (bs : List (Option LargeBuffer)) :
    texts (b :: bs) = text b ++ texts bs := rfl

@[simp] theorem texts_append (bs bs' : List (Option LargeBuffer)) :
    texts (bs ++ bs') = texts bs ++ texts bs' := List.flatMap_append

def written (l : AsyncLogging) : Bytes := l.closedFiles.flatMap LogFile.content ++ l.logFile.content

def unwritten (l : AsyncLogging) : Bytes :=
  match l.pc with
  | .writing i => texts (l.activeBuffers.drop i)
  | .inWrite i pos =>
      (text l.activeBuffers[i]?.join).drop pos ++ texts (l.activeBuffers.drop (i + 1))
  | _ => texts l.activeBuffers

def Blank (b : Option LargeBuffer) : Prop := text b = []

/-! ## The invariant -/

def Locals (l : AsyncLogging) : Prop :=
  match l.pc with
  | .idle | .entry | .exited => l.activeBuffers = []
  | .loop | .locking | .waiting =>
      l.activeBuffers = [] ∧ l.newCurrent.isSome = true ∧ l.newNext.isSome = true
  | .writing i => l.activeBuffers ≠ [] ∧ i ≤ l.activeBuffers.length
  | .inWrite i pos => l.logFile.writtenBytes < FILEMAXIMUMSIZE ∧
      ∃ b : LargeBuffer, l.activeBuffers[i]? = some (some b) ∧ pos ≤ b.data.length

structure Sound (l : AsyncLogging) : Prop where
  current : l.currentBuffer.isSome = true
  nextBlank : Blank l.nextBuffer
  newCurrentBlank : Blank l.newCurrent
  newNextBlank : Blank l.newNext
  buffers : none ∉ l.buffers
  active : none ∉ l.activeBuffers
  file : 0 ≤ l.logFile.writtenBytes ∧
    l.logFile.writtenBytes < FILEMAXIMUMSIZE + FIXEDLARGEBUFFFERSIZE
  locals : Locals l

/-- Everything the logger holds, in the order in which it was appended. -/
def held (l : AsyncLogging) : Bytes :=
  l.written ++ l.unwritten ++ texts l.buffers ++ text l.currentBuffer

theorem isSome_of_not_mem {bs : List (Option LargeBuffer)} (h : none ∉ bs) {b : Option LargeBuffer}
    (hb : b ∈ bs) : b.isSome = true := by
  cases b with
  | none => exact absurd hb h
  | some _ => rfl

/-! ## `Append` -/

theorem Sound.rotate {l : AsyncLogging} (h : Sound l) :
    Sound l.rotate ∧ l.rotate.held = l.held := by
  rcases Option.isSome_iff_exists.1 h.current with ⟨current, hcurrent⟩
  have hblank : text (if l.nextBuffer.isSome then l.nextBuffer else some {}) = [] := by
    split
    · exact h.nextBlank
    · rfl
  refine ⟨⟨?_, rfl, h.newCurrentBlank, h.newNextBlank, ?_, h.active, h.file, h.locals⟩, ?_⟩
  · unfold AsyncLogging.rotate
    dsimp only
    split
    · assumption
    · rfl
  · unfold AsyncLogging.rotate
    rw [hcurrent]
    simpa using h.buffers
  · have hunwritten : l.rotate.unwritten = l.unwritten := rfl
    unfold held
    rw [hunwritten]
    unfold AsyncLogging.rotate written
    simp only [hblank, texts_append, texts_cons, texts_nil, List.append_nil, List.append_assoc]

theorem Sound.put {l : AsyncLogging} (h : Sound l) {b b' : LargeBuffer} {line : Bytes}
    (hb : l.currentBuffer = some b) (happ : b.append line = .ok b') :
    Sound { l with currentBuffer := some b' } ∧
      held { l with currentBuffer := some b' } = l.held ++ line := by
  refine ⟨⟨rfl, h.nextBlank, h.newCurrentBlank, h.newNextBlank, h.buffers, h.active, h.file,
    h.locals⟩, ?_⟩
  have hdata : b'.data = b.data ++ line := by
    unfold FixedBuffer.append at happ
    split at happ
    · rw [← Except.ok.inj happ]
    · cases happ
  show l.written ++ l.unwritten ++ texts l.buffers ++ b'.data = _
  unfold held
  rw [hdata, hb, List.append_assoc, List.append_assoc, List.append_assoc]
  simp only [text, List.append_assoc]

theorem errif_of_append {size : Nat} {b : FixedBuffer size} {buf : Bytes} {e : LogFault}
    (h : b.append buf = .error e) : e = .errif := by
  unfold FixedBuffer.append at h
  split at h
  · cases h
  · exact (Except.error.inj h).symm

theorem Sound.appendCurrent {l : AsyncLogging} (h : Sound l) (line : Bytes) :
    (∃ l', l.appendCurrent line = .ok l' ∧ Sound l' ∧ l'.held = l.held ++ line) ∨
      l.appendCurrent line = .error .errif := by
  rcases Option.isSome_iff_exists.1 h.current with ⟨b, hb⟩
  unfold AsyncLogging.appendCurrent
  rw [hb]
  cases happ : b.append line with
  | ok b' =>
      left
      refine ⟨_, ?_, h.put hb happ⟩
      simp only [deref, bind, Except.bind, happ, pure, Except.pure]
  | error e =>
      right
      simp only [deref, bind, Except.bind, happ, errif_of_append happ]

/-- `Append` adds its line at the end or ends the process. -/
theorem Sound.append {l : AsyncLogging} (h : Sound l) (line : Bytes) :
    (∃ l', l.append line = .ok l' ∧ Sound l' ∧ l'.held = l.held ++ line) ∨
      l.append line = .error .errif := by
  obtain ⟨b, hb⟩ := Option.isSome_iff_exists.1 h.current
  have happend : l.append line =
      if b.getSpace < line.length then l.rotate.appendCurrent line else l.appendCurrent line := by
    unfold AsyncLogging.append
    rw [hb]
    rfl
  rw [happend]
  split
  · rcases h.rotate with ⟨hrotate, hheld⟩
    rw [← hheld]
    exact hrotate.appendCurrent line
  · exact h.appendCurrent line

/-! ## The thread -/

/-- The full buffers and the current one become the active ones, in order. -/
theorem Sound.handOver {l : AsyncLogging} (h : Sound l) (hactive : l.activeBuffers = [])
    (hcurrent : l.newCurrent.isSome = true) (hunwritten : l.unwritten = []) :
    Sound l.handOver ∧ l.handOver.held = l.held := by
  have hown : l.currentBuffer ≠ none := Option.isSome_iff_ne_none.1 h.current
  refine ⟨⟨hcurrent, ?_, rfl, ?_, ?_, ?_, h.file, ?_⟩, ?_⟩
  · unfold AsyncLogging.handOver
    dsimp only
    split
    · exact h.nextBlank
    · exact h.newNextBlank
  · unfold AsyncLogging.handOver
    dsimp only
    split
    · exact h.newNextBlank
    · rfl
  · show none ∉ l.activeBuffers
    exact h.active
  · show none ∉ l.buffers ++ [l.currentBuffer]
    simp only [List.mem_append, List.mem_singleton, not_or]
    exact ⟨h.buffers, hown.symm⟩
  · show l.buffers ++ [l.currentBuffer] ≠ [] ∧ 0 ≤ (l.buffers ++ [l.currentBuffer]).length
    exact ⟨by simp, Nat.zero_le _⟩
  · show l.written ++ texts (l.buffers ++ [l.currentBuffer]) ++ texts l.activeBuffers ++
      text l.newCurrent = l.held
    have hblank : text l.newCurrent = [] := h.newCurrentBlank
    unfold held
    rw [hunwritten, hactive, hblank]
    simp only [texts_append, texts_cons, texts_nil, List.append_nil, List.append_assoc]

theorem texts_drop {bs : List (Option LargeBuffer)} {i : Nat} {b : Option LargeBuffer}
    (h : bs[i]? = some b) : texts (bs.drop i) = text b ++ texts (bs.drop (i + 1)) := by
  rcases List.getElem?_eq_some_iff.1 h with ⟨hi, hb⟩
  rw [List.drop_eq_getElem_cons hi, texts_cons, hb]

theorem Sound.beginWrite {l : AsyncLogging} (h : Sound l) {i : Nat} (hpc : l.pc = .writing i)
    (hi : i < l.activeBuffers.length) :
    Sound (l.beginWrite i) ∧ (l.beginWrite i).held = l.held := by
  have hmem : l.activeBuffers[i]? = some l.activeBuffers[i] := List.getElem?_eq_getElem hi
  obtain ⟨b, hb⟩ := Option.isSome_iff_exists.1
    (isSome_of_not_mem h.active (List.getElem_mem hi))
  rw [hb] at hmem
  have hrest : l.unwritten = text (some b) ++ texts (l.activeBuffers.drop (i + 1)) := by
    unfold unwritten
    rw [hpc]
    exact texts_drop hmem
  have hnow : (text l.activeBuffers[i]?.join).drop 0 ++ texts (l.activeBuffers.drop (i + 1)) =
      l.unwritten := by
    rw [hrest, hmem]
    rfl
  have hmax : (0 : Int) < FILEMAXIMUMSIZE := by decide
  have hlimit : (0 : Int) < FILEMAXIMUMSIZE + FIXEDLARGEBUFFFERSIZE := by decide
  unfold AsyncLogging.beginWrite
  split
  · refine ⟨⟨h.current, h.nextBlank, h.newCurrentBlank, h.newNextBlank, h.buffers, h.active,
      ⟨Int.le_refl 0, hlimit⟩, hmax, b, hmem, Nat.zero_le _⟩, ?_⟩
    unfold held
    rw [← hnow]
    unfold written unwritten
    simp only [List.flatMap_append, List.flatMap_cons, List.flatMap_nil, List.append_nil]
  · rename_i hsmall
    refine ⟨⟨h.current, h.nextBlank, h.newCurrentBlank, h.newNextBlank, h.buffers, h.active,
      h.file, not_le.1 hsmall, b, hmem, Nat.zero_le _⟩, ?_⟩
    unfold held
    rw [← hnow]
    rfl

/-- A call of `fwrite_unlocked` moves bytes from the buffer to the file. -/
theorem Sound.fwrite {l : AsyncLogging} (h : Sound l) {i pos n : Nat} {b : LargeBuffer}
    (hpc : l.pc = .inWrite i pos) (hb : l.activeBuffers[i]? = some (some b))
    (hn : n ≤ b.getLength - pos) (hpos : pos < b.getLength) :
    Sound { l with logFile := l.logFile.fwrite b.data pos n, pc := .inWrite i (pos + n) } ∧
      held { l with logFile := l.logFile.fwrite b.data pos n, pc := .inWrite i (pos + n) } =
        l.held := by
  have hlocals := h.locals
  unfold Locals at hlocals
  rw [hpc] at hlocals
  unfold FixedBuffer.getLength at hn hpos
  refine ⟨⟨h.current, h.nextBlank, h.newCurrentBlank, h.newNextBlank, h.buffers, h.active,
    h.file, hlocals.1, b, hb, by omega⟩, ?_⟩
  have hsplit : ∀ rest, (b.data.drop pos).take n ++ (b.data.drop (pos + n) ++ rest) =
      b.data.drop pos ++ rest := by
    intro rest
    rw [← List.append_assoc, ← List.drop_drop, List.take_append_drop]
  unfold held written unwritten
  rw [hpc]
  simp only [LogFile.fwrite, hb, Option.join_some, text, List.append_assoc, hsplit]

theorem Sound.finishWrite {l : AsyncLogging} (h : Sound l) {i pos : Nat} {b : LargeBuffer}
    (hpc : l.pc = .inWrite i pos) (hb : l.activeBuffers[i]? = some (some b))
    (hpos : ¬ pos < b.getLength) :
    ∃ f, l.logFile.finishWrite b.getLength = .ok f ∧
      Sound { l with logFile := f, pc := .writing (i + 1) } ∧
        held { l with logFile := f, pc := .writing (i + 1) } = l.held := by
  have hlocals := h.locals
  unfold Locals at hlocals
  rw [hpc] at hlocals
  obtain ⟨hsmall, -⟩ := hlocals
  rcases h.file with ⟨hlow, -⟩
  have hfits := b.fits
  unfold FixedBuffer.getLength at hpos ⊢
  unfold FILEMAXIMUMSIZE at hsmall
  unfold FIXEDLARGEBUFFFERSIZE at hfits
  rcases List.getElem?_eq_some_iff.1 hb with ⟨hi, -⟩
  have hne : l.activeBuffers ≠ [] := List.ne_nil_of_length_pos (by omega)
  have hfile : ∃ f, l.logFile.finishWrite b.data.length = .ok f ∧ f.content = l.logFile.content ∧
      0 ≤ f.writtenBytes ∧ f.writtenBytes < FILEMAXIMUMSIZE + FIXEDLARGEBUFFFERSIZE := by
    unfold LogFile.finishWrite
    by_cases hzero : b.data.length = 0
    · rw [if_pos hzero]
      exact ⟨_, rfl, rfl, h.file⟩
    · rw [if_neg hzero, if_pos ⟨by omega, by omega⟩]
      refine ⟨_, rfl, rfl, ?_, ?_⟩
      · dsimp only
        omega
      · unfold FILEMAXIMUMSIZE FIXEDLARGEBUFFFERSIZE
        dsimp only
        omega
  obtain ⟨f, hf, hcontent, hrange⟩ := hfile
  refine ⟨f, hf, ⟨h.current, h.nextBlank, h.newCurrentBlank, h.newNextBlank, h.buffers, h.active,
    hrange, hne, Nat.succ_le_of_lt hi⟩, ?_⟩
  have hdone : b.data.drop pos = [] := List.drop_eq_nil_of_le (by omega)
  unfold held written unwritten
  rw [hpc]
  simp only [hcontent, hb, Option.join_some, text, hdone, List.nil_append]

theorem takeBack_ok {active : List (Option LargeBuffer)} (hne : active ≠ [])
    (hown : none ∉ active) :
    ∃ b : LargeBuffer, takeBack active = .ok (b, active.dropLast) ∧ b.data = [] := by
  obtain ⟨b, hb⟩ := Option.isSome_iff_exists.1
    (isSome_of_not_mem hown (List.getLast_mem hne))
  refine ⟨b.clear, ?_, rfl⟩
  unfold takeBack
  rw [List.getLast?_eq_some_getLast hne, hb]
  rfl

/-- Back at the top of the loop with two empty buffers and none active. -/
theorem Sound.recycled {l : AsyncLogging} (h : Sound l) (hunwritten : l.unwritten = [])
    {b : LargeBuffer} (hb : b.data = []) {next : Option LargeBuffer} (hnext : next.isSome = true)
    (hblank : Blank next) :
    Sound { l with newCurrent := some b, activeBuffers := [], pc := .loop, newNext := next } ∧
      held { l with newCurrent := some b, activeBuffers := [], pc := .loop, newNext := next } =
        l.held := by
  refine ⟨⟨h.current, h.nextBlank, hb, hblank, h.buffers, List.not_mem_nil, h.file, rfl, rfl,
    hnext⟩, ?_⟩
  unfold held
  rw [hunwritten]
  rfl

theorem Sound.recycle {l : AsyncLogging} (h : Sound l) {i : Nat} (hpc : l.pc = .writing i)
    (hi : ¬ i < l.activeBuffers.length) :
    ∃ l', l.recycle = .ok l' ∧ Sound l' ∧ l'.held = l.held := by
  have hlocals := h.locals
  unfold Locals at hlocals
  rw [hpc] at hlocals
  have hunwritten : l.unwritten = [] := by
    unfold unwritten
    rw [hpc]
    dsimp only
    rw [List.drop_eq_nil_of_le (by omega)]
    rfl
  generalize hactive :
    (if l.activeBuffers.length > 2 then l.activeBuffers.take 2 else l.activeBuffers) = active
  have hne : active ≠ [] := by
    rw [← hactive]
    split
    · rename_i hlong
      intro hnil
      have hlen := congrArg List.length hnil
      rw [List.length_take, List.length_nil] at hlen
      omega
    · exact hlocals.1
  have hown : none ∉ active := by
    rw [← hactive]
    split
    · exact fun hmem => h.active (List.mem_of_mem_take hmem)
    · exact h.active
  rcases takeBack_ok hne hown with ⟨b, hback, hb⟩
  unfold AsyncLogging.recycle
  simp only [hactive, hback, bind, Except.bind, pure, Except.pure]
  by_cases hnext : l.newNext.isSome = true
  · rw [if_pos hnext]
    exact ⟨_, rfl, h.recycled hunwritten hb hnext h.newNextBlank⟩
  · rw [if_neg hnext]
    by_cases hempty : active.dropLast.isEmpty = true
    · rw [if_pos hempty]
      exact ⟨_, rfl, h.recycled hunwritten hb rfl rfl⟩
    · rw [if_neg hempty]
      have hne' : active.dropLast ≠ [] := fun hnil => hempty (by rw [hnil]; rfl)
      obtain ⟨b', hback', hb'⟩ :=
        takeBack_ok hne' fun hmem => hown ((List.dropLast_sublist active).subset hmem)
      rw [hback']
      exact ⟨_, rfl, h.recycled hunwritten hb rfl hb'⟩

theorem Sound.goto {l : AsyncLogging} (h : Sound l) (pc : LogPc)
    (hlocals : Locals { l with pc := pc }) (hsame : unwritten { l with pc := pc } = l.unwritten) :
    Sound { l with pc := pc } ∧ held { l with pc := pc } = l.held := by
  refine ⟨⟨h.current, h.nextBlank, h.newCurrentBlank, h.newNextBlank, h.buffers, h.active, h.file,
    hlocals⟩, ?_⟩
  unfold held
  rw [hsame]
  rfl

/-- No step of the thread dereferences null, takes from an empty vector or overflows, and none
changes what the logger holds. -/
theorem Sound.threadStep {l : AsyncLogging} (h : Sound l) {n : Nat}
    {r : Except LogFault AsyncLogging} (hr : l.threadStep n = some r) :
    ∃ l', r = .ok l' ∧ Sound l' ∧ l'.held = l.held := by
  have hlocals := h.locals
  unfold Locals at hlocals
  unfold AsyncLogging.threadStep at hr
  cases hpc : l.pc with
  | idle => simp [hpc] at hr
  | exited => simp [hpc] at hr
  | entry =>
      simp only [hpc] at hr hlocals
      cases hr
      refine ⟨_, rfl, ⟨h.current, h.nextBlank, rfl, rfl, h.buffers, h.active, h.file, hlocals, rfl,
        rfl⟩, ?_⟩
      unfold held written unwritten
      rw [hpc]
  | loop =>
      simp only [hpc] at hr hlocals
      have hsame : l.unwritten = texts l.activeBuffers := by simp only [unwritten, hpc]
      by_cases hrunning : l.running = true
      · simp only [if_pos hrunning] at hr
        cases hr
        exact ⟨_, rfl, h.goto .locking hlocals hsame.symm⟩
      · simp only [if_neg hrunning] at hr
        cases hr
        exact ⟨_, rfl, h.goto .exited hlocals.1 hsame.symm⟩
  | locking =>
      simp only [hpc] at hr hlocals
      have hsame : l.unwritten = texts l.activeBuffers := by simp only [unwritten, hpc]
      split at hr
      · cases hr
        exact ⟨_, rfl, h.goto .waiting hlocals hsame.symm⟩
      · cases hr
        refine ⟨_, rfl, h.handOver hlocals.1 hlocals.2.1 ?_⟩
        rw [hsame, hlocals.1]
        rfl
  | waiting =>
      simp only [hpc] at hr hlocals
      have hsame : l.unwritten = texts l.activeBuffers := by simp only [unwritten, hpc]
      cases hr
      refine ⟨_, rfl, h.handOver hlocals.1 hlocals.2.1 ?_⟩
      rw [hsame, hlocals.1]
      rfl
  | writing i =>
      simp only [hpc] at hr
      by_cases hi : i < l.activeBuffers.length
      · rw [if_pos hi] at hr
        cases hr
        exact ⟨_, rfl, h.beginWrite hpc hi⟩
      · rw [if_neg hi] at hr
        rcases h.recycle hpc hi with ⟨l', hl', hsound⟩
        cases hr
        exact ⟨l', hl', hsound⟩
  | inWrite i pos =>
      simp only [hpc] at hr hlocals
      obtain ⟨-, b, hb, hle⟩ := hlocals
      simp only [hb] at hr
      by_cases hpos : pos < b.getLength
      · rw [if_pos hpos] at hr
        by_cases hn : n ≤ b.getLength - pos
        · rw [if_pos hn] at hr
          cases hr
          exact ⟨_, rfl, h.fwrite hpc hb hn hpos⟩
        · rw [if_neg hn] at hr
          cases hr
      · rw [if_neg hpos] at hr
        rcases h.finishWrite hpc hb hpos with ⟨f, hf, hsound⟩
        cases hr
        refine ⟨_, ?_, hsound⟩
        rw [hf]
        rfl

end AsyncLogging

/-! ## Runs -/

namespace Logged

open AsyncLogging

/-- The only fault is an `Errif`. Without one, the log files, the active buffers not yet written,
the full buffers and the current one are the lines in order of their `Append`, what is handed out
next is empty, and the count of the log file is an `int`. -/
def Intact : Except LogFault Logged → Prop
  | .error e => e = .errif
  | .ok s =>
      s.logging.written ++ s.logging.unwritten ++ texts s.logging.buffers ++
          text s.logging.currentBuffer = s.lines.flatten ∧
        Blank s.logging.nextBuffer ∧ Blank s.logging.newCurrent ∧ Blank s.logging.newNext ∧
          InInt s.logging.logFile.writtenBytes

def Kept : Except LogFault Logged → Prop
  | .error e => e = .errif
  | .ok s => Sound s.logging ∧ s.logging.held = s.lines.flatten

theorem kept_fresh : Kept (.ok {}) := by
  refine ⟨⟨rfl, rfl, rfl, rfl, List.not_mem_nil, List.not_mem_nil, ?_, rfl⟩, rfl⟩
  exact ⟨Int.le_refl 0, by decide⟩

theorem Kept.intact {c : Except LogFault Logged} (h : Kept c) : Intact c := by
  cases c with
  | error e => exact h
  | ok s =>
      rcases h with ⟨hsound, hheld⟩
      obtain ⟨hlow, hhigh⟩ := hsound.file
      unfold FILEMAXIMUMSIZE FIXEDLARGEBUFFFERSIZE at hhigh
      exact ⟨hheld, hsound.nextBlank, hsound.newCurrentBlank, hsound.newNextBlank, by omega,
        by omega⟩

theorem Kept.step {c c' : Except LogFault Logged} {a : LogAct} (h : Kept c)
    (hstep : Logged.step c a = some c') : Kept c' := by
  cases c with
  | error e => exact nomatch hstep
  | ok s =>
      rcases h with ⟨hsound, hheld⟩
      cases a with
      | append line =>
          cases hstep
          rcases hsound.append line with ⟨l, happ, hl, hline⟩ | herr
          · rw [happ]
            refine ⟨hl, ?_⟩
            show l.held = (s.lines ++ [line]).flatten
            rw [hline, hheld, List.flatten_append, List.flatten_singleton]
          · rw [herr]
            rfl
      | start =>
          change (if s.logging.pc = .idle then
            some (.ok { s with logging := s.logging.start }) else none) = some c' at hstep
          by_cases hidle : s.logging.pc = .idle
          · rw [if_pos hidle] at hstep
            cases hstep
            have hlocals := hsound.locals
            unfold Locals at hlocals
            rw [hidle] at hlocals
            refine ⟨⟨hsound.current, hsound.nextBlank, hsound.newCurrentBlank, hsound.newNextBlank,
              hsound.buffers, hsound.active, hsound.file, hlocals⟩, ?_⟩
            rw [← hheld]
            unfold held unwritten
            rw [hidle]
            rfl
          · rw [if_neg hidle] at hstep
            exact nomatch hstep
      | stop =>
          cases hstep
          exact ⟨⟨hsound.current, hsound.nextBlank, hsound.newCurrentBlank, hsound.newNextBlank,
            hsound.buffers, hsound.active, hsound.file, hsound.locals⟩, hheld⟩
      | thread n =>
          rcases Option.map_eq_some_iff.1 hstep with ⟨r, hr, hc⟩
          obtain ⟨l, rfl, hl, hsame⟩ := hsound.threadStep hr
          cases hc
          exact ⟨hl, hsame.trans hheld⟩

/-- **AsyncLogging.** Whatever the order of appends and steps of the thread, no line is lost,
repeated or moved. -/
theorem intact_of_run (acts : List LogAct) : Lib.Always step Intact (.ok {}) acts :=
  Lib.Always.mono (fun _ hc => hc.intact) (Lib.always_of_keeps (fun _ _ _ h => h.step) kept_fresh acts)

end Logged

end CPlusServer

import CPlusServer.Http.Chars
import CPlusServer.Log.Intact
import Mathlib.Data.List.Infix

/-!
# Stopping the logger

What the files hold when the thread has exited. The thread looks at `running_`
only at the top of its loop and leaves at once: what lies in `buffers_` and
`current_buffer_` by then stays there.
-/

namespace CPlusServer

namespace AsyncLogging

/-- The destructor. The thread is joined when its member goes. -/
def destroy (l : AsyncLogging) : AsyncLogging := if l.running then l.stop else l

theorem destroy_eq_stop (l : AsyncLogging) : l.destroy = l.stop := by
  unfold destroy stop
  cases hrunning : l.running with
  | true => rfl
  | false =>
      rw [if_neg (by simp), ← hrunning]

/-- What the thread has written, or will before it looks at `running_` again. -/
def taken (l : AsyncLogging) : Bytes := l.written ++ l.unwritten

def left (l : AsyncLogging) : Bytes := texts l.buffers ++ text l.currentBuffer

theorem held_eq (l : AsyncLogging) : l.held = l.taken ++ l.left := by
  unfold held taken left
  rw [List.append_assoc]

def Collects (l : AsyncLogging) : Prop := l.pc = .locking ∨ l.pc = .waiting

/-! ## One step -/

/-- Where the thread goes next. It exits only when `running_` is found false, and then it does not
take the buffers over again. -/
structure Goes (l l' : AsyncLogging) : Prop where
  running : l'.running = l.running
  started : l'.pc ≠ .idle
  exits : l'.pc = .exited → l.running = false
  collects : l'.Collects → l.running = true ∨ l.Collects

theorem threadStep_ok {l l' : AsyncLogging} {n : Nat} (h : l.threadStep n = some (.ok l')) :
    Goes l l' ∧ (l.Collects ∧ l' = l.handOver ∨
      (l.Collects → l'.Collects) ∧ l'.buffers = l.buffers ∧ l'.currentBuffer = l.currentBuffer) := by
  have hbusy (hlock : l.pc ≠ .locking) (hwait : l.pc ≠ .waiting) : l.Collects → l'.Collects :=
    fun hcollects => absurd hcollects (not_or.2 ⟨hlock, hwait⟩)
  cases takes_of_threadStep h with
  | enters hpc =>
      exact ⟨⟨rfl, by simp, by simp, by simp [Collects]⟩,
        .inr ⟨hbusy (by simp [hpc]) (by simp [hpc]), rfl, rfl⟩⟩
  | locks hpc hrunning =>
      exact ⟨⟨rfl, by simp, by simp, fun _ => .inl hrunning⟩,
        .inr ⟨hbusy (by simp [hpc]) (by simp [hpc]), rfl, rfl⟩⟩
  | exits hpc hstopped =>
      exact ⟨⟨rfl, by simp, fun _ => hstopped, by simp [Collects]⟩,
        .inr ⟨hbusy (by simp [hpc]) (by simp [hpc]), rfl, rfl⟩⟩
  | waits hpc _ =>
      exact ⟨⟨rfl, by simp, by simp, fun _ => .inr (.inl hpc)⟩, .inr ⟨fun _ => .inr rfl, rfl, rfl⟩⟩
  | handsOver hcollects =>
      exact ⟨⟨rfl, by simp [handOver], by simp [handOver], fun _ => .inr hcollects⟩,
        .inl ⟨hcollects, rfl⟩⟩
  | @beginsWrite i hpc _ =>
      have hbegin : (l.beginWrite i).pc = .inWrite i 0 ∧ (l.beginWrite i).running = l.running ∧
          (l.beginWrite i).buffers = l.buffers ∧
            (l.beginWrite i).currentBuffer = l.currentBuffer := by
        unfold beginWrite
        split <;> exact ⟨rfl, rfl, rfl, rfl⟩
      obtain ⟨hinWrite, hrunning, hkept⟩ := hbegin
      exact ⟨⟨hrunning, by simp [hinWrite], by simp [hinWrite], by simp [Collects, hinWrite]⟩,
        .inr ⟨hbusy (by simp [hpc]) (by simp [hpc]), hkept⟩⟩
  | recycles hpc _ hrecycle =>
      obtain ⟨newCurrent, newNext, rfl⟩ := recycle_frame hrecycle
      exact ⟨⟨rfl, by simp, by simp, by simp [Collects]⟩,
        .inr ⟨hbusy (by simp [hpc]) (by simp [hpc]), rfl, rfl⟩⟩
  | fwrites hpc _ _ _ | finishesWrite hpc _ _ _ =>
      exact ⟨⟨rfl, by simp, by simp, by simp [Collects]⟩,
        .inr ⟨hbusy (by simp [hpc]) (by simp [hpc]), rfl, rfl⟩⟩

/-- `Append` is about the front end's buffers only. -/
theorem append_frame {l l' : AsyncLogging} {line : Bytes} (h : l.append line = .ok l') :
    ∃ buffers current next,
      l' = { l with buffers := buffers, currentBuffer := current, nextBuffer := next } := by
  have hcurrent : ∀ m : AsyncLogging, m.appendCurrent line = .ok l' →
      ∃ current, l' = { m with currentBuffer := current } := by
    intro m hm
    obtain ⟨b, -, hm⟩ := ok_of_bind_ok hm
    obtain ⟨b', -, hm⟩ := ok_of_bind_ok hm
    cases hm
    exact ⟨some b', rfl⟩
  obtain ⟨b, -, h⟩ := ok_of_bind_ok h
  split at h
  · obtain ⟨current, rfl⟩ := hcurrent l.rotate h
    exact ⟨_, _, _, rfl⟩
  · obtain ⟨current, rfl⟩ := hcurrent l h
    exact ⟨_, _, _, rfl⟩

theorem append_ok {l l' : AsyncLogging} {line : Bytes} (h : l.append line = .ok l') :
    l'.pc = l.pc ∧ l'.running = l.running ∧ l'.taken = l.taken := by
  obtain ⟨buffers, current, next, rfl⟩ := append_frame h
  exact ⟨rfl, rfl, rfl⟩

/-- Outside the section under the mutex the thread takes nothing new. -/
theorem Sound.taken_threadStep {l l' : AsyncLogging} (h : Sound l) {n : Nat}
    (hstep : l.threadStep n = some (.ok l')) (hkept : l'.buffers = l.buffers)
    (hcurrent : l'.currentBuffer = l.currentBuffer) : l'.taken = l.taken := by
  obtain ⟨_, heq, -, hheld⟩ := h.threadStep hstep
  cases heq
  rw [held_eq, held_eq] at hheld
  have hleft : l'.left = l.left := by
    unfold left
    rw [hkept, hcurrent]
  rw [hleft] at hheld
  exact List.append_cancel_right hheld

theorem Sound.taken_handOver {l : AsyncLogging} (h : Sound l) {n : Nat} (hcollects : l.Collects)
    (hstep : l.threadStep n = some (.ok l.handOver)) : l.handOver.taken = l.held := by
  obtain ⟨_, heq, -, hheld⟩ := h.threadStep hstep
  cases heq
  have hactive : l.activeBuffers = [] := by
    have hlocals := h.locals
    unfold Locals at hlocals
    rcases hcollects with hpc | hpc <;> rw [hpc] at hlocals <;> exact hlocals.1
  have hleft : l.handOver.left = [] := by
    show texts l.activeBuffers ++ text l.newCurrent = []
    rw [hactive, h.newCurrentBlank]
    rfl
  rw [← hheld, held_eq, hleft, List.append_nil]

theorem Sound.written_of_exited {l : AsyncLogging} (h : Sound l) (hpc : l.pc = .exited) :
    l.taken = l.written := by
  have hlocals := h.locals
  unfold Locals at hlocals
  rw [hpc] at hlocals
  unfold taken unwritten
  rw [hpc]
  dsimp only
  rw [hlocals]
  exact List.append_nil _

end AsyncLogging

namespace Logged

open AsyncLogging

/-! ## Runs -/

inductive Moves (s : Logged) : LogAct → Logged → Prop
  | append {line : Bytes} {l : AsyncLogging} : s.logging.append line = .ok l →
      Moves s (.append line) ⟨l, s.lines ++ [line]⟩
  | start : s.logging.pc = .idle → Moves s .start { s with logging := s.logging.start }
  | stop : Moves s .stop { s with logging := s.logging.stop }
  | thread {n : Nat} {l : AsyncLogging} : s.logging.threadStep n = some (.ok l) →
      Moves s (.thread n) { s with logging := l }

theorem moves_of_step {s s' : Logged} {a : LogAct} (h : step (.ok s) a = some (.ok s')) :
    Moves s a s' := by
  cases a with
  | append line =>
      have hmap : (s.logging.append line).map (fun l => Logged.mk l (s.lines ++ [line])) = .ok s' :=
        Option.some.inj h
      cases happ : s.logging.append line with
      | error e =>
          rw [happ] at hmap
          cases hmap
      | ok l =>
          rw [happ] at hmap
          cases hmap
          exact .append happ
  | start =>
      obtain ⟨hidle, heq⟩ := Option.ite_none_right_eq_some.1 h
      cases heq
      exact .start hidle
  | stop =>
      cases h
      exact .stop
  | thread n =>
      obtain ⟨r, hr, hc⟩ := Option.map_eq_some_iff.1 h
      cases r with
      | error e => cases hc
      | ok l =>
          cases hc
          exact .thread hr

/-- The lines in `upTo` have been taken over, or the thread is about to. -/
def Ahead (upTo : Bytes) : Except LogFault Logged → Prop
  | .error _ => True
  | .ok s => upTo <+: s.lines.flatten ∧ (s.logging.Collects ∨ upTo <+: s.logging.taken)

theorem Ahead.step {upTo : Bytes} {c c' : Except LogFault Logged} {a : LogAct} (hk : Kept c)
    (h : Ahead upTo c) (hstep : step c a = some c') : Ahead upTo c' := by
  cases c with
  | error e => exact nomatch hstep
  | ok s =>
      obtain ⟨hsound, hheld⟩ := hk
      obtain ⟨hlines, htaken⟩ := h
      cases c' with
      | error e => exact trivial
      | ok s' =>
          cases moves_of_step hstep with
          | @append line l happ =>
              obtain ⟨hpc, -, heq⟩ := append_ok happ
              constructor
              · rw [List.flatten_append]
                exact hlines.trans (List.prefix_append _ _)
              · show (l.pc = .locking ∨ l.pc = .waiting) ∨ upTo <+: l.taken
                rw [hpc, heq]
                exact htaken
          | start hidle =>
              have hsame : s.logging.start.taken = s.logging.taken := by
                unfold taken unwritten
                rw [hidle]
                rfl
              have hno : ¬ s.logging.Collects := by simp [Collects, hidle]
              refine ⟨hlines, .inr ?_⟩
              show upTo <+: s.logging.start.taken
              rw [hsame]
              exact htaken.resolve_left hno
          | stop => exact ⟨hlines, htaken⟩
          | @thread n l hr =>
              refine ⟨hlines, ?_⟩
              rcases (threadStep_ok hr).2 with ⟨hcollects, rfl⟩ | ⟨hstays, hbuffers, hcurrent⟩
              · right
                show upTo <+: s.logging.handOver.taken
                rw [hsound.taken_handOver hcollects hr, hheld]
                exact hlines
              · show l.Collects ∨ upTo <+: l.taken
                rw [hsound.taken_threadStep hr hbuffers hcurrent]
                exact htaken.imp_left hstays

/-- The thread has not found out, has not been started, or takes nothing over any more. -/
def Behind (taken : Bytes) : Except LogFault Logged → Prop
  | .error _ => True
  | .ok s => s.logging.pc = .idle ∨ (s.logging.running = true ∧ s.logging.pc ≠ .exited) ∨
      (s.logging.running = false ∧ ¬ s.logging.Collects ∧ s.logging.taken = taken)

theorem Behind.step {taken : Bytes} {c c' : Except LogFault Logged} {a : LogAct} (hk : Kept c)
    (h : Behind taken c) (ha : a ≠ .stop) (hstep : step c a = some c') : Behind taken c' := by
  cases c with
  | error e => exact nomatch hstep
  | ok s =>
      obtain ⟨hsound, -⟩ := hk
      cases c' with
      | error e => exact trivial
      | ok s' =>
          cases moves_of_step hstep with
          | @append line l happ =>
              obtain ⟨hpc, hrunning, heq⟩ := append_ok happ
              show l.pc = .idle ∨ (l.running = true ∧ l.pc ≠ .exited) ∨
                (l.running = false ∧ ¬ (l.pc = .locking ∨ l.pc = .waiting) ∧ l.taken = taken)
              rw [hpc, hrunning, heq]
              exact h
          | start hidle => exact .inr (.inl ⟨rfl, fun hno => nomatch hno⟩)
          | stop => exact absurd rfl ha
          | @thread n l hr =>
              obtain ⟨hgoes, hkept⟩ := threadStep_ok hr
              rcases h with hidle | ⟨hrunning, -⟩ | ⟨hrunning, hcollects, htaken⟩
              · exact absurd (by simp [threadStep, hidle]) (Option.ne_none_iff_exists'.2 ⟨_, hr⟩)
              · refine .inr (.inl ⟨hgoes.running.trans hrunning, fun hexit => ?_⟩)
                rw [hgoes.exits hexit] at hrunning
                exact nomatch hrunning
              · have hstill : ¬ l.Collects := by
                  intro hno
                  rcases hgoes.collects hno with hyes | hyes
                  · rw [hrunning] at hyes
                    exact nomatch hyes
                  · exact hcollects hyes
                refine .inr (.inr ⟨hgoes.running.trans hrunning, hstill, ?_⟩)
                rcases hkept with ⟨hyes, -⟩ | ⟨-, hbuffers, hcurrent⟩
                · exact absurd hyes hcollects
                · rw [← htaken]
                  exact hsound.taken_threadStep hr hbuffers hcurrent

/-- **Stop.** Let the thread exit after the last `Stop` or the destructor. All lines whose `Append`
had returned by then are in the log files exactly when the thread was about to take the buffers
over, or nothing was left in them. -/
theorem drained_iff {before after : List LogAct} {s t : Logged} {l : AsyncLogging}
    (hs : Lib.runFrom step (.ok {}) before = some (.ok s))
    (hl : l = s.logging.stop ∨ l = s.logging.destroy) (hafter : ∀ a ∈ after, a ≠ .stop)
    (ht : Lib.runFrom step (.ok { s with logging := l }) after = some (.ok t))
    (hexit : t.logging.pc = .exited) :
    s.lines.flatten <+: t.logging.written ↔ s.logging.Collects ∨ s.logging.left = [] := by
  have hstop : l = s.logging.stop := by
    rcases hl with hl | hl
    · exact hl
    · exact hl.trans (destroy_eq_stop _)
  subst hstop
  have hkept : Kept (.ok s) := Lib.runFrom_keeps (fun _ _ _ _ hk hstep => hk.step hstep) kept_fresh hs
  have hstopped : Kept (.ok { s with logging := s.logging.stop }) :=
    hkept.step (a := .stop) rfl
  have hheld : s.lines.flatten = s.logging.taken ++ s.logging.left := by
    rw [← held_eq]
    exact hkept.2.symm
  constructor
  · intro hwritten
    refine or_iff_not_imp_left.2 fun hcollects => ?_
    have hend := Lib.runFrom_keeps (P := fun c => Kept c ∧ Behind s.logging.taken c)
      (fun c a c' hmem h hstep => ⟨h.1.step hstep, h.2.step h.1 (hafter a hmem) hstep⟩)
      ⟨hstopped, .inr (.inr ⟨rfl, hcollects, rfl⟩)⟩ ht
    obtain ⟨⟨hsound, -⟩, hbehind⟩ := hend
    have htaken : t.logging.taken = s.logging.taken := by
      rcases hbehind with hidle | ⟨-, hno⟩ | ⟨-, -, heq⟩
      · rw [hexit] at hidle
        exact nomatch hidle
      · exact absurd hexit hno
      · exact heq
    rw [← hsound.written_of_exited hexit, htaken, hheld] at hwritten
    have hlen := hwritten.length_le
    rw [List.length_append] at hlen
    exact List.eq_nil_of_length_eq_zero (by omega)
  · intro h
    have hahead : Ahead s.lines.flatten (.ok { s with logging := s.logging.stop }) := by
      refine ⟨List.prefix_refl _, h.imp id fun hleft => ?_⟩
      show s.lines.flatten <+: s.logging.taken
      rw [hheld, hleft, List.append_nil]
    have hend := Lib.runFrom_keeps (P := fun c => Kept c ∧ Ahead s.lines.flatten c)
      (fun c a c' _ h hstep => ⟨h.1.step hstep, h.2.step h.1 hstep⟩) ⟨hstopped, hahead⟩ ht
    obtain ⟨⟨hsound, -⟩, -, htaken⟩ := hend
    rw [← hsound.written_of_exited hexit]
    refine htaken.resolve_left fun hno => ?_
    unfold Collects at hno
    rw [hexit] at hno
    simp at hno

def waitingRun : List LogAct := [.start, .thread 0, .thread 0, .thread 0, .append [chr 'x']]

def lastRound : List LogAct := [.thread 0, .thread 0, .thread 1, .thread 0, .thread 0, .thread 0]

theorem drained_waitingRun : ∃ s t : Logged,
    Lib.runFrom step (.ok {}) waitingRun = some (.ok s) ∧
      Lib.runFrom step (.ok { s with logging := s.logging.stop }) lastRound = some (.ok t) ∧
      t.logging.pc = .exited ∧
      (s.lines.flatten <+: t.logging.written ↔ s.logging.Collects ∨ s.logging.left = []) :=
  ⟨_, _, rfl, rfl, rfl,
    @drained_iff waitingRun lastRound _ _ _ rfl (.inl rfl) (by simp [lastRound]) rfl rfl⟩

/-- `Stop` is called when the thread is about to look at `running_`: the line stays behind. -/
theorem not_drained_at_loop : ∃ s t : Logged,
    Lib.runFrom step (.ok {}) [.start, .thread 0, .append [chr 'x']] = some (.ok s) ∧
      Lib.runFrom step (.ok { s with logging := s.logging.stop }) [.thread 0] = some (.ok t) ∧
      t.logging.pc = .exited ∧ ¬ s.lines.flatten <+: t.logging.written :=
  ⟨_, _, rfl, rfl, rfl, by decide⟩

end Logged

end CPlusServer

import CPlusServer.Net.Trace

/-!
# The input of a connection

The loop of `ReadNonBlocking` over the results of its `read` calls, and what of
the bytes it reads gets to `handle_read_func_`. The input buffer is emptied when
the next read event starts, and an event that meets the end of the stream
returns before the handler.
-/

namespace CPlusServer

/-- What a call of `read` returns. A result above 0 has at least one byte. -/
inductive ReadResult
  | data (first : UInt8) (rest : Bytes)
  | eintr
  | eagain
  | eof
  | error
  deriving DecidableEq

/-- The data of one read event and how it ends; none while the loop still asks. -/
def readCall : List ReadResult → Option (List Bytes × ReadEnd)
  | [] => none
  | .data first rest :: rs => (readCall rs).map fun call => ((first :: rest) :: call.1, call.2)
  | .eintr :: rs => readCall rs
  | .eagain :: _ => some ([], .eagain)
  | .eof :: _ => some ([], .eof)
  | .error :: _ => some ([], .error)

namespace Connection

variable {n : Nat}

def readLoop (c : Connection n) : List ReadResult → Option (Connection n × List Effect)
  | [] => none
  | .data first rest :: rs => readLoop { c with inputBuffer := c.inputBuffer ++ first :: rest } rs
  | .eintr :: rs => readLoop c rs
  | .eagain :: _ => some (c, [])
  | .eof :: _ | .error :: _ => some ({ c with state := .closed }, [.removeConnection])

/-- The loop does what `readNonBlocking` says of the data and the end of the event. -/
theorem readLoop_eq (c : Connection n) (rs : List ReadResult) :
    c.readLoop rs = (readCall rs).map fun call => c.readNonBlocking call.1 call.2 := by
  induction rs generalizing c with
  | nil => rfl
  | cons r rs ih =>
      cases r with
      | data first rest =>
          rw [readLoop, ih, readCall, Option.map_map]
          congr 1
          funext ⟨chunks, readEnd⟩
          simp [readNonBlocking, List.append_assoc]
      | eintr => exact ih c
      | eagain => simp [readLoop, readCall, readNonBlocking]
      | eof => simp [readLoop, readCall, readNonBlocking]
      | error => simp [readLoop, readCall, readNonBlocking]

/-- What `handle_read_func_` finds in the input buffer if it is called. -/
def passed (c : Connection n) (d : Dispatch) : Bytes :=
  if .handleRead ∈ (c.listenClientMessage d).2 then (c.read d.chunks d.readEnd).1.inputBuffer else []

theorem passed_of_eagain {c : Connection n} {d : Dispatch} (hstate : c.state = .connected)
    (hend : d.readEnd = .eagain) : c.passed d = d.chunks.flatten := by
  unfold passed
  rw [listenClientMessage_of_answers hstate hend, if_pos List.mem_cons_self]
  simp [read, readNonBlocking, hstate, hend]

theorem passed_of_not {c : Connection n} {d : Dispatch}
    (h : ¬ (c.state = .connected ∧ d.readEnd = .eagain)) : c.passed d = [] := by
  obtain ⟨x, heq, -, -⟩ := listenClientMessage_of_not h
  unfold passed
  rw [heq, if_neg (by simp)]

end Connection

/-- A connection with the bytes that `read` has returned and those that `handle_read_func_` has
found in the input buffer so far. -/
structure Incoming (n : Nat) where
  conn : Connection n
  returned : Bytes := []
  passed : Bytes := []

/-- A read event with the results of `read`, what the handler makes of the input, and the result
of `write` in its `Send`; or a write-ready event. -/
inductive InAct
  | readReady (results : List ReadResult) (verdict : Verdict) (sendResult : WriteResult)
  | writeReady (w : WriteResult)

namespace Incoming

variable {n : Nat} {s s' : Incoming n}

def fresh (fd : Nat) (loop : Fin (n + 1)) (channel : Channel) : Incoming n :=
  { conn := { fd := fd, loop := loop, channel := channel } }

/-- `Read` calls `read` only for a connection that is connected. -/
def step (s : Incoming n) : InAct → Option (Incoming n)
  | .readReady results verdict w =>
      (readCall results).map fun call =>
        let d : Dispatch := ⟨call.1, call.2, verdict, w, .eagain⟩
        { conn := (s.conn.listenClientMessage d).1
          returned := if s.conn.state = .connected then s.returned ++ call.1.flatten else s.returned
          passed := s.passed ++ s.conn.passed d }
  | .writeReady w => some { s with conn := (s.conn.sendClientMessage w).1 }

def PassedOn (s : Incoming n) : Prop := s.passed = s.returned

/-- A read event of a connection in use has read nothing, or ends with EAGAIN. -/
def EndsWell (s : Incoming n) : InAct → Prop
  | .readReady results _ _ => s.conn.state = .connected → ∀ call ∈ readCall results,
      call.1.flatten = [] ∨ call.2 = .eagain
  | .writeReady _ => True

/-- A read event passes on what it reads exactly when it has read nothing or ends with EAGAIN. -/
theorem passed_eq_iff {c : Connection n} (hstate : c.state = .connected) (d : Dispatch) :
    c.passed d = d.chunks.flatten ↔ d.chunks.flatten = [] ∨ d.readEnd = .eagain := by
  by_cases hend : d.readEnd = .eagain
  · exact iff_of_true (Connection.passed_of_eagain hstate hend) (.inr hend)
  · rw [Connection.passed_of_not fun hno => hend hno.2, eq_comm, or_iff_left hend]

theorem PassedOn.step_iff (h : s.PassedOn) {a : InAct} (hstep : s.step a = some s') :
    s'.PassedOn ↔ s.EndsWell a := by
  cases a with
  | writeReady w =>
      cases hstep
      exact iff_of_true h trivial
  | readReady results verdict w =>
      obtain ⟨⟨chunks, readEnd⟩, hcall, heq⟩ := Option.map_eq_some_iff.1 hstep
      let d : Dispatch := ⟨chunks, readEnd, verdict, w, .eagain⟩
      have hafter : s'.PassedOn ↔ s.returned ++ s.conn.passed d =
          if s.conn.state = .connected then s.returned ++ chunks.flatten else s.returned := by
        rw [← heq, ← show s.passed = s.returned from h]
        exact Iff.rfl
      have hcond : s.EndsWell (.readReady results verdict w) ↔
          (s.conn.state = .connected → chunks.flatten = [] ∨ readEnd = .eagain) := by
        simp [EndsWell, hcall]
      rw [hafter, hcond]
      by_cases hstate : s.conn.state = .connected
      · rw [if_pos hstate, List.append_cancel_left_eq, passed_eq_iff hstate d]
        exact ⟨fun hends _ => hends, fun hends => hends hstate⟩
      · rw [if_neg hstate, Connection.passed_of_not fun hno => hstate hno.1, List.append_nil]
        exact iff_of_true rfl fun hno => absurd hno hstate

/-- **Input.** In every run of read events and write-ready events all bytes that `read` has
returned have been passed on, exactly when each read event has read nothing or ends with EAGAIN. -/
theorem passedOn_iff (fd : Nat) (loop : Fin (n + 1)) (channel : Channel) (acts : List InAct) :
    Lib.Always step PassedOn (fresh fd loop channel) acts ↔
      Lib.Each step EndsWell (fresh fd loop channel) acts := by
  have hfresh : PassedOn (fresh fd loop channel) := rfl
  refine Lib.always_iff_each PassedOn (fun _ h => h) ?_ ?_ hfresh acts
  · exact fun _ _ _ h hq hstep => (h.step_iff hstep).2 hq
  · exact fun _ _ _ h hq hstep hpassed => hq ((h.step_iff hstep).1 hpassed)

def readToEof (results : List ReadResult) : InAct := .readReady results .incomplete .eagain

/-- The byte is not passed on: `ListenClientMessage` returns early. -/
theorem not_passedOn_readToEof :
    ¬ Lib.Always step PassedOn (fresh (n := 0) 5 0 {}) [readToEof [.data (chr 'x') [], .eof]] := by
  have hend : (Lib.runFrom step (fresh (n := 0) 5 0 {})
      [readToEof [.data (chr 'x') [], .eof]]).map (fun s => (s.returned, s.passed)) =
      some ([chr 'x'], []) := by decide
  intro h
  obtain ⟨s, hpassed, hs⟩ := h.exists_end hend
  simp only [Prod.mk.injEq] at hs
  unfold PassedOn at hpassed
  rw [hs.1, hs.2] at hpassed
  exact nomatch hpassed

/-- With EAGAIN between them the same results are served. -/
example : (Lib.runFrom step (fresh (n := 0) 5 0 {})
    [readToEof [.data (chr 'x') [], .eagain], readToEof [.eof]]).map (fun s => s.passed) =
    some [chr 'x'] := by decide

end Incoming

end CPlusServer

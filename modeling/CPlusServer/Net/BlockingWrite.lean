import CPlusServer.Net.Buffer
import CPlusServer.Net.Connection
import CPlusServer.Net.Standalone

/-!
# Blocking writes

`WriteBlocking` on the buffer itself: the loop counts the bytes that are still to be
written, beside the indices of the buffer, and looks at the count only behind a
successful write. It does what the loop on the byte queue does.
-/

namespace CPlusServer

/-- The output of a connection that has no `remove_`. `sent` is what the socket has taken. -/
structure OutputSide where
  state : ConnState := .connected
  outputBuffer : Buffer := {}
  sent : Bytes := []

namespace OutputSide

def wrote (c : OutputSide) (k : Nat) : Except Buffer.Fault OutputSide := do
  let taken ← c.outputBuffer.peekAsString k
  let outputBuffer ← c.outputBuffer.retreive k
  return { c with outputBuffer := outputBuffer, sent := c.sent ++ taken }

/-- None while it still asks. A write of no bytes returns 0. -/
def writeLoop (c : OutputSide) (bytesToWrite : Nat) :
    List WriteReturn → Except Buffer.Fault (Option OutputSide)
  | [] => .ok none
  | .accepted k :: rs =>
      let hadWrite := min k bytesToWrite
      if 0 < hadWrite then do
        let c ← c.wrote hadWrite
        let bytesToWrite := bytesToWrite - hadWrite
        if bytesToWrite = 0 then return some c else writeLoop c bytesToWrite rs
      else .ok (some { c with state := .closed })
  | .eintr :: rs => writeLoop c bytesToWrite rs
  | .eagain :: _ | .error :: _ => .ok (some { c with state := .closed })

def writeBlocking (c : OutputSide) (rs : List WriteReturn) :
    Except Buffer.Fault (Option OutputSide) :=
  c.writeLoop c.outputBuffer.readableBytes.toNat rs

/-! ## The byte queue -/

structure Shows (c : OutputSide) (s : Standalone) : Prop where
  state : c.state = s.state
  sent : c.sent = s.sent
  output : c.outputBuffer.Holds s.outputBuffer

variable {c : OutputSide} {s : Standalone}

theorem Shows.wrote (h : c.Shows s) {k : Nat} (hk : k ≤ s.outputBuffer.length) :
    ∃ c', c.wrote k = .ok c' ∧ c'.Shows (s.wrote k) := by
  have hcount : (k : Int) ≤ s.outputBuffer.length := by omega
  have hpeek := h.output.slice (Int.natCast_nonneg k) hcount
  obtain ⟨b, hretreive, hholds⟩ := h.output.retreive (Int.natCast_nonneg k) hcount
  rw [Int.toNat_natCast] at hpeek hholds
  refine ⟨{ c with outputBuffer := b, sent := c.sent ++ s.outputBuffer.take k }, ?_, h.state, ?_,
    hholds⟩
  · unfold OutputSide.wrote
    rw [hpeek, hretreive]
    rfl
  · show c.sent ++ s.outputBuffer.take k = s.sent ++ s.outputBuffer.take k
    rw [h.sent]

theorem Shows.close (h : c.Shows s) (failed : Bool) :
    Shows { c with state := .closed } { s.close with failed := failed } :=
  ⟨rfl, h.sent, h.output⟩

/-- While the count is what the queue holds, the loop neither faults nor differs. -/
theorem Shows.writeLoop (h : c.Shows s) {n : Nat} (hn : n = s.outputBuffer.length)
    (rs : List WriteReturn) :
    ∃ r, c.writeLoop n rs = .ok r ∧ Option.Rel Shows r (s.writeLoop n rs) := by
  induction rs generalizing c s n with
  | nil => exact ⟨none, rfl, .none⟩
  | cons r rs ih =>
      cases r with
      | accepted k =>
          have hle : min k n ≤ s.outputBuffer.length := by omega
          obtain ⟨c', hwrote, hshows⟩ := h.wrote hle
          have hrest : n - min k n = (s.wrote (min k n)).outputBuffer.length := by
            rw [hn]
            exact List.length_drop.symm
          unfold OutputSide.writeLoop Standalone.writeLoop
          dsimp only
          by_cases htook : 0 < min k n
          · rw [if_pos htook, if_pos htook, hwrote]
            change ∃ r, (if n - min k n = 0 then _ else _) = _ ∧ _
            by_cases hdone : n - min k n = 0
            · rw [if_pos hdone, if_pos hdone]
              exact ⟨some c', rfl, .some hshows⟩
            · rw [if_neg hdone, if_neg hdone]
              exact ih hshows hrest
          · rw [if_neg htook, if_neg htook]
            exact ⟨_, rfl, .some (h.close _)⟩
      | eintr => exact ih h hn
      | eagain | error => exact ⟨_, rfl, .some (h.close _)⟩

/-- The count starts as what the buffer holds. -/
theorem Shows.writeBlocking (h : c.Shows s) (rs : List WriteReturn) :
    ∃ r, c.writeBlocking rs = .ok r ∧ Option.Rel Shows r (s.writeBlocking rs) := by
  have hcount : c.outputBuffer.readableBytes.toNat = s.outputBuffer.length := by
    rw [h.output.readable, Int.toNat_natCast]
  unfold OutputSide.writeBlocking Standalone.writeBlocking
  rw [hcount]
  exact h.writeLoop rfl rs

end OutputSide

/-! ## Short writes -/

/-- The socket takes some of the bytes, or a signal interrupts the call. -/
def WriteReturn.Short (r : WriteReturn) : Prop := r = .eintr ∨ ∃ k, r = .accepted (k + 1)

def capacity : List WriteReturn → Nat
  | [] => 0
  | .accepted k :: rs => k + capacity rs
  | _ :: rs => capacity rs

namespace Standalone

/-- Short writes that are enough take the queue in order, and others leave the loop asking. -/
theorem writeLoop_of_short {s : Standalone} (hne : s.outputBuffer ≠ []) {rs : List WriteReturn}
    (hrs : ∀ r ∈ rs, r.Short) :
    s.writeLoop s.outputBuffer.length rs =
      if s.outputBuffer.length ≤ capacity rs then
        some { s with outputBuffer := [], sent := s.sent ++ s.outputBuffer }
      else none := by
  induction rs generalizing s with
  | nil =>
      have hlen : 0 < s.outputBuffer.length := List.length_pos_of_ne_nil hne
      rw [if_neg (by simp only [capacity]; omega)]
      rfl
  | cons r rs ih =>
      have hrest : ∀ r ∈ rs, r.Short := fun r hr => hrs r (List.mem_cons_of_mem _ hr)
      rcases hrs r List.mem_cons_self with rfl | ⟨k, rfl⟩
      · exact ih hne hrest
      · have hlen : 0 < s.outputBuffer.length := List.length_pos_of_ne_nil hne
        unfold writeLoop
        dsimp only
        rw [if_pos (by omega), capacity]
        by_cases hall : s.outputBuffer.length ≤ k + 1
        · rw [Nat.min_eq_right hall, Nat.sub_self, if_pos rfl, if_pos (by omega)]
          unfold wrote
          rw [List.drop_length, List.take_length]
        · have hleft : s.outputBuffer.length - (k + 1) = (s.wrote (k + 1)).outputBuffer.length :=
            List.length_drop.symm
          have hmore : (s.wrote (k + 1)).outputBuffer ≠ [] := by
            apply List.ne_nil_of_length_pos
            omega
          rw [Nat.min_eq_left (by omega), if_neg (by omega), hleft, ih hmore hrest, ← hleft]
          by_cases henough : s.outputBuffer.length ≤ k + 1 + capacity rs
          · rw [if_pos henough, if_pos (by omega)]
            simp only [wrote, List.append_assoc, List.take_append_drop]
          · rw [if_neg henough, if_neg (by omega)]

/-- With nothing to write the first write that is not interrupted takes nothing. -/
theorem closed_of_writeLoop_zero {s s' : Standalone} {rs : List WriteReturn}
    (hrs : ∀ r ∈ rs, r.Short) (h : s.writeLoop 0 rs = some s') : s'.state = .closed := by
  induction rs with
  | nil => cases h
  | cons r rs ih =>
      rcases hrs r List.mem_cons_self with rfl | ⟨k, rfl⟩
      · exact ih (fun r hr => hrs r (List.mem_cons_of_mem _ hr)) h
      · unfold writeLoop at h
        rw [Nat.min_zero] at h
        cases h
        rfl

end Standalone

structure ShortWrites where
  result : Nat → WriteReturn
  short : ∀ i, (result i).Short

namespace ShortWrites

def first (ws : ShortWrites) (n : Nat) : List WriteReturn := (List.range n).map ws.result

theorem short_first (ws : ShortWrites) {n : Nat} : ∀ r ∈ ws.first n, r.Short := by
  intro r hr
  obtain ⟨i, -, rfl⟩ := List.mem_map.1 hr
  exact ws.short i

end ShortWrites

namespace OutputSide

/-- After some of the calls `WriteBlocking` returns, has put what the buffer held on the socket and
leaves the buffer empty and the connection connected. -/
def Delivers (c : OutputSide) (ws : ShortWrites) : Prop :=
  ∃ n c', c.writeBlocking (ws.first n) = .ok (some c') ∧
    c.outputBuffer.peekAllString.map (c.sent ++ ·) = .ok c'.sent ∧
    c'.outputBuffer.Holds [] ∧ c'.state = .connected

variable {c : OutputSide} {q : Bytes}

theorem shows_queue (h : c.outputBuffer.Holds q) :
    c.Shows { state := c.state, sent := c.sent, outputBuffer := q } :=
  ⟨rfl, rfl, h⟩

theorem not_delivers_of_empty (h : c.outputBuffer.Holds []) (ws : ShortWrites) :
    ¬ c.Delivers ws := by
  intro hdelivers
  obtain ⟨n, c', hrun, -, -, hstate⟩ := hdelivers
  obtain ⟨r, hr, hrel⟩ := (shows_queue h).writeBlocking (ws.first n)
  rw [hrun] at hr
  cases hr
  cases hqueue : Standalone.writeBlocking { state := c.state, sent := c.sent } (ws.first n) with
  | none =>
      rw [hqueue] at hrel
      cases hrel
  | some s' =>
      rw [hqueue] at hrel
      cases hrel with
      | some hshows =>
          have hclosed := Standalone.closed_of_writeLoop_zero ws.short_first hqueue
          rw [← hshows.state, hstate] at hclosed
          cases hclosed

/-- **Blocking write.** Whatever short writes and interrupts come, `WriteBlocking` delivers what
waits exactly when something does and the writes take enough. -/
theorem delivers_iff (hstate : c.state = .connected) (h : c.outputBuffer.Holds q)
    (ws : ShortWrites) : c.Delivers ws ↔ q ≠ [] ∧ ∃ n, q.length ≤ capacity (ws.first n) := by
  by_cases hempty : q = []
  · rw [hempty] at h
    exact iff_of_false (not_delivers_of_empty h ws) fun hno => hno.1 hempty
  · rw [and_iff_right hempty]
    have hqueue (n : Nat) := @Standalone.writeLoop_of_short
      { state := c.state, sent := c.sent, outputBuffer := q } hempty (ws.first n) ws.short_first
    constructor
    · intro hdelivers
      obtain ⟨n, c', hrun, -⟩ := hdelivers
      obtain ⟨r, hr, hrel⟩ := (shows_queue h).writeBlocking (ws.first n)
      rw [hrun] at hr
      cases hr
      refine ⟨n, ?_⟩
      by_contra hshort
      unfold Standalone.writeBlocking at hrel
      rw [hqueue n, if_neg hshort] at hrel
      cases hrel
    · intro henough
      obtain ⟨n, hn⟩ := henough
      obtain ⟨r, hr, hrel⟩ := (shows_queue h).writeBlocking (ws.first n)
      unfold Standalone.writeBlocking at hrel
      rw [hqueue n, if_pos hn] at hrel
      cases hrel with
      | some hshows =>
          refine ⟨n, _, hr, ?_, hshows.output, hshows.state.trans hstate⟩
          rw [h.peekAllString, hshows.sent]
          rfl

def bytewise : ShortWrites where
  result i := if i = 0 then .eintr else .accepted 1
  short i := by
    by_cases h : i = 0
    · exact .inl (if_pos h)
    · exact .inr ⟨0, if_neg h⟩

def greeting : OutputSide :=
  { outputBuffer := { buffer := [0, 0, 0, 0, 0, 0, 0, 0, 104, 105], writeIndex := 10 } }

theorem holds_greeting : greeting.outputBuffer.Holds [104, 105] :=
  ⟨by decide, by decide, .inl (by decide), by decide, rfl⟩

theorem delivers_greeting : greeting.Delivers bytewise :=
  (delivers_iff rfl holds_greeting bytewise).2 ⟨by decide, 3, by decide⟩

/-- An empty line from the keyboard: the write of no bytes succeeds and closes the connection, where
`WriteNonBlocking` leaves an empty buffer alone. -/
theorem not_delivers_empty :
    ¬ Delivers {} bytewise ∧
      ∀ (c : Connection 0) (w : WriteResult), c.outputBuffer = [] →
        (c.writeNonBlocking w).1.state = c.state ∧ (c.writeNonBlocking w).1.outputBuffer = [] := by
  refine ⟨not_delivers_of_empty Buffer.holds_fresh bytewise, fun c w hempty => ?_⟩
  unfold Connection.writeNonBlocking
  rw [if_pos hempty]
  exact ⟨rfl, hempty⟩

end OutputSide

end CPlusServer

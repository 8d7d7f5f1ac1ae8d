import CPlusServer.Net.Buffer
import CPlusServer.Net.Delivery

/-!
# The output buffer of a connection

What `Send` and `WriteNonBlocking` do to `output_buffer_` with its indices, beside what
they do to the byte queue of `Connection`. The buffer holds the queue up to the first
`Append` that moves its content or leaves the range of `int`; there it faults, and what
the program does from then on is not told.
-/

namespace CPlusServer

namespace Buffer

def keepRemaining (b : Buffer) (remaining : Bytes) : Except Fault Buffer :=
  if remaining = [] then .ok b else b.append remaining

def remaining (b : Buffer) (data : Bytes) (w : WriteResult) : Bytes :=
  if b.readableBytes = 0 then
    match w with
    | .accepted k => data.drop k
    | .eagain => data
    | .error => []
  else data

/-- The size of the data is an `int`. -/
def send (b : Buffer) (data : Bytes) (w : WriteResult) : Except Fault Buffer := do
  let _ ← checked data.length
  b.keepRemaining (b.remaining data w)

/-- `write` takes no more than it is given. -/
def writeNonBlocking (b : Buffer) (w : WriteResult) : Except Fault Buffer :=
  if b.readableBytes = 0 then .ok b
  else
    match w with
    | .accepted (k + 1) => b.retreive (min (k + 1) b.readableBytes)
    | .accepted 0 | .eagain | .error => .ok b

def onHttpRequest (b : Buffer) (verdict : Verdict) (w : WriteResult) : Except Fault Buffer :=
  match verdict with
  | .incomplete => .ok b
  | .badRequest | .complete _ => b.send verdict.payload w

/-- The size of the data is an `int`, and its `Append` neither moves the content nor leaves the
range. -/
def HasRoom (b : Buffer) (data : Bytes) (w : WriteResult) : Prop :=
  (data.length : Int) < 2 ^ 31 ∧ b.Fits (b.remaining data w)

end Buffer

def Connection.sendOutput {n : Nat} (c : Connection n) (b : Buffer) (w : WriteResult) :
    Except Buffer.Fault Buffer :=
  if c.state ≠ .connected then .ok b else b.writeNonBlocking w

namespace Buffer

variable {n : Nat} {b b' : Buffer} {c : Connection n} {data : Bytes} {w : WriteResult}

theorem Holds.readable_eq_zero (h : b.Holds c.outputBuffer) :
    b.readableBytes = 0 ↔ c.outputBuffer = [] := by
  rw [h.readable, Int.natCast_eq_zero, List.length_eq_zero_iff]

theorem Holds.keepRemaining (h : b.Holds c.outputBuffer) {remaining : Bytes}
    (hf : b.Fits remaining) : ∃ b', b.keepRemaining remaining = .ok b' ∧
      b'.Holds (c.keepRemaining remaining).outputBuffer := by
  rw [Connection.outputBuffer_keepRemaining]
  unfold Buffer.keepRemaining
  by_cases hnil : remaining = []
  · rw [if_pos hnil, hnil, List.append_nil]
    exact ⟨b, rfl, h⟩
  · rw [if_neg hnil]
    exact h.append hf

theorem Holds.send (h : b.Holds c.outputBuffer) (hroom : b.HasRoom data w) :
    ∃ b', b.send data w = .ok b' ∧ b'.Holds (c.send data w).1.outputBuffer := by
  obtain ⟨hsize, hfits⟩ := hroom
  have hint : checked data.length = .ok (data.length : Int) := checked_of_inInt ⟨by omega, hsize⟩
  obtain ⟨b', hkeep, hholds⟩ := h.keepRemaining hfits
  have hsend : b.send data w = .ok b' := by
    unfold Buffer.send
    rw [hint]
    exact hkeep
  refine ⟨b', hsend, ?_⟩
  have hempty := h.readable_eq_zero
  unfold Buffer.remaining at hholds
  unfold Connection.send
  by_cases hnil : c.outputBuffer = []
  · rw [if_pos (hempty.2 hnil)] at hholds
    rw [if_pos hnil]
    cases w with
    | accepted k => exact hholds
    | eagain => exact hholds
    | error => exact hholds
  · rw [if_neg fun hno => hnil (hempty.1 hno)] at hholds
    rw [if_neg hnil]
    exact hholds

theorem Holds.send_fault (h : b.Holds c.outputBuffer) (hroom : ¬ b.HasRoom data w) (b' : Buffer) :
    b.send data w ≠ .ok b' := by
  intro hsend
  obtain ⟨size, hsize, hkeep⟩ := ok_of_bind_ok hsend
  have hlength : (data.length : Int) < 2 ^ 31 := by
    unfold checked at hsize
    split_ifs at hsize with hint
    exact hint.2
  have hno : ¬ b.Fits (b.remaining data w) := fun hfits => hroom ⟨hlength, hfits⟩
  have hless : ((b.remaining data w).length : Int) < 2 ^ 31 := by
    unfold Buffer.remaining
    split
    · cases w with
      | accepted k =>
          rw [List.length_drop]
          omega
      | eagain => exact hlength
      | error => exact (by decide : (([] : Bytes).length : Int) < 2 ^ 31)
    · exact hlength
  unfold Buffer.keepRemaining at hkeep
  split_ifs at hkeep with hnil
  · rw [hnil] at hno
    exact hno h.fits_nil
  · exact h.append_fault hless hno b' hkeep

/-- `Send` is carried out exactly where there is room. -/
theorem Holds.send_iff (h : b.Holds c.outputBuffer) :
    (∃ b', b.send data w = .ok b') ↔ b.HasRoom data w := by
  by_cases hroom : b.HasRoom data w
  · obtain ⟨b', hsend, -⟩ := h.send hroom
    exact iff_of_true ⟨b', hsend⟩ hroom
  · exact iff_of_false (fun hno => h.send_fault hroom _ hno.choose_spec) hroom

theorem Holds.of_send (h : b.Holds c.outputBuffer) (hsend : b.send data w = .ok b') :
    b'.Holds (c.send data w).1.outputBuffer := by
  obtain ⟨b'', heq, hholds⟩ := h.send (h.send_iff.1 ⟨b', hsend⟩)
  cases hsend.symm.trans heq
  exact hholds

theorem Holds.of_onHttpRequest (h : b.Holds c.outputBuffer) {verdict : Verdict}
    (hrequest : b.onHttpRequest verdict w = .ok b') :
    b'.Holds (c.onHttpRequest verdict w).1.outputBuffer := by
  have hempty : b.Holds { c with inputBuffer := [] }.outputBuffer := h
  unfold Buffer.onHttpRequest at hrequest
  cases verdict with
  | incomplete =>
      cases hrequest
      exact h
  | badRequest | complete =>
      rw [(Connection.onHttpRequest_of_answer c (fun hno => by cases hno) w).2]
      exact hempty.of_send hrequest

/-- A write-ready event does not fault. -/
theorem Holds.sendOutput (h : b.Holds c.outputBuffer) (w : WriteResult) :
    ∃ b', c.sendOutput b w = .ok b' ∧ b'.Holds (c.write w).1.outputBuffer := by
  have hempty := h.readable_eq_zero
  unfold Connection.sendOutput Connection.write
  split
  · exact ⟨b, rfl, h⟩
  · unfold Buffer.writeNonBlocking Connection.writeNonBlocking
    by_cases hnil : c.outputBuffer = []
    · rw [if_pos (hempty.2 hnil), if_pos hnil]
      exact ⟨b, rfl, h⟩
    · rw [if_neg fun hno => hnil (hempty.1 hno), if_neg hnil]
      match w with
      | .accepted (k + 1) =>
          have hlow : 0 ≤ min ((k : Int) + 1) b.readableBytes := by
            rw [h.readable]
            omega
          have hhigh : min ((k : Int) + 1) b.readableBytes ≤ c.outputBuffer.length := by
            rw [h.readable]
            omega
          obtain ⟨b', hretreive, hholds⟩ := h.retreive hlow hhigh
          refine ⟨b', hretreive, ?_⟩
          have hdrop : c.outputBuffer.drop (min ((k : Int) + 1) b.readableBytes).toNat =
              c.outputBuffer.drop (k + 1) := by
            rw [h.readable]
            by_cases hle : k + 1 ≤ c.outputBuffer.length
            · congr 1
              omega
            · rw [List.drop_eq_nil_of_le (by omega), List.drop_eq_nil_of_le (by omega)]
          rw [hdrop] at hholds
          exact hholds
      | .accepted 0 => exact ⟨b, rfl, h⟩
      | .eagain => exact ⟨b, rfl, h⟩
      | .error => exact ⟨b, rfl, h⟩

end Buffer

end CPlusServer

import CPlusServer.Net.Arrival

/-!
# The indices of the input buffer

The indices are `int`s, and nothing bounds what one read event appends. Each
computation on them stays in range exactly while the eight bytes in front and
what the event has brought do.
-/

namespace CPlusServer

namespace Buffer

/-- The `int` computations of `Append(data)`: those of `WritableBytes`, those of
`EnsureWritableBytes` and, behind it, `write_index_ += len`. -/
structure InRange (b : Buffer) (data : Bytes) : Prop where
  writable : InInt (toInt b.buffer.length - b.writeIndex)
  ensured : b.ensureWritableBytes (toInt data.length) ≠ .error .overflow
  moved : ∀ b', b.ensureWritableBytes (toInt data.length) = .ok b' →
    InInt (b'.writeIndex + data.length)

/-- The vector ends at most eight bytes before the write index. -/
theorem Holds.writable_ge {b : Buffer} {q : Bytes} (h : b.Holds q) :
    b.writeIndex ≤ b.buffer.length + 8 := by
  have hwrite := h.write_eq
  rcases h.fits with hin | ⟨-, hread, rfl⟩
  · omega
  · unfold kPrependIndex at hread
    simp only [List.length_nil] at hwrite
    omega

theorem Holds.length_lt {b : Buffer} {q : Bytes} (h : b.Holds q) :
    (q.length : Int) < 2 ^ 31 - 8 := by
  have hread := h.read_ge
  have hwrite := h.write_eq
  have hsize := h.size_lt
  unfold kPrependIndex at hread
  rcases h.fits with hin | ⟨-, -, rfl⟩
  · omega
  · decide

/-- Where the write index would be no `int`, the vector has to grow to it. -/
theorem Holds.ensure_overflow {b : Buffer} {q : Bytes} (h : b.Holds q)
    (hfront : b.readIndex = kPrependIndex) {len : Int} (hlen : len < 2 ^ 31 - 8)
    (hbig : 2 ^ 31 ≤ b.writeIndex + len) : b.ensureWritableBytes len = .error .overflow := by
  have hsize := h.size_lt
  have hend := h.writable_ge
  have hwrite := h.write_eq
  have hroom : (b.buffer.length : Int) - b.writeIndex < len := by omega
  unfold kPrependIndex at hfront
  have hsum : InInt (b.buffer.length - b.writeIndex + b.readIndex) := ⟨by omega, by omega⟩
  have hneed : InInt (len + kPrependIndex) := by
    unfold kPrependIndex
    exact ⟨by omega, by omega⟩
  have hgrow : b.buffer.length - b.writeIndex + b.readIndex < len + kPrependIndex := by
    unfold kPrependIndex
    omega
  have hover : checked (b.writeIndex + len) = .error .overflow := by
    apply if_neg
    intro hin
    have hless := hin.2
    omega
  unfold ensureWritableBytes
  rw [h.writable]
  simp only [bind, Except.bind, prepenableBytes]
  rw [if_pos hroom, checked_of_inInt hsum, checked_of_inInt hneed]
  dsimp only
  rw [if_pos hgrow, hover]

/-- The computations of one `Append` stay in range exactly while the index behind it does. -/
theorem Holds.inRange_iff {b : Buffer} {q : Bytes} (h : b.Holds q)
    (hfront : b.readIndex = kPrependIndex) {data : Bytes} (hdata : data.length ≤ SERV_BUFFER) :
    b.InRange data ↔ q.length + data.length < 2 ^ 31 - 8 := by
  unfold SERV_BUFFER at hdata
  have hlen : toInt data.length = data.length := toInt_of_inInt ⟨by omega, by omega⟩
  have hsize := h.size_lt
  have hend := h.writable_ge
  have hwrite := h.write_eq
  have hread := hfront
  unfold kPrependIndex at hread
  constructor
  · intro hin
    by_contra hbig
    refine hin.ensured ?_
    rw [hlen]
    exact h.ensure_overflow hfront (by omega) (by omega)
  · intro hsmall
    have hnot := InputSide.not_compacts_of_front hfront data.length
    have hless : b.writeIndex + data.length < 2 ^ 31 := by omega
    obtain ⟨b', hensure, -, hindex, -⟩ :=
      h.ensureWritable (Int.natCast_nonneg data.length) hnot hless
    rw [← hlen] at hensure
    refine ⟨?_, fun hno => ?_, fun b'' hb'' => ?_⟩
    · rw [toInt_of_inInt ⟨by omega, hsize⟩]
      exact ⟨by omega, by omega⟩
    · rw [hensure] at hno
      cases hno
    · rw [hensure] at hb''
      cases hb''
      rw [hindex]
      exact ⟨by omega, hless⟩

end Buffer

/-! ## Read events -/

namespace InputSide

/-- The chunks of a read event, with an EINTR where there is none, up to the EAGAIN. -/
def untilEagain (arrived : List (Option Chunk)) : List ReadResult :=
  arrived.map ReadEvent.result ++ [.eagain]

def NeverOverflows (b : Buffer) : List ReadResult → Prop
  | .data first rest :: rs => b.InRange (first :: rest) ∧
      ∀ b', b.append (first :: rest) = .ok b' → NeverOverflows b' rs
  | .eintr :: rs => NeverOverflows b rs
  | _ => True

theorem neverOverflows_from {b : Buffer} {q : Bytes} (h : b.Holds q)
    (hfront : b.readIndex = kPrependIndex) (arrived : List (Option Chunk)) :
    NeverOverflows b (untilEagain arrived) ↔
      q.length + (received (untilEagain arrived)).length < 2 ^ 31 - 8 := by
  induction arrived generalizing b q with
  | nil =>
      have hlength := h.length_lt
      refine iff_of_true trivial ?_
      show q.length + 0 < 2 ^ 31 - 8
      omega
  | cons chunk arrived ih =>
      cases chunk with
      | none => exact ih h hfront
      | some chunk =>
          show b.InRange chunk.bytes ∧ (∀ b', b.append chunk.bytes = .ok b' →
              NeverOverflows b' (untilEagain arrived)) ↔
            q.length + (chunk.bytes ++ received (untilEagain arrived)).length < 2 ^ 31 - 8
          have hfits : chunk.bytes.length ≤ SERV_BUFFER := chunk.fits
          rw [h.inRange_iff hfront hfits, List.length_append]
          by_cases hsmall : q.length + chunk.bytes.length < 2 ^ 31 - 8
          · have hwrite := h.write_eq
            have hread := hfront
            unfold kPrependIndex at hread
            have hroom : b.Fits chunk.bytes := ⟨not_compacts_of_front hfront _, by omega⟩
            obtain ⟨b₁, happend, hholds⟩ := h.append hroom
            have hrest := ih hholds (readIndex_append hfront happend)
            rw [List.length_append] at hrest
            rw [and_iff_right hsmall, ← Nat.add_assoc, ← hrest]
            constructor
            · exact fun hrun => hrun b₁ happend
            · intro hrun b' hb'
              obtain rfl := Except.ok.inj (happend.symm.trans hb')
              exact hrun
          · refine iff_of_false (fun hrun => hsmall hrun.1) ?_
            omega

/-- **Index arithmetic.** Whatever the buffer holds from before, the computations of a read event
stay in range exactly when it brings less than 2^31 - 8 bytes. -/
theorem neverOverflows_iff {b : Buffer} {q : Bytes} (h : b.Holds q)
    (arrived : List (Option Chunk)) :
    NeverOverflows b.retreiveAll (untilEagain arrived) ↔
      (received (untilEagain arrived)).length < 2 ^ 31 - 8 := by
  rw [neverOverflows_from h.retreiveAll rfl, List.length_nil, Nat.zero_add]

theorem length_zeros (n : Nat) : (0 :: List.replicate n 0 : Bytes).length = n + 1 := by
  rw [List.length_cons, List.length_replicate]

def fullChunk : Chunk := ⟨0, List.replicate 1023 0, Nat.le_of_eq (length_zeros 1023)⟩

theorem neverOverflows_fullChunk :
    NeverOverflows (Buffer.retreiveAll {}) (untilEagain [some fullChunk, none]) ↔
      (received (untilEagain [some fullChunk, none])).length < 2 ^ 31 - 8 :=
  neverOverflows_iff Buffer.holds_fresh [some fullChunk, none]

theorem received_replicate (n : Nat) :
    (received (untilEagain (List.replicate n (some fullChunk)))).length = 1024 * n := by
  induction n with
  | zero => rfl
  | succ n ih =>
      show (fullChunk.bytes ++
        received (untilEagain (List.replicate n (some fullChunk)))).length = _
      have hfull : fullChunk.bytes.length = 1024 := length_zeros 1023
      rw [List.length_append, ih, hfull]
      omega

/-- Two GiB that a peer sends before the socket runs empty. -/
theorem not_neverOverflows_replicate :
    ¬ NeverOverflows (Buffer.retreiveAll {})
        (untilEagain (List.replicate (2 ^ 21) (some fullChunk))) := by
  rw [neverOverflows_from Buffer.holds_fresh.retreiveAll rfl, received_replicate]
  decide

end InputSide

end CPlusServer

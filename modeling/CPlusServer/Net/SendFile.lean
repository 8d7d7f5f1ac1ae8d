import CPlusServer.Net.Delivery

/-!
# SendFile

The loop of `SendFile` over the results of its `sendfile` calls. The kernel gets
the address of `send_size` for its offset and advances it by what it has sent,
and the loop adds that number once more, so behind a partial count it goes on
beyond bytes that were never sent.
-/

namespace CPlusServer

/-- What a call of `sendfile` returns. EWOULDBLOCK is EAGAIN. -/
inductive SendfileResult
  | sent (count : Nat)
  | eintr
  | eagain
  | zero
  | error
  deriving DecidableEq

inductive SendFileEnd
  | done
  | zero
  | error
  deriving DecidableEq

/-- The bytes that go from the file to the socket, from `offset` on; none where `sendfile` does not
return this count. -/
def sendfile (file : Bytes) (offset request : Int) (count : Nat) : Option Bytes :=
  if 0 < count ∧ count ≤ request ∧ offset + count ≤ file.length then
    some ((file.drop offset.toNat).take count)
  else none

def firstCount : List SendfileResult → Option Nat
  | .sent count :: _ => some count
  | .eintr :: rs | .eagain :: rs => firstCount rs
  | [] | .zero :: _ | .error :: _ => none

namespace Connection

/-- The loop of `SendFile` from a value of `send_size` on: the bytes it puts on the socket and how
it ends; none while it still asks. -/
def sendFileLoop (file : Bytes) (dataSize sendSize : Int) :
    List SendfileResult → Option (Bytes × SendFileEnd)
  | [] => if sendSize < dataSize then none else some ([], .done)
  | r :: rs =>
      if sendSize < dataSize then
        match r with
        | .sent bytesWrite => do
            let bytes ← sendfile file sendSize (dataSize - sendSize) bytesWrite
            -- advanced by the kernel
            let sendSize := sendSize + bytesWrite
            let (rest, ending) ← sendFileLoop file dataSize (sendSize + bytesWrite) rs
            return (bytes ++ rest, ending)
        | .eintr | .eagain => sendFileLoop file dataSize sendSize rs
        | .error => some ([], .error)
        | .zero => some ([], .zero)
      else some ([], .done)

def sendFile (file : Bytes) (size : Int) (results : List SendfileResult) :
    Option (Bytes × SendFileEnd) :=
  sendFileLoop file size 0 results

section
variable {file bytes : Bytes} {size sendSize : Int} {ending : SendFileEnd}
  {rs : List SendfileResult} {count : Nat}

theorem sendFileLoop_of_le (h : size ≤ sendSize) :
    sendFileLoop file size sendSize rs = some ([], .done) := by
  have hnot : ¬ sendSize < size := by omega
  cases rs with
  | nil => rw [sendFileLoop, if_neg hnot]
  | cons r rs => cases r <;> rw [sendFileLoop, if_neg hnot]

/-- A call that sends `count` bytes leaves `send_size` twice as far. -/
theorem sendFileLoop_sent (hlt : sendSize < size)
    (h : sendFileLoop file size sendSize (.sent count :: rs) = some (bytes, ending)) :
    0 < count ∧ count ≤ size - sendSize ∧ sendSize + count ≤ file.length ∧
      ∃ rest, sendFileLoop file size (sendSize + count + count) rs = some (rest, ending) ∧
        bytes = (file.drop sendSize.toNat).take count ++ rest := by
  rw [sendFileLoop, if_pos hlt] at h
  by_cases hfits : 0 < count ∧ count ≤ size - sendSize ∧ sendSize + count ≤ file.length
  · cases hrest : sendFileLoop file size (sendSize + count + count) rs with
    | none => simp [sendfile, hfits, hrest] at h
    | some out =>
        simp only [sendfile, hfits, hrest, and_self, if_true, Option.bind_eq_bind,
          Option.bind_some, Option.pure_def, Option.some.injEq, Prod.mk.injEq] at h
        obtain ⟨rfl, rfl⟩ := h
        exact ⟨hfits.1, hfits.2.1, hfits.2.2, out.1, rfl, rfl⟩
  · simp [sendfile, hfits] at h

/-- Once a part has been sent, the loop ends before it has sent as many bytes as it was asked for:
`send_size` is twice the number of bytes sent, and no call asks for more than what is left. -/
theorem length_lt_of_part (sent : Nat) (hpos : 0 < sent) (hlt : sent < size)
    (hsize : sendSize = 2 * sent)
    (h : sendFileLoop file size sendSize rs = some (bytes, .done)) :
    sent + bytes.length < size := by
  induction rs generalizing sendSize sent bytes with
  | nil =>
      rw [sendFileLoop] at h
      split_ifs at h
      cases h
      simpa using hlt
  | cons r rs ih =>
      by_cases hmore : sendSize < size
      · cases r with
        | sent count =>
            obtain ⟨hcount, hle, hfile, rest, hrest, rfl⟩ := sendFileLoop_sent hmore h
            have hlength : ((file.drop sendSize.toNat).take count).length = count := by
              rw [List.length_take, List.length_drop]
              omega
            have hnext := ih (sent + count) (by omega) (by omega) (by omega) hrest
            rw [List.length_append, hlength]
            omega
        | eintr =>
            rw [sendFileLoop, if_pos hmore] at h
            exact ih sent hpos hlt hsize h
        | eagain =>
            rw [sendFileLoop, if_pos hmore] at h
            exact ih sent hpos hlt hsize h
        | zero =>
            rw [sendFileLoop, if_pos hmore] at h
            cases h
        | error =>
            rw [sendFileLoop, if_pos hmore] at h
            cases h
      · rw [sendFileLoop_of_le (by omega)] at h
        cases h
        simpa using hlt

/-- **SendFile.** A call that returns without an error or a zero result has sent the bytes it was
asked for exactly when there are none, or the first count is the whole size. -/
theorem sendFile_eq_take_iff (hpos : 0 ≤ size) (hsize : size ≤ file.length)
    (h : sendFile file size rs = some (bytes, .done)) :
    bytes = file.take size.toNat ↔ size = 0 ∨ firstCount rs = some size.toNat := by
  unfold sendFile at h
  by_cases hzero : size = 0
  · rw [sendFileLoop_of_le (by omega)] at h
    cases h
    simp [hzero]
  have hmore : 0 < size := by omega
  rw [or_iff_right hzero]
  induction rs with
  | nil =>
      rw [sendFileLoop, if_pos hmore] at h
      cases h
  | cons r rs ih =>
      cases r with
      | sent count =>
          obtain ⟨hcount, hle, hfile, rest, hrest, rfl⟩ := sendFileLoop_sent hmore h
          rw [Int.toNat_zero, List.drop_zero, firstCount, Option.some.injEq]
          by_cases hall : count = size.toNat
          · rw [sendFileLoop_of_le (by omega)] at hrest
            cases hrest
            rw [List.append_nil, hall]
            exact iff_of_true rfl rfl
          · have hshort := length_lt_of_part count hcount (by omega) (by omega) hrest
            refine iff_of_false (fun heq => ?_) hall
            have hlength := congrArg List.length heq
            rw [List.length_append, List.length_take, List.length_take] at hlength
            omega
      | eintr =>
          rw [sendFileLoop, if_pos hmore] at h
          exact ih h
      | eagain =>
          rw [sendFileLoop, if_pos hmore] at h
          exact ih h
      | zero =>
          rw [sendFileLoop, if_pos hmore] at h
          cases h
      | error =>
          rw [sendFileLoop, if_pos hmore] at h
          cases h

end

theorem sendFile_retried : ascii "abcd" = (ascii "abcd").take (4 : Int).toNat ↔
    (4 : Int) = 0 ∨ firstCount [.eintr, .eagain, .sent 4] = some (4 : Int).toNat :=
  have hsent : sendFile (ascii "abcd") 4 [.eintr, .eagain, .sent 4] = some (ascii "abcd", .done) := by
    decide
  sendFile_eq_take_iff (by decide) (by decide) hsent

/-- After one byte the loop goes on at the third. -/
theorem not_sendFile_eq_take :
    sendFile (ascii "abcd") 4 [.sent 1, .sent 2] = some (ascii "acd", .done) ∧
      ascii "acd" ≠ (ascii "abcd").take (4 : Int).toNat := by
  decide

end Connection

end CPlusServer

import CPlusServer.Net.Connection

/-!
# Events that close a connection

When a dispatch asks for the removal of its connection, and when it asks twice.
Every callback asks on its own: after the read callback has closed the
connection, the write callback asks again.
-/

namespace CPlusServer

def Verdict.Final : Verdict → Prop
  | .badRequest => True
  | .incomplete => False
  | .complete response => response.close = true

def Verdict.LeavesOver : Verdict → WriteResult → Prop
  | .complete response, .accepted k => k < response.head.length
  | .complete response, .eagain => response.head ≠ []
  | _, _ => False

instance : ∀ v : Verdict, Decidable v.Final
  | .badRequest => .isTrue trivial
  | .incomplete => .isFalse id
  | .complete _ => inferInstanceAs (Decidable (_ = _))

instance : ∀ (v : Verdict) (w : WriteResult), Decidable (v.LeavesOver w)
  | .complete _, .accepted _ => inferInstanceAs (Decidable (_ < _))
  | .complete _, .eagain => inferInstanceAs (Decidable (_ ≠ _))
  | .complete _, .error | .badRequest, _ | .incomplete, _ => .isFalse id

namespace Connection

variable {n : Nat}

/-! ## Reasons to close -/

def SendFails (c : Connection n) (d : Dispatch) : Prop :=
  c.outputBuffer = [] ∧ d.sendResult = .error

def AnswerCloses (c : Connection n) (d : Dispatch) : Verdict → Prop
  | .badRequest => True
  | .incomplete => False
  | .complete response => c.SendFails d ∨ response.close = true

/-- The read callback finds the connection closed already, meets the end of the stream or an
error, or its answer closes. -/
def ReadCloses (c : Connection n) (d : Dispatch) : Prop :=
  c.state ≠ .connected ∨ d.readEnd ≠ .eagain ∨ c.AnswerCloses d d.verdict

/-- Output waits when the write callback is called: from before, or left over by `Send`. -/
def Unsent (c : Connection n) (ready : Ready) (d : Dispatch) : Prop :=
  c.outputBuffer ≠ [] ∨ ready.read = true ∧ d.verdict.LeavesOver d.sendResult

def WriteCloses (c : Connection n) (ready : Ready) (d : Dispatch) : Prop :=
  c.state ≠ .connected ∨
    c.Unsent ready d ∧ (d.writeResult = .error ∨ d.writeResult = .accepted 0)

def Closes (c : Connection n) (ready : Ready) (d : Dispatch) : Prop :=
  ready.read = true ∧ c.ReadCloses d ∨ ready.write = true ∧ c.WriteCloses ready d

/-- Both callbacks close, since the second finds what the first has done, or a 400 or a response
that closes cannot be sent. -/
def ClosesTwice (c : Connection n) (ready : Ready) (d : Dispatch) : Prop :=
  ready.read = true ∧ (ready.write = true ∧ c.ReadCloses d ∨
    c.state = .connected ∧ d.readEnd = .eagain ∧ c.SendFails d ∧ d.verdict.Final)

instance (c : Connection n) (d : Dispatch) : Decidable (c.SendFails d) :=
  inferInstanceAs (Decidable (_ ∧ _))

instance (c : Connection n) (d : Dispatch) : ∀ v, Decidable (c.AnswerCloses d v)
  | .badRequest => .isTrue trivial
  | .incomplete => .isFalse id
  | .complete _ => inferInstanceAs (Decidable (_ ∨ _))

instance (c : Connection n) (d : Dispatch) : Decidable (c.ReadCloses d) :=
  inferInstanceAs (Decidable (_ ∨ _ ∨ _))

instance (c : Connection n) (ready : Ready) (d : Dispatch) : Decidable (c.Unsent ready d) :=
  inferInstanceAs (Decidable (_ ∨ _ ∧ _))

instance (c : Connection n) (ready : Ready) (d : Dispatch) : Decidable (c.WriteCloses ready d) :=
  inferInstanceAs (Decidable (_ ∨ _ ∧ _))

instance (c : Connection n) (ready : Ready) (d : Dispatch) : Decidable (c.Closes ready d) :=
  inferInstanceAs (Decidable (_ ∧ _ ∨ _ ∧ _))

instance (c : Connection n) (ready : Ready) (d : Dispatch) : Decidable (c.ClosesTwice ready d) :=
  inferInstanceAs (Decidable (_ ∧ _))

/-! ## What a dispatch asks for -/

def asks (es : List Effect) : Nat := es.count .removeConnection

@[simp] theorem asks_nil : asks [] = 0 := rfl

@[simp] theorem asks_append (es es' : List Effect) : asks (es ++ es') = asks es + asks es' :=
  List.count_append

@[simp] theorem asks_removeConnection : asks [.removeConnection] = 1 := rfl
@[simp] theorem asks_wrote (bytes : Bytes) : asks [.wrote bytes] = 0 := rfl

@[simp] theorem asks_sendFile (es : List Effect) : asks (.sendFile :: es) = asks es :=
  List.count_cons_of_ne (by decide)

@[simp] theorem asks_handleRead (es : List Effect) : asks (.handleRead :: es) = asks es :=
  List.count_cons_of_ne (by decide)

theorem asks_send (c : Connection n) (data : Bytes) (w : WriteResult) :
    asks (c.send data w).2 = if c.outputBuffer = [] ∧ w = .error then 1 else 0 := by
  unfold send
  by_cases hempty : c.outputBuffer = []
  · cases w <;> simp [hempty]
  · simp [hempty]

theorem asks_read (c : Connection n) (chunks : List Bytes) (readEnd : ReadEnd) :
    asks (c.read chunks readEnd).2 = if c.state ≠ .connected ∨ readEnd ≠ .eagain then 1 else 0 := by
  unfold read
  by_cases hstate : c.state = .connected
  · cases readEnd <;> simp [hstate, readNonBlocking]
  · simp [hstate]

theorem asks_write_le (c : Connection n) (w : WriteResult) : asks (c.write w).2 ≤ 1 := by
  unfold write
  split
  · exact Nat.le_refl 1
  · unfold writeNonBlocking
    split
    · exact Nat.zero_le 1
    · split <;> simp

theorem asks_onHttpReponse (c : Connection n) (response : Reply) (w : WriteResult) :
    asks (c.onHttpReponse response w).2 =
      (if c.outputBuffer = [] ∧ w = .error then 1 else 0) +
        if response.close = true then 1 else 0 := by
  rw [← asks_send c response.head w]
  unfold onHttpReponse
  dsimp only
  cases response.file <;> cases response.close <;> simp

theorem asks_onHttpRequest_le (c : Connection n) (verdict : Verdict) (w : WriteResult)
    (hno : ¬ (c.outputBuffer = [] ∧ w = .error ∧ verdict.Final)) :
    asks (c.onHttpRequest verdict w).2 ≤ 1 := by
  unfold onHttpRequest
  cases verdict with
  | incomplete => exact Nat.zero_le 1
  | complete response =>
      dsimp only
      rw [asks_onHttpReponse]
      split_ifs with hsend hclose
      · exact absurd ⟨hsend.1, hsend.2, hclose⟩ hno
      all_goals omega
  | badRequest =>
      have hsent : asks (send { c with inputBuffer := [] }
          (ascii "HTTP/1.1 400 Bad Request\r\n\r\n") w).2 = 0 := by
        rw [asks_send, if_neg fun hsend => hno ⟨hsend.1, hsend.2, trivial⟩]
      dsimp only
      split
      · rw [asks_append, hsent, asks_removeConnection]
      · rw [hsent]
        exact Nat.zero_le 1

theorem outputBuffer_send {c : Connection n} {data : Bytes} {w : WriteResult}
    (hempty : c.outputBuffer = []) (hout : (c.send data w).1.outputBuffer ≠ []) :
    (∃ k, w = .accepted k ∧ k < data.length) ∨ w = .eagain ∧ data ≠ [] := by
  unfold send at hout
  rw [if_pos hempty] at hout
  cases w with
  | error => exact absurd hempty hout
  | eagain =>
      refine .inr ⟨rfl, fun hnil => hout ?_⟩
      simp [keepRemaining, hnil, hempty]
  | accepted k =>
      refine .inl ⟨k, rfl, ?_⟩
      by_contra hle
      have hnil : data.drop k = [] := List.drop_eq_nil_of_le (not_lt.1 hle)
      exact hout (by simp [keepRemaining, hnil, hempty])

theorem state_send {c : Connection n} {data : Bytes} {w : WriteResult}
    (h : ¬ (c.outputBuffer = [] ∧ w = .error)) : (c.send data w).1.state = c.state := by
  have hkeep : ∀ remaining, (c.keepRemaining remaining).state = c.state := by
    intro remaining
    unfold keepRemaining
    split <;> rfl
  unfold send
  by_cases hempty : c.outputBuffer = []
  · rw [if_pos hempty]
    cases w with
    | accepted k => exact hkeep _
    | eagain => exact hkeep _
    | error => exact absurd ⟨hempty, rfl⟩ h
  · rw [if_neg hempty]
    exact hkeep _

theorem onHttpReponse_fst {c : Connection n} {response : Reply} {w : WriteResult}
    (h : ¬ response.close = true) :
    (c.onHttpReponse response w).1 = (c.send response.head w).1 := by
  unfold onHttpReponse
  dsimp only
  rw [if_neg h]

/-- Without a reason to close, the read callback leaves the connection connected, and what then
waits in the output buffer was there before or is the rest of the response. -/
theorem listenClientMessage_of_not_closes {c : Connection n} {d : Dispatch} {ready : Ready}
    (hready : ready.read = true) (h : ¬ c.ReadCloses d) :
    asks (c.listenClientMessage d).2 = 0 ∧ (c.listenClientMessage d).1.state = .connected ∧
      ((c.listenClientMessage d).1.outputBuffer ≠ [] → c.Unsent ready d) := by
  unfold ReadCloses at h
  simp only [not_or, not_not] at h
  rcases h with ⟨hstate, hend, hverdict⟩
  have hread : c.read d.chunks d.readEnd =
      ({ c with inputBuffer := [] ++ d.chunks.flatten }, []) := by
    simp [read, readNonBlocking, hstate, hend]
  unfold listenClientMessage
  rw [hread]
  dsimp only
  rw [if_neg (by simp [hstate])]
  cases hv : d.verdict with
  | badRequest =>
      rw [hv] at hverdict
      exact absurd trivial hverdict
  | incomplete => exact ⟨rfl, hstate, fun hout => .inl hout⟩
  | complete response =>
      rw [hv] at hverdict
      rcases not_or.1 hverdict with ⟨hsend, hclose⟩
      simp only [onHttpRequest, asks_append, asks_handleRead, asks_onHttpReponse, if_neg hclose,
        asks_nil, Nat.zero_add, Nat.add_zero]
      refine ⟨if_neg hsend, ?_, fun hout => ?_⟩
      · rw [onHttpReponse_fst hclose]
        exact (@state_send n { c with inputBuffer := [] } _ _ hsend).trans hstate
      · rw [onHttpReponse_fst hclose] at hout
        by_cases hempty : c.outputBuffer = []
        · refine .inr ⟨hready, ?_⟩
          rw [hv]
          rcases @outputBuffer_send n { c with inputBuffer := [] } _ _ hempty hout with
            ⟨k, hk, hlt⟩ | ⟨hw, hne⟩
          · rw [hk]
            exact hlt
          · rw [hw]
            exact hne
        · exact .inl hempty

theorem asks_listenClientMessage_le {c : Connection n} {d : Dispatch}
    (h : ¬ (c.state = .connected ∧ d.readEnd = .eagain ∧ c.SendFails d ∧ d.verdict.Final)) :
    asks (c.listenClientMessage d).2 ≤ 1 := by
  have hread := asks_read c d.chunks d.readEnd
  unfold listenClientMessage
  dsimp only
  by_cases hgood : c.state = .connected ∧ d.readEnd = .eagain
  · obtain ⟨hstate, hend⟩ := hgood
    have hconn : (c.read d.chunks d.readEnd).1 = { c with inputBuffer := [] ++ d.chunks.flatten } := by
      simp [read, readNonBlocking, hstate, hend]
    rw [hconn, if_neg (by simp [hstate])]
    rw [if_neg (by simp [hstate, hend])] at hread
    rw [asks_append, hread, asks_handleRead, Nat.zero_add]
    refine asks_onHttpRequest_le _ d.verdict d.sendResult fun hno => h ⟨hstate, hend, ?_⟩
    exact ⟨⟨hno.1, hno.2.1⟩, hno.2.2⟩
  · have hclosed : (c.read d.chunks d.readEnd).1.state ≠ .connected := by
      unfold read
      by_cases hstate : c.state = .connected
      · rw [if_neg (by simp [hstate])]
        unfold readNonBlocking
        cases hend : d.readEnd with
        | eagain => exact absurd ⟨hstate, hend⟩ hgood
        | eof => exact fun hno => nomatch hno
        | error => exact fun hno => nomatch hno
      · rw [if_pos hstate]
        exact hstate
    rw [if_pos hclosed, hread]
    split <;> omega

theorem asks_write_of_not {c : Connection n} {w : WriteResult} (hstate : c.state = .connected)
    (h : ¬ (c.outputBuffer ≠ [] ∧ (w = .error ∨ w = .accepted 0))) : asks (c.write w).2 = 0 := by
  unfold write writeNonBlocking
  rw [if_neg (not_not.2 hstate)]
  by_cases hempty : c.outputBuffer = []
  · rw [if_pos hempty]
    rfl
  · rw [if_neg hempty]
    simp only [ne_eq, hempty, not_false_eq_true, true_and, not_or] at h
    split
    · rfl
    · rfl
    · exact absurd rfl h.2
    · exact absurd rfl h.1

/-- A dispatch that meets no reason to close asks for nothing. -/
theorem asks_handleEvent_of_not_closes {c : Connection n} {ready : Ready} {d : Dispatch}
    (h : ¬ c.Closes ready d) : asks (c.handleEvent ready d).2 = 0 := by
  unfold Closes at h
  rw [not_or] at h
  rcases h with ⟨hread, hwrite⟩
  unfold handleEvent
  dsimp only
  rw [asks_append]
  by_cases hr : ready.read = true
  · have hquiet := fun hno => hread ⟨hr, hno⟩
    rcases listenClientMessage_of_not_closes hr hquiet with ⟨hzero, hstate, hunsent⟩
    rw [if_pos hr, hzero, Nat.zero_add]
    by_cases hw : ready.write = true
    · rw [if_pos hw]
      refine asks_write_of_not hstate fun hno => hwrite ⟨hw, .inr ⟨hunsent hno.1, hno.2⟩⟩
    · rw [if_neg hw]
      rfl
  · rw [if_neg hr, asks_nil, Nat.zero_add]
    by_cases hw : ready.write = true
    · rw [if_pos hw]
      have hno : ¬ c.WriteCloses ready d := fun hno => hwrite ⟨hw, hno⟩
      unfold WriteCloses at hno
      rw [not_or, not_not] at hno
      exact asks_write_of_not hno.1 fun hout => hno.2 ⟨.inl hout.1, hout.2⟩
    · rw [if_neg hw]
      rfl

/-- A dispatch that does not meet two reasons to close asks at most once. -/
theorem asks_handleEvent_le {c : Connection n} {ready : Ready} {d : Dispatch}
    (h : ¬ c.ClosesTwice ready d) : asks (c.handleEvent ready d).2 ≤ 1 := by
  unfold handleEvent
  dsimp only
  rw [asks_append]
  by_cases hr : ready.read = true
  · rw [if_pos hr]
    have honce := asks_listenClientMessage_le fun hno => h ⟨hr, .inr hno⟩
    by_cases hw : ready.write = true
    · rw [if_pos hw]
      have hquiet : ¬ c.ReadCloses d := fun hno => h ⟨hr, .inl ⟨hw, hno⟩⟩
      rw [(listenClientMessage_of_not_closes hr hquiet).1, Nat.zero_add]
      exact asks_write_le _ _
    · rw [if_neg hw]
      exact honce
  · rw [if_neg hr, asks_nil, Nat.zero_add]
    split
    · exact asks_write_le _ _
    · exact Nat.zero_le 1

end Connection

end CPlusServer

import CPlusServer.Net.Delivery

/-!
# Finality of a removal

What may still happen to a connection after `RemoveConnection` has been called
for it. The handlers close the connection before they ask; `OverTime` does not,
and `SendFile` does not look whether its connection is closed.
-/

namespace CPlusServer

def Event.Active : Event → Prop
  | .handleRead | .callBack => True
  | .wrote bytes | .sentFile bytes => bytes ≠ []
  | .removeConnection | .send _ => False

/-- Nothing active comes behind a call of `RemoveConnection`. -/
def Final (es : List Event) : Prop := es.Pairwise fun e e' => e = .removeConnection → ¬ e'.Active

def Inactive (es : List Event) : Prop := ∀ e ∈ es, ¬ e.Active

theorem final_append {es es' : List Event} :
    Final (es ++ es') ↔ Final es ∧ Final es' ∧ (.removeConnection ∈ es → Inactive es') := by
  unfold Final
  rw [List.pairwise_append]
  refine and_congr_right fun _ => and_congr_right fun _ =>
    ⟨fun h hmem e he => ?_, fun h e he e' he' heq => ?_⟩
  · exact h _ hmem e he rfl
  · exact h (heq ▸ he) e' he'

theorem Inactive.final {es : List Event} (h : Inactive es) : Final es :=
  List.pairwise_of_forall_mem_list fun _ _ e' he' _ => h e' he'

theorem final_of_not_mem {es : List Event} (h : .removeConnection ∉ es) : Final es :=
  List.pairwise_of_forall_mem_list fun _ he _ _ heq => absurd (heq ▸ he) h

theorem final_append_of_not_mem {es es' : List Event} (h : .removeConnection ∉ es) :
    Final (es ++ es') ↔ Final es' := by
  rw [final_append]
  exact ⟨fun hfinal => hfinal.2.1, fun hfinal => ⟨final_of_not_mem h, hfinal, fun hno => absurd hno h⟩⟩

theorem final_removeConnection_cons {es : List Event} :
    Final (.removeConnection :: es) ↔ Inactive es := by
  unfold Final
  rw [List.pairwise_cons]
  exact ⟨fun h e he => h.1 e he rfl, fun h => ⟨fun e he _ => h e he, h.final⟩⟩

section
variable (verdict : Verdict) (file : List Bytes)

theorem mem_events_removeConnection (es : List Effect) :
    .removeConnection ∈ events verdict file es ↔ .removeConnection ∈ es := by
  unfold events
  rw [List.mem_flatMap]
  constructor
  · intro hevent
    obtain ⟨e, he, hmem⟩ := hevent
    cases e with
    | removeConnection => exact he
    | handleRead => cases verdict <;> simp [Effect.events, Verdict.calls] at hmem
    | wrote bytes => simp [Effect.events] at hmem
    | sendFile => simp [Effect.events] at hmem
  · exact fun he => ⟨_, he, List.mem_singleton_self _⟩

theorem inactive_removeConnection {es : List Effect} (h : ∀ e ∈ es, e = .removeConnection) :
    Inactive (events verdict file es) := by
  intro e he
  obtain ⟨e', hmem, he⟩ := List.mem_flatMap.1 he
  rw [h e' hmem] at he
  rw [List.mem_singleton.1 he]
  exact id

end

theorem inactive_sentFile_iff (file : List Bytes) :
    Inactive (file.map .sentFile) ↔ file.flatten = [] := by
  simp [Inactive, Event.Active, List.flatten_eq_nil_iff]

namespace Connection

variable {n : Nat} {c : Connection n} {ready : Ready} {d : Dispatch}

/-! ## One dispatch -/

theorem write_snd (c : Connection n) (w : WriteResult) :
    (∃ k, c.state = .connected ∧ c.outputBuffer ≠ [] ∧ w = .accepted (k + 1) ∧
        (c.write w).2 = [.wrote (c.outputBuffer.take (k + 1))]) ∨
      ¬ (c.state = .connected ∧ c.outputBuffer ≠ [] ∧ ∃ k, w = .accepted (k + 1)) ∧
        ((c.write w).2 = [] ∨ (c.write w).2 = [.removeConnection]) := by
  by_cases hstate : c.state = .connected
  · by_cases hempty : c.outputBuffer = []
    · exact .inr ⟨fun hno => hno.2.1 hempty, .inl (by simp [write, writeNonBlocking, hstate, hempty])⟩
    · cases w with
      | accepted k =>
          cases k with
          | zero => exact .inr ⟨by simp, .inr (by simp [write, writeNonBlocking, hstate, hempty])⟩
          | succ k =>
              exact .inl ⟨k, hstate, hempty, rfl, by simp [write, writeNonBlocking, hstate, hempty]⟩
      | eagain => exact .inr ⟨by simp, .inl (by simp [write, writeNonBlocking, hstate, hempty])⟩
      | error => exact .inr ⟨by simp, .inr (by simp [write, writeNonBlocking, hstate, hempty])⟩
  · exact .inr ⟨fun hno => hstate hno.1, .inr (by rw [write_of_not_connected hstate])⟩

def Acts (c : Connection n) (ready : Ready) (d : Dispatch) : Prop :=
  c.Answers ready d ∨ ready.read = false ∧ ready.write = true ∧
    c.state = .connected ∧ c.outputBuffer ≠ [] ∧ ∃ k, d.writeResult = .accepted (k + 1)

/-- The answer has a file, whose bytes are written although `Send` has failed and closed the
connection. -/
def CutsIn (c : Connection n) (ready : Ready) (d : Dispatch) (file : List Bytes) : Prop :=
  c.AnswerFails ready d ∧ (∃ head close, d.verdict = .complete ⟨head, true, close⟩) ∧
    file.flatten ≠ []

theorem inactive_write_iff (c : Connection n) (w : WriteResult) (verdict : Verdict)
    (file : List Bytes) : Inactive (events verdict file (c.write w).2) ↔
      ¬ (c.state = .connected ∧ c.outputBuffer ≠ [] ∧ ∃ k, w = .accepted (k + 1)) := by
  rcases c.write_snd w with ⟨k, hstate, hout, hw, heq⟩ | ⟨hno, hquiet⟩
  · refine iff_of_false (fun h => ?_) fun hno => hno ⟨hstate, hout, k, hw⟩
    rw [heq] at h
    refine h _ (List.mem_singleton_self _) fun hnil => hout ?_
    simpa using hnil
  · refine iff_of_true (inactive_removeConnection _ _ fun e he => ?_) hno
    rcases hquiet with heq | heq <;> rw [heq] at he
    · exact absurd he List.not_mem_nil
    · exact List.mem_singleton.1 he

theorem final_write (c : Connection n) (w : WriteResult) (verdict : Verdict) (file : List Bytes) :
    Final (events verdict file (c.write w).2) := by
  rcases c.write_snd w with ⟨k, -, -, -, heq⟩ | ⟨-, heq | heq⟩ <;> rw [heq]
  · exact List.pairwise_singleton _ _
  · exact List.Pairwise.nil
  · exact List.pairwise_singleton _ _

theorem handleEvent_of_not_answers (hread : ready.read = true) (h : ¬ c.Answers ready d) :
    ∀ e ∈ (c.handleEvent ready d).2, e = .removeConnection := by
  obtain ⟨x, heq, hx, -⟩ :=
    listenClientMessage_of_not (d := d) (c := c) fun hno => h ⟨hread, hno⟩
  rw [handleEvent_of_read hread, heq, write_of_not_connected hx]
  split <;> simp

/-- A dispatch does something active unless it only asks for the removal. -/
theorem inactive_handleEvent_iff (c : Connection n) (ready : Ready) (d : Dispatch)
    (file : List Bytes) :
    Inactive (events d.verdict file (c.handleEvent ready d).2) ↔ ¬ c.Acts ready d := by
  by_cases hread : ready.read = true
  · by_cases hanswers : c.Answers ready d
    · refine iff_of_false (fun h => ?_) (not_not.2 (.inl hanswers))
      refine h .handleRead ?_ trivial
      rw [handleEvent_of_read hread, listenClientMessage_of_answers hanswers.2.1 hanswers.2.2]
      split <;> simp [Effect.events]
    · refine iff_of_true (inactive_removeConnection _ _ (handleEvent_of_not_answers hread hanswers)) ?_
      intro hacts
      rcases hacts with hno | ⟨hno, -⟩
      · exact hanswers hno
      · rw [hread] at hno
        cases hno
  · have hquiet : ready.read = false := Bool.eq_false_of_not_eq_true hread
    rw [handleEvent_of_not_read hquiet]
    by_cases hwrite : ready.write = true
    · rw [if_pos hwrite, inactive_write_iff]
      refine not_congr ⟨fun h => .inr ⟨hquiet, hwrite, h⟩, ?_⟩
      intro hacts
      rcases hacts with hno | ⟨-, -, h⟩
      · exact absurd hno.1 hread
      · exact h
    · rw [if_neg hwrite]
      refine iff_of_true (fun e he => absurd he List.not_mem_nil) ?_
      intro hacts
      rcases hacts with hno | ⟨-, hno, -⟩
      · exact hread hno.1
      · exact hwrite hno

theorem send_snd (c : Connection n) (data : Bytes) {w : WriteResult}
    (h : ¬ (c.outputBuffer = [] ∧ w = .error)) : .removeConnection ∉ (c.send data w).2 := by
  have hnone := asks_send c data w
  rw [if_neg h] at hnone
  exact List.count_eq_zero.1 hnone

theorem onHttpRequest_snd (c : Connection n) {verdict : Verdict} {w : WriteResult}
    (h : verdict ≠ .incomplete → ¬ (c.outputBuffer = [] ∧ w = .error)) :
    ∃ before after, (c.onHttpRequest verdict w).2 = before ++ after ∧
      .removeConnection ∉ before ∧ (∀ e ∈ after, e = .removeConnection) ∧
      (after ≠ [] → (c.onHttpRequest verdict w).1.state = .closed) := by
  cases verdict with
  | incomplete => exact ⟨[], [], rfl, List.not_mem_nil, by simp, fun hno => absurd rfl hno⟩
  | badRequest =>
      have hsend := send_snd { c with inputBuffer := [] } (Verdict.payload .badRequest) (h (by simp))
      have hclosed := @state_onHttpRequest_of_final n .badRequest trivial c w
      unfold onHttpRequest
      dsimp only
      split
      · exact ⟨_, _, rfl, hsend, by simp, fun _ => rfl⟩
      · exact ⟨_, [], (List.append_nil _).symm, hsend, by simp, fun _ => rfl⟩
  | complete response =>
      have hsend := send_snd { c with inputBuffer := [] } response.head (h (by simp))
      refine ⟨_, _, onHttpReponse_snd _ response w, ?_, ?_, ?_⟩
      · cases response.file <;> simpa using hsend
      · cases response.close <;> simp
      · intro hafter
        refine state_onHttpRequest_of_final ?_ c w
        show response.close = true
        by_contra hno
        simp [hno] at hafter

theorem inactive_append {es es' : List Event} :
    Inactive (es ++ es') ↔ Inactive es ∧ Inactive es' := List.forall_mem_append

/-- What `OnHttpRequest` does behind a failed `Send`: the file and further calls of
`RemoveConnection`. -/
theorem onHttpRequest_of_fails (c : Connection n) {verdict : Verdict} (h : verdict ≠ .incomplete)
    {w : WriteResult} (hfail : c.outputBuffer = [] ∧ w = .error) :
    ∃ rest, (c.onHttpRequest verdict w).2 = .removeConnection :: rest ∧
      (c.onHttpRequest verdict w).1.state ≠ .connected ∧
      ∀ file, Inactive (events verdict file rest) ↔
        ¬ ((∃ head close, verdict = .complete ⟨head, true, close⟩) ∧ file.flatten ≠ []) := by
  have hsend : ∀ data, send { c with inputBuffer := [] } data w =
      ({ c with inputBuffer := [], state := .closed }, [.removeConnection]) := fun _ =>
    send_of_error hfail
  cases verdict with
  | incomplete => exact absurd rfl h
  | badRequest =>
      unfold onHttpRequest
      dsimp only
      rw [hsend]
      refine ⟨if c.channel.inEpoll then [.removeConnection] else [], ?_, (fun hno => nomatch hno),
        fun file => iff_of_true (inactive_removeConnection _ _ ?_) ?_⟩
      · split <;> rfl
      · split <;> simp
      · intro hfile
        obtain ⟨⟨_, _, hcomplete⟩, -⟩ := hfile
        exact nomatch hcomplete
  | complete response =>
      obtain ⟨head, hasFile, close⟩ := response
      refine ⟨(if hasFile then [.sendFile] else []) ++ if close then [.removeConnection] else [],
        ?_, ?_, fun file => ?_⟩
      · unfold onHttpRequest
        dsimp only
        rw [onHttpReponse_snd, hsend, List.append_assoc]
        rfl
      · unfold onHttpRequest onHttpReponse
        dsimp only
        rw [hsend]
        split <;> exact fun hno => nomatch hno
      · have hclose : Inactive (events (.complete ⟨head, hasFile, close⟩) file
            (if close then [.removeConnection] else [])) :=
          inactive_removeConnection _ _ (by cases close <;> simp)
        rw [events_append, inactive_append, and_iff_left hclose]
        cases hasFile with
        | false => simp [Inactive]
        | true =>
            rw [if_pos rfl, events_cons, events_nil, List.append_nil]
            refine (inactive_sentFile_iff file).trans ?_
            simp

theorem final_of_answerFails (h : c.AnswerFails ready d) (file : List Bytes) :
    Final (events d.verdict file (c.handleEvent ready d).2) ↔ ¬ c.CutsIn ready d file := by
  obtain ⟨hanswers, hverdict, hfail⟩ := h
  obtain ⟨rest, heq, hstate, hrest⟩ := onHttpRequest_of_fails
    { c with inputBuffer := d.chunks.flatten } hverdict hfail
  have hcuts : c.CutsIn ready d file ↔
      (∃ head close, d.verdict = .complete ⟨head, true, close⟩) ∧ file.flatten ≠ [] :=
    and_iff_right ⟨hanswers, hverdict, hfail⟩
  have hcalls : .removeConnection ∉ events d.verdict file [.handleRead] := by
    rw [mem_events_removeConnection]
    simp
  have hone : ∀ tail : List Effect, Final (events d.verdict file
      (.handleRead :: .removeConnection :: tail)) ↔ Inactive (events d.verdict file tail) := by
    intro tail
    show Final (events d.verdict file ([.handleRead] ++ .removeConnection :: tail)) ↔ _
    rw [events_append, final_append_of_not_mem hcalls]
    exact final_removeConnection_cons
  rw [handleEvent_of_read hanswers.1, listenClientMessage_of_answers hanswers.2.1 hanswers.2.2]
  dsimp only
  rw [heq, write_of_not_connected hstate]
  split
  · rw [List.cons_append, List.cons_append, hone, events_append, inactive_append,
      and_iff_left (inactive_removeConnection _ _ (by simp)), hrest, hcuts]
  · rw [hone, hrest, hcuts]

/-- A dispatch does nothing behind a removal it asks for, unless a file follows a failed `Send`. -/
theorem final_handleEvent_iff (c : Connection n) (ready : Ready) (d : Dispatch) (file : List Bytes) :
    Final (events d.verdict file (c.handleEvent ready d).2) ↔ ¬ c.CutsIn ready d file := by
  by_cases hfail : c.AnswerFails ready d
  · exact final_of_answerFails hfail file
  · refine iff_of_true ?_ fun hno => hfail hno.1
    by_cases hread : ready.read = true
    · by_cases hanswers : c.Answers ready d
      · let x : Connection n := { c with inputBuffer := d.chunks.flatten }
        obtain ⟨before, after, heq, hbefore, hafter, hclosed⟩ :=
          @onHttpRequest_snd n x d.verdict d.sendResult
            fun hverdict hno => hfail ⟨hanswers, hverdict, hno⟩
        have hcalls : .removeConnection ∉ events d.verdict file (.handleRead :: before) := by
          rw [mem_events_removeConnection]
          simpa using hbefore
        rw [handleEvent_of_read hread, listenClientMessage_of_answers hanswers.2.1 hanswers.2.2]
        dsimp only
        rw [heq, ← List.cons_append]
        split
        · rw [List.append_assoc, events_append, final_append_of_not_mem hcalls]
          by_cases hnil : after = []
          · rw [hnil]
            exact final_write _ _ _ _
          · rw [write_of_not_connected (by rw [hclosed hnil]; exact fun hno => nomatch hno)]
            refine (inactive_removeConnection _ _ fun e he => ?_).final
            rcases List.mem_append.1 he with he | he
            · exact hafter e he
            · exact List.mem_singleton.1 he
        · rw [events_append, final_append_of_not_mem hcalls]
          exact (inactive_removeConnection _ _ hafter).final
      · exact (inactive_removeConnection _ _ (handleEvent_of_not_answers hread hanswers)).final
    · rw [handleEvent_of_not_read (Bool.eq_false_of_not_eq_true hread)]
      split
      · exact final_write _ _ _ _
      · exact List.Pairwise.nil

/-- A connection still connected has asked for no removal in the dispatch. -/
theorem quiet_of_connected (h : (c.handleEvent ready d).1.state = .connected) :
    .removeConnection ∉ (c.handleEvent ready d).2 := by
  have hwrite : ∀ x : Connection n, (x.write d.writeResult).1.state = .connected →
      .removeConnection ∉ (x.write d.writeResult).2 := by
    intro x hx
    have hconn := connected_write hx
    unfold write writeNonBlocking at hx ⊢
    simp only [hconn, ne_eq, not_true_eq_false, if_false] at hx ⊢
    split_ifs at hx ⊢ with hempty
    · exact List.not_mem_nil
    · split at hx <;> simp_all
  obtain ⟨hconn, hfails⟩ := connected_handleEvent h
  by_cases hread : ready.read = true
  · have hanswers : c.Answers ready d := by
      by_contra hno
      obtain ⟨x, heq, hx, -⟩ :=
        listenClientMessage_of_not (d := d) (c := c) fun hboth => hno ⟨hread, hboth⟩
      rw [handleEvent_of_read hread, heq, write_of_not_connected hx] at h
      split at h <;> exact hx h
    have hlisten : .removeConnection ∉ (c.listenClientMessage d).2 := by
      rw [handleEvent_of_read hread] at h
      have hstate : (c.listenClientMessage d).1.state = .connected := by
        split at h
        · exact connected_write h
        · exact h
      rw [listenClientMessage_of_answers hanswers.2.1 hanswers.2.2] at hstate ⊢
      obtain ⟨before, after, heq, hbefore, -, hclosed⟩ := @onHttpRequest_snd n
        { c with inputBuffer := d.chunks.flatten } d.verdict d.sendResult
          fun hverdict hno => hfails ⟨hanswers, hverdict, hno⟩
      have hnil : after = [] := by
        by_contra hno
        rw [hclosed hno] at hstate
        exact nomatch hstate
      rw [hnil, List.append_nil] at heq
      rw [heq]
      simpa using hbefore
    rw [handleEvent_of_read hread] at h ⊢
    split at h
    · rename_i hw
      rw [if_pos hw]
      exact fun hno => (List.mem_append.1 hno).elim hlisten (hwrite _ h)
    · rename_i hw
      rw [if_neg hw]
      exact hlisten
  · rw [handleEvent_of_not_read (Bool.eq_false_of_not_eq_true hread)] at h ⊢
    split at h
    · rename_i hw
      rw [if_pos hw]
      exact hwrite c h
    · rename_i hw
      rw [if_neg hw]
      exact List.not_mem_nil

end Connection

namespace Traced

variable {n : Nat} {t t' : Traced n}

/-! ## Runs -/

/-- No connection has been used behind a call of `RemoveConnection` for it. -/
def RemovalFinal (t : Traced n) : Prop := ∀ c, Final (t.log c)

/-- The step writes no file behind a failed `Send`, and if the removal of the connection has been
asked for, it calls no callback for it and writes none of what waits. -/
def KeepsFinal (t : Traced n) : TracedAct n → Prop
  | (.handle i d, file) => ∀ p ∈ (t.server.loops i).batch.head?,
      ¬ (t.server.conns p.1).CutsIn p.2 d file ∧
        (.removeConnection ∈ t.log p.1 → ¬ (t.server.conns p.1).Acts p.2 d)
  | _ => True

theorem final_handle_iff {i : Fin (n + 1)} {c : Nat} {ready : Ready} {rest : List (Nat × Ready)}
    (hbatch : (t.server.loops i).batch = (c, ready) :: rest) (h : Final (t.log c)) (d : Dispatch)
    (file : List Bytes) : Final (t.log c ++ t.server.record file c (.handle i d)) ↔
      ¬ (t.server.conns c).CutsIn ready d file ∧
        (.removeConnection ∈ t.log c → ¬ (t.server.conns c).Acts ready d) := by
  rw [record_of_batch hbatch, final_append, Connection.final_handleEvent_iff,
    Connection.inactive_handleEvent_iff]
  exact and_iff_right h

theorem RemovalFinal.step (h : t.RemovalFinal) {a : TracedAct n} (hq : t.KeepsFinal a)
    (hstep : t.step a = some t') : t'.RemovalFinal := by
  obtain ⟨hserver, hlog, -⟩ := of_step hstep
  obtain ⟨act, file⟩ := a
  intro c
  rw [hlog]
  cases Server.did_of_step hserver c with
  | constructed fd hc hconn =>
      rw [show t.server.record file c (.accept fd) = [] from rfl, List.append_nil]
      exact h c
  | handled i d ready rest hbatch hconn =>
      refine (final_handle_iff hbatch (h c) d file).2 (hq (c, ready) ?_)
      rw [hbatch]
      rfl
  | same _ hstate hout hrecord hdecides =>
      have hquiet : Inactive (t.server.record file c act) := by
        intro e he
        rcases hrecord file with heq | ⟨-, heq⟩ <;> rw [heq] at he
        · exact absurd he List.not_mem_nil
        · rw [List.mem_singleton.1 he]
          exact id
      exact final_append.2 ⟨h c, hquiet.final, fun _ => hquiet⟩

theorem removalFinal_init : RemovalFinal ({} : Traced n) := fun _ => List.Pairwise.nil

/-- **Removals.** In every state of a run nothing has been done for a connection behind a call of
`RemoveConnection`, exactly when each step of the run meets the condition. -/
theorem removalFinal_iff (acts : List (TracedAct n)) :
    Lib.Always step RemovalFinal {} acts ↔ Lib.Each step KeepsFinal {} acts := by
  refine Lib.always_iff_each RemovalFinal (fun _ h => h)
    (fun _ _ _ h hq hstep => h.step hq hstep) (fun t a t' h hq hstep hfinal => ?_)
    removalFinal_init acts
  obtain ⟨-, hlog, -⟩ := of_step hstep
  obtain ⟨act, file⟩ := a
  cases act with
  | handle i d =>
      refine hq fun p hp => ?_
      obtain ⟨rest, hbatch⟩ := List.head?_eq_some_iff.1 hp
      have hc := hfinal p.1
      rw [hlog] at hc
      exact (final_handle_iff hbatch (h p.1) d file).1 hc
  | _ => exact hq trivial

/-- No timer removes a connection, and no file is written behind a failed `Send`. -/
structure NoOverTime (t : Traced n) (a : TracedAct n) : Prop where
  unexpired : ∀ c, ¬ t.server.Expires c a.1
  file : ∀ i d, a.1 = .handle i d → ∀ p ∈ (t.server.loops i).batch.head?,
    ¬ (t.server.conns p.1).CutsIn p.2 d a.2

def Unremoved (t : Traced n) : Prop :=
  ∀ c, (t.server.conns c).state = .connected → .removeConnection ∉ t.log c

theorem Unremoved.keepsFinal (h : t.Unremoved) {a : TracedAct n} (hq : t.NoOverTime a) :
    t.KeepsFinal a := by
  obtain ⟨act, file⟩ := a
  cases act with
  | handle i d =>
      intro p hp
      refine ⟨hq.file i d rfl p hp, fun hmem hacts => ?_⟩
      have hconn : (t.server.conns p.1).state = .connected := by
        rcases hacts with hanswers | ⟨-, -, hconn, -⟩
        · exact hanswers.2.1
        · exact hconn
      exact h p.1 hconn hmem
  | _ => exact trivial

theorem Unremoved.step (h : t.Unremoved) (hr : Recorded t) {a : TracedAct n} (hq : t.NoOverTime a)
    (hstep : t.step a = some t') : t'.Unremoved := by
  obtain ⟨hserver, hlog, -⟩ := of_step hstep
  obtain ⟨act, file⟩ := a
  intro c hconn
  rw [hlog]
  cases Server.did_of_step hserver c with
  | constructed fd hc hnew =>
      rw [(hr.unborn c hc.ge).1]
      exact List.not_mem_nil
  | handled i d ready rest hbatch hnew =>
      rw [hnew] at hconn
      rw [record_of_batch hbatch]
      intro hmem
      rcases List.mem_append.1 hmem with hmem | hmem
      · exact h c (Connection.connected_handleEvent hconn).1 hmem
      · exact Connection.quiet_of_connected hconn ((mem_events_removeConnection _ _ _).1 hmem)
  | same _ hstate hout hrecord hdecides =>
      rw [hstate] at hconn
      rcases hrecord file with heq | ⟨hexpires, -⟩
      · rw [heq, List.append_nil]
        exact h c hconn
      · exact absurd hexpires (hq.unexpired c)

/-- Where the timer removes no connection, removals are final, files behind a failed `Send`
apart. -/
theorem removalFinal_of_noOverTime {acts : List (TracedAct n)}
    (h : Lib.Each step NoOverTime {} acts) : Lib.Always step RemovalFinal {} acts := by
  have hinv : Lib.Always step (fun t : Traced n => Recorded t ∧ Unremoved t ∧ RemovalFinal t)
      {} acts :=
    h.always (fun _ _ _ hs hq hstep => ⟨hs.1.step hstep, hs.2.1.step hs.1 hq hstep,
      hs.2.2.step (hs.2.1.keepsFinal hq) hstep⟩)
      ⟨recorded_init, fun _ _ => List.not_mem_nil, removalFinal_init⟩
  exact hinv.mono fun _ hs => hs.2.2

/-- The timer removes a connection whose channel is in the batch with data to read. -/
def overTimeRun : List (TracedAct 0) :=
  let acts : List (Server.Act 0) := Server.establish ++
    [.poll Server.only [(0, ⟨true, false⟩)], .overTime Server.only 0 true, .call Server.only,
      .call Server.only, .handle Server.only ⟨[[chr 'x']], .eagain, .incomplete, .eagain, .eagain⟩]
  acts.map fun a => (a, [])

/-- `OverTime` does not close the connection: its request is still handled. -/
theorem not_removalFinal_overTimeRun :
    ¬ Lib.Always step RemovalFinal {} overTimeRun := by
  have hend : (Lib.runFrom step ({} : Traced 0) overTimeRun).map (fun t => t.log 0) =
      some [.removeConnection, .handleRead] := by decide
  intro h
  obtain ⟨t, hall, ht⟩ := h.exists_end hend
  have hfinal := hall 0
  rw [ht] at hfinal
  exact final_removeConnection_cons.1 hfinal _ (List.mem_singleton_self _) trivial

end Traced

end CPlusServer

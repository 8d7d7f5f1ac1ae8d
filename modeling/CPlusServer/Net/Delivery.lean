import CPlusServer.Http.Response
import CPlusServer.Net.Teardown
import CPlusServer.Net.Trace

/-!
# Delivery of a response

What reaches the socket for one response. `Send` keeps what it cannot write, but
`SendFile` writes past what is kept, and a closing handler does not wait for it.
-/

namespace CPlusServer

def Event.ofFile : Event → Bytes
  | .sentFile bytes => bytes
  | _ => []

def Event.wire (e : Event) : Bytes := e.accepted ++ e.ofFile

def wire (es : List Event) : Bytes := es.flatMap Event.wire

def fileBytes (es : List Event) : Bytes := es.flatMap Event.ofFile

@[simp] theorem wire_append (es es' : List Event) : wire (es ++ es') = wire es ++ wire es' :=
  List.flatMap_append

@[simp] theorem fileBytes_append (es es' : List Event) :
    fileBytes (es ++ es') = fileBytes es ++ fileBytes es' := List.flatMap_append

theorem wire_of_no_file {es : List Event} (h : fileBytes es = []) : wire es = accepted es := by
  induction es with
  | nil => rfl
  | cons e es ih =>
      obtain ⟨he, hes⟩ := List.append_eq_nil_iff.1 h
      show e.wire ++ wire es = e.accepted ++ accepted es
      rw [ih hes, Event.wire, he, List.append_nil]

theorem prefix_accepted {es es' : List Event} (h : es <+: es') : accepted es <+: accepted es' := by
  obtain ⟨rest, rfl⟩ := h
  rw [accepted_append]
  exact List.prefix_append _ _

theorem prefix_wire {es es' : List Event} (h : es <+: es') : wire es <+: wire es' := by
  obtain ⟨rest, rfl⟩ := h
  rw [wire_append]
  exact List.prefix_append _ _

theorem fileBytes_of_first {es es' : List Event} (h : es <+: es') (hno : fileBytes es' = []) :
    fileBytes es = [] := by
  obtain ⟨rest, rfl⟩ := h
  rw [fileBytes_append] at hno
  exact (List.append_eq_nil_iff.1 hno).1

def HttpResponse.reply (r : HttpResponse) (order : List (Bytes × Bytes)) : Reply where
  head := r.sent order
  file := r.bodyType ≠ ascii "HTML_TYPE"
  close := r.close

def TakesAll (data : Bytes) : WriteResult → Prop
  | .accepted k => data.length ≤ k
  | .eagain | .error => data = []

instance (data : Bytes) : ∀ w, Decidable (TakesAll data w)
  | .accepted _ => inferInstanceAs (Decidable (_ ≤ _))
  | .eagain | .error => inferInstanceAs (Decidable (_ = _))

/-! ## A file behind its head -/

/-- What `SendFile` puts on the socket, taken as sending the file in order, from the number of bytes
that each call accepts. Its own loop is `Connection.sendFile`. -/
def sendFile (file : Bytes) : List Nat → List Bytes
  | [] => []
  | k :: ks => file.take k :: sendFile (file.drop k) ks

theorem prefix_sendFile (file : Bytes) (ks : List Nat) : (sendFile file ks).flatten <+: file := by
  induction ks generalizing file with
  | nil => exact List.nil_prefix
  | cons k ks ih =>
      conv => rhs; rw [← List.take_append_drop k file]
      exact List.prefix_append_right_inj _ |>.2 (ih (file.drop k))

theorem sendFile_eq_nil_iff (file : Bytes) (ks : List Nat) :
    (sendFile file ks).flatten = [] ↔ file = [] ∨ ∀ k ∈ ks, k = 0 := by
  induction ks generalizing file with
  | nil => simp [sendFile]
  | cons k ks ih =>
      cases k with
      | zero => simp [sendFile, ih]
      | succ k =>
          cases file with
          | nil => simp [sendFile, ih]
          | cons b file => simp [sendFile]

namespace Connection

variable {n : Nat}

def flush (c : Connection n) : List WriteResult → List Effect
  | [] => []
  | w :: ws => (c.sendClientMessage w).2 ++ flush (c.sendClientMessage w).1 ws

theorem prefix_written_flush (c : Connection n) (ws : List WriteResult) :
    written (c.flush ws) <+: c.outputBuffer := by
  induction ws generalizing c with
  | nil => exact List.nil_prefix
  | cons w ws ih =>
      conv => rhs; rw [← written_write c w]
      show written (_ ++ _) <+: _
      rw [written_append]
      exact (List.prefix_append_right_inj _).2 (ih _)

theorem flush_of_not_connected {c : Connection n} (h : c.state ≠ .connected) (ws : List WriteResult) :
    written (c.flush ws) = [] := by
  induction ws with
  | nil => rfl
  | cons w ws ih =>
      show written ((c.write w).2 ++ (c.write w).1.flush ws) = []
      rw [write_of_not_connected h, written_append, ih]
      rfl

/-- What `OnHttpReponse` and the write-ready events behind it do for a file response. `ks` is what
the calls of `sendfile` accept. -/
def fileResponse (c : Connection n) (response : Reply) (file : Bytes) (w : WriteResult)
    (ks : List Nat) (later : List WriteResult) : List Event :=
  events (.complete response) (sendFile file ks)
    ((c.onHttpReponse response w).2 ++ (c.onHttpReponse response w).1.flush later)

end Connection

/-- At every moment the bytes on the socket are a first part of what waits, the head and the file,
and with a byte of the file there all that goes before it has been written. -/
def InOrder (pending head file : Bytes) (es : List Event) : Prop :=
  ∀ now, now <+: es → wire now <+: pending ++ head ++ file ∧
    (fileBytes now ≠ [] → accepted now = pending ++ head)

namespace Connection

variable {n : Nat} {c : Connection n} {w : WriteResult}

/-- `Send` has written all that waits and its data only when nothing waits and one `write` takes
the data. -/
theorem written_send_eq_iff (c : Connection n) (data : Bytes) (w : WriteResult) :
    written (c.send data w).2 = c.outputBuffer ++ data ↔ c.outputBuffer = [] ∧ TakesAll data w := by
  unfold send
  by_cases hempty : c.outputBuffer = []
  · rw [if_pos hempty]
    cases w with
    | accepted k => simp [hempty, Effect.written, TakesAll, List.take_eq_self_iff]
    | eagain => simp [hempty, TakesAll, eq_comm]
    | error => simp [hempty, Effect.written, TakesAll, eq_comm]
  · simp [hempty]

theorem prefix_written_send (c : Connection n) (data : Bytes) (w : WriteResult) :
    written (c.send data w).2 <+: c.outputBuffer ++ data := by
  by_cases hfail : c.outputBuffer = [] ∧ w = .error
  · rw [send_of_error hfail]
    exact List.nil_prefix
  · rw [← written_send hfail]
    exact List.prefix_append _ _

theorem prefix_written_response (c : Connection n) (response : Reply) (w : WriteResult)
    (later : List WriteResult) :
    written (c.send response.head w).2 ++ written ((c.onHttpReponse response w).1.flush later) <+:
      c.outputBuffer ++ response.head := by
  by_cases hstate : (c.onHttpReponse response w).1.state = .connected
  · have hclose : ¬ response.close = true := by
      intro hclose
      simp [onHttpReponse, hclose] at hstate
    rw [onHttpReponse_fst hclose] at hstate ⊢
    rw [← written_send (connected_send hstate).2]
    exact (List.prefix_append_right_inj _).2 (prefix_written_flush _ later)
  · rw [flush_of_not_connected hstate, List.append_nil]
    exact prefix_written_send c response.head w

theorem fileBytes_written {es : List Effect} (h : .sendFile ∉ es) (verdict : Verdict)
    (file : List Bytes) : fileBytes (events verdict file es) = [] := by
  induction es with
  | nil => rfl
  | cons e es ih =>
      obtain ⟨he, hes⟩ := not_or.1 (mt List.mem_cons.2 h)
      rw [events_cons, fileBytes_append, ih hes, List.append_nil]
      cases e with
      | removeConnection => rfl
      | handleRead => cases verdict <;> rfl
      | wrote bytes => simp [Effect.events, fileBytes, Event.ofFile]
      | sendFile => exact absurd rfl he

theorem sendFile_not_mem_send (c : Connection n) (data : Bytes) (w : WriteResult) :
    .sendFile ∉ (c.send data w).2 := by
  unfold send
  split
  · cases w <;> simp
  · simp

theorem sendFile_not_mem_write (c : Connection n) (w : WriteResult) : .sendFile ∉ (c.write w).2 := by
  unfold write writeNonBlocking
  split
  · simp
  · split
    · simp
    · split <;> simp

theorem sendFile_not_mem_flush (c : Connection n) (ws : List WriteResult) :
    .sendFile ∉ c.flush ws := by
  induction ws generalizing c with
  | nil => exact List.not_mem_nil
  | cons w ws ih =>
      intro hmem
      rcases List.mem_append.1 hmem with hmem | hmem
      · exact sendFile_not_mem_write c w hmem
      · exact ih _ hmem

theorem onHttpReponse_snd (c : Connection n) (response : Reply) (w : WriteResult) :
    (c.onHttpReponse response w).2 = (c.send response.head w).2 ++
      (if response.file then [.sendFile] else []) ++
        if response.close then [.removeConnection] else [] := by
  unfold onHttpReponse
  cases response.file <;> cases response.close <;> simp

end Connection

theorem wire_sentFile (chunks : List Bytes) : wire (chunks.map .sentFile) = chunks.flatten := by
  induction chunks with
  | nil => rfl
  | cons b chunks ih =>
      show b ++ wire (chunks.map .sentFile) = b ++ chunks.flatten
      rw [ih]

theorem fileBytes_sentFile (chunks : List Bytes) :
    fileBytes (chunks.map .sentFile) = chunks.flatten := by
  induction chunks with
  | nil => rfl
  | cons b chunks ih =>
      show b ++ fileBytes (chunks.map .sentFile) = b ++ chunks.flatten
      rw [ih]

theorem accepted_sentFile (chunks : List Bytes) : accepted (chunks.map .sentFile) = [] := by
  induction chunks with
  | nil => rfl
  | cons b chunks ih => exact ih

namespace Connection

variable {n : Nat}

/-- A file response in three parts: what `Send` does, the file, and what comes behind it. -/
theorem fileResponse_parts (c : Connection n) (head : Bytes) (close : Bool) (file : Bytes)
    (w : WriteResult) (ks : List Nat) (later : List WriteResult) :
    ∃ before after, c.fileResponse ⟨head, true, close⟩ file w ks later =
        before ++ (sendFile file ks).map .sentFile ++ after ∧
      fileBytes before = [] ∧ fileBytes after = [] ∧ accepted before = written (c.send head w).2 ∧
      accepted before ++ accepted after <+: c.outputBuffer ++ head := by
  let response : Reply := ⟨head, true, close⟩
  let verdict : Verdict := .complete response
  let rest := (if close then [.removeConnection] else []) ++ (c.onHttpReponse response w).1.flush later
  have hrest : .sendFile ∉ rest := by
    intro hmem
    rcases List.mem_append.1 hmem with hmem | hmem
    · split at hmem <;> simp at hmem
    · exact sendFile_not_mem_flush _ later hmem
  refine ⟨events verdict (sendFile file ks) (c.send head w).2, events verdict (sendFile file ks) rest,
    ?_, fileBytes_written (sendFile_not_mem_send c head w) _ _, fileBytes_written hrest _ _,
    accepted_events _ _ _, ?_⟩
  · unfold fileResponse
    rw [onHttpReponse_snd]
    simp [events_append, rest, verdict, response, Effect.events]
  · have hwritten : written rest = written ((c.onHttpReponse response w).1.flush later) := by
      cases close <;> simp [rest, Effect.written]
    rw [accepted_events, accepted_events, hwritten]
    exact prefix_written_response c response w later

/-- **File response.** The bytes of a file response are in order for exactly the inputs where
either no byte of the file is taken, or nothing waits and one `write` takes the head. -/
theorem inOrder_fileResponse_iff (c : Connection n) (head : Bytes) (close : Bool) (file : Bytes)
    (w : WriteResult) (ks : List Nat) (later : List WriteResult) :
    InOrder c.outputBuffer head file (c.fileResponse ⟨head, true, close⟩ file w ks later) ↔
      (file = [] ∨ ∀ k ∈ ks, k = 0) ∨ c.outputBuffer = [] ∧ TakesAll head w := by
  obtain ⟨before, after, hparts, hbefore, hafter, hsend, htotal⟩ :=
    c.fileResponse_parts head close file w ks later
  rw [hparts, ← sendFile_eq_nil_iff, ← written_send_eq_iff c head w, ← hsend]
  constructor
  · intro h
    refine or_iff_not_imp_left.2 fun hfile => ?_
    have hnow := (h (before ++ (sendFile file ks).map .sentFile) (List.prefix_append _ _)).2
    rw [fileBytes_append, accepted_append, hbefore, fileBytes_sentFile, accepted_sentFile,
      List.append_nil] at hnow
    exact hnow hfile
  · intro h now hnow
    rcases h with hnone | hall
    · -- no byte of the file is on the socket at any moment
      have hno : fileBytes now = [] := by
        refine fileBytes_of_first hnow ?_
        rw [fileBytes_append, fileBytes_append, hbefore, hafter, fileBytes_sentFile, hnone]
        rfl
      refine ⟨?_, fun hsome => absurd hno hsome⟩
      have haccepted := prefix_accepted hnow
      rw [accepted_append, accepted_append, accepted_sentFile, List.append_nil] at haccepted
      rw [wire_of_no_file hno]
      exact (haccepted.trans htotal).trans (List.prefix_append _ _)
    · -- the head is whole before the file, and nothing is left to flush behind it
      have hquiet : accepted after = [] := by
        rw [hall] at htotal
        exact List.prefix_nil.1 ((List.prefix_append_right_inj _).1
          (htotal.trans (by rw [List.append_nil])))
      rcases List.prefix_or_prefix_of_prefix hnow
        (List.append_assoc before _ after ▸ List.prefix_append before _) with hearly | hlate
      · have hno := fileBytes_of_first hearly hbefore
        refine ⟨?_, fun hsome => absurd hno hsome⟩
        rw [wire_of_no_file hno, ← hall]
        exact (prefix_accepted hearly).trans (List.prefix_append _ _)
      · obtain ⟨tail, rfl⟩ := hlate
        rw [List.append_assoc, List.prefix_append_right_inj] at hnow
        have htail : accepted tail = [] := by
          have haccepted := prefix_accepted hnow
          rw [accepted_append, accepted_sentFile, hquiet] at haccepted
          exact List.prefix_nil.1 haccepted
        refine ⟨?_, fun _ => by rw [accepted_append, htail, List.append_nil, hall]⟩
        have hwire := prefix_wire hnow
        rw [wire_append, wire_sentFile, wire_of_no_file hafter, hquiet, List.append_nil] at hwire
        rw [wire_append, wire_of_no_file hbefore, hall, List.prefix_append_right_inj]
        exact hwire.trans (prefix_sendFile file ks)

def download : HttpResponse :=
  ((((({ close := false } : HttpResponse).setContentLength 1).setContentType
    (ascii "application/octet-stream")).setStatusCode .k200K).setBodyType
      (ascii "FILE_TYPE")).setFileId 7

def downloadReply : Reply :=
  download.reply [(ascii "Content-Type", ascii "application/octet-stream")]

/-- The socket takes one byte of the head and has room again when `sendfile` is called. -/
theorem not_inOrder_of_head_kept :
    ¬ InOrder [] downloadReply.head [chr 'x'] (fileResponse (n := 0) { fd := 5, loop := 0 }
      downloadReply [chr 'x'] (.accepted 1) [1] [.accepted 200]) := by
  intro h
  have hnow := (h _ (List.prefix_refl _)).1
  revert hnow
  decide

end Connection

/-! ## A response that closes -/

theorem sent_events_eq_nil {es : List Effect} (h : .handleRead ∉ es) (verdict : Verdict)
    (file : List Bytes) : sent (events verdict file es) = [] := by
  induction es with
  | nil => rfl
  | cons e es ih =>
      obtain ⟨he, hes⟩ := not_or.1 (mt List.mem_cons.2 h)
      rw [events_cons, sent_append, ih hes, sent_events, if_neg (Ne.symm he)]
      rfl

namespace Connection

variable {n : Nat} {c : Connection n} {ready : Ready} {d : Dispatch}

theorem handleRead_not_mem_send (c : Connection n) (data : Bytes) (w : WriteResult) :
    .handleRead ∉ (c.send data w).2 := by
  unfold send
  split
  · cases w <;> simp
  · simp

theorem handleRead_not_mem_write (c : Connection n) (w : WriteResult) :
    .handleRead ∉ (c.write w).2 := by
  unfold write writeNonBlocking
  split
  · simp
  · split
    · simp
    · split <;> simp

theorem handleRead_not_mem_onHttpRequest (c : Connection n) (verdict : Verdict) (w : WriteResult) :
    .handleRead ∉ (c.onHttpRequest verdict w).2 := by
  unfold onHttpRequest
  cases verdict with
  | incomplete => exact List.not_mem_nil
  | badRequest =>
      have hsend := handleRead_not_mem_send { c with inputBuffer := [] }
        (ascii "HTTP/1.1 400 Bad Request\r\n\r\n") w
      dsimp only
      split
      · simpa using hsend
      · exact hsend
  | complete response =>
      have hsend := handleRead_not_mem_send { c with inputBuffer := [] } response.head w
      dsimp only
      rw [onHttpReponse_snd]
      cases response.file <;> cases response.close <;> simpa using hsend

theorem onHttpRequest_of_answer (c : Connection n) {verdict : Verdict} (h : verdict ≠ .incomplete)
    (w : WriteResult) :
    written (c.onHttpRequest verdict w).2 =
        written ({ c with inputBuffer := [] }.send verdict.payload w).2 ∧
      (c.onHttpRequest verdict w).1.outputBuffer =
        ({ c with inputBuffer := [] }.send verdict.payload w).1.outputBuffer := by
  unfold onHttpRequest
  cases verdict with
  | incomplete => exact absurd rfl h
  | badRequest =>
      refine ⟨?_, rfl⟩
      dsimp only
      split
      · rw [written_append]
        exact List.append_nil _
      · rfl
  | complete response =>
      refine ⟨?_, ?_⟩
      · dsimp only
        rw [onHttpReponse_snd]
        cases response.file <;> cases response.close <;> simp [Effect.written, Verdict.payload]
      · unfold onHttpReponse
        dsimp only
        split <;> rfl

theorem state_onHttpRequest_of_final {verdict : Verdict} (h : verdict.Final) (c : Connection n)
    (w : WriteResult) : (c.onHttpRequest verdict w).1.state = .closed := by
  unfold onHttpRequest
  cases verdict with
  | incomplete => exact h.elim
  | badRequest => rfl
  | complete response =>
      have hclose : response.close = true := h
      simp [onHttpReponse, hclose]

theorem connected_onHttpRequest {c : Connection n} {verdict : Verdict} {w : WriteResult}
    (h : (c.onHttpRequest verdict w).1.state = .connected) :
    ¬ verdict.Final ∧ (verdict ≠ .incomplete →
      ({ c with inputBuffer := [] }.send verdict.payload w).1.state = .connected) := by
  have hopen : ¬ verdict.Final := fun hfinal => by
    rw [state_onHttpRequest_of_final hfinal] at h
    cases h
  refine ⟨hopen, fun hverdict => ?_⟩
  cases verdict with
  | badRequest => exact absurd trivial hopen
  | incomplete => exact absurd rfl hverdict
  | complete response =>
      unfold onHttpRequest onHttpReponse at h
      dsimp only at h
      rw [if_neg (show ¬ response.close = true from hopen)] at h
      exact h

theorem stream_onHttpRequest {c : Connection n} {accepted sent : Bytes}
    (h : accepted ++ c.outputBuffer = sent) (verdict : Verdict) (w : WriteResult) :
    accepted ++ written (c.onHttpRequest verdict w).2 <+: sent ++ verdict.payload ∧
      ((c.onHttpRequest verdict w).1.state = .connected →
        accepted ++ written (c.onHttpRequest verdict w).2 ++
          (c.onHttpRequest verdict w).1.outputBuffer = sent ++ verdict.payload) := by
  by_cases hverdict : verdict = .incomplete
  · subst hverdict
    have hall : accepted ++ [] ++ c.outputBuffer = sent ++ [] := by
      rw [List.append_nil, List.append_nil, h]
    exact ⟨⟨_, hall⟩, fun _ => hall⟩
  · have hempty : accepted ++ { c with inputBuffer := [] }.outputBuffer = sent := h
    obtain ⟨hfirst, hall⟩ := stream_send hempty verdict.payload w
    obtain ⟨hwritten, hbuffer⟩ := onHttpRequest_of_answer c hverdict w
    rw [hwritten, hbuffer]
    exact ⟨hfirst, fun hstate => hall ((connected_onHttpRequest hstate).2 hverdict)⟩

def AnswerFails (c : Connection n) (ready : Ready) (d : Dispatch) : Prop :=
  c.Answers ready d ∧ d.verdict ≠ .incomplete ∧ c.SendFails d

/-- The read callback passes to `Send` what it adds to the output. -/
theorem stream_listenClientMessage (hread : ready.read = true) (h : ¬ c.AnswerFails ready d)
    (file : List Bytes) :
    accepted (events d.verdict file (c.listenClientMessage d).2) ++
        (c.listenClientMessage d).1.outputBuffer =
      c.outputBuffer ++ sent (events d.verdict file (c.listenClientMessage d).2) := by
  rw [accepted_events]
  by_cases hanswers : c.Answers ready d
  · rw [listenClientMessage_of_answers hanswers.2.1 hanswers.2.2]
    rw [events_cons, sent_append, sent_events, if_pos rfl,
      sent_events_eq_nil (handleRead_not_mem_onHttpRequest _ _ _), List.append_nil, written_cons]
    by_cases hverdict : d.verdict = .incomplete
    · rw [hverdict]
      exact (List.append_nil c.outputBuffer).symm
    · obtain ⟨hwritten, hout⟩ := onHttpRequest_of_answer
        { c with inputBuffer := d.chunks.flatten } hverdict d.sendResult
      rw [hwritten, hout]
      exact written_send fun hfail => h ⟨hanswers, hverdict, hfail⟩
  · have hnot : ¬ (c.state = .connected ∧ d.readEnd = .eagain) := fun hno => hanswers ⟨hread, hno⟩
    obtain ⟨x, heq, -, hout⟩ := listenClientMessage_of_not hnot
    rw [heq, hout]
    exact (List.append_nil c.outputBuffer).symm

theorem stream_handleEvent (h : ¬ c.AnswerFails ready d) (file : List Bytes) :
    accepted (events d.verdict file (c.handleEvent ready d).2) ++
        (c.handleEvent ready d).1.outputBuffer =
      c.outputBuffer ++ sent (events d.verdict file (c.handleEvent ready d).2) := by
  have hwrite : ∀ x : Connection n, accepted (events d.verdict file (x.write d.writeResult).2) ++
      (x.write d.writeResult).1.outputBuffer = x.outputBuffer ∧
        sent (events d.verdict file (x.write d.writeResult).2) = [] := by
    intro x
    rw [accepted_events]
    exact ⟨written_write x _, sent_events_eq_nil (handleRead_not_mem_write x _) _ _⟩
  by_cases hread : ready.read = true
  · rw [handleEvent_of_read hread]
    have hlisten := stream_listenClientMessage hread h file
    split
    · obtain ⟨hout, hsent⟩ := hwrite (c.listenClientMessage d).1
      rw [events_append, accepted_append, sent_append, hsent, List.append_nil, List.append_assoc,
        hout, hlisten]
    · exact hlisten
  · rw [handleEvent_of_not_read (Bool.eq_false_of_not_eq_true hread)]
    split
    · obtain ⟨hout, hsent⟩ := hwrite c
      rw [hout, hsent, List.append_nil]
    · exact (List.append_nil c.outputBuffer).symm

theorem handleEvent_of_not_connected (h : c.state ≠ .connected) (ready : Ready) (d : Dispatch)
    (file : List Bytes) : (c.handleEvent ready d).1.state ≠ .connected ∧
      accepted (events d.verdict file (c.handleEvent ready d).2) = [] ∧
      sent (events d.verdict file (c.handleEvent ready d).2) = [] := by
  by_cases hread : ready.read = true
  · rw [handleEvent_of_read hread]
    obtain ⟨x, heq, hx, -⟩ := listenClientMessage_of_not fun hno => h hno.1
    rw [heq]
    split
    · rw [write_of_not_connected hx]
      exact ⟨hx, rfl, rfl⟩
    · exact ⟨hx, rfl, rfl⟩
  · rw [handleEvent_of_not_read (Bool.eq_false_of_not_eq_true hread)]
    split
    · rw [write_of_not_connected h]
      exact ⟨h, rfl, rfl⟩
    · exact ⟨h, rfl, rfl⟩

/-- A closing answer, and all that the dispatch writes is what its `Send` writes. -/
theorem handleEvent_of_final (hanswers : c.Answers ready d) (hfinal : d.verdict.Final)
    (file : List Bytes) : (c.handleEvent ready d).1.state = .closed ∧
      accepted (events d.verdict file (c.handleEvent ready d).2) =
        written ({ c with inputBuffer := [] }.send d.verdict.payload d.sendResult).2 ∧
      sent (events d.verdict file (c.handleEvent ready d).2) = d.verdict.payload := by
  obtain ⟨hread, hstate, hend⟩ := hanswers
  let x : Connection n := { c with inputBuffer := d.chunks.flatten }
  have hclosed := state_onHttpRequest_of_final hfinal x d.sendResult
  have hverdict : d.verdict ≠ .incomplete := by
    intro hno
    rw [hno] at hfinal
    exact hfinal
  have hwritten := (onHttpRequest_of_answer x hverdict d.sendResult).1
  have hsent := sent_events_eq_nil (handleRead_not_mem_onHttpRequest x d.verdict d.sendResult)
    d.verdict file
  rw [handleEvent_of_read hread, listenClientMessage_of_answers hstate hend,
    write_of_not_connected (by rw [hclosed]; exact fun hno => nomatch hno)]
  split
  · refine ⟨hclosed, ?_, ?_⟩
    · rw [accepted_events, written_append, written_cons, hwritten]
      exact List.append_nil _
    · rw [events_append, sent_append, events_cons, sent_append, hsent, sent_events, if_pos rfl,
        sent_events_eq_nil (by simp), List.append_nil, List.append_nil]
  · refine ⟨hclosed, ?_, ?_⟩
    · rw [accepted_events, written_cons, hwritten]
      rfl
    · rw [events_cons, sent_append, hsent, sent_events, if_pos rfl, List.append_nil]

theorem connected_handleEvent (h : (c.handleEvent ready d).1.state = .connected) :
    c.state = .connected ∧ ¬ c.AnswerFails ready d := by
  have hconn : c.state = .connected := by
    by_contra hno
    exact (handleEvent_of_not_connected hno ready d []).1 h
  refine ⟨hconn, fun ⟨hanswers, hverdict, hfail⟩ => ?_⟩
  have hlisten : (c.listenClientMessage d).1.state = .connected := by
    rw [handleEvent_of_read hanswers.1] at h
    split at h
    · exact connected_write h
    · exact h
  rw [listenClientMessage_of_answers hanswers.2.1 hanswers.2.2] at hlisten
  unfold onHttpRequest at hlisten
  cases hv : d.verdict with
  | incomplete => exact hverdict hv
  | badRequest =>
      rw [hv] at hlisten
      exact nomatch hlisten
  | complete response =>
      rw [hv] at hlisten
      have hsend : (send { c with inputBuffer := [] } response.head d.sendResult).1.state =
          .connected := by
        unfold onHttpReponse at hlisten
        dsimp only at hlisten
        split at hlisten
        · exact nomatch hlisten
        · exact hlisten
      exact (connected_send hsend).2 hfail

def CutOff (c : Connection n) (ready : Ready) (d : Dispatch) : Prop :=
  c.Answers ready d ∧ d.verdict.Final ∧ ¬ c.SendFails d ∧
    ¬ (c.outputBuffer = [] ∧ TakesAll d.verdict.payload d.sendResult)

instance (c : Connection n) (ready : Ready) (d : Dispatch) : Decidable (c.CutOff ready d) :=
  inferInstanceAs (Decidable (_ ∧ _ ∧ _ ∧ ¬ (_ ∧ _)))

end Connection

namespace Traced

variable {n : Nat} {t t' : Traced n}

def AnswersWhole (t : Traced n) : TracedAct n → Prop
  | (.handle i d, _) => ∀ p ∈ (t.server.loops i).batch.head?, ¬ (t.server.conns p.1).CutOff p.2 d
  | _ => True

instance (t : Traced n) : ∀ a, Decidable (t.AnswersWhole a)
  | (.handle _ _, _) => inferInstanceAs (Decidable (∀ p ∈ _, _))
  | (.accept _, _) | (.newConnection, _) | (.mainOverTime _ _, _) | (.mainToDo, _) | (.poll _ _, _)
  | (.call _, _) | (.overTime _ _ _, _) | (.toDo _, _) => .isTrue trivial

/-- While a connection is connected, what was passed to `Send` has been accepted or waits; when the
server has closed it, all of it has been accepted. -/
structure Handed (t : Traced n) : Prop where
  stream : ∀ c, (t.server.conns c).state = .connected →
    accepted (t.log c) ++ (t.server.conns c).outputBuffer = sent (t.log c)
  closed : ∀ c, t.closing c → (t.server.conns c).state ≠ .connected
  whole : ∀ c, t.closing c → accepted (t.log c) = sent (t.log c)

theorem record_of_batch {s : Server n} {i : Fin (n + 1)} {c : Nat} {ready : Ready}
    {rest : List (Nat × Ready)} (hbatch : (s.loops i).batch = (c, ready) :: rest) (d : Dispatch)
    (file : List Bytes) : s.record file c (.handle i d) =
      events d.verdict file ((s.conns c).handleEvent ready d).2 := by
  simp [Server.record, hbatch]

theorem decides_of_batch {s : Server n} {i : Fin (n + 1)} {c : Nat} {ready : Ready}
    {rest : List (Nat × Ready)} (hbatch : (s.loops i).batch = (c, ready) :: rest) (d : Dispatch) :
    s.Decides c (.handle i d) ↔ (s.conns c).Answers ready d ∧ d.verdict.Final ∧
      ¬ (s.conns c).SendFails d := by
  simp [Server.Decides, hbatch]

/-- What waits, and what a closing answer adds, has been accepted when its `Send` writes it. -/
theorem Handed.accepted_of_final (h : Handed t) {c : Nat} {ready : Ready} {d : Dispatch}
    (hanswers : (t.server.conns c).Answers ready d) (hfinal : d.verdict.Final)
    (file : List Bytes) :
    accepted (t.log c ++ events d.verdict file ((t.server.conns c).handleEvent ready d).2) =
        sent (t.log c ++ events d.verdict file ((t.server.conns c).handleEvent ready d).2) ↔
      (t.server.conns c).outputBuffer = [] ∧ TakesAll d.verdict.payload d.sendResult := by
  obtain ⟨-, haccepted, hsent⟩ := Connection.handleEvent_of_final hanswers hfinal file
  rw [accepted_append, sent_append, haccepted, hsent, ← h.stream c hanswers.2.1, List.append_assoc,
    List.append_cancel_left_eq]
  exact Connection.written_send_eq_iff _ _ _

theorem Handed.step (h : Handed t) (hr : Recorded t) {a : TracedAct n} (hq : t.AnswersWhole a)
    (hstep : t.step a = some t') : Handed t' := by
  obtain ⟨hserver, hlog, hclosing⟩ := of_step hstep
  obtain ⟨act, file⟩ := a
  have hboth : ∀ c, ((t'.server.conns c).state = .connected →
      accepted (t'.log c) ++ (t'.server.conns c).outputBuffer = sent (t'.log c)) ∧
      (t'.closing c → (t'.server.conns c).state ≠ .connected ∧
        accepted (t'.log c) = sent (t'.log c)) := by
    intro c
    rw [hlog, hclosing]
    cases Server.did_of_step hserver c with
    | constructed fd hc hconn =>
        obtain ⟨hnil, hopen⟩ := hr.unborn c hc.ge
        rw [hconn, hnil]
        exact ⟨fun _ => rfl, fun hno => absurd hno (not_or.2 ⟨hopen, id⟩)⟩
    | handled i d ready rest hbatch hconn =>
        rw [hconn, record_of_batch hbatch, decides_of_batch hbatch]
        refine ⟨fun hstate => ?_, ?_⟩
        · obtain ⟨hbefore, hfails⟩ := Connection.connected_handleEvent hstate
          rw [accepted_append, sent_append, List.append_assoc,
            Connection.stream_handleEvent hfails, ← List.append_assoc, h.stream c hbefore]
        · intro hclosing
          rcases hclosing with hclosed | ⟨hanswers, hfinal, hsend⟩
          · have hstate := h.closed c hclosed
            obtain ⟨hafter, haccepted, hsent⟩ :=
              Connection.handleEvent_of_not_connected hstate ready d file
            rw [accepted_append, sent_append, haccepted, hsent, h.whole c hclosed]
            exact ⟨hafter, rfl⟩
          · obtain ⟨hclosed, -, -⟩ := Connection.handleEvent_of_final hanswers hfinal file
            refine ⟨by rw [hclosed]; exact (fun hno => nomatch hno), ?_⟩
            rw [h.accepted_of_final hanswers hfinal]
            by_contra hcut
            have hmem : (c, ready) ∈ (t.server.loops i).batch.head? := by
              rw [hbatch]
              rfl
            exact hq (c, ready) hmem ⟨hanswers, hfinal, hsend, hcut⟩
    | same _ hstate hout hrecord hdecides =>
        have hquiet : accepted (t.server.record file c act) = [] ∧
            sent (t.server.record file c act) = [] := by
          rcases hrecord file with heq | ⟨-, heq⟩ <;> rw [heq] <;> exact ⟨rfl, rfl⟩
        rw [hstate, hout, accepted_append, sent_append, hquiet.1, hquiet.2, List.append_nil,
          List.append_nil]
        exact ⟨h.stream c, fun hclosed => ⟨h.closed c (hclosed.resolve_right hdecides),
          h.whole c (hclosed.resolve_right hdecides)⟩⟩
  exact ⟨fun c => (hboth c).1, fun c hc => ((hboth c).2 hc).1, fun c hc => ((hboth c).2 hc).2⟩

theorem Handed.cut (h : Handed t) {a : TracedAct n} (hq : ¬ t.AnswersWhole a)
    (hstep : t.step a = some t') : ¬ ∀ c, t'.closing c → accepted (t'.log c) = sent (t'.log c) := by
  obtain ⟨hserver, hlog, hclosing⟩ := of_step hstep
  obtain ⟨act, file⟩ := a
  intro hwhole
  cases act with
  | handle i d =>
      refine hq fun p hp ⟨hanswers, hfinal, hsend, hcut⟩ => hcut ?_
      obtain ⟨rest, hbatch⟩ := List.head?_eq_some_iff.1 hp
      have hc := hwhole p.1 ((hclosing p.1).2
        (.inr ((decides_of_batch hbatch d).2 ⟨hanswers, hfinal, hsend⟩)))
      rw [hlog, record_of_batch hbatch] at hc
      exact (h.accepted_of_final hanswers hfinal file).1 hc
  | _ => exact hq trivial

theorem handed_init : Handed ({} : Traced n) :=
  ⟨fun _ _ => rfl, (fun _ hno => nomatch hno), fun _ hno => nomatch hno⟩

/-- All that was passed to `Send` for a connection that the server has closed by its own decision
has been accepted, in every state of a run, exactly when each closing answer of the run is written
whole by its own `Send`. -/
theorem accepted_closing_iff (acts : List (TracedAct n)) :
    Lib.Always step (fun t => ∀ c, t.closing c → accepted (t.log c) = sent (t.log c)) {} acts ↔
      Lib.Each step AnswersWhole {} acts :=
  Lib.always_iff_each (fun t => Recorded t ∧ Handed t) (fun _ h => h.2.whole)
    (fun _ _ _ h hq hstep => ⟨h.1.step hstep, h.2.step h.1 hq hstep⟩)
    (fun _ _ _ h hq hstep => h.2.cut hq hstep) ⟨recorded_init, handed_init⟩ acts

/-- **Closing responses.** In a run in which each closing answer is written whole by its own
`Send`, all that was passed to `Send` for a connection that the server closes by its own decision
has been accepted when `ConnectionDestructor` runs for it. -/
theorem deliveredWhole_of_run {acts : List (TracedAct n)} (h : Lib.Each step AnswersWhole {} acts) :
    Lib.Always step (fun t => ∀ c, t.closing c → 0 < t.server.destructed c →
      accepted (t.log c) = sent (t.log c)) {} acts :=
  ((accepted_closing_iff acts).2 h).mono fun _ hwhole c hc _ => hwhole c hc

def closeRun (d : Dispatch) : List (TracedAct 0) :=
  let acts : List (Server.Act 0) := Server.establish ++
    [.poll Server.only [(0, ⟨true, false⟩)], .handle Server.only d, .call Server.only,
      .call Server.only, .mainToDo, .mainToDo, .mainToDo, .toDo Server.only, .toDo Server.only,
      .toDo Server.only]
  acts.map fun a => (a, [])

def closeReply (w : WriteResult) : Dispatch :=
  ⟨[], .eagain, .complete ⟨[chr 'x', chr 'y'], false, true⟩, w, .eagain⟩

theorem deliveredWhole_closeReply :
    Lib.Each step AnswersWhole {} (closeRun (closeReply (.accepted 2))) ∧
      Lib.Always step (fun t => ∀ c, t.closing c → 0 < t.server.destructed c →
        accepted (t.log c) = sent (t.log c)) {} (closeRun (closeReply (.accepted 2))) :=
  ⟨by decide, deliveredWhole_of_run (by decide)⟩

/-- The socket takes one of the two bytes, and nothing writes the other before the destructor. -/
theorem not_deliveredWhole_closeReply :
    ¬ Lib.Always step (fun t => ∀ c, t.closing c → 0 < t.server.destructed c →
      accepted (t.log c) = sent (t.log c)) {} (closeRun (closeReply (.accepted 1))) := by
  have hend : (Lib.runFrom step ({} : Traced 0) (closeRun (closeReply (.accepted 1)))).map
      (fun t => (t.closing 0, t.server.destructed 0, accepted (t.log 0), sent (t.log 0))) =
      some (true, 1, [chr 'x'], [chr 'x', chr 'y']) := by decide
  intro h
  obtain ⟨t, hall, ht⟩ := h.exists_end hend
  simp only [Prod.mk.injEq] at ht
  obtain ⟨hclosing, hdestructed, haccepted, hsent⟩ := ht
  have heq := hall 0 hclosing (by rw [hdestructed]; exact Nat.one_pos)
  rw [haccepted, hsent] at heq
  exact absurd heq (by decide)

end Traced

end CPlusServer

import CPlusServer.Http.KeepAlive
import CPlusServer.Net.HttpSession

/-!
# Whole requests on one connection

A client that sends one request at a time, each of which arrives in one read event. As
long as the process runs, what the callback sees of each of them depends on the request
that is read before it and on nothing else.
-/

namespace CPlusServer

structure WholeRead where
  request : Request
  results : List ReadResult
  chunks : List Bytes
  readEnd : ReadEnd
  reads : readCall results = some (chunks, readEnd)
  whole : chunks.flatten = request.print
  call : HttpCall

inductive ServiceAct
  | read (r : WholeRead)
  | writeReady (w : WriteResult)

structure HttpService (n : Nat) where
  session : HttpSession n
  given : List Request := []

namespace HttpService

variable {n : Nat} {p p' : HttpService n}

def Arrives (p : HttpService n) (r : WholeRead) : Prop :=
  p.session.conn.state = .connected ∧ r.readEnd = .eagain

instance (p : HttpService n) (r : WholeRead) : Decidable (p.Arrives r) :=
  inferInstanceAs (Decidable (_ ∧ _))

def goOn (session : HttpSession n) (a : HttpAct) : Option (HttpSession n) :=
  (session.step a).filter fun session => session.stopped.isNone

def step (p : HttpService n) : ServiceAct → Option (HttpService n)
  | .read r => (goOn p.session (.readReady r.results r.call)).map fun session =>
      { session := session
        given := if p.Arrives r then p.given ++ [r.request] else p.given }
  | .writeReady w => (goOn p.session (.writeReady w)).map fun session =>
      { p with session := session }

def fresh (fd : Nat) (loop : Fin (n + 1)) (channel : Channel) : HttpService n :=
  { session := HttpSession.fresh fd loop channel }

/-- The callback has been given the requests as each of them is parsed alone. -/
def Alone (p : HttpService n) : Prop := p.session.requests = p.given.map Request.value

def CoversIt (p : HttpService n) : ServiceAct → Prop
  | .read r => p.Arrives r → ∀ before ∈ p.given.getLast?, r.request.Covers before
  | .writeReady _ => True

/-! ## The context between two requests -/

def left (given : List Request) : HttpRequest := ((given.getLast?).map Request.value).getD {}

theorem left_concat (given : List Request) (r : Request) : left (given ++ [r]) = r.value := by
  unfold left
  rw [List.getLast?_concat]
  rfl

/-- A request is parsed as alone exactly when it covers the one before it. -/
theorem outcome_left_iff (given : List Request) (r : Request) :
    HttpContext.outcome ⟨.start, left given⟩ r.print = .returned ⟨.complete, r.value⟩ ↔
      ∀ before ∈ given.getLast?, r.Covers before := by
  unfold left
  cases given.getLast? with
  | none => exact iff_of_true r.outcome_print_fresh nofun
  | some before =>
      rw [Option.map_some, Option.getD_some, Request.outcome_after_iff]
      simp

theorem goOn_eq_some {s s' : HttpSession n} {a : HttpAct} (h : goOn s a = some s') :
    s.step a = some s' ∧ s'.stopped = none := by
  obtain ⟨hstep, hgoes⟩ := Option.filter_eq_some_iff.1 h
  exact ⟨hstep, Option.isNone_iff_eq_none.1 hgoes⟩

end HttpService

namespace HttpSession

variable {n : Nat} {s s' : HttpSession n} {call : HttpCall}

/-! ## One request -/

theorem step_readReady (hrun : s.stopped = none) {results : List ReadResult}
    {data : List Bytes × ReadEnd} (hreads : readCall results = some data) :
    s.step (.readReady results call) = s.listenClientMessage data call := by
  unfold step
  rw [hrun, if_neg (by decide)]
  dsimp only
  rw [hreads]
  rfl

theorem append_singleton_ne {α : Type} (xs : List α) (x : α) : xs ≠ xs ++ [x] := by
  intro h
  have hlength := congrArg List.length h
  rw [List.length_append, List.length_singleton] at hlength
  omega

theorem given_answer (s : HttpSession n) (verdict : Verdict) (w : WriteResult) :
    (s.answer verdict w).requests = s.requests ∧ (s.answer verdict w).context = s.context := by
  rcases answer_cases s verdict w with ⟨output, -, heq⟩ | heq
  · rw [heq]
    exact ⟨rfl, rfl⟩
  · rw [heq]
    exact ⟨rfl, rfl⟩

theorem given_refuse (s : HttpSession n) (w : WriteResult) :
    (s.refuse w).requests = s.requests := by
  obtain ⟨hrequests, -⟩ := given_answer s .badRequest w
  unfold refuse
  exact hrequests

theorem given_sendFile {response : HttpResponse} (h : s.sendFile call response = some s') :
    s'.requests = s.requests ∧ s'.context = s.context := by
  unfold sendFile at h
  split at h
  · cases h
    exact ⟨rfl, rfl⟩
  · obtain ⟨bytes, -, rfl⟩ := Option.map_eq_some_iff.1 h
    exact ⟨rfl, rfl⟩

theorem given_respond {response : HttpResponse} (h : s.respond call response = some s') :
    s'.requests = s.requests ∧ s'.context = s.context := by
  unfold respond at h
  obtain ⟨hrequests, hcontext⟩ := given_sendFile h
  obtain ⟨hrequests', hcontext'⟩ := given_answer { s with answers := s.answers ++ [response] }
    (.complete (response.reply (call.order response))) call.w
  rw [hrequests, hcontext, hrequests', hcontext']
  exact ⟨rfl, rfl⟩

theorem given_sendClientMessage (s : HttpSession n) (w : WriteResult) :
    (s.sendClientMessage w).requests = s.requests ∧
      (s.sendClientMessage w).context = s.context := by
  unfold sendClientMessage
  split <;> exact ⟨rfl, rfl⟩

/-- A request that is complete is given to the callback, unless something ends the process. -/
theorem onHttpReponse_given (hreponse : s.onHttpReponse call = some s') (hgoes : s'.stopped = none) :
    s'.requests = s.requests ++ [s.context.request] ∧ s'.context = s.context := by
  rcases onHttpReponse_cases hreponse with ⟨why, requests, rfl⟩ | ⟨response, -, hrespond⟩
  · cases hgoes
  · exact given_respond hrespond

theorem onHttpRequest_given_iff (hrequest : s.onHttpRequest call = some s')
    (hgoes : s'.stopped = none) (q : HttpRequest) :
    (s'.requests = s.requests ++ [q] ↔
      s.context.outcome s.conn.inputBuffer = .returned ⟨.complete, q⟩) ∧
      (s'.requests = s.requests ++ [q] → s'.context = ⟨.start, q⟩) := by
  unfold onHttpRequest at hrequest
  cases houtcome : s.context.outcome s.conn.inputBuffer with
  | hangs | overrun =>
      rw [houtcome] at hrequest
      cases hrequest
      cases hgoes
  | returned context =>
      rw [houtcome] at hrequest
      dsimp only at hrequest
      split at hrequest
      · split at hrequest
        · cases hrequest
          cases hgoes
        · split at hrequest
          · rename_i hcomplete
            obtain ⟨s₁, hreponse, rfl⟩ := Option.map_eq_some_iff.1 hrequest
            have hstate : context.state = .complete := of_decide_eq_true hcomplete
            obtain ⟨hrequests, hcontext⟩ := onHttpReponse_given hreponse hgoes
            dsimp only at hrequests hcontext ⊢
            rw [hrequests, hcontext, List.append_cancel_left_eq, List.singleton_inj]
            refine ⟨⟨fun hq => ?_, fun heq => ?_⟩, fun hq => ?_⟩
            · rw [← hq, ← hstate]
            · cases heq
              rfl
            · rw [← hq]
              rfl
          · rename_i hincomplete
            cases hrequest
            refine ⟨iff_of_false (append_singleton_ne _ _) fun hno => ?_,
              fun hno => absurd hno (append_singleton_ne _ _)⟩
            cases hno
            exact hincomplete rfl
      · rename_i hrejected
        obtain rfl := Option.some.inj hrequest
        rw [given_refuse]
        refine ⟨iff_of_false (append_singleton_ne _ _) fun hno => ?_,
          fun hno => absurd hno (append_singleton_ne _ _)⟩
        cases hno
        exact hrejected (.inl rfl)

end HttpSession

namespace HttpService

variable {n : Nat} {p p' : HttpService n}

/-! ## Runs -/

structure Ready (p : HttpService n) : Prop where
  running : p.session.stopped = none
  alone : p.Alone
  context : p.session.context = ⟨.start, left p.given⟩

theorem Ready.of_not_arrives (h : p.Ready) {r : WholeRead} (hno : ¬ p.Arrives r)
    (hstep : p.step (.read r) = some p') : p'.Ready := by
  obtain ⟨session, hgoes, rfl⟩ := Option.map_eq_some_iff.1 hstep
  obtain ⟨hsession, -⟩ := goOn_eq_some hgoes
  rw [HttpSession.step_readReady h.running r.reads] at hsession
  have hclosed : (p.session.conn.read r.chunks r.readEnd).1.state ≠ .connected :=
    fun hread => hno (Connection.connected_read hread)
  unfold HttpSession.listenClientMessage at hsession
  rw [if_pos hclosed] at hsession
  cases hsession
  rw [if_neg hno]
  exact ⟨h.running, h.alone, h.context⟩

/-- The handler finds exactly the request in its buffer. -/
theorem onHttpRequest_of_arrives (hrun : p.session.stopped = none) {r : WholeRead}
    (hread : p.Arrives r) (hstep : p.step (.read r) = some p') :
    { p.session with conn := { p.session.conn with inputBuffer := r.request.print } }.onHttpRequest
        r.call = some p'.session ∧ p'.session.stopped = none ∧
      p'.given = p.given ++ [r.request] := by
  obtain ⟨session, hgoes, rfl⟩ := Option.map_eq_some_iff.1 hstep
  obtain ⟨hsession, hrunning⟩ := goOn_eq_some hgoes
  rw [HttpSession.step_readReady hrun r.reads, hread.2] at hsession
  unfold HttpSession.listenClientMessage at hsession
  rw [Connection.read_of_eagain hread.1, if_neg (not_not_intro hread.1), r.whole] at hsession
  exact ⟨hsession, hrunning, if_pos hread⟩

/-- A request is given to the callback as it is parsed alone exactly when it covers
the one before. -/
theorem Ready.read_iff (h : p.Ready) {r : WholeRead} (hread : p.Arrives r)
    (hstep : p.step (.read r) = some p') :
    (p'.Alone ↔ ∀ before ∈ p.given.getLast?, r.request.Covers before) ∧ (p'.Alone → p'.Ready) := by
  obtain ⟨hrequest, hrunning, hgiven⟩ := onHttpRequest_of_arrives h.running hread hstep
  obtain ⟨hiff, hcontext⟩ := HttpSession.onHttpRequest_given_iff hrequest hrunning r.request.value
  have halone : p'.Alone ↔
      p'.session.requests = p.session.requests ++ [r.request.value] := by
    have hbefore := h.alone
    unfold Alone at hbefore ⊢
    rw [hgiven, List.map_append, hbefore]
    rfl
  have houtcome := outcome_left_iff p.given r.request
  rw [← h.context] at houtcome
  refine ⟨halone.trans (hiff.trans houtcome), fun h' => ⟨hrunning, h', ?_⟩⟩
  rw [hgiven, left_concat]
  exact hcontext (halone.1 h')

theorem Ready.step_iff (h : p.Ready) {a : ServiceAct} (hstep : p.step a = some p') :
    (p'.Alone ↔ p.CoversIt a) ∧ (p'.Alone → p'.Ready) := by
  cases a with
  | writeReady w =>
      obtain ⟨session, hgoes, rfl⟩ := Option.map_eq_some_iff.1 hstep
      obtain ⟨hsession, hrunning⟩ := goOn_eq_some hgoes
      unfold HttpSession.step at hsession
      rw [h.running, if_neg (by decide)] at hsession
      obtain rfl := Option.some.inj hsession
      obtain ⟨hrequests, hcontext⟩ := p.session.given_sendClientMessage w
      have hready : { p with session := p.session.sendClientMessage w }.Ready :=
        ⟨hrunning, hrequests.trans h.alone, hcontext.trans h.context⟩
      exact ⟨iff_of_true hready.alone trivial, fun _ => hready⟩
  | read r =>
      by_cases hread : p.Arrives r
      · obtain ⟨hiff, hready⟩ := h.read_iff hread hstep
        exact ⟨hiff.trans ⟨fun hcovers _ => hcovers, fun hall => hall hread⟩, hready⟩
      · have hready := h.of_not_arrives hread hstep
        exact ⟨iff_of_true hready.alone fun hno => absurd hno hread, fun _ => hready⟩

end HttpService

end CPlusServer

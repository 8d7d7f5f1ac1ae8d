import CPlusServer.Net.Requests

/-!
# Teardown of a connection

Nothing records that the removal of a connection is under way, so a second event
that closes it asks for the removal again. Where no connection meets a second
one, each is torn down once, and no `Errif` on the way can end the process.
-/

namespace CPlusServer

namespace Server

variable {n : Nat} {s s' : Server n}

/-! ## The invariant -/

/-- The handler that runs has asked for one removal at most, that of a connection of its loop. -/
def Calling (s : Server n) (i : Fin (n + 1)) (calls : List Removal) : Prop :=
  calls = [] ∨ ∃ c, (s.conns c).loop = i ∧ (calls = [.find c, .queue c] ∨ calls = [.queue c])

/-- Each connection is asked to be removed once at most, and timers are those of connections that
`connections_` has or had. -/
structure Teardown (s : Server n) : Prop where
  running : s.exited = none
  once : ∀ c, s.Once c
  calls : ∀ i, s.Calling i (s.loops i).calls
  timers : ∀ i, ∀ c ∈ (s.loops i).timers, (s.conns c).loop = i ∧ ¬ s.Early c
  mainTimers : ∀ c ∈ s.main.timers, ¬ s.Early c

theorem Once.not_early {c : Nat} (h : s.Once c) (hway : s.UnderWay c) : ¬ s.Early c := fun he =>
  absurd (h.unasked he) (Nat.ne_of_gt hway)

theorem Once.of_asking {c : Nat} (h : s.Once c) (hask : 0 < s.asking c) :
    s.asking c = 1 ∧ s.removing c = 0 ∧ s.erased c = 0 ∧ s.Mapped c := by
  have honce := h.once
  have hway : s.UnderWay c := by
    unfold UnderWay requests
    omega
  unfold requests at honce
  have hzero : s.erased c = 0 := by omega
  exact ⟨by omega, by omega, hzero, h.mapped (h.not_early hway) hzero⟩

/-- What a handler asks for is a connection of its loop, in `connections_`. -/
theorem Teardown.asking_of_call (h : Teardown s) {i : Fin (n + 1)} {c : Nat}
    (hcall : .find c ∈ (s.loops i).calls ∨ .queue c ∈ (s.loops i).calls) :
    (s.conns c).loop = i ∧ 0 < s.asking c := by
  rcases h.calls i with hnil | ⟨c', hloop, hcalls⟩
  · rw [hnil] at hcall
    exact absurd hcall (by simp)
  · have heq : c = c' := by
      rcases hcalls with hcalls | hcalls <;> simpa [hcalls] using hcall
    subst heq
    refine ⟨hloop, List.count_pos_iff.2 ?_⟩
    rw [hloop]
    rcases hcalls with hcalls | hcalls <;> simp [hcalls]

theorem Teardown.tornDownOnce (h : Teardown s) : TornDownOnce s := by
  refine ⟨h.running, fun c => ?_, fun i c hc => ?_⟩
  · have honce := (h.once c).once
    unfold requests erased at honce
    omega
  · exact ((h.once c).of_asking (h.asking_of_call (.inl hc)).2).2.2.2

theorem loops_setLoop_toDo (s : Server n) (i : Fin (n + 1)) (q : ToDo Nat) :
    ∀ j, ((s.setLoop i { s.loops i with toDo := q }).loops j).calls = (s.loops j).calls ∧
      ((s.setLoop i { s.loops i with toDo := q }).loops j).timers = (s.loops j).timers :=
  forall_setLoop (fun j l => l.calls = (s.loops j).calls ∧ l.timers = (s.loops j).timers)
    ⟨rfl, rfl⟩ fun _ => ⟨rfl, rfl⟩

theorem Teardown.of (h : Teardown s) (hrunning : s'.exited = none) (honce : ∀ c, s'.Once c)
    (hloops : ∀ i, (s'.loops i).calls = (s.loops i).calls ∧ (s'.loops i).timers = (s.loops i).timers)
    (hloop : ∀ c, ¬ s.Early c → (s'.conns c).loop = (s.conns c).loop)
    (hearly : ∀ c, s'.Early c → s.Early c) (htimers : ∀ c ∈ s'.main.timers, ¬ s.Early c) :
    Teardown s' := by
  refine ⟨hrunning, honce, fun i => ?_, fun i c hc => ?_, fun c hc he => htimers c hc (hearly c he)⟩
  · rw [(hloops i).1]
    refine (h.calls i).imp id fun ⟨c, hi, hcalls⟩ => ⟨c, ?_, hcalls⟩
    have hcall : .queue c ∈ (s.loops i).calls := by
      rcases hcalls with hcalls | hcalls <;> simp [hcalls]
    have hway : s.UnderWay c := by
      have hask := (h.asking_of_call (.inr hcall)).2
      unfold UnderWay requests
      omega
    rw [hloop c ((h.once c).not_early hway), hi]
  · rw [(hloops i).2] at hc
    rcases h.timers i c hc with ⟨hi, hlate⟩
    exact ⟨(hloop c hlate).trans hi, fun he => hlate (hearly c he)⟩

theorem Teardown.setLoop (h : Teardown s) {i : Fin (n + 1)} {l : IoLoop}
    (hcalls : s.Calling i l.calls)
    (hasks : ∀ c, l.calls.count (.queue c) ≤ (s.loops i).calls.count (.queue c) ∨
      ¬ s.UnderWay c ∧ ¬ s.Early c ∧ l.calls.count (.queue c) ≤ 1)
    (hpending : ∀ c, l.toDo.pending.count c = (s.loops i).toDo.pending.count c)
    (hbatch : ∀ c, s.Early c → ∀ p ∈ l.batch, p.1 = c → p.2 = ⟨false, false⟩)
    (htimers : ∀ c ∈ l.timers, (s.conns c).loop = i ∧ ¬ s.Early c) : Teardown (s.setLoop i l) := by
  refine ⟨h.running, fun c => (h.once c).setLoop (hasks c) (hpending c) (hbatch c), ?_, ?_,
    h.mainTimers⟩
  · exact forall_setLoop (fun j l => s.Calling j l.calls) hcalls h.calls
  · exact forall_setLoop (fun j l => ∀ c ∈ l.timers, (s.conns c).loop = j ∧ ¬ s.Early c) htimers
      h.timers

theorem Teardown.setMain (h : Teardown s) {m : MainLoop} (haccepting : m.accepting = s.main.accepting)
    (hpending : ∀ c, m.toDo.pending.count c ≤ s.main.toDo.pending.count c ∨
      ¬ s.UnderWay c ∧ ¬ s.Early c ∧ m.toDo.pending.count c ≤ 1)
    (htimers : ∀ c ∈ m.timers, ¬ s.Early c) : Teardown { s with main := m } := by
  refine h.of h.running (fun c => (h.once c).setMain haccepting (hpending c)) (fun _ => ⟨rfl, rfl⟩)
    (fun _ _ => rfl) ?_ htimers
  intro c he
  unfold Early at he ⊢
  rw [← haccepting]
  exact he

/-! ## The main loop -/

theorem Teardown.accept (h : Teardown s) (hl : Lifetime s) {fd : Nat}
    (hstep : s.accept fd = some s') : Teardown s' := by
  unfold Server.accept at hstep
  split at hstep
  · rename_i hguard
    rcases hguard with ⟨-, haccepting, -⟩
    cases hstep
    refine h.of h.running (fun c => ?_) (fun _ => ⟨rfl, rfl⟩) (fun c hlate => ?_) (fun c he => ?_)
      h.mainTimers
    · by_cases hne : c = s.created
      · rw [hne]
        exact (h.once _).construct_self hl fd
      · exact (h.once c).construct_of_ne hne haccepting
    · rw [conns_construct_of_ne fun hno => hlate (.inl (Nat.le_of_eq hno.symm))]
    · by_cases hne : c = s.created
      · exact .inl (Nat.le_of_eq hne.symm)
      · exact (early_construct hne haccepting).1.1 he
  · exact nomatch hstep

theorem Teardown.setAccepting (h : Teardown s) {c : Nat} {stage : Stage}
    {a : Option (Nat × Stage)} (hc : s.main.accepting = some (c, stage))
    (ha : ∀ p, a = some p → p.1 = c ∧ p.2 ≠ .constructed)
    (hback : a = some (c, .registered) → s.Early c)
    (hentry : a ≠ some (c, .registered) → s.Mapped c)
    (hepoll : s.destructed c = 0 → (s.conns c).channel.inEpoll = true) :
    Teardown { s with main := { s.main with accepting := a } } := by
  refine h.of h.running (fun c' => (h.once c').setAccepting hc ha hback hentry hepoll)
    (fun _ => ⟨rfl, rfl⟩) (fun _ _ => rfl) (fun c' he => ?_) h.mainTimers
  rcases he with he | he | he
  · exact .inl he
  · exact absurd rfl (ha _ he).2
  · obtain ⟨rfl, -⟩ := ha _ he
    exact hback he

theorem Teardown.setConn (h : Teardown s) {c : Nat} {x : Connection n}
    (hfd : x.fd = (s.conns c).fd) (hloop : x.loop = (s.conns c).loop)
    (hepoll : ¬ s.Raw c → s.destructed c = 0 → x.channel.inEpoll = true)
    (hquiet : s.Early c → x.channel.Quiet) : Teardown (s.setConn c x) := by
  refine h.of h.running (fun c' => ?_) (fun _ => ⟨rfl, rfl⟩) (fun c' _ => ?_) (fun _ he => he)
    h.mainTimers
  all_goals by_cases hne : c' = c
  · rw [hne]
    exact (h.once c).setConn_self hfd hloop hepoll hquiet
  · exact (h.once c').setConn_of_ne hne x
  · rw [hne, conns_setConn_self, hloop]
  · rw [conns_setConn_of_ne s x hne]

theorem accepted_late {c : Nat} {stage : Stage} (ho : Owned s)
    (hc : s.main.accepting = some (c, stage)) (h₁ : stage ≠ .constructed)
    (h₂ : stage ≠ .registered) : ¬ s.Early c := by
  intro he
  rcases he with he | he | he
  · exact absurd (ho.born c (.inr (.inl (accepting_of_stage hc)))) (not_lt.2 he)
  all_goals
    rw [hc] at he
    have hstage := congrArg Prod.snd (Option.some.inj he)
  · exact h₁ hstage
  · exact h₂ hstage

theorem Teardown.setChannel (h : Teardown s) (hl : Lifetime s) {c : Nat} {ch : Channel}
    {stage stage' : Stage} (hc : s.main.accepting = some (c, stage))
    (h₁ : stage ≠ .constructed) (h₂ : stage ≠ .registered)
    (hstage : stage' ≠ .constructed ∧ stage' ≠ .registered)
    (hepoll : (s.conns c).channel.inEpoll = true → ch.inEpoll = true) :
    Teardown ((s.setChannel c ch).setStage c stage') := by
  have hlate := accepted_late hl.owned hc h₁ h₂
  have hin : s.destructed c = 0 → ch.inEpoll = true := fun hno =>
    hepoll ((h.once c).inEpoll (fun hr => hlate hr.early) hno)
  have hconn : Teardown (s.setChannel c ch) :=
    h.setConn rfl rfl (fun _ => hin) fun he => absurd he hlate
  refine hconn.setAccepting hc (fun p hp => ?_) (fun hp => ?_) (fun _ => ?_) fun hno => ?_
  · cases hp
    exact ⟨rfl, hstage.1⟩
  · exact absurd (congrArg Prod.snd (Option.some.inj hp)) hstage.2
  · have hfd := @fd_setConn n s c { s.conns c with channel := ch } rfl c
    show s.connections ((s.setConn c { s.conns c with channel := ch }).conns c).fd = some c
    rw [hfd]
    exact hl.polled.late c stage hc h₁ h₂
  · show ((s.setConn c { s.conns c with channel := ch }).conns c).channel.inEpoll = true
    rw [conns_setConn_self]
    exact hin hno

theorem Teardown.insert (h : Teardown s) (ho : Owned s) {c : Nat}
    (hc : s.main.accepting = some (c, .registered)) : Teardown (s.insert c) := by
  have hfree := ho.early c (.inr hc)
  have hborn := ho.born c (.inr (.inl (accepting_of_stage hc)))
  have hentry : Teardown { s with
      connections := Function.update s.connections (s.conns c).fd (some c) } := by
    refine h.of h.running (fun c' => ?_) (fun _ => ⟨rfl, rfl⟩) (fun _ _ => rfl) (fun _ he => he)
      h.mainTimers
    exact (h.once c').of rfl rfl rfl rfl
      (fun he hno => Mapped.insert hfree ((h.once c').mapped he hno)) (h.once c').inEpoll id
      (h.once c').quiet
  refine hentry.setAccepting hc (fun p hp => ?_) (fun hp => ?_)
    (fun _ => s.mapped_insert_self c) fun hno => ?_
  · cases hp
    exact ⟨rfl, fun hno => nomatch hno⟩
  · exact nomatch congrArg Prod.snd (Option.some.inj hp)
  · refine (h.once c).inEpoll (fun hr => ?_) hno
    rcases hr with hr | hr
    · exact absurd hborn (not_lt.2 hr)
    · rw [hc] at hr
      exact nomatch congrArg Prod.snd (Option.some.inj hr)

theorem Teardown.newConnection (h : Teardown s) (hl : Lifetime s)
    (hstep : s.newConnection = some s') : Teardown s' := by
  unfold Server.newConnection at hstep
  split at hstep
  · exact nomatch hstep
  · rename_i c hc
    cases hstep
    have hearly : s.Early c := .inr (.inl hc)
    have hconn : Teardown (s.setChannel c (s.conns c).channel.useET) :=
      h.setConn rfl rfl (fun _ _ => rfl) fun he => ((h.once c).quiet he).useET
    refine hconn.setAccepting hc (fun p hp => ?_) (fun _ => hearly) (fun hno => absurd rfl hno) ?_
    · cases hp
      exact ⟨rfl, fun hno => nomatch hno⟩
    · intro _
      show ((s.setConn c _).conns c).channel.inEpoll = true
      rw [conns_setConn_self]
      rfl
  · rename_i c hc
    cases hstep
    exact h.insert hl.owned hc
  · rename_i c hc
    cases hstep
    exact h.setChannel hl hc (by decide) (by decide) (by decide) id
  · rename_i c hc
    cases hstep
    exact h.setChannel hl hc (by decide) (by decide) (by decide) fun _ => rfl
  · rename_i c hc
    cases hstep
    have hlate := accepted_late hl.owned hc (by decide) (by decide)
    have htimer : Teardown (s.setLoop (s.conns c).loop { s.loops (s.conns c).loop with
        timers := (s.loops (s.conns c).loop).timers ++ [c] }) := by
      refine h.setLoop (h.calls _) (fun _ => .inl (Nat.le_refl _)) (fun _ => rfl)
        (fun c' he => (h.once c').batch he _) fun c' hc' => ?_
      rcases List.mem_append.1 hc' with hc' | hc'
      · exact h.timers _ c' hc'
      · rw [List.mem_singleton.1 hc']
        exact ⟨rfl, hlate⟩
    refine htimer.setAccepting hc (fun p hp => nomatch hp) (fun hp => nomatch hp) (fun _ => ?_) ?_
    · exact hl.polled.late c _ hc (by decide) (by decide)
    · exact (h.once c).inEpoll fun hr => hlate hr.early

theorem Teardown.removeConnectionInLoop (h : Teardown s) (ho : Owned s) {c : Nat}
    (hfree : ¬ s.UnderWay c) (hlate : ¬ s.Early c) : Teardown (s.removeConnectionInLoop c) := by
  exact h.of h.running (fun c' => (h.once c).removeConnectionInLoop ho (h.once c') hfree hlate)
    (loops_setLoop_toDo _ _ _) (fun _ _ => rfl) (fun _ he => he) h.mainTimers

theorem Teardown.mainOverTime (h : Teardown s) (hl : Lifetime s) {c : Nat} {expired : Bool}
    (hq : s.ClosesOnce (.mainOverTime c expired)) (hstep : s.mainOverTime c expired = some s') :
    Teardown s' := by
  unfold Server.mainOverTime at hstep
  dsimp only at hstep
  split at hstep
  · rename_i hguard
    rcases hguard with ⟨-, -, hmem⟩
    have hlate := h.mainTimers c hmem
    have hrest : Teardown { s with main := { s.main with timers := s.main.timers.erase c } } :=
      h.setMain rfl (fun _ => .inl (Nat.le_refl _)) fun c' hc' =>
        h.mainTimers c' (List.mem_of_mem_erase hc')
    split at hstep
    · cases hstep
      exact hrest
    · rename_i halive
      split at hstep
      · cases hstep
        refine h.setMain rfl (fun _ => .inl (Nat.le_refl _)) fun c' hc' => ?_
        rcases List.mem_append.1 hc' with hc' | hc'
        · exact h.mainTimers c' (List.mem_of_mem_erase hc')
        · rw [List.mem_singleton.1 hc']
          exact hlate
      · rename_i hexpired
        have hfree := hq (Bool.eq_true_of_not_eq_false hexpired) (not_not.1 halive)
        have hmapped : s.Mapped c := by
          apply (h.once c).mapped hlate
          unfold UnderWay requests at hfree
          omega
        split at hstep
        · rename_i hnone
          unfold Mapped at hmapped
          rw [hnone] at hmapped
          exact nomatch hmapped
        · cases hstep
          have ho : Lifetime { s with main := { s.main with timers := s.main.timers.erase c } } :=
            hl.setMain rfl hl.polled.mainVector hl.polled.calm fun _ hx => alive_of_main hx
          exact hrest.removeConnectionInLoop ho.owned hfree hlate
  · exact nomatch hstep

theorem Teardown.mainToDo (h : Teardown s) (hl : Lifetime s) (hstep : s.mainToDo = some s') :
    Teardown s' := by
  unfold Server.mainToDo at hstep
  split at hstep
  · rename_i hcalling
    split at hstep
    · cases hstep
      refine h.setMain rfl (fun c => .inl (Nat.le_of_eq ?_)) h.mainTimers
      rw [ToDo.pending_swap (hl.polled.mainVector hcalling)]
    · exact nomatch hstep
  · rename_i hcalling
    split at hstep
    · rename_i hnext
      cases hstep
      refine h.setMain rfl (fun c => .inl (Nat.le_of_eq ?_)) h.mainTimers
      rw [ToDo.pending_finish hnext]
    · rename_i c hnext
      cases hstep
      have hpending := ToDo.pending_of_next hnext
      have honce := (h.once c).once
      have hremoving : s.removing c = s.main.toDo.advance.pending.count c + 1 := by
        unfold removing
        rw [hpending, List.count_cons_self]
      have hway : s.UnderWay c := by
        unfold UnderWay requests
        omega
      have hlate := (h.once c).not_early hway
      have hrest : Teardown { s with main := { s.main with toDo := s.main.toDo.advance } } := by
        refine h.setMain rfl (fun c' => .inl ?_) h.mainTimers
        rw [hpending]
        exact List.count_le_count_cons
      have ho : Lifetime { s with main := { s.main with toDo := s.main.toDo.advance } } :=
        hl.setMain rfl (fun hno => absurd hno hcalling) hl.polled.calm fun _ hx => alive_of_main hx
      refine hrest.removeConnectionInLoop ho.owned (fun hno => ?_) hlate
      have hleft : 0 < s.asking c + s.main.toDo.advance.pending.count c + s.erased c := hno
      unfold requests at honce
      omega

/-! ## The I/O loops -/

theorem Teardown.poll (h : Teardown s) {i : Fin (n + 1)} {batch : List (Nat × Ready)}
    (hstep : s.poll i batch = some s') : Teardown s' := by
  unfold Server.poll at hstep
  split at hstep
  · rename_i hguard
    rcases hguard with ⟨-, -, hreported⟩
    cases hstep
    refine h.setLoop (h.calls i) (fun _ => .inl (Nat.le_refl _)) (fun _ => rfl) ?_ (h.timers i)
    intro c he p hp heq
    obtain ⟨-, hmask⟩ := hreported p hp
    rw [heq] at hmask
    cases hreg : (s.conns c).channel.registered with
    | none =>
        rw [hreg] at hmask
        exact nomatch hmask
    | some mask =>
        rcases ((h.once c).quiet he).mask mask hreg with ⟨hread, hwrite⟩
        rw [hreg] at hmask
        rcases p with ⟨c', ready⟩
        cases ready
        simp_all [covers]
  · exact nomatch hstep

/-- The requests of a handler, each a lookup and a queueing. -/
theorem removals_of_asks (c : Nat) (es : List Effect) :
    removals c es = (List.replicate (Connection.asks es) [.find c, .queue c]).flatten := by
  induction es with
  | nil => rfl
  | cons e es ih =>
      unfold removals Connection.asks at ih ⊢
      rw [List.flatMap_cons, ih, List.count_cons]
      by_cases he : e = .removeConnection
      · subst he
        rfl
      · rw [if_neg he, if_neg (by simpa using he)]
        rfl

/-- Before its entry in `connections_`, an event does nothing to a connection. -/
theorem Once.handleEvent_of_early {i : Fin (n + 1)} {c : Nat} {ready : Ready} (h : s.Once c)
    (hmem : (c, ready) ∈ (s.loops i).batch) (he : s.Early c) (d : Dispatch) :
    (s.conns c).handleEvent ready d = (s.conns c, []) := by
  have hready : ready = ⟨false, false⟩ := h.batch he i _ hmem rfl
  rw [hready]
  rfl

/-- A dispatch asks for nothing, or once for a connection whose removal is not under way. -/
theorem Once.asks_handleEvent {i : Fin (n + 1)} {c : Nat} {ready : Ready} {d : Dispatch}
    (h : s.Once c) (hmem : (c, ready) ∈ (s.loops i).batch)
    (htwice : ¬ (s.conns c).ClosesTwice ready d)
    (hway : s.UnderWay c → ¬ (s.conns c).Closes ready d) :
    Connection.asks ((s.conns c).handleEvent ready d).2 = 0 ∨
      Connection.asks ((s.conns c).handleEvent ready d).2 = 1 ∧ ¬ s.UnderWay c ∧ ¬ s.Early c := by
  by_cases hbusy : s.UnderWay c
  · exact .inl (Connection.asks_handleEvent_of_not_closes (hway hbusy))
  · by_cases he : s.Early c
    · left
      rw [h.handleEvent_of_early hmem he]
      rfl
    · have hle := Connection.asks_handleEvent_le htwice
      rcases Nat.le_one_iff_eq_zero_or_eq_one.1 hle with hzero | hone
      · exact .inl hzero
      · exact .inr ⟨hone, hbusy, he⟩

theorem Teardown.handle (h : Teardown s) (hl : Lifetime s) {i : Fin (n + 1)} {d : Dispatch}
    (hq : s.ClosesOnce (.handle i d)) (hstep : s.handle i d = some s') : Teardown s' := by
  unfold Server.handle at hstep
  dsimp only at hstep
  split at hstep
  · exact nomatch hstep
  · rename_i c ready rest hbatch
    split at hstep
    · cases hstep
      obtain ⟨htwice, hway⟩ := hq (c, ready) (by rw [hbatch]; rfl)
      have hmem : (c, ready) ∈ (s.loops i).batch := by
        rw [hbatch]
        exact List.mem_cons_self
      have hloop : (s.conns c).loop = i := (hl.polled.batch i _ hmem).1
      have hkeeps := Connection.keeps_handleEvent (s.conns c) ready d
      have hasks := (h.once c).asks_handleEvent hmem htwice hway
      have hcalls := removals_of_asks c ((s.conns c).handleEvent ready d).2
      have hrest : Teardown (s.setLoop i { s.loops i with
          batch := rest, calls := removals c ((s.conns c).handleEvent ready d).2 }) := by
        refine h.setLoop ?_ (fun c' => ?_) (fun _ => rfl) (fun c' he p hp => ?_) (h.timers i)
        · rcases hasks with hzero | ⟨hone, -, -⟩
          · rw [hcalls, hzero]
            exact .inl rfl
          · rw [hcalls, hone]
            exact .inr ⟨c, hloop, .inl rfl⟩
        · rcases hasks with hzero | ⟨hone, hfree, hlate⟩
          · rw [hcalls, hzero]
            exact .inl (Nat.zero_le _)
          · rw [hcalls, hone]
            by_cases hne : c' = c
            · subst hne
              exact .inr ⟨hfree, hlate, by simp⟩
            · exact .inl (by simp [Ne.symm hne])
        · exact (h.once c').batch he i p (by rw [hbatch]; exact List.mem_cons_of_mem _ hp)
      refine hrest.setConn hkeeps.fd hkeeps.loop (fun hr hno => ?_) fun he => ?_
      · exact hkeeps.inEpoll ((h.once c).inEpoll hr hno)
      · rw [(h.once c).handleEvent_of_early hmem he]
        exact (h.once c).quiet he
    · exact nomatch hstep

theorem Calling.of_find {i : Fin (n + 1)} {c : Nat} {rest : List Removal}
    (h : s.Calling i (.find c :: rest)) : (s.conns c).loop = i ∧ rest = [.queue c] := by
  rcases h with hno | ⟨c', hloop, hshape | hshape⟩
  · exact nomatch hno
  · obtain ⟨hhead, hrest⟩ := List.cons.inj hshape
    cases hhead
    exact ⟨hloop, hrest⟩
  · exact nomatch (List.cons.inj hshape).1

theorem Calling.of_queue {i : Fin (n + 1)} {c : Nat} {rest : List Removal}
    (h : s.Calling i (.queue c :: rest)) : (s.conns c).loop = i ∧ rest = [] := by
  rcases h with hno | ⟨c', hloop, hshape | hshape⟩
  · exact nomatch hno
  · exact nomatch (List.cons.inj hshape).1
  · obtain ⟨hhead, hrest⟩ := List.cons.inj hshape
    cases hhead
    exact ⟨hloop, hrest⟩

theorem Teardown.find (h : Teardown s) {i : Fin (n + 1)} {c : Nat} {rest : List Removal}
    (hcalls : (s.loops i).calls = .find c :: rest) :
    s.Mapped c ∧ Teardown (s.setLoop i { s.loops i with calls := rest }) := by
  have hshape := h.calls i
  rw [hcalls] at hshape
  rcases hshape.of_find with ⟨hloop, rfl⟩
  have hmem : .find c ∈ (s.loops i).calls := by
    rw [hcalls]
    exact List.mem_cons_self
  refine ⟨((h.once c).of_asking (h.asking_of_call (.inl hmem)).2).2.2.2, ?_⟩
  refine h.setLoop (.inr ⟨c, hloop, .inr rfl⟩) (fun c' => .inl ?_) (fun _ => rfl)
    (fun c' he => (h.once c').batch he i) (h.timers i)
  rw [hcalls]
  exact List.count_le_count_cons

theorem Teardown.queue (h : Teardown s) {i : Fin (n + 1)} {c : Nat} {rest : List Removal}
    (hcalls : (s.loops i).calls = .queue c :: rest) :
    Teardown ({ s with main := { s.main with toDo := s.main.toDo.queueOneFunc c } }.setLoop i
      { s.loops i with calls := rest }) := by
  have hshape := h.calls i
  rw [hcalls] at hshape
  rcases hshape.of_queue with ⟨hloop, rfl⟩
  have hask : 0 < s.asking c := by
    unfold asking
    rw [hloop, hcalls]
    exact List.count_pos_iff.2 List.mem_cons_self
  rcases (h.once c).of_asking hask with ⟨-, hremoving, herased, -⟩
  have hlate : ¬ s.Early c := (h.once c).not_early (by unfold UnderWay requests; omega)
  have hdrop : Teardown (s.setLoop i { s.loops i with calls := [] }) :=
    h.setLoop (.inl rfl) (fun _ => .inl (Nat.zero_le _)) (fun _ => rfl)
      (fun c' he => (h.once c').batch he i) (h.timers i)
  have hfree : ¬ (s.setLoop i { s.loops i with calls := [] }).UnderWay c := by
    have hasking : (s.setLoop i { s.loops i with calls := [] }).asking c = 0 :=
      asking_setLoop hloop
    have hkept : (s.setLoop i { s.loops i with calls := [] }).erased c = s.erased c := by
      unfold erased
      rw [destroying_setLoop hloop, ← hloop]
      rfl
    have hwaiting : (s.setLoop i { s.loops i with calls := [] }).removing c = s.removing c := rfl
    unfold UnderWay requests
    omega
  refine hdrop.setMain rfl (fun c' => ?_) h.mainTimers
  rw [ToDo.pending_queueOneFunc, List.count_append]
  by_cases hne : c' = c
  · subst hne
    unfold removing at hremoving
    exact .inr ⟨hfree, hlate, by rw [List.count_singleton_self, hremoving]⟩
  · rw [List.count_eq_zero.2 fun hno => hne (List.mem_singleton.1 hno)]
    exact .inl (Nat.le_refl _)

theorem Teardown.call (h : Teardown s) {i : Fin (n + 1)} (hstep : s.call i = some s') :
    Teardown s' := by
  unfold Server.call at hstep
  dsimp only at hstep
  split at hstep
  · exact nomatch hstep
  · rename_i c rest hcalls
    rcases h.find hcalls with ⟨hmapped, hrest⟩
    split at hstep
    · rename_i hnone
      unfold Mapped at hmapped
      rw [hnone] at hmapped
      exact nomatch hmapped
    · cases hstep
      exact hrest
  · rename_i c rest hcalls
    cases hstep
    exact h.queue hcalls

theorem Teardown.overTime (h : Teardown s) {i : Fin (n + 1)} {c : Nat} {expired : Bool}
    (hq : s.ClosesOnce (.overTime i c expired)) (hstep : s.overTime i c expired = some s') :
    Teardown s' := by
  unfold Server.overTime at hstep
  dsimp only at hstep
  split at hstep
  · rename_i hguard
    obtain ⟨-, hidle, hmem⟩ := hguard
    rcases h.timers i c hmem with ⟨hloop, hlate⟩
    have htimers : ∀ c' ∈ (s.loops i).timers.erase c, (s.conns c').loop = i ∧ ¬ s.Early c' :=
      fun c' hc' => h.timers i c' (List.mem_of_mem_erase hc')
    have hrest : Teardown (s.setLoop i { s.loops i with timers := (s.loops i).timers.erase c }) :=
      h.setLoop (h.calls i) (fun _ => .inl (Nat.le_refl _)) (fun _ => rfl)
        (fun c' he => (h.once c').batch he i) htimers
    split at hstep
    · cases hstep
      exact hrest
    · rename_i halive
      split at hstep
      · cases hstep
        refine hrest.setMain rfl (fun _ => .inl (Nat.le_refl _)) fun c' hc' => ?_
        rcases List.mem_append.1 hc' with hc' | hc'
        · exact h.mainTimers c' hc'
        · rw [List.mem_singleton.1 hc']
          exact hlate
      · rename_i hexpired
        cases hstep
        have hfree := hq (Bool.eq_true_of_not_eq_false hexpired) (not_not.1 halive)
        refine h.setLoop (.inr ⟨c, hloop, .inl rfl⟩) (fun c' => ?_) (fun _ => rfl)
          (fun c' he => (h.once c').batch he i) htimers
        by_cases hne : c' = c
        · subst hne
          exact .inr ⟨hfree, hlate, by simp⟩
        · exact .inl (by simp [Ne.symm hne])
  · exact nomatch hstep

/-- `ConnectionDestructor` takes the place of the functor that has called it. -/
theorem Once.destructor {c c' : Nat} {i : Fin (n + 1)} (hc : s.Once c) (h : s.Once c')
    (hloop : (s.conns c).loop = i) (hnext : (s.loops i).toDo.next = some c) (ch : Channel) :
    (((s.counted c).setChannel c ch).setLoop i { s.loops i with
      toDo := (s.loops i).toDo.advance }).Once c' := by
  have hpending := ToDo.pending_of_next hnext
  by_cases hne : c' = c
  · subst hne
    have hconn : (((s.counted c').setChannel c' ch).conns c').loop = i := by
      unfold setChannel
      rw [conns_setConn_self]
      exact hloop
    generalize hend : (((s.counted c').setChannel c' ch).setLoop i { s.loops i with
      toDo := (s.loops i).toDo.advance }) = s'
    have hasking : s'.asking c' = s.asking c' := by
      rw [← hend, asking_setLoop hconn, ← hloop]
      rfl
    have hremoving : s'.removing c' = s.removing c' := by
      rw [← hend]
      rfl
    have hdestroying : s'.destroying c' + 1 = s.destroying c' := by
      rw [← hend, destroying_setLoop hconn]
      unfold destroying
      rw [hloop, hpending, List.count_cons_self]
    have hdestructed : s'.destructed c' = s.destructed c' + 1 := by
      rw [← hend]
      exact Function.update_self _ _ _
    have honce := h.once
    have hlate : ¬ s'.Early c' := by
      rw [← hend]
      exact h.not_early (by unfold UnderWay requests erased; omega)
    unfold requests erased at honce
    refine ⟨?_, fun _ hno => ?_, fun _ hno => absurd hno (by omega), fun he => absurd he hlate,
      fun he => absurd he hlate, fun he => absurd he hlate⟩
    · unfold requests erased
      omega
    · unfold erased at hno
      omega
  · have hcount : (s.counted c).Once c' :=
      h.of rfl rfl (Function.update_of_ne hne _ _) rfl h.mapped h.inEpoll id h.quiet
    refine (hcount.setConn_of_ne hne _).setLoop (.inl (Nat.le_refl _)) ?_ fun he => h.batch he i
    show (s.loops i).toDo.advance.pending.count c' = (s.loops i).toDo.pending.count c'
    rw [hpending, List.count_cons_of_ne (Ne.symm hne)]

theorem Teardown.destructor (h : Teardown s) (hl : Lifetime s) {i : Fin (n + 1)} {c : Nat}
    (hnext : (s.loops i).toDo.next = some c) :
    Teardown (if (s.connectionDestructor c).exited = none then
      (s.connectionDestructor c).setLoop i { s.loops i with toDo := (s.loops i).toDo.advance }
      else s.connectionDestructor c) := by
  have hloop := hl.polled.own i c (List.mem_append_left _ (List.mem_of_getElem? hnext))
  have hdestroying : 0 < s.destroying c := by
    unfold destroying
    rw [hloop, ToDo.pending_of_next hnext, List.count_cons_self]
    exact Nat.succ_pos _
  have honce := (h.once c).once
  have hlate : ¬ s.Early c := (h.once c).not_early (by unfold UnderWay requests erased; omega)
  unfold requests erased at honce
  have hin := (h.once c).inEpoll (fun hr => hlate hr.early) (by omega)
  rcases s.connectionDestructor_cases c with ⟨hno, -⟩ | ⟨-, ch, -, -, heq⟩
  · rw [hin] at hno
    exact nomatch hno
  · have hrunning : ((s.counted c).setChannel c ch).exited = none := h.running
    rw [heq, if_pos hrunning]
    refine h.of h.running (fun c' => (h.once c).destructor (h.once c') hloop hnext ch)
      (loops_setLoop_toDo _ _ _) (fun c' _ => ?_) (fun _ he => he) h.mainTimers
    show (((s.counted c).setConn c { s.conns c with channel := ch }).conns c').loop = _
    by_cases hne : c' = c
    · rw [hne, conns_setConn_self]
    · rw [conns_setConn_of_ne _ _ hne]
      rfl

theorem Teardown.toDo (h : Teardown s) (hl : Lifetime s) {i : Fin (n + 1)}
    (hstep : s.toDo i = some s') : Teardown s' := by
  unfold Server.toDo at hstep
  dsimp only at hstep
  split at hstep
  · exact nomatch hstep
  · rename_i hphase
    have hvector := hl.polled.vector i (by rw [hphase]; exact fun hno => nomatch hno)
    split at hstep
    · cases hstep
      refine h.setLoop (h.calls i) (fun _ => .inl (Nat.le_refl _)) (fun c => ?_)
        (fun c he => (h.once c).batch he i) (h.timers i)
      rw [ToDo.pending_swap hvector]
    · exact nomatch hstep
  · split at hstep
    · rename_i hnext
      cases hstep
      refine h.setLoop (h.calls i) (fun _ => .inl (Nat.le_refl _)) (fun c => ?_)
        (fun c he => (h.once c).batch he i) (h.timers i)
      rw [ToDo.pending_finish hnext]
    · rename_i c hnext
      cases hstep
      exact h.destructor hl hnext

/-! ## Runs -/

theorem Teardown.step (h : Teardown s) (hl : Lifetime s) {a : Act n} (hq : s.ClosesOnce a)
    (hstep : s.step a = some s') : Teardown s' := by
  unfold Server.step at hstep
  split at hstep
  · cases a with
    | accept fd => exact h.accept hl hstep
    | newConnection => exact h.newConnection hl hstep
    | mainOverTime c expired => exact h.mainOverTime hl hq hstep
    | mainToDo => exact h.mainToDo hl hstep
    | poll i batch => exact h.poll hstep
    | handle i d => exact h.handle hl hq hstep
    | call i => exact h.call hstep
    | overTime i c expired => exact h.overTime hq hstep
    | toDo i => exact h.toDo hl hstep
  · exact nomatch hstep

theorem teardown_init : Teardown ({} : Server n) := by
  refine ⟨rfl, fun c => ?_, fun _ => .inl rfl, fun _ _ hc => absurd hc List.not_mem_nil,
    fun _ hc => absurd hc List.not_mem_nil⟩
  have hraw : ({} : Server n).Raw c := .inl (Nat.zero_le c)
  refine ⟨Nat.zero_le 1, fun hno => absurd hraw.early hno, fun hno => absurd hraw hno, fun _ => rfl,
    fun _ => ⟨rfl, rfl, fun _ hno => nomatch hno⟩, fun _ _ _ hp => absurd hp List.not_mem_nil⟩

/-- **Teardown.** In a run in which no connection meets a second reason to close, every connection
is torn down once at most and no `Errif` ends the process. -/
theorem tornDownOnce_of_closesOnce {acts : List (Act n)} (h : Lib.Each step ClosesOnce {} acts) :
    Lib.Always step TornDownOnce {} acts := by
  have hinv : Lib.Always step (fun s : Server n => Lifetime s ∧ Teardown s) {} acts :=
    h.always (fun _ _ _ hs hq hstep => ⟨hs.1.step hstep, hs.2.step hs.1 hq hstep⟩)
      ⟨lifetime_init, teardown_init⟩
  exact hinv.mono fun _ hs => hs.2.tornDownOnce

def only : Fin (0 + 1) := 0

def establish : List (Act 0) :=
  [.accept 5, .newConnection, .newConnection, .newConnection, .newConnection, .newConnection]

def readEof : Dispatch := ⟨[], .eof, .incomplete, .accepted 0, .accepted 0⟩

def closingRun : List (Act 0) :=
  establish ++
    [.poll 0 [(0, ⟨true, false⟩)], .handle 0 readEof, .call 0, .call 0, .mainToDo, .mainToDo,
      .mainToDo, .toDo 0, .toDo 0, .toDo 0]

theorem tornDownOnce_closingRun :
    Lib.Each step ClosesOnce {} closingRun ∧ Lib.Always step TornDownOnce {} closingRun :=
  ⟨by decide, tornDownOnce_of_closesOnce (by decide)⟩

def sendStalls : Dispatch :=
  ⟨[], .eagain, .complete ⟨[chr 'x', chr 'y'], false, false⟩, .accepted 1, .eagain⟩

/-- The connection has output left when it becomes readable, at the end of the stream, and
writable at once. -/
def reclosingRun : List (Act 0) :=
  establish ++
    [.poll 0 [(0, ⟨true, false⟩)], .handle 0 sendStalls, .toDo 0, .toDo 0,
      .poll 0 [(0, ⟨true, true⟩)], .handle 0 readEof, .call 0, .call 0, .call 0, .call 0,
      .mainToDo, .mainToDo, .mainToDo, .mainToDo, .toDo 0, .toDo 0, .toDo 0]

/-- `ConnectionDestructor` runs twice, and the second call ends the process. -/
theorem not_tornDownOnce_reclosingRun : ¬ Lib.Always step TornDownOnce {} reclosingRun := by
  have hend : (Lib.runFrom step ({} : Server 0) reclosingRun).map Server.exited =
      some (some .notInEpoll) := by decide
  intro h
  obtain ⟨s, hall, hs⟩ := h.exists_end hend
  have hrunning := hall.running
  rw [hs] at hrunning
  exact nomatch hrunning

end Server

end CPlusServer

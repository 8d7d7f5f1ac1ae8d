import CPlusServer.Net.Closing
import CPlusServer.Net.Lifetime

/-!
# Requests for a removal

A request is with a handler, then queued on the main loop, then on the loop of
its connection, and last it has been served. Their number for one connection is
looked at here: what keeps it at one or less.
-/

namespace CPlusServer

namespace Channel

/-- Neither the mask in epoll nor the one to come asks for reading or writing. -/
structure Quiet (ch : Channel) : Prop where
  read : ch.listenEvents.read = false
  write : ch.listenEvents.write = false
  mask : ∀ mask, ch.registered = some mask → mask.read = false ∧ mask.write = false

theorem Quiet.useET {ch : Channel} (h : ch.Quiet) : ch.useET.Quiet := by
  refine ⟨h.read, h.write, fun mask hmask => ?_⟩
  cases hmask
  exact ⟨h.read, h.write⟩

end Channel

namespace Server

variable {n : Nat} {s s' : Server n}

/-! ## Requests for a removal -/

def asking (s : Server n) (c : Nat) : Nat := (s.loops (s.conns c).loop).calls.count (.queue c)

def removing (s : Server n) (c : Nat) : Nat := s.main.toDo.pending.count c

def destroying (s : Server n) (c : Nat) : Nat :=
  (s.loops (s.conns c).loop).toDo.pending.count c

def erased (s : Server n) (c : Nat) : Nat := s.destroying c + s.destructed c

def requests (s : Server n) (c : Nat) : Nat := s.asking c + s.removing c + s.erased c

def UnderWay (s : Server n) (c : Nat) : Prop := 0 < s.requests c

/-- The connection does not meet a second reason to close: not in this dispatch, and not when its
removal is under way. -/
def ClosesOnce (s : Server n) : Act n → Prop
  | .handle i d => ∀ p ∈ (s.loops i).batch.head?,
      ¬ (s.conns p.1).ClosesTwice p.2 d ∧ (s.UnderWay p.1 → ¬ (s.conns p.1).Closes p.2 d)
  | .overTime _ c expired | .mainOverTime c expired =>
      expired = true → s.Alive c → ¬ s.UnderWay c
  | _ => True

instance (s : Server n) (c : Nat) : Decidable (s.UnderWay c) :=
  inferInstanceAs (Decidable (_ < _))

instance (s : Server n) : ∀ a, Decidable (s.ClosesOnce a)
  | .handle _ _ => inferInstanceAs (Decidable (∀ p ∈ _, _))
  | .overTime _ _ _ | .mainOverTime _ _ => inferInstanceAs (Decidable (_ → _ → _))
  | .accept _ | .newConnection | .mainToDo | .poll _ _ | .call _ | .toDo _ => .isTrue trivial

/-- No `Errif` has ended the process, `ConnectionDestructor` has run at most once for each
connection, and `Server::RemoveConnection` is called for connections in `connections_` only. -/
structure TornDownOnce (s : Server n) : Prop where
  running : s.exited = none
  destructed : ∀ c, s.destructed c ≤ 1
  finds : ∀ i c, .find c ∈ (s.loops i).calls → s.Mapped c

/-! ## One request for each connection -/

def Early (s : Server n) (c : Nat) : Prop :=
  s.created ≤ c ∨ s.main.accepting = some (c, .constructed) ∨
    s.main.accepting = some (c, .registered)

def Raw (s : Server n) (c : Nat) : Prop :=
  s.created ≤ c ∨ s.main.accepting = some (c, .constructed)

/-- There is one request at most, and the connection is in `connections_` and in epoll until the
request gets there. Before its entry it has met no event. -/
structure Once (s : Server n) (c : Nat) : Prop where
  once : s.requests c ≤ 1
  mapped : ¬ s.Early c → s.erased c = 0 → s.Mapped c
  inEpoll : ¬ s.Raw c → s.destructed c = 0 → (s.conns c).channel.inEpoll = true
  unasked : s.Early c → s.requests c = 0
  quiet : s.Early c → (s.conns c).channel.Quiet
  batch : s.Early c → ∀ i, ∀ p ∈ (s.loops i).batch, p.1 = c → p.2 = ⟨false, false⟩

theorem Raw.early {c : Nat} (h : s.Raw c) : s.Early c := h.imp id .inl

theorem Once.of {c : Nat} (h : s.Once c) (hloops : s'.loops = s.loops)
    (htoDo : s'.main.toDo = s.main.toDo) (hdestructed : s'.destructed c = s.destructed c)
    (hloop : (s'.conns c).loop = (s.conns c).loop)
    (hmapped : ¬ s'.Early c → s.erased c = 0 → s'.Mapped c)
    (hepoll : ¬ s'.Raw c → s.destructed c = 0 → (s'.conns c).channel.inEpoll = true)
    (hearly : s'.Early c → s.Early c) (hquiet : s'.Early c → (s'.conns c).channel.Quiet) :
    s'.Once c := by
  have herased : s'.erased c = s.erased c := by
    unfold erased destroying
    rw [hloop, hloops, hdestructed]
  have hrequests : s'.requests c = s.requests c := by
    unfold requests asking removing
    rw [hloop, hloops, htoDo, herased]
  refine ⟨?_, fun he hno => ?_, fun hr hno => ?_, fun he => ?_, hquiet, fun he => ?_⟩
  · rw [hrequests]
    exact h.once
  · rw [herased] at hno
    exact hmapped he hno
  · rw [hdestructed] at hno
    exact hepoll hr hno
  · rw [hrequests]
    exact h.unasked (hearly he)
  · rw [hloops]
    exact h.batch (hearly he)

theorem asking_setLoop {c : Nat} {i : Fin (n + 1)} {l : IoLoop} (hi : (s.conns c).loop = i) :
    (s.setLoop i l).asking c = l.calls.count (.queue c) := by
  show ((s.setLoop i l).loops (s.conns c).loop).calls.count (.queue c) = _
  rw [hi, loops_setLoop_self]

theorem destroying_setLoop {c : Nat} {i : Fin (n + 1)} {l : IoLoop} (hi : (s.conns c).loop = i) :
    (s.setLoop i l).destroying c = l.toDo.pending.count c := by
  show ((s.setLoop i l).loops (s.conns c).loop).toDo.pending.count c = _
  rw [hi, loops_setLoop_self]

/-- A loop may drop requests, and it may take one for a connection that has none. -/
theorem Once.setLoop {c : Nat} (h : s.Once c) {i : Fin (n + 1)} {l : IoLoop}
    (hcalls : l.calls.count (.queue c) ≤ (s.loops i).calls.count (.queue c) ∨
      ¬ s.UnderWay c ∧ ¬ s.Early c ∧ l.calls.count (.queue c) ≤ 1)
    (hpending : l.toDo.pending.count c = (s.loops i).toDo.pending.count c)
    (hbatch : s.Early c → ∀ p ∈ l.batch, p.1 = c → p.2 = ⟨false, false⟩) :
    (s.setLoop i l).Once c := by
  have hdestroying : (s.setLoop i l).destroying c = s.destroying c := by
    by_cases hi : (s.conns c).loop = i
    · rw [destroying_setLoop hi, hpending, ← hi]
      rfl
    · show ((s.setLoop i l).loops (s.conns c).loop).toDo.pending.count c = _
      rw [loops_setLoop_of_ne s l hi]
      rfl
  have herased : (s.setLoop i l).erased c = s.erased c := congrArg (· + s.destructed c) hdestroying
  have hasking : (s.setLoop i l).asking c ≤ s.asking c ∨
      ¬ s.UnderWay c ∧ ¬ s.Early c ∧ (s.setLoop i l).asking c ≤ 1 := by
    by_cases hi : (s.conns c).loop = i
    · rw [asking_setLoop hi]
      rw [← hi] at hcalls
      exact hcalls
    · refine .inl (Nat.le_of_eq ?_)
      show ((s.setLoop i l).loops (s.conns c).loop).calls.count (.queue c) = _
      rw [loops_setLoop_of_ne s l hi]
      rfl
  have hremoving : (s.setLoop i l).removing c = s.removing c := rfl
  have honce := h.once
  unfold UnderWay at hasking
  unfold requests at honce hasking
  refine ⟨?_, fun he hno => ?_, h.inEpoll, fun he => ?_, h.quiet, fun he j p hp => ?_⟩
  · unfold requests
    omega
  · rw [herased] at hno
    exact h.mapped he hno
  · have hnone := h.unasked he
    have hle := hasking.resolve_right fun hno => hno.2.1 he
    unfold requests at hnone ⊢
    omega
  · by_cases hj : j = i
    · rw [hj, loops_setLoop_self] at hp
      exact hbatch he p hp
    · rw [loops_setLoop_of_ne s l hj] at hp
      exact h.batch he j p hp

theorem Once.setMain {c : Nat} (h : s.Once c) {m : MainLoop}
    (haccepting : m.accepting = s.main.accepting)
    (hpending : m.toDo.pending.count c ≤ s.main.toDo.pending.count c ∨
      ¬ s.UnderWay c ∧ ¬ s.Early c ∧ m.toDo.pending.count c ≤ 1) :
    ({ s with main := m } : Server n).Once c := by
  have hearly : ({ s with main := m } : Server n).Early c ↔ s.Early c := by
    unfold Early
    rw [haccepting]
  have hraw : ({ s with main := m } : Server n).Raw c ↔ s.Raw c := by
    unfold Raw
    rw [haccepting]
  have hasking : ({ s with main := m } : Server n).asking c = s.asking c := rfl
  have herased : ({ s with main := m } : Server n).erased c = s.erased c := rfl
  have hremoving : ({ s with main := m } : Server n).removing c ≤ s.removing c ∨
      ¬ s.UnderWay c ∧ ¬ s.Early c ∧ ({ s with main := m } : Server n).removing c ≤ 1 := hpending
  have honce := h.once
  unfold UnderWay at hremoving
  unfold requests at honce hremoving
  refine ⟨?_, fun he => h.mapped (hearly.not.1 he), fun hr => h.inEpoll (hraw.not.1 hr),
    fun he => ?_, fun he => h.quiet (hearly.1 he), fun he => h.batch (hearly.1 he)⟩
  · unfold requests
    omega
  · have hnone := h.unasked (hearly.1 he)
    have hle := hremoving.resolve_right fun hno => hno.2.1 (hearly.1 he)
    unfold requests at hnone ⊢
    omega

theorem Once.setConn_of_ne {c c' : Nat} (h : s.Once c') (hne : c' ≠ c) (x : Connection n) :
    (s.setConn c x).Once c' := by
  have hconn := conns_setConn_of_ne s x hne
  refine h.of rfl rfl rfl (by rw [hconn]) (fun he hno => ?_) (fun hr hno => ?_) id fun he => ?_
  · unfold Mapped
    rw [hconn]
    exact h.mapped he hno
  · rw [hconn]
    exact h.inEpoll hr hno
  · rw [hconn]
    exact h.quiet he

theorem Once.setConn_self {c : Nat} (h : s.Once c) {x : Connection n}
    (hfd : x.fd = (s.conns c).fd) (hloop : x.loop = (s.conns c).loop)
    (hepoll : ¬ s.Raw c → s.destructed c = 0 → x.channel.inEpoll = true)
    (hquiet : s.Early c → x.channel.Quiet) : (s.setConn c x).Once c := by
  have hconn := conns_setConn_self s c x
  refine h.of rfl rfl rfl (by rw [hconn, hloop]) (fun he hno => ?_) (fun hr hno => ?_) id fun he => ?_
  · unfold Mapped
    rw [hconn, hfd]
    exact h.mapped he hno
  · rw [hconn]
    exact hepoll hr hno
  · rw [hconn]
    exact hquiet he

theorem Once.setAccepting {c c' : Nat} {stage : Stage} {a : Option (Nat × Stage)} (h : s.Once c')
    (hc : s.main.accepting = some (c, stage)) (ha : ∀ p, a = some p → p.1 = c ∧ p.2 ≠ .constructed)
    (hback : a = some (c, .registered) → s.Early c)
    (hentry : a ≠ some (c, .registered) → s.Mapped c)
    (hepoll : s.destructed c = 0 → (s.conns c).channel.inEpoll = true) :
    ({ s with main := { s.main with accepting := a } } : Server n).Once c' := by
  have hother : ∀ stage', c' ≠ c → s.main.accepting ≠ some (c', stage') := by
    intro stage' hne hno
    rw [hc] at hno
    exact hne (congrArg Prod.fst (Option.some.inj hno)).symm
  have hearly : ({ s with main := { s.main with accepting := a } } : Server n).Early c' →
      s.Early c' := by
    intro he
    rcases he with he | he | he
    · exact .inl he
    · exact absurd rfl (ha _ he).2
    · rcases ha _ he with ⟨rfl, -⟩
      exact hback he
  refine h.of rfl rfl rfl rfl (fun he hno => ?_) (fun hr hno => ?_) hearly
    fun he => h.quiet (hearly he)
  · by_cases hne : c' = c
    · subst hne
      exact hentry fun hno => he (.inr (.inr hno))
    · refine h.mapped (fun hold => ?_) hno
      rcases hold with hold | hold | hold
      · exact he (.inl hold)
      · exact hother _ hne hold
      · exact hother _ hne hold
  · by_cases hne : c' = c
    · subst hne
      exact hepoll hno
    · refine h.inEpoll (fun hold => ?_) hno
      exact hold.elim (fun hold => hr (.inl hold)) (hother _ hne)

theorem count_queue_calls {c : Nat} (h : ¬ s.Alive c) (i : Fin (n + 1)) :
    (s.loops i).calls.count (.queue c) = 0 :=
  List.count_eq_zero.2 fun hmem => h (alive_of_loop (.inr (List.mem_map.2 ⟨_, hmem, rfl⟩)))

theorem count_toDo {c : Nat} (h : ¬ s.Alive c) (i : Fin (n + 1)) :
    (s.loops i).toDo.pending.count c = 0 :=
  List.count_eq_zero.2 fun hmem => h (alive_of_loop (.inl (ToDo.pending_subset_held _ hmem)))

theorem Once.construct_self (hl : Lifetime s) (h : s.Once s.created) (fd : Nat) :
    (s.construct fd).Once s.created := by
  have hdead : ¬ s.Alive s.created := fun hno => absurd (hl.owned.born _ hno) (Nat.lt_irrefl _)
  have hnone := h.unasked (.inl (Nat.le_refl _))
  unfold requests erased at hnone
  have hasking : (s.construct fd).asking s.created = 0 := count_queue_calls hdead _
  have hdestroying : (s.construct fd).destroying s.created = 0 := count_toDo hdead _
  have hremoving : (s.construct fd).removing s.created = s.removing s.created := rfl
  have hdestructed : (s.construct fd).destructed s.created = s.destructed s.created := rfl
  have hzero : (s.construct fd).requests s.created = 0 := by
    unfold requests erased
    omega
  have hraw : (s.construct fd).Raw s.created := .inr rfl
  refine ⟨by omega, fun hno => absurd hraw.early hno, fun hno => absurd hraw hno, fun _ => hzero,
    fun _ => ?_, fun _ i p hp heq => ?_⟩
  · rw [conns_construct_self]
    exact ⟨rfl, rfl, fun _ hno => nomatch hno⟩
  · have hreg := (hl.polled.batch i p hp).2
    rw [heq] at hreg
    exact absurd hreg (hl.polled.unborn _ (Nat.le_refl _))

theorem early_construct {fd c : Nat} (hne : c ≠ s.created) (haccepting : s.main.accepting = none) :
    ((s.construct fd).Early c ↔ s.Early c) ∧ ((s.construct fd).Raw c ↔ s.Raw c) := by
  have hold : ∀ stage, s.main.accepting ≠ some (c, stage) := by
    intro stage hno
    rw [haccepting] at hno
    exact nomatch hno
  have hnew : ∀ stage, (s.construct fd).main.accepting ≠ some (c, stage) := fun stage hno =>
    hne (congrArg Prod.fst (Option.some.inj hno)).symm
  have hborn : (s.construct fd).created ≤ c ↔ s.created ≤ c := by
    show s.created + 1 ≤ c ↔ s.created ≤ c
    omega
  unfold Early Raw
  simp [hold, hnew, hborn]

theorem Once.construct_of_ne {c fd : Nat} (h : s.Once c) (hne : c ≠ s.created)
    (haccepting : s.main.accepting = none) : (s.construct fd).Once c := by
  have hconn := @conns_construct_of_ne n s fd c hne
  rcases @early_construct n s fd c hne haccepting with ⟨hearly, hraw⟩
  refine h.of rfl rfl rfl (by rw [hconn]) (fun he hno => ?_) (fun hr hno => ?_) hearly.1 fun he => ?_
  · unfold Mapped
    rw [hconn]
    exact h.mapped (hearly.not.1 he) hno
  · rw [hconn]
    exact h.inEpoll (hraw.not.1 hr) hno
  · rw [hconn]
    exact h.quiet (hearly.1 he)

/-- The entry of a connection whose removal nothing else has asked for becomes a request of its
own loop. -/
theorem Once.removeConnectionInLoop {c c' : Nat} (ho : Owned s) (hc : s.Once c) (h : s.Once c')
    (hfree : ¬ s.UnderWay c) (hlate : ¬ s.Early c) : (s.removeConnectionInLoop c).Once c' := by
  have hzero : s.requests c = 0 := Nat.eq_zero_of_not_pos hfree
  have hmapped := hc.mapped hlate (by unfold requests at hzero; omega)
  by_cases hne : c' = c
  · subst hne
    have hdestroying : (s.removeConnectionInLoop c').destroying c' = s.destroying c' + 1 := by
      apply (destroying_setLoop rfl).trans
      rw [ToDo.pending_queueOneFunc, List.count_append, List.count_singleton_self]
      rfl
    have hasking : (s.removeConnectionInLoop c').asking c' = s.asking c' := asking_setLoop rfl
    have hremoving : (s.removeConnectionInLoop c').removing c' = s.removing c' := rfl
    have hdestructed : (s.removeConnectionInLoop c').destructed c' = s.destructed c' := rfl
    have hpast : (s.removeConnectionInLoop c').erased c' = s.erased c' + 1 := by
      unfold erased
      omega
    unfold requests at hzero
    refine ⟨?_, fun _ hno => ?_, h.inEpoll, fun he => absurd he hlate, fun he => absurd he hlate,
      fun he => absurd he hlate⟩
    · unfold requests
      omega
    · exact absurd hno (by omega)
  · have herase : ({ s with
        connections := Function.update s.connections (s.conns c).fd none } : Server n).Once c' := by
      refine h.of rfl rfl rfl rfl (fun he hno => ?_) h.inEpoll id h.quiet
      have hown := h.mapped he hno
      show Function.update s.connections (s.conns c).fd none (s.conns c').fd = some c'
      rw [Function.update_of_ne fun hfd => ?_]
      · exact hown
      · exact hne (ho.distinct c' c hown.alive hmapped.alive hfd)
    refine herase.setLoop (.inl (Nat.le_refl _)) ?_ fun he => h.batch he _
    rw [ToDo.pending_queueOneFunc, List.count_append,
      List.count_eq_zero.2 fun hno => hne (List.mem_singleton.1 hno)]
    rfl

end Server

end CPlusServer

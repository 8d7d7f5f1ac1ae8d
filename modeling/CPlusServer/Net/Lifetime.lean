import CPlusServer.Lib.Run
import CPlusServer.Net.Server

/-!
# Lifetime of a connection

A channel stays registered until `ConnectionDestructor` runs on its own loop,
after the batch, and up to then something holds the connection. Two connections
alive have different fds, so an entry of `connections_` is never another's.
-/

namespace CPlusServer

namespace Server

variable {n : Nat} {s s' : Server n}

/-! ## Ownership -/

/-- Entries are under their own fd, and what is held was accepted and has an fd of its own. -/
structure Owned (s : Server n) : Prop where
  keyed : ∀ fd c, s.connections fd = some c → (s.conns c).fd = fd
  born : ∀ c, s.Alive c → c < s.created
  distinct : ∀ c c', s.Alive c → s.Alive c' → (s.conns c).fd = (s.conns c').fd → c = c'
  early : ∀ c, s.main.accepting = some (c, .constructed) ∨ s.main.accepting = some (c, .registered) →
    s.connections (s.conns c).fd = none

/-- A step that brings no new holder: what is alive after it was alive before. -/
structure Shrinks (s s' : Server n) : Prop where
  created : s'.created = s.created
  fd : ∀ c, (s'.conns c).fd = (s.conns c).fd
  entries : ∀ fd c, s'.connections fd = some c → s.connections fd = some c
  alive : ∀ c, s'.Alive c → s.Alive c
  early : ∀ c, s'.main.accepting = some (c, .constructed) ∨
    s'.main.accepting = some (c, .registered) →
      s.main.accepting = some (c, .constructed) ∨ s.main.accepting = some (c, .registered)

theorem Owned.shrink (h : Owned s) (hs : Shrinks s s') : Owned s' := by
  refine ⟨fun fd c hc => ?_, fun c hc => ?_, fun c c' hc hc' heq => ?_, fun c hc => ?_⟩
  · rw [hs.fd]
    exact h.keyed fd c (hs.entries fd c hc)
  · rw [hs.created]
    exact h.born c (hs.alive c hc)
  · rw [hs.fd, hs.fd] at heq
    exact h.distinct c c' (hs.alive c hc) (hs.alive c' hc') heq
  · have hnone := h.early c (hs.early c hc)
    rw [hs.fd]
    cases hentry : s'.connections (s.conns c).fd with
    | none => rfl
    | some c' =>
        have hsome := hs.entries _ c' hentry
        rw [hnone] at hsome
        exact nomatch hsome

theorem Mapped.alive {c : Nat} (h : s.Mapped c) : s.Alive c := .inl h

theorem Owned.entry_eq (h : Owned s) {c c' : Nat} (hc : s.Alive c)
    (hentry : s.connections (s.conns c).fd = some c') : c' = c := by
  have hfd := h.keyed _ c' hentry
  have hmapped : s.Mapped c' := by
    unfold Mapped
    rw [hfd]
    exact hentry
  exact h.distinct c' c hmapped.alive hc hfd

/-! ## No new holder -/

theorem alive_of_loop {i : Fin (n + 1)} {c : Nat}
    (h : c ∈ (s.loops i).toDo.held ∨ c ∈ (s.loops i).calls.map Removal.conn) : s.Alive c :=
  .inr (.inr (.inr ⟨i, h⟩))

theorem accepting_of_stage {c : Nat} {stage : Stage} (hc : s.main.accepting = some (c, stage)) :
    s.Accepting c := by
  unfold Accepting
  rw [hc]
  rfl

theorem alive_of_main {c : Nat} (h : c ∈ s.main.toDo.held) : s.Alive c := .inr (.inr (.inl h))

theorem Shrinks.of (hcreated : s'.created = s.created)
    (hfd : ∀ c, (s'.conns c).fd = (s.conns c).fd)
    (hentries : ∀ fd c, s'.connections fd = some c → s.connections fd = some c)
    (haccepting : ∀ c stage, s'.main.accepting = some (c, stage) → s.main.accepting = some (c, stage))
    (hmain : ∀ c ∈ s'.main.toDo.held, s.Alive c)
    (hloops : ∀ i c, c ∈ (s'.loops i).toDo.held ∨ c ∈ (s'.loops i).calls.map Removal.conn →
      s.Alive c) : Shrinks s s' := by
  refine ⟨hcreated, hfd, hentries, fun c hc => ?_, fun c hc => ?_⟩
  · rcases hc with hc | hc | hc | ⟨i, hc⟩
    · unfold Mapped at hc
      rw [hfd] at hc
      exact .inl (hentries _ c hc)
    · rcases Option.map_eq_some_iff.1 hc with ⟨p, hp, hpc⟩
      rcases p with ⟨c', stage⟩
      refine .inr (.inl ?_)
      unfold Accepting
      rw [haccepting c' stage hp]
      exact congrArg some hpc
    · exact hmain c hc
    · exact hloops i c hc
  · exact hc.imp (haccepting c _) (haccepting c _)

theorem shrinks_setLoop {i : Fin (n + 1)} {l : IoLoop} (htoDo : ∀ c ∈ l.toDo.held, s.Alive c)
    (hcalls : ∀ c ∈ l.calls.map Removal.conn, s.Alive c) : Shrinks s (s.setLoop i l) := by
  refine .of rfl (fun _ => rfl) (fun _ _ h => h) (fun _ _ h => h)
    (fun c hc => @alive_of_main n s c hc) ?_
  intro j c hc
  unfold setLoop at hc
  by_cases hj : j = i
  · subst hj
    simp only [Function.update_self] at hc
    exact hc.elim (htoDo c) (hcalls c)
  · simp only [Function.update_of_ne hj] at hc
    exact alive_of_loop hc

theorem fd_setConn {c : Nat} {x : Connection n} (hx : x.fd = (s.conns c).fd) (c' : Nat) :
    ((s.setConn c x).conns c').fd = (s.conns c').fd := by
  unfold setConn
  by_cases hc : c' = c
  · subst hc
    simp only [Function.update_self]
    exact hx
  · simp only [Function.update_of_ne hc]

theorem shrinks_setConn {c : Nat} {x : Connection n} (hx : x.fd = (s.conns c).fd) :
    Shrinks s (s.setConn c x) :=
  .of rfl (fd_setConn hx) (fun _ _ h => h) (fun _ _ h => h) (fun c hc => @alive_of_main n s c hc)
    fun i c hc => @alive_of_loop n s i c hc

theorem shrinks_removeConnectionInLoop {c : Nat} (hc : s.Alive c) :
    Shrinks s (s.removeConnectionInLoop c) := by
  refine .of rfl (fun _ => rfl) ?_ (fun _ _ h => h) (fun c hc => @alive_of_main n s c hc) ?_
  · intro fd c' hentry
    unfold removeConnectionInLoop setLoop at hentry
    by_cases hfd : fd = (s.conns c).fd
    · subst hfd
      simp at hentry
    · simpa [Function.update_of_ne hfd] using hentry
  · intro j c' hc'
    unfold removeConnectionInLoop setLoop at hc'
    by_cases hj : j = (s.conns c).loop
    · subst hj
      simp only [Function.update_self, ToDo.held_queueOneFunc, List.mem_append,
        List.mem_singleton] at hc'
      rcases hc' with (hc' | hc') | hc'
      · exact alive_of_loop (.inl hc')
      · rw [hc']
        exact hc
      · exact alive_of_loop (.inr hc')
    · simp only [Function.update_of_ne hj] at hc'
      exact alive_of_loop hc'

/-! ## Registration -/

def Registered (s : Server n) (c : Nat) : Prop := (s.conns c).channel.registered ≠ none

/-- A registered connection is held until its destructor has run, and a batch consists of
registered connections of its loop. -/
structure Polled (s : Server n) : Prop where
  unborn : ∀ c, s.created ≤ c → ¬ s.Registered c
  late : ∀ c stage, s.main.accepting = some (c, stage) → stage ≠ .constructed →
    stage ≠ .registered → s.Mapped c
  held : ∀ c, s.Registered c → s.Mapped c ∨ s.main.accepting = some (c, .registered) ∨
    c ∈ (s.loops (s.conns c).loop).toDo.pending
  batch : ∀ i, ∀ p ∈ (s.loops i).batch, (s.conns p.1).loop = i ∧ s.Registered p.1
  nodup : ∀ i, ((s.loops i).batch.map Prod.fst).Nodup
  idle : ∀ i, (s.loops i).phase ≠ .batch → (s.loops i).batch = []
  own : ∀ i, ∀ c ∈ (s.loops i).toDo.held, (s.conns c).loop = i
  vector : ∀ i, (s.loops i).phase ≠ .functors → (s.loops i).toDo.functors = []
  mainVector : s.main.callingFunctors = false → s.main.toDo.functors = []
  calm : s.main.callingFunctors = true → s.main.accepting = none

theorem Polled.alive (h : Polled s) {c : Nat} (hc : s.Registered c) : s.Alive c := by
  rcases h.held c hc with hc | hc | hc
  · exact .inl hc
  · exact .inr (.inl (accepting_of_stage hc))
  · exact alive_of_loop (.inl (ToDo.pending_subset_held _ hc))

theorem loops_setLoop_self (s : Server n) (i : Fin (n + 1)) (l : IoLoop) :
    (s.setLoop i l).loops i = l := by
  unfold setLoop
  exact Function.update_self i l s.loops

theorem loops_setLoop_of_ne (s : Server n) {i j : Fin (n + 1)} (l : IoLoop) (h : j ≠ i) :
    (s.setLoop i l).loops j = s.loops j := by
  unfold setLoop
  exact Function.update_of_ne h l s.loops

/-- What holds of the new loop and of all others holds of all. -/
theorem forall_setLoop (P : Fin (n + 1) → IoLoop → Prop) {i : Fin (n + 1)} {l : IoLoop} (hi : P i l)
    (hrest : ∀ j, P j (s.loops j)) (j : Fin (n + 1)) : P j ((s.setLoop i l).loops j) := by
  by_cases hj : j = i
  · subst hj
    rw [loops_setLoop_self]
    exact hi
  · rw [loops_setLoop_of_ne s l hj]
    exact hrest j

structure LoopKept (s : Server n) (i : Fin (n + 1)) (l : IoLoop) : Prop where
  pending : ∀ c ∈ (s.loops i).toDo.pending, s.Registered c → c ∈ l.toDo.pending
  batch : ∀ p ∈ l.batch, (s.conns p.1).loop = i ∧ s.Registered p.1
  nodup : (l.batch.map Prod.fst).Nodup
  idle : l.phase ≠ .batch → l.batch = []
  own : ∀ c ∈ l.toDo.held, (s.conns c).loop = i
  vector : l.phase ≠ .functors → l.toDo.functors = []

theorem Polled.setLoop (h : Polled s) {i : Fin (n + 1)} {l : IoLoop} (hl : LoopKept s i l) :
    Polled (s.setLoop i l) := by
  refine ⟨h.unborn, h.late, fun c hc => ?_,
    forall_setLoop (fun j l => ∀ p ∈ l.batch, (s.conns p.1).loop = j ∧ s.Registered p.1)
      hl.batch h.batch,
    forall_setLoop (fun _ l => (l.batch.map Prod.fst).Nodup) hl.nodup h.nodup,
    forall_setLoop (fun _ l => l.phase ≠ .batch → l.batch = []) hl.idle h.idle,
    forall_setLoop (fun j l => ∀ c ∈ l.toDo.held, (s.conns c).loop = j) hl.own h.own,
    forall_setLoop (fun _ l => l.phase ≠ .functors → l.toDo.functors = []) hl.vector h.vector,
    h.mainVector, h.calm⟩
  refine (h.held c hc).imp id (Or.imp id fun hpending => ?_)
  show c ∈ ((s.setLoop i l).loops (s.conns c).loop).toDo.pending
  by_cases hj : (s.conns c).loop = i
  · rw [hj, loops_setLoop_self]
    rw [hj] at hpending
    exact hl.pending c hpending hc
  · rw [loops_setLoop_of_ne s l hj]
    exact hpending

theorem Polled.setMain (h : Polled s) {m : MainLoop} (haccepting : m.accepting = s.main.accepting)
    (hvector : m.callingFunctors = false → m.toDo.functors = [])
    (hcalm : m.callingFunctors = true → m.accepting = none) :
    Polled { s with main := m } := by
  refine ⟨h.unborn, ?_, ?_, h.batch, h.nodup, h.idle, h.own, h.vector, hvector, hcalm⟩
  · intro c stage hstage
    rw [haccepting] at hstage
    exact h.late c stage hstage
  · intro c hc
    refine (h.held c hc).imp id (Or.imp (fun hacc => ?_) id)
    exact haccepting.trans hacc

/-! ## `NewConnection` -/

theorem conns_construct_self (s : Server n) (fd : Nat) :
    (s.construct fd).conns s.created = { fd := fd, loop := s.nextLoop } := by
  unfold construct
  exact Function.update_self _ _ _

theorem conns_construct_of_ne {fd c : Nat} (h : c ≠ s.created) :
    (s.construct fd).conns c = s.conns c := by
  unfold construct
  exact Function.update_of_ne h _ _

theorem alive_construct {fd c : Nat} (hc : c ≠ s.created) (h : (s.construct fd).Alive c) :
    s.Alive c := by
  rcases h with h | h | h | h
  · unfold Mapped at h
    rw [conns_construct_of_ne hc] at h
    exact .inl h
  · exact absurd (Option.some.inj h).symm hc
  · exact .inr (.inr (.inl h))
  · exact .inr (.inr (.inr h))

theorem Owned.mapped (h : Owned s) {fd c : Nat} (hentry : s.connections fd = some c) :
    s.Mapped c := by
  unfold Mapped
  rw [h.keyed fd c hentry]
  exact hentry

theorem Owned.ne_created (h : Owned s) {c : Nat} (hc : s.Alive c) : c ≠ s.created :=
  Nat.ne_of_lt (h.born c hc)

theorem Owned.construct (h : Owned s) {fd : Nat}
    (hfresh : ∀ c < s.created, s.Alive c → (s.conns c).fd ≠ fd) : Owned (s.construct fd) := by
  have hfd : ∀ c, (s.construct fd).Alive c → c ≠ s.created →
      ((s.construct fd).conns c).fd ≠ fd := by
    intro c hc hne
    have halive := alive_construct hne hc
    rw [conns_construct_of_ne hne]
    exact hfresh c (h.born c halive) halive
  refine ⟨fun fd' c hc => ?_, fun c hc => ?_, fun c c' hc hc' heq => ?_, fun c hc => ?_⟩
  · rw [conns_construct_of_ne (h.ne_created (h.mapped hc).alive)]
    exact h.keyed fd' c hc
  · show c < s.created + 1
    by_cases hne : c = s.created
    · omega
    · have hlt := h.born c (alive_construct hne hc)
      omega
  · by_cases hne : c = s.created <;> by_cases hne' : c' = s.created
    · rw [hne, hne']
    · refine absurd ?_ (hfd c' hc' hne')
      rw [← heq, hne, conns_construct_self]
    · refine absurd ?_ (hfd c hc hne)
      rw [heq, hne', conns_construct_self]
    · rw [conns_construct_of_ne hne, conns_construct_of_ne hne'] at heq
      exact h.distinct c c' (alive_construct hne hc) (alive_construct hne' hc') heq
  · have hnew : c = s.created := by
      rcases hc with hc | hc
      · exact (congrArg Prod.fst (Option.some.inj hc)).symm
      · exact nomatch (congrArg Prod.snd (Option.some.inj hc))
    rw [hnew, conns_construct_self]
    show s.connections fd = none
    cases hentry : s.connections fd with
    | none => rfl
    | some c' =>
        have hmapped := (h.mapped hentry).alive
        exact absurd (h.keyed fd c' hentry) (hfresh c' (h.born c' hmapped) hmapped)

theorem Polled.construct (h : Polled s) (ho : Owned s) {fd : Nat}
    (hcalling : s.main.callingFunctors = false) (haccepting : s.main.accepting = none) :
    Polled (s.construct fd) := by
  have hnew : ¬ (s.construct fd).Registered s.created := by
    unfold Registered
    rw [conns_construct_self]
    exact fun hno => hno rfl
  have hold : ∀ c, (s.construct fd).Registered c → c ≠ s.created ∧ s.Registered c := by
    intro c hc
    have hne : c ≠ s.created := fun heq => hnew (by rw [← heq]; exact hc)
    unfold Registered at hc
    rw [conns_construct_of_ne hne] at hc
    exact ⟨hne, hc⟩
  refine ⟨fun c hc hreg => ?_, fun c stage hc hfirst => ?_, fun c hc => ?_, fun i p hp => ?_,
    h.nodup, h.idle, fun i c hc => ?_, h.vector, fun _ => h.mainVector hcalling, fun hc => ?_⟩
  · exact h.unborn c (Nat.le_of_succ_le hc) (hold c hreg).2
  · exact absurd (congrArg Prod.snd (Option.some.inj hc)).symm hfirst
  · obtain ⟨hne, hreg⟩ := hold c hc
    unfold Mapped
    rw [conns_construct_of_ne hne]
    rcases h.held c hreg with hheld | hheld | hheld
    · exact .inl hheld
    · rw [haccepting] at hheld
      exact nomatch hheld
    · exact .inr (.inr hheld)
  · rcases h.batch i p hp with ⟨hloop, hreg⟩
    have hne := ho.ne_created (h.alive hreg)
    unfold Registered
    rw [conns_construct_of_ne hne]
    exact ⟨hloop, hreg⟩
  · rw [conns_construct_of_ne (ho.ne_created (alive_of_loop (.inl hc)))]
    exact h.own i c hc
  · change s.main.callingFunctors = true at hc
    rw [hcalling] at hc
    exact nomatch hc

theorem conns_setConn_self (s : Server n) (c : Nat) (x : Connection n) :
    (s.setConn c x).conns c = x := by
  unfold setConn
  exact Function.update_self c x s.conns

theorem conns_setConn_of_ne (s : Server n) {c c' : Nat} (x : Connection n) (h : c' ≠ c) :
    (s.setConn c x).conns c' = s.conns c' := by
  unfold setConn
  exact Function.update_of_ne h x s.conns

/-- A connection may change while it is held, and leave epoll when it is in no batch. -/
theorem Polled.setConn (h : Polled s) {c : Nat} {x : Connection n}
    (hfd : x.fd = (s.conns c).fd) (hloop : x.loop = (s.conns c).loop) (hborn : c < s.created)
    (hheld : x.channel.registered ≠ none → s.Mapped c ∨ s.main.accepting = some (c, .registered) ∨
      c ∈ (s.loops (s.conns c).loop).toDo.pending)
    (hbatch : ∀ i, ∀ p ∈ (s.loops i).batch, p.1 = c → x.channel.registered ≠ none) :
    Polled (s.setConn c x) := by
  have hfds := fd_setConn hfd
  have hloops : ∀ c', ((s.setConn c x).conns c').loop = (s.conns c').loop := by
    intro c'
    by_cases hc : c' = c
    · rw [hc, conns_setConn_self]
      exact hloop
    · rw [conns_setConn_of_ne s x hc]
  have hmapped : ∀ c', s.Mapped c' → (s.setConn c x).Mapped c' := by
    intro c' hc'
    unfold Mapped
    rw [hfds]
    exact hc'
  have hreg : ∀ c', c' ≠ c → ((s.setConn c x).Registered c' ↔ s.Registered c') := by
    intro c' hc'
    unfold Registered
    rw [conns_setConn_of_ne s x hc']
  refine ⟨fun c' hc' hr => ?_, fun c' stage hc' h₁ h₂ => hmapped c' (h.late c' stage hc' h₁ h₂),
    fun c' hr => ?_, fun i p hp => ?_, h.nodup, h.idle, fun i c' hc' => ?_, h.vector, h.mainVector,
    h.calm⟩
  · have hne : c' ≠ c := fun heq => absurd hborn (not_lt.2 (by rw [← heq]; exact hc'))
    exact h.unborn c' hc' ((hreg c' hne).1 hr)
  · rw [hloops]
    by_cases hc' : c' = c
    · subst hc'
      unfold Registered at hr
      rw [conns_setConn_self] at hr
      exact (hheld hr).imp (hmapped c') id
    · exact (h.held c' ((hreg c' hc').1 hr)).imp (hmapped c') id
  · rcases h.batch i p hp with ⟨hi, hr⟩
    rw [hloops]
    refine ⟨hi, ?_⟩
    by_cases hc : p.1 = c
    · unfold Registered
      rw [hc, conns_setConn_self]
      exact hbatch i p hp hc
    · exact (hreg p.1 hc).2 hr
  · rw [hloops]
    exact h.own i c' hc'

theorem Polled.setStage (h : Polled s) {c : Nat} {stage stage' : Stage}
    (hc : s.main.accepting = some (c, stage)) (hfirst : stage ≠ .registered)
    (hlate : stage' ≠ .constructed → stage' ≠ .registered → s.Mapped c) :
    Polled (s.setStage c stage') := by
  refine ⟨h.unborn, fun c' stage'' hc' h₁ h₂ => ?_, fun c' hr => ?_, h.batch, h.nodup, h.idle,
    h.own, h.vector, h.mainVector, fun hcalling => ?_⟩
  · obtain ⟨rfl, rfl⟩ := Prod.mk.inj (Option.some.inj hc')
    exact hlate h₁ h₂
  · rcases h.held c' hr with hheld | hheld | hheld
    · exact .inl hheld
    · rw [hc] at hheld
      exact absurd (congrArg Prod.snd (Option.some.inj hheld)) hfirst
    · exact .inr (.inr hheld)
  · rw [h.calm hcalling] at hc
    exact nomatch hc

theorem shrinks_setStage {c : Nat} {stage stage' : Stage}
    (hc : s.main.accepting = some (c, stage))
    (hearly : stage' = .constructed ∨ stage' = .registered →
      stage = .constructed ∨ stage = .registered) : Shrinks s (s.setStage c stage') := by
  refine ⟨rfl, fun _ => rfl, fun _ _ h => h, fun c' hc' => ?_, fun c' hc' => ?_⟩
  · refine hc'.imp id (Or.imp (fun hacc => ?_) id)
    unfold Accepting
    rw [hc]
    exact hacc
  · have hstage : c = c' ∧ (stage' = .constructed ∨ stage' = .registered) := by
      rcases hc' with hc' | hc'
      · rcases Prod.mk.inj (Option.some.inj hc') with ⟨hcc, hs⟩
        exact ⟨hcc, .inl hs⟩
      · rcases Prod.mk.inj (Option.some.inj hc') with ⟨hcc, hs⟩
        exact ⟨hcc, .inr hs⟩
    obtain ⟨rfl, hs⟩ := hstage
    rcases hearly hs with hs | hs
    · exact .inl (by rw [hc, hs])
    · exact .inr (by rw [hc, hs])

def insert (s : Server n) (c : Nat) : Server n :=
  { s with connections := Function.update s.connections (s.conns c).fd (some c) }.setStage c
    .inserted

theorem mapped_insert_self (s : Server n) (c : Nat) : (s.insert c).Mapped c := by
  unfold Mapped
  exact Function.update_self (s.conns c).fd (some c) s.connections

theorem connections_insert {c c' fd : Nat} (h : (s.insert c).connections fd = some c') :
    c' = c ∧ fd = (s.conns c).fd ∨ s.connections fd = some c' := by
  change Function.update s.connections (s.conns c).fd (some c) fd = some c' at h
  by_cases hfd : fd = (s.conns c).fd
  · subst hfd
    rw [Function.update_self] at h
    exact .inl ⟨(Option.some.inj h).symm, rfl⟩
  · rw [Function.update_of_ne hfd] at h
    exact .inr h

theorem Mapped.insert {c c' : Nat} (hfree : s.connections (s.conns c).fd = none)
    (h : s.Mapped c') : (s.insert c).Mapped c' := by
  unfold Mapped at h
  show Function.update s.connections (s.conns c).fd (some c) (s.conns c').fd = some c'
  by_cases hfd : (s.conns c').fd = (s.conns c).fd
  · rw [hfd, hfree] at h
    exact nomatch h
  · rw [Function.update_of_ne hfd]
    exact h

theorem alive_insert {c c' : Nat} (hc : s.Accepting c) (h : (s.insert c).Alive c') :
    s.Alive c' := by
  rcases h with h | h | h
  · rcases connections_insert h with ⟨heq, -⟩ | hold
    · rw [heq]
      exact .inr (.inl hc)
    · exact .inl hold
  · have heq : c = c' := Option.some.inj h
    rw [← heq]
    exact .inr (.inl hc)
  · exact .inr (.inr h)

theorem Owned.insert (h : Owned s) {c : Nat} (hc : s.Accepting c) : Owned (s.insert c) := by
  refine ⟨fun fd c' hc' => ?_, fun c' hc' => h.born c' (alive_insert hc hc'),
    fun c' c'' hc' hc'' heq => h.distinct c' c'' (alive_insert hc hc') (alive_insert hc hc'') heq,
    fun c' hc' => ?_⟩
  · rcases connections_insert hc' with ⟨heq, hfd⟩ | hold
    · rw [heq]
      exact hfd.symm
    · exact h.keyed fd c' hold
  · rcases hc' with hc' | hc'
    all_goals exact nomatch congrArg Prod.snd (Option.some.inj hc')

theorem Polled.insert (h : Polled s) (ho : Owned s) {c : Nat}
    (hc : s.main.accepting = some (c, .registered)) : Polled (s.insert c) := by
  have hfree := ho.early c (.inr hc)
  refine ⟨h.unborn, fun c' stage hc' h₁ h₂ => ?_, fun c' hr => ?_, h.batch, h.nodup, h.idle, h.own,
    h.vector, h.mainVector, fun hcalling => ?_⟩
  · rcases Prod.mk.inj (Option.some.inj hc') with ⟨rfl, -⟩
    exact s.mapped_insert_self c
  · rcases h.held c' hr with hheld | hheld | hheld
    · exact .inl (Mapped.insert hfree hheld)
    · rw [hc] at hheld
      obtain ⟨rfl, -⟩ := Prod.mk.inj (Option.some.inj hheld)
      exact .inl (s.mapped_insert_self c)
    · exact .inr (.inr hheld)
  · have hnone := h.calm hcalling
    rw [hc] at hnone
    exact nomatch hnone

/-- A connection lives as long as an I/O loop may be given its channel. -/
structure Lifetime (s : Server n) : Prop where
  owned : Owned s
  polled : Polled s

theorem Lifetime.setLoop (h : Lifetime s) {i : Fin (n + 1)} {l : IoLoop} (hl : LoopKept s i l)
    (htoDo : ∀ c ∈ l.toDo.held, s.Alive c) (hcalls : ∀ c ∈ l.calls.map Removal.conn, s.Alive c) :
    Lifetime (s.setLoop i l) :=
  ⟨h.owned.shrink (shrinks_setLoop htoDo hcalls), h.polled.setLoop hl⟩

theorem Lifetime.setCalls (h : Lifetime s) {i : Fin (n + 1)} {calls : List Removal}
    {timers : List Nat} (hcalls : ∀ c ∈ calls.map Removal.conn, s.Alive c) :
    Lifetime (s.setLoop i { s.loops i with calls := calls, timers := timers }) :=
  h.setLoop ⟨fun _ hx _ => hx, h.polled.batch i, h.polled.nodup i, h.polled.idle i, h.polled.own i,
    h.polled.vector i⟩ (fun _ hx => alive_of_loop (.inl hx)) hcalls

theorem Lifetime.finish (h : Lifetime s) {c : Nat} (hc : s.main.accepting = some (c, .reading)) :
    Lifetime { s with main := { s.main with accepting := none } } := by
  refine ⟨h.owned.shrink ?_, ⟨h.polled.unborn, (fun c' stage hno => nomatch hno), ?_,
    h.polled.batch, h.polled.nodup, h.polled.idle, h.polled.own, h.polled.vector,
    h.polled.mainVector, fun _ => rfl⟩⟩
  · exact .of rfl (fun _ => rfl) (fun _ _ hx => hx) (fun _ _ hno => nomatch hno)
      (fun _ hx => alive_of_main hx) fun _ _ hx => alive_of_loop hx
  · intro c' hr
    rcases h.polled.held c' hr with hheld | hheld | hheld
    · exact .inl hheld
    · rw [hc] at hheld
      exact nomatch congrArg Prod.snd (Option.some.inj hheld)
    · exact .inr (.inr hheld)

theorem Lifetime.setChannel (h : Lifetime s) {c : Nat} {ch : Channel} {stage stage' : Stage}
    (hc : s.main.accepting = some (c, stage)) (hfirst : stage ≠ .registered)
    (hreg : s.Registered c → ch.registered ≠ none)
    (hearly : stage' = .constructed ∨ stage' = .registered →
      stage = .constructed ∨ stage = .registered)
    (hlate : stage' = .registered ∨ s.Mapped c) :
    Lifetime ((s.setChannel c ch).setStage c stage') := by
  have hstage : Lifetime (s.setStage c stage') :=
    ⟨h.owned.shrink (shrinks_setStage hc hearly),
      h.polled.setStage hc hfirst fun _ h₂ => hlate.resolve_left h₂⟩
  have hborn := h.owned.born c (.inr (.inl (accepting_of_stage hc)))
  refine ⟨hstage.owned.shrink (shrinks_setConn rfl),
    hstage.polled.setConn rfl rfl hborn (fun _ => ?_) fun i p hp heq => ?_⟩
  · rcases hlate with hlate | hlate
    · rw [hlate]
      exact .inr (.inl rfl)
    · exact .inl hlate
  · have hr := (h.polled.batch i p hp).2
    rw [heq] at hr
    exact hreg hr

theorem Lifetime.newConnection (h : Lifetime s) (hstep : s.newConnection = some s') :
    Lifetime s' := by
  unfold Server.newConnection at hstep
  split at hstep
  · exact nomatch hstep
  · rename_i c hc
    cases hstep
    exact h.setChannel hc (by decide) (fun _ => Option.some_ne_none _) (fun _ => .inl rfl)
      (.inl rfl)
  · rename_i c hc
    cases hstep
    exact ⟨h.owned.insert (accepting_of_stage hc), h.polled.insert h.owned hc⟩
  · rename_i c hc
    cases hstep
    exact h.setChannel hc (by decide) id (by decide)
      (.inr (h.polled.late c _ hc (by decide) (by decide)))
  · rename_i c hc
    cases hstep
    exact h.setChannel hc (by decide) (fun _ => Option.some_ne_none _) (by decide)
      (.inr (h.polled.late c _ hc (by decide) (by decide)))
  · rename_i c hc
    cases hstep
    have htimer : Lifetime (s.setLoop (s.conns c).loop { s.loops (s.conns c).loop with
        timers := (s.loops (s.conns c).loop).timers ++ [c] }) :=
      h.setCalls fun _ hx => alive_of_loop (.inr hx)
    exact htimer.finish hc

/-! ## The rest of the main loop -/

theorem Lifetime.setMain (h : Lifetime s) {m : MainLoop}
    (haccepting : m.accepting = s.main.accepting)
    (hvector : m.callingFunctors = false → m.toDo.functors = [])
    (hcalm : m.callingFunctors = true → m.accepting = none)
    (hheld : ∀ c ∈ m.toDo.held, s.Alive c) : Lifetime { s with main := m } := by
  refine ⟨h.owned.shrink (.of rfl (fun _ => rfl) (fun _ _ hx => hx) ?_ hheld
    fun _ _ hx => alive_of_loop hx), h.polled.setMain haccepting hvector hcalm⟩
  intro c stage hc
  rw [← haccepting]
  exact hc

/-- The entry that is erased is the connection's own, and its destructor takes its place. -/
theorem Lifetime.removeConnectionInLoop (h : Lifetime s) {c : Nat} (hc : s.Alive c)
    (haccepting : s.main.accepting = none) : Lifetime (s.removeConnectionInLoop c) := by
  refine ⟨h.owned.shrink (shrinks_removeConnectionInLoop hc), ?_⟩
  have hqueue : LoopKept s (s.conns c).loop { s.loops (s.conns c).loop with
      toDo := (s.loops (s.conns c).loop).toDo.queueOneFunc c } := by
    refine ⟨?_, h.polled.batch _, h.polled.nodup _, h.polled.idle _, fun c' hc' => ?_,
      h.polled.vector _⟩
    · intro c' hc' _
      rw [ToDo.pending_queueOneFunc]
      exact List.mem_append_left _ hc'
    · rw [ToDo.held_queueOneFunc] at hc'
      rcases List.mem_append.1 hc' with hc' | hc'
      · exact h.polled.own _ c' hc'
      · rw [List.mem_singleton.1 hc']
  have hpolled := h.polled.setLoop hqueue
  refine ⟨hpolled.unborn, fun c' stage hno => ?_, fun c' hr => ?_, hpolled.batch, hpolled.nodup,
    hpolled.idle, hpolled.own, hpolled.vector, hpolled.mainVector, hpolled.calm⟩
  · change s.main.accepting = _ at hno
    rw [haccepting] at hno
    exact nomatch hno
  · rcases hpolled.held c' hr with hheld | hheld | hheld
    · by_cases hfd : (s.conns c').fd = (s.conns c).fd
      · have hmapped : s.Mapped c' := hheld
        have heq := h.owned.distinct c' c hmapped.alive hc hfd
        rw [heq]
        refine .inr (.inr ?_)
        show c ∈ ((s.setLoop (s.conns c).loop _).loops (s.conns c).loop).toDo.pending
        rw [loops_setLoop_self, ToDo.pending_queueOneFunc]
        exact List.mem_append_right _ List.mem_cons_self
      · refine .inl ?_
        show Function.update s.connections (s.conns c).fd none (s.conns c').fd = some c'
        rw [Function.update_of_ne hfd]
        exact hheld
    · exact .inr (.inl hheld)
    · exact .inr (.inr hheld)

theorem Lifetime.exit (h : Lifetime s) (e : Option Exit) : Lifetime { s with exited := e } :=
  ⟨⟨h.owned.keyed, h.owned.born, h.owned.distinct, h.owned.early⟩,
    ⟨h.polled.unborn, h.polled.late, h.polled.held, h.polled.batch, h.polled.nodup, h.polled.idle,
      h.polled.own, h.polled.vector, h.polled.mainVector, h.polled.calm⟩⟩

theorem Lifetime.accept (h : Lifetime s) {fd : Nat} (hstep : s.accept fd = some s') :
    Lifetime s' := by
  unfold Server.accept at hstep
  split at hstep
  · rename_i hguard
    obtain ⟨hcalling, haccepting, hfresh⟩ := hguard
    cases hstep
    exact ⟨h.owned.construct hfresh, h.polled.construct h.owned hcalling haccepting⟩
  · exact nomatch hstep

theorem Lifetime.mainOverTime (h : Lifetime s) {c : Nat} {expired : Bool}
    (hstep : s.mainOverTime c expired = some s') : Lifetime s' := by
  unfold Server.mainOverTime at hstep
  dsimp only at hstep
  split at hstep
  · rename_i hguard
    rcases hguard with ⟨hcalling, haccepting, -⟩
    have hmain : ∀ timers, Lifetime { s with main := { s.main with timers := timers } } :=
      fun timers => h.setMain rfl h.polled.mainVector h.polled.calm fun _ hx => alive_of_main hx
    split at hstep
    · cases hstep
      exact hmain _
    · rename_i halive
      split at hstep
      · cases hstep
        exact hmain _
      · split at hstep
        · cases hstep
          exact (hmain (s.main.timers.erase c)).exit (some .notFound)
        · cases hstep
          exact (hmain (s.main.timers.erase c)).removeConnectionInLoop (not_not.1 halive) haccepting
  · exact nomatch hstep

theorem Lifetime.mainToDo (h : Lifetime s) (hstep : s.mainToDo = some s') : Lifetime s' := by
  unfold Server.mainToDo at hstep
  split at hstep
  · rename_i hcalling
    split at hstep
    · rename_i haccepting
      cases hstep
      refine h.setMain rfl (fun hno => nomatch hno) (fun _ => haccepting) fun c hc => ?_
      rw [ToDo.held_swap (h.polled.mainVector hcalling)] at hc
      exact alive_of_main hc
    · exact nomatch hstep
  · rename_i hcalling
    have haccepting := h.polled.calm (Bool.eq_true_of_not_eq_false hcalling)
    split at hstep
    · cases hstep
      exact h.setMain rfl (fun _ => rfl) (fun hno => nomatch hno)
        fun c hc => alive_of_main (ToDo.held_finish_subset _ hc)
    · rename_i c hc
      cases hstep
      have hadvance : Lifetime { s with main := { s.main with toDo := s.main.toDo.advance } } :=
        h.setMain rfl (fun hno => absurd hno hcalling) (fun _ => haccepting)
          fun c' hc' => alive_of_main hc'
      refine hadvance.removeConnectionInLoop ?_ haccepting
      exact alive_of_main (List.mem_append_left _ (List.mem_of_getElem? hc))

/-! ## The steps of an I/O loop -/

theorem Lifetime.setConn (h : Lifetime s) {c : Nat} {x : Connection n}
    (hfd : x.fd = (s.conns c).fd) (hloop : x.loop = (s.conns c).loop) (hborn : c < s.created)
    (hheld : x.channel.registered ≠ none → s.Mapped c ∨ s.main.accepting = some (c, .registered) ∨
      c ∈ (s.loops (s.conns c).loop).toDo.pending)
    (hbatch : ∀ i, ∀ p ∈ (s.loops i).batch, p.1 = c → x.channel.registered ≠ none) :
    Lifetime (s.setConn c x) :=
  ⟨h.owned.shrink (shrinks_setConn hfd), h.polled.setConn hfd hloop hborn hheld hbatch⟩

theorem Reported.registered {i : Fin (n + 1)} {p : Nat × Ready} (h : s.Reported i p) :
    (s.conns p.1).loop = i ∧ s.Registered p.1 := by
  rcases h with ⟨hloop, hmask⟩
  refine ⟨hloop, fun hnone => ?_⟩
  rw [hnone] at hmask
  exact nomatch hmask

theorem Lifetime.poll (h : Lifetime s) {i : Fin (n + 1)} {batch : List (Nat × Ready)}
    (hstep : s.poll i batch = some s') : Lifetime s' := by
  unfold Server.poll at hstep
  split at hstep
  · rename_i hguard
    obtain ⟨hphase, hnodup, hreported⟩ := hguard
    cases hstep
    refine h.setLoop ⟨fun _ hx _ => hx, fun p hp => (hreported p hp).registered, hnodup,
      fun hno => absurd rfl hno, h.polled.own i, fun _ => ?_⟩ (fun _ hx => alive_of_loop (.inl hx))
      fun _ hx => alive_of_loop (.inr hx)
    exact h.polled.vector i (by rw [hphase]; exact fun hno => nomatch hno)
  · exact nomatch hstep

theorem conn_of_mem_removals {c c' : Nat} {es : List Effect}
    (h : c' ∈ (removals c es).map Removal.conn) : c' = c := by
  rcases List.mem_map.1 h with ⟨r, hr, rfl⟩
  rcases List.mem_flatMap.1 hr with ⟨e, -, he⟩
  split at he
  · rcases List.mem_cons.1 he with he | he
    · rw [he]
      rfl
    · rw [List.mem_singleton.1 he]
      rfl
  · exact absurd he List.not_mem_nil

theorem Lifetime.handle (h : Lifetime s) {i : Fin (n + 1)} {d : Dispatch}
    (hstep : s.handle i d = some s') : Lifetime s' := by
  unfold Server.handle at hstep
  dsimp only at hstep
  split at hstep
  · exact nomatch hstep
  · rename_i c ready rest hbatch
    split at hstep
    · rename_i hguard
      obtain ⟨hphase, -⟩ := hguard
      cases hstep
      have hmem : (c, ready) ∈ (s.loops i).batch := by
        rw [hbatch]
        exact List.mem_cons_self
      rcases h.polled.batch i _ hmem with ⟨hloop, hreg⟩
      have halive := h.polled.alive hreg
      have hnodup : c ∉ rest.map Prod.fst ∧ (rest.map Prod.fst).Nodup := by
        have hall := h.polled.nodup i
        rw [hbatch] at hall
        exact List.nodup_cons.1 hall
      have hkeeps := Connection.keeps_handleEvent (s.conns c) ready d
      have hrest : Lifetime (s.setLoop i { s.loops i with
          batch := rest, calls := removals c ((s.conns c).handleEvent ready d).2 }) := by
        refine h.setLoop ⟨fun _ hx _ => hx, fun p hp => ?_, hnodup.2, fun hno => absurd hphase hno,
          h.polled.own i, h.polled.vector i⟩ (fun _ hx => alive_of_loop (.inl hx)) fun c' hc' => ?_
        · exact h.polled.batch i p (by rw [hbatch]; exact List.mem_cons_of_mem _ hp)
        · rw [conn_of_mem_removals hc']
          exact halive
      refine hrest.setConn hkeeps.fd hkeeps.loop (h.owned.born c halive)
        (fun _ => hrest.polled.held c hreg) fun j p hp heq => ?_
      have hj : j = i := (hrest.polled.batch j p hp).1.symm.trans (by rw [heq]; exact hloop)
      rw [hj, loops_setLoop_self] at hp
      refine absurd (List.mem_map.2 ⟨p, hp, heq⟩) hnodup.1
    · exact nomatch hstep

theorem Lifetime.call (h : Lifetime s) {i : Fin (n + 1)} (hstep : s.call i = some s') :
    Lifetime s' := by
  unfold Server.call at hstep
  dsimp only at hstep
  have hheld : ∀ c ∈ (s.loops i).calls.map Removal.conn, s.Alive c := fun _ hx =>
    alive_of_loop (.inr hx)
  split at hstep
  · exact nomatch hstep
  · rename_i c rest hcalls
    rw [hcalls] at hheld
    split at hstep
    · cases hstep
      exact h.exit (some .notFound)
    · cases hstep
      exact h.setCalls fun c' hc' => hheld c' (List.mem_cons_of_mem _ hc')
  · rename_i c rest hcalls
    rw [hcalls] at hheld
    cases hstep
    have hmain : Lifetime { s with
        main := { s.main with toDo := s.main.toDo.queueOneFunc c } } := by
      refine h.setMain rfl h.polled.mainVector h.polled.calm fun c' hc' => ?_
      rw [ToDo.held_queueOneFunc] at hc'
      rcases List.mem_append.1 hc' with hc' | hc'
      · exact alive_of_main hc'
      · rw [List.mem_singleton.1 hc']
        exact hheld c List.mem_cons_self
    apply hmain.setCalls
    intro c' hc'
    have hmem : c' ∈ (s.loops i).calls.map Removal.conn := by
      rw [hcalls]
      exact List.mem_cons_of_mem _ hc'
    exact alive_of_loop (.inr hmem)

theorem Lifetime.overTime (h : Lifetime s) {i : Fin (n + 1)} {c : Nat} {expired : Bool}
    (hstep : s.overTime i c expired = some s') : Lifetime s' := by
  unfold Server.overTime at hstep
  dsimp only at hstep
  have hheld : ∀ c ∈ (s.loops i).calls.map Removal.conn, s.Alive c := fun _ hx =>
    alive_of_loop (.inr hx)
  split at hstep
  · split at hstep
    · cases hstep
      exact h.setCalls hheld
    · rename_i halive
      split at hstep
      · cases hstep
        have hmain : Lifetime { s with
            main := { s.main with timers := s.main.timers ++ [c] } } :=
          h.setMain rfl h.polled.mainVector h.polled.calm fun _ hx => alive_of_main hx
        exact hmain.setCalls fun _ hx => alive_of_loop (.inr hx)
      · cases hstep
        apply h.setCalls
        intro c' hc'
        have heq : c' = c := by simpa [Removal.conn] using hc'
        rw [heq]
        exact not_not.1 halive
  · exact nomatch hstep

theorem Lifetime.count (h : Lifetime s) (f : Nat → Nat) : Lifetime { s with destructed := f } :=
  ⟨⟨h.owned.keyed, h.owned.born, h.owned.distinct, h.owned.early⟩,
    ⟨h.polled.unborn, h.polled.late, h.polled.held, h.polled.batch, h.polled.nodup, h.polled.idle,
      h.polled.own, h.polled.vector, h.polled.mainVector, h.polled.calm⟩⟩

def counted (s : Server n) (c : Nat) : Server n :=
  { s with destructed := Function.update s.destructed c (s.destructed c + 1) }

theorem connectionDestructor_cases (s : Server n) (c : Nat) :
    ((s.conns c).channel.inEpoll = false ∧
        s.connectionDestructor c = { s.counted c with exited := some .notInEpoll }) ∨
      ((s.conns c).channel.inEpoll = true ∧
        ∃ ch, ch.registered = none ∧ ch.inEpoll = false ∧
          s.connectionDestructor c = (s.counted c).setChannel c ch) := by
  unfold connectionDestructor Channel.removeInEpoll
  dsimp only
  by_cases hin : (s.conns c).channel.inEpoll = true
  · right
    simp only [if_pos hin]
    exact ⟨hin, _, rfl, rfl, rfl⟩
  · left
    simp only [if_neg hin]
    exact ⟨Bool.eq_false_of_not_eq_true hin, rfl⟩

/-- `ConnectionDestructor` runs on the loop of its connection, whose batch is over. -/
theorem Lifetime.destructor (h : Lifetime s) {i : Fin (n + 1)} {c : Nat}
    (hphase : (s.loops i).phase = .functors) (hnext : (s.loops i).toDo.next = some c) :
    Lifetime (if (s.connectionDestructor c).exited = none then
      (s.connectionDestructor c).setLoop i { s.loops i with toDo := (s.loops i).toDo.advance }
      else s.connectionDestructor c) := by
  have hidle := h.polled.idle i (by rw [hphase]; exact fun hno => nomatch hno)
  have hmem : c ∈ (s.loops i).toDo.held := List.mem_append_left _ (List.mem_of_getElem? hnext)
  have hcount : Lifetime (s.counted c) := h.count _
  rcases s.connectionDestructor_cases c with ⟨-, heq⟩ | ⟨-, ch, hnone, -, heq⟩
  · rw [heq, if_neg (by exact fun hno => nomatch hno)]
    exact hcount.exit (some .notInEpoll)
  · rw [heq]
    have hbatch : ∀ j, ∀ p ∈ (s.loops j).batch, p.1 = c → ch.registered ≠ none := by
      intro j p hp heq
      have hj := (h.polled.batch j p hp).1
      rw [heq, h.polled.own i c hmem] at hj
      rw [← hj, hidle] at hp
      exact absurd hp List.not_mem_nil
    have hconn := @Lifetime.setConn n _ hcount c { s.conns c with channel := ch } rfl rfl
      (h.owned.born c (alive_of_loop (.inl hmem))) (fun hno => absurd hnone hno) hbatch
    split
    · refine hconn.setLoop ?_ (fun c' hc' => alive_of_loop (.inl hc'))
        fun c' hc' => alive_of_loop (.inr hc')
      refine ⟨fun c' hc' hr => ?_, hconn.polled.batch i, hconn.polled.nodup i, hconn.polled.idle i,
        hconn.polled.own i, fun hno => absurd hphase hno⟩
      have hne : c' ≠ c := by
        intro heq
        unfold Registered at hr
        rw [heq, conns_setConn_self] at hr
        exact hr hnone
      change c' ∈ (s.loops i).toDo.pending at hc'
      rw [ToDo.pending_of_next hnext] at hc'
      exact (List.mem_cons.1 hc').resolve_left hne
    · exact hconn

theorem Lifetime.toDo (h : Lifetime s) {i : Fin (n + 1)} (hstep : s.toDo i = some s') :
    Lifetime s' := by
  unfold Server.toDo at hstep
  dsimp only at hstep
  split at hstep
  · exact nomatch hstep
  · rename_i hphase
    have hvector := h.polled.vector i (by rw [hphase]; exact fun hno => nomatch hno)
    split at hstep
    · rename_i hidle
      cases hstep
      refine h.setLoop ⟨?_, h.polled.batch i, h.polled.nodup i, fun _ => hidle.1, fun c hc => ?_,
        fun hno => absurd rfl hno⟩ (fun c hc => ?_) fun _ hx => alive_of_loop (.inr hx)
      · rw [ToDo.pending_swap hvector]
        exact fun _ hx _ => hx
      · rw [ToDo.held_swap hvector] at hc
        exact h.polled.own i c hc
      · rw [ToDo.held_swap hvector] at hc
        exact alive_of_loop (.inl hc)
    · exact nomatch hstep
  · rename_i hphase
    have hidle := h.polled.idle i (by rw [hphase]; exact fun hno => nomatch hno)
    split at hstep
    · rename_i hnext
      cases hstep
      refine h.setLoop ⟨?_, h.polled.batch i, h.polled.nodup i, fun _ => hidle, fun c hc => ?_,
        fun _ => rfl⟩ (fun c hc => alive_of_loop (.inl (ToDo.held_finish_subset _ hc)))
        fun _ hx => alive_of_loop (.inr hx)
      · rw [ToDo.pending_finish hnext]
        exact fun _ hx _ => hx
      · exact h.polled.own i c (ToDo.held_finish_subset _ hc)
    · rename_i c hnext
      cases hstep
      exact h.destructor hphase hnext

/-! ## Runs -/

theorem Lifetime.step (h : Lifetime s) {a : Act n} (hstep : s.step a = some s') : Lifetime s' := by
  unfold Server.step at hstep
  split at hstep
  · cases a with
    | accept fd => exact h.accept hstep
    | newConnection => exact h.newConnection hstep
    | mainOverTime c expired => exact h.mainOverTime hstep
    | mainToDo => exact h.mainToDo hstep
    | poll i batch => exact h.poll hstep
    | handle i d => exact h.handle hstep
    | call i => exact h.call hstep
    | overTime i c expired => exact h.overTime hstep
    | toDo i => exact h.toDo hstep
  · exact nomatch hstep

theorem lifetime_init : Lifetime ({} : Server n) := by
  have halive : ∀ c, ¬ ({} : Server n).Alive c := by
    intro c hc
    rcases hc with hc | hc | hc | ⟨i, hc | hc⟩
    · exact nomatch hc
    · exact nomatch hc
    all_goals exact absurd hc List.not_mem_nil
  refine ⟨⟨(fun _ _ hc => nomatch hc), fun c hc => absurd hc (halive c),
    fun c _ hc => absurd hc (halive c), fun _ _ => rfl⟩, ?_⟩
  exact ⟨fun _ _ hr => hr rfl, (fun _ _ hc => nomatch hc), fun _ hr => absurd rfl hr,
    fun _ _ hp => absurd hp List.not_mem_nil, fun _ => List.nodup_nil, fun _ _ => rfl,
    fun _ _ hc => absurd hc List.not_mem_nil, fun _ _ => rfl, fun _ => rfl, fun _ => rfl⟩

/-- The channels of a batch belong to connections alive. A registered connection is in
`connections_`, in a pending `RemoveConnectionInLoop` or `ConnectionDestructor`, or it is the
local `clnt_conn` of `NewConnection` between `SetET` and its entry in `connections_`. The entry that
`NewConnection` sets is free, and one that `RemoveConnectionInLoop` can erase for a connection is
that connection's own. -/
structure OwnersHold (s : Server n) : Prop where
  batch : ∀ i, ∀ p ∈ (s.loops i).batch, s.Alive p.1
  registered : ∀ c, s.Registered c → s.Mapped c ∨ c ∈ s.main.toDo.pending ∨
    c ∈ (s.loops (s.conns c).loop).toDo.pending ∨ s.main.accepting = some (c, .registered)
  inserts : ∀ c, s.main.accepting = some (c, .registered) → s.connections (s.conns c).fd = none
  erases : ∀ c, s.Alive c → ∀ c', s.connections (s.conns c).fd = some c' → c' = c

theorem Lifetime.ownersHold (h : Lifetime s) : OwnersHold s := by
  refine ⟨fun i p hp => h.polled.alive (h.polled.batch i p hp).2, fun c hc => ?_,
    fun c hc => h.owned.early c (.inr hc), fun c hc c' hentry => h.owned.entry_eq hc hentry⟩
  rcases h.polled.held c hc with hheld | hheld | hheld
  · exact .inl hheld
  · exact .inr (.inr (.inr hheld))
  · exact .inr (.inr (.inl hheld))

/-- **Lifetime.** In every state of every run, the owners of the channels hold. -/
theorem ownersHold_of_run (acts : List (Act n)) : Lib.Always step OwnersHold {} acts :=
  Lib.Always.mono (fun _ h => h.ownersHold)
    (Lib.always_of_keeps (fun _ _ _ h => h.step) lifetime_init acts)

/-- `SetET` comes before the entry in `connections_`: between the two, the connection is in epoll
and only `clnt_conn` holds it. -/
theorem registered_before_entry :
    ¬ Lib.Always step (fun s : Server 0 => ∀ c, s.Registered c → s.Mapped c ∨
      c ∈ s.main.toDo.pending ∨ c ∈ (s.loops (s.conns c).loop).toDo.pending) {}
        [.accept 5, .newConnection] := by
  have hend : (Lib.runFrom step ({} : Server 0) [.accept 5, .newConnection]).map
      (fun s => ((s.conns 0).channel.registered, (s.conns 0).loop, s.connections (s.conns 0).fd,
        s.main.toDo.pending, (s.loops 0).toDo.pending)) =
      some (some { et := true }, 0, none, [], []) := by decide
  intro h
  obtain ⟨s, hall, hs⟩ := h.exists_end hend
  simp only [Prod.mk.injEq] at hs
  obtain ⟨hreg, hloop, hentry, hmain, hpending⟩ := hs
  rcases hall 0 (by rw [Registered, hreg]; exact Option.some_ne_none _) with hno | hno | hno
  · unfold Mapped at hno
    rw [hentry] at hno
    exact nomatch hno
  · rw [hmain] at hno
    exact absurd hno List.not_mem_nil
  · rw [hloop, hpending] at hno
    exact absurd hno List.not_mem_nil

end Server

end CPlusServer

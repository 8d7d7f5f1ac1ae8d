import CPlusServer.Net.StartUp
import CPlusServer.Net.Trace
import Mathlib.Data.Int.CardIntervalMod

/-!
# Where the connections go

`NewConnection` asks `NextLoop` for the loop of each connection. The pool goes round its
vector with an index that is one ahead and starts again where it meets the size. The
server's own picture of it is a number modulo the number of loops.
-/

namespace CPlusServer

inductive NextLoop
  | mainReactor
  | eventLoop (loop : Option Nat)
  deriving DecidableEq

/-- None where the index is not one of the vector. -/
def EventLoopThreadPool.nextLoop (p : EventLoopThreadPool) :
    Option (NextLoop × EventLoopThreadPool) :=
  if p.eventLoops = [] then some (.mainReactor, p)
  else
    let next := if p.next = p.eventLoops.length then 0 else p.next
    p.eventLoops[next]?.map fun loop => (.eventLoop loop, { p with next := next + 1 })

namespace EventLoopThreadPool

theorem same_start {p p' : EventLoopThreadPool} (hstep : p.start = some p') :
    p'.numThreads = p.numThreads ∧ p'.next = p.next := by
  unfold start at hstep
  cases hpc : p.pc with
  | head =>
      rw [hpc] at hstep
      dsimp only at hstep
      split at hstep <;> cases hstep <;> exact ⟨rfl, rfl⟩
  | startLoop =>
      rw [hpc] at hstep
      obtain ⟨t, -, hstep⟩ := Option.bind_eq_some_iff.1 hstep
      obtain ⟨m, -, heq⟩ := Option.map_eq_some_iff.1 hstep
      dsimp only at heq
      split at heq <;> cases heq <;> exact ⟨rfl, rfl⟩
  | returned =>
      rw [hpc] at hstep
      cases hstep

/-- `Start` leaves the number of threads and the index of `NextLoop` as the
constructor sets them. -/
theorem same_step {p p' : EventLoopThreadPool} {a : StartAct} (hstep : p.step a = some p') :
    p'.numThreads = p.numThreads ∧ p'.next = p.next := by
  cases a with
  | start => exact same_start hstep
  | thread i =>
      obtain ⟨t, -, hstep⟩ := Option.bind_eq_some_iff.1 hstep
      obtain ⟨t', -, rfl⟩ := Option.map_eq_some_iff.1 hstep
      exact ⟨rfl, rfl⟩
  | wake =>
      obtain ⟨t, -, hstep⟩ := Option.bind_eq_some_iff.1 hstep
      obtain ⟨m, -, rfl⟩ := Option.map_eq_some_iff.1 hstep
      exact ⟨rfl, rfl⟩

/-- The loops are those of `m` threads, and the next index is `k` modulo `m`, or `m` for 0. -/
structure RoundRobin (p : EventLoopThreadPool) (m k : Nat) : Prop where
  loops : p.eventLoops = (List.range m).map some
  next : p.next = k % m ∨ p.next = m ∧ k % m = 0

/-- Each call hands out the next loop, round and round. -/
theorem RoundRobin.nextLoop {p : EventLoopThreadPool} {m k : Nat} (h : p.RoundRobin m k)
    (hm : 0 < m) : ∃ p', p.nextLoop = some (.eventLoop (some (k % m)), p') ∧
      p'.RoundRobin m (k + 1) := by
  have hlength : p.eventLoops.length = m := by
    rw [h.loops, List.length_map, List.length_range]
  have hmod : k % m < m := Nat.mod_lt k hm
  have hindex : (if p.next = p.eventLoops.length then 0 else p.next) = k % m := by
    rw [hlength]
    rcases h.next with hnext | ⟨hnext, hzero⟩
    · rw [if_neg (by omega), hnext]
    · rw [if_pos hnext, hzero]
  have hne : p.eventLoops ≠ [] := List.ne_nil_of_length_pos (by omega)
  have hloop : p.eventLoops[k % m]? = some (some (k % m)) := by
    rw [h.loops, List.getElem?_map, List.getElem?_range hmod]
    rfl
  refine ⟨{ p with next := k % m + 1 }, ?_, h.loops, ?_⟩
  · unfold EventLoopThreadPool.nextLoop
    rw [if_neg hne]
    dsimp only
    rw [hindex, hloop]
    rfl
  · show k % m + 1 = (k + 1) % m ∨ k % m + 1 = m ∧ (k + 1) % m = 0
    have hnext : (k + 1) % m = (k % m + 1) % m := (Nat.mod_add_mod k m 1).symm
    rw [hnext]
    rcases Nat.lt_or_eq_of_le (Nat.succ_le_of_lt hmod) with hless | hlast
    · exact .inl (Nat.mod_eq_of_lt hless).symm
    · right
      rw [← Nat.succ_eq_add_one, hlast]
      exact ⟨rfl, Nat.mod_self m⟩

end EventLoopThreadPool

/-! ## The server -/

namespace Server

variable {n : Nat} {s s' : Server n}

structure Stays (s s' : Server n) : Prop where
  created : s'.created = s.created
  nextLoop : s'.nextLoop = s.nextLoop
  loop : ∀ c, (s'.conns c).loop = (s.conns c).loop

theorem Stays.of_conns (hcreated : s'.created = s.created) (hnext : s'.nextLoop = s.nextLoop)
    (hconns : s'.conns = s.conns) : Stays s s' :=
  ⟨hcreated, hnext, fun c => by rw [hconns]⟩

theorem stays_setConn {c : Nat} {x : Connection n} (hx : x.loop = (s.conns c).loop) :
    Stays s (s.setConn c x) := by
  refine ⟨rfl, rfl, fun c' => ?_⟩
  by_cases hc : c' = c
  · rw [hc, conns_setConn_self]
    exact hx
  · rw [conns_setConn_of_ne _ _ hc]

theorem Stays.trans {s'' : Server n} (h : Stays s s') (h' : Stays s' s'') : Stays s s'' :=
  ⟨h'.created.trans h.created, h'.nextLoop.trans h.nextLoop,
    fun c => (h'.loop c).trans (h.loop c)⟩

theorem stays_newConnection (hstep : s.newConnection = some s') : Stays s s' := by
  have hchannel (c : Nat) (ch : Channel) : Stays s (s.setChannel c ch) := stays_setConn rfl
  unfold newConnection at hstep
  split at hstep <;> cases hstep
  · exact (hchannel _ _).trans (.of_conns rfl rfl rfl)
  · exact .of_conns rfl rfl rfl
  · exact (hchannel _ _).trans (.of_conns rfl rfl rfl)
  · exact (hchannel _ _).trans (.of_conns rfl rfl rfl)
  · exact .of_conns rfl rfl rfl

theorem stays_handle {i : Fin (n + 1)} {d : Dispatch} (hstep : s.handle i d = some s') :
    Stays s s' := by
  unfold handle at hstep
  dsimp only at hstep
  split at hstep
  · cases hstep
  · rename_i c ready rest _
    split at hstep
    · cases hstep
      have hkeeps := Connection.keeps_handleEvent (s.conns c) ready d
      exact (stays_setConn hkeeps.loop).trans (.of_conns rfl rfl rfl)
    · cases hstep

theorem stays_toDo {i : Fin (n + 1)} (hstep : s.toDo i = some s') : Stays s s' := by
  unfold toDo at hstep
  dsimp only at hstep
  split at hstep
  · cases hstep
  · split_ifs at hstep
    cases hstep
    exact .of_conns rfl rfl rfl
  · split at hstep
    · cases hstep
      exact .of_conns rfl rfl rfl
    · rename_i c _
      cases hstep
      have hdestructor : Stays s (s.connectionDestructor c) := by
        rcases s.connectionDestructor_cases c with ⟨-, heq⟩ | ⟨-, ch, -, -, heq⟩ <;> rw [heq]
        · exact .of_conns rfl rfl rfl
        · have hcounted : Stays s (s.counted c) := .of_conns rfl rfl rfl
          have hchannel : Stays (s.counted c) ((s.counted c).setChannel c ch) := stays_setConn rfl
          exact hcounted.trans hchannel
      split
      · exact hdestructor.trans (.of_conns rfl rfl rfl)
      · exact hdestructor

theorem stays_of_step {a : Act n} (hstep : s.step a = some s') :
    (∃ fd, a = .accept fd ∧ s' = s.construct fd) ∨ (∀ fd, a ≠ .accept fd) ∧ Stays s s' := by
  obtain ⟨-, hstep⟩ := Option.ite_none_right_eq_some.1 hstep
  cases a with
  | accept fd =>
      obtain ⟨-, heq⟩ := Option.ite_none_right_eq_some.1 hstep
      cases heq
      exact .inl ⟨fd, rfl, rfl⟩
  | newConnection => exact .inr ⟨nofun, stays_newConnection hstep⟩
  | mainOverTime c expired =>
      refine .inr ⟨nofun, ?_⟩
      change s.mainOverTime c expired = some s' at hstep
      unfold mainOverTime at hstep
      dsimp only at hstep
      split_ifs at hstep <;> cases hstep <;> exact .of_conns rfl rfl rfl
  | mainToDo =>
      refine .inr ⟨nofun, ?_⟩
      change s.mainToDo = some s' at hstep
      unfold mainToDo at hstep
      split_ifs at hstep
      · cases hstep
        exact .of_conns rfl rfl rfl
      · split at hstep <;> cases hstep <;> exact .of_conns rfl rfl rfl
  | poll i batch =>
      obtain ⟨-, heq⟩ := Option.ite_none_right_eq_some.1 hstep
      cases heq
      exact .inr ⟨nofun, .of_conns rfl rfl rfl⟩
  | handle i d => exact .inr ⟨nofun, stays_handle hstep⟩
  | call i =>
      refine .inr ⟨nofun, ?_⟩
      change s.call i = some s' at hstep
      unfold call at hstep
      dsimp only at hstep
      split at hstep
      · cases hstep
      · split at hstep <;> cases hstep <;> exact .of_conns rfl rfl rfl
      · cases hstep
        exact .of_conns rfl rfl rfl
  | overTime i c expired =>
      refine .inr ⟨nofun, ?_⟩
      change s.overTime i c expired = some s' at hstep
      unfold overTime at hstep
      dsimp only at hstep
      split_ifs at hstep <;> cases hstep <;> exact .of_conns rfl rfl rfl
  | toDo i => exact .inr ⟨nofun, stays_toDo hstep⟩

def load (s : Server n) (i : Fin (n + 1)) : Nat :=
  s.created.count fun c => (s.conns c).loop = i

end Server

/-- A pool whose `Start` has come back, with as many threads as the server has I/O loops. -/
structure StartedPool (n : Nat) where
  pool : EventLoopThreadPool
  started : ∃ acts, Lib.runFrom EventLoopThreadPool.step (.create (n + 1)) acts = some pool
  returned : pool.pc = .returned

instance (n : Nat) : Nonempty (StartedPool n) := by
  obtain ⟨acts, p, hrun, hpc⟩ := (EventLoopThreadPool.sound_create (n + 1)).exists_returned
  exact ⟨⟨p, ⟨acts, hrun⟩, hpc⟩⟩

structure Placed (n : Nat) where
  server : Server n := {}
  pool : EventLoopThreadPool
  given : List NextLoop := []

namespace Placed

variable {n : Nat} {p p' : Placed n}

def step (p : Placed n) (a : Server.Act n) : Option (Placed n) :=
  match a with
  | .accept fd => do
      let server ← p.server.step (.accept fd)
      let (loop, pool) ← p.pool.nextLoop
      return { server := server, pool := pool, given := p.given ++ [loop] }
  | a => (p.server.step a).map fun server => { p with server := server }

structure Sound (p : Placed n) : Prop where
  pool : p.pool.RoundRobin (n + 1) p.server.created
  nextLoop : (p.server.nextLoop : Nat) = p.server.created % (n + 1)
  loops : ∀ c < p.server.created, ((p.server.conns c).loop : Nat) = c % (n + 1)
  given : p.given = (List.range p.server.created).map fun c => .eventLoop (some (c % (n + 1)))

theorem sound_started (pool : StartedPool n) : Sound (n := n) { pool := pool.pool } := by
  obtain ⟨acts, hrun⟩ := pool.started
  obtain ⟨hsound, hnum, hnext⟩ : pool.pool.Sound ∧ pool.pool.numThreads = n + 1 ∧
      pool.pool.next = 0 := by
    refine Lib.runFrom_keeps (P := fun p : EventLoopThreadPool =>
      p.Sound ∧ p.numThreads = n + 1 ∧ p.next = 0) ?_ ?_ hrun
    · intro p a p' _ h hstep
      obtain ⟨hnum, hnext⟩ := EventLoopThreadPool.same_step hstep
      exact ⟨h.1.step hstep, hnum.trans h.2.1, hnext.trans h.2.2⟩
    · refine ⟨EventLoopThreadPool.sound_create _, ?_, rfl⟩
      show (if (n : Int) + 1 ≤ 0 then 1 else ((n : Int) + 1).toNat) = n + 1
      rw [if_neg (by omega)]
      omega
  have hlength : pool.pool.eventLoops.length = n + 1 :=
    (hsound.starts.complete pool.returned).trans hnum
  have hloops := hsound.loops
  rw [hlength] at hloops
  exact ⟨⟨hloops, .inl (hnext.trans (Nat.zero_mod _).symm)⟩, (Nat.zero_mod _).symm,
    fun c hc => absurd hc (Nat.not_lt_zero c), rfl⟩

/-- A step of the server that accepts nothing. -/
theorem Sound.stays (h : p.Sound) {server : Server n} (hstays : p.server.Stays server) :
    Sound { p with server := server } := by
  have hcreated := hstays.created
  refine ⟨?_, ?_, fun c hc => ?_, ?_⟩
  · show p.pool.RoundRobin (n + 1) server.created
    rw [hcreated]
    exact h.pool
  · show (server.nextLoop : Nat) = server.created % (n + 1)
    rw [hstays.nextLoop, hcreated]
    exact h.nextLoop
  · change c < server.created at hc
    rw [hcreated] at hc
    show ((server.conns c).loop : Nat) = c % (n + 1)
    rw [hstays.loop]
    exact h.loops c hc
  · show p.given = (List.range server.created).map _
    rw [hcreated]
    exact h.given

theorem Sound.construct (h : p.Sound) {fd : Nat} {pool : EventLoopThreadPool}
    (hpool : pool.RoundRobin (n + 1) (p.server.created + 1)) :
    Sound
      { server := p.server.construct fd
        pool := pool
        given := p.given ++ [.eventLoop (some (p.server.created % (n + 1)))] } := by
  refine ⟨hpool, ?_, fun c hc => ?_, ?_⟩
  · show ((p.server.nextLoop + 1 : Fin (n + 1)) : Nat) = (p.server.created + 1) % (n + 1)
    rw [Fin.val_add, h.nextLoop, Fin.val_one', Nat.mod_add_mod, Nat.add_mod_mod]
  · show (((p.server.construct fd).conns c).loop : Nat) = c % (n + 1)
    by_cases hnew : c = p.server.created
    · rw [hnew, Server.conns_construct_self]
      exact h.nextLoop
    · change c < p.server.created + 1 at hc
      rw [Server.conns_construct_of_ne hnew]
      exact h.loops c (by omega)
  · show p.given ++ [_] = (List.range (p.server.created + 1)).map _
    rw [List.range_succ, List.map_append, ← h.given]
    rfl

theorem Sound.step (h : p.Sound) {a : Server.Act n} (hstep : p.step a = some p') : p'.Sound := by
  cases a with
  | accept fd =>
      obtain ⟨server, hserver, hstep⟩ := Option.bind_eq_some_iff.1 hstep
      obtain ⟨pool, hnext, hpool⟩ := h.pool.nextLoop (Nat.succ_pos n)
      rw [hnext] at hstep
      cases hstep
      rcases Server.stays_of_step hserver with ⟨fd', hfd, rfl⟩ | ⟨hno, -⟩
      · cases hfd
        exact h.construct hpool
      · exact absurd rfl (hno fd)
  | _ =>
      obtain ⟨server, hserver, rfl⟩ := Option.map_eq_some_iff.1 hstep
      rcases Server.stays_of_step hserver with ⟨fd, hfd, -⟩ | ⟨-, hstays⟩
      · cases hfd
      · exact h.stays hstays

/-- The loads of two loops differ by one at most: they share the connections out evenly. -/
theorem Sound.even (h : p.Sound) (i j : Fin (n + 1)) : p.server.load i ≤ p.server.load j + 1 := by
  have hload (i : Fin (n + 1)) : p.server.load i = p.server.created / (n + 1) +
      if (i : Nat) % (n + 1) < p.server.created % (n + 1) then 1 else 0 := by
    rw [← Nat.count_modEq_card _ (Nat.succ_pos n)]
    unfold Server.load
    rw [Nat.count_eq_card_filter_range, Nat.count_eq_card_filter_range]
    congr 1
    apply Finset.filter_congr
    intro c hc
    have hloop := h.loops c (Finset.mem_range.1 hc)
    unfold Nat.ModEq
    rw [← hloop, Nat.mod_eq_of_lt i.isLt, Fin.val_inj]
  rw [hload i, hload j]
  split <;> split <;> omega

/-- Connection after connection goes to the next loop, as `NextLoop` has said, whose index is one of
the vector; and no loop has been given two more than another. -/
structure Balanced (p : Placed n) : Prop where
  given : p.given = (List.range p.server.created).map fun c =>
    .eventLoop (some ((p.server.conns c).loop : Nat))
  loops : ∀ c < p.server.created, ((p.server.conns c).loop : Nat) = c % (n + 1)
  inside : p.pool.nextLoop ≠ none
  even : ∀ i j, p.server.load i ≤ p.server.load j + 1

theorem Sound.balanced (h : p.Sound) : p.Balanced := by
  refine ⟨?_, h.loops, ?_, h.even⟩
  · rw [h.given]
    apply List.map_congr_left
    intro c hc
    rw [h.loops c (List.mem_range.1 hc)]
  · obtain ⟨pool, hnext, -⟩ := h.pool.nextLoop (Nat.succ_pos n)
    rw [hnext]
    exact nofun

/-- **Balance.** In every run of the server over a pool that has been started, each connection is
served by the loop that `NextLoop` has handed out for it, and these go round. -/
theorem balanced_of_run (pool : StartedPool n) (acts : List (Server.Act n)) :
    Lib.Always step Balanced { pool := pool.pool } acts :=
  (Lib.always_of_keeps (fun _ _ _ h hstep => h.step hstep) (sound_started pool) acts).mono
    fun _ h => h.balanced

end Placed

end CPlusServer

import CPlusServer.Lib.Run
import CPlusServer.Net.Teardown

/-!
# Which thread touches what

`connections_` is for the main loop's thread and the `timers_` of a loop for that
loop's thread; neither is locked. Each step is taken with the thread that
executes it and with its reads and writes of the two.
-/

namespace CPlusServer

inductive LoopThread (n : Nat)
  | main
  | io (i : Fin (n + 1))
  deriving DecidableEq

/-- What is not locked: `connections_`, and `timers_` of the `TimeQueue` of a loop. -/
inductive Unlocked (n : Nat)
  | connections
  | timers (loop : LoopThread n)
  deriving DecidableEq

def Unlocked.owner {n : Nat} : Unlocked n → LoopThread n
  | .connections => .main
  | .timers loop => loop

inductive Mode
  | read | write
  deriving DecidableEq

structure Access (n : Nat) where
  thread : LoopThread n
  object : Unlocked n
  mode : Mode
  deriving DecidableEq

namespace Server

variable {n : Nat}

/-! ## The accesses of the source functions -/

def insertTimer (loop : LoopThread n) : List (Unlocked n × Mode) :=
  [(.timers loop, .read), (.timers loop, .write)]

def handleTimers (loop : LoopThread n) : List (Unlocked n × Mode) :=
  [(.timers loop, .read), (.timers loop, .write)]

def findConnection : List (Unlocked n × Mode) := [(.connections, .read)]

def eraseConnection : List (Unlocked n × Mode) := [(.connections, .write)]

/-- `OnConnnectCallback` calls `RunAfter` on the loop of the connection. -/
def newConnectionAccesses (s : Server n) : List (Unlocked n × Mode) :=
  match s.main.accepting with
  | some (_, .registered) => [(.connections, .write)]
  | some (c, .reading) => insertTimer (.io (s.conns c).loop)
  | _ => []

/-- The functor that `RunOneFunc` runs at once erases what was found. -/
def mainOverTimeAccesses (s : Server n) (c : Nat) (expired : Bool) : List (Unlocked n × Mode) :=
  handleTimers .main ++
    if ¬ s.Alive c then []
    else if expired = false then insertTimer .main
    else findConnection ++ if s.connections (s.conns c).fd = none then [] else eraseConnection

def mainToDoAccesses (s : Server n) : List (Unlocked n × Mode) :=
  if s.main.callingFunctors = false then []
  else match s.main.toDo.next with
    | none => []
    | some _ => eraseConnection

def callAccesses (s : Server n) (i : Fin (n + 1)) : List (Unlocked n × Mode) :=
  match (s.loops i).calls with
  | .find _ :: _ => findConnection
  | _ => []

/-- `OverTime` calls `RunAfter` on the main loop. -/
def overTimeAccesses (s : Server n) (i : Fin (n + 1)) (c : Nat) (expired : Bool) :
    List (Unlocked n × Mode) :=
  handleTimers (.io i) ++
    if ¬ s.Alive c then []
    else if expired = false then insertTimer .main
    else []

def accesses (s : Server n) : Act n → List (Unlocked n × Mode)
  | .newConnection => s.newConnectionAccesses
  | .mainOverTime c expired => s.mainOverTimeAccesses c expired
  | .mainToDo => s.mainToDoAccesses
  | .call i => s.callAccesses i
  | .overTime i c expired => s.overTimeAccesses i c expired
  | .accept _ | .poll _ _ | .handle _ _ | .toDo _ => []

def Act.thread : Act n → LoopThread n
  | .accept _ | .newConnection | .mainOverTime _ _ | .mainToDo => .main
  | .poll i _ | .handle i _ | .call i | .overTime i _ _ | .toDo i => .io i

/-! ## The accesses are all there are -/

def timers (s : Server n) : LoopThread n → List Nat
  | .main => s.main.timers
  | .io i => (s.loops i).timers

structure WritesOnly (s s' : Server n) (xs : List (Unlocked n × Mode)) : Prop where
  connections : (.connections, .write) ∉ xs → s'.connections = s.connections
  timers : ∀ loop, (.timers loop, .write) ∉ xs → s'.timers loop = s.timers loop

variable {s s' : Server n}

theorem timers_setLoop (s : Server n) (i : Fin (n + 1)) (l : IoLoop) {loop : LoopThread n}
    (h : loop = .io i → l.timers = (s.loops i).timers) :
    (s.setLoop i l).timers loop = s.timers loop := by
  cases loop with
  | main => rfl
  | io j =>
      show (Function.update s.loops i l j).timers = (s.loops j).timers
      by_cases hj : j = i
      · rw [hj, Function.update_self]
        exact h (by rw [hj])
      · rw [Function.update_of_ne hj]

theorem WritesOnly.of_same {xs : List (Unlocked n × Mode)}
    (hconnections : s'.connections = s.connections) (htimers : s'.timers = s.timers) :
    WritesOnly s s' xs :=
  ⟨fun _ => hconnections, fun loop _ => by rw [htimers]⟩

/-- What `HandleTimers` writes is its own loop's. -/
theorem WritesOnly.of_handleTimers {own : LoopThread n} {ys : List (Unlocked n × Mode)}
    (hconnections : (.connections, .write) ∉ ys → s'.connections = s.connections)
    (htimers : ∀ loop, loop ≠ own → (.timers loop, .write) ∉ ys → s'.timers loop = s.timers loop) :
    WritesOnly s s' (handleTimers own ++ ys) := by
  refine ⟨fun hno => hconnections ?_, fun loop hno => htimers loop ?_ ?_⟩
  · exact fun hmem => hno (List.mem_append_right _ hmem)
  · rintro rfl
    exact hno (List.mem_append_left _ (List.mem_cons_of_mem _ List.mem_cons_self))
  · exact fun hmem => hno (List.mem_append_right _ hmem)

theorem timers_removeConnectionInLoop (s : Server n) (c : Nat) :
    (s.removeConnectionInLoop c).timers = s.timers := by
  funext loop
  exact timers_setLoop { s with connections := _ } _ _ fun _ => rfl

theorem writesOnly_newConnection (hstep : s.newConnection = some s') :
    WritesOnly s s' s.newConnectionAccesses := by
  unfold newConnection at hstep
  unfold newConnectionAccesses
  split at hstep <;> rename_i haccepting <;> rw [haccepting] <;> cases hstep
  · exact .of_same rfl rfl
  · exact ⟨fun hno => absurd List.mem_cons_self hno, fun _ _ => rfl⟩
  · exact .of_same rfl rfl
  · exact .of_same rfl rfl
  · rename_i c
    refine ⟨fun _ => rfl, fun loop hno => ?_⟩
    apply timers_setLoop
    rintro rfl
    exact absurd (List.mem_cons_of_mem _ List.mem_cons_self) hno

theorem writesOnly_mainOverTime {c : Nat} {expired : Bool}
    (hstep : s.mainOverTime c expired = some s') :
    WritesOnly s s' (s.mainOverTimeAccesses c expired) := by
  have hothers : ∀ loop : LoopThread n, loop ≠ .main → ∀ timers,
      Server.timers { s with main := { s.main with timers := timers } } loop = s.timers loop := by
    intro loop hloop timers
    cases loop with
    | main => exact absurd rfl hloop
    | io i => rfl
  unfold mainOverTime at hstep
  unfold mainOverTimeAccesses
  dsimp only at hstep
  obtain ⟨-, hstep⟩ := Option.ite_none_right_eq_some.1 hstep
  by_cases halive : s.Alive c
  · rw [if_neg (not_not_intro halive)] at hstep ⊢
    by_cases hexpired : expired = false
    · rw [if_pos hexpired] at hstep ⊢
      cases hstep
      exact .of_handleTimers (fun _ => rfl) fun loop hloop _ => hothers loop hloop _
    · rw [if_neg hexpired] at hstep ⊢
      by_cases hfound : s.connections (s.conns c).fd = none
      · rw [if_pos hfound] at hstep ⊢
        cases hstep
        exact .of_handleTimers (fun _ => rfl) fun loop hloop _ => hothers loop hloop _
      · rw [if_neg hfound] at hstep ⊢
        cases hstep
        refine .of_handleTimers (fun hno => ?_) fun loop hloop _ => ?_
        · exact absurd (List.mem_cons_of_mem _ List.mem_cons_self) hno
        · rw [timers_removeConnectionInLoop]
          exact hothers loop hloop _
  · rw [if_pos halive] at hstep ⊢
    cases hstep
    exact .of_handleTimers (fun _ => rfl) fun loop hloop _ => hothers loop hloop _

theorem writesOnly_mainToDo (hstep : s.mainToDo = some s') :
    WritesOnly s s' s.mainToDoAccesses := by
  unfold mainToDo at hstep
  unfold mainToDoAccesses
  by_cases hcalling : s.main.callingFunctors = false
  · rw [if_pos hcalling] at hstep ⊢
    split_ifs at hstep
    cases hstep
    exact .of_same rfl rfl
  · rw [if_neg hcalling] at hstep ⊢
    cases hnext : s.main.toDo.next with
    | none =>
        rw [hnext] at hstep
        cases hstep
        exact .of_same rfl rfl
    | some c =>
        rw [hnext] at hstep
        cases hstep
        refine ⟨fun hno => absurd List.mem_cons_self hno, fun loop _ => ?_⟩
        rw [timers_removeConnectionInLoop]
        rfl

theorem timers_setLoop_same (s : Server n) (i : Fin (n + 1)) {l : IoLoop}
    (h : l.timers = (s.loops i).timers) : (s.setLoop i l).timers = s.timers := by
  funext loop
  exact timers_setLoop s i l fun _ => h

theorem writesOnly_handle {i : Fin (n + 1)} {d : Dispatch} (hstep : s.handle i d = some s')
    {xs : List (Unlocked n × Mode)} : WritesOnly s s' xs := by
  unfold handle at hstep
  dsimp only at hstep
  split at hstep
  · exact nomatch hstep
  · split_ifs at hstep
    cases hstep
    exact .of_same rfl (timers_setLoop_same (s.setConn _ _) i rfl)

theorem writesOnly_call {i : Fin (n + 1)} (hstep : s.call i = some s')
    {xs : List (Unlocked n × Mode)} : WritesOnly s s' xs := by
  unfold call at hstep
  dsimp only at hstep
  split at hstep
  · exact nomatch hstep
  · split at hstep <;> cases hstep
    · exact .of_same rfl rfl
    · exact .of_same rfl (timers_setLoop_same s i rfl)
  · cases hstep
    exact .of_same rfl (timers_setLoop_same _ i rfl)

theorem writesOnly_overTime {i : Fin (n + 1)} {c : Nat} {expired : Bool}
    (hstep : s.overTime i c expired = some s') :
    WritesOnly s s' (s.overTimeAccesses i c expired) := by
  have hothers : ∀ loop : LoopThread n, loop ≠ .io i → ∀ l : IoLoop,
      (s.setLoop i l).timers loop = s.timers loop :=
    fun loop hloop l => timers_setLoop s i l fun heq => absurd heq hloop
  unfold overTime at hstep
  unfold overTimeAccesses
  dsimp only at hstep
  obtain ⟨-, hstep⟩ := Option.ite_none_right_eq_some.1 hstep
  by_cases halive : s.Alive c
  · rw [if_neg (not_not_intro halive)] at hstep ⊢
    by_cases hexpired : expired = false
    · rw [if_pos hexpired] at hstep ⊢
      cases hstep
      refine .of_handleTimers (fun _ => rfl) fun loop hloop hno => ?_
      cases loop with
      | main => exact absurd (List.mem_cons_of_mem _ List.mem_cons_self) hno
      | io j => exact hothers (.io j) hloop _
    · rw [if_neg hexpired] at hstep ⊢
      cases hstep
      exact .of_handleTimers (fun _ => rfl) fun loop hloop _ => hothers loop hloop _
  · rw [if_pos halive] at hstep ⊢
    cases hstep
    exact .of_handleTimers (fun _ => rfl) fun loop hloop _ => hothers loop hloop _

theorem writesOnly_toDo {i : Fin (n + 1)} (hstep : s.toDo i = some s')
    {xs : List (Unlocked n × Mode)} : WritesOnly s s' xs := by
  unfold toDo at hstep
  dsimp only at hstep
  split at hstep
  · exact nomatch hstep
  · split_ifs at hstep
    cases hstep
    exact .of_same rfl (timers_setLoop_same s i rfl)
  · split at hstep
    · cases hstep
      exact .of_same rfl (timers_setLoop_same s i rfl)
    · rename_i c _
      have hdestructor : (s.connectionDestructor c).connections = s.connections ∧
          (s.connectionDestructor c).loops = s.loops ∧
          (s.connectionDestructor c).timers = s.timers := by
        rcases s.connectionDestructor_cases c with ⟨-, heq⟩ | ⟨-, ch, -, -, heq⟩ <;> rw [heq] <;>
          exact ⟨rfl, rfl, rfl⟩
      obtain ⟨hconnections, hloops, htimers⟩ := hdestructor
      cases hstep
      split
      · refine .of_same hconnections ?_
        rw [timers_setLoop_same _ i (by rw [hloops]), htimers]
      · exact .of_same hconnections htimers

theorem writesOnly_step {a : Act n} (hstep : s.step a = some s') :
    WritesOnly s s' (s.accesses a) := by
  obtain ⟨-, hstep⟩ := Option.ite_none_right_eq_some.1 hstep
  cases a with
  | accept fd =>
      obtain ⟨-, heq⟩ := Option.ite_none_right_eq_some.1 hstep
      cases heq
      exact .of_same rfl rfl
  | newConnection => exact writesOnly_newConnection hstep
  | mainOverTime c expired => exact writesOnly_mainOverTime hstep
  | mainToDo => exact writesOnly_mainToDo hstep
  | poll i batch =>
      obtain ⟨-, heq⟩ := Option.ite_none_right_eq_some.1 hstep
      cases heq
      exact .of_same rfl (timers_setLoop_same s i rfl)
  | handle i d => exact writesOnly_handle hstep
  | call i => exact writesOnly_call hstep
  | overTime i c expired => exact writesOnly_overTime hstep
  | toDo i => exact writesOnly_toDo hstep

/-! ## Where a step leaves its own -/

def Within (s : Server n) (a : Act n) : Prop := ∀ x ∈ s.accesses a, x.1.owner = a.thread

theorem within_newConnection_iff :
    s.Within .newConnection ↔ ∀ c, s.main.accepting ≠ some (c, .reading) := by
  show (∀ x ∈ s.newConnectionAccesses, x.1.owner = .main) ↔ _
  unfold newConnectionAccesses
  split
  · rename_i c haccepting
    rw [haccepting]
    refine iff_of_true ?_ fun c heq => nomatch heq
    simp [Unlocked.owner]
  · rename_i c haccepting
    refine iff_of_false (fun h => ?_) fun h => h c haccepting
    have howner := h _ List.mem_cons_self
    cases howner
  · rename_i hother
    exact iff_of_true (List.forall_mem_nil _) fun c heq => hother c heq

theorem within_call_iff {i : Fin (n + 1)} :
    s.Within (.call i) ↔ ∀ c rest, (s.loops i).calls ≠ .find c :: rest := by
  show (∀ x ∈ s.callAccesses i, x.1.owner = .io i) ↔ _
  unfold callAccesses
  split
  · rename_i c rest hcalls
    refine iff_of_false (fun h => ?_) fun h => h c rest hcalls
    have howner := h _ List.mem_cons_self
    cases howner
  · rename_i hother
    exact iff_of_true (List.forall_mem_nil _) fun c rest heq => hother c rest heq

/-- The main loop's own timers and functors leave nothing. -/
theorem within_of_main {a : Act n} (ha : a.thread = .main) (hnew : a ≠ .newConnection) :
    s.Within a := by
  cases a with
  | accept fd => exact List.forall_mem_nil _
  | newConnection => exact absurd rfl hnew
  | mainOverTime c expired =>
      show ∀ x ∈ s.mainOverTimeAccesses c expired, x.1.owner = .main
      unfold mainOverTimeAccesses
      split_ifs <;> simp [handleTimers, insertTimer, findConnection, eraseConnection, Unlocked.owner]
  | mainToDo =>
      show ∀ x ∈ s.mainToDoAccesses, x.1.owner = .main
      unfold mainToDoAccesses
      split_ifs
      · exact List.forall_mem_nil _
      · split <;> simp [eraseConnection, Unlocked.owner]
  | poll i batch | handle i d | call i | overTime i c expired | toDo i => cases ha

end Server

/-! ## Runs -/

structure Watched (n : Nat) where
  server : Server n := {}
  log : List (Access n) := []

namespace Watched

variable {n : Nat} {w w' : Watched n}

def step (w : Watched n) (a : Server.Act n) : Option (Watched n) :=
  (w.server.step a).map fun s =>
    ⟨s, w.log ++ (w.server.accesses a).map fun x => ⟨a.thread, x.1, x.2⟩⟩

/-- Only its own thread has touched `connections_` and the timers of a loop. -/
def Confined (w : Watched n) : Prop := ∀ x ∈ w.log, x.thread = x.object.owner

/-- No `NewConnection` gets to its callback, and no `Server::RemoveConnection` is called on an I/O
loop. -/
def KeepsApart (w : Watched n) : Server.Act n → Prop
  | .newConnection => ∀ c, w.server.main.accepting ≠ some (c, .reading)
  | .call i => ∀ c rest, (w.server.loops i).calls ≠ .find c :: rest
  | _ => True

def Unarmed (w : Watched n) : Prop := ∀ i, (w.server.loops i).timers = []

theorem of_step {a : Server.Act n} (hstep : w.step a = some w') :
    w.server.step a = some w'.server ∧
      w'.log = w.log ++ (w.server.accesses a).map fun x => ⟨a.thread, x.1, x.2⟩ := by
  obtain ⟨s, hs, rfl⟩ := Option.map_eq_some_iff.1 hstep
  exact ⟨hs, rfl⟩

theorem confined_step_iff (h : w.Confined) {a : Server.Act n} (hstep : w.step a = some w') :
    w'.Confined ↔ w.server.Within a := by
  obtain ⟨-, hlog⟩ := of_step hstep
  unfold Confined Server.Within
  rw [hlog]
  constructor
  · intro hall x hx
    exact (hall _ (List.mem_append_right _ (List.mem_map.2 ⟨x, hx, rfl⟩))).symm
  · intro hown x hx
    rcases List.mem_append.1 hx with hx | hx
    · exact h x hx
    · obtain ⟨y, hy, rfl⟩ := List.mem_map.1 hx
      exact (hown y hy).symm

/-- Without timers of its own an I/O loop has no `OverTime` to run. -/
theorem Unarmed.step_overTime (h : w.Unarmed) (i : Fin (n + 1)) (c : Nat) (expired : Bool) :
    w.step (.overTime i c expired) ≠ some w' := by
  intro hstep
  obtain ⟨hserver, -⟩ := of_step hstep
  obtain ⟨-, hserver⟩ := Option.ite_none_right_eq_some.1 hserver
  obtain ⟨⟨-, -, hmem⟩, -⟩ := Option.ite_none_right_eq_some.1 hserver
  rw [h i] at hmem
  cases hmem

theorem Unarmed.within_iff (h : w.Unarmed) {a : Server.Act n} (hstep : w.step a = some w') :
    w.server.Within a ↔ w.KeepsApart a := by
  cases a with
  | newConnection => exact Server.within_newConnection_iff
  | call i => exact Server.within_call_iff
  | overTime i c expired => exact absurd hstep (h.step_overTime i c expired)
  | accept fd | mainOverTime c expired | mainToDo =>
      exact iff_of_true (Server.within_of_main rfl fun hno => nomatch hno) trivial
  | poll i batch | handle i d | toDo i => exact iff_of_true (List.forall_mem_nil _) trivial

/-- The one step that would write them on the main loop's thread is the callback's. -/
theorem Unarmed.step (h : w.Unarmed) {a : Server.Act n} (hq : w.KeepsApart a)
    (hstep : w.step a = some w') : w'.Unarmed := by
  intro i
  obtain ⟨hserver, -⟩ := of_step hstep
  have hframe := (Server.writesOnly_step hserver).timers (.io i)
  refine Eq.trans (hframe fun hmem => ?_) (h i)
  have howner : LoopThread.io i = a.thread := (h.within_iff hstep).2 hq _ hmem
  cases a with
  | accept fd | newConnection | mainOverTime c expired | mainToDo => cases howner
  | poll j batch | handle j d | toDo j => cases hmem
  | overTime j c expired => exact h.step_overTime j c expired hstep
  | call j =>
      have hnone : w.server.callAccesses j = [] := by
        unfold Server.callAccesses
        split
        · rename_i c rest hcalls
          exact absurd hcalls (hq c rest)
        · rfl
      rw [Server.accesses, hnone] at hmem
      cases hmem

/-- **Confinement.** In every state of a run the map and the timers have been touched by their own
threads only, exactly when in each step no connection gets to its callback and no removal is asked
for on an I/O loop. -/
theorem ownThreads_iff (acts : List (Server.Act n)) :
    Lib.Always step Confined {} acts ↔ Lib.Each step KeepsApart {} acts := by
  have hstart : Unarmed ({} : Watched n) ∧ Confined ({} : Watched n) :=
    ⟨fun _ => rfl, List.forall_mem_nil _⟩
  refine Lib.always_iff_each (fun w => Unarmed w ∧ Confined w) (fun _ h => h.2) ?_ ?_ hstart acts
  · intro w a w' h hq hstep
    exact ⟨h.1.step hq hstep, (confined_step_iff h.2 hstep).2 ((h.1.within_iff hstep).2 hq)⟩
  · intro w a w' h hq hstep hconfined
    exact hq ((h.1.within_iff hstep).1 ((confined_step_iff h.2 hstep).1 hconfined))

def earlyRun : List (Server.Act 0) :=
  [.accept 5, .newConnection, .newConnection, .newConnection, .newConnection,
    .poll Server.only [(0, ⟨true, false⟩)], .handle Server.only Server.readEof, .call Server.only]

def renewedRun : List (Server.Act 0) :=
  Server.establish ++
    [.poll Server.only [(0, ⟨true, false⟩)], .overTime Server.only 0 false]

theorem not_confined_of_last {acts : List (Server.Act 0)} {x : Access 0}
    (hend : (Lib.runFrom step ({} : Watched 0) acts).map (fun w => w.log.getLast?) = some (some x))
    (hx : x.thread ≠ x.object.owner) : ¬ Lib.Always step Confined {} acts := by
  intro h
  obtain ⟨w, hall, hw⟩ := h.exists_end hend
  exact hx (hall x (List.mem_of_getLast? hw))

/-- The main loop's thread sets the first timer on the I/O loop, the I/O loop's thread looks a
connection up, and it sets the next timer on the main loop. -/
theorem not_confined_establish :
    ¬ Lib.Always step Confined {} Server.establish ∧ ¬ Lib.Always step Confined {} earlyRun ∧
      (Lib.runFrom step {} renewedRun).map (fun w => w.log.getLast?) =
        some (some ⟨.io Server.only, .timers .main, .write⟩) := by
  have htimer : (Lib.runFrom step ({} : Watched 0) Server.establish).map
      (fun w => w.log.getLast?) = some (some ⟨.main, .timers (.io Server.only), .write⟩) := by
    decide
  have hfind : (Lib.runFrom step ({} : Watched 0) earlyRun).map
      (fun w => w.log.getLast?) = some (some ⟨.io Server.only, .connections, .read⟩) := by
    decide
  refine ⟨not_confined_of_last htimer ?_, not_confined_of_last hfind ?_, ?_⟩
  · exact fun hno => nomatch hno
  · exact fun hno => nomatch hno
  · decide

end Watched

end CPlusServer

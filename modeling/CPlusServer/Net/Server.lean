import CPlusServer.Net.Connection
import CPlusServer.Net.EventLoop
import Mathlib.Data.Fintype.Basic
import Mathlib.Logic.Function.Basic

/-!
# Server and its loops

One main loop and `n + 1` I/O loops, each taking a step of its own at a time. A
connection is its number in the order of `accept`; it lives as long as a
`shared_ptr` to it is held somewhere. An I/O loop handles its whole batch, then
runs the functors that were queued. A handler is one step up to its calls of
`Server::RemoveConnection`, and each of these is two: the lookup in
`connections_` and the queueing on the main loop.
-/

namespace CPlusServer

/-- What a handler has still to do for a call of `Server::RemoveConnection`. -/
inductive Removal
  | find (c : Nat)
  | queue (c : Nat)
  deriving DecidableEq

def Removal.conn : Removal → Nat
  | .find c | .queue c => c

inductive Phase
  | poll | batch | functors
  deriving DecidableEq

/-- `toDo` holds the connections bound to `ConnectionDestructor`, `batch` the channels that
`Poll` returned and that are not handled yet, `calls` the rest of the handler that is running,
and `timers` the connections whose `OverTime` timer is in the loop's `TimeQueue`. -/
structure IoLoop where
  phase : Phase := .poll
  toDo : ToDo Nat := {}
  batch : List (Nat × Ready) := []
  calls : List Removal := []
  timers : List Nat := []

inductive Stage
  | constructed | registered | inserted | tied | reading
  deriving DecidableEq

/-- `toDo` holds the connections bound to `RemoveConnectionInLoop`, and `accepting` the local
`clnt_conn` of a `NewConnection` in progress. -/
structure MainLoop where
  callingFunctors : Bool := false
  toDo : ToDo Nat := {}
  accepting : Option (Nat × Stage) := none
  timers : List Nat := []

inductive Exit
  | notFound | notInEpoll
  deriving DecidableEq

/-- `destructed` counts the calls of `ConnectionDestructor` so far; the code has no such count. -/
structure Server (n : Nat) where
  created : Nat := 0
  conns : Nat → Connection n := fun _ => { fd := 0, loop := 0 }
  connections : Nat → Option Nat := fun _ => none
  nextLoop : Fin (n + 1) := 0
  main : MainLoop := {}
  loops : Fin (n + 1) → IoLoop := fun _ => {}
  exited : Option Exit := none
  destructed : Nat → Nat := fun _ => 0

namespace Server

variable {n : Nat}

def setConn (s : Server n) (c : Nat) (x : Connection n) : Server n :=
  { s with conns := Function.update s.conns c x }

def setChannel (s : Server n) (c : Nat) (ch : Channel) : Server n :=
  s.setConn c { s.conns c with channel := ch }

def setLoop (s : Server n) (i : Fin (n + 1)) (l : IoLoop) : Server n :=
  { s with loops := Function.update s.loops i l }

/-! ## Who holds a connection -/

def Mapped (s : Server n) (c : Nat) : Prop := s.connections (s.conns c).fd = some c

def Accepting (s : Server n) (c : Nat) : Prop := s.main.accepting.map Prod.fst = some c

/-- A `shared_ptr` to the connection is held: by `connections_`, the local of `NewConnection`, a
functor of the main loop or of an I/O loop, or a handler. -/
def Alive (s : Server n) (c : Nat) : Prop :=
  s.Mapped c ∨ s.Accepting c ∨ c ∈ s.main.toDo.held ∨
    ∃ i, c ∈ (s.loops i).toDo.held ∨ c ∈ (s.loops i).calls.map Removal.conn

instance (s : Server n) (c : Nat) : Decidable (s.Mapped c) :=
  inferInstanceAs (Decidable (_ = _))

instance (s : Server n) (c : Nat) : Decidable (s.Accepting c) :=
  inferInstanceAs (Decidable (_ = _))

instance (s : Server n) (c : Nat) : Decidable (s.Alive c) :=
  inferInstanceAs (Decidable (_ ∨ _ ∨ _ ∨ ∃ _, _ ∨ _))

/-! ## The main loop -/

def construct (s : Server n) (fd : Nat) : Server n :=
  { s with
    created := s.created + 1
    conns := Function.update s.conns s.created { fd := fd, loop := s.nextLoop }
    nextLoop := s.nextLoop + 1
    main := { s.main with accepting := some (s.created, .constructed) } }

/-- `Accept` and the constructor of the connection. An fd that is open is not given again. -/
def accept (s : Server n) (fd : Nat) : Option (Server n) :=
  if s.main.callingFunctors = false ∧ s.main.accepting = none ∧
      ∀ c < s.created, s.Alive c → (s.conns c).fd ≠ fd then
    some (s.construct fd)
  else none

def setStage (s : Server n) (c : Nat) (stage : Stage) : Server n :=
  { s with main := { s.main with accepting := some (c, stage) } }

/-- The rest of `NewConnection`, a statement at a time: `SetET`, the entry in `connections_`, and
in `ConnectionEstablished` `Tie`, `EnableReading` and the callback, which starts the timer. -/
def newConnection (s : Server n) : Option (Server n) :=
  match s.main.accepting with
  | none => none
  | some (c, .constructed) =>
      some ((s.setChannel c (s.conns c).channel.useET).setStage c .registered)
  | some (c, .registered) =>
      some ({ s with connections := Function.update s.connections (s.conns c).fd (some c) }.setStage
        c .inserted)
  | some (c, .inserted) =>
      some ((s.setChannel c (s.conns c).channel.tie).setStage c .tied)
  | some (c, .tied) =>
      some ((s.setChannel c (s.conns c).channel.enableReading).setStage c .reading)
  | some (c, .reading) =>
      let i := (s.conns c).loop
      let s := s.setLoop i { s.loops i with timers := (s.loops i).timers ++ [c] }
      some { s with main := { s.main with accepting := none } }

def removeConnectionInLoop (s : Server n) (c : Nat) : Server n :=
  let i := (s.conns c).loop
  { s with connections := Function.update s.connections (s.conns c).fd none }.setLoop i
    { s.loops i with toDo := (s.loops i).toDo.queueOneFunc c }

/-- `OverTime` on the main loop, where `RunOneFunc` calls its functor at once. -/
def mainOverTime (s : Server n) (c : Nat) (expired : Bool) : Option (Server n) :=
  if s.main.callingFunctors = false ∧ s.main.accepting = none ∧ c ∈ s.main.timers then
    let rest := { s with main := { s.main with timers := s.main.timers.erase c } }
    if ¬ s.Alive c then some rest
    else if expired = false then
      some { s with main := { s.main with timers := s.main.timers.erase c ++ [c] } }
    else if s.connections (s.conns c).fd = none then some { rest with exited := some .notFound }
    else some (rest.removeConnectionInLoop c)
  else none

def mainToDo (s : Server n) : Option (Server n) :=
  if s.main.callingFunctors = false then
    if s.main.accepting = none then
      some { s with main := { s.main with callingFunctors := true, toDo := s.main.toDo.swap } }
    else none
  else
    match s.main.toDo.next with
    | none =>
        some { s with main := { s.main with callingFunctors := false, toDo := s.main.toDo.finish } }
    | some c =>
        some ({ s with main := { s.main with toDo := s.main.toDo.advance } }.removeConnectionInLoop c)

/-! ## An I/O loop -/

def covers (mask : Events) (ready : Ready) : Bool :=
  (!ready.read || mask.read) && (!ready.write || mask.write)

/-- epoll reports a registered fd of its loop, and the events of its mask only. -/
def Reported (s : Server n) (i : Fin (n + 1)) (p : Nat × Ready) : Prop :=
  (s.conns p.1).loop = i ∧
    (s.conns p.1).channel.registered.any (fun mask => covers mask p.2) = true

instance (s : Server n) (i : Fin (n + 1)) : DecidablePred (s.Reported i) := fun _ =>
  inferInstanceAs (Decidable (_ ∧ _))

def poll (s : Server n) (i : Fin (n + 1)) (batch : List (Nat × Ready)) : Option (Server n) :=
  if (s.loops i).phase = .poll ∧ (batch.map Prod.fst).Nodup ∧ ∀ p ∈ batch, s.Reported i p then
    some (s.setLoop i { s.loops i with phase := .batch, batch := batch })
  else none

/-- The calls of `Server::RemoveConnection` among the effects of a handler. -/
def removals (c : Nat) (es : List Effect) : List Removal :=
  es.flatMap fun e => if e = .removeConnection then [.find c, .queue c] else []

def handle (s : Server n) (i : Fin (n + 1)) (d : Dispatch) : Option (Server n) :=
  let l := s.loops i
  match l.batch with
  | [] => none
  | (c, ready) :: rest =>
      if l.phase = .batch ∧ l.calls = [] then
        let (x, es) := (s.conns c).handleEvent ready d
        some ((s.setConn c x).setLoop i { l with batch := rest, calls := removals c es })
      else none

def call (s : Server n) (i : Fin (n + 1)) : Option (Server n) :=
  let l := s.loops i
  match l.calls with
  | [] => none
  | .find c :: rest =>
      if s.connections (s.conns c).fd = none then some { s with exited := some .notFound }
      else some (s.setLoop i { l with calls := rest })
  | .queue c :: rest =>
      some ({ s with main := { s.main with toDo := s.main.toDo.queueOneFunc c } }.setLoop i
        { l with calls := rest })

/-- `OverTime` on an I/O loop. Its timer is set again on the main loop. -/
def overTime (s : Server n) (i : Fin (n + 1)) (c : Nat) (expired : Bool) : Option (Server n) :=
  let l := s.loops i
  if l.phase = .batch ∧ l.calls = [] ∧ c ∈ l.timers then
    let l := { l with timers := l.timers.erase c }
    if ¬ s.Alive c then some (s.setLoop i l)
    else if expired = false then
      some ({ s with main := { s.main with timers := s.main.timers ++ [c] } }.setLoop i l)
    else some (s.setLoop i { l with calls := [.find c, .queue c] })
  else none

def connectionDestructor (s : Server n) (c : Nat) : Server n :=
  let s := { s with destructed := Function.update s.destructed c (s.destructed c + 1) }
  match (s.conns c).channel.removeInEpoll with
  | none => { s with exited := some .notInEpoll }
  | some ch => s.setChannel c ch

def toDo (s : Server n) (i : Fin (n + 1)) : Option (Server n) :=
  let l := s.loops i
  match l.phase with
  | .poll => none
  | .batch =>
      if l.batch = [] ∧ l.calls = [] then
        some (s.setLoop i { l with phase := .functors, toDo := l.toDo.swap })
      else none
  | .functors =>
      match l.toDo.next with
      | none => some (s.setLoop i { l with phase := .poll, toDo := l.toDo.finish })
      | some c =>
          let s := s.connectionDestructor c
          some (if s.exited = none then s.setLoop i { l with toDo := l.toDo.advance } else s)

/-! ## Runs -/

inductive Act (n : Nat)
  | accept (fd : Nat)
  | newConnection
  | mainOverTime (c : Nat) (expired : Bool)
  | mainToDo
  | poll (i : Fin (n + 1)) (batch : List (Nat × Ready))
  | handle (i : Fin (n + 1)) (d : Dispatch)
  | call (i : Fin (n + 1))
  | overTime (i : Fin (n + 1)) (c : Nat) (expired : Bool)
  | toDo (i : Fin (n + 1))

/-- The step of one loop; none where the loop cannot take it or the process has ended. -/
def step (s : Server n) (a : Act n) : Option (Server n) :=
  if s.exited = none then
    match a with
    | .accept fd => s.accept fd
    | .newConnection => s.newConnection
    | .mainOverTime c expired => s.mainOverTime c expired
    | .mainToDo => s.mainToDo
    | .poll i batch => s.poll i batch
    | .handle i d => s.handle i d
    | .call i => s.call i
    | .overTime i c expired => s.overTime i c expired
    | .toDo i => s.toDo i
  else none

end Server

end CPlusServer

import CPlusServer.Net.Buffer
import CPlusServer.Net.Input

/-!
# The input buffer

The read events of a connection of the server on the buffer itself. The vector
starts out empty under two indices of 8 and is as long as the longest input so
far needs; every event starts over behind the same eight bytes, whatever the
handler before it has left.
-/

namespace CPlusServer

def SERV_BUFFER : Nat := 1024

structure InputSide where
  state : ConnState := .connected
  inputBuffer : Buffer := {}

inductive InputCall
  | readInputBufferSize
  | readInputBuffer
  | retriveInputBuffer

namespace InputSide

def readLoop (c : InputSide) : List ReadResult → Except Buffer.Fault (Option InputSide)
  | [] => .ok none
  | .data first rest :: rs => do
      let inputBuffer ← c.inputBuffer.append (first :: rest)
      readLoop { c with inputBuffer := inputBuffer } rs
  | .eintr :: rs => readLoop c rs
  | .eagain :: _ => .ok (some c)
  | .eof :: _ | .error :: _ => .ok (some { c with state := .closed })

/-- One that is not connected is removed, and nothing is read. -/
def read (c : InputSide) (rs : List ReadResult) : Except Buffer.Fault (Option InputSide) :=
  if c.state ≠ .connected then .ok (some c)
  else readLoop { c with inputBuffer := c.inputBuffer.retreiveAll } rs

def readInputBufferSize (c : InputSide) : Int := c.inputBuffer.readableBytes

def readInputBuffer (c : InputSide) : Except Buffer.Fault Bytes := c.inputBuffer.peekAllString

def retriveInputBuffer (c : InputSide) : Except Buffer.Fault (InputSide × Bytes) := do
  let result ← c.inputBuffer.retreiveAllAsString
  return ({ c with inputBuffer := result.1 }, result.2)

def call (c : InputSide) : InputCall → Except Buffer.Fault InputSide
  | .readInputBufferSize => .ok c
  | .readInputBuffer => do
      let _ ← c.readInputBuffer
      return c
  | .retriveInputBuffer => do
      let result ← c.retriveInputBuffer
      return result.1

/-- `handle_read_func_` with its calls; `closes` says that it leaves the connection closed. It is
called for a connected one. -/
def handleRead (c : InputSide) (calls : List InputCall) (closes : Bool) :
    Except Buffer.Fault InputSide :=
  if c.state ≠ .connected then .ok c
  else do
    let c ← calls.foldlM call c
    return if closes then { c with state := .closed } else c

/-! ## The byte queue -/

def received : List ReadResult → Bytes
  | .data first rest :: rs => first :: rest ++ received rs
  | .eintr :: rs => received rs
  | _ => []

/-- No append of the loop moves the content to the front. -/
def NeverCompacts (b : Buffer) : List ReadResult → Prop
  | .data first rest :: rs => ¬ b.Compacts (first :: rest).length ∧
      ∀ b', b.append (first :: rest) = .ok b' → NeverCompacts b' rs
  | .eintr :: rs => NeverCompacts b rs
  | _ => True

/-- The buffer holds the input of the connection behind its first eight bytes. -/
structure Shows {n : Nat} (c : InputSide) (s : Connection n) : Prop where
  state : c.state = s.state
  input : c.inputBuffer.Holds s.inputBuffer
  front : c.inputBuffer.readIndex = kPrependIndex

/-- Room in front of the content is what compacting would use. -/
theorem not_compacts_of_front {b : Buffer} (hfront : b.readIndex = kPrependIndex) (len : Int) :
    ¬ b.Compacts len := by
  intro hc
  have hroom := hc.1
  have hgap := hc.2
  omega

theorem readIndex_append {b b' : Buffer} {data : Bytes} (hfront : b.readIndex = kPrependIndex)
    (h : b.append data = .ok b') : b'.readIndex = kPrependIndex := by
  obtain ⟨b₁, hensure, h⟩ := ok_of_bind_ok h
  obtain ⟨v, -, h⟩ := ok_of_bind_ok h
  cases h
  obtain ⟨writable, -, hensure⟩ := ok_of_bind_ok hensure
  split at hensure
  · obtain ⟨room, -, hensure⟩ := ok_of_bind_ok hensure
    obtain ⟨need, -, hensure⟩ := ok_of_bind_ok hensure
    split at hensure
    · obtain ⟨size, -, hensure⟩ := ok_of_bind_ok hensure
      cases hensure
      exact hfront
    · obtain ⟨content, -, hensure⟩ := ok_of_bind_ok hensure
      obtain ⟨moved, -, hensure⟩ := ok_of_bind_ok hensure
      cases hensure
      rfl
  · cases hensure
    exact hfront

variable {n : Nat} {c : InputSide} {s : Connection n}

theorem Shows.append (h : c.Shows s) {data : Bytes}
    (hsmall : s.inputBuffer.length + data.length < 2 ^ 31 - 8) :
    ∃ b, c.inputBuffer.append data = .ok b ∧
      Shows { c with inputBuffer := b } { s with inputBuffer := s.inputBuffer ++ data } := by
  have hwrite := h.input.write_eq
  have hfront := h.front
  unfold kPrependIndex at hfront
  have hfits : c.inputBuffer.Fits data := ⟨not_compacts_of_front h.front _, by omega⟩
  obtain ⟨b, happend, hholds⟩ := h.input.append hfits
  exact ⟨b, happend, h.state, hholds, readIndex_append h.front happend⟩

theorem Shows.readLoop (h : c.Shows s) {rs : List ReadResult}
    (hsmall : s.inputBuffer.length + (received rs).length < 2 ^ 31 - 8) :
    (∃ r, c.readLoop rs = .ok r ∧ Option.Rel Shows r ((s.readLoop rs).map Prod.fst)) ∧
      NeverCompacts c.inputBuffer rs := by
  induction rs generalizing c s with
  | nil => exact ⟨⟨none, rfl, .none⟩, trivial⟩
  | cons r rs ih =>
      cases r with
      | data first rest =>
          unfold received at hsmall
          rw [List.length_append] at hsmall
          obtain ⟨b, happend, hshows⟩ := @Shows.append n c s h (first :: rest) (by omega)
          have hrest := ih hshows (by
            rw [List.length_append]
            omega)
          refine ⟨?_, not_compacts_of_front h.front _, fun b' hb' => ?_⟩
          · unfold InputSide.readLoop
            rw [happend]
            exact hrest.1
          · rw [happend] at hb'
            cases hb'
            exact hrest.2
      | eintr => exact ih h hsmall
      | eagain => exact ⟨⟨_, rfl, .some h⟩, trivial⟩
      | eof | error => exact ⟨⟨_, rfl, .some ⟨rfl, h.input, h.front⟩⟩, trivial⟩

theorem Shows.retreiveAll (h : c.Shows s) :
    Shows { c with inputBuffer := c.inputBuffer.retreiveAll } { s with inputBuffer := [] } :=
  ⟨h.state, h.input.retreiveAll, rfl⟩

/-- Whatever a read event brings that is not too long, the buffer shows what the byte queue says,
from what any handler has left. -/
theorem Shows.read (h : c.Shows s) (hstate : c.state = .connected) {rs : List ReadResult}
    (hsmall : (received rs).length < 2 ^ 31 - 8) :
    (∃ r, c.read rs = .ok r ∧
      Option.Rel Shows r ((readCall rs).map fun call => (s.read call.1 call.2).1)) ∧
      NeverCompacts c.inputBuffer.retreiveAll rs := by
  have hread (call : List Bytes × ReadEnd) : s.read call.1 call.2 =
      Connection.readNonBlocking { s with inputBuffer := [] } call.1 call.2 :=
    if_neg (not_not_intro (h.state.symm.trans hstate))
  obtain ⟨⟨r, hr, hrel⟩, hnever⟩ := @Shows.readLoop n _ _ h.retreiveAll rs (by
    rw [List.length_nil]
    omega)
  refine ⟨⟨r, ?_, ?_⟩, hnever⟩
  · unfold InputSide.read
    rw [if_neg (not_not_intro hstate)]
    exact hr
  · rw [Connection.readLoop_eq, Option.map_map] at hrel
    simp only [hread]
    exact hrel

end InputSide

/-! ## Runs -/

/-- What a call of `read` brings: at least a byte, and no more than the array takes. -/
structure Chunk where
  first : UInt8
  rest : Bytes
  fits : (first :: rest).length ≤ SERV_BUFFER

def Chunk.bytes (chunk : Chunk) : Bytes := chunk.first :: chunk.rest

/-- A read event: chunks and, where there is none, an EINTR, up to the EAGAIN; what the handler then
calls on the input; and whether it leaves the connection closed. -/
structure ReadEvent where
  arrived : List (Option Chunk)
  calls : List InputCall
  closes : Bool
  small : (arrived.flatMap fun chunk => (chunk.map Chunk.bytes).getD []).length < 2 ^ 31 - 8

namespace ReadEvent

def data (e : ReadEvent) : Bytes := e.arrived.flatMap fun chunk => (chunk.map Chunk.bytes).getD []

def result : Option Chunk → ReadResult
  | some chunk => .data chunk.first chunk.rest
  | none => .eintr

def results (e : ReadEvent) : List ReadResult := e.arrived.map result ++ [.eagain]

theorem received_results (e : ReadEvent) : InputSide.received e.results = e.data := by
  unfold results data
  induction e.arrived with
  | nil => rfl
  | cons chunk arrived ih =>
      cases chunk with
      | none => exact ih
      | some chunk =>
          rw [List.map_cons, List.cons_append, List.flatMap_cons, ← ih]
          rfl

theorem readCall_results (e : ReadEvent) :
    ∃ chunks, readCall e.results = some (chunks, .eagain) ∧ chunks.flatten = e.data := by
  unfold results data
  induction e.arrived with
  | nil => exact ⟨[], rfl, rfl⟩
  | cons chunk arrived ih =>
      obtain ⟨chunks, hcall, hdata⟩ := ih
      cases chunk with
      | none => exact ⟨chunks, hcall, hdata⟩
      | some chunk =>
          refine ⟨chunk.bytes :: chunks, ?_, ?_⟩
          · rw [List.map_cons, List.cons_append, result, readCall, hcall]
            rfl
          · rw [List.flatten_cons, List.flatMap_cons, hdata]
            rfl

end ReadEvent

namespace InputSide

/-- The handler is called and finds these bytes, by both of its calls. -/
def Offers (c : InputSide) (data : Bytes) : Prop :=
  c.state = .connected ∧ c.readInputBufferSize = data.length ∧
    ∃ c', c.retriveInputBuffer = .ok (c', data)

/-- No event of the run faults, and each event of a connection in use compacts nothing and offers
its handler its own bytes. -/
def Intact (c : InputSide) : List ReadEvent → Prop
  | [] => True
  | e :: es => ∃ c', c.read e.results = .ok (some c') ∧
      (c.state = .connected →
        NeverCompacts c.inputBuffer.retreiveAll e.results ∧ c'.Offers e.data) ∧
      ∃ c'', c'.handleRead e.calls e.closes = .ok c'' ∧ Intact c'' es

variable {n : Nat} {c : InputSide} {s : Connection n}

theorem Shows.retriveInputBuffer (h : c.Shows s) :
    ∃ c', c.retriveInputBuffer = .ok (c', s.inputBuffer) ∧
      c'.Shows { s with inputBuffer := [] } := by
  refine ⟨{ c with inputBuffer := c.inputBuffer.retreiveAll }, ?_, h.retreiveAll⟩
  unfold InputSide.retriveInputBuffer Buffer.retreiveAllAsString
  rw [h.input.peekAllString]
  rfl

theorem Shows.call (h : c.Shows s) (a : InputCall) :
    ∃ c' q, c.call a = .ok c' ∧ c'.Shows { s with inputBuffer := q } := by
  cases a with
  | readInputBufferSize => exact ⟨c, s.inputBuffer, rfl, h⟩
  | readInputBuffer =>
      refine ⟨c, s.inputBuffer, ?_, h⟩
      unfold InputSide.call InputSide.readInputBuffer
      dsimp only
      rw [h.input.peekAllString]
      rfl
  | retriveInputBuffer =>
      obtain ⟨c', hretrive, hshows⟩ := h.retriveInputBuffer
      refine ⟨c', [], ?_, hshows⟩
      unfold InputSide.call
      dsimp only
      rw [hretrive]
      rfl

theorem Shows.calls (h : c.Shows s) (calls : List InputCall) :
    ∃ c' q, calls.foldlM InputSide.call c = .ok c' ∧ c'.Shows { s with inputBuffer := q } := by
  induction calls generalizing c s with
  | nil => exact ⟨c, s.inputBuffer, rfl, h⟩
  | cons a calls ih =>
      obtain ⟨c₁, q₁, hcall, hshows⟩ := h.call a
      obtain ⟨c', q, hcalls, hlast⟩ := ih hshows
      refine ⟨c', q, ?_, hlast⟩
      rw [List.foldlM_cons, hcall]
      exact hcalls

theorem Shows.handleRead (h : c.Shows s) (calls : List InputCall) (closes : Bool) :
    ∃ (c' : InputSide) (s' : Connection n),
      c.handleRead calls closes = .ok c' ∧ c'.Shows s' := by
  unfold InputSide.handleRead
  by_cases hstate : c.state = .connected
  · obtain ⟨c', q, hcalls, hshows⟩ := h.calls calls
    rw [if_neg (not_not_intro hstate), hcalls]
    cases closes with
    | false => exact ⟨c', _, rfl, hshows⟩
    | true =>
        exact ⟨{ c' with state := .closed }, { s with inputBuffer := q, state := .closed }, rfl,
          rfl, hshows.input, hshows.front⟩
  · rw [if_pos hstate]
    exact ⟨c, s, rfl, h⟩

theorem Shows.offers (h : c.Shows s) (hstate : s.state = .connected) : c.Offers s.inputBuffer := by
  obtain ⟨c', hretrive, -⟩ := h.retriveInputBuffer
  exact ⟨h.state.trans hstate, h.input.readable, c', hretrive⟩

theorem Shows.event (h : c.Shows s) (hstate : c.state = .connected) (e : ReadEvent) :
    ∃ c', c.read e.results = .ok (some c') ∧ NeverCompacts c.inputBuffer.retreiveAll e.results ∧
      c'.Shows { s with inputBuffer := e.data } := by
  have hsmall : (received e.results).length < 2 ^ 31 - 8 := by
    rw [e.received_results]
    exact e.small
  obtain ⟨⟨r, hr, hrel⟩, hnever⟩ := h.read hstate hsmall
  obtain ⟨chunks, hcall, hdata⟩ := e.readCall_results
  have hqueue : (s.read chunks .eagain).1 = { s with inputBuffer := e.data } := by
    unfold Connection.read
    rw [if_neg (not_not_intro (h.state.symm.trans hstate)), ← hdata]
    rfl
  rw [hcall] at hrel
  cases hrel with
  | some hshows =>
      refine ⟨_, hr, hnever, ?_⟩
      rw [← hqueue]
      exact hshows

theorem Shows.intact (h : c.Shows s) (es : List ReadEvent) : c.Intact es := by
  induction es generalizing c s with
  | nil => trivial
  | cons e es ih =>
      by_cases hstate : c.state = .connected
      · obtain ⟨c', hread, hnever, hshows⟩ := h.event hstate e
        obtain ⟨c'', s'', hhandle, hnext⟩ := hshows.handleRead e.calls e.closes
        exact ⟨c', hread, fun _ => ⟨hnever, hshows.offers (h.state.symm.trans hstate)⟩, c'', hhandle,
          ih hnext⟩
      · have hhandle : c.handleRead e.calls e.closes = .ok c := if_pos hstate
        exact ⟨c, if_pos hstate, fun hno => absurd hno hstate, c, hhandle, ih h⟩

theorem shows_fresh : Shows {} ({ fd := 0, loop := 0, channel := {} } : Connection 0) :=
  ⟨rfl, Buffer.holds_fresh, rfl⟩

/-- **Incoming data.** Whatever chunks and interrupts the read events of a connection bring and
whatever its handlers do with the input, each event offers its handler its own bytes, no append
leaves the vector, and none compacts it. -/
theorem arrives_of_run (es : List ReadEvent) : Intact {} es := shows_fresh.intact es

end InputSide

end CPlusServer

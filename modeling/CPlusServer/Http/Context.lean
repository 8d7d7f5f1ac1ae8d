import CPlusServer.Http.Request
import CPlusServer.Lib.Loop

/-!
# HttpContext

`ParaseRequest` as the source computes it: pointers are offsets from `begin`,
the string read through them ends with the terminator of `c_str()`, and each
read or `std::string(start, end)` outside it is a fault. The members `state_`
and `request_` survive a call; `start`, `end`, `key` and `vers` are locals.
-/

namespace CPlusServer

inductive State
  | invaild | start | method | beforeUri | inUri | beforeUriParamsKey | inUriParamsKey
  | beforeUriParamsValue | inUriParamsValue | beforeProtocol | inProtocol | beforeVersion
  | inVersion | versionSplit | headerKey | headerBeforeColon | headerAfterColon | headerValue
  | cr | lf | crlf | crlfcr | body | complete
  deriving DecidableEq, Repr

structure HttpContext where
  state : State := .start
  request : HttpRequest := {}
  deriving DecidableEq

/-- What stops the loop other than its guard: an access outside the string, or `Errif`. -/
inductive Fault
  | read | range | errif
  deriving DecidableEq, Repr

/-- The members and locals that one iteration reads and writes. -/
structure Cursor where
  state : State
  request : HttpRequest
  start : Int := 0
  end_ : Int := 0
  key : Bytes := []
  vers : Bytes := []
  deriving DecidableEq

namespace HttpContext

section
variable (begin : Bytes)

/-- `*(begin + i)`: the terminator is the last byte that may be read. -/
def charAt (i : Int) : Except Fault UInt8 :=
  if 0 ≤ i ∧ i < begin.length then .ok (begin.getD i.toNat NUL)
  else if i = begin.length then .ok NUL
  else .error .read

def substr (s e : Int) : Except Fault Bytes :=
  if 0 ≤ s ∧ s ≤ e ∧ e ≤ begin.length then .ok ((begin.drop s.toNat).take (e - s).toNat)
  else .error .range

def dispatch (c : Cursor) (ch : UInt8) : Except Fault Cursor :=
  match c.state with
  | .start => if isupper ch then .ok { c with state := .method } else .ok c
  | .method =>
      if isblank ch then do
        let text ← substr begin c.start c.end_
        return { c with request := c.request.setMethod text, state := .beforeUri, start := c.end_ }
      else .ok c
  | .beforeUri =>
      if isblank ch then .ok c
      else if ch = chr '/' then .ok { c with state := .inUri, start := c.end_ }
      else .ok c
  | .inUri =>
      if isblank ch then do
        let text ← substr begin c.start c.end_
        return { c with request := c.request.setURL text, state := .beforeProtocol, start := c.end_ }
      else if ch = chr '?' then do
        let text ← substr begin c.start c.end_
        return { c with
          request := c.request.setURL text, state := .beforeUriParamsKey, start := c.end_ }
      else .ok c
  | .beforeUriParamsKey =>
      if isblank ch ∨ ch = CR ∨ ch = LF then .ok { c with state := .invaild }
      else .ok { c with state := .inUriParamsKey, start := c.end_ }
  | .inUriParamsKey =>
      if ch = chr '=' then do
        let key ← substr begin c.start c.end_
        return { c with
          key := key, request := c.request.setParams key [], state := .beforeUriParamsValue }
      else .ok c
  | .beforeUriParamsValue =>
      if isblank ch ∨ ch = CR ∨ ch = LF then .ok { c with state := .invaild }
      else .ok { c with state := .inUriParamsValue, start := c.end_ }
  | .inUriParamsValue =>
      if ch = chr '&' then do
        let text ← substr begin c.start c.end_
        return { c with
          request := c.request.setParams c.key text, state := .beforeUriParamsKey, start := c.end_ }
      else if isblank ch then do
        let text ← substr begin c.start c.end_
        return { c with
          request := c.request.setParams c.key text, state := .beforeProtocol, start := c.end_ }
      else .ok c
  | .beforeProtocol =>
      if isblank ch then .ok c
      else if isalpha ch then .ok { c with state := .inProtocol, start := c.end_ }
      else .ok c
  | .inProtocol =>
      if ch = chr '/' then do
        let text ← substr begin c.start c.end_
        return { c with
          request := c.request.setProtocol text, state := .beforeVersion, start := c.end_ }
      else .ok c
  | .beforeVersion =>
      if isdigit ch then .ok { c with state := .inVersion, start := c.end_ }
      else .ok { c with state := .invaild }
  | .inVersion =>
      if ch = CR then do
        let text ← substr begin c.start c.end_
        return { c with
          vers := c.vers ++ text, request := c.request.setVersion (c.vers ++ text), state := .cr }
      else if ch = chr '.' then do
        let text ← substr begin c.start c.end_
        return { c with vers := c.vers ++ text, state := .versionSplit, start := c.end_ }
      else .ok c
  | .versionSplit =>
      if isdigit ch then
        .ok { c with vers := c.vers ++ [chr '.'], state := .inVersion, start := c.end_ }
      else .ok { c with state := .invaild }
  | .cr =>
      if ch = LF then .ok { c with state := .crlf, start := c.end_ }
      else .ok { c with state := .invaild }
  | .crlf =>
      if isblank ch then .ok { c with state := .invaild }
      else if ch = CR then .ok { c with state := .crlfcr }
      else .ok { c with state := .headerKey, start := c.end_ }
  | .headerKey =>
      if ch = chr ':' then do
        let key ← substr begin c.start c.end_
        return { c with
          key := key, request := c.request.setHeader key [], state := .headerAfterColon,
          start := c.end_ }
      else if isblank ch then do
        let key ← substr begin c.start c.end_
        return { c with
          key := key, request := c.request.setHeader key [], state := .headerBeforeColon,
          start := c.end_ }
      else .ok c
  | .headerBeforeColon =>
      if isblank ch then .ok c
      else if ch = chr ':' then .ok { c with state := .headerAfterColon, start := c.end_ }
      else .ok { c with state := .invaild }
  | .headerAfterColon =>
      if isblank ch then .ok c
      else .ok { c with state := .headerValue, start := c.end_ }
  | .headerValue =>
      if ch = CR then do
        let text ← substr begin c.start c.end_
        return { c with request := c.request.setHeader c.key text, state := .cr }
      else .ok c
  | .crlfcr =>
      if ch = LF then
        if c.request.countHeader (ascii "Content-Length") then
          if c.request.contentLength > 0 then .ok { c with state := .body, start := c.end_ + 1 }
          else .ok { c with state := .complete }
        else if (begin.length : Int) > c.end_ then
          .ok { c with state := .body, start := c.end_ + 1 }
        else .ok { c with state := .complete }
      else .ok c
  | .body => do
      let bodylength : Int := begin.length - c.start
      let text ← substr begin c.start (c.start + bodylength)
      return { c with
        request := c.request.setBody text
        end_ := c.start + bodylength - 1
        state := if bodylength ≥ c.request.contentLength then .complete else .body }
  | .invaild => .error .errif
  | .lf => .ok c
  | .complete => .ok c

/-- The `while` loop of `ParaseRequest` on a string of length `size`. -/
def parseLoop : Lib.Loop Cursor Fault where
  guard c := decide (c.state ≠ .complete ∧ c.state ≠ .invaild ∧ c.end_ - c.start < begin.length)
  body c := do
    let ch ← charAt begin c.end_
    let c ← dispatch begin c ch
    return { c with end_ := c.end_ + 1 }

end

def entry (ctx : HttpContext) : Cursor := { state := ctx.state, request := ctx.request }

def leave (c : Cursor) : HttpContext × Bool :=
  (⟨c.state, c.request⟩, decide (c.state = .complete ∨ c.state = .body))

def paraseRequest (ctx : HttpContext) (begin : Bytes) (fuel : Nat) :
    Option (Except Fault (HttpContext × Bool)) :=
  ((parseLoop begin).run fuel ctx.entry).map (Except.map leave)

def resetState (ctx : HttpContext) : HttpContext := { ctx with state := .start }

def isComplete (ctx : HttpContext) : Bool := ctx.state = .complete

/-- The call ends, whether by its guard, by `Errif` or at a read past the terminator. -/
def Terminates (ctx : HttpContext) (begin : Bytes) : Prop :=
  ∃ fuel r, ctx.paraseRequest begin fuel = some r

def Returns (ctx : HttpContext) (begin : Bytes) (ctx' : HttpContext) (b : Bool) : Prop :=
  ∃ fuel, ctx.paraseRequest begin fuel = some (.ok (ctx', b))

/-- Every read and every range of every iteration lies inside the string. -/
def StaysInside (ctx : HttpContext) (begin : Bytes) : Prop :=
  ∀ c, (parseLoop begin).Reaches ctx.entry c → (parseLoop begin).guard c = true →
    ∃ c', (parseLoop begin).body c = .ok c'

/-! ## Calls and the loop -/

theorem terminates_iff_ends {ctx : HttpContext} {begin : Bytes} :
    ctx.Terminates begin ↔ ∃ r, (parseLoop begin).Ends ctx.entry r := by
  constructor
  · intro hterminates
    obtain ⟨fuel, r, h⟩ := hterminates
    rcases Option.map_eq_some_iff.1 h with ⟨r', h', -⟩
    exact ⟨r', fuel, h'⟩
  · intro hends
    obtain ⟨r, fuel, h⟩ := hends
    exact ⟨fuel, r.map leave, by simp [paraseRequest, h]⟩

theorem returns_iff_ends {ctx ctx' : HttpContext} {begin : Bytes} {b : Bool} :
    ctx.Returns begin ctx' b ↔
      ∃ c, (parseLoop begin).Ends ctx.entry (.ok c) ∧ leave c = (ctx', b) := by
  constructor
  · intro hreturns
    obtain ⟨fuel, h⟩ := hreturns
    rcases Option.map_eq_some_iff.1 h with ⟨r, hr, hm⟩
    cases r with
    | error e => simp [Except.map] at hm
    | ok c => exact ⟨c, ⟨fuel, hr⟩, by simpa [Except.map] using hm⟩
  · intro hends
    obtain ⟨c, ⟨fuel, h⟩, hl⟩ := hends
    exact ⟨fuel, by simp [paraseRequest, h, Except.map, hl]⟩

theorem staysInside_iff {ctx : HttpContext} {begin : Bytes} :
    ctx.StaysInside begin ↔ ∀ e, ¬ (parseLoop begin).Ends ctx.entry (.error e) :=
  Lib.Loop.error_free_iff.symm

theorem Returns.unique {ctx c₁ c₂ : HttpContext} {begin : Bytes} {b₁ b₂ : Bool}
    (h₁ : ctx.Returns begin c₁ b₁) (h₂ : ctx.Returns begin c₂ b₂) : c₁ = c₂ ∧ b₁ = b₂ := by
  obtain ⟨d₁, e₁, l₁⟩ := returns_iff_ends.1 h₁
  rcases returns_iff_ends.1 h₂ with ⟨d₂, e₂, l₂⟩
  have hd : d₁ = d₂ := Except.ok.inj (e₁.unique e₂)
  subst hd
  exact Prod.mk.inj (l₁.symm.trans l₂)

theorem Returns.terminates {ctx ctx' : HttpContext} {begin : Bytes} {b : Bool}
    (h : ctx.Returns begin ctx' b) : ctx.Terminates begin :=
  h.imp fun _ hf => ⟨_, hf⟩

end HttpContext

end CPlusServer

import CPlusServer.Http.Context

/-!
# The request parser as a scanner

The purpose of `ParaseRequest`, with neither pointers nor a loop: a scanner
takes the bytes one by one and keeps the text of the token it is in. `scan` runs
it until the head of the request is finished, and `outcome` says what one call
makes of a whole string. `CPlusServer.Http.Refinement` proves that the loop computes
exactly this.
-/

namespace CPlusServer

/-- The scanner: `tok` is the text `[start, end)` of the loop. -/
structure Scan where
  state : State
  request : HttpRequest
  tok : Bytes := []
  key : Bytes := []
  vers : Bytes := []
  deriving DecidableEq

namespace Scan

def goto (s : Scan) (st : State) : Scan := { s with state := st }
def push (s : Scan) (ch : UInt8) : Scan := { s with tok := s.tok ++ [ch] }
def mark (s : Scan) (ch : UInt8) : Scan := { s with tok := [ch] }

def byte (s : Scan) (ch : UInt8) : Scan :=
  match s.state with
  | .start => if isupper ch then (s.goto .method).push ch else s.push ch
  | .method =>
      if isblank ch then
        ({ s with request := s.request.setMethod s.tok }.goto .beforeUri).mark ch
      else s.push ch
  | .beforeUri =>
      if isblank ch then s.push ch
      else if ch = chr '/' then (s.goto .inUri).mark ch
      else s.push ch
  | .inUri =>
      if isblank ch then
        ({ s with request := s.request.setURL s.tok }.goto .beforeProtocol).mark ch
      else if ch = chr '?' then
        ({ s with request := s.request.setURL s.tok }.goto .beforeUriParamsKey).mark ch
      else s.push ch
  | .beforeUriParamsKey =>
      if isblank ch ∨ ch = CR ∨ ch = LF then (s.goto .invaild).push ch
      else (s.goto .inUriParamsKey).mark ch
  | .inUriParamsKey =>
      if ch = chr '=' then
        ({ s with key := s.tok, request := s.request.setParams s.tok [] }.goto
          .beforeUriParamsValue).push ch
      else s.push ch
  | .beforeUriParamsValue =>
      if isblank ch ∨ ch = CR ∨ ch = LF then (s.goto .invaild).push ch
      else (s.goto .inUriParamsValue).mark ch
  | .inUriParamsValue =>
      if ch = chr '&' then
        ({ s with request := s.request.setParams s.key s.tok }.goto .beforeUriParamsKey).mark ch
      else if isblank ch then
        ({ s with request := s.request.setParams s.key s.tok }.goto .beforeProtocol).mark ch
      else s.push ch
  | .beforeProtocol =>
      if isblank ch then s.push ch
      else if isalpha ch then (s.goto .inProtocol).mark ch
      else s.push ch
  | .inProtocol =>
      if ch = chr '/' then
        ({ s with request := s.request.setProtocol s.tok }.goto .beforeVersion).mark ch
      else s.push ch
  | .beforeVersion =>
      if isdigit ch then (s.goto .inVersion).mark ch else (s.goto .invaild).push ch
  | .inVersion =>
      if ch = CR then
        ({ s with vers := s.vers ++ s.tok, request := s.request.setVersion (s.vers ++ s.tok) }.goto
          .cr).push ch
      else if ch = chr '.' then
        ({ s with vers := s.vers ++ s.tok }.goto .versionSplit).mark ch
      else s.push ch
  | .versionSplit =>
      if isdigit ch then ({ s with vers := s.vers ++ [chr '.'] }.goto .inVersion).mark ch
      else (s.goto .invaild).push ch
  | .cr => if ch = LF then (s.goto .crlf).mark ch else (s.goto .invaild).push ch
  | .crlf =>
      if isblank ch then (s.goto .invaild).push ch
      else if ch = CR then (s.goto .crlfcr).push ch
      else (s.goto .headerKey).mark ch
  | .headerKey =>
      if ch = chr ':' then
        ({ s with key := s.tok, request := s.request.setHeader s.tok [] }.goto
          .headerAfterColon).mark ch
      else if isblank ch then
        ({ s with key := s.tok, request := s.request.setHeader s.tok [] }.goto
          .headerBeforeColon).mark ch
      else s.push ch
  | .headerBeforeColon =>
      if isblank ch then s.push ch
      else if ch = chr ':' then (s.goto .headerAfterColon).mark ch
      else (s.goto .invaild).push ch
  | .headerAfterColon =>
      if isblank ch then s.push ch else (s.goto .headerValue).mark ch
  | .headerValue =>
      if ch = CR then ({ s with request := s.request.setHeader s.key s.tok }.goto .cr).push ch
      else s.push ch
  | .crlfcr =>
      if ch = LF then
        if s.request.countHeader (ascii "Content-Length") ∧ s.request.contentLength ≤ 0 then
          (s.goto .complete).push ch
        else { s with state := .body, tok := [] }
      else s.push ch
  | .lf | .invaild | .body | .complete => s.push ch

end Scan

/-- The head is over: it was recognised or rejected. -/
def State.Done (st : State) : Prop := st = .body ∨ st = .complete ∨ st = .invaild

instance (st : State) : Decidable st.Done :=
  inferInstanceAs (Decidable (st = .body ∨ st = .complete ∨ st = .invaild))

theorem State.done_of_recognised {st : State} (h : st = .body ∨ st = .complete) : st.Done := by
  rcases h with h | h
  · exact .inl h
  · exact .inr (.inl h)

theorem HttpContext.start_not_done (q : HttpRequest) :
    ¬ (HttpContext.mk .start q).state.Done := by
  show ¬ State.start.Done
  decide

namespace Scan

/-- Scan until the head is over; the second component is what was not scanned. -/
def scan (s : Scan) : Bytes → Scan × Bytes
  | [] => (s, [])
  | ch :: rest => if s.state.Done then (s, ch :: rest) else (s.byte ch).scan rest

def init (ctx : HttpContext) : Scan := { state := ctx.state, request := ctx.request }

theorem scan_done {s : Scan} (hd : s.state.Done) (text : Bytes) : s.scan text = (s, text) := by
  cases text with
  | nil => rfl
  | cons ch rest => simp [scan, hd]

theorem scan_cons {s : Scan} (hd : ¬ s.state.Done) (ch : UInt8) (rest : Bytes) :
    s.scan (ch :: rest) = (s.byte ch).scan rest := by
  simp [scan, hd]

end Scan

inductive Outcome
  | returned (ctx : HttpContext)
  | overrun
  | hangs
  deriving DecidableEq

namespace HttpContext

/-- A resumed body takes the whole string as the body. -/
def bodyOutcome (q : HttpRequest) (text : Bytes) : HttpContext :=
  ⟨if (text.length : Int) ≥ q.contentLength then .complete else .body, q.setBody text⟩

/-- The end of a string whose head goes on: the terminator is scanned when a token has begun
after the first byte, and whatever is read after it lies outside. -/
def truncatedOutcome (s : Scan) (size : Nat) : Outcome :=
  if s.tok.length < size then
    let s' := s.byte NUL
    if s'.state ≠ .invaild ∧ s'.tok.length < size then .overrun
    else .returned ⟨s'.state, s'.request⟩
  else .returned ⟨s.state, s.request⟩

/-- The end of the head, or of a string inside the head: `rest` follows what was scanned. -/
def headOutcome (s : Scan) (rest : Bytes) (size : Nat) : Outcome :=
  match s.state with
  | .complete | .invaild => .returned ⟨s.state, s.request⟩
  | .body =>
      if (rest.length : Int) ≥ s.request.contentLength then
        .returned ⟨.complete, s.request.setBody rest⟩
      else .hangs
  | _ => truncatedOutcome s size

def outcome (ctx : HttpContext) (text : Bytes) : Outcome :=
  match ctx.state with
  | .complete | .invaild => .returned ctx
  | .body => if text = [] then .returned ctx else .returned (bodyOutcome ctx.request text)
  | _ =>
      let scanned := (Scan.init ctx).scan text
      headOutcome scanned.1 scanned.2 text.length

theorem headOutcome_of_not_done {s : Scan} (hd : ¬ s.state.Done) (rest : Bytes) (size : Nat) :
    headOutcome s rest size = truncatedOutcome s size := by
  simp only [State.Done, not_or] at hd
  unfold headOutcome
  split <;> simp_all

theorem outcome_of_not_done {ctx : HttpContext} (hd : ¬ ctx.state.Done) (text : Bytes) :
    ctx.outcome text =
      headOutcome ((Scan.init ctx).scan text).1 ((Scan.init ctx).scan text).2 text.length := by
  simp only [State.Done, not_or] at hd
  unfold outcome
  split <;> simp_all

end HttpContext

end CPlusServer

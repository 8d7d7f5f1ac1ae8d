import CPlusServer.Http.BlankLine
import CPlusServer.Http.Parse

/-!
# Calls that end inside a head

A token that began after the first byte stops the call at its end, and the name
of a header is long. So a call that returns from inside a head has refused a byte,
or it leaves the state of the automaton and has stored no Content-Length.
-/

namespace CPlusServer

def HttpRequest.announced (q : HttpRequest) : Option Bytes :=
  q.headers.lookup (ascii "Content-Length")

theorem HttpRequest.announced_setHeader (q : HttpRequest) (key value : Bytes) :
    (q.setHeader key value).announced =
      if key = ascii "Content-Length" then some value else q.announced := by
  unfold announced setHeader
  by_cases hkey : key = ascii "Content-Length"
  · rw [if_pos hkey, hkey, Finmap.lookup_insert]
  · rw [if_neg hkey, Finmap.lookup_insert_of_ne _ (Ne.symm hkey)]

theorem HttpRequest.or_announced_setHeader (q : HttpRequest) (key value : Bytes)
    (kvs : List (Bytes × Bytes)) :
    (Lib.lastValue (ascii "Content-Length") kvs).or (q.setHeader key value).announced =
      (Lib.lastValue (ascii "Content-Length") ((key, value) :: kvs)).or q.announced := by
  rw [announced_setHeader, Lib.lastValue, Option.or_assoc]
  congr 1
  dsimp only
  split_ifs
  · rfl
  · rfl

namespace Scan

open BlankLine (machine next)

/-! ## One byte -/

def Marks (st : State) (ch : UInt8) : Prop := ((mk st {} [ch] [] []).byte ch).tok = [ch]

instance (st : State) (ch : UInt8) : Decidable (Marks st ch) :=
  inferInstanceAs (Decidable (_ = _))

theorem byte_tok (s : Scan) {ch : UInt8} (h : ¬ (next s.state ch).Done) :
    (s.byte ch).tok = if Marks s.state ch then [ch] else s.tok ++ [ch] := by
  obtain ⟨st, q, t, key, vers⟩ := s
  revert h
  unfold Marks next byte State.Done
  cases st <;> dsimp only <;> split_ifs <;> simp_all [push, mark, goto]

theorem byte_headers_of_state (s : Scan) (ch : UInt8)
    (hs : s.state ≠ .headerKey ∧ s.state ≠ .headerValue) :
    (s.byte ch).request.headers = s.request.headers := by
  obtain ⟨st, q, t, key, vers⟩ := s
  unfold byte
  cases st <;> dsimp only <;> (try split_ifs) <;>
    simp_all [push, mark, goto, HttpRequest.setMethod, HttpRequest.setURL, HttpRequest.setParams,
      HttpRequest.setProtocol, HttpRequest.setVersion_eq]

theorem byte_announced_of_state (s : Scan) (ch : UInt8)
    (hs : s.state ≠ .headerKey ∧ s.state ≠ .headerValue) :
    (s.byte ch).request.announced = s.request.announced := by
  unfold HttpRequest.announced
  rw [byte_headers_of_state s ch hs]

def BehindKey (st : State) : Prop :=
  st = .headerBeforeColon ∨ st = .headerAfterColon ∨ st = .headerValue

theorem byte_behindKey {s : Scan} {ch : UInt8} (h : BehindKey (s.byte ch).state) :
    s.state = .headerKey ∧ (s.byte ch).key = s.tok ∨
      BehindKey s.state ∧ (s.byte ch).key = s.key := by
  obtain ⟨st, q, t, key, vers⟩ := s
  revert h
  unfold BehindKey byte
  cases st <;> dsimp only <;> (try split_ifs) <;> simp [push, mark, goto]

/-- The call has not stored a Content-Length and is not about to; or the token began at least as
many of the `n` bytes later as the name is long. -/
def Unannounced (s : Scan) (n : Nat) : Prop :=
  s.request.announced = none ∧ (BehindKey s.state → s.key ≠ ascii "Content-Length") ∨
    s.tok.length + (ascii "Content-Length").length ≤ n

/-- What holds after `n` bytes of a call that found no Content-Length in the object. -/
structure Young (s : Scan) (n : Nat) : Prop where
  tok_le : s.tok.length ≤ n
  tok_ne : 0 < n → s.tok ≠ []
  unannounced : s.Unannounced n

theorem young_init (ctx : HttpContext) (h : ctx.request.announced = none) :
    Young (Scan.init ctx) 0 where
  tok_le := Nat.le_refl 0
  tok_ne := fun hpos => absurd hpos (Nat.lt_irrefl 0)
  unannounced := .inl ⟨h, fun _ => show [] ≠ _ by decide⟩

/-- A key is stored with the byte behind it, so one that is the name is behind the token. -/
theorem unannounced_headerKey {q : HttpRequest} {t key vers : Bytes} {n : Nat} (ht : t.length ≤ n)
    (hnone : q.announced = none) (ch : UInt8) :
    ((mk .headerKey q t key vers).byte ch).Unannounced (n + 1) := by
  have hname : (q.setHeader t []).announced = none ∧ t ≠ ascii "Content-Length" ∨
      1 + (ascii "Content-Length").length ≤ n + 1 := by
    by_cases hkey : t = ascii "Content-Length"
    · rw [hkey] at ht
      exact .inr (by omega)
    · refine .inl ⟨?_, hkey⟩
      rw [HttpRequest.announced_setHeader, if_neg hkey]
      exact hnone
  unfold byte
  dsimp only
  split_ifs
  · exact hname.imp_left fun h => ⟨h.1, fun _ => h.2⟩
  · exact hname.imp_left fun h => ⟨h.1, fun _ => h.2⟩
  · refine .inl ⟨hnone, fun hb => ?_⟩
    rcases hb with hb | hb | hb <;> cases hb

theorem unannounced_headerValue {q : HttpRequest} {t key vers : Bytes}
    (hkey : key ≠ ascii "Content-Length") (hnone : q.announced = none) (ch : UInt8) (n : Nat) :
    ((mk .headerValue q t key vers).byte ch).Unannounced n := by
  refine .inl ?_
  unfold byte
  dsimp only
  split_ifs
  · refine ⟨?_, fun _ => hkey⟩
    show (q.setHeader key t).announced = none
    rw [HttpRequest.announced_setHeader, if_neg hkey]
    exact hnone
  · exact ⟨hnone, fun _ => hkey⟩

theorem Young.byte {s : Scan} {n : Nat} (h : Young s n) {ch : UInt8}
    (hd : ¬ (next s.state ch).Done) : Young (s.byte ch) (n + 1) := by
  have htok := byte_tok s hd
  have hle := h.tok_le
  refine ⟨?_, ?_, ?_⟩
  · rw [htok]
    split_ifs
    · simp
    · simp only [List.length_append, List.length_singleton]
      omega
  · intro _
    rw [htok]
    split_ifs <;> simp
  · rcases h.unannounced with ⟨hnone, hkey⟩ | hold
    · by_cases hs : s.state = .headerKey
      · obtain ⟨st, q, t, key, vers⟩ := s
        obtain rfl : st = .headerKey := hs
        exact unannounced_headerKey hle hnone ch
      · by_cases hs' : s.state = .headerValue
        · have hvalue := hkey (.inr (.inr hs'))
          obtain ⟨st, q, t, key, vers⟩ := s
          obtain rfl : st = .headerValue := hs'
          exact unannounced_headerValue hvalue hnone ch (n + 1)
        · refine .inl ⟨(byte_announced_of_state s ch ⟨hs, hs'⟩).trans hnone, fun hb => ?_⟩
          rcases byte_behindKey hb with ⟨hno, -⟩ | ⟨hbehind, hsame⟩
          · exact absurd hno hs
          · rw [hsame]
            exact hkey hbehind
    · refine .inr ?_
      rw [htok]
      split_ifs
      · simp only [List.length_singleton]
        omega
      · simp only [List.length_append, List.length_singleton]
        omega

/-- A piece that ends inside the head is scanned whole, and the state is that of the automaton. -/
theorem Young.scan {s : Scan} {n : Nat} (h : Young s n) {text : Bytes}
    (hd : ¬ (machine.evalFrom s.state text).Done) :
    ∃ s', s.scan text = (s', []) ∧ s'.state = machine.evalFrom s.state text ∧
      Young s' (n + text.length) := by
  induction text generalizing s n with
  | nil => exact ⟨s, rfl, rfl, h⟩
  | cons ch text ih =>
      obtain ⟨hs, hnext⟩ := BlankLine.not_done_of_evalFrom hd
      have hstate : (s.byte ch).state = machine.step s.state ch :=
        BlankLine.byte_state_of_not_done hnext
      rw [DFA.evalFrom_cons, ← hstate] at hd ⊢
      obtain ⟨s', hscan, hs', hyoung⟩ := ih (h.byte hnext) hd
      refine ⟨s', ?_, hs', ?_⟩
      · rw [scan_cons hs]
        exact hscan
      · rw [List.length_cons, Nat.add_comm text.length 1, ← Nat.add_assoc]
        exact hyoung

/-! ## The end of a piece inside the head -/

/-- The terminator is refused, begins a token, or goes on with one. -/
theorem byte_NUL {s : Scan} (hd : ¬ s.state.Done) :
    (s.byte NUL).state = .invaild ∨ (s.byte NUL).tok = [NUL] ∨ s.byte NUL = s.push NUL := by
  obtain ⟨st, q, t, key, vers⟩ := s
  revert hd
  unfold State.Done byte
  cases st <;> simp [push, mark, goto, NUL, CR, LF, isupper, isalpha, isdigit, isblank, chr]

theorem Young.announced_none {s : Scan} {n : Nat} (h : Young s n) (hlt : n < s.tok.length + 14) :
    s.request.announced = none := by
  have hname : (ascii "Content-Length").length = 14 := by decide
  rcases h.unannounced with ⟨hnone, -⟩ | hold
  · exact hnone
  · omega

/-- A call that returns from inside the head has refused the terminator or has stored nothing that
announces a body. -/
theorem Young.truncated {s : Scan} {n : Nat} (h : Young s n) (hn : 0 < n) (hd : ¬ s.state.Done)
    {ctx' : HttpContext} (hret : HttpContext.truncatedOutcome s n = .returned ctx') :
    ctx'.request.body = s.request.body ∧
      (ctx'.state = .invaild ∨ ctx'.state = s.state ∧ ctx'.request.announced = none) := by
  unfold HttpContext.truncatedOutcome at hret
  dsimp only at hret
  split_ifs at hret with hlt hover
  · obtain rfl := Outcome.returned.inj hret
    refine ⟨byte_request_body s NUL, ?_⟩
    by_cases hinvaild : (s.byte NUL).state = .invaild
    · exact .inl hinvaild
    · have hlong : n ≤ (s.byte NUL).tok.length := not_lt.1 fun hshort => hover ⟨hinvaild, hshort⟩
      rcases (byte_NUL hd).resolve_left hinvaild with hmark | hpush
      · -- the token of one byte would be the whole piece, and the piece would have none before
        rw [hmark] at hlong
        have htok := List.length_pos_iff.2 (h.tok_ne hn)
        simp only [List.length_singleton] at hlong
        omega
      · rw [hpush] at hlong ⊢
        simp only [push, List.length_append, List.length_singleton] at hlong
        exact .inr ⟨rfl, h.announced_none (by omega)⟩
  · obtain rfl := Outcome.returned.inj hret
    exact ⟨rfl, .inr ⟨rfl, h.announced_none (by omega)⟩⟩

end Scan

end CPlusServer

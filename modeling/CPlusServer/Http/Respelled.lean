import CPlusServer.Http.KeepAlive
import CPlusServer.Http.Pieces
import CPlusServer.Lib.Run

/-!
# The spelling of header names

Names are stored and looked up as they are spelled. Two requests that differ only
in the letter case of their header names are read alike, byte by byte, up to the
end of the head. Whether more of a body is awaited there depends on the one name
`Content-Length`, spelled in this way, and on what comes in the same read.
-/

namespace CPlusServer

/-- A well-formed request whose names may be spelled in any case: no name comes twice, and the body
is as long as the Content-Length says, however that is spelled. -/
structure AnyCaseRequest where
  head : Head
  minor : Minor
  body : Bytes := []
  distinct : (head.headers.map fun h => lower h.key).Nodup
  framed : match Lib.lastValue (ascii "content-length")
      (head.headers.map fun h => (lower h.key, h.value)) with
    | some value => (∀ ch ∈ value, isdigit ch = true) ∧ decimal value = body.length
    | none => body = []
  small : (head.printMinor minor).length + body.length < 2 ^ 31

def AnyCaseRequest.print (r : AnyCaseRequest) : Bytes := r.head.printMinor r.minor ++ r.body

structure SameField (h h' : Header) : Prop where
  key : lower h.key = lower h'.key
  before : h.before = h'.before
  after : h.after = h'.after
  value : h.value = h'.value

/-- Two requests that differ only in the letter case of header names. -/
structure Respelled where
  first : AnyCaseRequest
  second : AnyCaseRequest
  line : { first.head with headers := [] } = { second.head with headers := [] }
  minor : first.minor = second.minor
  headers : List.Forall₂ SameField first.head.headers second.head.headers
  body : first.body = second.body

def HttpContext.Call (ctx : HttpContext) (read : Bytes) (result : Bool × Bool)
    (ctx' : HttpContext) : Prop :=
  ctx.Returns read ctx' result.1 ∧ ctx'.isComplete = result.2

/-- The calls on these reads, from a fresh context on, all return; these are their results, and this
is the body that they leave. -/
def Parses (reads : List Bytes) (results : List (Bool × Bool)) (body : Bytes) : Prop :=
  ∃ last, Lib.Emits HttpContext.Call {} reads results last ∧ last.request.body = body

def endingBefore (size : Nat) : List Bytes → Nat
  | [] => 0
  | read :: reads => if read.length < size then endingBefore (size - read.length) reads + 1 else 0

def AnyCaseRequest.headText (r : AnyCaseRequest) : Bytes := r.head.printMinor r.minor

def headersFrom : Nat → List Header → List Header
  | _, [] => []
  | n, h :: hs => if n = 0 then h :: hs else headersFrom (n - h.print.length) hs

def nameLeft : Nat → List Header → Option Bytes
  | _, [] => none
  | n, h :: hs =>
      if n = 0 then none
      else if n ≤ h.key.length then some (h.key.drop n)
      else nameLeft (n - h.print.length) hs

namespace Respelled

structure Cut (p : Respelled) where
  reads : List Bytes
  reads' : List Bytes
  nonempty : [] ∉ reads
  first : reads.flatten = p.first.print
  second : reads'.flatten = p.second.print
  lengths : reads.map List.length = reads'.map List.length

namespace Cut

variable {p : Respelled} (c : p.Cut)

/-- After every read the results and the body are the same for both. -/
def SameFraming : Prop :=
  ∀ n results body, Parses (c.reads.take n) results body ↔ Parses (c.reads'.take n) results body

def past : List Bytes := c.reads.take (endingBefore p.first.headText.length c.reads)

/-- Where the read that brings the end of the head begins in the header lines. -/
def place : Nat := c.past.flatten.length - ((p.first.head.requestLine p.first.minor).length + 2)

def arrived : Nat := (c.reads.take (c.past.length + 1)).flatten.length - p.first.headText.length

/-- It does not begin inside a longer name, of which a `Content-Length` is left. -/
def BeginsAside : Prop :=
  ∀ left ∈ nameLeft c.place p.first.head.headers, lower left ≠ ascii "content-length"

def Reached : Prop :=
  ∃ results ctx, Lib.Emits HttpContext.Call {} c.past results ctx ∧ ctx.state ≠ .invaild

/-- A `Content-Length` spelled in this way begins in it for both requests, or for neither. -/
def SameSpelling : Prop :=
  (∃ h ∈ headersFrom c.place p.first.head.headers, h.key = ascii "Content-Length") ↔
    ∃ h ∈ headersFrom c.place p.second.head.headers, h.key = ascii "Content-Length"

end Cut

def SameFraming (p : Respelled) : Prop := ∀ c : p.Cut, c.SameFraming

end Respelled

/-! ## Letters -/

def SameLetter (ch ch' : UInt8) : Prop := ch = ch' ∨ isalpha ch = true ∧ isalpha ch' = true

theorem isalpha_of_isupper {ch : UInt8} (h : isupper ch = true) :
    isalpha ch = true ∧ isalpha (ch + 32) = true := by
  refine ⟨by simp [isalpha, h], ?_⟩
  simp only [isupper, Bool.and_eq_true, decide_eq_true_eq, UInt8.le_iff_toNat_le] at h
  have hA : (chr 'A').toNat = 65 := by decide
  have hZ : (chr 'Z').toNat = 90 := by decide
  have ha : (chr 'a').toNat = 97 := by decide
  have hz : (chr 'z').toNat = 122 := by decide
  have hsum : (ch + 32).toNat = ch.toNat + 32 := by
    rw [UInt8.toNat_add, show (32 : UInt8).toNat = 32 from rfl, Nat.mod_eq_of_lt (by omega)]
  have hlow : chr 'a' ≤ ch + 32 := UInt8.le_iff_toNat_le.2 (by omega)
  have hhigh : ch + 32 ≤ chr 'z' := UInt8.le_iff_toNat_le.2 (by omega)
  simp [isalpha, hlow, hhigh]

theorem sameLetter_of_lower {ch ch' : UInt8} (h : lower [ch] = lower [ch']) :
    SameLetter ch ch' := by
  have hbyte := (List.cons.inj h).1
  dsimp only at hbyte
  split_ifs at hbyte with hch hch' hch'
  · exact .inl ((UInt8.add_left_inj 32).1 hbyte)
  · have halpha := isalpha_of_isupper hch
    rw [hbyte] at halpha
    exact .inr halpha
  · have halpha := isalpha_of_isupper hch'
    rw [← hbyte] at halpha
    exact .inr ⟨halpha.2, halpha.1⟩
  · exact .inl hbyte

theorem sameLetters_of_lower {u u' : Bytes} (h : lower u = lower u') :
    List.Forall₂ SameLetter u u' := by
  induction u generalizing u' with
  | nil =>
      cases u' with
      | nil => exact .nil
      | cons ch' u' => cases h
  | cons ch u ih =>
      cases u' with
      | nil => cases h
      | cons ch' u' =>
          obtain ⟨hch, hrest⟩ := List.cons.inj h
          exact .cons (sameLetter_of_lower (congrArg (fun c => [c]) hch)) (ih hrest)

theorem not_mark_of_isalpha {ch : UInt8} (h : isalpha ch = true) :
    isblank ch = false ∧ ch ≠ CR ∧ ch ≠ LF ∧ ch ≠ chr ':' := by
  refine ⟨?_, ?_, ?_, ?_⟩
  · by_contra hb
    rw [isalpha_of_isblank (Bool.eq_true_of_not_eq_false hb)] at h
    cases h
  all_goals
    rintro rfl
    revert h
    decide

namespace Scan

open BlankLine (machine next)

/-! ## Texts that are read alike -/

def AlikeByte (st : State) (ch ch' : UInt8) : Prop :=
  ch = ch' ∨ BehindLine st ∧ isalpha ch = true ∧ isalpha ch' = true

/-- Two texts that the automaton cannot tell apart from the state `st` on. -/
inductive Alike : State → Bytes → Bytes → Prop
  | nil (st : State) : Alike st [] []
  | cons {st : State} {ch ch' : UInt8} {u u' : Bytes} (head : AlikeByte st ch ch')
      (tail : Alike (next st ch) u u') : Alike st (ch :: u) (ch' :: u')

/-- Behind the request line no state looks for a letter. -/
theorem AlikeByte.next_eq {st : State} {ch ch' : UInt8} (h : AlikeByte st ch ch') :
    next st ch = next st ch' ∧ (Marks st ch ↔ Marks st ch') := by
  rcases h with rfl | ⟨hst, hch, hch'⟩
  · exact ⟨rfl, Iff.rfl⟩
  · obtain ⟨hb, hcr, hlf, hcolon⟩ := not_mark_of_isalpha hch
    obtain ⟨hb', hcr', hlf', hcolon'⟩ := not_mark_of_isalpha hch'
    unfold BehindLine BehindKey State.Done at hst
    unfold next Marks byte
    rcases hst with rfl | rfl | rfl | rfl | (rfl | rfl | rfl) | (rfl | rfl | rfl)
    all_goals simp [hb, hcr, hlf, hcolon, hb', hcr', hlf', hcolon', push, mark, goto]

theorem alike_refl (st : State) (u : Bytes) : Alike st u u := by
  induction u generalizing st with
  | nil => exact .nil st
  | cons ch u ih => exact .cons (.inl rfl) (ih (next st ch))

/-- Behind the request line texts with the same letters but for their case are alike. -/
theorem alike_of_letters {st : State} (hst : BehindLine st) {u u' : Bytes}
    (h : List.Forall₂ SameLetter u u') : Alike st u u' := by
  induction h generalizing st with
  | nil => exact .nil st
  | cons hch _ ih =>
      exact .cons (hch.imp_right fun halpha => ⟨hst, halpha⟩) (ih (next_behindLine hst _))

theorem Alike.append {st : State} {u u' w w' : Bytes} (h : Alike st u u')
    (hrest : Alike (machine.evalFrom st u) w w') : Alike st (u ++ w) (u' ++ w') := by
  induction h with
  | nil st => exact hrest
  | cons hch _ ih => exact .cons hch (ih hrest)

theorem Alike.split {st : State} {u u' w w' : Bytes} (h : Alike st (u ++ w) (u' ++ w'))
    (hlen : u.length = u'.length) : Alike st u u' ∧ Alike (machine.evalFrom st u) w w' := by
  induction u generalizing st u' with
  | nil =>
      obtain rfl := List.length_eq_zero_iff.1 hlen.symm
      exact ⟨.nil st, h⟩
  | cons ch u ih =>
      cases u' with
      | nil => cases hlen
      | cons ch' u' =>
          rcases h with _ | ⟨hch, hrest⟩
          obtain ⟨hu, hw⟩ := ih hrest (Nat.succ.inj hlen)
          exact ⟨.cons hch hu, hw⟩

theorem Alike.evalFrom_eq {st : State} {u u' : Bytes} (h : Alike st u u') :
    machine.evalFrom st u = machine.evalFrom st u' := by
  induction h with
  | nil st => rfl
  | @cons st ch ch' u u' hch _ ih =>
      have hsame : machine.step st ch = machine.step st ch' := hch.next_eq.1
      rw [DFA.evalFrom_cons, DFA.evalFrom_cons, ← hsame]
      exact ih

/-! ## Two scans -/

/-- Two scanners that the loop cannot tell apart inside a head. -/
structure Twin (s s' : Scan) : Prop where
  state : s.state = s'.state
  tok : s.tok.length = s'.tok.length

theorem Twin.byte {s s' : Scan} (h : Twin s s') {ch ch' : UInt8} (hch : AlikeByte s.state ch ch')
    (hd : ¬ (next s.state ch).Done) : Twin (s.byte ch) (s'.byte ch') := by
  obtain ⟨hnext, hmarks⟩ := hch.next_eq
  have hd' : ¬ (next s'.state ch').Done := by
    rw [← h.state, ← hnext]
    exact hd
  constructor
  · rw [BlankLine.byte_state_of_not_done hd, BlankLine.byte_state_of_not_done hd', ← h.state]
    exact hnext
  · have htok := h.tok
    rw [byte_tok s hd, byte_tok s' hd', ← h.state]
    by_cases hm : Marks s.state ch
    · rw [if_pos hm, if_pos (hmarks.1 hm)]
      rfl
    · rw [if_neg hm, if_neg (mt hmarks.2 hm), List.length_append, List.length_append, htok]
      rfl

theorem Twin.scan {s s' r r' : Scan} (h : Twin s s') {u u' : Bytes} (hu : Alike s.state u u')
    (hscan : s.scan u = (r, [])) (hscan' : s'.scan u' = (r', [])) (hd : ¬ r.state.Done) :
    Twin r r' := by
  induction u generalizing s s' u' with
  | nil =>
      cases hu
      obtain ⟨rfl, -⟩ := Prod.mk.inj hscan
      obtain ⟨rfl, -⟩ := Prod.mk.inj hscan'
      exact h
  | cons ch u ih =>
      obtain _ | ⟨hch, hrest⟩ := hu
      have hlive : ¬ (machine.evalFrom s.state (ch :: u)).Done := by
        rw [BlankLine.evalFrom_of_scan hscan hd]
        exact hd
      obtain ⟨hs, hnext⟩ := BlankLine.not_done_of_evalFrom hlive
      have hs' : ¬ s'.state.Done := h.state ▸ hs
      rw [scan_cons hs] at hscan
      rw [scan_cons hs'] at hscan'
      rw [← BlankLine.byte_state_of_not_done hnext] at hrest
      exact ih (h.byte hch hnext) hrest hscan hscan'

/-- The terminator ends no head, so it is refused by both of two twins or by none. -/
theorem byte_NUL_state {s : Scan} (hd : ¬ s.state.Done) :
    (s.byte NUL).state = next s.state NUL ∧
      ((next s.state NUL).Done → next s.state NUL = .invaild) := by
  have hinvaild {s : Scan} (hd : ¬ s.state.Done) (h : (s.byte NUL).state.Done) :
      (s.byte NUL).state = .invaild := by
    rcases h with h | h | h
    · exact absurd (byte_recognised hd (.inl h)).2 (by decide)
    · exact absurd (byte_recognised hd (.inr h)).2 (by decide)
    · exact h
  refine ⟨?_, @hinvaild (mk s.state {} [] [] []) hd⟩
  rcases BlankLine.byte_state s NUL with h | ⟨h, h'⟩
  · exact h
  · rw [hinvaild hd h]
    exact (@hinvaild (mk s.state {} [] [] []) hd h').symm

/-- At the end of a piece twins are stopped alike. -/
theorem Twin.truncated {s s' : Scan} (h : Twin s s') (hd : ¬ s.state.Done) {size : Nat}
    {ctx : HttpContext} (hret : HttpContext.truncatedOutcome s size = .returned ctx) :
    ∃ ctx', HttpContext.truncatedOutcome s' size = .returned ctx' ∧ ctx.state = ctx'.state := by
  have hd' : ¬ s'.state.Done := h.state ▸ hd
  obtain ⟨hnul, hrefused⟩ := byte_NUL_state hd
  have hnul' : (s'.byte NUL).state = (s.byte NUL).state := by
    rw [(byte_NUL_state hd').1, hnul, h.state]
  have hcut : (s.byte NUL).state ≠ .invaild ∧ (s.byte NUL).tok.length < size ↔
      (s'.byte NUL).state ≠ .invaild ∧ (s'.byte NUL).tok.length < size := by
    rw [hnul']
    apply and_congr_right
    intro hne
    have htwin : Twin (s.byte NUL) (s'.byte NUL) := by
      apply h.byte (.inl rfl)
      exact fun hdone => hne (hnul.trans (hrefused hdone))
    rw [htwin.tok]
  unfold HttpContext.truncatedOutcome at hret ⊢
  dsimp only at hret ⊢
  rw [← h.tok]
  split_ifs at hret with hlt hover
  · rw [if_pos hlt, if_neg (mt hcut.2 hover)]
    obtain rfl := Outcome.returned.inj hret
    exact ⟨_, rfl, hnul'.symm⟩
  · rw [if_neg hlt]
    obtain rfl := Outcome.returned.inj hret
    exact ⟨_, rfl, h.state⟩

end Scan

/-! ## The heads of the two requests -/

theorem SameField.letters {h h' : Header} (hsame : SameField h h') :
    List.Forall₂ SameLetter h.print h'.print := by
  have hafter : h.afterKey = h'.afterKey := by
    unfold Header.afterKey
    rw [hsame.before, hsame.after, hsame.value]
  rw [h.print_eq, h'.print_eq, hafter]
  exact List.rel_append (sameLetters_of_lower hsame.key) (List.forall₂_same.2 fun _ _ => .inl rfl)

theorem letters_headerLines {hs hs' : List Header} (h : List.Forall₂ SameField hs hs') :
    List.Forall₂ SameLetter (hs.flatMap Header.print) (hs'.flatMap Header.print) := by
  induction h with
  | nil => exact .nil
  | cons hsame _ ih =>
      rw [List.flatMap_cons, List.flatMap_cons]
      exact List.rel_append hsame.letters ih

namespace Respelled

open BlankLine (machine)

def swap (p : Respelled) : Respelled where
  first := p.second
  second := p.first
  line := p.line.symm
  minor := p.minor.symm
  headers := p.headers.flip.imp fun _ _ h => ⟨h.key.symm, h.before.symm, h.after.symm, h.value.symm⟩
  body := p.body.symm

variable (p : Respelled)

theorem requestLine_eq :
    p.first.head.requestLine p.first.minor = p.second.head.requestLine p.second.minor := by
  rw [← p.minor]
  have hline := congrArg (fun h : Head => h.requestLine p.first.minor) p.line
  exact hline

theorem alike : Scan.Alike .start (p.first.head.printMinor p.first.minor)
    (p.second.head.printMinor p.second.minor) := by
  have hline := p.first.head.eval_requestLine p.first.minor
  rw [Head.printMinor_eq, Head.printMinor_eq, ← p.requestLine_eq]
  apply (Scan.alike_refl .start _).append
  rw [show machine.evalFrom .start _ = .inVersion from hline]
  have hend : List.Forall₂ SameLetter [CR, LF] [CR, LF] := List.forall₂_same.2 fun _ _ => .inl rfl
  have hlines := List.rel_append (letters_headerLines p.headers) hend
  exact .cons (.inl rfl) (Scan.alike_of_letters (.inl rfl) (.cons (.inl rfl) hlines))

theorem length_headerLines :
    p.first.head.headerLines.length = p.second.head.headerLines.length :=
  (letters_headerLines p.headers).length_eq

theorem length_head : (p.first.head.printMinor p.first.minor).length =
    (p.second.head.printMinor p.second.minor).length := by
  have hlines := p.length_headerLines
  rw [Head.printMinor_eq, Head.printMinor_eq, p.requestLine_eq]
  simp only [List.length_append, List.length_cons]
  omega

end Respelled

/-! ## The reads of a request -/

/-- The next read ends inside the head, or it is the rest of the head with the first bytes of the
body. -/
theorem inside_or_end {head body read more : Bytes} {n : Nat} (hn : n < head.length)
    (h : read ++ more <+: (head ++ body).drop n) :
    n + read.length < head.length ∧ head.take (n + read.length) = head.take n ++ read ∧
        more <+: (head ++ body).drop (n + read.length) ∨
      head.length ≤ n + read.length ∧
        read = head.drop n ++ body.take (n + read.length - head.length) := by
  have hmore := h.drop read.length
  rw [List.drop_left, List.drop_drop] at hmore
  have hread := (List.prefix_append read more).trans h
  rw [List.prefix_iff_eq_take, List.drop_append_of_le_length hn.le, List.take_append] at hread
  by_cases hlt : n + read.length < head.length
  · refine .inl ⟨hlt, ?_, hmore⟩
    have hinside : read.length - (head.drop n).length = 0 := by
      rw [List.length_drop]
      omega
    rw [hinside, List.take_zero, List.append_nil] at hread
    rw [List.take_add, ← hread]
  · refine .inr ⟨not_lt.1 hlt, ?_⟩
    have hover : (head.drop n).length ≤ read.length := by
      rw [List.length_drop]
      omega
    have hrest : read.length - (head.drop n).length = n + read.length - head.length := by
      rw [List.length_drop]
      omega
    rw [List.take_of_length_le hover, hrest] at hread
    exact hread

namespace HttpContext

theorem call_iff {ctx ctx' : HttpContext} {read : Bytes} {result : Bool × Bool} :
    ctx.Call read result ctx' ↔ ctx.outcome read = .returned ctx' ∧
      result = (decide (ctx'.state = .complete ∨ ctx'.state = .body), ctx'.isComplete) := by
  unfold Call
  rw [returns_iff_outcome, and_assoc, Prod.ext_iff, eq_comm (a := ctx'.isComplete)]

theorem Call.of_state {ctx ctx₁ ctx' ctx₁' : HttpContext} {read read' : Bytes}
    {result : Bool × Bool} (h : ctx.Call read result ctx₁)
    (hout : ctx'.outcome read' = .returned ctx₁') (hstate : ctx₁.state = ctx₁'.state) :
    ctx'.Call read' result ctx₁' := by
  obtain ⟨-, hresult⟩ := call_iff.1 h
  refine call_iff.2 ⟨hout, ?_⟩
  rw [hresult, isComplete, isComplete, hstate]

theorem Call.unique {ctx : HttpContext} {read : Bytes} {result result' : Bool × Bool}
    {ctx₁ ctx₂ : HttpContext} (h : ctx.Call read result ctx₁) (h' : ctx.Call read result' ctx₂) :
    result = result' ∧ ctx₁ = ctx₂ := by
  obtain ⟨hout, rfl⟩ := call_iff.1 h
  obtain ⟨hout', rfl⟩ := call_iff.1 h'
  obtain rfl := Outcome.returned.inj (hout.symm.trans hout')
  exact ⟨rfl, rfl⟩

end HttpContext

namespace Respelled

open BlankLine (machine)

structure BothDone (ctx ctx' : HttpContext) : Prop where
  done : ctx.state = .complete ∨ ctx.state = .invaild
  state : ctx.state = ctx'.state
  body : ctx.request.body = ctx'.request.body

structure BothWait (p : Respelled) (n : Nat) (ctx ctx' : HttpContext) : Prop where
  first : p.first.head.Waits p.first.minor n ctx
  second : p.second.head.Waits p.second.minor n ctx'

theorem BothDone.call {ctx ctx' ctx₁ : HttpContext} (h : BothDone ctx ctx') {read : Bytes}
    {result : Bool × Bool} (hcall : ctx.Call read result ctx₁) (read' : Bytes) :
    ctx'.Call read' result ctx' ∧ BothDone ctx₁ ctx' := by
  have hstay {c : HttpContext} (hc : c.state = .complete ∨ c.state = .invaild) (text : Bytes) :
      c.outcome text = .returned c := by
    unfold HttpContext.outcome
    rcases hc with hc | hc <;> rw [hc]
  have hout := (HttpContext.call_iff.1 hcall).1
  rw [hstay h.done] at hout
  obtain rfl := Outcome.returned.inj hout
  exact ⟨hcall.of_state (hstay (h.state ▸ h.done) read') h.state, h⟩

section
variable {p : Respelled} {n : Nat} {ctx ctx' ctx₁ : HttpContext}

theorem alike_piece (p : Respelled) {read read' : Bytes} (hlen : read.length = read'.length)
    (hread : (p.first.head.printMinor p.first.minor).take (n + read.length) =
      (p.first.head.printMinor p.first.minor).take n ++ read)
    (hread' : (p.second.head.printMinor p.second.minor).take (n + read'.length) =
      (p.second.head.printMinor p.second.minor).take n ++ read') :
    machine.eval ((p.first.head.printMinor p.first.minor).take n) =
        machine.eval ((p.second.head.printMinor p.second.minor).take n) ∧
      Scan.Alike (machine.eval ((p.first.head.printMinor p.first.minor).take n)) read read' := by
  have halike := p.alike
  have hlength := p.length_head
  generalize p.first.head.printMinor p.first.minor = head at hread halike hlength ⊢
  generalize p.second.head.printMinor p.second.minor = head' at hread' halike hlength ⊢
  have hwhole : head.take n ++ (read ++ head.drop (n + read.length)) = head := by
    rw [← List.append_assoc, ← hread, List.take_append_drop]
  have hwhole' : head'.take n ++ (read' ++ head'.drop (n + read'.length)) = head' := by
    rw [← List.append_assoc, ← hread', List.take_append_drop]
  have htake : (head.take n).length = (head'.take n).length := by
    rw [List.length_take, List.length_take, hlength]
  rw [← hwhole, ← hwhole'] at halike
  obtain ⟨hbefore, hbehind⟩ := halike.split htake
  exact ⟨hbefore.evalFrom_eq, (hbehind.split hlen).1⟩

theorem BothWait.call_inside (h : BothWait p n ctx ctx') {read read' : Bytes}
    (hne : read ≠ []) (hlen : read.length = read'.length)
    (hread : (p.first.head.printMinor p.first.minor).take (n + read.length) =
      (p.first.head.printMinor p.first.minor).take n ++ read)
    (hread' : (p.second.head.printMinor p.second.minor).take (n + read'.length) =
      (p.second.head.printMinor p.second.minor).take n ++ read')
    (hinside : n + read.length < (p.first.head.printMinor p.first.minor).length)
    {result : Bool × Bool} (hcall : ctx.Call read result ctx₁) :
    ∃ ctx₁', ctx'.Call read' result ctx₁' ∧
      (BothWait p (n + read.length) ctx₁ ctx₁' ∨ ctx₁.state = .invaild ∧ BothDone ctx₁ ctx₁') := by
  have hinside' : n + read'.length < (p.second.head.printMinor p.second.minor).length := by
    rw [← hlen, ← p.length_head]
    exact hinside
  have hne' : read' ≠ [] := fun hnil => hne (List.length_eq_zero_iff.1 (by rw [hlen, hnil]; rfl))
  obtain ⟨hstate, halike⟩ := p.alike_piece hlen hread hread'
  obtain ⟨s, hscan, hs, -, hout⟩ := h.first.scan hread hinside
  obtain ⟨s', hscan', -, -, hout'⟩ := h.second.scan hread' hinside'
  have hnot : ¬ s.state.Done := by
    rw [hs]
    exact p.first.head.eval_not_done p.first.minor hinside
  have hinit : Scan.Twin (Scan.init ctx) (Scan.init ctx') :=
    ⟨h.first.state.trans (hstate.trans h.second.state.symm), rfl⟩
  have htwin : Scan.Twin s s' := by
    refine hinit.scan ?_ hscan hscan' hnot
    rw [← h.first.state] at halike
    exact halike
  have hret := (HttpContext.call_iff.1 hcall).1
  obtain ⟨ctx₁', hret', hsame⟩ := htwin.truncated hnot (hout.symm.trans hret)
  rw [hlen, ← hout'] at hret'
  refine ⟨ctx₁', hcall.of_state hret' hsame, ?_⟩
  obtain ⟨hbody, hlast⟩ := h.first.outcome_inside hne hread hinside hret
  obtain ⟨hbody', hlast'⟩ := h.second.outcome_inside hne' hread' hinside' hret'
  rcases hlast with hinvaild | hwaits
  · exact .inr ⟨hinvaild, .inr hinvaild, hsame, hbody.trans hbody'.symm⟩
  · rcases hlast' with hinvaild' | hwaits'
    · exact absurd (.inr (.inr (hsame.trans hinvaild'))) hwaits.not_done
    · rw [← hlen] at hwaits'
      exact .inl ⟨hwaits, hwaits'⟩

theorem BothWait.call_end (h : BothWait p n ctx ctx') {k : Nat}
    (hsettled :
      settled (p.first.head.announcedFrom (n - ((p.first.head.requestLine p.first.minor).length + 2)))
        (p.first.body.take k) =
      settled (p.second.head.announcedFrom (n - ((p.first.head.requestLine p.first.minor).length + 2)))
        (p.second.body.take k))
    {result : Bool × Bool}
    (hcall : ctx.Call (p.first.headText.drop n ++ p.first.body.take k) result ctx₁) :
    ∃ ctx₁', ctx'.Call (p.second.headText.drop n ++ p.second.body.take k) result ctx₁' ∧
      BothDone ctx₁ ctx₁' := by
  obtain ⟨q, hout⟩ := h.first.outcome_end (p.first.body.take k)
  obtain ⟨q', hout'⟩ := h.second.outcome_end (p.second.body.take k)
  have hret := (HttpContext.call_iff.1 hcall).1
  rw [AnyCaseRequest.headText, hout] at hret
  rw [← p.requestLine_eq, ← hsettled] at hout'
  generalize settled _ _ = body at hret hout'
  cases body with
  | none => cases hret
  | some body =>
      obtain rfl := Outcome.returned.inj hret
      exact ⟨_, hcall.of_state hout' rfl, .inl rfl, rfl, rfl⟩

end

/-! ## The reads inside the heads -/

/-- The two runs of the parser over reads that end at the byte `total` of the heads. -/
def Inside (p : Respelled) (total : Nat) (ctx : HttpContext) (reads : List Bytes)
    (ctx' : HttpContext) (reads' : List Bytes) : Prop :=
  reads.map List.length = reads'.map List.length ∧
    ((∃ n, BothWait p n ctx ctx' ∧ [] ∉ reads ∧ n + reads.flatten.length = total ∧
        reads.flatten <+: p.first.print.drop n ∧ reads'.flatten <+: p.second.print.drop n) ∨
      ctx.state = .invaild ∧ BothDone ctx ctx')

theorem Inside.call {p : Respelled} {total : Nat} (htotal : total < p.first.headText.length)
    {ctx ctx' ctx₁ : HttpContext} {read : Bytes} {reads reads' : List Bytes}
    (h : p.Inside total ctx (read :: reads) ctx' reads') {result : Bool × Bool}
    (hcall : ctx.Call read result ctx₁) :
    ∃ read' more ctx₁', reads' = read' :: more ∧ ctx'.Call read' result ctx₁' ∧
      p.Inside total ctx₁ reads ctx₁' more := by
  obtain ⟨hlens, hwhere⟩ := h
  cases reads' with
  | nil => cases hlens
  | cons read' more =>
      obtain ⟨hlen, hmore⟩ := List.cons.inj hlens
      rcases hwhere with ⟨n, hwait, hnil, hsum, hprefix, hprefix'⟩ | ⟨hinvaild, hdone⟩
      · have hne : read ≠ [] := (List.ne_of_not_mem_cons hnil).symm
        have hhead : p.first.headText.length = p.second.headText.length := p.length_head
        rw [List.flatten_cons, List.length_append] at hsum
        rcases inside_or_end hwait.first.inside hprefix with ⟨hlt, hread, hrest⟩ | ⟨hle, -⟩
        · rcases inside_or_end hwait.second.inside hprefix' with
            ⟨-, hread', hrest'⟩ | ⟨hle', -⟩
          · obtain ⟨ctx₁', hcall', hnext⟩ := hwait.call_inside hne hlen hread hread' hlt hcall
            refine ⟨read', more, ctx₁', rfl, hcall', hmore, hnext.imp_left fun hwait' => ?_⟩
            rw [← hlen] at hrest'
            exact ⟨_, hwait', List.not_mem_of_not_mem_cons hnil, by omega, hrest, hrest'⟩
          · unfold AnyCaseRequest.headText at hhead htotal
            omega
        · unfold AnyCaseRequest.headText at htotal
          omega
      · obtain ⟨hcall', hdone'⟩ := hdone.call hcall read'
        have hstay : ctx₁ = ctx := by
          have hout := (HttpContext.call_iff.1 hcall).1
          unfold HttpContext.outcome at hout
          rw [hinvaild] at hout
          exact (Outcome.returned.inj hout).symm
        exact ⟨read', more, ctx', rfl, hcall', hmore, .inr ⟨hstay ▸ hinvaild, hdone'⟩⟩

/-- Over reads inside the heads the parser does the same for both, and then it waits at the same
byte or has refused both. -/
theorem emits_inside {p : Respelled} {reads reads' : List Bytes} (hnil : [] ∉ reads)
    (hfirst : reads.flatten <+: p.first.print) (hsecond : reads'.flatten <+: p.second.print)
    (hlens : reads.map List.length = reads'.map List.length)
    (hlt : reads.flatten.length < p.first.headText.length) {results : List (Bool × Bool)}
    {ctx : HttpContext} (h : Lib.Emits HttpContext.Call {} reads results ctx) :
    ∃ ctx', Lib.Emits HttpContext.Call {} reads' results ctx' ∧
      (BothWait p reads.flatten.length ctx ctx' ∨ ctx.state = .invaild ∧ BothDone ctx ctx') := by
  have hend (ctx ctx' : HttpContext) (more : List Bytes)
      (h : p.Inside reads.flatten.length ctx [] ctx' more) : more = [] :=
    List.map_eq_nil_iff.1 h.1.symm
  have hstart : p.Inside reads.flatten.length {} reads {} reads' :=
    ⟨hlens, .inl ⟨0, ⟨p.first.head.waits_zero _, p.second.head.waits_zero _⟩, hnil,
      Nat.zero_add _, hfirst, hsecond⟩⟩
  have hkeep (ctx : HttpContext) (read : Bytes) (reads₁ : List Bytes) (ctx' : HttpContext)
      (reads₁' : List Bytes)
      (h : p.Inside reads.flatten.length ctx (read :: reads₁) ctx' reads₁') (result : Bool × Bool)
      (ctx₁ : HttpContext) (hcall : ctx.Call read result ctx₁) :
      ∃ read' more ctx₁', reads₁' = read' :: more ∧ ctx'.Call read' result ctx₁' ∧
        p.Inside reads.flatten.length ctx₁ reads₁ ctx₁' more := h.call hlt hcall
  obtain ⟨ctx', hemits, hlast⟩ := h.twin hend hkeep hstart
  refine ⟨ctx', hemits, hlast.2.imp_left fun hwait => ?_⟩
  obtain ⟨n, hwait, -, hsum, -⟩ := hwait
  rw [List.flatten_nil, List.length_nil, Nat.add_zero] at hsum
  rw [← hsum]
  exact hwait

/-- Nothing more happens to a request that is complete or refused. -/
theorem BothDone.emits {ctx ctx' : HttpContext} (h : BothDone ctx ctx') {reads reads' : List Bytes}
    (hlens : reads.map List.length = reads'.map List.length) {results : List (Bool × Bool)}
    {last : HttpContext} (hemits : Lib.Emits HttpContext.Call ctx reads results last) :
    ∃ last', Lib.Emits HttpContext.Call ctx' reads' results last' ∧
      last.request.body = last'.request.body := by
  obtain ⟨last', hemits', hlast⟩ := hemits.twin
    (R := fun ctx reads ctx' reads' =>
      reads.map List.length = reads'.map List.length ∧ BothDone ctx ctx')
    (fun _ _ _ h => List.map_eq_nil_iff.1 h.1.symm)
    (fun ctx read reads ctx' reads' h result ctx₁ hcall => by
      obtain ⟨hlens, hdone⟩ := h
      cases reads' with
      | nil => cases hlens
      | cons read' more =>
          obtain ⟨hcall', hdone'⟩ := hdone.call hcall read'
          exact ⟨read', more, ctx', rfl, hcall', (List.cons.inj hlens).2, hdone'⟩)
    ⟨hlens, h⟩
  exact ⟨last', hemits', hlast.2.body⟩

end Respelled

/-! ## The read with the end of the head -/

theorem endingBefore_congr {size : Nat} {reads reads' : List Bytes}
    (hlens : reads.map List.length = reads'.map List.length) :
    endingBefore size reads = endingBefore size reads' := by
  induction reads generalizing size reads' with
  | nil =>
      obtain rfl := List.map_eq_nil_iff.1 hlens.symm
      rfl
  | cons read reads ih =>
      cases reads' with
      | nil => cases hlens
      | cons read' reads' =>
          obtain ⟨hlen, hrest⟩ := List.cons.inj hlens
          rw [endingBefore, endingBefore, ← hlen, ih hrest]

/-- The read in which the byte in front of `size` comes. -/
theorem exists_read {size : Nat} {reads : List Bytes} (hpos : 0 < size)
    (h : size ≤ reads.flatten.length) :
    ∃ past read rest, reads = past ++ read :: rest ∧ past.length = endingBefore size reads ∧
      past.flatten.length < size ∧ size ≤ past.flatten.length + read.length := by
  induction reads generalizing size with
  | nil =>
      rw [List.flatten_nil, List.length_nil] at h
      omega
  | cons read reads ih =>
      rw [List.flatten_cons, List.length_append] at h
      rw [endingBefore]
      by_cases hlt : read.length < size
      · obtain ⟨past, last, rest, rfl, hpast, hbefore, hbehind⟩ :=
          ih (Nat.sub_pos_of_lt hlt) (by omega)
        rw [if_pos hlt]
        refine ⟨read :: past, last, rest, rfl, by rw [List.length_cons, hpast], ?_, ?_⟩
        all_goals
          rw [List.flatten_cons, List.length_append]
          omega
      · rw [if_neg hlt]
        exact ⟨[], read, reads, rfl, rfl, hpos, by simpa using not_lt.1 hlt⟩

theorem AnyCaseRequest.headText_pos (r : AnyCaseRequest) : 0 < r.headText.length :=
  (r.head.waits_zero r.minor).inside

/-! ## What is looked up -/

@[simp] theorem headersFrom_zero (hs : List Header) : headersFrom 0 hs = hs := by
  cases hs with
  | nil => rfl
  | cons h hs => exact if_pos rfl

theorem headersFrom_suffix (n : Nat) (hs : List Header) : headersFrom n hs <:+ hs := by
  induction hs generalizing n with
  | nil => exact List.suffix_rfl
  | cons h hs ih =>
      rw [headersFrom]
      split_ifs
      · exact List.suffix_rfl
      · exact (ih _).trans (List.suffix_cons h hs)

/-- Beside the longer names the look-up finds what begins in the read. -/
theorem lastValue_pairsFrom {n : Nat} {hs : List Header}
    (haside : ∀ left ∈ nameLeft n hs, left ≠ ascii "Content-Length") :
    Lib.lastValue (ascii "Content-Length") (Scan.pairsFrom n hs) =
      Lib.lastValue (ascii "Content-Length") ((headersFrom n hs).map Header.pair) := by
  induction hs generalizing n with
  | nil => rfl
  | cons h hs ih =>
      have hshort : h.key.length < h.print.length := by
        rw [h.print_eq, List.length_append, List.length_append]
        simp
      rw [Scan.pairsFrom, headersFrom]
      rw [nameLeft] at haside
      by_cases hzero : n = 0
      · subst hzero
        rw [if_pos (Nat.zero_le _), if_pos rfl]
        rfl
      rw [if_neg hzero] at haside ⊢
      by_cases hkey : n ≤ h.key.length
      · rw [if_pos hkey] at haside ⊢
        rw [Nat.sub_eq_zero_of_le (by omega), headersFrom_zero, Lib.lastValue,
          if_neg (haside _ rfl), Option.or_none]
      · rw [if_neg hkey] at haside ⊢
        split_ifs with hline
        · rw [Nat.sub_eq_zero_of_le hline.le, headersFrom_zero]
        · exact ih haside

theorem nameLeft_respelled {hs hs' : List Header} (h : List.Forall₂ SameField hs hs') {n : Nat}
    (haside : ∀ left ∈ nameLeft n hs, lower left ≠ ascii "content-length") :
    ∀ left ∈ nameLeft n hs', lower left ≠ ascii "content-length" := by
  induction h generalizing n with
  | nil => exact haside
  | @cons hd hd' hs hs' hsame _ ih =>
      have hprint : hd.print.length = hd'.print.length := hsame.letters.length_eq
      have hkey : hd.key.length = hd'.key.length := (sameLetters_of_lower hsame.key).length_eq
      rw [nameLeft, ← hkey, ← hprint]
      rw [nameLeft] at haside
      split_ifs at haside ⊢
      · exact haside
      · intro left hleft
        cases hleft
        have hrest := haside _ rfl
        unfold lower at hrest ⊢
        have hlower := hsame.key
        unfold lower at hlower
        rw [List.map_drop] at hrest ⊢
        rw [← hlower]
        exact hrest
      · exact ih haside

namespace AnyCaseRequest

variable {r : AnyCaseRequest} {n k : Nat}

/-- A header of the name, as it is spelled here, announces the body. -/
theorem value_of_mem {h : Header} (hmem : h ∈ r.head.headers)
    (hkey : h.key = ascii "Content-Length") : atoi h.value = r.body.length := by
  have hlower : lower (ascii "Content-Length") = ascii "content-length" := by decide
  have hnodup : ((r.head.headers.map fun h => (lower h.key, h.value)).map Prod.fst).Nodup := by
    rw [List.map_map]
    exact r.distinct
  have hlast : Lib.lastValue (ascii "content-length")
      (r.head.headers.map fun h => (lower h.key, h.value)) = some h.value := by
    rw [Lib.lastValue_eq_some_iff hnodup]
    refine List.mem_map.2 ⟨h, hmem, ?_⟩
    rw [hkey, hlower]
  have hframed := r.framed
  rw [hlast] at hframed
  have hsmall := r.small
  rw [atoi_digits hframed.1 (by omega), hframed.2]

theorem settled_of_seen (haside : ∀ left ∈ nameLeft n r.head.headers,
      lower left ≠ ascii "content-length")
    (h : ∃ h ∈ headersFrom n r.head.headers, h.key = ascii "Content-Length") :
    settled (r.head.announcedFrom n) (r.body.take k) =
      if r.body.length ≤ k then some r.body else none := by
  obtain ⟨h, hmem, hkey⟩ := h
  have hall := (headersFrom_suffix n r.head.headers).subset
  have hnot : ∀ left ∈ nameLeft n r.head.headers, left ≠ ascii "Content-Length" := by
    rintro left hleft rfl
    exact haside _ hleft (by decide)
  obtain ⟨value, hvalue⟩ := Lib.exists_lastValue (List.mem_map_of_mem (f := Header.pair) hmem)
  rw [show h.pair.1 = h.key from rfl, hkey] at hvalue
  obtain ⟨h', hmem', hpair⟩ := List.mem_map.1 (Lib.mem_of_lastValue hvalue)
  obtain ⟨hkey', rfl⟩ := Prod.mk.inj hpair
  have hatoi := r.value_of_mem (hall hmem') hkey'
  unfold Head.announcedFrom
  rw [lastValue_pairsFrom hnot, hvalue]
  unfold settled
  dsimp only
  rw [hatoi]
  by_cases hle : r.body.length ≤ k
  · rw [if_pos hle, List.take_of_length_le hle, if_pos (Int.le_refl _)]
    split_ifs with hnone
    · rw [List.length_eq_zero_iff.1 (by omega : r.body.length = 0)]
    · rfl
  · rw [if_neg hle, if_neg (by omega), if_neg (by rw [List.length_take]; omega)]

theorem settled_of_unseen (haside : ∀ left ∈ nameLeft n r.head.headers,
      lower left ≠ ascii "content-length")
    (h : ¬ ∃ h ∈ headersFrom n r.head.headers, h.key = ascii "Content-Length") :
    settled (r.head.announcedFrom n) (r.body.take k) = some (r.body.take k) := by
  have hnot : ∀ left ∈ nameLeft n r.head.headers, left ≠ ascii "Content-Length" := by
    rintro left hleft rfl
    exact haside _ hleft (by decide)
  have hnone : Lib.lastValue (ascii "Content-Length")
      ((headersFrom n r.head.headers).map Header.pair) = none := by
    rw [Lib.lastValue_eq_none_iff]
    intro kv hkv hkey
    obtain ⟨hd, hmem, rfl⟩ := List.mem_map.1 hkv
    exact h ⟨hd, hmem, hkey⟩
  unfold Head.announcedFrom
  rw [lastValue_pairsFrom hnot, hnone]
  rfl

end AnyCaseRequest

namespace Respelled

namespace Cut

variable {p : Respelled} (c : p.Cut)

def swap : p.swap.Cut where
  reads := c.reads'
  reads' := c.reads
  nonempty := by
    intro hmem
    have hzero := List.mem_map_of_mem (f := List.length) hmem
    rw [← c.lengths] at hzero
    obtain ⟨read, hread, hlen⟩ := List.mem_map.1 hzero
    rw [List.length_eq_zero_iff.1 hlen] at hread
    exact c.nonempty hread
  first := c.second
  second := c.first
  lengths := c.lengths.symm

theorem exists_head_end : ∃ read rest, c.reads = c.past ++ read :: rest ∧
    c.past.flatten.length < p.first.headText.length ∧
    read = p.first.headText.drop c.past.flatten.length ++ p.first.body.take c.arrived := by
  have hlength : p.first.print.length = p.first.headText.length + p.first.body.length :=
    List.length_append
  obtain ⟨before, read, rest, hreads, hcount, hbefore, hbehind⟩ :=
    exists_read p.first.headText_pos (by rw [c.first, hlength]; omega)
  have hpast : c.past = before := by
    unfold past
    rw [← hcount, hreads, List.take_left]
  have htaken : c.reads.take (c.past.length + 1) = before ++ [read] := by
    rw [hpast, hreads, List.take_length_add_append]
    rfl
  refine ⟨read, rest, by rw [hpast]; exact hreads, by rw [hpast]; exact hbefore, ?_⟩
  have hprefix : read ++ [] <+: p.first.print.drop before.flatten.length := by
    rw [List.append_nil, ← c.first, hreads, List.flatten_append, List.drop_left, List.flatten_cons]
    exact List.prefix_append _ _
  rcases inside_or_end hbefore hprefix with ⟨hlt, -⟩ | ⟨-, hread⟩
  · omega
  · unfold arrived
    rw [htaken, hpast, List.flatten_append, List.length_append, List.flatten_singleton]
    exact hread

theorem length_past_swap : c.swap.past.map List.length = c.past.map List.length := by
  have hhead : p.first.headText.length = p.second.headText.length := p.length_head
  have hcount : endingBefore p.second.headText.length c.reads' =
      endingBefore p.first.headText.length c.reads := by
    rw [← hhead]
    exact endingBefore_congr c.lengths.symm
  show (c.reads'.take (endingBefore p.second.headText.length c.reads')).map List.length = _
  unfold past
  rw [hcount, List.map_take, List.map_take, c.lengths]

theorem length_flatten_swap : c.swap.past.flatten.length = c.past.flatten.length := by
  rw [List.length_flatten, List.length_flatten, c.length_past_swap]

theorem place_swap : c.swap.place = c.place := by
  unfold place
  rw [c.length_flatten_swap]
  show _ - ((p.second.head.requestLine p.second.minor).length + 2) = _
  rw [p.requestLine_eq]

theorem arrived_swap : c.swap.arrived = c.arrived := by
  have hhead : p.first.headText.length = p.second.headText.length := p.length_head
  have hpast : c.swap.past.length = c.past.length := by
    have hlens := congrArg List.length c.length_past_swap
    rw [List.length_map, List.length_map] at hlens
    exact hlens
  unfold arrived
  rw [hpast, List.length_flatten, List.length_flatten, List.map_take, List.map_take]
  show ((c.reads'.map List.length).take (c.past.length + 1)).sum - p.second.headText.length = _
  rw [← c.lengths, hhead]

/-- The reads of both in front of the one with the end of the head, that one, and those behind. -/
structure Split where
  past' : List Bytes
  read : Bytes
  read' : Bytes
  rest : List Bytes
  rest' : List Bytes
  reads : c.reads = c.past ++ read :: rest
  reads' : c.reads' = past' ++ read' :: rest'
  past_lengths : c.past.map List.length = past'.map List.length
  read_length : read.length = read'.length
  rest_lengths : rest.map List.length = rest'.map List.length
  inside : c.past.flatten.length < p.first.headText.length
  read_eq : read = p.first.headText.drop c.past.flatten.length ++ p.first.body.take c.arrived
  read_eq' : read' = p.second.headText.drop c.past.flatten.length ++ p.second.body.take c.arrived
  past_prefix : c.past.flatten <+: p.first.print
  past_prefix' : past'.flatten <+: p.second.print

theorem exists_split : Nonempty c.Split := by
  obtain ⟨read, rest, hreads, hinside, hread⟩ := c.exists_head_end
  obtain ⟨read', rest', hreads', -, hread'⟩ := c.swap.exists_head_end
  rw [c.length_flatten_swap, c.arrived_swap] at hread'
  have hlens := c.lengths
  rw [hreads, show c.reads' = _ from hreads', List.map_append, List.map_append,
    c.length_past_swap, List.append_cancel_left_eq] at hlens
  obtain ⟨hlen, hrest⟩ := List.cons.inj hlens
  refine ⟨⟨c.swap.past, read, read', rest, rest', hreads, hreads', c.length_past_swap.symm, hlen,
    hrest, hinside, hread, hread', ?_, ?_⟩⟩
  · rw [← c.first]
    exact (List.take_prefix _ _).flatten
  · rw [← c.second]
    exact (List.take_prefix _ _).flatten

def SettlesAlike : Prop :=
  settled (p.first.head.announcedFrom c.place) (p.first.body.take c.arrived) =
    settled (p.second.head.announcedFrom c.place) (p.second.body.take c.arrived)

variable {c}

theorem Split.length_past (t : c.Split) : t.past'.length = c.past.length := by
  have hlens := congrArg List.length t.past_lengths
  rw [List.length_map, List.length_map] at hlens
  exact hlens.symm

theorem Split.emits_past (t : c.Split) {n : Nat} {results : List (Bool × Bool)} {ctx : HttpContext}
    (h : Lib.Emits HttpContext.Call {} (c.past.take n) results ctx) :
    ∃ ctx', Lib.Emits HttpContext.Call {} (t.past'.take n) results ctx' ∧
      (BothWait p (c.past.take n).flatten.length ctx ctx' ∨
        ctx.state = .invaild ∧ BothDone ctx ctx') := by
  have htaken := (List.take_prefix n c.past).flatten
  have hshort : (c.past.take n).flatten.length < p.first.headText.length :=
    Nat.lt_of_le_of_lt htaken.length_le t.inside
  have hnil : [] ∉ c.past.take n := fun hmem =>
    c.nonempty (List.mem_of_mem_take (List.mem_of_mem_take hmem))
  refine emits_inside hnil (htaken.trans t.past_prefix)
    ((List.take_prefix n t.past').flatten.trans t.past_prefix') ?_ hshort h
  rw [List.map_take, List.map_take, t.past_lengths]

/-- Behind the reads inside the head the two runs are the same when what they settle is. -/
theorem Split.emits_rest (t : c.Split) (h : c.Reached → c.SettlesAlike) {m : Nat}
    {results : List (Bool × Bool)} {last : HttpContext}
    (hemits : Lib.Emits HttpContext.Call {} (c.past ++ t.read :: t.rest.take m) results last) :
    ∃ last', Lib.Emits HttpContext.Call {} (t.past' ++ t.read' :: t.rest'.take m) results last' ∧
      last.request.body = last'.request.body := by
  obtain ⟨before, behind, ctx, rfl, hbefore, hbehind⟩ := Lib.emits_append.1 hemits
  rw [← List.take_length (l := c.past)] at hbefore
  obtain ⟨ctx', hbefore', hwhere⟩ := t.emits_past hbefore
  rw [← t.length_past, List.take_length] at hbefore'
  rw [List.take_length] at hbefore hwhere
  have hmore : (t.rest.take m).map List.length = (t.rest'.take m).map List.length := by
    rw [List.map_take, List.map_take, t.rest_lengths]
  rcases hwhere with hwait | ⟨-, hdone⟩
  · have hreached : c.Reached :=
      ⟨before, ctx, hbefore, fun hno => hwait.first.not_done (.inr (.inr hno))⟩
    obtain ⟨result, ctx₁, results, hcall, rfl, hlater⟩ := hbehind
    rw [t.read_eq] at hcall
    obtain ⟨ctx₁', hcall', hdone⟩ := hwait.call_end (h hreached) hcall
    obtain ⟨last', hlater', hbody⟩ := hdone.emits hmore hlater
    rw [← t.read_eq'] at hcall'
    exact ⟨last', hbefore'.append (.cons hcall' hlater'), hbody⟩
  · have hall : (t.read :: t.rest.take m).map List.length =
        (t.read' :: t.rest'.take m).map List.length := by
      rw [List.map_cons, List.map_cons, t.read_length, hmore]
    obtain ⟨last', hbehind', hbody⟩ := hdone.emits hall hbehind
    exact ⟨last', hbefore'.append hbehind', hbody⟩

/-- What the first request is read as, the second is. -/
theorem parses_of_settlesAlike (h : c.Reached → c.SettlesAlike) {n : Nat}
    {results : List (Bool × Bool)} {body : Bytes} (hparses : Parses (c.reads.take n) results body) :
    Parses (c.reads'.take n) results body := by
  obtain ⟨t⟩ := c.exists_split
  obtain ⟨last, hemits, rfl⟩ := hparses
  rw [t.reads] at hemits
  rw [t.reads']
  by_cases hn : n ≤ c.past.length
  · rw [List.take_append_of_le_length hn] at hemits
    rw [List.take_append_of_le_length (t.length_past ▸ hn)]
    obtain ⟨ctx', hemits', hlast⟩ := t.emits_past hemits
    refine ⟨ctx', hemits', ?_⟩
    rcases hlast with hwait | ⟨-, hdone⟩
    · rw [hwait.first.empty, hwait.second.empty]
    · exact hdone.body.symm
  · obtain ⟨m, rfl⟩ := Nat.exists_eq_add_of_lt (not_le.1 hn)
    rw [Nat.add_assoc, List.take_length_add_append, List.take_succ_cons] at hemits
    rw [Nat.add_assoc, ← t.length_past, List.take_length_add_append, List.take_succ_cons]
    obtain ⟨last', hemits', hbody⟩ := t.emits_rest h hemits
    exact ⟨last', hemits', hbody.symm⟩

theorem Reached.exists_wait (h : c.Reached) (t : c.Split) : ∃ results ctx ctx',
    Lib.Emits HttpContext.Call {} c.past results ctx ∧
      Lib.Emits HttpContext.Call {} t.past' results ctx' ∧
        BothWait p c.past.flatten.length ctx ctx' := by
  obtain ⟨results, ctx, hemits, hlive⟩ := h
  have hall := hemits
  rw [← List.take_length (l := c.past)] at hall
  obtain ⟨ctx', hemits', hwhere⟩ := t.emits_past hall
  rw [← t.length_past, List.take_length] at hemits'
  rw [List.take_length] at hwhere
  exact ⟨results, ctx, ctx', hemits, hemits', hwhere.resolve_right fun hno => hlive hno.1⟩

/-- Behind them the read with the end of the head returns when something is settled. -/
theorem parses_end_iff {r : AnyCaseRequest} {past : List Bytes} {results : List (Bool × Bool)}
    {ctx : HttpContext} {n : Nat} (hemits : Lib.Emits HttpContext.Call {} past results ctx)
    (hwaits : r.head.Waits r.minor n ctx) (rest body : Bytes) :
    Parses (past ++ [r.headText.drop n ++ rest]) (results ++ [(true, true)]) body ↔
      settled (r.head.announcedFrom (n - ((r.head.requestLine r.minor).length + 2))) rest =
        some body := by
  obtain ⟨q, hout⟩ := hwaits.outcome_end rest
  unfold Parses
  simp only [hemits.append_iff fun _ _ _ _ _ _ h h' => h.unique h']
  constructor
  · intro h
    obtain ⟨last, ⟨result, ctx', later, hcall, heq, hlater⟩, rfl⟩ := h
    obtain ⟨rfl, rfl⟩ := List.cons.inj heq
    obtain ⟨-, rfl⟩ := hlater
    have hret := (HttpContext.call_iff.1 hcall).1
    rw [AnyCaseRequest.headText, hout] at hret
    revert hret
    cases settled _ _ with
    | none => exact fun hret => nomatch hret
    | some body =>
        intro hret
        rw [← Outcome.returned.inj hret]
        rfl
  · intro hsettled
    rw [hsettled] at hout
    exact ⟨⟨.complete, q.setBody body⟩, .cons (HttpContext.call_iff.2 ⟨hout, rfl⟩)
      (Lib.emits_nil _), rfl⟩

theorem settlesAlike_of_sameFraming (h : c.SameFraming) (hreached : c.Reached) :
    c.SettlesAlike := by
  obtain ⟨t⟩ := c.exists_split
  obtain ⟨results, ctx, ctx', hemits, hemits', hwait⟩ := hreached.exists_wait t
  apply Option.ext
  intro body
  have hsame := h (c.past.length + 1) (results ++ [(true, true)]) body
  rw [t.reads, t.reads', List.take_length_add_append] at hsame
  rw [← t.length_past, List.take_length_add_append, List.take_succ_cons, List.take_succ_cons,
    List.take_zero, List.take_zero, t.read_eq, t.read_eq', parses_end_iff hemits hwait.first,
    parses_end_iff hemits' hwait.second, ← p.requestLine_eq] at hsame
  exact hsame

theorem reached_of_swap (h : c.swap.Reached) : c.Reached := by
  obtain ⟨t⟩ := c.exists_split
  obtain ⟨t'⟩ := c.swap.exists_split
  obtain ⟨results, ctx, ctx', -, hemits', hwait⟩ := h.exists_wait t'
  have hpast : t'.past' = c.past := by
    have hlens := congrArg List.length (c.length_past_swap.symm.trans t'.past_lengths)
    rw [List.length_map, List.length_map] at hlens
    have htake := congrArg (List.take c.past.length) (t.reads.symm.trans t'.reads')
    rw [List.take_left, hlens, List.take_left] at htake
    exact htake.symm
  rw [hpast] at hemits'
  exact ⟨results, ctx', hemits', fun hno => hwait.second.not_done (.inr (.inr hno))⟩

theorem sameFraming_iff_settlesAlike : c.SameFraming ↔ (c.Reached → c.SettlesAlike) := by
  refine ⟨settlesAlike_of_sameFraming, fun h n results body => ⟨parses_of_settlesAlike h, ?_⟩⟩
  apply parses_of_settlesAlike (c := c.swap)
  intro hreached
  have halike := h (reached_of_swap hreached)
  unfold SettlesAlike at halike ⊢
  rw [c.place_swap, c.arrived_swap]
  exact halike.symm

theorem settlesAlike_iff (haside : c.BeginsAside) :
    c.SettlesAlike ↔ c.SameSpelling ∨ p.first.body.length ≤ c.arrived := by
  have haside' := nameLeft_respelled p.headers haside
  have hbody := p.body
  unfold SettlesAlike SameSpelling
  by_cases hseen : ∃ h ∈ headersFrom c.place p.first.head.headers, h.key = ascii "Content-Length"
  · rw [AnyCaseRequest.settled_of_seen haside hseen, iff_true_left hseen]
    by_cases hseen' : ∃ h ∈ headersFrom c.place p.second.head.headers,
        h.key = ascii "Content-Length"
    · rw [AnyCaseRequest.settled_of_seen haside' hseen', ← hbody]
      exact iff_of_true rfl (.inl hseen')
    · rw [AnyCaseRequest.settled_of_unseen haside' hseen', ← hbody, or_iff_right hseen']
      split_ifs with hle
      · exact iff_of_true (by rw [List.take_of_length_le hle]) hle
      · exact iff_of_false (fun hno => nomatch hno) hle
  · rw [AnyCaseRequest.settled_of_unseen haside hseen, iff_false_left hseen]
    by_cases hseen' : ∃ h ∈ headersFrom c.place p.second.head.headers,
        h.key = ascii "Content-Length"
    · rw [AnyCaseRequest.settled_of_seen haside' hseen', ← hbody,
        or_iff_right (not_not_intro hseen')]
      split_ifs with hle
      · exact iff_of_true (by rw [List.take_of_length_le hle]) hle
      · exact iff_of_false (fun hno => nomatch hno) hle
    · rw [AnyCaseRequest.settled_of_unseen haside' hseen', hbody]
      exact iff_of_true rfl (.inl hseen')

end Cut

/-- **The spelling of names.** Two requests that differ only in the letter case of header names are
framed alike in a common cut exactly when the parser has stopped before the read with the end of the
head, or that read has a `Content-Length` spelled in this way for both or for neither, or it brings
the whole body as well. -/
theorem sameFraming_iff {p : Respelled} (c : p.Cut) (haside : c.BeginsAside) :
    c.SameFraming ↔ (c.Reached → c.SameSpelling ∨ p.first.body.length ≤ c.arrived) := by
  rw [c.sameFraming_iff_settlesAlike, c.settlesAlike_iff haside]

def lowerLength : Header :=
  { Request.postSample.head.headers.head (List.cons_ne_nil _ _) with
    key := ascii "content-length"
    key_ne := by decide
    key_ok := List.all_iff_forall_prop.1 rfl }

def titlePost : AnyCaseRequest where
  head := Request.postSample.head
  minor := .one
  body := Request.postSample.body
  distinct := List.nodup_singleton _
  framed := Request.postSample.framed
  small := by decide

def lowerPost : AnyCaseRequest where
  head := { Request.postSample.head with headers := [lowerLength] }
  minor := .one
  body := Request.postSample.body
  distinct := List.nodup_singleton _
  framed := Request.postSample.framed
  small := by decide

def postSample : Respelled where
  first := titlePost
  second := lowerPost
  line := rfl
  minor := rfl
  headers := .cons ⟨by decide, rfl, rfl, rfl⟩ .nil
  body := rfl

def postCut : postSample.Cut where
  reads := [titlePost.headText, titlePost.body]
  reads' := [lowerPost.headText, lowerPost.body]
  nonempty := by decide
  first := by decide
  second := by decide
  lengths := by decide

def wholeCut : postSample.Cut where
  reads := [titlePost.print]
  reads' := [lowerPost.print]
  nonempty := by decide
  first := by decide
  second := by decide
  lengths := by decide

theorem sameFraming_wholeCut : wholeCut.SameFraming := by
  have haside : wholeCut.BeginsAside := by
    have hnone : nameLeft wholeCut.place postSample.first.head.headers = none := by decide
    unfold Cut.BeginsAside
    rw [hnone]
    exact fun _ hno => nomatch hno
  have hwhole : postSample.first.body.length ≤ wholeCut.arrived := by decide
  exact (sameFraming_iff wholeCut haside).2 fun _ => .inr hwhole

/-- The one call never ends, and the other completes the request without its body. -/
theorem not_sameFraming_postSample :
    postSample.first.print = ascii "POST / HTTP/1.1\r\nContent-Length: 5\r\n\r\nhello" ∧
      postSample.second.print = ascii "POST / HTTP/1.1\r\ncontent-length: 5\r\n\r\nhello" ∧
      ¬ HttpContext.Terminates {} postSample.first.headText ∧
      (∃ ctx', HttpContext.Returns {} postSample.second.headText ctx' true ∧
        ctx'.isComplete = true ∧ ctx'.request.body = []) ∧
      ¬ postSample.SameFraming := by
  have hfirst : settled (titlePost.head.announcedFrom 0) [] = none := by decide
  have hsecond : settled (lowerPost.head.announcedFrom 0) [] = some [] := by decide
  have hcall (r : AnyCaseRequest) : ∃ q, HttpContext.outcome {} r.headText =
      match settled (r.head.announcedFrom 0) [] with
      | some body => .returned ⟨.complete, HttpRequest.setBody q body⟩
      | none => .hangs := by
    have hout := (r.head.waits_zero r.minor).outcome_end []
    rw [List.append_nil, List.drop_zero, Nat.zero_sub] at hout
    exact hout
  refine ⟨by decide, by decide, ?_, ?_, ?_⟩
  · obtain ⟨q, hhang⟩ := hcall titlePost
    rw [hfirst] at hhang
    rw [HttpContext.terminates_iff_outcome]
    exact fun hno => hno hhang
  · obtain ⟨q, hout⟩ := hcall lowerPost
    rw [hsecond] at hout
    exact ⟨_, HttpContext.returns_iff_outcome.2 ⟨hout, rfl⟩, rfl, rfl⟩
  · intro h
    have hsame := Cut.settlesAlike_of_sameFraming (h postCut)
      ⟨[], {}, Lib.emits_nil _, by decide⟩
    have hplace : postCut.place = 0 ∧ postCut.arrived = 0 := by decide
    unfold Cut.SettlesAlike at hsame
    rw [hplace.1, hplace.2, List.take_zero, List.take_zero] at hsame
    rw [show postSample.first.head = titlePost.head from rfl, hfirst,
      show postSample.second.head = lowerPost.head from rfl, hsecond] at hsame
    cases hsame

end Respelled

end CPlusServer

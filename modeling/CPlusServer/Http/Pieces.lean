import CPlusServer.Http.Persistence
import CPlusServer.Http.Unfinished

/-!
# Pieces of a head

A call forgets the token it was in. One that begins inside a header key takes the
rest of it for the key, and one that begins behind a key stores the value under the
empty name, so the Content-Length by the end of a head depends on where the last
piece of it begins.
-/

namespace CPlusServer

namespace Header

def afterKey (h : Header) : Bytes := h.before ++ chr ':' :: (h.after ++ h.value)

theorem print_eq (h : Header) : h.print = h.key ++ (h.afterKey ++ [CR, LF]) := by
  simp [print, afterKey]

theorem afterKey_ne (h : Header) : h.afterKey ≠ [] := by
  simp [afterKey]

theorem afterKey_ok (h : Header) : ∀ ch ∈ h.afterKey, ch ≠ CR := by
  have hblanks {u : Bytes} (hu : ∀ ch ∈ u, isblank ch = true) : ∀ ch ∈ u, ch ≠ CR :=
    fun ch hch => ne_of_isblank (hu ch hch) isblank_CR
  intro ch hch
  rcases List.mem_append.1 hch with hch | hch
  · exact hblanks h.before_ok ch hch
  · rcases List.mem_cons.1 hch with rfl | hch
    · decide
    · rcases List.mem_append.1 hch with hch | hch
      · exact hblanks h.after_ok ch hch
      · exact (h.value_ok ch hch).1

end Header

namespace Scan

open BlankLine (machine next)

/-! ## The rest of a head -/

/-- The head ends with the text, and `v` is the Content-Length by then. -/
def Finishes (s : Scan) (text : Bytes) (v : Option Bytes) : Prop :=
  ∃ s', Reads s text s' [] ∧ s'.request.announced = v

theorem Finishes.not_done {s : Scan} {text : Bytes} {v : Option Bytes} (h : Finishes s text v)
    (hne : text ≠ []) : ¬ s.state.Done := by
  intro hd
  obtain ⟨s', ⟨hscan, -⟩, -⟩ := h
  rw [scan_done hd] at hscan
  exact hne (Prod.mk.inj hscan).2

theorem finishes_append {s s' : Scan} {text : Bytes} {v : Option Bytes} (u : Bytes)
    (h : s.scan (u ++ text) = s'.scan text) (hrest : Finishes s' text v) :
    Finishes s (u ++ text) v := by
  obtain ⟨s'', ⟨hscan, hs⟩, hv⟩ := hrest
  exact ⟨s'', ⟨h.trans hscan, hs⟩, hv⟩

section
variable (q : HttpRequest) (t key vers : Bytes)

theorem finishes_lf : Finishes (mk .crlfcr q t key vers) [LF] q.announced := by
  have hbyte := byte_crlfcr q t key vers
  refine ⟨(mk .crlfcr q t key vers).byte LF, ⟨rfl, ?_⟩, ?_⟩
  · rw [hbyte]
    split_ifs
    · exact .inr rfl
    · exact .inl rfl
  · rw [hbyte]
    split_ifs <;> rfl

theorem finishes_blank : Finishes (mk .crlf q t key vers) [CR, LF] q.announced := by
  refine finishes_append [CR] ?_ (finishes_lf q (t ++ [CR]) key vers)
  rw [List.singleton_append, scan_mk_cons (by decide), byte_crlf_cr]

theorem finishes_headers (hs : List Header) :
    Finishes (mk .crlf q t key vers) (hs.flatMap Header.print ++ [CR, LF])
      ((Lib.lastValue (ascii "Content-Length") (hs.map Header.pair)).or q.announced) := by
  induction hs generalizing q t key with
  | nil => exact finishes_blank q t key vers
  | cons h hs ih =>
      have hrest := ih (q.setHeader h.key h.value) [LF] h.key
      rw [HttpRequest.or_announced_setHeader] at hrest
      rw [List.flatMap_cons, List.append_assoc]
      exact finishes_append h.print (scan_header h.loose _) hrest

end

/-! ### From inside a header -/

theorem next_headerKey {ch : UInt8} (h : isblank ch = false ∧ ch ≠ chr ':') :
    next .headerKey ch = .headerKey := by
  simp [next, byte, h, push]

theorem byte_of_behindKey {s : Scan} (hs : BehindKey s.state) {ch : UInt8} (hch : ch ≠ CR) :
    (BehindKey (s.byte ch).state ∨ (s.byte ch).state = .invaild) ∧
      (s.byte ch).request = s.request ∧ (s.byte ch).key = s.key := by
  obtain ⟨st, q, t, key, vers⟩ := s
  unfold BehindKey byte
  rcases hs with hs | hs | hs
  all_goals
    obtain rfl := hs
    dsimp only
    split_ifs <;> simp_all [push, mark, goto]

theorem scan_behindKey {s s' : Scan} {text : Bytes} (hs : BehindKey s.state)
    (hcr : ∀ ch ∈ text, ch ≠ CR) (h : s.scan text = (s', [])) :
    s'.request = s.request ∧ s'.key = s.key := by
  induction text generalizing s with
  | nil =>
      obtain ⟨rfl, -⟩ := Prod.mk.inj h
      exact ⟨rfl, rfl⟩
  | cons ch text ih =>
      have hnot : ¬ s.state.Done := by
        rcases hs with hs | hs | hs <;> rw [hs] <;> decide
      obtain ⟨hnext, hrequest, hkey⟩ := byte_of_behindKey hs (hcr ch List.mem_cons_self)
      rw [scan_cons hnot] at h
      rcases hnext with hnext | hnext
      · obtain ⟨hrequest', hkey'⟩ := ih hnext (fun c hc => hcr c (List.mem_cons_of_mem ch hc)) h
        exact ⟨hrequest'.trans hrequest, hkey'.trans hkey⟩
      · rw [scan_done (.inr (.inr hnext))] at h
        obtain ⟨rfl, -⟩ := Prod.mk.inj h
        exact ⟨hrequest, hkey⟩

theorem evalFrom_behindKey {st : State} (hs : BehindKey st ∨ st = .invaild) {text : Bytes}
    (hcr : ∀ ch ∈ text, ch ≠ CR) :
    BehindKey (machine.evalFrom st text) ∨ machine.evalFrom st text = .invaild := by
  refine @Lib.evalFrom_mem _ _ machine st {st | BehindKey st ∨ st = .invaild} text ?_ hs
  intro st' hst' ch hch
  rcases hst' with hst' | rfl
  · exact (@byte_of_behindKey (mk st' {} [] [] []) hst' ch (hcr ch hch)).1
  · exact .inr rfl

/-- The text of a line in front of its end leaves a state in which a line may end. -/
theorem accept_of_lineEnd {st : State} {text : Bytes}
    (h : machine.evalFrom st (text ++ [CR, LF]) = .crlf) :
    machine.evalFrom st text ∈ machine.accept := by
  rw [DFA.evalFrom_of_append] at h
  rw [← BlankLine.blank_line_iff]
  have hblank : [CR, LF, CR] = [CR, LF] ++ [CR] := rfl
  rw [hblank, DFA.evalFrom_of_append, h]
  rfl

theorem eval_header (h : Header) : machine.evalFrom .crlf h.print = .crlf := by
  have hscan := @scan_header {} [] [] [] h.loose []
  rw [List.append_nil] at hscan
  exact BlankLine.evalFrom_of_scan hscan (show ¬ State.crlf.Done by decide)

theorem eval_headers (hs : List Header) :
    machine.evalFrom .crlf (hs.flatMap Header.print) = .crlf := by
  induction hs with
  | nil => rfl
  | cons h hs ih =>
      rw [List.flatMap_cons, DFA.evalFrom_of_append, eval_header]
      exact ih

theorem eval_key (h : Header) {n : Nat} (hpos : 0 < n) :
    machine.evalFrom .crlf (h.key.take n) = .headerKey := by
  obtain ⟨c, k, hkey⟩ := List.exists_cons_of_ne_nil h.key_ne
  have hok (ch : UInt8) (hch : ch ∈ c :: k) : isblank ch = false ∧ ch ≠ CR ∧ ch ≠ chr ':' := by
    rw [← hkey] at hch
    have hplain := h.key_ok ch hch
    exact ⟨hplain.1.1, hplain.1.2.1, hplain.2⟩
  obtain ⟨m, rfl⟩ := Nat.exists_eq_add_of_lt hpos
  have hfirst : next .crlf c = .headerKey := by
    have hc := hok c List.mem_cons_self
    simp [next, byte, hc.1, hc.2.1, mark, goto]
  rw [hkey, Nat.zero_add, List.take_succ_cons, DFA.evalFrom_cons]
  show machine.evalFrom (next .crlf c) (k.take m) ∈ ({.headerKey} : Set State)
  rw [hfirst]
  refine Lib.evalFrom_mem ?_ rfl
  intro st hst ch hch
  obtain rfl := Set.mem_singleton_iff.1 hst
  have hch' := hok ch (List.mem_cons_of_mem c (List.mem_of_mem_take hch))
  exact next_headerKey ⟨hch'.1, hch'.2.2⟩

theorem eval_whole_key (h : Header) : machine.evalFrom .crlf h.key = .headerKey := by
  have heval := eval_key h (List.length_pos_iff.2 h.key_ne)
  rwa [List.take_length] at heval

theorem exists_afterKey_cons (h : Header) :
    ∃ c more, h.afterKey = c :: more ∧ BehindKey (next .headerKey c) := by
  unfold Header.afterKey
  cases hbefore : h.before with
  | nil =>
      exact ⟨chr ':', h.after ++ h.value, rfl, .inr (.inl (by decide))⟩
  | cons b before =>
      refine ⟨b, before ++ chr ':' :: (h.after ++ h.value), rfl, .inl ?_⟩
      have hb : isblank b = true := h.before_ok b (by rw [hbefore]; exact List.mem_cons_self)
      simp [next, byte, hb, ne_of_isblank hb isblank_marks.2.2.2, mark, goto]

/-- Behind its key a header is in the states that are left at its end only. -/
theorem eval_afterKey (h : Header) {y x : Bytes} (hy : y ≠ []) (heq : y ++ x = h.afterKey) :
    BehindKey (machine.evalFrom .headerKey y) ∧
      machine.evalFrom (machine.evalFrom .headerKey y) x = .headerValue := by
  have hcr := h.afterKey_ok
  obtain ⟨c, more, hfirst, hbehind⟩ := exists_afterKey_cons h
  obtain ⟨c', y', rfl⟩ := List.exists_cons_of_ne_nil hy
  rw [hfirst, List.cons_append] at heq
  obtain ⟨rfl, rfl⟩ := List.cons.inj heq
  rw [hfirst] at hcr
  have hstay : BehindKey (machine.evalFrom .headerKey (c' :: y')) ∨
      machine.evalFrom .headerKey (c' :: y') = .invaild := by
    rw [DFA.evalFrom_cons]
    exact evalFrom_behindKey (.inl hbehind) fun ch hch =>
      hcr ch (List.mem_cons_of_mem c' (List.mem_append_left x hch))
  have hx : ∀ ch ∈ x, ch ≠ CR := fun ch hch =>
    hcr ch (List.mem_cons_of_mem c' (List.mem_append_right y' hch))
  have hend : machine.evalFrom (machine.evalFrom .headerKey (c' :: y')) x ∈ machine.accept := by
    rw [← DFA.evalFrom_of_append, List.cons_append, ← hfirst]
    apply accept_of_lineEnd
    rw [← eval_whole_key h, ← DFA.evalFrom_of_append, ← h.print_eq]
    exact eval_header h
  rcases hstay with hstay | hstay
  · refine ⟨hstay, ?_⟩
    rcases evalFrom_behindKey (.inl hstay) hx with hlast | hlast
    · rcases hend with hend | hend
      · rw [hend] at hlast
        rcases hlast with hlast | hlast | hlast <;> cases hlast
      · exact hend
    · rw [hlast] at hend
      rcases hend with hend | hend <;> cases hend
  · rw [hstay, BlankLine.evalFrom_done (.inr (.inr rfl))] at hend
    rcases hend with hend | hend <;> cases hend

section
variable (q : HttpRequest) (hs : List Header)

/-- Behind the CR of a line, its LF and the other lines follow. -/
theorem finishes_lineEnd {s : Scan} {x t key vers : Bytes}
    (hscan : ∀ rest, s.scan (x ++ rest) = (mk .cr q t key vers).scan rest) :
    Finishes s (x ++ LF :: (hs.flatMap Header.print ++ [CR, LF]))
      ((Lib.lastValue (ascii "Content-Length") (hs.map Header.pair)).or q.announced) := by
  have htext (rest : Bytes) : x ++ LF :: rest = (x ++ [LF]) ++ rest := by simp
  rw [htext]
  refine finishes_append (x ++ [LF]) ?_ (finishes_headers q [LF] key vers hs)
  rw [← htext, hscan, scan_mk_cons (by decide), byte_cr]

theorem finishes_cr :
    Finishes (mk .cr q [] [] []) (LF :: (hs.flatMap Header.print ++ [CR, LF]))
      ((Lib.lastValue (ascii "Content-Length") (hs.map Header.pair)).or q.announced) :=
  @finishes_lineEnd q hs _ [] [] [] [] fun _ => rfl

/-- A call that begins behind a key stores the value under the empty name. -/
theorem finishes_behindKey {st : State} (hst : BehindKey st) {x : Bytes} (hx : ∀ ch ∈ x, ch ≠ CR)
    (heval : machine.evalFrom st x = .headerValue) :
    Finishes (mk st q [] [] []) (x ++ CR :: LF :: (hs.flatMap Header.print ++ [CR, LF]))
      ((Lib.lastValue (ascii "Content-Length") (hs.map Header.pair)).or q.announced) := by
  have hlive : ¬ (machine.evalFrom (mk st q [] [] []).state x).Done := by
    rw [heval]
    decide
  obtain ⟨⟨st', q', t, key, vers⟩, hscan, hs'⟩ := BlankLine.scan_of_evalFrom hlive
  obtain rfl : st' = .headerValue := hs'.trans heval
  obtain ⟨rfl, rfl⟩ : q' = q ∧ key = [] := scan_behindKey hst hx hscan
  have hline (rest : Bytes) : (mk st q' [] [] []).scan ((x ++ [CR]) ++ rest) =
      (mk .cr (q'.setHeader [] t) (t ++ [CR]) [] vers).scan rest := by
    rw [List.append_assoc, scan_append hscan, List.singleton_append, scan_mk_cons (by decide),
      byte_headerValue]
  have hrest := finishes_lineEnd (q'.setHeader [] t) hs hline
  rw [HttpRequest.announced_setHeader, if_neg (by decide), List.append_assoc] at hrest
  exact hrest

theorem finishes_key (h : Header) (n : Nat) :
    Finishes (mk .headerKey q [] [] [])
      (h.key.drop n ++ (h.afterKey ++ CR :: LF :: (hs.flatMap Header.print ++ [CR, LF])))
      ((Lib.lastValue (ascii "Content-Length") ((h.key.drop n, h.value) :: hs.map Header.pair)).or
        q.announced) := by
  have hkey : ∀ ch ∈ h.key.drop n, isblank ch = false ∧ ch ≠ chr ':' := by
    intro ch hch
    have hok := h.key_ok ch (List.mem_of_mem_drop hch)
    exact ⟨hok.1.1, hok.2⟩
  have hrest := finishes_headers (q.setHeader (h.key.drop n) h.value) [LF] (h.key.drop n) [] hs
  rw [HttpRequest.or_announced_setHeader] at hrest
  have htext (rest : Bytes) : h.key.drop n ++ (h.afterKey ++ CR :: LF :: rest) =
      (h.key.drop n ++ (h.afterKey ++ [CR, LF])) ++ rest := by simp
  rw [htext]
  refine finishes_append _ ?_ hrest
  have hbehind (rest : Bytes) : h.key.drop n ++ (h.afterKey ++ CR :: LF :: rest) =
      h.key.drop n ++ (h.before ++ chr ':' :: (h.after ++ (h.value ++ CR :: LF :: rest))) := by
    simp [Header.afterKey]
  have hhead : ∃ ch ∈ h.value.head?, isblank ch = false := h.loose.value_head
  have hvalue : ∀ ch ∈ h.value.tail, ch ≠ CR := h.loose.value_ok
  rw [← htext, hbehind, scan_key_rest hkey h.before_ok, scan_header_value h.after_ok hhead hvalue,
    HttpRequest.setHeader_setHeader]
  rfl

/-- A call that begins behind a key, before its line is over. -/
theorem finishes_afterKey (h : Header) {m : Nat} (hm : m ≤ h.afterKey.length) :
    Finishes (mk (machine.evalFrom .headerKey
        ((h.afterKey ++ ([CR, LF] ++ hs.flatMap Header.print)).take (m + 1))) q [] [] [])
      ((h.afterKey ++ ([CR, LF] ++ hs.flatMap Header.print)).drop (m + 1) ++ [CR, LF])
      ((Lib.lastValue (ascii "Content-Length") (hs.map Header.pair)).or q.announced) := by
  by_cases hlt : m + 1 ≤ h.afterKey.length
  · have hne : h.afterKey.take (m + 1) ≠ [] := by
      intro hnil
      rcases List.take_eq_nil_iff.1 hnil with hm | hnil
      · cases hm
      · exact h.afterKey_ne hnil
    obtain ⟨hst, hlast⟩ := eval_afterKey h hne (List.take_append_drop (m + 1) h.afterKey)
    have hok : ∀ ch ∈ h.afterKey.drop (m + 1), ch ≠ CR :=
      fun ch hch => h.afterKey_ok ch (List.mem_of_mem_drop hch)
    rw [List.take_append_of_le_length hlt, List.drop_append_of_le_length hlt, List.append_assoc]
    exact finishes_behindKey q hs hst hok hlast
  · -- only the LF of the line is left
    obtain rfl : m = h.afterKey.length := by omega
    have hlast : machine.evalFrom .headerKey h.afterKey = .headerValue :=
      (eval_afterKey h h.afterKey_ne (List.append_nil _)).2
    rw [List.take_length_add_append, List.drop_length_add_append, DFA.evalFrom_of_append, hlast]
    exact finishes_cr q hs

end

/-- What a call that begins `n` bytes into the header lines takes for names and values. -/
def pairsFrom : Nat → List Header → List (Bytes × Bytes)
  | _, [] => []
  | n, h :: hs =>
      if n ≤ h.key.length then (h.key.drop n, h.value) :: hs.map Header.pair
      else if n < h.print.length then hs.map Header.pair
      else pairsFrom (n - h.print.length) hs

/-- A call that begins anywhere in the header lines, or at the blank line. -/
theorem finishes_from (q : HttpRequest) {hs : List Header} {n : Nat}
    (hn : n ≤ (hs.flatMap Header.print).length) :
    Finishes (mk (machine.evalFrom .crlf ((hs.flatMap Header.print).take n)) q [] [] [])
      ((hs.flatMap Header.print).drop n ++ [CR, LF])
      ((Lib.lastValue (ascii "Content-Length") (pairsFrom n hs)).or q.announced) := by
  induction hs generalizing n with
  | nil =>
      obtain rfl : n = 0 := Nat.le_zero.1 hn
      exact finishes_blank q [] [] []
  | cons h hs ih =>
      rw [List.flatMap_cons] at hn ⊢
      have hlength : h.print.length = h.key.length + (h.afterKey.length + 2) := by
        rw [h.print_eq]
        simp
      rw [pairsFrom]
      split_ifs with hkey hline
      · -- inside the key, or in front of it
        have htake : (h.print ++ hs.flatMap Header.print).take n = h.key.take n := by
          rw [h.print_eq, List.append_assoc, List.take_append_of_le_length hkey]
        have hdrop : (h.print ++ hs.flatMap Header.print).drop n ++ [CR, LF] = h.key.drop n ++
            (h.afterKey ++ CR :: LF :: (hs.flatMap Header.print ++ [CR, LF])) := by
          rw [h.print_eq, List.append_assoc, List.drop_append_of_le_length hkey]
          simp
        rw [htake]
        rcases Nat.eq_zero_or_pos n with rfl | hpos
        · exact finishes_headers q [] [] [] (h :: hs)
        · rw [eval_key h hpos, hdrop]
          exact finishes_key q hs h n
      · obtain ⟨m, rfl⟩ : ∃ m, n = h.key.length + (m + 1) :=
          ⟨n - h.key.length - 1, by omega⟩
        rw [h.print_eq, List.append_assoc, List.append_assoc, List.take_length_add_append,
          List.drop_length_add_append, DFA.evalFrom_of_append, eval_whole_key]
        exact finishes_afterKey q hs h (by omega)
      · obtain ⟨m, rfl⟩ := Nat.exists_eq_add_of_le (not_lt.1 hline)
        rw [List.take_length_add_append, List.drop_length_add_append, DFA.evalFrom_of_append,
          eval_header, Nat.add_sub_cancel_left]
        apply ih
        rw [List.length_append] at hn
        omega

/-! ### From inside the request line -/

def BehindLine (st : State) : Prop :=
  st = .cr ∨ st = .crlf ∨ st = .crlfcr ∨ st = .headerKey ∨ BehindKey st ∨ st.Done

theorem next_behindLine {st : State} (hst : BehindLine st) (ch : UInt8) :
    BehindLine (next st ch) := by
  revert hst
  unfold BehindLine BehindKey State.Done next byte
  cases st <;> dsimp only <;> (try split_ifs) <;> simp [push, mark, goto]

theorem evalFrom_behindLine {st : State} (hst : BehindLine st) (text : Bytes) :
    BehindLine (machine.evalFrom st text) :=
  Lib.evalFrom_mem (S := {st | BehindLine st}) (fun _ hst ch _ => next_behindLine hst ch) hst

theorem scan_requestLine_headers {s s' : Scan} {text : Bytes} (h : s.scan text = (s', []))
    (hline : ¬ BehindLine s'.state) : s'.request.headers = s.request.headers := by
  have hnot : ¬ s'.state.Done := fun hd => hline (.inr (.inr (.inr (.inr (.inr hd)))))
  induction text generalizing s with
  | nil =>
      obtain ⟨rfl, -⟩ := Prod.mk.inj h
      rfl
  | cons ch text ih =>
      have hstart : ¬ BehindLine s.state := by
        intro hst
        apply hline
        rw [← BlankLine.evalFrom_of_scan h hnot]
        exact evalFrom_behindLine hst (ch :: text)
      have hs : ¬ s.state.Done := fun hd => hstart (.inr (.inr (.inr (.inr (.inr hd)))))
      have hbyte := byte_headers_of_state s ch
        ⟨fun hk => hstart (.inr (.inr (.inr (.inl hk)))),
          fun hv => hstart (.inr (.inr (.inr (.inr (.inl (.inr (.inr hv)))))))⟩
      rw [scan_cons hs] at h
      exact (ih h).trans hbyte

theorem finishes_requestLine (q : HttpRequest) (hs : List Header) {st : State} {x : Bytes}
    (heval : machine.evalFrom st x = .inVersion) :
    Finishes (mk st q [] [] []) (x ++ CR :: LF :: (hs.flatMap Header.print ++ [CR, LF]))
      ((Lib.lastValue (ascii "Content-Length") (hs.map Header.pair)).or q.announced) := by
  have hlive : ¬ (machine.evalFrom (mk st q [] [] []).state x).Done := by
    rw [heval]
    decide
  obtain ⟨⟨st', q', t, key, vers⟩, hscan, hs'⟩ := BlankLine.scan_of_evalFrom hlive
  obtain rfl : st' = .inVersion := hs'.trans heval
  have hline : ¬ BehindLine .inVersion := by
    unfold BehindLine BehindKey
    decide
  have hheaders : q'.headers = q.headers := scan_requestLine_headers hscan hline
  have hannounced : (q'.setVersion (vers ++ t)).announced = q.announced := by
    rw [HttpRequest.setVersion_eq]
    exact congrArg (Finmap.lookup (ascii "Content-Length")) hheaders
  have hend (rest : Bytes) : (mk st q [] [] []).scan ((x ++ [CR]) ++ rest) =
      (mk .cr (q'.setVersion (vers ++ t)) (t ++ [CR]) key (vers ++ t)).scan rest := by
    rw [List.append_assoc, scan_append hscan, List.singleton_append, scan_mk_cons (by decide),
      byte_inVersion_cr]
  have hrest := finishes_lineEnd (q'.setVersion (vers ++ t)) hs hend
  rw [hannounced, List.append_assoc] at hrest
  exact hrest

@[simp] theorem pairsFrom_zero (hs : List Header) : pairsFrom 0 hs = hs.map Header.pair := by
  cases hs with
  | nil => rfl
  | cons h hs =>
      rw [pairsFrom, if_pos (Nat.zero_le _)]
      rfl

theorem pairsFrom_of_length_lt {hs : List Header} {n : Nat}
    (h : (hs.flatMap Header.print).length < n) : pairsFrom n hs = [] := by
  induction hs generalizing n with
  | nil => rfl
  | cons hd hs ih =>
      rw [List.flatMap_cons, List.length_append] at h
      have hlength : hd.key.length ≤ hd.print.length := by
        rw [hd.print_eq, List.length_append]
        omega
      rw [pairsFrom, if_neg (by omega), if_neg (by omega)]
      exact ih (by omega)

theorem finishes_lines (q : HttpRequest) {hs : List Header} {n : Nat}
    (hn : n < (hs.flatMap Header.print).length + 2) :
    Finishes (mk (machine.evalFrom .crlf ((hs.flatMap Header.print ++ [CR, LF]).take n)) q [] [] [])
      ((hs.flatMap Header.print ++ [CR, LF]).drop n)
      ((Lib.lastValue (ascii "Content-Length") (pairsFrom n hs)).or q.announced) := by
  by_cases hle : n ≤ (hs.flatMap Header.print).length
  · rw [List.take_append_of_le_length hle, List.drop_append_of_le_length hle]
    exact finishes_from q hle
  · -- only the LF of the blank line is left
    obtain rfl : n = (hs.flatMap Header.print).length + 1 := by omega
    rw [pairsFrom_of_length_lt (Nat.lt_succ_self _), List.take_length_add_append,
      List.drop_length_add_append, DFA.evalFrom_of_append, eval_headers]
    exact finishes_lf q [] [] []

end Scan

namespace Head

open BlankLine (machine)

def requestLine (h : Head) (minor : Minor) : Bytes :=
  h.method ++ (h.gap₁ ++ (h.path ++ (printQuery h.query ++ (h.gap₂ ++ (h.protocol ++
    (ascii "/1." ++ [minor.digit]))))))

def headerLines (h : Head) : Bytes := h.headers.flatMap Header.print

theorem printMinor_eq (h : Head) (minor : Minor) :
    h.printMinor minor = h.requestLine minor ++ CR :: LF :: (h.headerLines ++ [CR, LF]) := by
  simp [printMinor, requestLine, headerLines]

theorem eval_requestLine (h : Head) (minor : Minor) :
    machine.eval (h.requestLine minor) = .inVersion := by
  obtain ⟨b₁, gap, hgap⟩ := List.exists_cons_of_ne_nil h.gap₁_ne
  obtain ⟨b₂, skip, hskip⟩ := List.exists_cons_of_ne_nil h.gap₂_ne
  have hversion : ascii "/1." = [chr '/', chr '1', chr '.'] := by decide
  have htext : h.requestLine minor = [] ++ (h.method ++ b₁ :: (gap ++ (h.path ++
      (printQueryPairs ((h.query.map Param.loose).map LooseParam.pair) ++ b₂ :: (skip ++
        (h.protocol ++ chr '/' :: [chr '1', chr '.', minor.digit])))))) := by
    have hpairs : (h.query.map Param.loose).map LooseParam.pair = h.query.map Param.pair :=
      h.paramPairs_loose
    unfold requestLine
    rw [hversion, hpairs, Head.printQuery_eq, hgap, hskip]
    simp
  have hmethod : ∀ ch ∈ h.method.tail, isblank ch = false := h.loose.method_ok
  have hb₁ : isblank b₁ = true := h.gap₁_ok b₁ (by rw [hgap]; exact List.mem_cons_self)
  have hgaps : ∀ ch ∈ h.gap₁.tail, ch ≠ chr '/' := h.loose.gap_ok
  have hpath : ∀ ch ∈ h.path.tail, isblank ch = false ∧ ch ≠ chr '?' := h.loose.path_ok
  have hb₂ : isblank b₂ = true := h.gap₂_ok b₂ (by rw [hskip]; exact List.mem_cons_self)
  have hskips : ∀ ch ∈ h.gap₂.tail, isalpha ch = false := h.loose.skip_ok
  have hprotocol : ∀ ch ∈ h.protocol.tail, ch ≠ chr '/' := h.loose.protocol_ok
  rw [hgap, List.tail_cons] at hgaps
  rw [hskip, List.tail_cons] at hskips
  obtain ⟨key, hquery⟩ := @Scan.scan_query (({} : HttpRequest).setMethod ([] ++ h.method)) [] []
    h.path (h.query.map Param.loose) b₂ hb₂
    (skip ++ (h.protocol ++ chr '/' :: [chr '1', chr '.', minor.digit]))
  have hscan : ((Scan.mk .start {} [] [] []).scan (h.requestLine minor)).2 = [] ∧
      ((Scan.mk .start {} [] [] []).scan (h.requestLine minor)).1.state = .inVersion := by
    rw [htext, Scan.scan_method (List.forall_mem_nil _) h.method_head hmethod hb₁,
      Scan.scan_uri hgaps h.path_head hpath, hquery,
      Scan.scan_protocol hskips h.protocol_head hprotocol, Scan.scan_mk_cons (by decide),
      Scan.byte_beforeVersion _ _ _ _ (by decide), Scan.scan_mk_cons (by decide),
      Scan.byte_inVersion_point, Scan.scan_mk_cons (by decide),
      Scan.byte_versionSplit _ _ _ _ minor.isdigit_digit]
    exact ⟨rfl, rfl⟩
  have hnot : ¬ ((Scan.mk .start {} [] [] []).scan (h.requestLine minor)).1.state.Done := by
    rw [hscan.2]
    decide
  exact (BlankLine.evalFrom_of_scan (Prod.ext rfl hscan.1) hnot).trans hscan.2

/-- The Content-Length by the end of the head for a call that begins `n` bytes into the header
lines. -/
def announcedFrom (h : Head) (n : Nat) : Option Bytes :=
  Lib.lastValue (ascii "Content-Length") (Scan.pairsFrom n h.headers)

/-- Wherever in the head a call begins, it finishes the head. -/
theorem finishes (h : Head) (minor : Minor) (q : HttpRequest) {n : Nat}
    (hn : n < (h.printMinor minor).length) :
    Scan.Finishes (Scan.mk (machine.eval ((h.printMinor minor).take n)) q [] [] [])
      ((h.printMinor minor).drop n)
      ((h.announcedFrom (n - ((h.requestLine minor).length + 2))).or q.announced) := by
  have hline := h.eval_requestLine minor
  rw [printMinor_eq] at hn ⊢
  unfold announcedFrom
  generalize h.requestLine minor = line at hn hline ⊢
  by_cases hle : n ≤ line.length
  · rw [List.take_append_of_le_length hle, List.drop_append_of_le_length hle,
      Nat.sub_eq_zero_of_le (by omega), Scan.pairsFrom_zero]
    apply Scan.finishes_requestLine
    unfold DFA.eval
    rw [← DFA.evalFrom_of_append, List.take_append_drop]
    exact hline
  · obtain ⟨m, rfl⟩ := Nat.exists_eq_add_of_lt (not_le.1 hle)
    rw [Nat.add_assoc, List.take_length_add_append, List.drop_length_add_append, DFA.eval,
      DFA.evalFrom_of_append]
    rw [show machine.evalFrom machine.start line = .inVersion from hline]
    cases m with
    | zero =>
        rw [Nat.sub_eq_zero_of_le (by omega), Scan.pairsFrom_zero]
        exact Scan.finishes_cr q h.headers
    | succ m =>
        have hm : m < h.headerLines.length + 2 := by
          simp only [List.length_append, List.length_cons, List.length_nil] at hn
          omega
        rw [show line.length + (m + 1 + 1) - (line.length + 2) = m by omega, List.take_succ_cons,
          List.take_succ_cons, List.drop_succ_cons, List.drop_succ_cons]
        exact Scan.finishes_lines q hm

theorem eval_not_done (h : Head) (minor : Minor) {n : Nat} (hn : n < (h.printMinor minor).length) :
    ¬ (machine.eval ((h.printMinor minor).take n)).Done :=
  (h.finishes minor {} hn).not_done fun hnil => absurd (List.drop_eq_nil_iff.1 hnil) (not_le.2 hn)

/-! ## The calls on the pieces of a head -/

/-- The first `n` bytes of the head are read, and nothing that was stored announces a body. -/
structure Waits (h : Head) (minor : Minor) (n : Nat) (ctx : HttpContext) : Prop where
  inside : n < (h.printMinor minor).length
  state : ctx.state = machine.eval ((h.printMinor minor).take n)
  unannounced : ctx.request.announced = none
  empty : ctx.request.body = []

theorem waits_zero (h : Head) (minor : Minor) : h.Waits minor 0 {} where
  inside := by
    rw [printMinor_eq, List.length_append, List.length_cons]
    omega
  state := rfl
  unannounced := rfl
  empty := rfl

section
variable {h : Head} {minor : Minor} {n : Nat} {ctx ctx' : HttpContext}

theorem Waits.not_done (hw : h.Waits minor n ctx) : ¬ ctx.state.Done := by
  rw [hw.state]
  exact h.eval_not_done minor hw.inside

theorem Waits.scan (hw : h.Waits minor n ctx) {piece : Bytes}
    (hpiece : (h.printMinor minor).take (n + piece.length) = (h.printMinor minor).take n ++ piece)
    (hinside : n + piece.length < (h.printMinor minor).length) :
    ∃ s, (Scan.init ctx).scan piece = (s, []) ∧
      s.state = machine.eval ((h.printMinor minor).take (n + piece.length)) ∧
      s.Young piece.length ∧ ctx.outcome piece = HttpContext.truncatedOutcome s piece.length := by
  have heval : machine.evalFrom (Scan.init ctx).state piece =
      machine.eval ((h.printMinor minor).take (n + piece.length)) := by
    rw [hpiece, DFA.eval, DFA.evalFrom_of_append]
    exact congrArg (fun st => machine.evalFrom st piece) hw.state
  have hlive := h.eval_not_done minor hinside
  have hyoung := Scan.young_init ctx hw.unannounced
  rw [← heval] at hlive
  obtain ⟨s, hscan, hs, hlast⟩ := hyoung.scan hlive
  rw [Nat.zero_add] at hlast
  refine ⟨s, hscan, hs.trans heval, hlast, ?_⟩
  rw [HttpContext.outcome_of_not_done hw.not_done, hscan]
  exact HttpContext.headOutcome_of_not_done (hs ▸ hlive) [] piece.length

/-- A call that returns from inside the head was refused a byte, or waits for the next piece. -/
theorem Waits.outcome_inside (hw : h.Waits minor n ctx) {piece : Bytes} (hne : piece ≠ [])
    (hpiece : (h.printMinor minor).take (n + piece.length) = (h.printMinor minor).take n ++ piece)
    (hinside : n + piece.length < (h.printMinor minor).length)
    (hret : ctx.outcome piece = .returned ctx') :
    ctx'.request.body = [] ∧ (ctx'.state = .invaild ∨ h.Waits minor (n + piece.length) ctx') := by
  obtain ⟨s, hscan, hs, hyoung, hout⟩ := hw.scan hpiece hinside
  have hnot : ¬ s.state.Done := by
    rw [hs]
    exact h.eval_not_done minor hinside
  have hbody : s.request.body = [] := by
    have hsame := Scan.scan_request_body (Scan.init ctx) piece
    rw [hscan] at hsame
    exact hsame.trans hw.empty
  rw [hout] at hret
  obtain ⟨hkept, hstate⟩ := hyoung.truncated (List.length_pos_iff.2 hne) hnot hret
  refine ⟨hkept.trans hbody, hstate.imp_right fun hlast => ?_⟩
  exact ⟨hinside, hlast.1.trans hs, hlast.2, hkept.trans hbody⟩

end

end Head

/-- The body that a call leaves with a head of Content-Length `v` and `rest` behind it; none where
it does not return. -/
def settled (v : Option Bytes) (rest : Bytes) : Option Bytes :=
  match v with
  | none => some rest
  | some value =>
      if atoi value ≤ 0 then some [] else if atoi value ≤ rest.length then some rest else none

theorem Scan.Finishes.headOutcome {s : Scan} {text : Bytes} {v : Option Bytes}
    (h : s.Finishes text v) (hd : ¬ s.state.Done) (hbody : s.request.body = []) (rest : Bytes)
    (size : Nat) :
    ∃ s', s.scan (text ++ rest) = (s', rest) ∧ HttpContext.headOutcome s' rest size =
      match settled v rest with
      | some body => .returned ⟨.complete, s'.request.setBody body⟩
      | none => .hangs := by
  obtain ⟨s', ⟨hscan, hs⟩, hv⟩ := h
  have hdone := State.done_of_recognised hs
  refine ⟨s', by rw [Scan.scan_append hscan, Scan.scan_done hdone], ?_⟩
  have hempty : s'.request.body = [] := by
    have hsame := Scan.scan_request_body s text
    rw [hscan] at hsame
    exact hsame.trans hbody
  have hcomplete : s'.state = .complete ↔
      s'.request.announced.isSome = true ∧ atoi (s'.request.announced.getD []) ≤ 0 :=
    Scan.scan_recognised hd hscan hs
  have hlength : s'.request.contentLength = atoi (s'.request.announced.getD []) := rfl
  rw [hv] at hcomplete hlength
  unfold HttpContext.headOutcome settled
  cases v with
  | none =>
      have hs' : s'.state = .body := by
        refine hs.resolve_right fun hc => ?_
        cases (hcomplete.1 hc).1
      have hzero : s'.request.contentLength = 0 := hlength
      rw [hs', hzero]
      exact if_pos (Int.natCast_nonneg _)
  | some value =>
      have hvalue : s'.request.contentLength = atoi value := hlength
      dsimp only
      by_cases hnone : atoi value ≤ 0
      · have hs' : s'.state = .complete := hcomplete.2 ⟨rfl, hnone⟩
        rw [hs', if_pos hnone]
        dsimp only
        unfold HttpRequest.setBody
        rw [← hempty]
      · have hs' : s'.state = .body := by
          refine hs.resolve_right fun hc => hnone ?_
          exact (hcomplete.1 hc).2
        rw [hs', hvalue, if_neg hnone]
        dsimp only
        split_ifs
        · rfl
        · rfl

namespace Head.Waits

variable {h : Head} {minor : Minor} {n : Nat} {ctx ctx' : HttpContext}

theorem outcome_end (hw : h.Waits minor n ctx) (rest : Bytes) :
    ∃ q, ctx.outcome ((h.printMinor minor).drop n ++ rest) =
      match settled (h.announcedFrom (n - ((h.requestLine minor).length + 2))) rest with
      | some body => .returned ⟨.complete, HttpRequest.setBody q body⟩
      | none => .hangs := by
  have hfin := h.finishes minor ctx.request hw.inside
  rw [← hw.state, hw.unannounced, Option.or_none] at hfin
  obtain ⟨s', hscan, hout⟩ := hfin.headOutcome hw.not_done hw.empty rest
    ((h.printMinor minor).drop n ++ rest).length
  refine ⟨s'.request, ?_⟩
  rw [HttpContext.outcome_of_not_done hw.not_done]
  show HttpContext.headOutcome ((Scan.mk ctx.state ctx.request [] [] []).scan _).1
    ((Scan.mk ctx.state ctx.request [] [] []).scan _).2 _ = _
  rw [hscan]
  exact hout

end Head.Waits

end CPlusServer

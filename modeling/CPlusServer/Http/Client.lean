import CPlusServer.Http.Response

/-!
# Reading responses

A client on a keep-alive connection: the head ends at the first blank line, and
as many bytes of body follow as its Content-Length says. Responses written one
behind the other are read back one by one.
-/

namespace CPlusServer

structure Received where
  code : Nat
  message : Bytes
  header : StringMap
  body : Bytes
  deriving DecidableEq

namespace Client

/-- `key: value`; a blank behind the colon is not part of the value. -/
def readLine (line : Bytes) : Option (Bytes × Bytes) :=
  (Lib.cut [chr ':'] line).map fun p => (p.1, if p.2.head? = some (chr ' ') then p.2.tail else p.2)

/-- The code and the message of `HTTP/1.1 code message`. -/
def readStatus (line : Bytes) : Option (Nat × Bytes) :=
  (Lib.cut [chr ' '] (line.drop (ascii "HTTP/1.1 ").length)).map fun p => (decimal p.1, p.2)

def contentLength (pairs : List (Bytes × Bytes)) : Nat :=
  ((Lib.lastValue (ascii "Content-Length") pairs).map decimal).getD 0

def others (pairs : List (Bytes × Bytes)) : List (Bytes × Bytes) :=
  pairs.filter fun kv => kv.1 ∉ ownKeys

def announced (head : Bytes) : Nat :=
  match Lib.cut [CR, LF, CR, LF] head with
  | none => 0
  | some (head, _) => contentLength ((Lib.split [CR, LF] head).tail.filterMap readLine)

def readResponse (text : Bytes) : Option (Received × Bytes) :=
  match Lib.cut [CR, LF, CR, LF] text with
  | none => none
  | some (head, rest) =>
      match Lib.split [CR, LF] head with
      | [] => none
      | status :: lines =>
          (readStatus status).bind fun s =>
            let pairs := lines.filterMap readLine
            let n := contentLength pairs
            if n ≤ rest.length then
              some (⟨s.1, s.2, Lib.insertAll ∅ (others pairs), rest.take n⟩, rest.drop n)
            else none

/-- The responses of the text, and what is left when none is whole. -/
def readAll (text : Bytes) : List Received × Bytes :=
  match readResponse text with
  | none => ([], text)
  | some (r, rest) =>
      if rest.length < text.length then (r :: (readAll rest).1, (readAll rest).2) else ([], text)
termination_by text.length

/-! ## One line -/

theorem readLine_headerLine {kv : Bytes × Bytes} (h : chr ':' ∉ kv.1) :
    readLine (InMemory.headerLine kv) = some kv := by
  unfold readLine InMemory.headerLine
  have hcut := @Lib.cut_line _ _ (chr ':') [] kv.1 (chr ' ' :: kv.2) h
  rw [List.nil_append] at hcut
  rw [hcut]
  simp

theorem readStatus_statusLine (m : InMemory) :
    readStatus m.statusLine = some (m.response.statusCode.value, m.response.statusMessage) := by
  have hdigits : chr ' ' ∉ stdToString m.response.statusCode.value := by
    intro hmem
    have hdigit := isdigit_of_mem_stdToString hmem
    revert hdigit
    decide
  have hcut := @Lib.cut_line _ _ (chr ' ') [] _ m.response.statusMessage hdigits
  rw [List.nil_append] at hcut
  unfold readStatus InMemory.statusLine
  rw [List.drop_left, hcut]
  simp [decimal_stdToString]

/-! ## One response -/

theorem cr_not_mem_stdToString (n : Nat) : CR ∉ stdToString n := by
  intro hmem
  have hdigit := isdigit_of_mem_stdToString hmem
  revert hdigit
  decide

theorem lines_ok (m : InMemory) : ∀ line ∈ m.lines, line ≠ [] ∧ CR ∉ line := by
  have hheader : ∀ kv : Bytes × Bytes, CR ∉ kv.1 → CR ∉ kv.2 →
      InMemory.headerLine kv ≠ [] ∧ CR ∉ InMemory.headerLine kv := by
    intro kv hkey hvalue
    refine ⟨by simp [InMemory.headerLine], ?_⟩
    have hcolon : CR ≠ chr ':' := by decide
    have hspace : CR ≠ chr ' ' := by decide
    simp [InMemory.headerLine, hkey, hvalue, hcolon, hspace]
  intro line hline
  rcases List.mem_cons.1 hline with rfl | hline
  · have hversion : CR ∉ ascii "HTTP/1.1 " := by decide
    have hspace : CR ≠ chr ' ' := by decide
    have hmessage : CR ∉ m.response.statusMessage := fun hmem => (m.message_ok CR hmem).1 rfl
    refine ⟨by simp [InMemory.statusLine, ascii], ?_⟩
    simp [InMemory.statusLine, hversion, hspace, hmessage, cr_not_mem_stdToString]
  · rcases List.mem_append.1 hline with hline | hline
    · rcases List.mem_append.1 hline with hline | hline
      · rcases List.mem_cons.1 hline with rfl | hline
        · decide
        · rw [List.mem_singleton.1 hline]
          have hkey : CR ∉ ascii "Content-Length" := by decide
          exact hheader _ hkey (cr_not_mem_stdToString _)
      · obtain ⟨kv, hkv, rfl⟩ := List.mem_map.1 hline
        exact hheader kv (fun hmem => (m.key_ok kv hkv CR hmem).1 rfl)
          fun hmem => (m.value_ok kv hkv CR hmem).1 rfl
    · rw [List.mem_singleton.1 hline]
      exact hheader _ (by decide) (by decide)

theorem filterMap_readLine (m : InMemory) : m.lines.tail.filterMap readLine =
    (ascii "Connection", ascii "keep-alive") ::
      (ascii "Content-Length", stdToString m.response.body.length) ::
        (m.order ++ [(ascii "Cache-Control", ascii "no-store, no-cache, must-revalidate")]) := by
  have hconnection : readLine (ascii "Connection:keep-alive") =
      some (ascii "Connection", ascii "keep-alive") := by decide
  have hcolon : chr ':' ∉ ascii "Content-Length" := by decide
  have hlength := @readLine_headerLine
    (ascii "Content-Length", stdToString m.response.body.length) hcolon
  have hcache := @readLine_headerLine
    (ascii "Cache-Control", ascii "no-store, no-cache, must-revalidate") (by decide)
  have horder : (m.order.map InMemory.headerLine).filterMap readLine = m.order := by
    rw [List.filterMap_map]
    refine (List.filterMap_congr fun kv hkv => ?_).trans List.filterMap_some
    exact readLine_headerLine fun hmem => (m.key_ok kv hkv _ hmem).2.2 rfl
  show (m.ownLines ++ m.order.map InMemory.headerLine ++ [InMemory.cacheLine]).filterMap readLine = _
  rw [List.filterMap_append, List.filterMap_append, horder]
  unfold InMemory.ownLines InMemory.cacheLine
  simp [hconnection, hlength, hcache]

def meaning (m : InMemory) : Received :=
  ⟨m.response.statusCode.value, m.response.statusMessage, m.response.header, m.response.body⟩

theorem others_pairs (m : InMemory) : others (m.lines.tail.filterMap readLine) = m.order := by
  have horder : m.order.filter (fun kv => kv.1 ∉ ownKeys) = m.order :=
    List.filter_eq_self.2 fun kv hkv => decide_eq_true (m.key_other kv hkv)
  have hown : ascii "Connection" ∈ ownKeys ∧ ascii "Content-Length" ∈ ownKeys ∧
      ascii "Cache-Control" ∈ ownKeys := by decide
  unfold others
  rw [filterMap_readLine, List.filter_cons_of_neg (by simp [hown.1]),
    List.filter_cons_of_neg (by simp [hown.2.1]), List.filter_append, horder,
    List.filter_cons_of_neg (by simp [hown.2.2])]
  exact List.append_nil _

theorem contentLength_pairs (m : InMemory) :
    contentLength (m.lines.tail.filterMap readLine) = m.response.body.length := by
  have hkey : ascii "Connection" ≠ ascii "Content-Length" ∧
      ascii "Cache-Control" ≠ ascii "Content-Length" := by decide
  have hrest : Lib.lastValue (ascii "Content-Length")
      (m.order ++ [(ascii "Cache-Control", ascii "no-store, no-cache, must-revalidate")]) = none := by
    rw [Lib.lastValue_eq_none_iff]
    intro kv hkv heq
    rcases List.mem_append.1 hkv with hkv | hkv
    · have hother := m.key_other kv hkv
      rw [heq] at hother
      exact hother (by decide)
    · rw [List.mem_singleton.1 hkv] at heq
      exact hkey.2 heq
  unfold contentLength
  rw [filterMap_readLine]
  simp [Lib.lastValue, hrest, hkey.1, decimal_stdToString]

/-- The blank line is found behind the last header. -/
theorem cut_preBody (m : InMemory) (rest : Bytes) :
    Lib.cut [CR, LF, CR, LF] (m.response.getPreBody m.order ++ rest) =
      some (Lib.joinLines CR LF m.lines, rest) := by
  have htext : m.response.getPreBody m.order ++ rest =
      Lib.endLines CR LF m.lines ++ CR :: LF :: rest := by
    rw [m.getPreBody_eq]
    simp
  have hne : m.lines ≠ [] := List.cons_ne_nil _ _
  have hcrlf : CR ≠ LF := by decide
  rw [htext]
  exact Lib.cut_endLines hcrlf hne (lines_ok m) rest

theorem split_lines (m : InMemory) :
    Lib.split [CR, LF] (Lib.joinLines CR LF m.lines) = m.statusLine :: m.lines.tail :=
  Lib.split_joinLines (List.cons_ne_nil _ _) fun line hline => (lines_ok m line hline).2

/-- `GetPreBody` announces the size of `body_`. -/
theorem announced_preBody (m : InMemory) :
    announced (m.response.getPreBody m.order) = m.response.body.length := by
  have hcut := cut_preBody m []
  rw [List.append_nil] at hcut
  unfold announced
  rw [hcut]
  dsimp only
  rw [split_lines]
  exact contentLength_pairs m

/-- Behind a head a client takes as many bytes as the head announces. -/
theorem readResponse_preBody (m : InMemory) (rest : Bytes) :
    readResponse (m.response.getPreBody m.order ++ rest) =
      if m.response.body.length ≤ rest.length then
        some ({ meaning m with body := rest.take m.response.body.length },
          rest.drop m.response.body.length)
      else none := by
  unfold readResponse
  rw [cut_preBody]
  dsimp only
  rw [split_lines]
  dsimp only
  rw [readStatus_statusLine, Option.bind_some, contentLength_pairs, others_pairs,
    m.iterates.insertAll]
  rfl

/-- The first response is read back whole, and what is behind it is left. -/
theorem readResponse_print (m : InMemory) (rest : Bytes) :
    readResponse (m.print ++ rest) = some (meaning m, rest) := by
  have hlen : m.response.body.length ≤ (m.response.body ++ rest).length := by simp
  rw [m.print_eq, HttpResponse.getResponse, List.append_assoc, readResponse_preBody, if_pos hlen,
    List.take_left, List.drop_left]
  rfl

/-- **Responses.** The responses that are sent one behind the other on a connection are read back
in order, with nothing left over. -/
theorem readAll_print (ms : List InMemory) :
    readAll (ms.flatMap InMemory.print) = (ms.map meaning, []) := by
  induction ms with
  | nil =>
      unfold readAll
      have hnone : readResponse [] = none := by simp [readResponse, Lib.cut]
      rw [List.flatMap_nil, hnone]
      rfl
  | cons m ms ih =>
      rw [List.flatMap_cons, readAll, readResponse_print]
      dsimp only
      have hpos : 0 < m.print.length := by
        rw [m.print_eq, HttpResponse.getResponse, m.getPreBody_eq, List.length_append,
          List.length_append]
        exact Nat.lt_of_lt_of_le (Nat.lt_add_left _ Nat.zero_lt_two) (Nat.le_add_right _ _)
      rw [if_pos (by rw [List.length_append]; omega), ih]
      rfl

end Client

end CPlusServer

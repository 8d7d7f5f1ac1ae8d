import CPlusServer.Http.Multipart
import Mathlib.Data.Bool.AllAny

/-!
# FileUpload

A chain of searches through the body of an upload, and against it the body that a
form is sent as. The searches start at the wrong places: the name begins two bytes
behind the first `filename` of the body, wherever that stands, and the content goes
on to the closing delimiter, the line end in front of it included.
-/

namespace CPlusServer

def cStr (s : Bytes) : Bytes := s.takeWhile (· ≠ NUL)

structure File where
  path : Bytes
  data : Bytes
  deriving DecidableEq

namespace HttpServer

/-- None where a `substr` throws, and no file where the filename is not found. -/
def fileUpload (request : HttpRequest) : Option (Option File) := do
  let contentType := request.getHeader (ascii "Content-Type")
  let bIndex := Lib.find contentType (ascii "boundary=") 0
  let boundary ←
    Lib.substr contentType (Lib.behind bIndex (ascii "boundary=").length) none
  match Lib.find request.body (ascii "filename") 0 with
  | none => return none
  | some fnIndex =>
      let fnIndex := fnIndex + (ascii "filename=\"").length
      let fnEndIndex := Lib.find request.body (ascii "\"\r\n") fnIndex
      let filename ← Lib.substr request.body fnIndex (fnEndIndex.map (· - fnIndex))
      let fIndex := Lib.behind (Lib.find request.body (ascii "\r\n\r\n") 0)
        (ascii "\r\n\r\n").length
      let fEndIndex := Lib.find request.body (ascii "--" ++ boundary ++ ascii "--") fIndex
      let fileData ← Lib.substr request.body fIndex (fEndIndex.map (· - fIndex))
      return some ⟨cStr (ascii "../files/" ++ filename), fileData⟩

/-- The test of `OnHttpReponse` in front of `FileUpload`. -/
def Multipart (request : HttpRequest) : Prop :=
  Lib.find (request.getHeader (ascii "Content-Type")) (ascii "multipart/form-data") 0 ≠ none

instance (request : HttpRequest) : Decidable (Multipart request) :=
  inferInstanceAs (Decidable (_ ≠ none))

/-! ## What it does -/

def boundaryOf (contentType : Bytes) : Bytes :=
  contentType.drop
    (Lib.behind (Lib.find contentType (ascii "boundary=") 0) (ascii "boundary=").length)

/-- What stands behind the first blank line, or behind the third byte. -/
def behindBlankLine (body : Bytes) : Bytes :=
  ((Lib.cut (ascii "\r\n\r\n") body).map Prod.snd).getD (body.drop 3)

/-- What stands two bytes behind `filename`, up to the quote that ends a line. -/
def nameIn (rest : Bytes) : Bytes := Lib.untilFirst (ascii "\"\r\n") (rest.drop 2)

variable {q : HttpRequest} {before rest : Bytes}

/-- Without `boundary=` the boundary begins at the ninth byte. -/
theorem substr_boundary {contentType : Bytes} (h : 8 ≤ contentType.length) :
    Lib.substr contentType (Lib.behind (Lib.find contentType (ascii "boundary=") 0)
      (ascii "boundary=").length) none = some (boundaryOf contentType) := by
  unfold Lib.substr boundaryOf
  rw [if_pos]
  cases hfind : Lib.find contentType (ascii "boundary=") 0 with
  | none => exact h
  | some i => exact Lib.find_add_length_le hfind

theorem Multipart.length_le (h : Multipart q) :
    8 ≤ (q.getHeader (ascii "Content-Type")).length := by
  obtain ⟨i, hfind⟩ := Option.ne_none_iff_exists'.1 h
  have hle := Lib.find_add_length_le hfind
  have hlen : (ascii "multipart/form-data").length = 19 := rfl
  omega

theorem find_filename (h : Lib.cut (ascii "filename") q.body = some (before, rest)) :
    Lib.find q.body (ascii "filename") 0 = some before.length := by
  rw [Lib.find_zero, h]
  rfl

/-- The content is looked for from the blank line on. -/
theorem substr_fileData {body : Bytes} (hlong : 3 ≤ body.length) (pat : Bytes) :
    let fIndex := Lib.behind (Lib.find body (ascii "\r\n\r\n") 0) (ascii "\r\n\r\n").length
    Lib.substr body fIndex ((Lib.find body pat fIndex).map (· - fIndex)) =
      some (Lib.untilFirst pat (behindBlankLine body)) := by
  intro fIndex
  have hblank := Lib.find_zero body (ascii "\r\n\r\n")
  have hsplit : ∃ front, body = front ++ behindBlankLine body ∧ front.length = fIndex := by
    unfold behindBlankLine
    cases hcut : Lib.cut (ascii "\r\n\r\n") body with
    | none =>
        rw [hcut] at hblank
        refine ⟨body.take 3, by simp, ?_⟩
        rw [List.length_take, Nat.min_eq_left hlong]
        show 3 = Lib.behind (Lib.find body (ascii "\r\n\r\n") 0) _
        rw [hblank]
        rfl
    | some p =>
        obtain ⟨head, tail⟩ := p
        rw [hcut] at hblank
        refine ⟨head ++ ascii "\r\n\r\n", Lib.eq_append_of_cut hcut, ?_⟩
        show _ = Lib.behind (Lib.find body (ascii "\r\n\r\n") 0) _
        rw [hblank]
        simp [Lib.behind]
  obtain ⟨front, heq, hfront⟩ := hsplit
  have hcut := Lib.substr_find pat front (behindBlankLine body)
  rw [← heq, hfront] at hcut
  exact hcut

theorem fileUpload_of_unnamed (hm : 8 ≤ (q.getHeader (ascii "Content-Type")).length)
    (h : ¬ ascii "filename" <:+: q.body) : fileUpload q = some none := by
  unfold fileUpload
  simp only [substr_boundary hm, (Lib.find_eq_none_iff (by decide)).2 h]
  rfl

/-- With fewer than two bytes behind `filename` the name would begin behind the body. -/
theorem fileUpload_of_short (hm : 8 ≤ (q.getHeader (ascii "Content-Type")).length)
    (h : Lib.cut (ascii "filename") q.body = some (before, rest)) (hrest : rest.length < 2) :
    fileUpload q = none := by
  have hbody := Lib.eq_append_of_cut h
  have hname : ∀ count, Lib.substr q.body (before.length + (ascii "filename=\"").length) count =
      none := by
    intro count
    rw [Lib.substr_eq_none_iff, hbody]
    have hshort : (ascii "filename").length = 8 := rfl
    have hlong : (ascii "filename=\"").length = 10 := rfl
    rw [List.length_append, List.length_append, hshort, hlong]
    omega
  unfold fileUpload
  simp only [substr_boundary hm, find_filename h, hname]
  rfl

/-- **FileUpload.** The file that is written when `filename` has two bytes behind it. -/
theorem fileUpload_eq (hm : 8 ≤ (q.getHeader (ascii "Content-Type")).length)
    (h : Lib.cut (ascii "filename") q.body = some (before, rest)) (hrest : 2 ≤ rest.length) :
    fileUpload q = some (some ⟨cStr (ascii "../files/" ++ nameIn rest),
      Lib.untilFirst (ascii "--" ++ boundaryOf (q.getHeader (ascii "Content-Type")) ++ ascii "--")
        (behindBlankLine q.body)⟩) := by
  have hbody := Lib.eq_append_of_cut h
  have hfront : (before ++ ascii "filename" ++ rest.take 2).length =
      before.length + (ascii "filename=\"").length := by
    rw [List.length_append, List.length_append, List.length_take, Nat.min_eq_left hrest]
    rfl
  have hname := Lib.substr_find (ascii "\"\r\n")
    (before ++ ascii "filename" ++ rest.take 2) (rest.drop 2)
  rw [List.append_assoc, List.take_append_drop, ← hbody, hfront] at hname
  have hlong : 3 ≤ q.body.length := by
    have hlen : (ascii "filename").length = 8 := rfl
    rw [hbody]
    simp only [List.length_append]
    omega
  have hdata := substr_fileData hlong
    (ascii "--" ++ boundaryOf (q.getHeader (ascii "Content-Type")) ++ ascii "--")
  unfold fileUpload
  simp only [substr_boundary hm, find_filename h, hname, hdata, nameIn, bind, Option.bind, pure]

end HttpServer

/-! ## The body of a form -/

def InQuotes (ch : UInt8) : Prop := ch ≠ chr '"' ∧ ch ≠ CR ∧ ch ≠ LF

instance (ch : UInt8) : Decidable (InQuotes ch) := inferInstanceAs (Decidable (_ ∧ _))

/-- One field of a form. A field with a filename is a file. -/
structure Part where
  name : Bytes
  filename : Option Bytes := none
  further : List Bytes := []
  content : Bytes := []
  name_ok : ∀ ch ∈ name, InQuotes ch
  filename_ok : ∀ f ∈ filename, ∀ ch ∈ f, InQuotes ch
  further_ok : ∀ line ∈ further, line ≠ [] ∧ ∀ ch ∈ line, ch ≠ CR ∧ ch ≠ LF

namespace Part

def disposition (p : Part) : Bytes :=
  ascii "Content-Disposition: form-data; name=\"" ++ p.name ++ ascii "\"" ++
    match p.filename with
    | some filename => ascii "; filename=\"" ++ filename ++ ascii "\""
    | none => []

def print (p : Part) (delimiter : Bytes) : Bytes :=
  Lib.endLines CR LF (delimiter :: p.disposition :: p.further) ++ CR :: LF ::
    (p.content ++ [CR, LF])

end Part

/-- The fields of a form and the boundary between them. A browser puts a line end behind the last
delimiter. -/
structure Form where
  boundary : Bytes
  first : Part
  others : List Part := []
  ending : Bytes := []
  boundary_ok : ∀ ch ∈ boundary, ch ≠ CR ∧ ch ≠ LF
  content_ok : ∀ p ∈ first :: others, ¬ ascii "--" ++ boundary <:+: p.content
  ending_ok : ending = [] ∨ ending = [CR, LF]

namespace Form

def delimiter (f : Form) : Bytes := ascii "--" ++ f.boundary

def print (f : Form) : Bytes :=
  (f.first :: f.others).flatMap (fun p => p.print f.delimiter) ++ f.delimiter ++
    (ascii "--" ++ f.ending)

/-- The request has the form for its body, and its Content-Type ends with the boundary. -/
def SentIn (f : Form) (q : HttpRequest) : Prop :=
  (∃ front, q.getHeader (ascii "Content-Type") = front ++ ascii "boundary=" ++ f.boundary) ∧
    q.body = f.print

/-- Two bytes follow any `filename` in the body. -/
theorem two_le_length (f : Form) {before rest : Bytes}
    (h : Lib.cut (ascii "filename") f.print = some (before, rest)) : 2 ≤ rest.length := by
  have hlast : chr 'e' ∉ ascii "--" ++ f.ending := by
    rcases f.ending_ok with hnil | hend
    · rw [hnil]
      decide
    · rw [hend]
      decide
  exact two_le_of_cut hlast (List.length_append ▸ Nat.le_add_right 2 _) h

end Form

/-! ## One file -/

structure FileForm where
  form : Form
  filename : Bytes
  single : form.others = []
  named : form.first.filename = some filename

theorem Part.disposition_ok (p : Part) : p.disposition ≠ [] ∧ CR ∉ p.disposition := by
  have hquoted {s : Bytes} (h : ∀ ch ∈ s, InQuotes ch) : CR ∉ s := fun hcr => (h CR hcr).2.1 rfl
  have hname : CR ∉ ascii "Content-Disposition: form-data; name=\"" := by decide
  have hfilename : CR ∉ ascii "; filename=\"" := by decide
  have hquote : CR ∉ ascii "\"" := by decide
  unfold disposition
  refine ⟨by simp [ascii], ?_⟩
  cases hfile : p.filename with
  | none => simp [hname, hquoted p.name_ok, hquote]
  | some filename =>
      have hquotedName := hquoted (p.filename_ok filename hfile)
      simp [hname, hquoted p.name_ok, hquote, hfilename, hquotedName]

namespace FileForm

def RoundTrips (u : FileForm) (q : HttpRequest) : Prop :=
  HttpServer.fileUpload q = some (some ⟨ascii "../files/" ++ u.filename, u.form.first.content⟩)

def lines (u : FileForm) : List Bytes :=
  u.form.delimiter :: u.form.first.disposition :: u.form.first.further

theorem lines_ok (u : FileForm) : ∀ line ∈ u.lines, line ≠ [] ∧ CR ∉ line := by
  intro line hline
  rcases List.mem_cons.1 hline with rfl | hline
  · refine ⟨by simp [Form.delimiter, ascii], fun hcr => ?_⟩
    rcases List.mem_append.1 hcr with hdash | hboundary
    · revert hdash
      decide
    · exact (u.form.boundary_ok CR hboundary).1 rfl
  rcases List.mem_cons.1 hline with rfl | hfurther
  · exact u.form.first.disposition_ok
  · obtain ⟨hne, hok⟩ := u.form.first.further_ok line hfurther
    exact ⟨hne, fun hcr => (hok CR hcr).1 rfl⟩

def tail (u : FileForm) : Bytes :=
  u.form.first.content ++ CR :: LF :: (u.form.delimiter ++ (ascii "--" ++ u.form.ending))

theorem print_eq (u : FileForm) :
    u.form.print = Lib.endLines CR LF u.lines ++ CR :: LF :: u.tail := by
  unfold Form.print tail lines
  rw [u.single]
  simp [Part.print]

theorem behindBlankLine_print (u : FileForm) :
    HttpServer.behindBlankLine u.form.print = u.tail := by
  have hblank : ascii "\r\n\r\n" = [CR, LF, CR, LF] := by decide
  have hcut := Lib.cut_endLines (show CR ≠ LF by decide) (List.cons_ne_nil _ _) u.lines_ok u.tail
  unfold HttpServer.behindBlankLine
  rw [hblank, u.print_eq]
  change Lib.cut [CR, LF, CR, LF] (Lib.endLines CR LF u.lines ++ CR :: LF :: u.tail) = _ at hcut
  rw [hcut]
  rfl

theorem filename_printed (u : FileForm) : ascii "filename" <:+: u.form.print := by
  have hfile : ascii "; filename=\"" = ascii "; " ++ ascii "filename" ++ ascii "=\"" := by decide
  have hdisposition : ascii "filename" <:+: u.form.first.disposition := by
    unfold Part.disposition
    rw [u.named, hfile]
    refine ⟨ascii "Content-Disposition: form-data; name=\"" ++ u.form.first.name ++ ascii "\"" ++
      ascii "; ", ascii "=\"" ++ u.filename ++ ascii "\"", ?_⟩
    simp
  refine hdisposition.trans ?_
  rw [u.print_eq]
  unfold lines Lib.endLines
  refine ⟨u.form.delimiter ++ [CR, LF], [CR, LF] ++ u.form.first.further.flatMap
    (fun line => line ++ [CR, LF]) ++ CR :: LF :: u.tail, ?_⟩
  simp

variable {u : FileForm} {q : HttpRequest}

theorem fileUpload_sentIn (h : u.form.SentIn q) : ∃ path,
    HttpServer.fileUpload q = some (some ⟨path, Lib.untilFirst (ascii "--" ++
      HttpServer.boundaryOf (q.getHeader (ascii "Content-Type")) ++ ascii "--") u.tail⟩) := by
  obtain ⟨⟨front, htype⟩, hbody⟩ := h
  have hlong : 8 ≤ (q.getHeader (ascii "Content-Type")).length := by
    have hlen : (ascii "boundary=").length = 9 := rfl
    rw [htype]
    simp only [List.length_append]
    omega
  cases hcut : Lib.cut (ascii "filename") u.form.print with
  | none => exact absurd u.filename_printed ((Lib.cut_eq_none_iff (by decide)).1 hcut)
  | some p =>
      obtain ⟨before, rest⟩ := p
      have hrest := u.form.two_le_length hcut
      rw [← hbody] at hcut
      have hup := HttpServer.fileUpload_eq hlong hcut hrest
      rw [hbody, u.behindBlankLine_print] at hup
      exact ⟨_, hup⟩

/-- The line end in front of the closing delimiter is written with the content. -/
theorem fileUpload_stores (h : u.form.SentIn q)
    (hboundary : HttpServer.boundaryOf (q.getHeader (ascii "Content-Type")) = u.form.boundary) :
    ∃ path, HttpServer.fileUpload q =
      some (some ⟨path, u.form.first.content ++ [CR, LF]⟩) := by
  obtain ⟨path, hup⟩ := fileUpload_sentIn h
  refine ⟨path, ?_⟩
  rw [hup, hboundary]
  have hclean (s : UInt8) (hs : s = CR ∨ s = LF) :
      s ∉ ascii "--" ++ u.form.boundary ++ ascii "--" := by
    intro hmem
    rcases List.mem_append.1 hmem with hmem | hmem
    · rcases List.mem_append.1 hmem with hmem | hmem
      · revert hmem
        rcases hs with rfl | rfl <;> decide
      · have hok := u.form.boundary_ok s hmem
        exact hs.elim hok.1 hok.2
    · revert hmem
      rcases hs with rfl | rfl <;> decide
  have hcontent : ¬ ascii "--" ++ u.form.boundary ++ ascii "--" <:+: u.form.first.content := by
    intro hin
    exact u.form.content_ok _ List.mem_cons_self
      ((List.prefix_append (ascii "--" ++ u.form.boundary) _).isInfix.trans hin)
  have hcut := Lib.untilFirst_of_not_mem (hclean CR (.inl rfl)) (hclean LF (.inr rfl)) hcontent
    u.form.ending
  unfold tail Form.delimiter
  rw [← List.append_assoc (ascii "--" ++ u.form.boundary), hcut]

/-- **Upload round trip.** No upload of a form with one file stores the content. -/
theorem not_roundTrips (h : u.form.SentIn q) : ¬ u.RoundTrips q := by
  intro hround
  obtain ⟨path, hup⟩ := fileUpload_sentIn h
  unfold RoundTrips at hround
  rw [hup] at hround
  have hdata := congrArg File.data (Option.some.inj (Option.some.inj hround))
  exact Lib.untilFirst_append_cons_ne (show CR ≠ chr '-' by decide) _ _ hdata

def sample : FileForm where
  form := {
    boundary := ascii "X"
    first := {
      name := ascii "file"
      filename := some (ascii "a.txt")
      content := ascii "hi"
      name_ok := List.all_iff_forall_prop.1 rfl
      filename_ok := fun _ hf => Option.some.inj hf ▸ List.all_iff_forall_prop.1 rfl
      further_ok := List.forall_mem_nil _ }
    boundary_ok := List.all_iff_forall_prop.1 rfl
    content_ok := List.forall_mem_singleton.2 (by decide)
    ending_ok := .inl rfl }
  filename := ascii "a.txt"
  single := rfl
  named := rfl

def uploadRequest (body : Bytes) : HttpRequest where
  method := .post
  url := ascii "/upload"
  headers := (∅ : StringMap).insert (ascii "Content-Type")
    (ascii "multipart/form-data; boundary=X")
  body := body

theorem getHeader_uploadRequest (body : Bytes) :
    (uploadRequest body).getHeader (ascii "Content-Type") =
      ascii "multipart/form-data; boundary=X" := by
  simp [HttpRequest.getHeader, uploadRequest]

theorem sentIn_sample : sample.form.SentIn (uploadRequest sample.form.print) := by
  refine ⟨⟨ascii "multipart/form-data; ", ?_⟩, rfl⟩
  rw [getHeader_uploadRequest]
  decide

theorem not_roundTrips_sample : ¬ sample.RoundTrips (uploadRequest sample.form.print) :=
  not_roundTrips sentIn_sample

/-- Four bytes are written for the two. -/
theorem fileUpload_sample :
    sample.form.print = ascii ("--X\r\nContent-Disposition: form-data; name=\"file\"; " ++
      "filename=\"a.txt\"\r\n\r\nhi\r\n--X--") ∧
      HttpServer.fileUpload (uploadRequest sample.form.print) =
        some (some ⟨ascii "../files/a.txt", ascii "hi\r\n"⟩) ∧
      ¬ sample.RoundTrips (uploadRequest sample.form.print) := by
  have hprint : sample.form.print = ascii ("--X\r\nContent-Disposition: form-data; name=\"file\"; " ++
      "filename=\"a.txt\"\r\n\r\nhi\r\n--X--") := by decide
  have hup : HttpServer.fileUpload (uploadRequest sample.form.print) =
      some (some ⟨ascii "../files/a.txt", ascii "hi\r\n"⟩) := by
    unfold HttpServer.fileUpload
    rw [getHeader_uploadRequest]
    decide
  refine ⟨hprint, hup, ?_⟩
  unfold RoundTrips
  rw [hup]
  decide

end FileForm

/-! ## Malformed bodies -/

namespace HttpServer

variable {q : HttpRequest}

/-- The body is one of several parts, between the boundaries that the Content-Type names. -/
def WellFormed (q : HttpRequest) : Prop := ∃ m : MultipartBody, m.SentIn q

/-- `FileUpload` returns, and it writes no file for a body that is not well formed. -/
def RefusesMalformed (q : HttpRequest) : Prop :=
  fileUpload q ≠ none ∧ (¬ WellFormed q → ∀ file, fileUpload q ≠ some (some file))

/-- Two bytes or more stand behind the first `filename`. -/
def NameFollowed (body : Bytes) : Prop :=
  ∀ before rest, Lib.cut (ascii "filename") body = some (before, rest) → 2 ≤ rest.length

/-- **Malformed uploads.** An upload is handled without an exception, and refused where it is
malformed, exactly when its body has no `filename` in it, or it is well formed and does not end with
the first `filename` or the byte behind. -/
theorem refusesMalformed_iff (hm : Multipart q) :
    RefusesMalformed q ↔
      ¬ ascii "filename" <:+: q.body ∨ WellFormed q ∧ NameFollowed q.body := by
  by_cases hname : ascii "filename" <:+: q.body
  · rw [or_iff_right (not_not_intro hname)]
    cases hcut : Lib.cut (ascii "filename") q.body with
    | none => exact absurd hname ((Lib.cut_eq_none_iff (by decide)).1 hcut)
    | some p =>
        obtain ⟨before, rest⟩ := p
        constructor
        · rintro ⟨hreturns, hrefuses⟩
          have hrest : 2 ≤ rest.length := by
            by_contra hshort
            exact hreturns (fileUpload_of_short hm.length_le hcut (not_le.1 hshort))
          have hgood : WellFormed q := by
            by_contra hbad
            exact hrefuses hbad _ (fileUpload_eq hm.length_le hcut hrest)
          refine ⟨hgood, fun before' rest' hcut' => ?_⟩
          cases hcut.symm.trans hcut'
          exact hrest
        · rintro ⟨hgood, hfollowed⟩
          refine ⟨?_, fun hbad => absurd hgood hbad⟩
          rw [fileUpload_eq hm.length_le hcut (hfollowed before rest hcut)]
          exact Option.some_ne_none _
  · have hup := fileUpload_of_unnamed hm.length_le hname
    refine iff_of_true ⟨?_, fun _ file => ?_⟩ (.inl hname)
    · rw [hup]
      exact Option.some_ne_none _
    · rw [hup]
      intro heq
      cases heq

theorem multipart_uploadRequest (body : Bytes) : Multipart (FileForm.uploadRequest body) := by
  unfold Multipart
  rw [FileForm.getHeader_uploadRequest]
  decide

def lowerCasePart : Bytes :=
  ascii "content-type: text/plain\r\ncontent-disposition: form-data; name=file; filename=\"a\"\r\n\r\nhi"

theorem exists_lowerCasePart : ∃ p : BodyPart, p.padding = [] ∧ p.print = lowerCasePart := by
  let kind : PartField := ⟨ascii "content-type", ascii " text/plain", by decide, by decide⟩
  let disposition : PartField := ⟨ascii "content-disposition",
    ascii " form-data; name=file; filename=\"a\"", by decide, by decide⟩
  let name : Parameter := ⟨[], ascii " ", ascii "name", .token (ascii "file") (by decide),
    by decide, by decide⟩
  let filename : Parameter := ⟨[], ascii " ", ascii "filename",
    .quoted [⟨false, chr 'a', by decide⟩], by decide, by decide⟩
  have hdisposition : disposition.IsDisposition :=
    ⟨by decide, ascii " ", [], by decide, by decide, ⟨ascii "form-data", [name, filename], by decide⟩,
      ascii "file", by decide, by decide, name, List.mem_cons_self, by decide, rfl⟩
  have hfields : ∃ f ∈ [kind, disposition], f.IsDisposition :=
    ⟨disposition, List.mem_cons_of_mem _ List.mem_cons_self, hdisposition⟩
  exact ⟨⟨[], [kind, disposition], some (ascii "hi"), List.forall_mem_nil _, hfields⟩, rfl, rfl⟩

def lowerCaseBody : Bytes := ascii "--X\r\n" ++ lowerCasePart ++ ascii "\r\n--X--"

theorem isBoundary_X : IsBoundary (ascii "X") :=
  ⟨by decide, List.forall_mem_singleton.2 (by decide), [], chr 'X', rfl, by decide⟩

theorem exists_lowerCaseBody : ∃ m : MultipartBody,
    m.boundary = ascii "X" ∧ m.epilogue = none ∧ m.print = lowerCaseBody := by
  obtain ⟨p, hpadding, hp⟩ := exists_lowerCasePart
  have hplain : ¬ CRLF ++ ascii "--" ++ ascii "X" <:+: CRLF ++ p.print := by
    rw [hp]
    decide +kernel
  refine ⟨⟨ascii "X", none, [p], [], none, isBoundary_X, List.cons_ne_nil _ _, List.forall_mem_nil _,
    fun _ htext => absurd htext (Option.not_mem_none _), List.forall_mem_singleton.2 hplain⟩,
    rfl, rfl, ?_⟩
  unfold MultipartBody.print MultipartBody.printParts MultipartBody.dashBoundary
  simp only [List.flatMap_cons, List.flatMap_nil, Option.elim_none, hp, hpadding]
  decide

theorem wellFormed_lowerCaseBody {m : MultipartBody} (hboundary : m.boundary = ascii "X") :
    WellFormed (FileForm.uploadRequest m.print) := by
  let boundary : Parameter := ⟨[], ascii " ", ascii "boundary", .token (ascii "X") (by decide),
    by decide, by decide⟩
  refine ⟨m, ⟨⟨ascii "multipart/form-data", [boundary], by decide⟩, ?_, by decide,
    boundary, List.mem_cons_self, by decide, hboundary.symm⟩, rfl⟩
  rw [FileForm.getHeader_uploadRequest]
  decide

/-- The body in lower case is handled; the one that ends with `filename` is not. -/
theorem refusesMalformed_sample :
    RefusesMalformed (FileForm.uploadRequest lowerCaseBody) ∧
      ¬ RefusesMalformed (FileForm.uploadRequest (ascii "filename")) := by
  constructor
  · obtain ⟨m, hboundary, hnone, hprint⟩ := exists_lowerCaseBody
    rw [← hprint]
    exact (refusesMalformed_iff (multipart_uploadRequest _)).2
      (.inr ⟨wellFormed_lowerCaseBody hboundary, fun _ _ => m.two_le_length hnone⟩)
  · intro h
    rcases (refusesMalformed_iff (multipart_uploadRequest _)).1 h with hnone | ⟨-, hfollowed⟩
    · exact hnone List.infix_rfl
    · have hrest := hfollowed [] [] (by decide)
      revert hrest
      decide

/-- A body that ends with `filename` is an exception, and one in which none of the other searches
finds anything is written to a file. -/
theorem not_refusesMalformed_filename :
    fileUpload (FileForm.uploadRequest (ascii "filename")) = none ∧
      ¬ RefusesMalformed (FileForm.uploadRequest (ascii "filename")) ∧
      fileUpload (FileForm.uploadRequest (ascii "filename=\"x")) =
        some (some ⟨ascii "../files/x", ascii "ename=\"x"⟩) := by
  have hthrows : fileUpload (FileForm.uploadRequest (ascii "filename")) = none := by
    unfold fileUpload
    rw [FileForm.getHeader_uploadRequest]
    decide
  have hwrites : fileUpload (FileForm.uploadRequest (ascii "filename=\"x")) =
      some (some ⟨ascii "../files/x", ascii "ename=\"x"⟩) := by
    unfold fileUpload
    rw [FileForm.getHeader_uploadRequest]
    decide
  exact ⟨hthrows, fun h => h.1 hthrows, hwrites⟩

/-! ## Confinement -/

structure Entry (name : Bytes) : Prop where
  ne_nil : name ≠ []
  slash : chr '/' ∉ name
  ne_dot : name ≠ ascii "."
  ne_dots : name ≠ ascii ".."

/-- Every file that is opened for writing is an entry of `../files`. -/
def Confined (q : HttpRequest) : Prop :=
  ∀ file, fileUpload q = some (some file) →
    ∃ name, file.path = ascii "../files/" ++ name ∧ Entry name

/-- The text behind the first `filename` of the body begins, after two bytes, with the name of an
entry: up to the quote that ends a line, and not beyond a terminator. -/
def NamesEntry (body : Bytes) : Prop :=
  ∀ before rest, Lib.cut (ascii "filename") body = some (before, rest) → 2 ≤ rest.length →
    Entry (cStr (nameIn rest))

theorem cStr_files (name : Bytes) :
    cStr (ascii "../files/" ++ name) = ascii "../files/" ++ cStr name := by
  have hclean : ∀ ch ∈ ascii "../files/", decide (ch ≠ NUL) = true := List.all_iff_forall_prop.1 rfl
  exact List.takeWhile_append_of_pos hclean

/-- **Upload confinement.** An upload stays in `../files` exactly when its body names an entry. -/
theorem confined_iff (hm : Multipart q) : Confined q ↔ NamesEntry q.body := by
  constructor
  · intro h before rest hcut hrest
    obtain ⟨name, hpath, hentry⟩ := h _ (fileUpload_eq hm.length_le hcut hrest)
    rw [cStr_files, List.append_cancel_left_eq] at hpath
    rw [hpath]
    exact hentry
  · intro h file hfile
    cases hcut : Lib.cut (ascii "filename") q.body with
    | none =>
        have hname := (Lib.cut_eq_none_iff (by decide)).1 hcut
        rw [fileUpload_of_unnamed hm.length_le hname] at hfile
        cases hfile
    | some p =>
        obtain ⟨before, rest⟩ := p
        by_cases hrest : rest.length < 2
        · rw [fileUpload_of_short hm.length_le hcut hrest] at hfile
          cases hfile
        · have hlong := not_lt.1 hrest
          rw [fileUpload_eq hm.length_le hcut hlong] at hfile
          cases hfile
          exact ⟨_, cStr_files _, h before rest hcut hlong⟩

theorem confined_sample :
    Confined (FileForm.uploadRequest (ascii "filename=\"x")) ↔ NamesEntry (ascii "filename=\"x") :=
  confined_iff (multipart_uploadRequest _)

def traversalSample : FileForm where
  form := {
    boundary := ascii "X"
    first := {
      name := ascii "file"
      filename := some (ascii "../static/index.html")
      content := ascii "x"
      name_ok := FileForm.sample.form.first.name_ok
      filename_ok := fun _ hf => Option.some.inj hf ▸ List.all_iff_forall_prop.1 rfl
      further_ok := FileForm.sample.form.first.further_ok }
    boundary_ok := FileForm.sample.form.boundary_ok
    content_ok := List.forall_mem_singleton.2 (by decide)
    ending_ok := FileForm.sample.form.ending_ok }
  filename := ascii "../static/index.html"
  single := rfl
  named := rfl

/-- A well-formed upload overwrites a page of the server itself. -/
theorem not_confined_traversalSample :
    fileUpload (FileForm.uploadRequest traversalSample.form.print) =
        some (some ⟨ascii "../files/../static/index.html", ascii "x\r\n"⟩) ∧
      ¬ Confined (FileForm.uploadRequest traversalSample.form.print) := by
  have hup : fileUpload (FileForm.uploadRequest traversalSample.form.print) =
      some (some ⟨ascii "../files/../static/index.html", ascii "x\r\n"⟩) := by
    unfold fileUpload
    rw [FileForm.getHeader_uploadRequest]
    decide
  refine ⟨hup, fun h => ?_⟩
  obtain ⟨name, hpath, hentry⟩ := h _ hup
  have hsplit : ascii "../files/../static/index.html" =
      ascii "../files/" ++ ascii "../static/index.html" := by decide
  rw [hsplit, List.append_cancel_left_eq] at hpath
  have hslash := hentry.slash
  rw [← hpath] at hslash
  revert hslash
  decide

end HttpServer

end CPlusServer

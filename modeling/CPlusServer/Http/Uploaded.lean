import CPlusServer.Http.Upload

/-!
# What the upload form stores

The form of `fileserver.html` as a browser sends it. Where the word `filename` comes
first in front of the name, `FileUpload` writes the file of that name, with the line end
in front of the closing delimiter behind its content.
-/

namespace CPlusServer

/-- A form with one file whose name is one of an entry, and which can be found: neither the boundary
nor the name of the field has `filename` in it. -/
structure Upload where
  file : FileForm
  boundary_plain : ¬ ascii "filename" <:+: file.form.boundary
  field_plain : ¬ ascii "filename" <:+: file.form.first.name
  entry : HttpServer.Entry file.filename
  whole : NUL ∉ file.filename
  small : file.form.print.length < 2 ^ 31

namespace Upload

variable {u : Upload} {q : HttpRequest}

structure SentIn (u : Upload) (q : HttpRequest) : Prop where
  contentType : q.getHeader (ascii "Content-Type") =
    ascii "multipart/form-data; boundary=" ++ u.file.form.boundary
  body : q.body = u.file.form.print

def data (u : Upload) : Bytes := u.file.form.first.content ++ [CR, LF]

/-! ## The Content-Type -/

theorem find_boundary (boundary : Bytes) :
    Lib.find (ascii "multipart/form-data; boundary=" ++ boundary) (ascii "boundary=") 0 = some 21 := by
  have hsplit : ascii "multipart/form-data; boundary=" =
      ascii "multipart/form-data;" ++ chr ' ' :: ascii "boundary=" := by decide
  have hblank : chr ' ' ∉ ascii "boundary=" := by decide
  have hfront : ¬ ascii "boundary=" <:+: ascii "multipart/form-data;" := by decide
  rw [Lib.find_zero, hsplit, List.append_assoc, List.cons_append, Lib.cut_append_cons hblank hfront,
    Lib.cut_append]
  rfl

theorem SentIn.boundaryOf (h : u.SentIn q) :
    HttpServer.boundaryOf (q.getHeader (ascii "Content-Type")) = u.file.form.boundary := by
  unfold HttpServer.boundaryOf
  rw [h.contentType, find_boundary]
  exact List.drop_left' rfl

theorem SentIn.multipart (h : u.SentIn q) : HttpServer.Multipart q := by
  have hfront : ascii "multipart/form-data; boundary=" =
      ascii "multipart/form-data" ++ ascii "; boundary=" := by decide
  unfold HttpServer.Multipart
  rw [h.contentType, Lib.find_zero, hfront, List.append_assoc, Lib.cut_append]
  exact nofun

theorem SentIn.form (h : u.SentIn q) : u.file.form.SentIn q := by
  refine ⟨⟨ascii "multipart/form-data; ", ?_⟩, h.body⟩
  have hsplit : ascii "multipart/form-data; boundary=" =
      ascii "multipart/form-data; " ++ ascii "boundary=" := by decide
  rw [h.contentType, hsplit]

/-! ## The name -/

def front (u : Upload) : Bytes :=
  u.file.form.delimiter ++ CR :: LF :: (ascii "Content-Disposition: form-data; name=" ++
    chr '"' :: (u.file.form.first.name ++ chr '"' :: ascii ";"))

def back (u : Upload) : Bytes :=
  ascii "=\"" ++ (u.file.filename ++ chr '"' :: (CR :: LF ::
    (Lib.endLines CR LF u.file.form.first.further ++ CR :: LF :: u.file.tail)))

theorem print_eq (u : Upload) :
    u.file.form.print = u.front ++ chr ' ' :: (ascii "filename" ++ u.back) := by
  have hname : ascii "Content-Disposition: form-data; name=\"" =
      ascii "Content-Disposition: form-data; name=" ++ [chr '"'] := by decide
  have hfile : ascii "; filename=\"" = ascii ";" ++ chr ' ' :: (ascii "filename" ++ ascii "=\"") := by
    decide
  have hquote : ascii "\"" = [chr '"'] := by decide
  rw [u.file.print_eq]
  unfold FileForm.lines Lib.endLines Part.disposition front back
  rw [u.file.named]
  dsimp only
  rw [hname, hfile, hquote]
  simp [Lib.endLines]

/-- The first `filename` of the body is the one in front of the name. -/
theorem cut_filename (u : Upload) :
    Lib.cut (ascii "filename") u.file.form.print = some (u.front ++ [chr ' '], u.back) := by
  have hquote : chr '"' ∉ ascii "filename" := by decide
  have hfield : ¬ ascii "filename" <:+: u.file.form.first.name ++ chr '"' :: ascii ";" :=
    Lib.not_infix_append_cons hquote u.field_plain (by decide)
  have hline : ¬ ascii "filename" <:+: ascii "Content-Disposition: form-data; name=" ++
      chr '"' :: (u.file.form.first.name ++ chr '"' :: ascii ";") :=
    Lib.not_infix_append_cons hquote (by decide) hfield
  have hlf : ¬ ascii "filename" <:+: [] ++ LF :: (ascii "Content-Disposition: form-data; name=" ++
      chr '"' :: (u.file.form.first.name ++ chr '"' :: ascii ";")) :=
    Lib.not_infix_append_cons (by decide) (by decide) hline
  have hdelimiter : ¬ ascii "filename" <:+: ascii "-" ++ chr '-' :: u.file.form.boundary :=
    Lib.not_infix_append_cons (by decide) (by decide) u.boundary_plain
  have hfront : ¬ ascii "filename" <:+: u.front :=
    Lib.not_infix_append_cons (by decide) hdelimiter hlf
  have hblank : chr ' ' ∉ ascii "filename" := by decide
  rw [u.print_eq, Lib.cut_append_cons hblank hfront, Lib.cut_append]
  rfl

theorem nameIn_back (u : Upload) : HttpServer.nameIn u.back = u.file.filename := by
  have hquote : chr '"' ∉ u.file.filename := fun hin =>
    (u.file.form.first.filename_ok u.file.filename u.file.named _ hin).1 rfl
  have hcut := @Lib.cut_line _ _ (chr '"') [CR, LF] u.file.filename
    (Lib.endLines CR LF u.file.form.first.further ++ CR :: LF :: u.file.tail) hquote
  unfold HttpServer.nameIn Lib.untilFirst
  show ((Lib.cut (chr '"' :: [CR, LF]) (u.file.filename ++ chr '"' :: ([CR, LF] ++
    (Lib.endLines CR LF u.file.form.first.further ++ CR :: LF :: u.file.tail)))).map
      Prod.fst).getD _ = _
  rw [hcut]
  rfl

/-! ## The file -/

theorem SentIn.fileUpload (h : u.SentIn q) : HttpServer.fileUpload q =
    some (some ⟨ascii "../files/" ++ u.file.filename, u.data⟩) := by
  have hcut := u.cut_filename
  rw [← h.body] at hcut
  have hrest : 2 ≤ u.back.length := by
    unfold back
    rw [List.length_append]
    exact Nat.le_add_right _ _
  have hup := HttpServer.fileUpload_eq h.multipart.length_le hcut hrest
  have hname : cStr u.file.filename = u.file.filename := by
    unfold cStr
    rw [List.takeWhile_eq_self_iff]
    intro ch hch
    refine decide_eq_true ?_
    rintro rfl
    exact u.whole hch
  rw [u.nameIn_back, HttpServer.cStr_files, hname] at hup
  obtain ⟨path, hdata⟩ := FileForm.fileUpload_stores h.form h.boundaryOf
  rw [hup] at hdata
  have hfile := Option.some.inj (Option.some.inj hdata)
  rw [hup, (File.mk.inj hfile).2]
  rfl

theorem length_data_lt (u : Upload) : u.data.length < 2 ^ 31 := by
  have hsmall := u.small
  rw [u.file.print_eq, List.length_append] at hsmall
  have htail : u.data.length ≤ (CR :: LF :: u.file.tail).length := by
    unfold data FileForm.tail
    simp only [List.length_append, List.length_cons, List.length_nil]
    omega
  omega

def note : Upload where
  file := FileForm.sample
  boundary_plain := by decide
  field_plain := by decide
  entry := ⟨by decide, by decide, by decide, by decide⟩
  whole := by decide
  small := by decide

example : note.SentIn (FileForm.uploadRequest FileForm.sample.form.print) ∧
    note.data = ascii "hi\r\n" :=
  ⟨⟨FileForm.getHeader_uploadRequest _, rfl⟩, by decide⟩

end Upload

end CPlusServer

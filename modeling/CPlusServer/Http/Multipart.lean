import CPlusServer.Http.Request
import CPlusServer.Lib.Search

/-!
# Bodies of several parts

What a body of the type `multipart/form-data` may look like, whoever sends it: header fields in
any order and in any letter case, parameters with or without quotes, text in front of the first
delimiter and behind the last. Comments and folded lines are left out. Nothing here is taken from
the code, which has no grammar for a body.
-/

namespace CPlusServer

def CRLF : Bytes := [CR, LF]

/-- A printing byte that is not one of the separators. -/
def istoken (ch : UInt8) : Bool :=
  33 ≤ ch && ch ≤ 126 && decide (ch ∉ ascii "()<>@,;:\\\"/[]?=")

def IsToken (s : Bytes) : Prop := s ≠ [] ∧ ∀ ch ∈ s, istoken ch = true

def AreBlanks (s : Bytes) : Prop := ∀ ch ∈ s, isblank ch = true

def OnOneLine (s : Bytes) : Prop := ∀ ch ∈ s, ch ≠ CR ∧ ch ≠ LF

def IsFieldName (s : Bytes) : Prop := s ≠ [] ∧ ∀ ch ∈ s, 33 ≤ ch ∧ ch ≤ 126 ∧ ch ≠ chr ':'

section
variable (s : Bytes)

instance : Decidable (AreBlanks s) := List.decidableBAll _ _

instance : Decidable (OnOneLine s) := List.decidableBAll _ _

instance : Decidable (IsToken s) :=
  have := List.decidableBAll (fun ch => istoken ch = true) s
  inferInstanceAs (Decidable (s ≠ [] ∧ _))

instance : Decidable (IsFieldName s) :=
  have := List.decidableBAll (fun ch => 33 ≤ ch ∧ ch ≤ 126 ∧ ch ≠ chr ':') s
  inferInstanceAs (Decidable (s ≠ [] ∧ _))

end

/-- A byte between quotes, behind a backslash or as it is. -/
structure QuotedByte where
  escaped : Bool := false
  ch : UInt8
  ok : ch ≠ CR ∧ ch ≠ LF ∧ (ch = chr '"' → escaped = true)

def QuotedByte.print (b : QuotedByte) : Bytes := if b.escaped then [chr '\\', b.ch] else [b.ch]

inductive ParameterValue
  | token (s : Bytes) (ok : IsToken s)
  | quoted (bs : List QuotedByte)

namespace ParameterValue

def print : ParameterValue → Bytes
  | token s _ => s
  | quoted bs => ascii "\"" ++ bs.flatMap QuotedByte.print ++ ascii "\""

def text : ParameterValue → Bytes
  | token s _ => s
  | quoted bs => bs.map QuotedByte.ch

end ParameterValue

/-- A parameter of a header value, with the blanks on both sides of its semicolon. -/
structure Parameter where
  lead : Bytes := []
  gap : Bytes := []
  name : Bytes
  value : ParameterValue
  blanks : AreBlanks lead ∧ AreBlanks gap
  name_ok : IsToken name

def Parameter.print (p : Parameter) : Bytes :=
  p.lead ++ ascii ";" ++ p.gap ++ p.name ++ ascii "=" ++ p.value.print

structure Described where
  kind : Bytes
  parameters : List Parameter
  distinct : (parameters.map fun p => lower p.name).Nodup

namespace Described

def print (d : Described) : Bytes := d.kind ++ d.parameters.flatMap Parameter.print

/-- The value has a parameter of that name, given in lower case. -/
def Has (d : Described) (name text : Bytes) : Prop :=
  ∃ p ∈ d.parameters, lower p.name = name ∧ p.value.text = text

end Described

structure PartField where
  name : Bytes
  value : Bytes
  name_ok : IsFieldName name
  value_ok : OnOneLine value

namespace PartField

def print (f : PartField) : Bytes := f.name ++ ascii ":" ++ f.value ++ CRLF

def IsDisposition (f : PartField) : Prop :=
  lower f.name = ascii "content-disposition" ∧
    ∃ front back, AreBlanks front ∧ AreBlanks back ∧ ∃ d : Described, ∃ name,
      f.value = front ++ d.print ++ back ∧ lower d.kind = ascii "form-data" ∧
        d.Has (ascii "name") name

end PartField

/-- One part. Without a body its header ends at the delimiter. -/
structure BodyPart where
  padding : Bytes := []
  fields : List PartField
  body : Option Bytes
  padding_ok : AreBlanks padding
  disposition : ∃ f ∈ fields, f.IsDisposition

def BodyPart.print (p : BodyPart) : Bytes :=
  p.fields.flatMap PartField.print ++ p.body.elim [] fun body => CRLF ++ body

structure IsBoundary (boundary : Bytes) : Prop where
  length_le : boundary.length ≤ 70
  bytes : ∀ ch ∈ boundary, isalpha ch = true ∨ isdigit ch = true ∨ ch ∈ ascii "'()+_,-./:=? "
  last : ∃ front ch, boundary = front ++ [ch] ∧ ch ≠ chr ' '

/-- Two bytes follow any `filename` in front of two bytes or more that have no `e`. -/
theorem two_le_of_cut {front back before rest : Bytes} (hlast : chr 'e' ∉ back)
    (hback : 2 ≤ back.length)
    (h : Lib.cut (ascii "filename") (front ++ back) = some (before, rest)) : 2 ≤ rest.length := by
  have hfind := Lib.find_zero (front ++ back) (ascii "filename")
  have hfilename : ascii "filename" = ascii "filenam" ++ [chr 'e'] := by decide
  rw [h, hfilename] at hfind
  have hle := Lib.find_add_length_le_of_not_mem hlast hfind
  have hsplit := congrArg List.length (Lib.eq_append_of_cut h)
  have hlen : (ascii "filename").length = 8 := rfl
  have hinit : (ascii "filenam").length = 7 := rfl
  simp only [List.length_append, hlen, hinit] at hle hsplit
  omega

structure MultipartBody where
  boundary : Bytes
  preamble : Option Bytes := none
  parts : List BodyPart
  padding : Bytes := []
  epilogue : Option Bytes := none
  boundary_ok : IsBoundary boundary
  parts_ne_nil : parts ≠ []
  padding_ok : AreBlanks padding
  preamble_ok : ∀ text ∈ preamble, ¬ CRLF ++ ascii "--" ++ boundary <:+: CRLF ++ text
  parts_ok : ∀ p ∈ parts, ¬ CRLF ++ ascii "--" ++ boundary <:+: CRLF ++ p.print

namespace MultipartBody

def dashBoundary (m : MultipartBody) : Bytes := ascii "--" ++ m.boundary

/-- Everything in front of the two dashes that close the body. -/
def printParts (m : MultipartBody) : Bytes :=
  (m.preamble.elim [] fun text => text ++ CRLF) ++
    m.parts.flatMap (fun p => m.dashBoundary ++ p.padding ++ CRLF ++ p.print ++ CRLF) ++
      m.dashBoundary

def print (m : MultipartBody) : Bytes :=
  m.printParts ++
    (ascii "--" ++ m.padding ++ m.epilogue.elim [] fun text => CRLF ++ text)

def SentIn (m : MultipartBody) (q : HttpRequest) : Prop :=
  (∃ d : Described, q.getHeader (ascii "Content-Type") = d.print ∧
    lower d.kind = ascii "multipart/form-data" ∧ d.Has (ascii "boundary") m.boundary) ∧
      q.body = m.print

/-- Two bytes follow any `filename` of a body without an epilogue. -/
theorem two_le_length (m : MultipartBody) (hnone : m.epilogue = none) {before rest : Bytes}
    (h : Lib.cut (ascii "filename") m.print = some (before, rest)) : 2 ≤ rest.length := by
  have hlast : chr 'e' ∉ ascii "--" ++ m.padding := by
    intro hmem
    rcases List.mem_append.1 hmem with hdash | hpadding
    · revert hdash
      decide
    · have hblank := m.padding_ok _ hpadding
      revert hblank
      decide
  have hprint : m.print = m.printParts ++ (ascii "--" ++ m.padding) := by
    unfold print
    rw [hnone, Option.elim_none, List.append_nil]
  rw [hprint] at h
  exact two_le_of_cut hlast (List.length_append ▸ Nat.le_add_right 2 _) h

end MultipartBody

end CPlusServer

import CPlusServer.Log.Record

/-!
# Insertion into a LogStream

The overloads of `operator<<` and the writers of a given length, over one buffer. A
statement `LOG_X << ...` is a chain of insertions between those of `Impl`, and what
it hands to `g_output` is either the whole text or nothing.
-/

namespace CPlusServer

structure IntegerArg where
  type : IntegerType
  num : Int
  holds : type.Holds num

/-- `StreamTemplate`: as many bytes of an array, which must have them. -/
structure StreamTemplate where
  str : Bytes
  size : Nat
  inside : size ≤ str.length

/-- What may stand behind `<<`. A text is given where `snprintf` makes it: `%g` of a number, which
is short, or the one of a `Formator`. -/
inductive LogItem
  | bool (v : Bool)
  | int16 (num : Int) (holds : -2 ^ 15 ≤ num ∧ num < 2 ^ 15)
  | uint16 (num : Int) (holds : 0 ≤ num ∧ num < 2 ^ 16)
  | integer (arg : IntegerArg)
  | double (text : Bytes) (short : text.length < 32)
  | char (v : UInt8)
  | cString (str : Option Bytes)
  | string (v : Bytes)
  | template (temp : StreamTemplate)
  | formator (text : Bytes)
  | sourceFile (data : Bytes)

/-- `Formator`: the text is cut to an array of 32 bytes, and its length is not. -/
def formatorValue (text : Bytes) : Except LogFault Bytes :=
  if text.length > 32 then .error .errif
  else .ok ((text.take 31 ++ List.replicate (32 - (text.take 31).length) NUL).take text.length)

namespace FixedBuffer

variable {size : Nat}

def insert (b : FixedBuffer size) : LogItem → Except LogFault (FixedBuffer size)
  | .bool v => b.append (if v then ascii "1" else ascii "0")
  | .int16 num _ | .uint16 num _ => b.formatInteger num
  | .integer arg => b.formatInteger arg.num
  | .double text _ => b.append text
  | .char v => b.append [v]
  | .cString none => b.append (ascii "(null)")
  | .cString (some str) => b.append (str.takeWhile (· ≠ NUL))
  | .string v => b.append v
  | .template temp => b.append (temp.str.take temp.size)
  | .formator text => do
      let value ← formatorValue text
      b.append value
  | .sourceFile data => b.append (data.takeWhile (· ≠ NUL))

def insertAll (b : FixedBuffer size) : List LogItem → Except LogFault (FixedBuffer size)
  | [] => .ok b
  | item :: items => do
      let b ← b.insert item
      b.insertAll items

end FixedBuffer

/-! ## What is written, and when -/

def LogItem.text : LogItem → Bytes
  | .bool v => if v then ascii "1" else ascii "0"
  | .int16 num _ | .uint16 num _ => (digitLoop num).1.reverse
  | .integer arg => (digitLoop arg.num).1.reverse
  | .double text _ => text
  | .char v => [v]
  | .cString none => ascii "(null)"
  | .cString (some str) | .sourceFile str => str.takeWhile (· ≠ NUL)
  | .string v => v
  | .template temp => temp.str.take temp.size
  | .formator text => if text.length = 32 then text.take 31 ++ [NUL] else text

def texts (items : List LogItem) : Bytes := items.flatMap LogItem.text

/-- Behind `n` bytes there is room: a number asks for more than it can need, a text for one byte
more than it has, and a `Formator` takes no more than 32. -/
def LogItem.Fits (size n : Nat) (item : LogItem) : Prop :=
  match item with
  | .int16 .. | .uint16 .. | .integer _ => n + 48 < size
  | .formator text => text.length ≤ 32 ∧ n + text.length < size
  | item => n + item.text.length < size

def FitAll (size : Nat) : Nat → List LogItem → Prop
  | _, [] => True
  | n, item :: items => item.Fits size n ∧ FitAll size (n + item.text.length) items

/-! ## One insertion -/

theorem text_formator (text : Bytes) :
    (LogItem.formator text).text = if text.length = 32 then text.take 31 ++ [NUL] else text :=
  rfl

/-- A `Formator` of 32 characters has lost its last one to the terminator. -/
theorem formatorValue_of_le {text : Bytes} (h : text.length ≤ 32) :
    formatorValue text = .ok (LogItem.formator text).text := by
  unfold formatorValue
  rw [if_neg (by omega), text_formator]
  by_cases hlast : text.length = 32
  · have hcut : (text.take 31).length = 31 := by
      rw [List.length_take]
      omega
    have hall : (text.take 31 ++ [NUL]).length ≤ text.length := by
      rw [List.length_append, hcut, List.length_singleton]
      omega
    rw [if_pos hlast, hcut]
    exact congrArg Except.ok (List.take_of_length_le hall)
  · rw [if_neg hlast, List.take_of_length_le (by omega : text.length ≤ 31), List.take_left]

theorem length_formator_text (text : Bytes) : (LogItem.formator text).text.length = text.length := by
  rw [text_formator]
  split
  · rw [List.length_append, List.length_take, List.length_singleton]
    omega
  · rfl

namespace FixedBuffer

variable {size : Nat}

/-- A number is written whenever more than 48 bytes are free. -/
theorem formatInteger_cases {t : IntegerType} (b : FixedBuffer size) {num : Int}
    (hnum : t.Holds num) :
    (b.data.length + 48 < size ∧ ∃ b', b.formatInteger num = .ok b' ∧
        b'.data = b.data ++ (digitLoop num).1.reverse) ∨
      ¬ b.data.length + 48 < size ∧ b.formatInteger num = .error .errif := by
  by_cases hroom : b.data.length + 48 < size
  · have hspace : b.getSpace > KMAXNUMERICSIZE := by
      unfold getSpace KMAXNUMERICSIZE
      omega
    exact .inl ⟨hroom, formatInteger_data hspace hnum⟩
  · have hspace : ¬ b.getSpace > KMAXNUMERICSIZE := by
      unfold getSpace KMAXNUMERICSIZE
      omega
    have herr : b.formatInteger num = .error .errif := by
      unfold formatInteger
      rw [if_neg hspace]
    exact .inr ⟨hroom, herr⟩

theorem append_cases (b : FixedBuffer size) (buf : Bytes) :
    (b.data.length + buf.length < size ∧ ∃ b', b.append buf = .ok b' ∧ b'.data = b.data ++ buf) ∨
      ¬ b.data.length + buf.length < size ∧ b.append buf = .error .errif := by
  by_cases hroom : b.data.length + buf.length < size
  · exact .inl ⟨hroom, append_of_fits hroom⟩
  · exact .inr ⟨hroom, append_of_not_fits hroom⟩

theorem insert_formator (b : FixedBuffer size) (text : Bytes) :
    b.insert (.formator text) = formatorValue text >>= b.append := by
  rfl

theorem fits_formator (n : Nat) (text : Bytes) :
    (LogItem.formator text).Fits size n ↔ text.length ≤ 32 ∧ n + text.length < size := by
  rfl

theorem insert_cases (b : FixedBuffer size) (item : LogItem) :
    (item.Fits size b.data.length ∧ ∃ b', b.insert item = .ok b' ∧
        b'.data = b.data ++ item.text) ∨
      ¬ item.Fits size b.data.length ∧ b.insert item = .error .errif := by
  cases item with
  | int16 num h =>
      have harg : IntegerType.int32.Holds num := by
        unfold IntegerType.Holds
        omega
      exact b.formatInteger_cases harg
  | uint16 num h =>
      have harg : IntegerType.uint32.Holds num := by
        unfold IntegerType.Holds
        omega
      exact b.formatInteger_cases harg
  | integer arg => exact b.formatInteger_cases arg.holds
  | formator text =>
      rw [fits_formator, b.insert_formator]
      by_cases hshort : text.length ≤ 32
      · have hcases := b.append_cases (LogItem.formator text).text
        rw [length_formator_text] at hcases
        rw [formatorValue_of_le hshort, and_iff_right hshort]
        exact hcases
      · have hlong : formatorValue text = .error .errif := by
          unfold formatorValue
          rw [if_pos (by omega)]
        rw [hlong]
        exact .inr ⟨fun h => hshort h.1, rfl⟩
  | cString str => cases str <;> exact b.append_cases _
  | bool v => exact b.append_cases _
  | double text _ => exact b.append_cases _
  | char v => exact b.append_cases _
  | string v => exact b.append_cases _
  | template temp => exact b.append_cases _
  | sourceFile data => exact b.append_cases _

/-- **Chains.** A chain of insertions writes the texts of all its items, one behind the other, where
each finds room behind those before it; otherwise it ends the process, and never is a part of it
handed on. -/
theorem insertAll_cases (b : FixedBuffer size) (items : List LogItem) :
    (FitAll size b.data.length items ∧ ∃ b', b.insertAll items = .ok b' ∧
        b'.data = b.data ++ texts items) ∨
      ¬ FitAll size b.data.length items ∧ b.insertAll items = .error .errif := by
  induction items generalizing b with
  | nil => exact .inl ⟨trivial, b, rfl, (List.append_nil _).symm⟩
  | cons item items ih =>
      rcases b.insert_cases item with ⟨hfits, b₁, hfirst, hdata⟩ | ⟨hfull, hfirst⟩
      · have hlen : b₁.data.length = b.data.length + item.text.length := by
          rw [hdata, List.length_append]
        rcases ih b₁ with ⟨hrest, b', hok, hdata'⟩ | ⟨hfull, herr⟩
        · refine .inl ⟨⟨hfits, hlen ▸ hrest⟩, b', ?_, ?_⟩
          · rw [insertAll, hfirst]
            exact hok
          · rw [hdata', hdata, List.append_assoc]
            rfl
        · refine .inr ⟨fun h => hfull (hlen ▸ h.2), ?_⟩
          rw [insertAll, hfirst]
          exact herr
      · refine .inr ⟨fun h => hfull h.1, ?_⟩
        rw [insertAll, hfirst]
        rfl

end FixedBuffer

end CPlusServer

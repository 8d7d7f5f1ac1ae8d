import CPlusServer.Http.Chars
import CPlusServer.Log.AsyncLogging
import Mathlib.Tactic.IntervalCases

/-!
# LogStream

A record is put together in a buffer of `FIXEDBUFFERSIZE` bytes. `FormatInteger`
writes its characters behind `cur_`, least significant first, reverses them in
place and moves `cur_` over them. No operation of its loop leaves the range of
the type, so an integer is an `Int` here.
-/

namespace CPlusServer

def FIXEDBUFFERSIZE : Nat := 4096
def KMAXNUMERICSIZE : Int := 48

abbrev LogStream := FixedBuffer FIXEDBUFFERSIZE

/-- The types whose `operator<<` calls `FormatInteger`. -/
inductive IntegerType
  | int32 | uint32 | int64 | uint64
  deriving DecidableEq, Repr

def IntegerType.Holds : IntegerType → Int → Prop
  | .int32, value => -2 ^ 31 ≤ value ∧ value < 2 ^ 31
  | .uint32, value => 0 ≤ value ∧ value < 2 ^ 32
  | .int64, value => -2 ^ 63 ≤ value ∧ value < 2 ^ 63
  | .uint64, value => 0 ≤ value ∧ value < 2 ^ 64

def digit (value : Int) : UInt8 := UInt8.ofInt ((chr '0').toNat + value.tmod 10)

theorem natAbs_tdiv_ten (value : Int) : (value.tdiv 10).natAbs = value.natAbs / 10 :=
  Int.natAbs_tdiv value 10

/-- The `do` loop: the characters it writes, and what it leaves of `value`. -/
def digitLoop (value : Int) : Bytes × Int :=
  if value.tdiv 10 ≠ 0 then
    (digit value :: (digitLoop (value.tdiv 10)).1, (digitLoop (value.tdiv 10)).2)
  else ([digit value], value.tdiv 10)
termination_by value.natAbs
decreasing_by
  all_goals
    rename_i h
    have hne : (value.tdiv 10).natAbs ≠ 0 := mt Int.natAbs_eq_zero.1 h
    rw [natAbs_tdiv_ten] at hne ⊢
    omega

namespace FixedBuffer

variable {size : Nat}

def add (b : FixedBuffer size) (written : Bytes) : Except LogFault (FixedBuffer size) :=
  if h : (b.data ++ written).length ≤ size then .ok ⟨b.data ++ written, h⟩
  else .error .overflow

def formatInteger (b : FixedBuffer size) (value : Int) : Except LogFault (FixedBuffer size) :=
  if b.getSpace > KMAXNUMERICSIZE then
    let (chars, value) := digitLoop value
    -- the loop has ended, so `value` is no longer what was passed
    let chars := if value < 0 then chars ++ [chr '-'] else chars
    b.add chars.reverse
  else .error .errif

end FixedBuffer

/-! ## The digit loop -/

theorem digitLoop_step {value : Int} (h : value.tdiv 10 ≠ 0) :
    digitLoop value =
      (digit value :: (digitLoop (value.tdiv 10)).1, (digitLoop (value.tdiv 10)).2) := by
  rw [digitLoop, if_pos h]

theorem digitLoop_stop {value : Int} (h : value.tdiv 10 = 0) :
    digitLoop value = ([digit value], 0) := by
  rw [digitLoop, if_neg (not_not.2 h), h]

/-- The loop leaves zero, whatever the sign was. -/
theorem digitLoop_snd (value : Int) : (digitLoop value).2 = 0 := by
  induction value using digitLoop.induct with
  | case1 value h ih => rw [digitLoop_step h, ih]
  | case2 value h => rw [digitLoop_stop (not_not.1 h)]

theorem natAbs_lt_of_tdiv {value : Int} (h : value.tdiv 10 = 0) : value.natAbs < 10 := by
  have habs := congrArg Int.natAbs h
  rw [natAbs_tdiv_ten, Int.natAbs_zero] at habs
  omega

theorem le_natAbs_of_tdiv {value : Int} (h : value.tdiv 10 ≠ 0) : 10 ≤ value.natAbs := by
  have habs := mt Int.natAbs_eq_zero.1 h
  rw [natAbs_tdiv_ten] at habs
  omega

theorem length_digitLoop (value : Int) :
    (digitLoop value).1.length = (stdToString value.natAbs).length := by
  unfold stdToString
  rw [List.length_map]
  induction value using digitLoop.induct with
  | case1 value h ih =>
      rw [digitLoop_step h, Nat.toDigits_of_base_le (by decide) (le_natAbs_of_tdiv h),
        List.length_cons, ih, natAbs_tdiv_ten, List.length_append]
      rfl
  | case2 value h =>
      have hstop := not_not.1 h
      rw [digitLoop_stop hstop, Nat.toDigits_of_lt_base (natAbs_lt_of_tdiv hstop)]
      rfl

theorem digit_natCast (n : Nat) : digit n = chr (Nat.digitChar (n % 10)) := by
  have hmod : (n : Int).tmod 10 = (n % 10 : Nat) := rfl
  have hlt : n % 10 < 10 := Nat.mod_lt _ (by decide)
  unfold digit
  rw [hmod]
  interval_cases n % 10 <;> rfl

/-- The digits of a value that is not negative, in reverse. -/
theorem digitLoop_natCast (n : Nat) : (digitLoop n).1.reverse = stdToString n := by
  unfold stdToString
  induction n using Nat.strongRecOn with
  | ind n ih =>
      have hdiv : (n : Int).tdiv 10 = (n / 10 : Nat) := rfl
      by_cases h : n < 10
      · have hstop : (n : Int).tdiv 10 = 0 := by omega
        rw [digitLoop_stop hstop, digit_natCast, Nat.toDigits_of_lt_base h, Nat.mod_eq_of_lt h]
        rfl
      · have hstep : (n : Int).tdiv 10 ≠ 0 := by omega
        have hrest := ih (n / 10) (by omega)
        rw [digitLoop_step hstep, hdiv, List.reverse_cons, hrest, digit_natCast,
          Nat.toDigits_of_base_le (by decide) (Nat.le_of_not_lt h), List.map_append]
        rfl

/-! ## The formatted text -/

def decimalText (value : Int) : Bytes :=
  (if value < 0 then [chr '-'] else []) ++ stdToString value.natAbs

example : decimalText (-120) = ascii "-120" := by decide

/-- No value of the four types has more than 20 digits. -/
theorem length_stdToString_le {t : IntegerType} {value : Int} (h : t.Holds value) :
    (stdToString value.natAbs).length ≤ 20 := by
  unfold stdToString
  rw [List.length_map, Nat.length_toDigits_le_iff (by decide) (by decide)]
  cases t <;> unfold IntegerType.Holds at h <;> omega

namespace FixedBuffer

variable {size : Nat}

theorem add_of_fits {b : FixedBuffer size} {written : Bytes}
    (h : (b.data ++ written).length ≤ size) : b.add written = .ok ⟨b.data ++ written, h⟩ := by
  unfold add
  rw [dif_pos h]

/-- With enough room the reversed characters of the loop are appended, and no sign. -/
theorem formatInteger_data {t : IntegerType} {b : FixedBuffer size}
    (hspace : b.getSpace > KMAXNUMERICSIZE) {value : Int} (hv : t.Holds value) :
    ∃ b', b.formatInteger value = .ok b' ∧ b'.data = b.data ++ (digitLoop value).1.reverse := by
  have hlen := length_stdToString_le hv
  have hfits : (b.data ++ (digitLoop value).1.reverse).length ≤ size := by
    rw [List.length_append, List.length_reverse, length_digitLoop]
    unfold getSpace KMAXNUMERICSIZE at hspace
    omega
  refine ⟨⟨_, hfits⟩, ?_, rfl⟩
  unfold formatInteger
  rw [if_pos hspace]
  dsimp only
  rw [digitLoop_snd, if_neg (Int.lt_irrefl 0)]
  exact add_of_fits hfits

/-- The canonical text is appended, and it is no longer than the space there was. -/
def Formats (b : FixedBuffer size) (value : Int) : Prop :=
  ∃ b', b.formatInteger value = .ok b' ∧ b'.data = b.data ++ decimalText value ∧
    ((decimalText value).length : Int) ≤ b.getSpace

/-- **FormatInteger.** A value is formatted correctly exactly when it is not negative. -/
theorem formats_iff (t : IntegerType) (b : FixedBuffer size)
    (hspace : b.getSpace > KMAXNUMERICSIZE) {value : Int} (hv : t.Holds value) :
    b.Formats value ↔ 0 ≤ value := by
  obtain ⟨b', hformat, hdata⟩ := formatInteger_data hspace hv
  constructor
  · intro h
    obtain ⟨b'', hformat', hdata', -⟩ := h
    have hsame : b'' = b' := Except.ok.inj (hformat'.symm.trans hformat)
    rw [hsame, hdata] at hdata'
    have hlen := congrArg List.length (List.append_cancel_left hdata')
    rw [List.length_reverse, length_digitLoop, decimalText, List.length_append] at hlen
    by_contra hneg
    rw [if_pos (by omega)] at hlen
    simp at hlen
  · intro h
    obtain ⟨n, rfl⟩ := Int.eq_ofNat_of_zero_le h
    have htext : decimalText (n : Int) = stdToString n := by
      unfold decimalText
      rw [if_neg (by omega)]
      rfl
    have hlen := length_stdToString_le hv
    rw [Int.natAbs_natCast] at hlen
    refine ⟨b', hformat, ?_, ?_⟩
    · rw [hdata, digitLoop_natCast, htext]
    · rw [htext]
      unfold KMAXNUMERICSIZE at hspace
      omega

theorem formats_seven : Formats ({} : LogStream) 7 ↔ 0 ≤ (7 : Int) :=
  formats_iff .int32 {} (by decide) ⟨by decide, by decide⟩

/-- Minus one is written as the character before `0`, without a sign. -/
theorem not_formats_minus_one : IntegerType.int32.Holds (-1) ∧
    ({} : LogStream).getSpace > KMAXNUMERICSIZE ∧
      (∃ b', ({} : LogStream).formatInteger (-1) = .ok b' ∧ b'.data = ascii "/") ∧
        ¬ Formats ({} : LogStream) (-1) := by
  have hv : IntegerType.int32.Holds (-1) := ⟨by decide, by decide⟩
  have hspace : ({} : LogStream).getSpace > KMAXNUMERICSIZE := by decide
  have hchars : (digitLoop (-1)).1.reverse = ascii "/" := by
    rw [digitLoop_stop (by decide)]
    decide
  obtain ⟨b', hformat, hdata⟩ := formatInteger_data hspace hv
  have hnil : ({} : LogStream).data = [] := rfl
  rw [hchars, hnil, List.nil_append] at hdata
  refine ⟨hv, hspace, ⟨b', hformat, hdata⟩, ?_⟩
  intro h
  obtain ⟨b'', hformat', hdata', -⟩ := h
  have hsame : b'' = b' := Except.ok.inj (hformat'.symm.trans hformat)
  rw [hsame, hdata] at hdata'
  revert hdata'
  decide

end FixedBuffer

end CPlusServer

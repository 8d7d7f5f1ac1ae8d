import CPlusServer.Basic
import Mathlib.Data.List.TakeWhile

/-!
# The C character functions

The classification functions are those of `<cctype>` in the "C" locale, where no
byte above 127 belongs to a class, and `atoi` is `(int) strtol(s, nullptr, 10)`:
the value saturates at 64 bits and is then narrowed to 32.
-/

namespace CPlusServer

/-- A character constant of the source. -/
def chr (c : Char) : UInt8 := UInt8.ofNat c.toNat

/-- A string constant of the source, without its terminator. -/
def ascii (s : String) : Bytes := s.toList.map chr

theorem ascii_append (s t : String) : ascii (s ++ t) = ascii s ++ ascii t := by
  simp [ascii]

def CR : UInt8 := 13
def LF : UInt8 := 10
def NUL : UInt8 := 0

def isupper (ch : UInt8) : Bool := chr 'A' ≤ ch && ch ≤ chr 'Z'
def isalpha (ch : UInt8) : Bool := isupper ch || (chr 'a' ≤ ch && ch ≤ chr 'z')
def isdigit (ch : UInt8) : Bool := chr '0' ≤ ch && ch ≤ chr '9'
def isblank (ch : UInt8) : Bool := ch = chr ' ' || ch = 9
/-- Blank, line feed, vertical tab, form feed and carriage return. -/
def isspace (ch : UInt8) : Bool := isblank ch || (10 ≤ ch && ch ≤ 13)

/-- The bytes of a token in lower case. -/
def lower (s : Bytes) : Bytes := s.map fun ch => if isupper ch then ch + 32 else ch

theorem isblank_CR : isblank CR = false := by decide

theorem isblank_marks : isblank (chr '/') = false ∧ isblank (chr '?') = false ∧
    isblank (chr '&') = false ∧ isblank (chr ':') = false := by decide

theorem ne_of_isblank {ch c : UInt8} (h : isblank ch = true) (hc : isblank c = false) :
    ch ≠ c := by
  intro heq
  rw [heq, hc] at h
  cases h

theorem isalpha_of_isblank {ch : UInt8} (h : isblank ch = true) : isalpha ch = false := by
  simp only [isblank, Bool.or_eq_true, decide_eq_true_eq] at h
  rcases h with rfl | rfl <;> decide

theorem isspace_of_isdigit {ch : UInt8} (h : isdigit ch = true) : isspace ch = false := by
  have hlo : 48 ≤ ch := by
    simp only [isdigit, Bool.and_eq_true, decide_eq_true_eq] at h
    exact h.1
  have hge (b : UInt8) (hb : b < 48) : ch ≠ b := fun he => absurd (he ▸ hlo) (UInt8.not_le.2 hb)
  have hhi : ¬ ch ≤ 13 := fun hle => absurd (UInt8.le_trans hlo hle) (by decide)
  simp [isspace, isblank, hge (chr ' ') (by decide), hge 9 (by decide), hhi]

/-! ## Decimal numbers -/

def decimalFrom (acc : Nat) : Bytes → Nat
  | [] => acc
  | ch :: rest => decimalFrom (acc * 10 + (ch.toNat - (chr '0').toNat)) rest

def decimal (digits : Bytes) : Nat := decimalFrom 0 digits

/-- `strtol` base 10 without its end pointer: blanks, a sign, then the longest run of digits. -/
def strtol (s : Bytes) : Int :=
  match s.dropWhile isspace with
  | [] => 0
  | ch :: rest =>
      if ch = chr '-' then max (-(decimal (rest.takeWhile isdigit) : Int)) (-2 ^ 63)
      else if ch = chr '+' then min (decimal (rest.takeWhile isdigit)) (2 ^ 63 - 1)
      else min (decimal ((ch :: rest).takeWhile isdigit)) (2 ^ 63 - 1)

def atoi (s : Bytes) : Int := toInt (strtol s)

@[simp] theorem atoi_nil : atoi [] = 0 := by decide

theorem strtol_digits {s : Bytes} (hs : ∀ ch ∈ s, isdigit ch = true) :
    strtol s = min (decimal s : Int) (2 ^ 63 - 1) := by
  cases s with
  | nil => decide
  | cons ch rest =>
      have hd : isdigit ch = true := hs ch (by simp)
      have hminus : ch ≠ chr '-' := by rintro rfl; revert hd; decide
      have hplus : ch ≠ chr '+' := by rintro rfl; revert hd; decide
      have htake : (ch :: rest).takeWhile isdigit = ch :: rest :=
        List.takeWhile_eq_self_iff.2 hs
      simp only [strtol, List.dropWhile_cons, isspace_of_isdigit hd, Bool.false_eq_true,
        if_false, if_neg hminus, if_neg hplus, htake]

/-- A decimal number that fits an `int` is read back exactly. -/
theorem atoi_digits {s : Bytes} (hs : ∀ ch ∈ s, isdigit ch = true) (hb : decimal s < 2 ^ 31) :
    atoi s = decimal s := by
  rw [atoi, strtol_digits hs]
  have hmin : min (decimal s : Int) (2 ^ 63 - 1) = decimal s := by omega
  rw [hmin]
  exact toInt_of_inInt ⟨by omega, by omega⟩

/-- `std::to_string` of a number that is not negative. -/
def stdToString (n : Nat) : Bytes := (Nat.toDigits 10 n).map chr

theorem toNat_chr_of_isDigit {c : Char} (h : c.isDigit = true) : (chr c).toNat = c.toNat := by
  have hlt : c.toNat < 256 := by
    simp only [Char.isDigit, Bool.and_eq_true, decide_eq_true_eq] at h
    have hle : c.toNat ≤ 57 := h.2
    omega
  simp only [chr, UInt8.toNat_ofNat']
  exact Nat.mod_eq_of_lt hlt

theorem isdigit_of_mem_stdToString {n : Nat} {ch : UInt8} (h : ch ∈ stdToString n) :
    isdigit ch = true := by
  obtain ⟨c, hc, rfl⟩ := List.mem_map.1 h
  have hdigit := Nat.isDigit_of_mem_toDigits (by decide) (by decide) hc
  have hval := toNat_chr_of_isDigit hdigit
  simp only [Char.isDigit, Bool.and_eq_true, decide_eq_true_eq] at hdigit
  have hlo : 48 ≤ c.toNat := hdigit.1
  have hhi : c.toNat ≤ 57 := hdigit.2
  have hlow : chr '0' ≤ chr c := UInt8.le_iff_toNat_le.2 (by rw [hval]; exact hlo)
  have hhigh : chr c ≤ chr '9' := UInt8.le_iff_toNat_le.2 (by rw [hval]; exact hhi)
  simp [isdigit, hlow, hhigh]

theorem decimalFrom_cons (acc : Nat) (ch : UInt8) (rest : Bytes) :
    decimalFrom acc (ch :: rest) = decimalFrom (acc * 10 + (ch.toNat - (chr '0').toNat)) rest := by
  rfl

theorem decimalFrom_digits {cs : List Char} (h : ∀ c ∈ cs, c.isDigit = true) (acc : Nat) :
    decimalFrom acc (cs.map chr) = Nat.ofDigitChars 10 cs acc := by
  induction cs generalizing acc with
  | nil => exact Nat.ofDigitChars_nil.symm
  | cons c cs ih =>
      have hval := toNat_chr_of_isDigit (h c List.mem_cons_self)
      have hzero : (chr '0').toNat = '0'.toNat := by decide
      rw [List.map_cons, decimalFrom_cons, ih fun c hc => h c (List.mem_cons_of_mem _ hc),
        Nat.ofDigitChars_cons, hval, hzero, Nat.mul_comm]

theorem decimal_stdToString (n : Nat) : decimal (stdToString n) = n := by
  unfold decimal stdToString
  rw [decimalFrom_digits fun c hc => Nat.isDigit_of_mem_toDigits (by decide) (by decide) hc]
  exact Nat.ofDigitChars_ten_toDigits

end CPlusServer

import CPlusServer.Basic
import Mathlib.Tactic.SplitIfs

/-!
# Buffer

The vector with its two indices, as the source computes on them. A read or write
of bytes outside the vector is a fault, and so is an `int` operation whose result
is not an `int`. Against it stands the byte queue the class is for.
-/

namespace CPlusServer

def kPrependIndex : Int := 8

structure Buffer where
  buffer : Bytes := []
  readIndex : Int := kPrependIndex
  writeIndex : Int := kPrependIndex
  deriving DecidableEq

namespace Buffer

inductive Fault
  | overflow | outside | errif
  deriving DecidableEq, Repr

def checked (n : Int) : Except Fault Int := if InInt n then .ok n else .error .overflow

def slice (v : Bytes) (s e : Int) : Except Fault Bytes :=
  if s = e then .ok []
  else if 0 ≤ s ∧ s ≤ e ∧ e ≤ v.length then .ok ((v.drop s.toNat).take (e - s).toNat)
  else .error .outside

def poke (v : Bytes) (i : Int) (data : Bytes) : Except Fault Bytes :=
  if data = [] then .ok v
  else if 0 ≤ i ∧ i + data.length ≤ v.length then
    .ok (v.take i.toNat ++ data ++ v.drop (i.toNat + data.length))
  else .error .outside

def resize (v : Bytes) (n : Nat) : Bytes := v.take n ++ List.replicate (n - v.length) 0

def readableBytes (b : Buffer) : Int := b.writeIndex - b.readIndex
def writableBytes (b : Buffer) : Except Fault Int :=
  checked (toInt b.buffer.length - b.writeIndex)
def prepenableBytes (b : Buffer) : Int := b.readIndex

def ensureWritableBytes (b : Buffer) (len : Int) : Except Fault Buffer := do
  let writable ← b.writableBytes
  if writable < len then
    let room ← checked (writable + b.prepenableBytes)
    let need ← checked (len + kPrependIndex)
    if room < need then
      let size ← checked (b.writeIndex + len)
      return { b with buffer := resize b.buffer size.toNat }
    else
      let content ← slice b.buffer b.readIndex b.writeIndex
      let buffer ← poke b.buffer kPrependIndex content
      let b := { b with buffer := buffer, writeIndex := b.readIndex + b.readableBytes }
      return { b with readIndex := kPrependIndex }
  else return b

def append (b : Buffer) (data : Bytes) : Except Fault Buffer := do
  let b ← b.ensureWritableBytes (toInt data.length)
  let buffer ← poke b.buffer b.writeIndex data
  return { b with buffer := buffer, writeIndex := toInt (b.writeIndex + data.length) }

def peekAsString (b : Buffer) (len : Int) : Except Fault Bytes :=
  slice b.buffer b.readIndex (b.readIndex + len)
def peekAllString (b : Buffer) : Except Fault Bytes :=
  slice b.buffer b.readIndex b.writeIndex

def retreiveAll (b : Buffer) : Buffer :=
  { b with writeIndex := kPrependIndex, readIndex := kPrependIndex }

def retreive (b : Buffer) (len : Int) : Except Fault Buffer :=
  if len > b.readableBytes then .error .errif
  else if len < b.readableBytes then .ok { b with readIndex := b.readIndex + len }
  else .ok b.retreiveAll

def retreiveAsString (b : Buffer) (len : Int) : Except Fault (Buffer × Bytes) :=
  if len > b.readableBytes then .error .errif
  else do
    let result ← b.peekAsString len
    let b ← b.retreive len
    return (b, result)

def retreiveAllAsString (b : Buffer) : Except Fault (Buffer × Bytes) := do
  let result ← b.peekAllString
  return (b.retreiveAll, result)

/-- `end` is `BeginRead() + n`. -/
def retrieveUtil (b : Buffer) (n : Int) : Except Fault Buffer :=
  if b.writeIndex < b.readIndex + n then .error .errif
  else .ok { b with readIndex := b.readIndex + n }

def retrieveUtilAsString (b : Buffer) (n : Int) : Except Fault (Buffer × Bytes) :=
  if b.writeIndex < b.readIndex + n then .error .errif
  else do
    let ret ← b.peekAsString n
    let b ← b.retrieveUtil n
    return (b, ret)

/-! ## Operations and the queue -/

inductive Op
  | append (data : Bytes)
  | retreive (len : Int)
  | retreiveAsString (len : Int)
  | retreiveAll
  | retreiveAllAsString
  | retrieveUtil (n : Int)
  | retrieveUtilAsString (n : Int)

def exec (b : Buffer) : Op → Except Fault (Buffer × Bytes)
  | .append data => do return (← b.append data, [])
  | .retreive len => do return (← b.retreive len, [])
  | .retreiveAsString len => b.retreiveAsString len
  | .retreiveAll => .ok (b.retreiveAll, [])
  | .retreiveAllAsString => b.retreiveAllAsString
  | .retrieveUtil n => do return (← b.retrieveUtil n, [])
  | .retrieveUtilAsString n => b.retrieveUtilAsString n

def Op.queue (q : Bytes) : Op → Bytes × Bytes
  | .append data => (q ++ data, [])
  | .retreive len | .retrieveUtil len => (q.drop len.toNat, [])
  | .retreiveAsString len | .retrieveUtilAsString len => (q.drop len.toNat, q.take len.toNat)
  | .retreiveAll => ([], [])
  | .retreiveAllAsString => ([], q)

def Op.Allowed (q : Bytes) : Op → Prop
  | .retreive len | .retreiveAsString len | .retrieveUtil len | .retrieveUtilAsString len =>
      0 ≤ len ∧ len ≤ q.length
  | _ => True

def Op.size : Op → Nat
  | .append data => data.length
  | _ => 0

/-! ## The representation -/

/-- The buffer holds the queue between its indices. Before the first append the vector is empty
although both indices are 8. -/
structure Holds (b : Buffer) (q : Bytes) : Prop where
  read_ge : kPrependIndex ≤ b.readIndex
  write_eq : b.writeIndex = b.readIndex + q.length
  fits : b.writeIndex ≤ b.buffer.length ∨ b.buffer = [] ∧ b.readIndex = kPrependIndex ∧ q = []
  size_lt : (b.buffer.length : Int) < 2 ^ 31
  content : (b.buffer.drop b.readIndex.toNat).take q.length = q

theorem holds_fresh : Holds {} [] :=
  ⟨by decide, by decide, .inr ⟨rfl, rfl, rfl⟩, by decide, rfl⟩

theorem Holds.readable {b : Buffer} {q : Bytes} (h : Holds b q) :
    b.readableBytes = q.length := by
  unfold readableBytes
  rw [h.write_eq]
  omega

theorem Holds.slice {b : Buffer} {q : Bytes} (h : Holds b q) {n : Int} (h0 : 0 ≤ n)
    (hn : n ≤ q.length) : b.peekAsString n = .ok (q.take n.toNat) := by
  have hread := h.read_ge
  have hwrite := h.write_eq
  unfold kPrependIndex at hread
  unfold peekAsString Buffer.slice
  by_cases hz : n = 0
  · subst hz
    rw [if_pos (by omega)]
    rfl
  · have hin : b.writeIndex ≤ b.buffer.length := by
      rcases h.fits with hin | ⟨-, -, hq⟩
      · exact hin
      · subst hq
        simp at hn
        omega
    rw [if_neg (by omega), if_pos (by omega)]
    have hcount : (b.readIndex + n - b.readIndex).toNat = n.toNat := by omega
    have htake : q.take n.toNat = (b.buffer.drop b.readIndex.toNat).take n.toNat := by
      conv_lhs => rw [← h.content]
      rw [List.take_take, Nat.min_eq_left (by omega)]
    rw [hcount, htake]

theorem Holds.peekAllString {b : Buffer} {q : Bytes} (h : Holds b q) :
    b.peekAllString = .ok q := by
  have hall := h.slice (Int.natCast_nonneg q.length) (Int.le_refl _)
  unfold peekAsString at hall
  unfold Buffer.peekAllString
  rw [h.write_eq, hall, Int.toNat_natCast, List.take_length]

theorem Holds.retreiveAll {b : Buffer} {q : Bytes} (h : Holds b q) : Holds b.retreiveAll [] := by
  refine ⟨Int.le_refl _, by simp [Buffer.retreiveAll], ?_, h.size_lt, rfl⟩
  have hread := h.read_ge
  have hwrite := h.write_eq
  rcases h.fits with hin | ⟨hnil, -, -⟩
  · exact .inl (by simp only [Buffer.retreiveAll]; omega)
  · exact .inr ⟨hnil, rfl, rfl⟩

theorem Holds.advance {b : Buffer} {q : Bytes} (h : Holds b q) {n : Int} (h0 : 0 ≤ n)
    (hn : n ≤ q.length) : Holds { b with readIndex := b.readIndex + n } (q.drop n.toNat) := by
  have hread := h.read_ge
  have hwrite := h.write_eq
  unfold kPrependIndex at hread
  have hlen : (q.drop n.toNat).length = q.length - n.toNat := List.length_drop
  refine ⟨by simp only [kPrependIndex]; omega, by simp only; omega, ?_, h.size_lt, ?_⟩
  · rcases h.fits with hin | ⟨hnil, hr, hq⟩
    · exact .inl hin
    · subst hq
      have hz : n = 0 := by simp at hn; omega
      subst hz
      exact .inr ⟨hnil, by simpa using hr, rfl⟩
  · have hstart : (b.readIndex + n).toNat = b.readIndex.toNat + n.toNat := by omega
    conv_rhs => rw [← h.content]
    rw [hlen, hstart, ← List.drop_drop, List.drop_take]

theorem Holds.retreive {b : Buffer} {q : Bytes} (h : Holds b q) {n : Int} (h0 : 0 ≤ n)
    (hn : n ≤ q.length) : ∃ b', b.retreive n = .ok b' ∧ Holds b' (q.drop n.toNat) := by
  unfold Buffer.retreive
  rw [h.readable, if_neg (by omega)]
  by_cases hlt : n < q.length
  · rw [if_pos hlt]
    exact ⟨_, rfl, h.advance h0 hn⟩
  · rw [if_neg hlt, List.drop_eq_nil_of_le (by omega)]
    exact ⟨_, rfl, h.retreiveAll⟩

theorem Holds.retrieveUtil {b : Buffer} {q : Bytes} (h : Holds b q) {n : Int} (h0 : 0 ≤ n)
    (hn : n ≤ q.length) : ∃ b', b.retrieveUtil n = .ok b' ∧ Holds b' (q.drop n.toNat) := by
  have hwrite := h.write_eq
  unfold Buffer.retrieveUtil
  rw [if_neg (by omega)]
  exact ⟨_, rfl, h.advance h0 hn⟩

theorem Holds.exec_retrieve {b : Buffer} {q : Bytes} (h : Holds b q) {op : Op}
    (hop : ∀ data, op ≠ .append data) (ha : op.Allowed q) :
    ∃ b', b.exec op = .ok (b', (op.queue q).2) ∧ Holds b' (op.queue q).1 := by
  cases op with
  | append data => exact absurd rfl (hop data)
  | retreive len =>
      rcases h.retreive ha.1 ha.2 with ⟨b', hb, hh⟩
      exact ⟨b', by simp [exec, hb, bind, Except.bind, pure, Except.pure, Op.queue], hh⟩
  | retreiveAsString len =>
      rcases h.retreive ha.1 ha.2 with ⟨b', hb, hh⟩
      refine ⟨b', ?_, hh⟩
      simp only [exec, Buffer.retreiveAsString, h.readable, h.slice ha.1 ha.2, hb, bind,
        Except.bind, pure, Except.pure, Op.queue]
      rw [if_neg (by have := ha.2; omega)]
  | retreiveAll => exact ⟨_, rfl, h.retreiveAll⟩
  | retreiveAllAsString =>
      refine ⟨_, ?_, h.retreiveAll⟩
      simp [exec, Buffer.retreiveAllAsString, h.peekAllString, bind, Except.bind, pure,
        Except.pure, Op.queue]
  | retrieveUtil n =>
      obtain ⟨b', hb, hh⟩ := h.retrieveUtil ha.1 ha.2
      exact ⟨b', by simp [exec, hb, bind, Except.bind, pure, Except.pure, Op.queue], hh⟩
  | retrieveUtilAsString n =>
      rcases h.retrieveUtil ha.1 ha.2 with ⟨b', hb, hh⟩
      refine ⟨b', ?_, hh⟩
      have hwrite := h.write_eq
      simp only [exec, Buffer.retrieveUtilAsString, h.slice ha.1 ha.2, hb, bind, Except.bind, pure,
        Except.pure, Op.queue]
      rw [if_neg (by have := ha.2; omega)]

/-! ## Append -/

/-- The state in which `EnsureWritableBytes(len)` moves the content to the front. -/
def Compacts (b : Buffer) (len : Int) : Prop :=
  b.buffer.length - b.writeIndex < len ∧
    len + kPrependIndex ≤ b.buffer.length - b.writeIndex + b.readIndex

/-- An append finds room or makes it by growing, and its end is an `int`. -/
def Fits (b : Buffer) (data : Bytes) : Prop :=
  ¬ Compacts b data.length ∧ b.writeIndex + data.length < 2 ^ 31

theorem checked_of_inInt {n : Int} (h : InInt n) : checked n = .ok n := if_pos h

theorem Holds.writable {b : Buffer} {q : Bytes} (h : Holds b q) :
    b.writableBytes = .ok (b.buffer.length - b.writeIndex) := by
  have hread := h.read_ge
  have hwrite := h.write_eq
  have hsize := h.size_lt
  unfold kPrependIndex at hread
  unfold writableBytes
  rw [toInt_of_inInt ⟨by omega, hsize⟩]
  apply checked_of_inInt
  rcases h.fits with hin | ⟨hnil, hr, hq⟩
  · exact ⟨by omega, by omega⟩
  · subst hq
    rw [hr] at hwrite
    unfold kPrependIndex at hwrite
    simp only [List.length_nil] at hwrite
    exact ⟨by omega, by omega⟩

theorem Holds.resize {b : Buffer} {q : Bytes} (h : Holds b q) {n : Nat}
    (hn : b.writeIndex ≤ n) (hgrow : b.buffer.length ≤ n) (hlt : (n : Int) < 2 ^ 31) :
    Holds { b with buffer := Buffer.resize b.buffer n } q := by
  have hlen : (Buffer.resize b.buffer n).length = n := by
    simp only [Buffer.resize, List.length_append, List.length_take, List.length_replicate]
    omega
  have hread := h.read_ge
  have hwrite := h.write_eq
  unfold kPrependIndex at hread
  refine ⟨h.read_ge, h.write_eq, .inl (by rw [hlen]; exact hn), by rw [hlen]; exact hlt, ?_⟩
  rcases h.fits with hin | ⟨-, -, hq⟩
  · simp only [Buffer.resize]
    rw [List.take_of_length_le hgrow, List.drop_append_of_le_length (by omega),
      List.take_append_of_le_length (by rw [List.length_drop]; omega)]
    exact h.content
  · subst hq
    simp

theorem Holds.ensureWritable {b : Buffer} {q : Bytes} (h : Holds b q) {len : Int} (h0 : 0 ≤ len)
    (hc : ¬ Compacts b len) (hlt : b.writeIndex + len < 2 ^ 31) :
    ∃ b', b.ensureWritableBytes len = .ok b' ∧ Holds b' q ∧ b'.writeIndex = b.writeIndex ∧
      b'.writeIndex + len ≤ b'.buffer.length := by
  have hread := h.read_ge
  have hwrite := h.write_eq
  have hsize := h.size_lt
  unfold kPrependIndex at hread
  unfold Buffer.ensureWritableBytes
  rw [h.writable]
  simp only [bind, Except.bind, prepenableBytes, pure, Except.pure]
  by_cases hroom : (b.buffer.length : Int) - b.writeIndex < len
  · have hneed : b.buffer.length - b.writeIndex + b.readIndex < len + kPrependIndex := by
      by_contra hge
      exact hc ⟨hroom, not_lt.1 hge⟩
    unfold kPrependIndex at hneed ⊢
    have hlow : -(2 ^ 31 : Int) ≤ b.buffer.length - b.writeIndex + b.readIndex := by omega
    rw [if_pos hroom, checked_of_inInt ⟨hlow, by omega⟩, checked_of_inInt ⟨by omega, by omega⟩]
    dsimp only
    rw [if_pos hneed, checked_of_inInt ⟨by omega, hlt⟩]
    refine ⟨_, rfl, h.resize (by omega) (by omega) (by omega), rfl, ?_⟩
    simp only [Buffer.resize, List.length_append, List.length_take, List.length_replicate]
    omega
  · rw [if_neg hroom]
    exact ⟨b, rfl, h, rfl, by omega⟩

theorem Holds.poke {b : Buffer} {q : Bytes} (h : Holds b q) {data : Bytes}
    (hin : b.writeIndex + data.length ≤ b.buffer.length) :
    ∃ v, Buffer.poke b.buffer b.writeIndex data = .ok v ∧
      Holds { b with buffer := v, writeIndex := toInt (b.writeIndex + data.length) }
        (q ++ data) := by
  have hread := h.read_ge
  have hwrite := h.write_eq
  have hsize := h.size_lt
  unfold kPrependIndex at hread
  have hto : toInt (b.writeIndex + data.length) = b.writeIndex + data.length :=
    toInt_of_inInt ⟨by omega, by omega⟩
  rw [hto]
  unfold Buffer.poke
  by_cases hnil : data = []
  · subst hnil
    exact ⟨b.buffer, if_pos rfl, by simpa using h⟩
  · rw [if_neg hnil, if_pos (by omega)]
    have hlen : (b.buffer.take b.writeIndex.toNat ++ data ++
        b.buffer.drop (b.writeIndex.toNat + data.length)).length = b.buffer.length := by
      simp only [List.length_append, List.length_take, List.length_drop]
      omega
    refine ⟨_, rfl, h.read_ge, ?_, .inl ?_, ?_, ?_⟩
    · simp only [List.length_append]
      omega
    · simp only [hlen]
      exact hin
    · simp only [hlen]
      exact hsize
    · have hfront : (b.buffer.take b.writeIndex.toNat).drop b.readIndex.toNat = q := by
        have hcount : b.writeIndex.toNat - b.readIndex.toNat = q.length := by omega
        rw [List.drop_take, hcount]
        exact h.content
      simp only
      rw [List.append_assoc, List.drop_append_of_le_length (by
          rw [List.length_take]; omega), hfront, ← List.append_assoc,
        List.take_append_of_le_length (Nat.le_refl _), List.take_length]

theorem Holds.append {b : Buffer} {q : Bytes} (h : Holds b q) {data : Bytes}
    (hf : Fits b data) : ∃ b', b.append data = .ok b' ∧ Holds b' (q ++ data) := by
  have hread := h.read_ge
  have hwrite := h.write_eq
  unfold kPrependIndex at hread
  have hlt := hf.2
  obtain ⟨b₁, hensure, hh₁, hwrite₁, hin₁⟩ :=
    h.ensureWritable (Int.natCast_nonneg data.length) hf.1 hf.2
  rcases hh₁.poke hin₁ with ⟨v, hpoke, hh⟩
  refine ⟨_, ?_, hh⟩
  unfold Buffer.append
  rw [toInt_of_inInt ⟨by omega, by omega⟩, hensure]
  simp only [bind, Except.bind, hpoke, pure, Except.pure]

theorem length_poke {v v' data : Bytes} {i : Int} (h : Buffer.poke v i data = .ok v') :
    v'.length = v.length := by
  unfold Buffer.poke at h
  split_ifs at h with hnil hin
  · cases h
    rfl
  · cases h
    simp only [List.length_append, List.length_take, List.length_drop]
    omega

theorem checked_eq_ok {n m : Int} (h : checked n = .ok m) : InInt n ∧ m = n := by
  unfold checked at h
  split_ifs at h with hn
  exact ⟨hn, (Except.ok.inj h).symm⟩

/-- Moving the content to the front leaves the write index where it was: no room is made. -/
theorem Holds.ensure_no_room {b b' : Buffer} {q : Bytes} (h : Holds b q) {len : Int}
    (hroom : b.buffer.length - b.writeIndex < len)
    (hf : ¬ (¬ Compacts b len ∧ b.writeIndex + len < 2 ^ 31))
    (hensure : b.ensureWritableBytes len = .ok b') :
    b'.buffer.length = b.buffer.length ∧ b'.writeIndex = b.writeIndex := by
  obtain ⟨writable, hw, hensure⟩ := ok_of_bind_ok hensure
  obtain rfl : _ = writable := Except.ok.inj (h.writable.symm.trans hw)
  rw [if_pos hroom] at hensure
  rcases ok_of_bind_ok hensure with ⟨room, hr, hensure⟩
  rcases ok_of_bind_ok hensure with ⟨need, hn, hensure⟩
  obtain ⟨-, hroomeq⟩ := checked_eq_ok hr
  rcases checked_eq_ok hn with ⟨-, hneedeq⟩
  by_cases hc : room < need
  · rw [if_pos hc] at hensure
    rcases ok_of_bind_ok hensure with ⟨size, hsize, -⟩
    obtain ⟨hin, -⟩ := checked_eq_ok hsize
    refine absurd ⟨fun hcomp => ?_, hin.2⟩ hf
    have hgap := hcomp.2
    rw [hroomeq, hneedeq] at hc
    unfold prepenableBytes at hc
    omega
  · rw [if_neg hc] at hensure
    rcases ok_of_bind_ok hensure with ⟨content, -, hensure⟩
    rcases ok_of_bind_ok hensure with ⟨v, hp, hensure⟩
    cases hensure
    refine ⟨length_poke hp, ?_⟩
    simp only [readableBytes]
    omega

theorem Holds.fits_nil {b : Buffer} {q : Bytes} (h : Holds b q) : Fits b [] := by
  have hread := h.read_ge
  have hwrite := h.write_eq
  have hsize := h.size_lt
  unfold kPrependIndex at hread
  rcases h.fits with hin | ⟨hnil, hr, hq⟩
  · refine ⟨fun hc => ?_, ?_⟩
    · have hroom := hc.1
      simp only [List.length_nil] at hroom
      omega
    · simp only [List.length_nil]
      omega
  · subst hq
    unfold kPrependIndex at hr
    simp only [List.length_nil] at hwrite
    refine ⟨fun hc => ?_, ?_⟩
    · have hgap := hc.2
      rw [hnil] at hgap
      unfold kPrependIndex at hgap
      simp only [List.length_nil] at hgap
      omega
    · simp only [List.length_nil]
      omega

/-- An append that does not fit overflows an `int` or writes outside the vector. -/
theorem Holds.append_fault {b : Buffer} {q : Bytes} (h : Holds b q) {data : Bytes}
    (hsmall : (data.length : Int) < 2 ^ 31) (hf : ¬ Fits b data) (b' : Buffer) :
    b.append data ≠ .ok b' := by
  intro happend
  have hsize := h.size_lt
  have hroom : (b.buffer.length : Int) - b.writeIndex < data.length := by
    by_contra hge
    exact hf ⟨fun hc => hge hc.1, by omega⟩
  have hdata : data ≠ [] := by
    intro hnil
    subst hnil
    exact hf h.fits_nil
  obtain ⟨b₁, hensure, happend⟩ := ok_of_bind_ok happend
  rw [toInt_of_inInt ⟨by omega, hsmall⟩] at hensure
  rcases h.ensure_no_room hroom hf hensure with ⟨hlen, hwrite⟩
  rcases ok_of_bind_ok happend with ⟨v, hpoke, -⟩
  unfold Buffer.poke at hpoke
  rw [if_neg hdata, if_neg (by rw [hlen, hwrite]; omega)] at hpoke
  exact nomatch hpoke

/-! ## Whole runs -/

/-- Run on the buffer and on the queue, the operations give the same strings and, before the first
and after each, the same length and contents. -/
def BehavesAsQueue (b : Buffer) (q : Bytes) : List Op → Prop
  | [] => b.readableBytes = q.length ∧ b.peekAllString = .ok q
  | op :: ops => b.readableBytes = q.length ∧ b.peekAllString = .ok q ∧
      ∃ b', b.exec op = .ok (b', (op.queue q).2) ∧ BehavesAsQueue b' (op.queue q).1 ops

def AllowedRun (q : Bytes) : List Op → Prop
  | [] => True
  | op :: ops => op.Allowed q ∧ AllowedRun (op.queue q).1 ops

def FitsRun (b : Buffer) : List Op → Prop
  | [] => True
  | op :: ops => (∀ data, op = .append data → Fits b data) ∧
      ∀ b' out, b.exec op = .ok (b', out) → FitsRun b' ops

def totalSize (ops : List Op) : Nat := (ops.map Op.size).sum

/-- One step: an operation is the queue's exactly when its append, if it is one, fits. -/
theorem Holds.exec_iff {b : Buffer} {q : Bytes} (h : Holds b q) {op : Op} (ha : op.Allowed q)
    (hsmall : (op.size : Int) < 2 ^ 31) :
    (∃ b', b.exec op = .ok (b', (op.queue q).2) ∧ Holds b' (op.queue q).1) ∧
        (∀ data, op = .append data → Fits b data) ∨
      (∀ r, b.exec op ≠ .ok r) ∧ ¬ ∀ data, op = .append data → Fits b data := by
  by_cases hop : ∃ data, op = .append data
  · obtain ⟨data, rfl⟩ := hop
    by_cases hf : Fits b data
    · rcases h.append hf with ⟨b', hb, hh⟩
      refine .inl ⟨⟨b', ?_, hh⟩, fun d hd => by cases hd; exact hf⟩
      unfold exec
      dsimp only
      rw [hb]
      rfl
    · refine .inr ⟨fun r hr => ?_, fun hall => hf (hall data rfl)⟩
      rcases ok_of_bind_ok hr with ⟨b', hb, -⟩
      exact h.append_fault hsmall hf b' hb
  · have hne : ∀ data, op ≠ .append data := fun data heq => hop ⟨data, heq⟩
    exact .inl ⟨h.exec_retrieve hne ha, fun data heq => absurd heq (hne data)⟩

theorem Holds.behavesAsQueue_iff {b : Buffer} {q : Bytes} (h : Holds b q) {ops : List Op}
    (ha : AllowedRun q ops) (hsmall : totalSize ops < 2 ^ 31) :
    BehavesAsQueue b q ops ↔ FitsRun b ops := by
  induction ops generalizing b q with
  | nil => simp [BehavesAsQueue, FitsRun, h.readable, h.peekAllString]
  | cons op ops ih =>
      have hsum : totalSize (op :: ops) = op.size + totalSize ops := by simp [totalSize]
      have hop : (op.size : Int) < 2 ^ 31 := by omega
      rcases h.exec_iff ha.1 hop with ⟨⟨b', hb, hh⟩, hfits⟩ | ⟨hfault, hnot⟩
      · have hrest := ih hh ha.2 (by omega)
        constructor
        · intro hrun
          obtain ⟨-, -, b'', hb'', hrun⟩ := hrun
          refine ⟨hfits, fun b₁ out hb₁ => ?_⟩
          rw [hb, Except.ok.injEq, Prod.mk.injEq] at hb'' hb₁
          rcases hb'' with ⟨rfl, -⟩
          rcases hb₁ with ⟨rfl, -⟩
          exact hrest.1 hrun
        · intro hrun
          exact ⟨h.readable, h.peekAllString, b', hb, hrest.2 (hrun.2 b' _ hb)⟩
      · constructor
        · intro hrun
          obtain ⟨-, -, b'', hb'', -⟩ := hrun
          exact absurd hb'' (hfault _)
        · intro hrun
          exact absurd hrun.1 hnot

/-- **Buffer.** A fresh buffer is a FIFO byte queue over a run exactly when no append of the run
moves the content to the front or ends beyond the range of `int`. -/
theorem fresh_behavesAsQueue_iff (ops : List Op) (ha : AllowedRun [] ops)
    (hsmall : totalSize ops < 2 ^ 31) :
    BehavesAsQueue {} [] ops ↔ FitsRun {} ops :=
  holds_fresh.behavesAsQueue_iff ha hsmall

theorem fresh_behavesAsQueue_sample :
    BehavesAsQueue {} [] [.append ([97, 98]), .retreiveAsString 1] ↔
      FitsRun {} [.append ([97, 98]), .retreiveAsString 1] :=
  fresh_behavesAsQueue_iff _ ⟨trivial, ⟨by decide, by decide⟩, trivial⟩ (by decide)

/-- Twenty bytes in, eighteen out, ten in: there is room at the front, and the last append writes
behind the vector. -/
def compactingRun : List Op :=
  [.append (List.replicate 20 1), .retreive 18, .append (List.replicate 10 2)]

theorem not_behavesAsQueue_compactingRun :
    AllowedRun [] compactingRun ∧ totalSize compactingRun < 2 ^ 31 ∧
      ¬ BehavesAsQueue {} [] compactingRun := by
  refine ⟨⟨trivial, ⟨by decide, by decide⟩, trivial, trivial⟩, by decide, ?_⟩
  intro h
  rcases h with ⟨-, -, b₁, h₁, -, -, b₂, h₂, -, -, b₃, h₃, -⟩
  have hfault : ((((({} : Buffer).exec (.append (List.replicate 20 1))).bind fun r =>
      r.1.exec (.retreive 18)).bind fun r => r.1.exec (.append (List.replicate 10 2))).map
        Prod.fst).toOption = none := by decide
  simp only [h₁, Except.bind, h₂, h₃] at hfault
  exact nomatch hfault

end Buffer

end CPlusServer

import Mathlib.Data.Vector.Basic
import Mathlib.Tactic.Ring
import Mathlib.Tactic.Linarith

/-!
# Byte strings, fixed-width blocks and big-endian integers

A byte string is a list of bytes. A block carries its width in its type, so a
field of a record can never hold the wrong number of bytes. Reading a block
from an offset is total: past the end it is padded, and the callers that know
the bytes are there use `readBlock_append` and `readBlock_toList`.

An integer is written most significant byte first at a given width. Writing
keeps the low bytes only, so a cast that truncates is the same function.
-/

namespace ByteString

abbrev Block (n : ℕ) := List.Vector UInt8 n

def slice (bs : List UInt8) (a b : ℕ) : List UInt8 := (bs.drop a).take (b - a)

theorem slice_length {bs : List UInt8} {a b : ℕ} (hb : b ≤ bs.length) :
    (slice bs a b).length = b - a := by
  simp only [slice, List.length_take, List.length_drop]
  omega

theorem slice_append_slice {bs : List UInt8} {a b c : ℕ} (hab : a ≤ b) (hbc : b ≤ c) :
    slice bs a b ++ slice bs b c = slice bs a c := by
  have hd : bs.drop b = (bs.drop a).drop (b - a) := by
    rw [List.drop_drop]
    congr 1
    omega
  have hc : c - a = (b - a) + (c - b) := by omega
  simp only [slice]
  rw [hd, hc, List.take_add]

theorem slice_zero (bs : List UInt8) (b : ℕ) : slice bs 0 b = bs.take b := rfl

theorem slice_take {bs : List UInt8} {a b n : ℕ} (h : b ≤ n) :
    slice (bs.take n) a b = slice bs a b := by
  rw [slice, slice, List.drop_take, List.take_take, min_eq_left (by omega)]

theorem slice_eq_cons {bs : List UInt8} {a b : ℕ} (hab : a < b) (hb : b ≤ bs.length) :
    slice bs a b = bs.getD a 0 :: slice bs (a + 1) b := by
  have ha : a < bs.length := by omega
  have hn : b - a = (b - (a + 1)) + 1 := by omega
  simp only [slice]
  rw [List.drop_eq_getElem_cons ha, hn, List.take_succ_cons]
  simp [List.getD, ha]

theorem slice_append_right {xs ys : List UInt8} {a b : ℕ} :
    slice (xs ++ ys) (xs.length + a) (xs.length + b) = slice ys a b := by
  have hz : xs.length + b - (xs.length + a) = b - a := by omega
  have hd : (xs ++ ys).drop (xs.length + a) = ys.drop a := by
    rw [← List.drop_drop, List.drop_left]
  rw [slice, slice, hz, hd]

theorem slice_middle {xs ys zs : List UInt8} {a b : ℕ} (ha : xs.length = a)
    (hb : a + ys.length = b) : slice (xs ++ (ys ++ zs)) a b = ys := by
  subst ha hb
  have hright : slice (xs ++ (ys ++ zs)) (xs.length + 0) (xs.length + ys.length) =
      slice (ys ++ zs) 0 ys.length := slice_append_right
  rw [Nat.add_zero] at hright
  rw [hright, slice_zero, List.take_left]

theorem slice_split {bs xs ys : List UInt8} {a e : ℕ} (hae : a ≤ e) (he : e ≤ bs.length)
    (h : slice bs a e = xs ++ ys) :
    a + xs.length ≤ e ∧ slice bs a (a + xs.length) = xs ∧ slice bs (a + xs.length) e = ys := by
  have hlen := congrArg List.length h
  rw [slice_length he, List.length_append] at hlen
  have hmid : a + xs.length ≤ e := by omega
  rw [← slice_append_slice (Nat.le_add_right a xs.length) hmid] at h
  have hl : (slice bs a (a + xs.length)).length = xs.length := by
    rw [slice_length (by omega)]
    omega
  obtain ⟨h₁, h₂⟩ := List.append_inj h hl
  exact ⟨hmid, h₁, h₂⟩

theorem slice_split_at {bs xs ys : List UInt8} {a m e : ℕ} (hm : a + xs.length = m) (hae : a ≤ e)
    (he : e ≤ bs.length) (h : slice bs a e = xs ++ ys) : slice bs a m = xs ∧ slice bs m e = ys := by
  subst hm
  exact (slice_split hae he h).2

def readBlock (n : ℕ) (bs : List UInt8) (offset : ℕ) : Block n :=
  ⟨(bs.drop offset).takeD n 0, List.takeD_length _ _ _⟩

theorem takeD_eq_take {n : ℕ} {bs : List UInt8} (h : n ≤ bs.length) :
    bs.takeD n 0 = bs.take n := by
  induction n generalizing bs with
  | zero => simp
  | succ n ih =>
    cases bs with
    | nil => simp at h
    | cons b bs =>
      simp only [List.length_cons, Nat.add_le_add_iff_right] at h
      simp [ih h]

theorem readBlock_toList {n : ℕ} {bs : List UInt8} {offset : ℕ} (h : offset + n ≤ bs.length) :
    (readBlock n bs offset).toList = slice bs offset (offset + n) := by
  have hn : n ≤ (bs.drop offset).length := by
    simp only [List.length_drop]
    omega
  change (bs.drop offset).takeD n 0 = _
  rw [takeD_eq_take hn]
  simp [slice]

theorem readBlock_append {n offset : ℕ} {pre : List UInt8} (hpre : pre.length = offset)
    (b : Block n) (post : List UInt8) : readBlock n (pre ++ (b.toList ++ post)) offset = b := by
  apply List.Vector.eq
  have hb : b.toList.length = n := b.toList_length
  rw [readBlock_toList (by simp only [List.length_append]; omega)]
  have h0 : slice (pre ++ (b.toList ++ post)) offset (offset + n) =
      slice (b.toList ++ post) 0 n := by
    rw [← hpre]
    exact slice_append_right (a := 0)
  rw [h0, slice_zero, List.take_left' hb]

def block? (n : ℕ) (bs : List UInt8) : Option (Block n) :=
  if h : bs.length = n then some ⟨bs, h⟩ else none

theorem block?_eq_some {n : ℕ} {bs : List UInt8} {b : Block n} :
    block? n bs = some b ↔ bs = b.toList := by
  unfold block?
  constructor
  · intro h
    split_ifs at h with hl
    rw [← Option.some.inj h]
    rfl
  · intro h
    subst h
    rw [dif_pos b.toList_length]
    rfl

theorem block?_toList {n : ℕ} (b : Block n) : block? n b.toList = some b := block?_eq_some.mpr rfl

def toBe : ℕ → ℕ → List UInt8
  | 0, _ => []
  | w + 1, v => UInt8.ofNat (v / 256 ^ w) :: toBe w v

def ofBe : List UInt8 → ℕ
  | [] => 0
  | b :: bs => b.toNat * 256 ^ bs.length + ofBe bs

theorem toBe_length (w v : ℕ) : (toBe w v).length = w := by
  induction w with
  | zero => rfl
  | succ w ih => simp [toBe, ih]

theorem ofBe_lt (bs : List UInt8) : ofBe bs < 256 ^ bs.length := by
  induction bs with
  | nil => simp [ofBe]
  | cons b bs ih =>
    have hb : b.toNat ≤ 255 := Nat.le_of_lt_succ b.toNat_lt
    simp only [ofBe, List.length_cons, pow_succ]
    nlinarith

theorem ofBe_toBe (w v : ℕ) : ofBe (toBe w v) = v % 256 ^ w := by
  induction w with
  | zero => simp [toBe, ofBe, Nat.mod_one]
  | succ w ih =>
    have hb : (UInt8.ofNat (v / 256 ^ w)).toNat = v / 256 ^ w % 256 := by simp
    simp only [toBe, ofBe, ih, toBe_length, hb]
    rw [Nat.pow_succ, Nat.mod_mul]
    ring

theorem ofBe_toBe_of_lt {w v : ℕ} (h : v < 256 ^ w) : ofBe (toBe w v) = v := by
  rw [ofBe_toBe, Nat.mod_eq_of_lt h]

theorem toBe_injective {w v v' : ℕ} (hv : v < 256 ^ w) (hv' : v' < 256 ^ w)
    (h : toBe w v = toBe w v') : v = v' := by
  rw [← ofBe_toBe_of_lt hv, h, ofBe_toBe_of_lt hv']

theorem toBe_congr {w v v' : ℕ} (h : v % 256 ^ w = v' % 256 ^ w) : toBe w v = toBe w v' := by
  induction w with
  | zero => rfl
  | succ w ih =>
    have hlow : v % 256 ^ w = v' % 256 ^ w := by
      have hdvd : 256 ^ w ∣ 256 ^ (w + 1) := pow_dvd_pow 256 (Nat.le_succ w)
      rw [← Nat.mod_mod_of_dvd v hdvd, h, Nat.mod_mod_of_dvd v' hdvd]
    have hhead : v / 256 ^ w % 256 = v' / 256 ^ w % 256 := by
      rw [← Nat.mod_mul_right_div_self, ← Nat.mod_mul_right_div_self, ← Nat.pow_succ, h]
    have hbyte : UInt8.ofNat (v / 256 ^ w) = UInt8.ofNat (v' / 256 ^ w) := by
      apply UInt8.toNat_inj.mp
      simpa using hhead
    simp only [toBe, ih hlow, hbyte]

theorem toBe_ofBe (bs : List UInt8) : toBe bs.length (ofBe bs) = bs := by
  induction bs with
  | nil => rfl
  | cons b bs ih =>
    have hlt := ofBe_lt bs
    have hpos : 0 < 256 ^ bs.length := by positivity
    have hdiv : (b.toNat * 256 ^ bs.length + ofBe bs) / 256 ^ bs.length = b.toNat := by
      rw [Nat.mul_comm, Nat.mul_add_div hpos, Nat.div_eq_of_lt hlt, Nat.add_zero]
    have hmod : (b.toNat * 256 ^ bs.length + ofBe bs) % 256 ^ bs.length =
        ofBe bs % 256 ^ bs.length := by
      rw [Nat.mul_comm, Nat.mul_add_mod]
    simp only [List.length_cons, toBe, ofBe, hdiv, toBe_congr hmod, ih]
    simp

theorem toBe_ofBe_of_length {w : ℕ} {bs : List UInt8} (h : bs.length = w) :
    toBe w (ofBe bs) = bs := by
  subst h
  exact toBe_ofBe bs

def readChunks (n : ℕ) : ℕ → List UInt8 → List (Block n)
  | 0, _ => []
  | count + 1, bs => readBlock n bs 0 :: readChunks n count (bs.drop n)

def asChunks (n : ℕ) (bs : List UInt8) : List (Block n) := readChunks n (bs.length / n) bs

theorem readChunks_length (n count : ℕ) (bs : List UInt8) :
    (readChunks n count bs).length = count := by
  induction count generalizing bs with
  | zero => rfl
  | succ count ih => simp [readChunks, ih]

theorem flatMap_readChunks {n count : ℕ} {bs : List UInt8} (h : bs.length = count * n) :
    (readChunks n count bs).flatMap List.Vector.toList = bs := by
  induction count generalizing bs with
  | zero =>
    have hnil : bs = [] := by simpa using h
    simp [readChunks, hnil]
  | succ count ih =>
    rw [Nat.succ_mul] at h
    have htail : (bs.drop n).length = count * n := by
      simp only [List.length_drop]
      omega
    rw [readChunks, List.flatMap_cons, ih htail, readBlock_toList (by omega), Nat.zero_add,
      slice_zero, List.take_append_drop]

theorem flatMap_toList_length {n : ℕ} (blocks : List (Block n)) :
    (blocks.flatMap List.Vector.toList).length = blocks.length * n := by
  induction blocks with
  | nil => simp
  | cons b blocks ih =>
    simp only [List.flatMap_cons, List.length_append, List.Vector.toList_length, ih,
      List.length_cons]
    ring

theorem readChunks_flatMap {n : ℕ} (blocks : List (Block n)) :
    readChunks n blocks.length (blocks.flatMap List.Vector.toList) = blocks := by
  induction blocks with
  | nil => rfl
  | cons b blocks ih =>
    have hhead : readBlock n (b.toList ++ blocks.flatMap List.Vector.toList) 0 = b :=
      @readBlock_append _ 0 [] rfl b _
    have htail : (b.toList ++ blocks.flatMap List.Vector.toList).drop n =
        blocks.flatMap List.Vector.toList :=
      List.drop_left' b.toList_length
    simp only [List.length_cons, readChunks, List.flatMap_cons, hhead, htail, ih]

theorem flatMap_asChunks {n count : ℕ} (hn : 0 < n) {bs : List UInt8} (h : bs.length = count * n) :
    (asChunks n bs).flatMap List.Vector.toList = bs := by
  have hc : bs.length / n = count := by rw [h, Nat.mul_div_cancel _ hn]
  rw [asChunks, hc]
  exact flatMap_readChunks h

theorem asChunks_flatMap {n : ℕ} (hn : 0 < n) (blocks : List (Block n)) :
    asChunks n (blocks.flatMap List.Vector.toList) = blocks := by
  rw [asChunks, flatMap_toList_length, Nat.mul_div_cancel _ hn]
  exact readChunks_flatMap blocks

theorem utf8_injective {s t : String} (h : s.toUTF8.data.toList = t.toUTF8.data.toList) : s = t :=
  String.toByteArray_inj.mp (ByteArray.ext (Array.toList_inj.mp h))

end ByteString

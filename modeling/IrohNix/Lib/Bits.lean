import Mathlib.Algebra.GroupWithZero.Nat
import Mathlib.Data.List.Induction

namespace IrohNix.Lib

/-- The bits of a byte string, from the lowest of its first byte on. -/
def bitAt (bytes : List UInt8) (p : Nat) : Bool := (bytes.getD (p / 8) 0).toNat.testBit (p % 8)

theorem testBit_byte (b : UInt8) {i : Nat} (hi : 8 ≤ i) : b.toNat.testBit i = false :=
  Nat.testBit_lt_two_pow (Nat.lt_of_lt_of_le b.toNat_lt (Nat.pow_le_pow_right (by omega) hi))

theorem bitAt_replicate (n p : Nat) : bitAt (List.replicate n 0) p = false := by
  have zero : (List.replicate n (0 : UInt8)).getD (p / 8) 0 = 0 := by
    simp only [List.getD_eq_getElem?_getD, List.getElem?_replicate]
    split <;> rfl
  rw [bitAt, zero]
  exact Nat.zero_testBit _

/-- Byte strings of one length are equal if all their bits are. -/
theorem ext_bits {a b : List UInt8} (hlen : a.length = b.length)
    (h : ∀ p < 8 * a.length, bitAt a p = bitAt b p) : a = b := by
  apply List.ext_getElem hlen
  intro i ha hb
  apply UInt8.toNat_inj.mp
  apply Nat.eq_of_testBit_eq
  intro j
  by_cases hj : j < 8
  · have hbit := h (8 * i + j) (by omega)
    have hbyte : (8 * i + j) / 8 = i := by omega
    have hplace : (8 * i + j) % 8 = j := by omega
    simpa [bitAt, hbyte, hplace, ha, hb] using hbit
  · rw [testBit_byte _ (by omega), testBit_byte _ (by omega)]

theorem testBit_shiftRight (b : UInt8) {s : Nat} (hs : s < 8) (i : Nat) :
    (b >>> UInt8.ofNat s).toNat.testBit i = b.toNat.testBit (s + i) := by
  have hmod : s % 256 % 8 = s := by omega
  rw [UInt8.toNat_shiftRight, UInt8.toNat_ofNat', hmod, Nat.testBit_shiftRight]

theorem testBit_shiftLeft (b : UInt8) {s : Nat} (hs : s < 8) (i : Nat) :
    (b <<< UInt8.ofNat s).toNat.testBit i =
      (decide (i < 8) && decide (s ≤ i) && b.toNat.testBit (i - s)) := by
  have hmod : s % 256 % 8 = s := by omega
  rw [UInt8.toNat_shiftLeft, UInt8.toNat_ofNat', hmod, Nat.testBit_mod_two_pow,
    Nat.testBit_shiftLeft, Bool.and_assoc]

/-- The five bits of a byte string from a bit on, out of one byte or of two. -/
def fiveBits (bytes : List UInt8) (start : Nat) : UInt8 :=
  let byteIdx := start / 8
  let bitIdx := start % 8
  let c := (bytes.getD byteIdx 0 >>> .ofNat bitIdx) &&& 0x1f
  if bitIdx > 3 && byteIdx + 1 < bytes.length then
    c ||| ((bytes.getD (byteIdx + 1) 0 <<< .ofNat (8 - bitIdx)) &&& 0x1f)
  else c

theorem testBit_low_five (b : UInt8) (i : Nat) :
    (b &&& 0x1f).toNat.testBit i = (b.toNat.testBit i && decide (i < 5)) := by
  rw [UInt8.toNat_and, Nat.testBit_and, show (0x1f : UInt8).toNat = 2 ^ 5 - 1 from rfl,
    Nat.testBit_two_pow_sub_one]

theorem testBit_fiveBits (bytes : List UInt8) (start i : Nat) :
    (fiveBits bytes start).toNat.testBit i = (decide (i < 5) && bitAt bytes (start + i)) := by
  by_cases hi : i < 5
  · have low : ((bytes.getD (start / 8) 0 >>> UInt8.ofNat (start % 8)) &&& 0x1f).toNat.testBit i =
        (bytes.getD (start / 8) 0).toNat.testBit (start % 8 + i) := by
      rw [testBit_low_five, testBit_shiftRight _ (by omega)]
      simp [hi]
    by_cases hone : start % 8 + i < 8
    · -- the bit is in the first byte, and the next one is shifted past it
      have hbyte : (start + i) / 8 = start / 8 := by omega
      have hplace : (start + i) % 8 = start % 8 + i := by omega
      have hpast : ¬ 8 - start % 8 ≤ i := by omega
      unfold fiveBits
      simp only
      split
      · rename_i hspills
        rw [UInt8.toNat_or, Nat.testBit_or, low, testBit_low_five,
          testBit_shiftLeft _ (by simp at hspills; omega)]
        simp [bitAt, hbyte, hplace, hpast, hi]
      · rw [low]
        simp [bitAt, hbyte, hplace, hi]
    · have hbyte : (start + i) / 8 = start / 8 + 1 := by omega
      have hplace : (start + i) % 8 = i - (8 - start % 8) := by omega
      have hpast : 8 - start % 8 ≤ i := by omega
      have hlast : i < 8 := by omega
      unfold fiveBits
      simp only
      split
      · rename_i hspills
        rw [UInt8.toNat_or, Nat.testBit_or, low, testBit_low_five,
          testBit_shiftLeft _ (by omega), testBit_byte _ (by omega)]
        simp [bitAt, hbyte, hplace, hpast, hi, hlast]
      · rename_i hend
        have hnone : bytes.length ≤ start / 8 + 1 := by simp at hend; omega
        rw [low, testBit_byte _ (by omega)]
        simp [bitAt, hbyte, hnone]
  · have high : ∀ b : UInt8, (b &&& 0x1f).toNat.testBit i = false := by
      intro b
      rw [testBit_low_five]
      simp [hi]
    unfold fiveBits
    simp only
    split <;> simp only [UInt8.toNat_or, Nat.testBit_or, high, hi, decide_false, Bool.false_and,
      Bool.or_false]

theorem fiveBits_lt (bytes : List UInt8) (start : Nat) : (fiveBits bytes start).toNat < 2 ^ 5 := by
  apply Nat.lt_pow_two_of_testBit
  intro i hi
  rw [testBit_fiveBits]
  simp [Nat.not_lt.mpr hi]

theorem testBit_past_five {d : UInt8} (hd : d.toNat < 2 ^ 5) {i : Nat} (hi : 5 ≤ i) :
    d.toNat.testBit i = false :=
  Nat.testBit_lt_two_pow (Nat.lt_of_lt_of_le hd (Nat.pow_le_pow_right (by omega) hi))

/-- A number of five bits is put into a byte string, from a bit on: into one byte, and
where it does not end there also into the next. -/
def orFiveBits (bytes : List UInt8) (start : Nat) (digit : UInt8) : List UInt8 :=
  let byteIdx := start / 8
  let bitIdx := start % 8
  let low := bytes.modify byteIdx (· ||| digit <<< .ofNat bitIdx)
  if bitIdx > 3 then low.modify (byteIdx + 1) (· ||| digit >>> .ofNat (8 - bitIdx)) else low

@[simp] theorem orFiveBits_length (bytes : List UInt8) (start : Nat) (digit : UInt8) :
    (orFiveBits bytes start digit).length = bytes.length := by
  unfold orFiveBits
  simp only
  split <;> simp

theorem bitAt_modify (bytes : List UInt8) (k : Nat) (b : UInt8) {p : Nat}
    (hp : p < 8 * bytes.length) :
    bitAt (bytes.modify k (· ||| b)) p =
      (bitAt bytes p || decide (p / 8 = k) && b.toNat.testBit (p % 8)) := by
  have hbyte : p / 8 < bytes.length := by omega
  simp only [bitAt, List.getD_eq_getElem?_getD, List.getElem?_modify,
    List.getElem?_eq_getElem hbyte, Option.getD_some]
  by_cases hk : k = p / 8
  · simp [hk, Nat.testBit_or]
  · simp [hk, Ne.symm hk]

/-- The bits that are put in are added to those that were there. -/
theorem bitAt_orFiveBits (bytes : List UInt8) (start : Nat) {digit : UInt8}
    (hd : digit.toNat < 2 ^ 5) {p : Nat} (hp : p < 8 * bytes.length) :
    bitAt (orFiveBits bytes start digit) p =
      (bitAt bytes p || decide (start ≤ p) && digit.toNat.testBit (p - start)) := by
  have high : ∀ i, 5 ≤ i → digit.toNat.testBit i = false := fun i hi => testBit_past_five hd hi
  have first : (decide (p / 8 = start / 8) &&
      (digit <<< UInt8.ofNat (start % 8)).toNat.testBit (p % 8)) =
      (decide (p / 8 = start / 8) && (decide (start ≤ p) && digit.toNat.testBit (p - start))) := by
    by_cases hbyte : p / 8 = start / 8
    · have hplace : p % 8 - start % 8 = p - start := by omega
      have horder : start % 8 ≤ p % 8 ↔ start ≤ p := by omega
      have hlast : p % 8 < 8 := by omega
      rw [testBit_shiftLeft digit (by omega), hplace]
      simp [hbyte, horder, hlast]
    · simp [hbyte]
  unfold orFiveBits
  simp only
  split
  · rename_i hspills
    rw [bitAt_modify _ _ _ (by simpa using hp), bitAt_modify _ _ _ hp, first, Bool.or_assoc,
      testBit_shiftRight digit (by omega)]
    congr 1
    by_cases hbyte : p / 8 = start / 8
    · simp [hbyte]
    · by_cases hnext : p / 8 = start / 8 + 1
      · have hplace : 8 - start % 8 + p % 8 = p - start := by omega
        have horder : start ≤ p := by omega
        simp [hnext, hplace, horder]
      · -- the byte is neither, so the bit is before the five or after them
        have hfar : start ≤ p → 5 ≤ p - start := by omega
        by_cases horder : start ≤ p
        · simp [hbyte, hnext, high _ (hfar horder)]
        · simp [hbyte, hnext, horder]
  · rename_i hfits
    rw [bitAt_modify _ _ _ hp, first]
    by_cases hbyte : p / 8 = start / 8
    · simp [hbyte]
    · have hfar : start ≤ p → 5 ≤ p - start := by omega
      by_cases horder : start ≤ p
      · simp [hbyte, high _ (hfar horder)]
      · simp [hbyte, horder]

/-- Numbers of five bits one after the other, from the lowest bit of the first byte on. -/
def packFive (out digits : List UInt8) : List UInt8 :=
  digits.zipIdx.foldl (fun out d => orFiveBits out (d.2 * 5) d.1) out

/-- A bit of such numbers, counted through all of them. -/
def fiveBitAt (digits : List UInt8) (p : Nat) : Bool :=
  (digits.getD (p / 5) 0).toNat.testBit (p % 5)

theorem packFive_snoc (out digits : List UInt8) (digit : UInt8) :
    packFive out (digits ++ [digit]) =
      orFiveBits (packFive out digits) (digits.length * 5) digit := by
  simp [packFive, List.zipIdx_append]

@[simp] theorem packFive_length (out digits : List UInt8) :
    (packFive out digits).length = out.length := by
  induction digits using List.reverseRecOn with
  | nil => rfl
  | append_singleton digits digit ih => rw [packFive_snoc, orFiveBits_length, ih]

theorem orFiveBits_zero (bytes : List UInt8) (start : Nat) : orFiveBits bytes start 0 = bytes := by
  have unchanged : ∀ (bytes : List UInt8) (i : Nat), bytes.modify i (fun b => b) = bytes :=
    fun bytes i => List.modify_id i bytes
  simp [orFiveBits, unchanged]

theorem packFive_zeros (out : List UInt8) (n : Nat) : packFive out (List.replicate n 0) = out := by
  induction n with
  | zero => rfl
  | succ n ih => rw [List.replicate_succ', packFive_snoc, ih, orFiveBits_zero]

theorem fiveBitAt_snoc {digits : List UInt8} {digit : UInt8} (hd : digit.toNat < 2 ^ 5) (p : Nat) :
    fiveBitAt (digits ++ [digit]) p = (fiveBitAt digits p ||
      decide (digits.length * 5 ≤ p) && digit.toNat.testBit (p - digits.length * 5)) := by
  unfold fiveBitAt
  rw [List.getD_eq_getElem?_getD, List.getD_eq_getElem?_getD]
  by_cases hbefore : p / 5 < digits.length
  · have horder : ¬ digits.length * 5 ≤ p := by omega
    simp [List.getElem?_append_left hbefore, horder]
  · rw [List.getElem?_eq_none (Nat.not_lt.mp hbefore),
      List.getElem?_append_right (Nat.not_lt.mp hbefore)]
    have horder : digits.length * 5 ≤ p := by omega
    by_cases hat : p / 5 = digits.length
    · have hplace : p % 5 = p - digits.length * 5 := by omega
      simp [hat, hplace, horder]
    · have hpast : p / 5 - digits.length ≠ 0 := by omega
      have hfar := testBit_past_five hd (i := p - digits.length * 5) (by omega)
      simp [hpast, hfar]

/-- Each bit is that of one number, and bits past the last byte are dropped. -/
theorem bitAt_packFive {digits : List UInt8} (hd : ∀ d ∈ digits, d.toNat < 2 ^ 5)
    (out : List UInt8) {p : Nat} (hp : p < 8 * out.length) :
    bitAt (packFive out digits) p = (bitAt out p || fiveBitAt digits p) := by
  induction digits using List.reverseRecOn with
  | nil => simp [packFive, fiveBitAt]
  | append_singleton digits digit ih =>
    have hlast : digit.toNat < 2 ^ 5 := hd digit (by simp)
    have hbits := ih fun d h => hd d (by simp [h])
    rw [packFive_snoc, bitAt_orFiveBits _ _ hlast (by simpa using hp), hbits,
      fiveBitAt_snoc hlast, Bool.or_assoc]

/-- A number is read back, but for its bits past the last byte. -/
theorem fiveBits_packFive {digits : List UInt8} (hd : ∀ d ∈ digits, d.toNat < 2 ^ 5) (len n : Nat) :
    (fiveBits (packFive (List.replicate len 0) digits) (n * 5)).toNat =
      (digits.getD n 0).toNat % 2 ^ (8 * len - n * 5) := by
  have hdigit : (digits.getD n 0).toNat < 2 ^ 5 := by
    rw [List.getD_eq_getElem?_getD]
    by_cases hn : n < digits.length
    · simpa [List.getElem?_eq_getElem hn] using hd _ (List.getElem_mem hn)
    · simp [List.getElem?_eq_none (Nat.not_lt.mp hn)]
  apply Nat.eq_of_testBit_eq
  intro i
  rw [testBit_fiveBits, Nat.testBit_mod_two_pow]
  by_cases hi : i < 5
  · by_cases hp : n * 5 + i < 8 * len
    · have hbyte : (n * 5 + i) / 5 = n := by omega
      have hplace : (n * 5 + i) % 5 = i := by omega
      have hwithin : i < 8 * len - n * 5 := by omega
      rw [bitAt_packFive hd _ (by simpa using hp), bitAt_replicate, fiveBitAt, hbyte, hplace]
      simp [hi, hwithin]
    · have hpast : ¬ i < 8 * len - n * 5 := by omega
      have hnone : (packFive (List.replicate len 0) digits).length ≤ (n * 5 + i) / 8 := by
        rw [packFive_length, List.length_replicate]
        omega
      rw [bitAt, List.getD_eq_getElem?_getD, List.getElem?_eq_none hnone]
      simp [hpast]
  · rw [testBit_past_five hdigit (Nat.not_lt.mp hi)]
    simp [hi]

/-- A byte string is made up of its bits, five at a time. -/
theorem packFive_fiveBits (bytes : List UInt8) {n : Nat} (hn : 8 * bytes.length ≤ n * 5) :
    packFive (List.replicate bytes.length 0)
      ((List.range n).map fun k => fiveBits bytes (k * 5)) = bytes := by
  have hd : ∀ d ∈ (List.range n).map fun k => fiveBits bytes (k * 5), d.toNat < 2 ^ 5 := by
    intro d hmem
    obtain ⟨k, _, rfl⟩ := List.mem_map.mp hmem
    exact fiveBits_lt bytes (k * 5)
  apply ext_bits (by simp)
  intro p hp
  rw [packFive_length, List.length_replicate] at hp
  have hk : p / 5 < n := by omega
  have hplace : p / 5 * 5 + p % 5 = p := by omega
  rw [bitAt_packFive hd _ (by simpa using hp), bitAt_replicate, fiveBitAt,
    List.getD_eq_getElem?_getD, List.getElem?_map, List.getElem?_range hk]
  simp [testBit_fiveBits, hplace, Nat.mod_lt]

end IrohNix.Lib

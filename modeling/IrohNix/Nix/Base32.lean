import IrohNix.Lib.Bits
import IrohNix.Lib.Collect
import IrohNix.Lib.Effects
import IrohNix.Nix.PathInfo

namespace IrohNix
open IrohNix.Lib

namespace Nix

def base32Char (c : UInt8) : Char := Char.ofNat (nix32Alphabet.getD c.toNat 0).toNat

end Nix

/-- Nix base32: the last five bits of the hash first. -/
def Sha256Hash.toNixBase32 (hash : Sha256Hash) : String :=
  String.ofList ((List.range 52).reverse.map fun n =>
    Nix.base32Char (fiveBits hash.bytes.toList (n * 5)))

namespace Nix

def base32Digit (c : Char) : Except Error UInt8 :=
  let invalid := .error (.httpCache ("invalid base32 char: " ++ String.ofList [c]))
  if c.toNat ≥ 128 then invalid
  else match nix32Alphabet.findIdx? (fun a => a.toNat = c.toNat) with
    | some digit => .ok (.ofNat digit)
    | none => invalid

/-- Each digit is as far from the front as characters are left. -/
def placeDigits : List Char → Bytes → Except Error Bytes
  | [], out => .ok out
  | c :: rest, out => do
    let digit ← base32Digit c
    placeDigits rest (orFiveBits out (rest.length * 5) digit)

def decodeNixBase32 (s : String) : Except Error Bytes :=
  placeDigits s.toList (List.replicate (s.toList.length * 5 / 8) 0)

theorem nix32Alphabet_eq : nix32Alphabet =
    [48, 49, 50, 51, 52, 53, 54, 55, 56, 57, 97, 98, 99, 100, 102, 103, 104, 105, 106, 107, 108,
      109, 110, 112, 113, 114, 115, 118, 119, 120, 121, 122] := by
  decide +kernel

theorem nix32Alphabet_length : nix32Alphabet.length = 2 ^ 5 := by
  rw [nix32Alphabet_eq]
  rfl

theorem nix32Alphabet_nodup : nix32Alphabet.Nodup := by
  rw [nix32Alphabet_eq]
  decide +kernel

theorem nix32Alphabet_ascii : ∀ a ∈ nix32Alphabet, 32 < a.toNat ∧ a.toNat < 128 := by
  rw [nix32Alphabet_eq]
  decide +kernel

theorem digit_byte {d : UInt8} (hd : d.toNat < 2 ^ 5) :
    nix32Alphabet[d.toNat]? = some (nix32Alphabet.getD d.toNat 0) := by
  have inside : d.toNat < nix32Alphabet.length := nix32Alphabet_length ▸ hd
  rw [List.getD_eq_getElem?_getD, List.getElem?_eq_getElem inside, Option.getD_some]

theorem base32Char_zero : base32Char 0 = '0' := by
  rw [base32Char, nix32Alphabet_eq]
  rfl

theorem base32Char_one : base32Char 1 = '1' := by
  rw [base32Char, nix32Alphabet_eq]
  rfl

/-- A digit is written by the byte the alphabet has for it. -/
theorem base32Char_toNat (d : UInt8) :
    (base32Char d).toNat = (nix32Alphabet.getD d.toNat 0).toNat :=
  toNat_charOfByte _

theorem written_iff {d : UInt8} {c : Char} : d.toNat < 2 ^ 5 ∧ base32Char d = c ↔
    ∃ a, nix32Alphabet[d.toNat]? = some a ∧ a.toNat = c.toNat := by
  constructor
  · intro h
    obtain ⟨hd, rfl⟩ := h
    exact ⟨_, digit_byte hd, (base32Char_toNat d).symm⟩
  · intro h
    obtain ⟨a, ha, hc⟩ := h
    have inside := (List.getElem?_eq_some_iff.mp ha).1
    refine ⟨nix32Alphabet_length ▸ inside, ?_⟩
    rw [base32Char, List.getD_eq_getElem?_getD, ha, Option.getD_some, hc, Char.ofNat_toNat]

theorem base32Char_ascii {d : UInt8} (hd : d.toNat < 2 ^ 5) :
    32 < (base32Char d).toNat ∧ (base32Char d).toNat < 128 := by
  rw [base32Char_toNat]
  exact nix32Alphabet_ascii _ (List.mem_of_getElem? (digit_byte hd))

/-- The digits of a hash, those of its lowest bits first. -/
def hashDigits (hash : Sha256Hash) : List UInt8 :=
  (List.range 52).map fun n => fiveBits hash.bytes.toList (n * 5)

theorem hashDigits_lt (hash : Sha256Hash) : ∀ d ∈ hashDigits hash, d.toNat < 2 ^ 5 := by
  intro d hmem
  obtain ⟨n, _, rfl⟩ := List.mem_map.mp hmem
  exact fiveBits_lt _ _

theorem toNixBase32_digits (hash : Sha256Hash) :
    hash.toNixBase32.toList = (hashDigits hash).reverse.map base32Char := by
  rw [Sha256Hash.toNixBase32, String.toList_ofList, hashDigits, ← List.map_reverse, List.map_map]
  rfl

theorem toNixBase32_ascii (hash : Sha256Hash) {c : Char} (hc : c ∈ hash.toNixBase32.toList) :
    32 < c.toNat ∧ c.toNat < 128 := by
  rw [toNixBase32_digits] at hc
  obtain ⟨d, hd, rfl⟩ := List.mem_map.mp hc
  exact base32Char_ascii (hashDigits_lt hash d (List.mem_reverse.mp hd))

theorem toNixBase32_size (hash : Sha256Hash) : hash.toNixBase32.utf8ByteSize = 52 := by
  have sizes : ∀ c ∈ hash.toNixBase32.toList, c.utf8Size = 1 := fun c hc =>
    utf8Size_ascii.mpr (toNixBase32_ascii hash hc).2
  rw [← String.ofList_toList (s := hash.toNixBase32), utf8ByteSize_ofList sizes,
    toNixBase32_digits]
  simp [hashDigits]

/-- A character is read as a digit exactly if it is how that digit is written. -/
theorem base32Digit_ok {c : Char} {d : UInt8} :
    base32Digit c = .ok d ↔ d.toNat < 2 ^ 5 ∧ base32Char d = c := by
  have found : ∀ n, nix32Alphabet.findIdx? (fun a => a.toNat = c.toNat) = some n ↔
      ∃ a, nix32Alphabet[n]? = some a ∧ a.toNat = c.toNat := by
    intro n
    have only : ∀ a b : UInt8, decide (a.toNat = c.toNat) = true →
        decide (b.toNat = c.toNat) = true → a = b := by
      intro a b ha hb
      exact UInt8.toNat_inj.mp ((of_decide_eq_true ha).trans (of_decide_eq_true hb).symm)
    simpa using findIdx_unique nix32Alphabet_nodup only
  rw [written_iff, ← found, base32Digit]
  by_cases hc : c.toNat ≥ 128
  · refine iff_of_false (by simp [if_pos hc]) fun h => ?_
    obtain ⟨a, ha, same⟩ := (found _).mp h
    have := (nix32Alphabet_ascii a (List.mem_of_getElem? ha)).2
    omega
  · simp only [if_neg hc]
    cases h : nix32Alphabet.findIdx? (fun a => a.toNat = c.toNat) with
    | none => simp
    | some n =>
      obtain ⟨a, ha, _⟩ := (found n).mp h
      have hn : n < 2 ^ 5 := nix32Alphabet_length ▸ (List.getElem?_eq_some_iff.mp ha).1
      simp only [Except.ok.injEq, Option.some.injEq, ← UInt8.toNat_inj, UInt8.toNat_ofNat']
      omega

/-- Digits can be put into place in any order. -/
theorem packFive_orFiveBits {digits : List UInt8} (hd : ∀ d ∈ digits, d.toNat < 2 ^ 5)
    {digit : UInt8} (hlast : digit.toNat < 2 ^ 5) (out : Bytes) :
    packFive (orFiveBits out (digits.length * 5) digit) digits =
      packFive out (digits ++ [digit]) := by
  have all := List.forall_mem_append.mpr ⟨hd, List.forall_mem_singleton.mpr hlast⟩
  apply ext_bits (by simp)
  intro p hp
  have hp' : p < 8 * out.length := by simpa using hp
  rw [bitAt_packFive hd _ (by simpa using hp), bitAt_orFiveBits _ _ hlast hp',
    bitAt_packFive all _ hp', fiveBitAt_snoc hlast, Bool.or_assoc, Bool.or_comm (fiveBitAt _ _)]

/-- What is put into place are the digits that are written, the last one first. -/
theorem placeDigits_ok {chars : List Char} {out result : Bytes} :
    placeDigits chars out = .ok result ↔ ∃ digits : List UInt8, (∀ d ∈ digits, d.toNat < 2 ^ 5) ∧
      chars = digits.reverse.map base32Char ∧ result = packFive out digits := by
  induction chars generalizing out with
  | nil =>
    constructor
    · intro h
      cases h
      exact ⟨[], by simp, rfl, rfl⟩
    · intro h
      obtain ⟨digits, _, written, rfl⟩ := h
      have none_written : digits = [] := by simpa using written.symm
      rw [none_written]
      rfl
  | cons c rest ih =>
    rw [placeDigits, except_bind_ok]
    simp only [base32Digit_ok, ih]
    constructor
    · intro h
      obtain ⟨digit, ⟨hdigit, rfl⟩, digits, hd, rfl, rfl⟩ := h
      refine ⟨digits ++ [digit], ?_, by simp, ?_⟩
      · exact List.forall_mem_append.mpr ⟨hd, List.forall_mem_singleton.mpr hdigit⟩
      · rw [List.length_map, List.length_reverse, packFive_orFiveBits hd hdigit]
    · intro h
      obtain ⟨digits, hd, written, rfl⟩ := h
      cases digits using List.reverseRecOn with
      | nil => cases written
      | append_singleton digits' digit =>
        simp only [List.reverse_append, List.reverse_singleton, List.singleton_append,
          List.map_cons, List.cons.injEq] at written
        obtain ⟨rfl, rfl⟩ := written
        have hdigit : digit.toNat < 2 ^ 5 := hd digit (by simp)
        have hd' : ∀ d ∈ digits', d.toNat < 2 ^ 5 := fun d hmem => hd d (by simp [hmem])
        refine ⟨digit, ⟨hdigit, rfl⟩, digits', hd', rfl, ?_⟩
        rw [List.length_map, List.length_reverse, packFive_orFiveBits hd' hdigit]

/-- What a text decodes to are the digits it is written with. -/
theorem decodeNixBase32_ok {s : String} {bytes : Bytes} :
    decodeNixBase32 s = .ok bytes ↔ ∃ digits : List UInt8, (∀ d ∈ digits, d.toNat < 2 ^ 5) ∧
      s.toList = digits.reverse.map base32Char ∧
      bytes = packFive (List.replicate (s.toList.length * 5 / 8) 0) digits :=
  placeDigits_ok

theorem packFive_hashDigits (hash : Sha256Hash) :
    packFive (List.replicate 32 0) (hashDigits hash) = hash.bytes.toList := by
  have packed := packFive_fiveBits hash.bytes.toList (n := 52) (by simp)
  rwa [Vector.length_toList] at packed

/-- A hash written in base32 is read back. -/
theorem decode_toNixBase32 (hash : Sha256Hash) :
    decodeNixBase32 hash.toNixBase32 = .ok hash.bytes.toList := by
  have written := toNixBase32_digits hash
  refine decodeNixBase32_ok.mpr ⟨hashDigits hash, hashDigits_lt hash, written, ?_⟩
  rw [written, List.length_map, List.length_reverse, hashDigits, List.length_map,
    List.length_range]
  exact (packFive_hashDigits hash).symm

end Nix

end IrohNix

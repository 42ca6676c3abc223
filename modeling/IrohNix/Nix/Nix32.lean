import IrohNix.Nix.Base32
import Mathlib.Algebra.BigOperators.Group.List.Basic

namespace IrohNix.Nix
open IrohNix.Lib

/-- Adding bits to a byte in place. -/
theorem set_getD (bytes : Bytes) (i : Nat) (b : UInt8) :
    bytes.set i (bytes.getD i 0 ||| b) = bytes.modify i (· ||| b) := by
  rw [List.modify_eq_set_getElem?, List.getD_eq_getElem?_getD]
  by_cases hi : i < bytes.length
  · simp [List.getElem?_eq_getElem hi]
  · simp [List.getElem?_eq_none (Nat.not_lt.mp hi), List.set_eq_of_length_le (Nat.not_lt.mp hi)]

theorem placed_toList (result : Bytes32) (i : Nat) (b : UInt8) :
    (result.setIfInBounds i (result.getD i 0 ||| b)).toList =
      result.toList.modify i (· ||| b) := by
  have value : result.getD i 0 = result.toList.getD i 0 := by simp [Vector.getD]
  rw [Vector.toList_setIfInBounds, value, set_getD]

theorem ofNat_shiftLeft {d s : Nat} (hd : d < 2 ^ 5) (hs : s < 8) :
    UInt8.ofNat (d <<< s) = UInt8.ofNat d <<< UInt8.ofNat s := by
  apply UInt8.toNat_inj.mp
  have small : d % 2 ^ 8 = d := Nat.mod_eq_of_lt (by omega)
  have shift : s % 2 ^ 8 % 8 = s := by omega
  rw [UInt8.toNat_ofNat', UInt8.toNat_shiftLeft, UInt8.toNat_ofNat', UInt8.toNat_ofNat', small,
    shift]

theorem ofNat_shiftRight {d s : Nat} (hd : d < 2 ^ 5) (hs : s < 8) :
    UInt8.ofNat (d >>> s) = UInt8.ofNat d >>> UInt8.ofNat s := by
  apply UInt8.toNat_inj.mp
  have small : d % 2 ^ 8 = d := Nat.mod_eq_of_lt (by omega)
  have shift : s % 2 ^ 8 % 8 = s := by omega
  have fewer : d >>> s % 2 ^ 8 = d >>> s :=
    Nat.mod_eq_of_lt (Nat.lt_of_le_of_lt (Nat.shiftRight_le d s) (by omega))
  rw [UInt8.toNat_ofNat', UInt8.toNat_shiftRight, UInt8.toNat_ofNat', UInt8.toNat_ofNat', small,
    shift, fewer]

/-- The other decoder places a digit the same way. -/
theorem placeDigit_toList (result : Bytes32) (i : Nat) {digit : Nat} (hd : digit < 2 ^ 5) :
    (placeDigit result i digit).toList = orFiveBits result.toList (i * 5) (.ofNat digit) := by
  unfold placeDigit orFiveBits
  simp only [ofNat_shiftLeft hd (Nat.mod_lt (i * 5) (by decide : 8 > 0))]
  split
  · rename_i spills
    rw [ofNat_shiftRight hd (by omega), placed_toList, placed_toList]
  · rw [placed_toList]

theorem placeDigit_foldl (digits : List Nat) (hd : ∀ d ∈ digits, d < 2 ^ 5) (result : Bytes32) :
    (digits.zipIdx.foldl (fun result d => placeDigit result d.2 d.1) result).toList =
      packFive result.toList (digits.map .ofNat) := by
  induction digits using List.reverseRecOn with
  | nil => rfl
  | append_singleton digits digit ih =>
    rw [List.zipIdx_append, List.foldl_append, List.map_append, List.map_singleton, packFive_snoc,
      ← ih fun d h => hd d (by simp [h])]
    simp only [List.zipIdx_singleton, List.foldl_cons, List.foldl_nil, List.length_map,
      Nat.zero_add]
    exact placeDigit_toList _ _ (hd digit (by simp))

/-- A character by its lowest byte, of which a text's own characters have no more. -/
def lowByte (c : Char) : UInt8 := .ofNat c.toNat

theorem lowByte_base32Char (d : UInt8) : lowByte (base32Char d) = nix32Alphabet.getD d.toNat 0 := by
  rw [lowByte, base32Char_toNat, UInt8.ofNat_toNat]

/-- A character is read as the digit whose lowest byte it has. -/
theorem nix32Digit_ok {c : Char} {n : Nat} :
    nix32Digit c = .ok n ↔ n < 2 ^ 5 ∧ lowByte (base32Char (.ofNat n)) = lowByte c := by
  have lookup : nix32Digit c = .ok n ↔
      nix32Alphabet.findIdx? (· == lowByte c) = some n := by
    rw [nix32Digit, lowByte]
    cases nix32Alphabet.findIdx? (· == UInt8.ofNat c.toNat) <;> simp
  have only : ∀ a b : UInt8, (a == lowByte c) = true → (b == lowByte c) = true → a = b := by
    intro a b ha hb
    exact (beq_iff_eq.mp ha).trans (beq_iff_eq.mp hb).symm
  rw [lookup, findIdx_unique nix32Alphabet_nodup only, lowByte_base32Char]
  simp only [beq_iff_eq, exists_eq_right]
  constructor
  · intro h
    have hn : n < 2 ^ 5 := nix32Alphabet_length ▸ (List.getElem?_eq_some_iff.mp h).1
    rw [UInt8.toNat_ofNat', Nat.mod_eq_of_lt (by omega), List.getD_eq_getElem?_getD, h]
    exact ⟨hn, rfl⟩
  · intro h
    obtain ⟨hn, same⟩ := h
    have small : (UInt8.ofNat n).toNat = n := by
      rw [UInt8.toNat_ofNat']
      omega
    have byte := digit_byte (d := .ofNat n) (by omega)
    rwa [same, small] at byte

theorem nix32Digits_ok {chars : List Char} {ns : List Nat} :
    chars.mapM nix32Digit = .ok ns ↔ (∀ n ∈ ns, n < 2 ^ 5) ∧
      chars.map lowByte = ns.map fun n => lowByte (base32Char (.ofNat n)) := by
  rw [mapM_eq_ok]
  induction chars generalizing ns with
  | nil => cases ns <;> simp
  | cons c chars ih =>
    cases ns with
    | nil => simp
    | cons n ns =>
      simp only [List.map_cons, List.cons.injEq, nix32Digit_ok, ih, List.forall_mem_cons]
      constructor
      · intro h
        obtain ⟨⟨hn, same⟩, hns, rest⟩ := h
        exact ⟨⟨hn, hns⟩, same.symm, rest⟩
      · intro h
        obtain ⟨⟨hn, hns⟩, same, rest⟩ := h
        exact ⟨⟨hn, same.symm⟩, hns, rest⟩

theorem zeroBytes32_toList : zeroBytes32.toList = List.replicate 32 0 := rfl

/-- What a text decodes to are the digits its characters have the lowest bytes of. -/
theorem decodeNix32_ok {s : String} {bytes : Bytes32} :
    decodeNix32 s = .ok bytes ↔ s.utf8ByteSize = 52 ∧
      ∃ digits : List UInt8, (∀ d ∈ digits, d.toNat < 2 ^ 5) ∧
        s.toList.map lowByte = (digits.reverse.map base32Char).map lowByte ∧
        bytes.toList = packFive (List.replicate 32 0) digits := by
  unfold decodeNix32
  by_cases size : s.utf8ByteSize = 52
  · simp only [size, ne_eq, not_true_eq_false, if_false, true_and]
    refine except_bind_ok.trans ?_
    simp only [nix32Digits_ok, pure, Except.pure, Except.ok.injEq]
    constructor
    · intro h
      obtain ⟨ns, ⟨hns, low⟩, rfl⟩ := h
      refine ⟨ns.map .ofNat, ?_, ?_, ?_⟩
      · intro d hd
        obtain ⟨n, hn, rfl⟩ := List.mem_map.mp hd
        have := hns n hn
        rw [UInt8.toNat_ofNat']
        omega
      · have reversed := congrArg List.reverse low
        simpa [List.map_reverse, Function.comp_def] using reversed
      · rw [placeDigit_foldl ns hns, zeroBytes32_toList]
    · intro h
      obtain ⟨digits, hd, low, packed⟩ := h
      have lt : ∀ n ∈ digits.map UInt8.toNat, n < 2 ^ 5 := by
        intro n hn
        obtain ⟨d, hmem, rfl⟩ := List.mem_map.mp hn
        exact hd d hmem
      refine ⟨digits.map UInt8.toNat, ⟨lt, ?_⟩, ?_⟩
      · have reversed := congrArg List.reverse low
        simpa [List.map_reverse, Function.comp_def] using reversed
      · apply Vector.toList_inj.mp
        rw [placeDigit_foldl _ lt, zeroBytes32_toList, packed, List.map_map]
        simp [Function.comp_def]
  · rw [if_pos size]
    constructor
    · intro h
      cases h
    · intro h
      exact absurd h.1 size

/-- A hash written in base32 is read back by this decoder too. -/
theorem decodeNix32_toNixBase32 (hash : Sha256Hash) :
    decodeNix32 hash.toNixBase32 = .ok hash.bytes := by
  refine decodeNix32_ok.mpr ⟨toNixBase32_size hash, hashDigits hash, hashDigits_lt hash, ?_, ?_⟩
  · rw [toNixBase32_digits]
  · exact (packFive_hashDigits hash).symm

/-- Every character is in ASCII. -/
def Ascii (chars : List Char) : Prop := ∀ c ∈ chars, c.toNat < 128

theorem ascii_digits {digits : List UInt8} (hd : ∀ d ∈ digits, d.toNat < 2 ^ 5) :
    Ascii (digits.reverse.map base32Char) := by
  intro c hc
  obtain ⟨d, hmem, rfl⟩ := List.mem_map.mp hc
  exact (base32Char_ascii (hd d (List.mem_reverse.mp hmem))).2

/-- A text in ASCII is told by its lowest bytes. -/
theorem Ascii.of_lowBytes {chars : List Char} (h : Ascii chars) :
    (chars.map lowByte).map (fun b => Char.ofNat b.toNat) = chars := by
  rw [List.map_map]
  refine (List.map_congr_left fun c hc => ?_).trans (List.map_id chars)
  have small := h c hc
  have whole : (lowByte c).toNat = c.toNat := by
    rw [lowByte, UInt8.toNat_ofNat']
    omega
  simp only [Function.comp_apply, whole, Char.ofNat_toNat, id_eq]

theorem map_lowByte_inj {xs ys : List Char} (hx : Ascii xs) (hy : Ascii ys) :
    xs.map lowByte = ys.map lowByte ↔ xs = ys := by
  constructor
  · intro h
    rw [← hx.of_lowBytes, h, hy.of_lowBytes]
  · intro h
    rw [h]

/-- A text has as many bytes as characters exactly if it is in ASCII. -/
theorem ascii_iff_size (s : String) : Ascii s.toList ↔ s.utf8ByteSize = s.toList.length := by
  have size : s.utf8ByteSize = (s.toList.map Char.utf8Size).sum := by
    have length : s.utf8ByteSize = (utf8 (String.ofList s.toList)).length := by
      rw [String.ofList_toList]
      rfl
    rw [length, utf8_ofList, List.length_flatMap]
    exact congrArg List.sum (List.map_congr_left fun c _ => String.length_utf8EncodeChar c)
  rw [size]
  generalize s.toList = chars
  induction chars with
  | nil => simp [Ascii]
  | cons c chars ih =>
    have pos := Char.utf8Size_pos c
    have atLeast : (chars.map Char.utf8Size).length ≤ (chars.map Char.utf8Size).sum := by
      refine List.length_le_sum_of_one_le _ fun n hn => ?_
      obtain ⟨d, _, rfl⟩ := List.mem_map.mp hn
      exact Char.utf8Size_pos d
    rw [List.length_map] at atLeast
    rw [Ascii, List.forall_mem_cons, ← utf8Size_ascii, List.map_cons, List.sum_cons,
      List.length_cons]
    refine (and_congr_right fun _ => ih).trans ?_
    omega

theorem lowByte_digit {d : UInt8} (hd : d.toNat < 2 ^ 5) :
    lowByte (base32Char d) ∈ nix32Alphabet := by
  rw [lowByte_base32Char]
  exact List.mem_of_getElem? (digit_byte hd)

theorem digit_of_lowByte {b : UInt8} (hb : b ∈ nix32Alphabet) :
    ∃ d : UInt8, d.toNat < 2 ^ 5 ∧ lowByte (base32Char d) = b := by
  obtain ⟨n, hn, rfl⟩ := List.getElem_of_mem hb
  have small : (UInt8.ofNat n).toNat = n := by
    rw [nix32Alphabet_length] at hn
    rw [UInt8.toNat_ofNat']
    omega
  refine ⟨.ofNat n, by rwa [small, ← nix32Alphabet_length], ?_⟩
  rw [lowByte_base32Char, small, List.getD_eq_getElem?_getD, List.getElem?_eq_getElem hn]
  rfl

/-- Every character has the lowest byte of a digit exactly if some digits have them all. -/
theorem lowBytes_digits (chars : List Char) : (∀ c ∈ chars, lowByte c ∈ nix32Alphabet) ↔
    ∃ digits : List UInt8, (∀ d ∈ digits, d.toNat < 2 ^ 5) ∧
      chars.map lowByte = (digits.reverse.map base32Char).map lowByte := by
  constructor
  · intro h
    induction chars with
    | nil => exact ⟨[], by simp, rfl⟩
    | cons c chars ih =>
      obtain ⟨d, hlast, byte⟩ := digit_of_lowByte (h c (by simp))
      obtain ⟨digits, hd, bytes⟩ := ih fun c' hc => h c' (by simp [hc])
      refine ⟨digits ++ [d], ?_, by simp [byte, bytes]⟩
      exact List.forall_mem_append.mpr ⟨hd, List.forall_mem_singleton.mpr hlast⟩
  · intro h c hc
    obtain ⟨digits, hd, bytes⟩ := h
    have byte : lowByte c ∈ chars.map lowByte := List.mem_map_of_mem hc
    rw [bytes, List.map_map] at byte
    obtain ⟨d, hmem, same⟩ := List.mem_map.mp byte
    rw [← same]
    exact lowByte_digit (hd d (List.mem_reverse.mp hmem))

/-- The decoders return the same bytes, or both fail. -/
def Agree (s : String) : Prop :=
  ∀ bytes : Bytes, decodeNixBase32 s = .ok bytes ↔
    ∃ hash : Bytes32, decodeNix32 s = .ok hash ∧ hash.toList = bytes

theorem packed_exists (digits : List UInt8) :
    ∃ hash : Bytes32, hash.toList = packFive (List.replicate 32 0) digits :=
  ⟨⟨(packFive (List.replicate 32 0) digits).toArray, by simp⟩, by simp⟩

theorem agree_of_ascii {s : String} (size : s.utf8ByteSize = 52) (ascii : Ascii s.toList) :
    Agree s := by
  have length : s.toList.length = 52 := by rw [← size, (ascii_iff_size s).mp ascii]
  intro bytes
  rw [decodeNixBase32_ok]
  simp only [decodeNix32_ok, size, true_and, length]
  constructor
  · intro h
    obtain ⟨digits, hd, written, rfl⟩ := h
    obtain ⟨hash, packed⟩ := packed_exists digits
    exact ⟨hash, ⟨digits, hd, by rw [written], packed⟩, packed⟩
  · intro h
    obtain ⟨hash, ⟨digits, hd, low, packed⟩, rfl⟩ := h
    exact ⟨digits, hd, (map_lowByte_inj ascii (ascii_digits hd)).mp low, packed⟩

/-- The decoders agree on a text of 52 bytes exactly if it is in ASCII, or has a character
whose lowest byte is that of no digit. -/
theorem decoders_agree_iff (s : String) (size : s.utf8ByteSize = 52) :
    Agree s ↔ (∀ c ∈ s.toList, c.toNat < 128) ∨
      ∃ c ∈ s.toList, lowByte c ∉ nix32Alphabet := by
  constructor
  · intro agree
    by_contra h
    push Not at h
    obtain ⟨⟨c, hc, notAscii⟩, digits_all⟩ := h
    -- all characters pass for digits, so one decoder accepts what the other cannot
    obtain ⟨digits, hd, low⟩ := (lowBytes_digits s.toList).mp digits_all
    obtain ⟨hash, packed⟩ := packed_exists digits
    have accepted := decodeNix32_ok.mpr ⟨size, digits, hd, low, packed⟩
    have decoded := (agree hash.toList).mpr ⟨hash, accepted, rfl⟩
    obtain ⟨digits', hd', written, _⟩ := decodeNixBase32_ok.mp decoded
    have ascii : Ascii s.toList := written ▸ ascii_digits hd'
    exact absurd (ascii c hc) (Nat.not_lt.mpr notAscii)
  · intro h
    rcases h with ascii | ⟨c, hc, foreign⟩
    · exact agree_of_ascii size ascii
    · intro bytes
      refine iff_of_false (fun decoded => ?_) fun accepted => ?_
      · obtain ⟨digits, hd, written, _⟩ := decodeNixBase32_ok.mp decoded
        exact foreign ((lowBytes_digits s.toList).mpr ⟨digits, hd, by rw [written]⟩ c hc)
      · obtain ⟨hash, accepted, _⟩ := accepted
        obtain ⟨_, digits, hd, low, _⟩ := decodeNix32_ok.mp accepted
        exact foreign ((lowBytes_digits s.toList).mpr ⟨digits, hd, low⟩ c hc)

/-- Fifty zeros and a character of two bytes: one decoder takes it for a zero, the other
refuses it. -/
theorem decoders_differ :
    let s := String.ofList (List.replicate 50 '0' ++ [Char.ofNat 0x130])
    s.utf8ByteSize = 52 ∧ decodeNix32 s = .ok zeroBytes32 ∧
      ∀ bytes, decodeNixBase32 s ≠ .ok bytes := by
  intro s
  have size : s.utf8ByteSize = 52 := rfl
  have length : s.toList.length = 51 := by simp [s]
  have low : lowByte (Char.ofNat 0x130) = lowByte '0' := rfl
  refine ⟨size, decodeNix32_ok.mpr ⟨size, List.replicate 51 0, by simp, ?_, ?_⟩, ?_⟩
  · simp only [s, String.toList_ofList, List.map_append, List.map_replicate,
      List.reverse_replicate, base32Char_zero, List.map_singleton, low]
    exact List.replicate_succ'.symm
  · rw [packFive_zeros, zeroBytes32_toList]
  · intro bytes decoded
    obtain ⟨digits, hd, written, _⟩ := decodeNixBase32_ok.mp decoded
    have ascii := (ascii_iff_size s).mp (written ▸ ascii_digits hd)
    omega

theorem decoders_agree_zero : Agree (Sha256Hash.mk zeroBytes32).toNixBase32 := by
  refine (decoders_agree_iff _ (toNixBase32_size _)).mpr (.inl ?_)
  rw [toNixBase32_digits]
  exact ascii_digits (hashDigits_lt _)

/-- What either decoder makes of a text. -/
def DecodesTo (s : String) (hash : Sha256Hash) : Prop :=
  decodeNixBase32 s = .ok hash.bytes.toList ∨ decodeNix32 s = .ok hash.bytes

/-- A text of 52 characters is decoded by its digits, whichever decoder it is given to. -/
theorem decodesTo_iff {s : String} {hash : Sha256Hash} (length : s.toList.length = 52) :
    DecodesTo s hash ↔ ∃ digits : List UInt8, (∀ d ∈ digits, d.toNat < 2 ^ 5) ∧
      s.toList = digits.reverse.map base32Char ∧
      hash.bytes.toList = packFive (List.replicate 32 0) digits := by
  have ofBase32 : decodeNixBase32 s = .ok hash.bytes.toList ↔
      ∃ digits : List UInt8, (∀ d ∈ digits, d.toNat < 2 ^ 5) ∧
        s.toList = digits.reverse.map base32Char ∧
        hash.bytes.toList = packFive (List.replicate 32 0) digits := by
    rw [decodeNixBase32_ok, length]
  refine ⟨fun h => ?_, fun h => .inl (ofBase32.mpr h)⟩
  rcases h with h | h
  · exact ofBase32.mp h
  · obtain ⟨size, digits, hd, low, packed⟩ := decodeNix32_ok.mp h
    have ascii : Ascii s.toList := (ascii_iff_size s).mpr (size.trans length.symm)
    exact ⟨digits, hd, (map_lowByte_inj ascii (ascii_digits hd)).mp low, packed⟩

/-- Of the digits packed into a hash, only the lowest bit of the last is kept. -/
theorem hashDigits_packed {hash : Sha256Hash} {low : List UInt8} {top : UInt8}
    (length : low.length = 51) (hd : ∀ d ∈ low ++ [top], d.toNat < 2 ^ 5)
    (packed : hash.bytes.toList = packFive (List.replicate 32 0) (low ++ [top])) :
    hashDigits hash = low ++ [top % 2] := by
  apply List.ext_getElem (by simp [hashDigits, length])
  intro n hn hn'
  have hn52 : n < 52 := by simpa [hashDigits] using hn
  apply UInt8.toNat_inj.mp
  have read : (hashDigits hash)[n] = fiveBits hash.bytes.toList (n * 5) := by
    simp [hashDigits]
  refine (congrArg UInt8.toNat read).trans ?_
  rw [packed, fiveBits_packFive hd, List.getD_eq_getElem?_getD]
  by_cases last : n = 51
  · subst last
    rw [List.getElem?_append_right (by omega), List.getElem_append_right (by omega)]
    simp [length]
  · have hlow : n < low.length := by omega
    have small := hd _ (List.mem_append_left _ (List.getElem_mem hlow))
    have whole : 2 ^ 5 ≤ 2 ^ (8 * 32 - n * 5) := Nat.pow_le_pow_right (by omega) (by omega)
    rw [List.getElem?_append_left hlow, List.getElem_append_left hlow,
      List.getElem?_eq_getElem hlow, Option.getD_some,
      Nat.mod_eq_of_lt (Nat.lt_of_lt_of_le small whole)]

theorem decoded_text {s : String} {hash : Sha256Hash} (length : s.toList.length = 52)
    (decoded : DecodesTo s hash) : ∃ top rest, top.toNat < 2 ^ 5 ∧
      s.toList = base32Char top :: rest ∧
      hash.toNixBase32.toList = base32Char (top % 2) :: rest := by
  obtain ⟨digits, hd, written, packed⟩ := (decodesTo_iff length).mp decoded
  cases digits using List.reverseRecOn with
  | nil =>
    rw [written] at length
    cases length
  | append_singleton low top =>
    have low_length : low.length = 51 := by
      rw [written] at length
      simpa using length
    refine ⟨top, low.reverse.map base32Char, hd top (by simp), by simp [written], ?_⟩
    rw [toNixBase32_digits, hashDigits_packed low_length hd packed]
    simp

/-- The first character is '0' or '1'. -/
def StartsLow (s : String) : Prop := s.toList.head? = some '0' ∨ s.toList.head? = some '1'

theorem base32Char_inj {d e : UInt8} (hd : d.toNat < 2 ^ 5) (he : e.toNat < 2 ^ 5) :
    base32Char d = base32Char e ↔ d = e := by
  constructor
  · intro h
    have read := base32Digit_ok.mpr ⟨hd, h⟩
    rw [base32Digit_ok.mpr ⟨he, rfl⟩] at read
    exact (Except.ok.inj read).symm
  · intro h
    rw [h]

/-- The digits that are their own lowest bit. -/
theorem lowest_bit_kept {d : UInt8} (hd : d.toNat < 2 ^ 5) :
    base32Char (d % 2) = base32Char d ↔ base32Char d = '0' ∨ base32Char d = '1' := by
  have low : (d % 2).toNat = d.toNat % 2 := UInt8.toNat_mod d 2
  rw [← base32Char_zero, ← base32Char_one, base32Char_inj (by omega) hd,
    base32Char_inj hd (by decide), base32Char_inj hd (by decide)]
  simp only [← UInt8.toNat_inj, low, UInt8.reduceToNat]
  omega

theorem reencoded_iff {s : String} {hash : Sha256Hash} (length : s.toList.length = 52)
    (decoded : DecodesTo s hash) : hash.toNixBase32 = s ↔ StartsLow s := by
  obtain ⟨top, rest, htop, written, encoded⟩ := decoded_text length decoded
  have kept := lowest_bit_kept htop
  rw [← String.toList_inj, StartsLow, encoded, written]
  simpa using kept

/-- A text that is accepted names the hash of the text that differs from it only in the
first character, which is '0' or '1' there; it is how that hash is written exactly if its
own first character is one of these, and no two such texts name one hash. -/
theorem decoded_canonical :
    (∀ (s : String) (hash : Sha256Hash), s.toList.length = 52 → DecodesTo s hash →
      (∃ top rest, top.toNat < 2 ^ 5 ∧ s.toList = base32Char top :: rest ∧
        hash.toNixBase32.toList = base32Char (top % 2) :: rest) ∧
      (hash.toNixBase32 = s ↔ StartsLow s)) ∧
    ∀ (s t : String) (hash : Sha256Hash), s.toList.length = 52 → t.toList.length = 52 →
      StartsLow s → StartsLow t → DecodesTo s hash → DecodesTo t hash → s = t := by
  refine ⟨fun s hash length decoded => ⟨decoded_text length decoded,
    reencoded_iff length decoded⟩, ?_⟩
  intro s t hash hs ht sLow tLow sDecoded tDecoded
  calc
    s = hash.toNixBase32 := ((reencoded_iff hs sDecoded).mpr sLow).symm
    _ = t := (reencoded_iff ht tDecoded).mpr tLow

/-- Of the first digit before 51 zeros, the last byte gets what bits it has left. -/
theorem decodes_zeros {d : UInt8} (hd : d.toNat < 2 ^ 5) (hash : Sha256Hash)
    (last : hash.bytes.toList = orFiveBits (List.replicate 32 0) (51 * 5) d) :
    let s := String.ofList (base32Char d :: List.replicate 51 '0')
    decodeNixBase32 s = .ok hash.bytes.toList ∧ decodeNix32 s = .ok hash.bytes := by
  intro s
  have digits_lt : ∀ e ∈ List.replicate 51 (0 : UInt8) ++ [d], e.toNat < 2 ^ 5 :=
    List.forall_mem_append.mpr ⟨by simp, List.forall_mem_singleton.mpr hd⟩
  have written : s.toList = (List.replicate 51 (0 : UInt8) ++ [d]).reverse.map base32Char := by
    simp only [s, String.toList_ofList, List.reverse_append, List.reverse_singleton,
      List.reverse_replicate, List.singleton_append, List.map_cons, List.map_replicate,
      base32Char_zero]
  have length : s.toList.length = 52 := by simp only [s, String.toList_ofList, List.length_cons,
    List.length_replicate]
  have size : s.utf8ByteSize = 52 :=
    ((ascii_iff_size s).mp (written ▸ ascii_digits digits_lt)).trans length
  have packed : hash.bytes.toList =
      packFive (List.replicate 32 0) (List.replicate 51 0 ++ [d]) := by
    rw [packFive_snoc, packFive_zeros, List.length_replicate, last]
  refine ⟨decodeNixBase32_ok.mpr ⟨_, digits_lt, written, ?_⟩,
    decodeNix32_ok.mpr ⟨size, _, digits_lt, congrArg (List.map lowByte) written, packed⟩⟩
  rw [length]
  exact packed

theorem decoded_canonical_one :
    (Sha256Hash.mk ((Vector.replicate 32 0).set 31 128)).toNixBase32 =
      String.ofList ('1' :: List.replicate 51 '0') := by
  have decoded := decodes_zeros (d := 1) (by decide) ⟨(Vector.replicate 32 0).set 31 128⟩ rfl
  rw [base32Char_one] at decoded
  exact ((decoded_canonical.1 _ _ (by simp) (.inr decoded.2)).2).mpr (.inr (by simp))

/-- The hash of zeros is also written with a first character that is not its own. -/
theorem padded_accepted :
    let s := String.ofList ('2' :: List.replicate 51 '0')
    decodeNixBase32 s = .ok (List.replicate 32 0) ∧ decodeNix32 s = .ok zeroBytes32 ∧
      (Sha256Hash.mk zeroBytes32).toNixBase32 ≠ s ∧
      decodeNix32 (Sha256Hash.mk zeroBytes32).toNixBase32 = .ok zeroBytes32 := by
  intro s
  have two : base32Char 2 = '2' := by
    rw [base32Char, nix32Alphabet_eq]
    rfl
  obtain ⟨decoded, decoded'⟩ := decodes_zeros (d := 2) (by decide) ⟨zeroBytes32⟩ rfl
  rw [two] at decoded decoded'
  refine ⟨decoded, decoded', fun same => ?_, decodeNix32_toNixBase32 ⟨zeroBytes32⟩⟩
  have low : StartsLow s := (reencoded_iff (by simp) (.inl decoded)).mp same
  simp [StartsLow, s] at low

end IrohNix.Nix

import Mathlib.Algebra.GroupWithZero.Nat
import Mathlib.Data.List.Basic

namespace IrohNix.Lib

/-- The UTF-8 bytes of a string. -/
def utf8 (s : String) : List UInt8 := s.toByteArray.data.toList

theorem utf8_inj {s t : String} : utf8 s = utf8 t ↔ s = t := by
  constructor
  · intro h
    exact String.toByteArray_inj.mp (ByteArray.ext (Array.toList_inj.mp h))
  · intro h
    rw [h]

theorem utf8_ofList (cs : List Char) :
    utf8 (String.ofList cs) = cs.flatMap String.utf8EncodeChar := by
  simp [utf8, String.toByteArray_ofList, List.utf8Encode]

/-- Characters of one byte each are as many bytes. -/
theorem utf8ByteSize_ofList {cs : List Char} (h : ∀ c ∈ cs, c.utf8Size = 1) :
    (String.ofList cs).utf8ByteSize = cs.length := by
  have size : (String.ofList cs).utf8ByteSize = (utf8 (String.ofList cs)).length := rfl
  rw [size, utf8_ofList, List.length_flatMap]
  induction cs with
  | nil => rfl
  | cons c cs ih =>
    have rest := ih (fun d hd => h d (by simp [hd])) rfl
    have one : (String.utf8EncodeChar c).length = 1 := by
      rw [String.length_utf8EncodeChar]
      exact h c (by simp)
    simp only [List.map_cons, List.sum_cons, List.length_cons, one, rest]
    omega

theorem utf8Size_ascii {c : Char} : c.utf8Size = 1 ↔ c.toNat < 128 := by
  rw [Char.utf8Size_eq_one_iff, UInt32.le_iff_toNat_le]
  exact Nat.lt_succ_iff.symm

theorem toNat_charOfByte (b : UInt8) : (Char.ofNat b.toNat).toNat = b.toNat := by
  have valid : b.toNat.isValidChar := Or.inl (Nat.lt_trans b.toNat_lt (by omega))
  rw [Char.ofNat, dif_pos valid]
  rfl

/-- Pieces of an injective encoding, run together, are recovered from their lengths. -/
theorem flatMap_inj {α β : Type} {f : α → List β} (hf : Function.Injective f) {xs ys : List α}
    (hlen : xs.map (fun x => (f x).length) = ys.map (fun y => (f y).length))
    (h : xs.flatMap f = ys.flatMap f) : xs = ys := by
  have hpieces : xs.map f = ys.map f := by
    rw [List.eq_iff_flatten_eq]
    refine ⟨by simpa [List.flatMap_def] using h, ?_⟩
    simpa [Function.comp_def] using hlen
  exact List.map_injective_iff.mpr hf hpieces

/-- The low `w` bytes of a number, least significant first. -/
def leBytes : Nat → Nat → List UInt8
  | 0, _ => []
  | w + 1, n => UInt8.ofNat (n % 256) :: leBytes w (n / 256)

@[simp] theorem leBytes_length (w n : Nat) : (leBytes w n).length = w := by
  induction w generalizing n with
  | zero => rfl
  | succ w ih => simp [leBytes, ih]

/-- Numbers that fit in `w` bytes are determined by those bytes. -/
theorem leBytes_inj {w n m : Nat} (hn : n < 256 ^ w) (hm : m < 256 ^ w)
    (h : leBytes w n = leBytes w m) : n = m := by
  induction w generalizing n m with
  | zero => omega
  | succ w ih =>
    simp only [leBytes, List.cons.injEq] at h
    obtain ⟨hlow, hhigh⟩ := h
    have hlow' : n % 256 = m % 256 := by
      have := congrArg UInt8.toNat hlow
      simpa [UInt8.toNat_ofNat'] using this
    rw [Nat.pow_succ] at hn hm
    have := ih (by omega) (by omega) hhigh
    omega

/-- Higher bytes are cut off. -/
theorem leBytes_mod (w n : Nat) : leBytes w (n % 256 ^ w) = leBytes w n := by
  induction w generalizing n with
  | zero => rfl
  | succ w ih =>
    have low : n % 256 ^ (w + 1) % 256 = n % 256 :=
      Nat.mod_mod_of_dvd n ⟨256 ^ w, by rw [Nat.pow_succ, Nat.mul_comm]⟩
    have high : n % 256 ^ (w + 1) / 256 = n / 256 % 256 ^ w := by
      rw [Nat.pow_succ, Nat.mul_comm, Nat.mod_mul_right_div_self]
    rw [leBytes, leBytes, low, high, ih]

theorem leBytes_u64 (n : Nat) : leBytes 8 (UInt64.ofNat n).toNat = leBytes 8 n := by
  rw [UInt64.toNat_ofNat']
  exact leBytes_mod 8 n

theorem leBytes_u64_inj {a b : UInt64} (h : leBytes 8 a.toNat = leBytes 8 b.toNat) : a = b :=
  UInt64.toNat_inj.mp (leBytes_inj a.toNat_lt b.toNat_lt h)

theorem toChunks_go_flatten {α : Type} (n : Nat) (xs : List α) (piece : Array α)
    (pieces : Array (List α)) :
    (List.toChunks.go n xs piece pieces).flatten = pieces.toList.flatten ++ piece.toList ++ xs := by
  induction xs generalizing piece pieces with
  | nil => simp [List.toChunks.go]
  | cons x xs ih =>
    rw [List.toChunks.go]
    split <;> simp [ih]

/-- Chunks are chunks of the whole. -/
theorem flatten_toChunks {α : Type} (n : Nat) (xs : List α) : (xs.toChunks n).flatten = xs := by
  cases xs with
  | nil => cases n <;> rfl
  | cons x xs =>
    cases n with
    | zero => simp [List.toChunks]
    | succ n => simp [List.toChunks, toChunks_go_flatten]

def hexDigit (n : Nat) : Char := "0123456789abcdef".toList.getD n '0'

/-- Two lower-case hexadecimal digits a byte. -/
def hexLower (bytes : List UInt8) : String :=
  String.ofList (bytes.flatMap fun b => [hexDigit (b.toNat / 16), hexDigit (b.toNat % 16)])

/-- The value of a hexadecimal digit, in either case. -/
def hexValue (c : Char) : Option Nat :=
  if '0' ≤ c ∧ c ≤ '9' then some (c.toNat - '0'.toNat)
  else if 'a' ≤ c ∧ c ≤ 'f' then some (c.toNat - 'a'.toNat + 10)
  else if 'A' ≤ c ∧ c ≤ 'F' then some (c.toNat - 'A'.toNat + 10)
  else none

/-- A byte as `{:?}` shows the character of its number. -/
def debugByte (b : UInt8) : String :=
  let shown := match b with
    | 0 => "\\0"
    | 9 => "\\t"
    | 10 => "\\n"
    | 13 => "\\r"
    | 39 => "\\'"
    | 92 => "\\\\"
    | b =>
      if b < 32 || (127 ≤ b && b ≤ 160) || b = 173 then
        "\\u\x7b" ++ String.ofList (Nat.toDigits 16 b.toNat) ++ "\x7d"
      else String.singleton (Char.ofNat b.toNat)
  "'" ++ shown ++ "'"

/-- The value of the digit at a position. -/
def hexVal (c : UInt8) (position : Nat) : Except String Nat :=
  match hexValue (Char.ofNat c.toNat) with
  | some value => .ok value
  | none => .error ("Invalid character " ++ debugByte c ++ " at position " ++ toString position)

/-- Two digits a byte, from a position on. -/
def hexPairs : Nat → List UInt8 → Except String (List UInt8)
  | position, high :: low :: rest => do
    let high ← hexVal high position
    let low ← hexVal low (position + 1)
    let bytes ← hexPairs (position + 2) rest
    pure (.ofNat (16 * high + low) :: bytes)
  | _, _ => .ok []

/-- `hex::decode`, with the texts of its errors. -/
def hexDecode (s : String) : Except String (List UInt8) :=
  if (utf8 s).length % 2 ≠ 0 then .error "Odd number of digits" else hexPairs 0 (utf8 s)

theorem hexValue_hexDigit : ∀ n < 16, hexValue (hexDigit n) = some n := by decide

theorem hexVal_hexDigit {n : Nat} (hn : n < 16) (position : Nat) :
    String.utf8EncodeChar (hexDigit n) = [(hexDigit n).toNat.toUInt8] ∧
      hexVal (hexDigit n).toNat.toUInt8 position = .ok n := by
  have encoded : ∀ n < 16,
      String.utf8EncodeChar (hexDigit n) = [(hexDigit n).toNat.toUInt8] := by decide
  have same : ∀ n < 16, Char.ofNat (hexDigit n).toNat.toUInt8.toNat = hexDigit n := by decide
  refine ⟨encoded n hn, ?_⟩
  simp only [hexVal, same n hn, hexValue_hexDigit n hn]

/-- What is written of some bytes is two bytes for each. -/
theorem utf8_hexLower (bytes : List UInt8) : utf8 (hexLower bytes) = bytes.flatMap fun b =>
    [(hexDigit (b.toNat / 16)).toNat.toUInt8, (hexDigit (b.toNat % 16)).toNat.toUInt8] := by
  rw [hexLower, utf8_ofList, List.flatMap_assoc]
  congr 1
  funext b
  have hb := b.toNat_lt
  simp only [List.flatMap_cons, List.flatMap_nil, List.append_nil,
    (hexVal_hexDigit (n := b.toNat / 16) (by omega) 0).1,
    (hexVal_hexDigit (n := b.toNat % 16) (by omega) 0).1, List.singleton_append]

theorem hexPairs_hexLower (bytes : List UInt8) (position : Nat) :
    hexPairs position (utf8 (hexLower bytes)) = .ok bytes := by
  rw [utf8_hexLower]
  induction bytes generalizing position with
  | nil => rfl
  | cons b bytes ih =>
    have hb := b.toNat_lt
    have high := (hexVal_hexDigit (n := b.toNat / 16) (by omega) position).2
    have low := (hexVal_hexDigit (n := b.toNat % 16) (by omega) (position + 1)).2
    have whole : UInt8.ofNat (16 * (b.toNat / 16) + b.toNat % 16) = b := by
      rw [Nat.div_add_mod, UInt8.ofNat_toNat]
    simp only [List.flatMap_cons, List.cons_append, List.nil_append, hexPairs, high, low,
      ih (position + 2)]
    simp only [bind, Except.bind, pure, Except.pure, whole]

theorem hexDecode_hexLower (bytes : List UInt8) : hexDecode (hexLower bytes) = .ok bytes := by
  have even : (utf8 (hexLower bytes)).length % 2 = 0 := by
    rw [utf8_hexLower, List.length_flatMap]
    simp
  rw [hexDecode, if_neg (by omega), hexPairs_hexLower]

example : hexDecode "0g" = .error "Invalid character 'g' at position 1" := by decide

theorem hexLower_inj {bs cs : List UInt8} : hexLower bs = hexLower cs ↔ bs = cs := by
  constructor
  · intro h
    have := congrArg hexDecode h
    simpa [hexDecode_hexLower] using this
  · intro h
    rw [h]

theorem mem_hexLower {bytes : List UInt8} {c : Char} (h : c ∈ (hexLower bytes).toList) :
    ∃ n < 16, c = hexDigit n := by
  simp only [hexLower, String.toList_ofList, List.mem_flatMap, List.mem_cons, List.not_mem_nil,
    or_false] at h
  obtain ⟨b, _, rfl | rfl⟩ := h
  · have hb := b.toNat_lt
    exact ⟨b.toNat / 16, by omega, rfl⟩
  · exact ⟨b.toNat % 16, by omega, rfl⟩

/-- How many continuation bytes a leading byte asks for, and which the first may be. -/
def utf8Lead (b : UInt8) : Option (Nat × UInt8 × UInt8) :=
  if 0xC2 ≤ b ∧ b ≤ 0xDF then some (1, 0x80, 0xBF)
  else if b = 0xE0 then some (2, 0xA0, 0xBF)
  else if b = 0xED then some (2, 0x80, 0x9F)
  else if 0xE1 ≤ b ∧ b ≤ 0xEF then some (2, 0x80, 0xBF)
  else if b = 0xF0 then some (3, 0x90, 0xBF)
  else if 0xF1 ≤ b ∧ b ≤ 0xF3 then some (3, 0x80, 0xBF)
  else if b = 0xF4 then some (3, 0x80, 0x8F)
  else none

/-- The code point a sequence goes on to, if it is complete, and what follows. -/
def utf8Tail : Nat → UInt8 → UInt8 → Nat → List UInt8 → Option Nat × List UInt8
  | 0, _, _, code, bytes => (some code, bytes)
  | _ + 1, _, _, _, [] => (none, [])
  | n + 1, low, high, code, b :: bytes =>
    if low ≤ b ∧ b ≤ high then utf8Tail n 0x80 0xBF (code * 64 + b.toNat % 64) bytes
    else (none, b :: bytes)

def utf8LossyFrom : Nat → List UInt8 → List Char
  | 0, _ | _, [] => []
  | fuel + 1, b :: bytes =>
    if b < 0x80 then Char.ofNat b.toNat :: utf8LossyFrom fuel bytes
    else match utf8Lead b with
      | none => '\uFFFD' :: utf8LossyFrom fuel bytes
      | some (n, low, high) =>
        match utf8Tail n low high (b.toNat % 2 ^ (6 - n)) bytes with
        | (some code, rest) => Char.ofNat code :: utf8LossyFrom fuel rest
        | (none, rest) => '\uFFFD' :: utf8LossyFrom fuel rest

/-- `String::from_utf8_lossy`: U+FFFD for each maximal piece that is not UTF-8. -/
def utf8Lossy (bytes : List UInt8) : String := String.ofList (utf8LossyFrom bytes.length bytes)

example : utf8Lossy (utf8 "aé€😀" ++ [0xE2, 0x82, 0x41, 0xFF]) = "aé€😀\uFFFDA\uFFFD" := by
  decide +kernel

/-- The number whose bytes these are, least significant first. -/
def ofLeBytes : List UInt8 → Nat
  | [] => 0
  | b :: bytes => b.toNat + 256 * ofLeBytes bytes

theorem ofLeBytes_leBytes {w n : Nat} (hn : n < 256 ^ w) : ofLeBytes (leBytes w n) = n := by
  induction w generalizing n with
  | zero =>
    rw [Nat.pow_zero, Nat.lt_one_iff] at hn
    rw [hn]
    rfl
  | succ w ih =>
    rw [Nat.pow_succ] at hn
    rw [leBytes, ofLeBytes, ih (by omega), UInt8.toNat_ofNat']
    omega

theorem ofLeBytes_lt (bytes : List UInt8) : ofLeBytes bytes < 256 ^ bytes.length := by
  induction bytes with
  | nil => exact Nat.one_pos
  | cons b bytes ih =>
    have hb := b.toNat_lt
    rw [ofLeBytes, List.length_cons, Nat.pow_succ]
    omega

/-- Bytes are those of their number. -/
theorem leBytes_ofLeBytes (bytes : List UInt8) :
    leBytes bytes.length (ofLeBytes bytes) = bytes := by
  induction bytes with
  | nil => rfl
  | cons b bytes ih =>
    have hb := b.toNat_lt
    have low : (b.toNat + 256 * ofLeBytes bytes) % 256 = b.toNat := by omega
    have high : (b.toNat + 256 * ofLeBytes bytes) / 256 = ofLeBytes bytes := by omega
    rw [ofLeBytes, List.length_cons, leBytes, low, high, ih, UInt8.ofNat_toNat]

/-- The low `w` bytes of a number, most significant first. -/
def beBytes (w n : Nat) : List UInt8 := (leBytes w n).reverse

@[simp] theorem beBytes_length (w n : Nat) : (beBytes w n).length = w := by simp [beBytes]

/-- The number whose bytes these are, most significant first. -/
def ofBeBytes (bytes : List UInt8) : Nat := ofLeBytes bytes.reverse

/-- What `w` bytes can hold of a number. -/
theorem ofBeBytes_beBytes (w n : Nat) : ofBeBytes (beBytes w n) = n % 256 ^ w := by
  rw [ofBeBytes, beBytes, List.reverse_reverse, ← leBytes_mod]
  exact ofLeBytes_leBytes (Nat.mod_lt _ (Nat.pow_pos (by decide)))

end IrohNix.Lib

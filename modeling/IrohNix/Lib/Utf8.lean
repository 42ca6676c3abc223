import IrohNix.Lib.Bytes

namespace IrohNix.Lib

theorem utf8_eq_flatMap (s : String) : utf8 s = s.toList.flatMap String.utf8EncodeChar := by
  rw [← utf8_ofList, String.ofList_toList]

/-- `String::from_utf8`, whatever its error. -/
def utf8Decode (bytes : List UInt8) : Option String := String.fromUTF8? ⟨bytes.toArray⟩

theorem utf8Decode_eq_some {bytes : List UInt8} {s : String} :
    utf8Decode bytes = some s ↔ utf8 s = bytes := by
  constructor
  · intro h
    unfold utf8Decode String.fromUTF8? at h
    split at h
    · cases h
      rfl
    · cases h
  · intro h
    obtain rfl := h
    simp only [utf8Decode, utf8, Array.toArray_toList]
    exact dif_pos s.isValidUTF8

/-- Where bytes stop being UTF-8, and how many bytes there are wrong, unless they only
end too soon. -/
def utf8Fault : Nat → Nat → List UInt8 → Option (Nat × Option Nat)
  | 0, _, _ | _, _, [] => none
  | fuel + 1, index, b :: bytes =>
    if b < 0x80 then utf8Fault fuel (index + 1) bytes
    else match utf8Lead b with
      | none => some (index, some 1)
      | some (n, low, high) =>
        match utf8Tail n low high (b.toNat % 2 ^ (6 - n)) bytes with
        | (some _, rest) => utf8Fault fuel (index + n + 1) rest
        | (none, []) => some (index, none)
        | (none, rest) => some (index, some (bytes.length - rest.length + 1))

/-- The text of a `FromUtf8Error`. -/
def fromUtf8Error (bytes : List UInt8) : String :=
  match utf8Fault bytes.length 0 bytes with
  | some (index, some len) =>
    "invalid utf-8 sequence of " ++ toString len ++ " bytes from index " ++ toString index
  | some (index, none) => "incomplete utf-8 byte sequence from index " ++ toString index
  | none => ""

/-- The byte that carries the low six bits of a number on. -/
def continuation (m : Nat) : UInt8 := .ofNat (m % 64 + 0x80)

theorem toNat_continuation (m : Nat) : (continuation m).toNat = m % 64 + 128 := by
  rw [continuation, UInt8.toNat_ofNat']
  omega

theorem toNat_lead {n : Nat} (h : n < 256) : (UInt8.ofNat n).toNat = n := by
  rw [UInt8.toNat_ofNat']
  exact Nat.mod_eq_of_lt h

/-- The four lengths of an encoded character. -/
theorem utf8EncodeChar_cases (c : Char) :
    (c.toNat < 0x80 ∧ String.utf8EncodeChar c = [.ofNat c.toNat]) ∨
    (0x80 ≤ c.toNat ∧ c.toNat < 0x800 ∧
      String.utf8EncodeChar c = [.ofNat (c.toNat / 64 + 0xC0), continuation c.toNat]) ∨
    (0x800 ≤ c.toNat ∧ (c.toNat < 0xD800 ∨ 0xDFFF < c.toNat) ∧ c.toNat < 0x10000 ∧
      String.utf8EncodeChar c =
        [.ofNat (c.toNat / 4096 + 0xE0), continuation (c.toNat / 64), continuation c.toNat]) ∨
    (0x10000 ≤ c.toNat ∧ c.toNat < 0x110000 ∧
      String.utf8EncodeChar c = [.ofNat (c.toNat / 262144 + 0xF0), continuation (c.toNat / 4096),
        continuation (c.toNat / 64), continuation c.toNat]) := by
  have valid : c.toNat < 0xD800 ∨ 0xDFFF < c.toNat ∧ c.toNat < 0x110000 := c.valid
  have value : c.val.toNat = c.toNat := rfl
  unfold String.utf8EncodeChar
  simp only [value]
  rcases Nat.lt_or_ge c.toNat 0x80 with one | one
  · exact .inl ⟨one, if_pos (by omega)⟩
  right
  rcases Nat.lt_or_ge c.toNat 0x800 with two | two
  · refine .inl ⟨one, two, (if_neg (by omega)).trans ((if_pos (by omega)).trans ?_)⟩
    rw [Nat.mod_eq_of_lt (by omega : c.toNat / 64 < 0x20)]
    rfl
  right
  rcases Nat.lt_or_ge c.toNat 0x10000 with three | three
  · refine .inl ⟨two, by omega, three, (if_neg (by omega)).trans ((if_neg (by omega)).trans
      ((if_pos (by omega)).trans ?_))⟩
    rw [Nat.mod_eq_of_lt (by omega : c.toNat / 4096 < 0x10)]
    rfl
  · refine .inr ⟨three, by omega, (if_neg (by omega)).trans ((if_neg (by omega)).trans
      ((if_neg (by omega)).trans ?_))⟩
    rw [Nat.mod_eq_of_lt (by omega : c.toNat / 262144 < 0x08)]
    rfl

/-- A continuation byte in its range adds its six bits. -/
theorem utf8Tail_continuation {low high : UInt8} {m : Nat} (n code : Nat) (bytes : List UInt8)
    (above : low.toNat ≤ m % 64 + 128) (below : m % 64 + 128 ≤ high.toNat) :
    utf8Tail (n + 1) low high code (continuation m :: bytes) =
      utf8Tail n 0x80 0xBF (code * 64 + m % 64) bytes := by
  have inside : low ≤ continuation m ∧ continuation m ≤ high := by
    rw [UInt8.le_iff_toNat_le, UInt8.le_iff_toNat_le, toNat_continuation]
    exact ⟨above, below⟩
  rw [utf8Tail, if_pos inside, toNat_continuation]
  congr 2
  omega

/-- After the first one, any continuation byte is in its range. -/
theorem utf8Tail_next (n code m : Nat) (bytes : List UInt8) :
    utf8Tail (n + 1) 0x80 0xBF code (continuation m :: bytes) =
      utf8Tail n 0x80 0xBF (code * 64 + m % 64) bytes := by
  have below : m % 64 + 128 ≤ 191 := by omega
  exact utf8Tail_continuation n code bytes (Nat.le_add_left _ _) below

/-- The classes of leading bytes, as numbers. -/
theorem utf8Lead_ofNat {n : Nat} (h : n < 256) :
    utf8Lead (.ofNat n) =
      if 0xC2 ≤ n ∧ n ≤ 0xDF then some (1, 0x80, 0xBF)
      else if n = 0xE0 then some (2, 0xA0, 0xBF)
      else if n = 0xED then some (2, 0x80, 0x9F)
      else if 0xE1 ≤ n ∧ n ≤ 0xEF then some (2, 0x80, 0xBF)
      else if n = 0xF0 then some (3, 0x90, 0xBF)
      else if 0xF1 ≤ n ∧ n ≤ 0xF3 then some (3, 0x80, 0xBF)
      else if n = 0xF4 then some (3, 0x80, 0x8F)
      else none := by
  simp only [utf8Lead, UInt8.le_iff_toNat_le, ← UInt8.toNat_inj, toNat_lead h]
  rfl

/-- A whole sequence of several bytes is decoded to its code point. -/
theorem utf8LossyFrom_whole {n k code : Nat} {low high : UInt8} {bytes rest : List UInt8}
    (fuel : Nat) (big : 128 ≤ n) (byte : n < 256) (lead : utf8Lead (.ofNat n) = some (k, low, high))
    (tail : utf8Tail k low high (n % 2 ^ (6 - k)) bytes = (some code, rest)) :
    utf8LossyFrom (fuel + 1) (.ofNat n :: bytes) = Char.ofNat code :: utf8LossyFrom fuel rest := by
  have long : ¬ UInt8.ofNat n < 0x80 := by
    rw [UInt8.lt_iff_toNat_lt, toNat_lead byte]
    exact Nat.not_lt.mpr big
  rw [utf8LossyFrom, if_neg long, toNat_lead byte]
  simp only [lead, tail]

/-- The class of a three-byte sequence admits its first continuation. -/
theorem utf8Lead_three {v : Nat} (low : 0x800 ≤ v) (scalar : v < 0xD800 ∨ 0xDFFF < v)
    (high : v < 0x10000) : ∃ least greatest,
      utf8Lead (.ofNat (v / 4096 + 0xE0)) = some (2, least, greatest) ∧
        least.toNat ≤ v / 64 % 64 + 128 ∧ v / 64 % 64 + 128 ≤ greatest.toNat := by
  have below : v / 64 % 64 + 128 ≤ 191 := by omega
  rw [utf8Lead_ofNat (by omega), if_neg (by omega)]
  split
  · have above : 160 ≤ v / 64 % 64 + 128 := by omega
    exact ⟨_, _, rfl, above, below⟩
  · split
    · have surrogate : v / 64 % 64 + 128 ≤ 159 := by omega
      exact ⟨_, _, rfl, Nat.le_add_left _ _, surrogate⟩
    · rw [if_pos (by omega)]
      exact ⟨_, _, rfl, Nat.le_add_left _ _, below⟩

/-- The class of a four-byte sequence admits its first continuation. -/
theorem utf8Lead_four {v : Nat} (low : 0x10000 ≤ v) (high : v < 0x110000) : ∃ least greatest,
    utf8Lead (.ofNat (v / 262144 + 0xF0)) = some (3, least, greatest) ∧
      least.toNat ≤ v / 4096 % 64 + 128 ∧ v / 4096 % 64 + 128 ≤ greatest.toNat := by
  have below : v / 4096 % 64 + 128 ≤ 191 := by omega
  rw [utf8Lead_ofNat (by omega), if_neg (by omega), if_neg (by omega), if_neg (by omega),
    if_neg (by omega)]
  split
  · have above : 144 ≤ v / 4096 % 64 + 128 := by omega
    exact ⟨_, _, rfl, above, below⟩
  · split
    · exact ⟨_, _, rfl, Nat.le_add_left _ _, below⟩
    · have last : v / 4096 % 64 + 128 ≤ 143 := by omega
      rw [if_pos (by omega)]
      exact ⟨_, _, rfl, Nat.le_add_left _ _, last⟩

/-- Decoding lossily takes one encoded character off the front. -/
theorem utf8LossyFrom_encode (c : Char) (fuel : Nat) (rest : List UInt8) :
    utf8LossyFrom (fuel + 1) (String.utf8EncodeChar c ++ rest) = c :: utf8LossyFrom fuel rest := by
  have whole : ∀ code, code = c.toNat →
      Char.ofNat code :: utf8LossyFrom fuel rest = c :: utf8LossyFrom fuel rest := by
    intro code h
    rw [h, Char.ofNat_toNat]
  rcases utf8EncodeChar_cases c with
    ⟨one, hc⟩ | ⟨two, bound, hc⟩ | ⟨three, scalar, bound, hc⟩ | ⟨four, bound, hc⟩ <;>
    rw [hc] <;> simp only [List.cons_append, List.nil_append]
  · have small : UInt8.ofNat c.toNat < 0x80 := by
      rw [UInt8.lt_iff_toNat_lt, toNat_lead (by omega)]
      exact one
    rw [utf8LossyFrom, if_pos small, toNat_lead (by omega), Char.ofNat_toNat]
  · have lead : utf8Lead (.ofNat (c.toNat / 64 + 0xC0)) = some (1, 0x80, 0xBF) := by
      rw [utf8Lead_ofNat (by omega), if_pos (by omega)]
    refine (utf8LossyFrom_whole fuel (by omega) (by omega) lead (utf8Tail_next 0 _ _ rest)).trans
      (whole _ ?_)
    omega
  · obtain ⟨low, high, lead, above, below⟩ := utf8Lead_three three scalar bound
    refine (utf8LossyFrom_whole fuel (by omega) (by omega) lead
      ((utf8Tail_continuation 1 _ _ above below).trans (utf8Tail_next 0 _ _ rest))).trans
      (whole _ ?_)
    omega
  · obtain ⟨low, high, lead, above, below⟩ := utf8Lead_four four bound
    refine (utf8LossyFrom_whole fuel (by omega) (by omega) lead
      ((utf8Tail_continuation 2 _ _ above below).trans ((utf8Tail_next 1 _ _ _).trans
        (utf8Tail_next 0 _ _ rest)))).trans (whole _ ?_)
    omega

/-- A text is decoded to itself. -/
theorem utf8Lossy_utf8 (s : String) : utf8Lossy (utf8 s) = s := by
  have all : ∀ (cs : List Char) (fuel : Nat), (cs.flatMap String.utf8EncodeChar).length ≤ fuel →
      utf8LossyFrom fuel (cs.flatMap String.utf8EncodeChar) = cs := by
    intro cs
    induction cs with
    | nil =>
      intro fuel _
      cases fuel <;> rfl
    | cons c cs ih =>
      intro fuel hfuel
      have size := c.utf8Size_pos
      rw [List.flatMap_cons, List.length_append, String.length_utf8EncodeChar] at hfuel
      obtain ⟨fuel, rfl⟩ := Nat.exists_eq_succ_of_ne_zero (by omega : fuel ≠ 0)
      rw [List.flatMap_cons, utf8LossyFrom_encode, ih fuel (by omega)]
  rw [utf8Lossy, utf8_eq_flatMap, all s.toList _ (Nat.le_refl _), String.ofList_toList]

end IrohNix.Lib

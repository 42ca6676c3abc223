import IrohNix.Nix.Settings

namespace IrohNix.Nix
open IrohNix.Lib

/-- The stream goes on with a number, a length or a count, greater than so many. -/
def Overclaims (max : Nat) (stream : Bytes) : Prop :=
  8 ≤ stream.length ∧ max < ofLeBytes (stream.take 8)

instance (max : Nat) (stream : Bytes) : Decidable (Overclaims max stream) :=
  inferInstanceAs (Decidable (_ ∧ _))

/-- The strings a vector can have room for. -/
def maxStrings : Nat := isizeMax / stringSize

theorem allocate_panics {size count : Nat} {r : Reader IoError} :
    (allocate size count).Panics r ↔ isizeMax < size * count := by
  unfold allocate
  by_cases h : isizeMax < size * count
  · rw [if_pos h]
    exact iff_of_true (Reading.panics_panic _ r) h
  · rw [if_neg h]
    exact iff_of_false (Reading.not_panics_pure _ r) h

theorem readU32_returns (r : Reader IoError) : ¬ readU32.Panics r := by
  simp only [readU32, Reading.panics_bind, Reading.not_panics_exactly, Reading.not_panics_pure,
    and_false, exists_false, or_false, not_false_eq_true]

theorem readU64_returns (r : Reader IoError) : ¬ readU64.Panics r := by
  simp only [readU64, Reading.panics_bind, Reading.not_panics_exactly, Reading.not_panics_pure,
    and_false, exists_false, or_false, not_false_eq_true]

theorem readVec_panics {len : Nat} {r : Reader IoError} :
    (readVec len).Panics r ↔ isizeMax < len := by
  simp only [readVec, Reading.panics_bind, allocate_panics, Reading.not_panics_exactly, and_false,
    exists_false, or_false, Nat.one_mul]

theorem skipPadding_returns (len : Nat) (r : Reader IoError) : ¬ (skipPadding len).Panics r := by
  have fits := padding_fits len
  unfold skipPadding
  split
  · simp only [Reading.panics_bind, readVec_panics, Reading.not_panics_pure, and_false,
      exists_false, or_false]
    omega
  · exact Reading.not_panics_pure _ r

theorem fromUtf8_returns (buf : Bytes) (r : Reader IoError) : ¬ (fromUtf8 buf).Panics r := by
  unfold fromUtf8
  split
  · exact Reading.not_panics_pure _ r
  · exact Reading.not_panics_fail _ r

/-- A number that is read is the one the stream goes on with. -/
theorem readU64_overclaims {max : Nat} {r : Reader IoError} :
    (∃ n r', readU64 r = .ok (n, r') ∧ max < n.toNat) ↔ Overclaims max r.rest := by
  constructor
  · intro h
    obtain ⟨n, r', hread, hmax⟩ := h
    obtain ⟨enc, rfl, rfl⟩ := (readU64_accepts _ _ _).mp hread
    have htake : (leBytes 8 n.toNat ++ r'.rest).take 8 = leBytes 8 n.toNat :=
      List.take_left' (leBytes_length 8 _)
    refine ⟨by simp, ?_⟩
    rw [htake, ofLeBytes_leBytes n.toNat_lt]
    exact hmax
  · intro h
    obtain ⟨hlen, hmax⟩ := h
    obtain ⟨bytes, failure⟩ := r
    have htake : (bytes.take 8).length = 8 := List.length_take_of_le hlen
    have hlt : ofLeBytes (bytes.take 8) < UInt64.size := by
      have := ofLeBytes_lt (bytes.take 8)
      rwa [htake] at this
    have hnat : (UInt64.ofNat (ofLeBytes (bytes.take 8))).toNat = ofLeBytes (bytes.take 8) :=
      UInt64.toNat_ofNat_of_lt' hlt
    refine ⟨.ofNat (ofLeBytes (bytes.take 8)), ⟨bytes.drop 8, failure⟩, ?_, by rw [hnat]; exact hmax⟩
    have henc : bytes.take 8 = leBytes 8 (UInt64.ofNat (ofLeBytes (bytes.take 8))).toNat := by
      rw [hnat]
      exact (le_number_iff hlt).mp ⟨htake, rfl⟩
    exact (readU64_accepts _ _ _).mpr ⟨bytes.take 8, henc, by simp⟩

theorem readString_panics (r : Reader IoError) :
    readString.Panics r ↔ Overclaims isizeMax r.rest := by
  simp only [readString, Reading.panics_bind, readU64_returns, readVec_panics, skipPadding_returns,
    fromUtf8_returns, and_false, exists_false, or_false, false_or]
  exact readU64_overclaims

theorem maxStrings_lt {count : Nat} : maxStrings < count ↔ isizeMax < stringSize * count := by
  rw [maxStrings, Nat.div_lt_iff_lt_mul (by decide), Nat.mul_comm]

theorem allocate_ok {size count : Nat} {u : Unit} {r r' : Reader IoError} :
    allocate size count r = .ok (u, r') ↔ size * count ≤ isizeMax ∧ r = r' := by
  rw [allocate_accepts]
  constructor
  · intro h
    obtain ⟨enc, ⟨hmax, rfl⟩, rfl⟩ := h
    exact ⟨hmax, rfl⟩
  · intro h
    obtain ⟨hmax, rfl⟩ := h
    exact ⟨[], ⟨hmax, rfl⟩, rfl⟩

/-- The count is too great, or, after fewer strings than it says, a length is. -/
theorem readStringSet_panics (r : Reader IoError) :
    readStringSet.Panics r ↔ Overclaims maxStrings r.rest ∨
      ∃ (count : UInt64) (strings : List String) (enc rest : Bytes),
        r.rest = leBytes 8 count.toNat ++ (enc ++ rest) ∧ strings.length < count.toNat ∧
        Reading.Sequence StringEnc strings enc ∧ Overclaims isizeMax rest := by
  have inside : ∀ (count : UInt64) (r' : Reader IoError),
      (readString.times count.toNat).Panics r' ↔ ∃ (strings : List String) (enc rest : Bytes),
        strings.length < count.toNat ∧ Reading.Sequence StringEnc strings enc ∧
        r'.rest = enc ++ rest ∧ Overclaims isizeMax rest := fun count r' =>
    Reading.panics_times readString_accepts readString_panics
  simp only [readStringSet, Reading.panics_bind, readU64_returns, allocate_panics, false_or, inside,
    allocate_ok, ← readU64_overclaims, maxStrings_lt]
  constructor
  · intro h
    obtain ⟨count, r', hread, h | ⟨_, _, ⟨_, rfl⟩, strings, enc, rest, hlen, hseq, hrest, hover⟩⟩ := h
    · exact .inl ⟨count, r', hread, h⟩
    · obtain ⟨x, rfl, rfl⟩ := (readU64_accepts _ _ _).mp hread
      exact .inr ⟨count, strings, enc, rest, by rw [hrest], hlen, hseq, hover⟩
  · intro h
    rcases h with ⟨count, r', hread, h⟩ | ⟨count, strings, enc, rest, hr, hlen, hseq, hover⟩
    · exact ⟨count, r', hread, .inl h⟩
    · obtain ⟨bytes, failure⟩ := r
      refine ⟨count, ⟨enc ++ rest, failure⟩, (readU64_accepts _ _ _).mpr ⟨_, rfl, by rw [← hr]⟩, ?_⟩
      by_cases hmax : isizeMax < stringSize * count.toNat
      · exact .inl hmax
      · exact .inr ⟨(), _, ⟨Nat.le_of_not_lt hmax, rfl⟩, strings, enc, rest, hlen, hseq, rfl, hover⟩

/-- A length in a setting, of the key or of the value behind it, is too great. -/
def SettingOverclaims (stream : Bytes) : Prop :=
  ∃ tail, stream = leBytes 4 1 ++ tail ∧ (Overclaims isizeMax tail ∨
    ∃ key enc rest, StringEnc key enc ∧ tail = enc ++ rest ∧ Overclaims isizeMax rest)

theorem readFlagged_panics (flag : UInt32) (r : Reader IoError) :
    (readFlagged flag).Panics r ↔ flag = 1 ∧ (Overclaims isizeMax r.rest ∨
      ∃ key enc rest, StringEnc key enc ∧ r.rest = enc ++ rest ∧ Overclaims isizeMax rest) := by
  unfold readFlagged
  by_cases hzero : flag = 0
  · simp [hzero, Reading.not_panics_pure]
  · rw [if_neg hzero]
    by_cases hone : flag = 1
    · rw [if_neg (by simpa using hone)]
      simp only [hone, Reading.panics_bind, readString_panics, Reading.not_panics_pure, and_false,
        exists_false, or_false, true_and]
      apply or_congr_right
      constructor
      · intro h
        obtain ⟨key, r', hread, h⟩ := h
        obtain ⟨enc, henc, rfl⟩ := (readString_accepts _ _ _).mp hread
        exact ⟨key, enc, r'.rest, henc, rfl, h⟩
      · intro h
        obtain ⟨key, enc, rest, henc, hrest, h⟩ := h
        obtain ⟨bytes, failure⟩ := r
        exact ⟨key, ⟨rest, failure⟩, (readString_accepts _ _ _).mpr ⟨enc, henc, by rw [← hrest]⟩, h⟩
    · rw [if_pos hone]
      simp [hone, Reading.not_panics_fail]

theorem readSetting_panics (r : Reader IoError) :
    readSetting.Panics r ↔ SettingOverclaims r.rest := by
  simp only [readSetting, Reading.panics_bind, readU32_returns, false_or, readFlagged_panics]
  constructor
  · intro h
    obtain ⟨flag, r', hread, rfl, h⟩ := h
    obtain ⟨enc, rfl, rfl⟩ := (readU32_accepts _ _ _).mp hread
    exact ⟨r'.rest, rfl, h⟩
  · intro h
    obtain ⟨tail, hr, h⟩ := h
    obtain ⟨bytes, failure⟩ := r
    have hr : bytes = leBytes 4 1 ++ tail := hr
    subst hr
    exact ⟨1, ⟨tail, failure⟩, (readU32_accepts _ _ _).mpr ⟨_, rfl, rfl⟩, rfl, h⟩

/-- What comes first in a sequence of settings is what is read. -/
theorem readSetting_head {r : Reader IoError} {setting : String × String}
    {enc encs rest : Bytes} (henc : SettingEnc setting enc) (hr : r.rest = enc ++ encs ++ rest) :
    readSetting r = .ok (some setting, ⟨encs ++ rest, r.failure⟩) := by
  obtain ⟨bytes, failure⟩ := r
  apply (readSetting_accepts _ _ _).mpr
  exact ⟨enc, henc, by rw [← List.append_assoc, ← hr]⟩

/-- Some setting, after others, has a length that is too great. -/
theorem readSettingsFrom_panics (settings : HashMap String String) (r : Reader IoError) :
    (∃ msg, readSettingsFrom settings r = .error (.panic msg)) ↔ ∃ entries enc rest,
      Reading.Sequence SettingEnc entries enc ∧ r.rest = enc ++ rest ∧ SettingOverclaims rest := by
  -- what the loop does once a setting was read, or could not be
  have turn : ∀ {settings : HashMap String String} {r : Reader IoError} {result},
      readSetting r = result → readSettingsFrom settings r = match result with
        | .error stop => .error stop
        | .ok (none, r') => .ok (settings, r')
        | .ok (some setting, r') => readSettingsFrom (settings.insert setting.1 setting.2) r' := by
    intro settings r result hread
    rw [readSettingsFrom]
    split <;> rename_i h <;> rw [hread] at h <;> subst h <;> rfl
  have not_first : ∀ {r r' : Reader IoError} {setting : Option (String × String)},
      readSetting r = .ok (setting, r') → ¬ SettingOverclaims r.rest := by
    intro r r' setting hread hover
    obtain ⟨msg, h⟩ := (readSetting_panics r).mpr hover
    rw [hread] at h
    cases h
  induction settings, r using readSettingsFrom.induct with
  | case1 settings r stop hread =>
    rw [turn hread]
    constructor
    · intro h
      obtain ⟨msg, h⟩ := h
      cases h
      exact ⟨[], [], r.rest, .nil, rfl, (readSetting_panics r).mp ⟨msg, hread⟩⟩
    · intro h
      obtain ⟨entries, enc, rest, hseq, hr, hover⟩ := h
      cases hseq with
      | nil =>
        obtain ⟨msg, h⟩ := (readSetting_panics r).mpr (by simpa [hr] using hover)
        rw [hread] at h
        cases h
        exact ⟨msg, rfl⟩
      | cons head tail =>
        rw [readSetting_head head hr] at hread
        cases hread
  | case2 settings r r' hread =>
    rw [turn hread]
    refine iff_of_false (by simp) fun h => ?_
    obtain ⟨entries, enc, rest, hseq, hr, hover⟩ := h
    cases hseq with
    | nil => exact not_first hread (by simpa [hr] using hover)
    | cons head tail =>
      rw [readSetting_head head hr] at hread
      cases hread
  | case3 settings r setting r' hread _ ih =>
    rw [turn hread]
    apply ih.trans
    constructor
    · intro h
      obtain ⟨entries, enc, rest, hseq, hr, hover⟩ := h
      obtain ⟨x, hx, rfl⟩ := (readSetting_accepts _ _ _).mp hread
      exact ⟨setting :: entries, x ++ enc, rest, .cons hx hseq, by simp [hr], hover⟩
    · intro h
      obtain ⟨entries, enc, rest, hseq, hr, hover⟩ := h
      cases hseq with
      | nil => exact absurd (by simpa [hr] using hover) (not_first hread)
      | @cons _ entries _ encs head tail =>
        rw [readSetting_head head hr] at hread
        cases hread
        exact ⟨entries, encs, rest, tail, rfl, hover⟩

/-- A reader returns, with a result or an error, exactly if no length or count that comes
after well-formed ones claims more than an allocation may have. -/
theorem returns_unless_overclaimed (stream : Bytes) (failure : Option IoError) :
    (readString.Returns ⟨stream, failure⟩ ↔ ¬ Overclaims isizeMax stream) ∧
    (readStringSet.Returns ⟨stream, failure⟩ ↔ ¬ Overclaims maxStrings stream ∧
      ∀ (count : UInt64) (strings : List String) (enc rest : Bytes),
        stream = leBytes 8 count.toNat ++ (enc ++ rest) → strings.length < count.toNat →
        Reading.Sequence StringEnc strings enc → ¬ Overclaims isizeMax rest) ∧
    (readSettings.Returns ⟨stream, failure⟩ ↔ ∀ entries enc rest,
      Reading.Sequence SettingEnc entries enc → stream = enc ++ rest →
        ¬ SettingOverclaims rest) := by
  refine ⟨?_, ?_, ?_⟩
  · rw [Reading.returns_iff, readString_panics]
  · rw [Reading.returns_iff, readStringSet_panics, not_or]
    apply and_congr_right
    intro _
    constructor
    · intro h count strings enc rest hr hlen hseq hover
      exact h ⟨count, strings, enc, rest, hr, hlen, hseq, hover⟩
    · intro h hp
      obtain ⟨count, strings, enc, rest, hr, hlen, hseq, hover⟩ := hp
      exact h count strings enc rest hr hlen hseq hover
  · rw [Reading.returns_iff, Reading.Panics, readSettings, readSettingsFrom_panics]
    constructor
    · intro h entries enc rest hseq hr hover
      exact h ⟨entries, enc, rest, hseq, hr, hover⟩
    · intro h hp
      obtain ⟨entries, enc, rest, hseq, hr, hover⟩ := hp
      exact h entries enc rest hseq hr hover

/-- Eight bytes of ones claim a length of 2^64 - 1. -/
theorem huge_length_panics : ¬ readString.Returns ⟨List.replicate 8 0xFF, none⟩ ∧
    ¬ readStringSet.Returns ⟨List.replicate 8 0xFF, none⟩ ∧
    ¬ readSettings.Returns ⟨leBytes 4 1 ++ List.replicate 8 0xFF, none⟩ := by
  have claims : ∀ max ≤ isizeMax, Overclaims max (List.replicate 8 0xFF) := by
    intro max hmax
    have hnumber : ofLeBytes ((List.replicate 8 0xFF).take 8) = 2 ^ 64 - 1 := by decide
    refine ⟨by simp, ?_⟩
    rw [hnumber]
    unfold isizeMax at hmax
    omega
  simp only [Reading.returns_iff, not_not]
  refine ⟨(readString_panics _).mpr (claims _ (le_refl _)),
    (readStringSet_panics _).mpr (.inl (claims _ (Nat.div_le_self _ _))), ?_⟩
  apply (readSettingsFrom_panics ∅ _).mpr
  exact ⟨[], [], _, .nil, rfl, _, rfl, .inl (claims _ (le_refl _))⟩

end IrohNix.Nix

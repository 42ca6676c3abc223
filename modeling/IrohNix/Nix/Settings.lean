import IrohNix.Nix.Protocol
import Mathlib.Data.List.Induction

namespace IrohNix.Nix
open IrohNix.Lib

/-- What follows a flag: nothing more behind the terminating one. -/
def readFlagged (flag : UInt32) : NixRead (Option (String × String)) :=
  if flag = 0 then pure none
  else if flag ≠ 1 then
    .fail (.protocol ("unexpected settings flag: " ++ toString flag.toNat))
  else do
    let key ← readString
    let value ← readString
    pure (some (key, value))

/-- One turn of the loop of `read_settings`. -/
def readSetting : NixRead (Option (String × String)) := do
  let flag ← readU32
  readFlagged flag

/-- A setting as it may stand in a stream. -/
def SettingEnc (setting : String × String) (enc : Bytes) : Prop :=
  ∃ key value, enc = leBytes 4 1 ++ (key ++ value) ∧ StringEnc setting.1 key ∧
    StringEnc setting.2 value

theorem readFlagged_accepts (flag : UInt32) : (readFlagged flag).Accepts fun setting enc =>
    match setting with
    | none => flag = 0 ∧ enc = []
    | some setting => flag = 1 ∧ ∃ key value, enc = key ++ value ∧ StringEnc setting.1 key ∧
        StringEnc setting.2 value := by
  unfold readFlagged
  by_cases hzero : flag = 0
  · rw [if_pos hzero]
    apply (Reading.accepts_pure none).congr
    intro setting enc
    cases setting <;> simp [hzero]
  · rw [if_neg hzero]
    by_cases hone : flag = 1
    · rw [if_neg (by simpa using hone)]
      apply (readString_accepts.bind fun key => readString_accepts.bind fun value =>
        Reading.accepts_pure _).congr
      intro setting enc
      constructor
      · intro h
        obtain ⟨key, x, _, hkey, ⟨value, y, _, hvalue, ⟨rfl, rfl⟩, rfl⟩, rfl⟩ := h
        exact ⟨hone, x, y, by simp, hkey, hvalue⟩
      · intro h
        cases setting with
        | none => exact absurd h.1 hzero
        | some setting =>
          obtain ⟨_, key, value, rfl, hkey, hvalue⟩ := h
          exact ⟨_, key, _, hkey, ⟨_, value, [], hvalue, ⟨rfl, rfl⟩, rfl⟩, by simp⟩
    · rw [if_pos hone]
      apply (Reading.accepts_fail _).congr
      intro setting enc
      cases setting <;> simp [hzero, hone]

theorem readSetting_accepts : readSetting.Accepts fun setting enc =>
    match setting with
    | none => enc = leBytes 4 0
    | some setting => SettingEnc setting enc := by
  apply (readU32_accepts.bind readFlagged_accepts).congr
  intro setting enc
  cases setting with
  | none =>
    constructor
    · intro h
      obtain ⟨flag, x, y, rfl, ⟨rfl, rfl⟩, rfl⟩ := h
      exact List.append_nil _
    · intro h
      exact ⟨0, enc, [], h, ⟨rfl, rfl⟩, (List.append_nil _).symm⟩
  | some setting =>
    constructor
    · intro h
      obtain ⟨flag, x, y, rfl, ⟨rfl, key, value, rfl, hkey, hvalue⟩, rfl⟩ := h
      exact ⟨key, value, rfl, hkey, hvalue⟩
    · intro h
      obtain ⟨key, value, rfl, hkey, hvalue⟩ := h
      exact ⟨1, _, _, rfl, ⟨rfl, key, value, rfl, hkey, hvalue⟩, rfl⟩

/-- A setting takes at least its flag. -/
theorem readSetting_shorter {r r' : Reader IoError} {setting : Option (String × String)}
    (h : readSetting r = .ok (setting, r')) : r'.rest.length < r.rest.length := by
  obtain ⟨enc, henc, rfl⟩ := (readSetting_accepts _ _ _).mp h
  have hpos : 4 ≤ enc.length := by
    cases setting with
    | none => simp [show enc = _ from henc]
    | some setting =>
      obtain ⟨key, value, rfl, _⟩ := henc
      simp
  simp only [List.length_append]
  omega

def readSettingsFrom (settings : HashMap String String) (r : Reader IoError) :
    Except (Stop Error) (HashMap String String × Reader IoError) :=
  match h : readSetting r with
  | .error stop => .error stop
  | .ok (none, r') => .ok (settings, r')
  | .ok (some setting, r') =>
    have := readSetting_shorter h
    readSettingsFrom (settings.insert setting.1 setting.2) r'
termination_by r.rest.length

/-- Read settings from the build-hook initialization protocol. -/
def readSettings : NixRead (HashMap String String) := readSettingsFrom ∅

/-- The map left when settings are put into one in order. -/
def insertAll (settings : HashMap String String) (entries : List (String × String)) :
    HashMap String String :=
  entries.foldl (fun settings entry => settings.insert entry.1 entry.2) settings

/-- The last value of each key wins. -/
theorem get_insertAll (entries : List (String × String)) (key : String) :
    (insertAll ∅ entries).get? key =
      (entries.filter (fun entry => entry.1 = key)).getLast?.map Prod.snd := by
  induction entries using List.reverseRecOn with
  | nil => rfl
  | append_singleton entries entry ih =>
    rw [insertAll, List.foldl_append, List.foldl_cons, List.foldl_nil, ← insertAll,
      HashMap.get_insert, List.filter_append, ih]
    by_cases he : key = entry.1
    · simp [he]
    · simp [he, Ne.symm he]

theorem readSettingsFrom_reads {entries : List (String × String)} {enc : Bytes}
    (h : Reading.Sequence SettingEnc entries enc) (settings : HashMap String String) (rest : Bytes)
    (failure : Option IoError) :
    readSettingsFrom settings ⟨enc ++ (leBytes 4 0 ++ rest), failure⟩ =
      .ok (insertAll settings entries, ⟨rest, failure⟩) := by
  induction h generalizing settings with
  | nil =>
    have flag : readSetting ⟨[] ++ (leBytes 4 0 ++ rest), failure⟩ = .ok (none, ⟨rest, failure⟩) :=
      readSetting_accepts.run rfl rest failure
    unfold readSettingsFrom
    split <;> rename_i hread <;> rw [flag] at hread <;> cases hread
    rfl
  | @cons setting entries enc encs head tail ih =>
    have first : readSetting ⟨enc ++ encs ++ (leBytes 4 0 ++ rest), failure⟩ =
        .ok (some setting, ⟨encs ++ (leBytes 4 0 ++ rest), failure⟩) := by
      rw [List.append_assoc]
      exact readSetting_accepts.run head _ failure
    unfold readSettingsFrom
    split <;> rename_i hread <;> rw [first] at hread <;> cases hread
    exact ih _

end IrohNix.Nix

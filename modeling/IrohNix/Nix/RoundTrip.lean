import IrohNix.Lib.Collect
import IrohNix.Nix.Settings

namespace IrohNix.Nix
open IrohNix.Lib

/-- A string, or a vector of strings, that there can be in memory. -/
def StringFits (s : String) : Prop := (utf8 s).length ≤ isizeMax

def StringsFit (strings : List String) : Prop :=
  stringSize * strings.length ≤ isizeMax ∧ ∀ s ∈ strings, StringFits s

/-- What `write_string` writes. -/
def stringBytes (s : String) : Bytes :=
  leBytes 8 (utf8 s).length ++ utf8 s ++ List.replicate (padding (utf8 s).length) 0

theorem stringBytes_enc {s : String} (h : StringFits s) : StringEnc s (stringBytes s) :=
  ⟨_, rfl, List.length_replicate, h⟩

theorem sequence_flatMap {α : Type} {Enc : α → Bytes → Prop} {f : α → Bytes} {xs : List α}
    (h : ∀ x ∈ xs, Enc x (f x)) : Reading.Sequence Enc xs (xs.flatMap f) := by
  induction xs with
  | nil => exact .nil
  | cons x xs ih => exact .cons (h x (by simp)) (ih fun y hy => h y (by simp [hy]))

theorem writeBytes_emits (buf : Bytes) : Emits (writeBytes buf) (some buf) := .writeAll _ buf

theorem writeU32_emits (n : UInt32) : Emits (writeU32 n) (some (leBytes 4 n.toNat)) :=
  writeBytes_emits _

theorem writeU64_emits (n : UInt64) : Emits (writeU64 n) (some (leBytes 8 n.toNat)) :=
  writeBytes_emits _

theorem writePadding_emits (len : Nat) :
    Emits (writePadding len) (some (List.replicate (padding len) 0)) := by
  unfold writePadding
  by_cases h : padding len > 0
  · rw [if_pos h]
    exact writeBytes_emits _
  · rw [if_neg h, Nat.eq_zero_of_not_pos h]
    exact .nothing

theorem writeString_emits (s : String) : Emits (writeString s) (some (stringBytes s)) := by
  have h := (writeU64_emits (.ofNat (utf8 s).length)).bind
    ((writeBytes_emits (utf8 s)).bind (writePadding_emits (utf8 s).length))
  rw [leBytes_u64] at h
  simpa [stringBytes, writeString] using h

/-- Writing that never has nothing to write, done for each in turn. -/
theorem emits_each {α E : Type} {f : α → Writing E Unit} {g : α → Bytes}
    (h : ∀ x, Emits (f x) (some (g x))) (xs : List α) :
    Emits (xs.forM f) (some (xs.flatMap g)) := by
  have each := Emits.forM fun x (_ : x ∈ xs) => h x
  have all : (xs.mapM fun x => some (g x)) = some (xs.map g) := by
    rw [mapM_eq_some, List.map_map]
    rfl
  rw [all, Option.map_some, ← List.flatMap_def] at each
  exact each

theorem writeStringSet_emits (strings : List String) : Emits (writeStringSet strings)
    (some (leBytes 8 strings.length ++ strings.flatMap stringBytes)) := by
  have h := (writeU64_emits (.ofNat strings.length)).bind (emits_each writeString_emits strings)
  rw [leBytes_u64] at h
  simpa [writeStringSet] using h

/-- What the protocol is made of. -/
inductive Value where
  | u32 (n : UInt32)
  | u64 (n : UInt64)
  | string (s : String)
  | stringSet (strings : List String)
deriving DecidableEq

inductive Kind where
  | u32
  | u64
  | string
  | stringSet
deriving DecidableEq

def Value.kind : Value → Kind
  | .u32 _ => .u32
  | .u64 _ => .u64
  | .string _ => .string
  | .stringSet _ => .stringSet

def Value.Fits : Value → Prop
  | .u32 _ | .u64 _ => True
  | .string s => StringFits s
  | .stringSet strings => StringsFit strings

def Value.write : Value → NixWrite
  | .u32 n => writeU32 n
  | .u64 n => writeU64 n
  | .string s => writeString s
  | .stringSet strings => writeStringSet strings

/-- The reader that matches the writer. -/
def Kind.read : Kind → NixRead Value
  | .u32 => do
    let n ← readU32
    pure (.u32 n)
  | .u64 => do
    let n ← readU64
    pure (.u64 n)
  | .string => do
    let s ← readString
    pure (.string s)
  | .stringSet => do
    let strings ← readStringSet
    pure (.stringSet strings)

def readValues : List Kind → NixRead (List Value)
  | [] => pure []
  | kind :: kinds => do
    let value ← kind.read
    let values ← readValues kinds
    pure (value :: values)

/-- The bytes of a value. -/
def Value.bytes : Value → Bytes
  | .u32 n => leBytes 4 n.toNat
  | .u64 n => leBytes 8 n.toNat
  | .string s => stringBytes s
  | .stringSet strings => leBytes 8 strings.length ++ strings.flatMap stringBytes

theorem write_emits (value : Value) : Emits value.write (some value.bytes) := by
  cases value with
  | u32 n => exact writeU32_emits n
  | u64 n => exact writeU64_emits n
  | string s => exact writeString_emits s
  | stringSet strings => exact writeStringSet_emits strings

theorem bind_pure_run {α β : Type} {m : NixRead α} {f : α → β} {r r' : Reader IoError} {a : α}
    (h : m r = .ok (a, r')) : (m >>= fun a => pure (f a)) r = .ok (f a, r') :=
  Reading.bind_ok.mpr ⟨a, r', h, rfl⟩

/-- Every value is read back, whatever follows it. -/
theorem read_bytes {value : Value} (fits : value.Fits) (rest : Bytes) (failure : Option IoError) :
    value.kind.read ⟨value.bytes ++ rest, failure⟩ = .ok (value, ⟨rest, failure⟩) := by
  cases value with
  | u32 n => exact bind_pure_run (readU32_accepts.run rfl rest failure)
  | u64 n => exact bind_pure_run (readU64_accepts.run rfl rest failure)
  | string s => exact bind_pure_run (readString_accepts.run (stringBytes_enc fits) rest failure)
  | stringSet strings =>
    obtain ⟨size, each⟩ := fits
    exact bind_pure_run (readStringSet_accepts.run
      ⟨_, rfl, sequence_flatMap fun s hs => stringBytes_enc (each s hs), size⟩ rest failure)

theorem readValues_bytes {values : List Value} (fit : ∀ v ∈ values, v.Fits) (rest : Bytes)
    (failure : Option IoError) :
    readValues (values.map Value.kind) ⟨values.flatMap Value.bytes ++ rest, failure⟩ =
      .ok (values, ⟨rest, failure⟩) := by
  induction values with
  | nil => rfl
  | cons value values ih =>
    rw [List.map_cons, List.flatMap_cons, List.append_assoc, readValues]
    apply Reading.bind_ok.mpr
    refine ⟨value, _, read_bytes (fit value (by simp)) _ _, ?_⟩
    exact bind_pure_run (ih fun v hv => fit v (by simp [hv]))

/-- How a client of the hook writes its settings. -/
def writeSettings (settings : List (String × String)) : NixWrite := do
  settings.forM fun setting => do
    writeU32 1
    writeString setting.1
    writeString setting.2
  writeU32 0

def settingBytes (setting : String × String) : Bytes :=
  leBytes 4 1 ++ (stringBytes setting.1 ++ stringBytes setting.2)

theorem writeSettings_emits (settings : List (String × String)) :
    Emits (writeSettings settings) (some (settings.flatMap settingBytes ++ leBytes 4 0)) := by
  have one : ∀ setting : String × String, Emits (do
      writeU32 1
      writeString setting.1
      writeString setting.2) (some (settingBytes setting)) := fun setting =>
    (writeU32_emits 1).bind ((writeString_emits setting.1).bind (writeString_emits setting.2))
  exact (emits_each one settings).bind (writeU32_emits 0)

/-- Values in memory, written in any sequence and however the writer takes them, are read
back in order, and so are settings, as a map; what follows them is left. -/
theorem written_read_back :
    (∀ (values : List { v : Value // v.Fits }) (further : Bytes) (failure : Option IoError),
      (∀ s t, ((values.map Subtype.val).forM Value.write).on s = (.ok (), t) →
        ∃ written, t.written = s.written ++ written ∧
          readValues (values.map fun v => v.val.kind) ⟨written ++ further, failure⟩ =
            .ok (values.map Subtype.val, ⟨further, failure⟩)) ∧
      ∀ s, s.Accepting → ∃ t, ((values.map Subtype.val).forM Value.write).on s = (.ok (), t)) ∧
    ∀ (settings : List { e : String × String // StringFits e.1 ∧ StringFits e.2 })
      (further : Bytes) (failure : Option IoError),
      (∀ s t, (writeSettings (settings.map Subtype.val)).on s = (.ok (), t) →
        ∃ written map, t.written = s.written ++ written ∧
          readSettings ⟨written ++ further, failure⟩ = .ok (map, ⟨further, failure⟩) ∧
          ∀ key, map.get? key = ((settings.map Subtype.val).filter
            (fun e => e.1 = key)).getLast?.map Prod.snd) ∧
      ∀ s, s.Accepting → ∃ t, (writeSettings (settings.map Subtype.val)).on s = (.ok (), t) := by
  constructor
  · intro values further failure
    have emits := emits_each write_emits (values.map Subtype.val)
    constructor
    · intro s t h
      obtain ⟨b, hb, hw⟩ := emits.exactly s t h
      cases hb
      refine ⟨_, hw, ?_⟩
      have fit : ∀ v ∈ values.map Subtype.val, v.Fits := by
        intro v hv
        obtain ⟨⟨v, fits⟩, _, rfl⟩ := List.mem_map.mp hv
        exact fits
      simpa using readValues_bytes fit further failure
    · intro s hs
      obtain ⟨t, ht, _⟩ := emits.succeeds s hs rfl
      exact ⟨t, ht⟩
  · intro settings further failure
    have emits := writeSettings_emits (settings.map Subtype.val)
    constructor
    · intro s t h
      obtain ⟨b, hb, hw⟩ := emits.exactly s t h
      cases hb
      have fit : ∀ e ∈ settings.map Subtype.val, SettingEnc e (settingBytes e) := by
        intro e he
        obtain ⟨⟨e, hkey, hvalue⟩, _, rfl⟩ := List.mem_map.mp he
        exact ⟨_, _, rfl, stringBytes_enc hkey, stringBytes_enc hvalue⟩
      refine ⟨_, _, hw, ?_, get_insertAll _⟩
      rw [List.append_assoc]
      exact readSettingsFrom_reads (sequence_flatMap fit) ∅ further failure
    · intro s hs
      obtain ⟨t, ht, _⟩ := emits.succeeds s hs rfl
      exact ⟨t, ht⟩

/-- One value of each kind. -/
def someValues : List { v : Value // v.Fits } :=
  [⟨.u32 7, trivial⟩, ⟨.u64 0x4558494e, trivial⟩,
    ⟨.string "/nix/store/0123-é", by simp only [Value.Fits, StringFits]; decide +kernel⟩,
    ⟨.stringSet ["out", ""], by simp only [Value.Fits, StringsFit, StringFits]; decide +kernel⟩]

/-- A setting that is given twice. -/
def someSettings : List { e : String × String // StringFits e.1 ∧ StringFits e.2 } :=
  [⟨("cores", "4"), by simp only [StringFits]; decide +kernel⟩,
    ⟨("cores", "16"), by simp only [StringFits]; decide +kernel⟩]

theorem values_settings_read_back :
    (∃ t, ((someValues.map Subtype.val).forM Value.write).on ⟨[.accept 3, .interrupted], []⟩ =
        (.ok (), t) ∧
      readValues [.u32, .u64, .string, .stringSet] ⟨t.written ++ [1], none⟩ =
        .ok ([.u32 7, .u64 0x4558494e, .string "/nix/store/0123-é", .stringSet ["out", ""]],
          ⟨[1], none⟩)) ∧
    ∃ t map, (writeSettings [("cores", "4"), ("cores", "16")]).on ⟨[.accept 3], []⟩ = (.ok (), t) ∧
      readSettings ⟨t.written, none⟩ = .ok (map, ⟨[], none⟩) ∧ map.get? "cores" = some "16" := by
  obtain ⟨values, settings⟩ := written_read_back
  constructor
  · obtain ⟨sound, succeeds⟩ := values someValues [1] none
    obtain ⟨t, ht⟩ := succeeds ⟨[.accept 3, .interrupted], []⟩ (by simp [Sink.Accepting])
    obtain ⟨written, hwritten, hread⟩ := sound _ t ht
    rw [List.nil_append] at hwritten
    exact ⟨t, ht, hwritten ▸ hread⟩
  · obtain ⟨sound, succeeds⟩ := settings someSettings [] none
    obtain ⟨t, ht⟩ := succeeds ⟨[.accept 3], []⟩ (by simp [Sink.Accepting])
    obtain ⟨written, map, hwritten, hread, hget⟩ := sound _ t ht
    rw [List.nil_append] at hwritten
    rw [List.append_nil, ← hwritten] at hread
    exact ⟨t, map, ht, hread, hget "cores"⟩

end IrohNix.Nix

import IrohNix.Basic
import IrohNix.Lib.HashMap
import IrohNix.Lib.Reader
import IrohNix.Lib.Sink
import IrohNix.Lib.Utf8

namespace IrohNix.Nix
open IrohNix.Lib

/-- An error of `std::io`, its kind and text. -/
abbrev IoError := ErrorKind × String

/-- Reading from a file or a pipe. The only panic here is that of an allocation. -/
abbrev NixRead (α : Type) := Reading IoError Error α

abbrev NixWrite := Writing Error Unit

def ioError (e : IoError) : Error := .io e.1 e.2

/-- `Error::Io` for a `read_exact` that meets the end of the stream. -/
def unexpectedEof : Error := .io .other "failed to fill whole buffer"

/-- The most bytes an allocation may have, on a 64-bit target. -/
def isizeMax : Nat := 2 ^ 63 - 1

/-- A vector of so many elements of a size is made. The memory is taken to be there for every
size that an allocation may have. -/
def allocate (size count : Nat) : NixRead Unit :=
  if isizeMax < size * count then .panic "capacity overflow" else pure ()

def readU32 : NixRead UInt32 := do
  let buf ← .exactly 4 (.protocol "unexpected EOF reading u32") ioError
  pure (.ofNat (ofLeBytes buf))

def readU64 : NixRead UInt64 := do
  let buf ← .exactly 8 (.protocol "unexpected EOF reading u64") ioError
  pure (.ofNat (ofLeBytes buf))

/-- Into a vector made for so many bytes. -/
def readVec (len : Nat) : NixRead Bytes := do
  allocate 1 len
  .exactly len unexpectedEof ioError

/-- What is missing to a multiple of 8. -/
def padding (len : Nat) : Nat := (8 - len % 8) % 8

def skipPadding (len : Nat) : NixRead Unit :=
  if padding len > 0 then do
    let _ ← readVec (padding len)
  else pure ()

def fromUtf8 (buf : Bytes) : NixRead String :=
  match utf8Decode buf with
  | some s => pure s
  | none => .fail (.protocol ("invalid UTF-8 in string: " ++ fromUtf8Error buf))

/-- Read a string (Nix CommonProto format). -/
def readString : NixRead String := do
  let len ← readU64
  let buf ← readVec len.toNat
  skipPadding len.toNat
  fromUtf8 buf

/-- The size of a `String`: its pointer, capacity and length. -/
def stringSize : Nat := 24

/-- Read a set of strings (Nix CommonProto format). -/
def readStringSet : NixRead (List String) := do
  let count ← readU64
  allocate stringSize count.toNat
  readString.times count.toNat

def writeBytes (buf : Bytes) : NixWrite := Writing.writeAll (fun e => .io .other e) buf

def writeU32 (value : UInt32) : NixWrite := writeBytes (leBytes 4 value.toNat)

def writeU64 (value : UInt64) : NixWrite := writeBytes (leBytes 8 value.toNat)

def writePadding (len : Nat) : NixWrite :=
  if padding len > 0 then writeBytes (List.replicate (padding len) 0) else pure ()

def writeString (s : String) : NixWrite := do
  writeU64 (.ofNat (utf8 s).length)
  writeBytes (utf8 s)
  writePadding (utf8 s).length

def writeStringSet (strings : List String) : NixWrite := do
  writeU64 (.ofNat strings.length)
  strings.forM writeString

/-- A string as it may stand in a stream. What it is padded with is not looked at. -/
def StringEnc (s : String) (enc : Bytes) : Prop :=
  ∃ pad, enc = leBytes 8 (utf8 s).length ++ utf8 s ++ pad ∧ pad.length = padding (utf8 s).length ∧
    (utf8 s).length ≤ isizeMax

theorem padding_lt (len : Nat) : padding len < 8 := Nat.mod_lt _ (by decide)

/-- Bytes that make a number of `w` bytes are its bytes. -/
theorem le_number_iff {w n : Nat} (hn : n < 256 ^ w) {bytes : Bytes} :
    (bytes.length = w ∧ ofLeBytes bytes = n) ↔ bytes = leBytes w n := by
  constructor
  · intro h
    obtain ⟨rfl, rfl⟩ := h
    exact (leBytes_ofLeBytes bytes).symm
  · intro h
    subst h
    exact ⟨leBytes_length w n, ofLeBytes_leBytes hn⟩

theorem readU32_accepts : readU32.Accepts fun n enc => enc = leBytes 4 n.toNat := by
  apply ((Reading.accepts_exactly _ _ _).bind fun _ => Reading.accepts_pure _).congr
  intro n enc
  rw [← le_number_iff n.toNat_lt]
  constructor
  · intro h
    obtain ⟨bytes, x, y, ⟨rfl, hlen⟩, ⟨rfl, rfl⟩, rfl⟩ := h
    have hlt := hlen ▸ ofLeBytes_lt x
    exact ⟨by simpa using hlen, by simp [UInt32.toNat_ofNat_of_lt' hlt]⟩
  · intro h
    exact ⟨enc, enc, [], ⟨rfl, h.1⟩, ⟨by rw [h.2, UInt32.ofNat_toNat], rfl⟩, by simp⟩

theorem readU64_accepts : readU64.Accepts fun n enc => enc = leBytes 8 n.toNat := by
  apply ((Reading.accepts_exactly _ _ _).bind fun _ => Reading.accepts_pure _).congr
  intro n enc
  rw [← le_number_iff n.toNat_lt]
  constructor
  · intro h
    obtain ⟨bytes, x, y, ⟨rfl, hlen⟩, ⟨rfl, rfl⟩, rfl⟩ := h
    have hlt := hlen ▸ ofLeBytes_lt x
    exact ⟨by simpa using hlen, by simp [UInt64.toNat_ofNat_of_lt' hlt]⟩
  · intro h
    exact ⟨enc, enc, [], ⟨rfl, h.1⟩, ⟨by rw [h.2, UInt64.ofNat_toNat], rfl⟩, by simp⟩

theorem allocate_accepts (size count : Nat) :
    (allocate size count).Accepts fun _ enc => size * count ≤ isizeMax ∧ enc = [] := by
  unfold allocate
  by_cases h : isizeMax < size * count
  · rw [if_pos h]
    apply (Reading.accepts_panic _).congr
    intro _ enc
    simp [Nat.not_le.mpr h]
  · rw [if_neg h]
    apply (Reading.accepts_pure ()).congr
    intro _ enc
    simp [Nat.le_of_not_lt h]

theorem readVec_accepts (len : Nat) :
    (readVec len).Accepts fun buf enc => enc = buf ∧ buf.length = len ∧ len ≤ isizeMax := by
  apply ((allocate_accepts 1 len).bind fun _ => Reading.accepts_exactly _ _ _).congr
  intro buf enc
  constructor
  · intro h
    obtain ⟨_, x, y, ⟨hlen, rfl⟩, ⟨rfl, rfl⟩, rfl⟩ := h
    exact ⟨rfl, rfl, by omega⟩
  · intro h
    obtain ⟨rfl, hlen, hmax⟩ := h
    exact ⟨(), [], enc, ⟨by omega, rfl⟩, ⟨rfl, hlen⟩, rfl⟩

theorem padding_fits (len : Nat) : padding len ≤ isizeMax := by
  have := padding_lt len
  unfold isizeMax
  omega

theorem skipPadding_accepts (len : Nat) :
    (skipPadding len).Accepts fun _ enc => enc.length = padding len := by
  unfold skipPadding
  by_cases h : padding len > 0
  · rw [if_pos h]
    apply ((readVec_accepts _).bind fun _ => Reading.accepts_pure _).congr
    intro _ enc
    constructor
    · intro h
      obtain ⟨_, x, y, ⟨rfl, hlen, _⟩, ⟨_, rfl⟩, rfl⟩ := h
      simpa using hlen
    · intro h
      exact ⟨enc, enc, [], ⟨rfl, h, padding_fits len⟩, ⟨rfl, rfl⟩, by simp⟩
  · rw [if_neg h]
    apply (Reading.accepts_pure ()).congr
    intro _ enc
    rw [Nat.eq_zero_of_not_pos h, List.length_eq_zero_iff]
    simp

theorem fromUtf8_accepts (buf : Bytes) :
    (fromUtf8 buf).Accepts fun s enc => utf8 s = buf ∧ enc = [] := by
  unfold fromUtf8
  cases h : utf8Decode buf with
  | some s =>
    apply (Reading.accepts_pure s).congr
    intro t enc
    rw [← utf8Decode_eq_some.mp h, utf8_inj]
  | none =>
    apply (Reading.accepts_fail _).congr
    intro t enc
    refine iff_of_false id fun ht => ?_
    rw [utf8Decode_eq_some.mpr ht.1] at h
    cases h

theorem readString_accepts : readString.Accepts StringEnc := by
  apply (readU64_accepts.bind fun len => (readVec_accepts len.toNat).bind fun buf =>
    (skipPadding_accepts len.toNat).bind fun _ => fromUtf8_accepts buf).congr
  intro s enc
  constructor
  · intro h
    obtain ⟨len, x, _, rfl, ⟨_, y, _, ⟨rfl, hlen, hmax⟩, ⟨_, pad, _, hpad, ⟨rfl, rfl⟩, rfl⟩, rfl⟩,
      rfl⟩ := h
    exact ⟨pad, by simp [hlen], by rw [hlen, hpad], by omega⟩
  · intro h
    obtain ⟨pad, rfl, hpad, hmax⟩ := h
    have hlen : (UInt64.ofNat (utf8 s).length).toNat = (utf8 s).length := by
      apply UInt64.toNat_ofNat_of_lt'
      have hsize : UInt64.size = 2 ^ 64 := rfl
      unfold isizeMax at hmax
      omega
    exact ⟨.ofNat (utf8 s).length, leBytes 8 (utf8 s).length, utf8 s ++ pad, by rw [hlen],
      ⟨utf8 s, utf8 s, pad, ⟨rfl, hlen.symm, by omega⟩,
        ⟨(), pad, [], by rw [hlen, hpad], ⟨rfl, rfl⟩, by simp⟩, rfl⟩, by simp⟩

theorem readStringSet_accepts : readStringSet.Accepts fun strings enc =>
    ∃ encs, enc = leBytes 8 strings.length ++ encs ∧ Reading.Sequence StringEnc strings encs ∧
      stringSize * strings.length ≤ isizeMax := by
  apply (readU64_accepts.bind fun count => (allocate_accepts _ _).bind fun _ =>
    readString_accepts.times count.toNat).congr
  intro strings enc
  constructor
  · intro h
    obtain ⟨count, x, _, rfl, ⟨_, _, encs, ⟨hmax, rfl⟩, ⟨hlen, hencs⟩, rfl⟩, rfl⟩ := h
    exact ⟨_, by simp [hlen], hencs, by rw [hlen]; exact hmax⟩
  · intro h
    obtain ⟨encs, rfl, hencs, hmax⟩ := h
    have hlen : (UInt64.ofNat strings.length).toNat = strings.length := by
      apply UInt64.toNat_ofNat_of_lt'
      have hsize : UInt64.size = 2 ^ 64 := rfl
      unfold isizeMax stringSize at hmax
      omega
    exact ⟨.ofNat strings.length, leBytes 8 strings.length, encs, by rw [hlen],
      ⟨(), [], encs, ⟨by rw [hlen]; exact hmax, rfl⟩, ⟨hlen.symm, hencs⟩, rfl⟩, rfl⟩

end IrohNix.Nix

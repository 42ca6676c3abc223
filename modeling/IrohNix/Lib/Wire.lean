import IrohNix.Lib.Utf8

namespace IrohNix.Lib

/-- A number seven bits a byte, least significant first; all bytes but the last have
their high bit set. -/
def writeVarint (n : Nat) : List UInt8 :=
  if n < 128 then [.ofNat n] else .ofNat (n % 128 + 128) :: writeVarint (n / 128)
termination_by n
decreasing_by omega

/-- The number some bytes begin with, and what follows it. -/
def readVarint : List UInt8 → Option (Nat × List UInt8)
  | [] => none
  | b :: bytes =>
    if b.toNat < 128 then some (b.toNat, bytes)
    else (readVarint bytes).map fun r => (b.toNat - 128 + 128 * r.1, r.2)

/-- A number is read back, whatever follows it. -/
theorem readVarint_writeVarint (n : Nat) (rest : List UInt8) :
    readVarint (writeVarint n ++ rest) = some (n, rest) := by
  induction n using Nat.strongRecOn with
  | ind n ih =>
    rw [writeVarint]
    by_cases hn : n < 128
    · rw [if_pos hn, List.singleton_append, readVarint, UInt8.toNat_ofNat',
        Nat.mod_eq_of_lt (by omega), if_pos hn]
    · rw [if_neg hn, List.cons_append, readVarint, UInt8.toNat_ofNat',
        Nat.mod_eq_of_lt (by omega), if_neg (by omega), ih _ (by omega)]
      simp only [Option.map_some, Option.some.injEq, Prod.mk.injEq, and_true]
      omega

/-- Seven bits a byte. -/
theorem writeVarint_length {n k : Nat} (hn : n < 128 ^ (k + 1)) :
    (writeVarint n).length ≤ k + 1 := by
  induction k generalizing n with
  | zero =>
    rw [writeVarint, if_pos (by omega)]
    exact Nat.le_refl 1
  | succ k ih =>
    rw [writeVarint]
    by_cases hsmall : n < 128
    · simp [if_pos hsmall]
    · have hdiv : n / 128 < 128 ^ (k + 1) := by
        rw [Nat.pow_succ] at hn
        omega
      rw [if_neg hsmall, List.length_cons]
      exact Nat.succ_le_succ (ih hdiv)

/-- How the values of a type are written, each so that it is read back whatever follows. -/
structure Wire (α : Type) where
  write : α → List UInt8
  read : List UInt8 → Option (α × List UInt8)
  read_write : ∀ a rest, read (write a ++ rest) = some (a, rest)

namespace Wire

variable {α β : Type}

def byte : Wire UInt8 where
  write b := [b]
  read
    | [] => none
    | b :: rest => some (b, rest)
  read_write _ _ := rfl

def varint : Wire Nat where
  write := writeVarint
  read := readVarint
  read_write := readVarint_writeVarint

/-- Values written as those of another type, of which some stand for none. -/
def adapt (format : Wire α) (out : β → α) (back : α → Option β)
    (inverse : ∀ b, back (out b) = some b) : Wire β where
  write b := format.write (out b)
  read bytes := do
    let (a, rest) ← format.read bytes
    let b ← back a
    pure (b, rest)
  read_write b rest := by simp [format.read_write, inverse]

/-- One after the other. -/
def pair (first : Wire α) (second : Wire β) : Wire (α × β) where
  write p := first.write p.1 ++ second.write p.2
  read bytes := do
    let (a, rest) ← first.read bytes
    let (b, rest) ← second.read rest
    pure ((a, b), rest)
  read_write p rest := by simp [first.read_write, second.read_write]

def readTimes (element : Wire α) : Nat → List UInt8 → Option (List α × List UInt8)
  | 0, bytes => some ([], bytes)
  | n + 1, bytes => do
    let (a, rest) ← element.read bytes
    let (as, rest) ← readTimes element n rest
    pure (a :: as, rest)

theorem readTimes_flatMap (element : Wire α) (as : List α) (rest : List UInt8) :
    readTimes element as.length (as.flatMap element.write ++ rest) = some (as, rest) := by
  induction as with
  | nil => rfl
  | cons a as ih =>
    simp only [List.length_cons, List.flatMap_cons, List.append_assoc, readTimes,
      element.read_write, ih, Option.bind_eq_bind, Option.bind_some, Option.pure_def]

/-- The elements behind their number. -/
def list (element : Wire α) : Wire (List α) where
  write as := writeVarint as.length ++ as.flatMap element.write
  read bytes := do
    let (n, rest) ← readVarint bytes
    readTimes element n rest
  read_write as rest := by
    simp only [List.append_assoc, readVarint_writeVarint, Option.bind_eq_bind, Option.bind_some,
      readTimes_flatMap]

def u64 : Wire UInt64 :=
  varint.adapt UInt64.toNat (fun n => if n < 2 ^ 64 then some (.ofNat n) else none)
    fun n => by rw [if_pos n.toNat_lt, UInt64.ofNat_toNat]

def bool : Wire Bool :=
  byte.adapt (fun b => if b then 1 else 0)
    (fun b => if b = 0 then some false else if b = 1 then some true else none)
    fun b => by cases b <;> rfl

theorem fromUTF8_utf8 (s : String) : String.fromUTF8? ⟨(utf8 s).toArray⟩ = some s :=
  utf8Decode_eq_some.mpr rfl

def text : Wire String :=
  (list byte).adapt utf8 (fun bytes => String.fromUTF8? ⟨bytes.toArray⟩) fromUTF8_utf8

/-- So many elements, without their number. -/
def array (element : Wire α) (n : Nat) : Wire (Vector α n) where
  write v := v.toList.flatMap element.write
  read bytes := do
    let (as, rest) ← readTimes element n bytes
    if h : as.length = n then some (⟨as.toArray, by simpa using h⟩, rest) else none
  read_write v rest := by
    have times := readTimes_flatMap element v.toList rest
    rw [Vector.length_toList] at times
    simp only [times, Option.bind_eq_bind, Option.bind_some, Vector.length_toList, dif_pos]
    rfl

theorem flatMap_byte (bytes : List UInt8) : bytes.flatMap byte.write = bytes := by
  exact List.flatMap_singleton' bytes

end Wire

end IrohNix.Lib

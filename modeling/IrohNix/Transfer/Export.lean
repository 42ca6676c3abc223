import IrohNix.Nix.RoundTrip
import IrohNix.Transfer.HttpCache

namespace IrohNix.Transfer
open IrohNix.Lib IrohNix.Nix

/-- Write a Nix-format string. -/
def writeNixString (buf s : Bytes) : Bytes :=
  let buf := buf ++ leBytes 8 (UInt64.ofNat s.length).toNat
  let buf := buf ++ s
  if padding s.length > 0 then buf ++ (List.replicate 8 0).take (padding s.length) else buf

/-- The stream `nix-store --import` reads. -/
def FetchResult.buildExportData (result : FetchResult) : Bytes :=
  let buf : Bytes := []
  -- path-present marker
  let buf := buf ++ leBytes 8 (1 : UInt64).toNat
  let buf := buf ++ result.narData.val
  -- export magic
  let buf := buf ++ leBytes 8 (0x4558494e : UInt64).toNat
  let buf := writeNixString buf (utf8 result.storePath)
  let buf := buf ++ leBytes 8 (UInt64.ofNat result.references.length).toNat
  let buf := result.references.foldl (fun buf reference => writeNixString buf (utf8 reference)) buf
  let deriver := result.deriver.getD ""
  let buf := writeNixString buf (utf8 deriver)
  -- no legacy signature
  let buf := buf ++ leBytes 8 (0 : UInt64).toNat
  -- end-of-paths marker
  buf ++ leBytes 8 (0 : UInt64).toNat

/-- What there can be in memory. -/
def FetchResult.Fits (result : FetchResult) : Prop :=
  StringFits result.storePath ∧ StringsFit result.references ∧
    StringFits (result.deriver.getD "")

/-- What stands in an export of one path. -/
structure Export where
  present : UInt64
  nar : Bytes
  magic : UInt64
  storePath : String
  references : List String
  deriver : String
  signature : UInt64
  endOfPaths : UInt64
deriving DecidableEq

/-- Reading an export with the readers of the build hook, given the length of its NAR. -/
def readExport (narLength : Nat) : NixRead Export := do
  let present ← readU64
  let nar ← .exactly narLength unexpectedEof ioError
  let magic ← readU64
  let storePath ← readString
  let references ← readStringSet
  let deriver ← readString
  let signature ← readU64
  let endOfPaths ← readU64
  pure ⟨present, nar, magic, storePath, references, deriver, signature, endOfPaths⟩

theorem writeNixString_eq (buf : Bytes) (s : String) :
    writeNixString buf (utf8 s) = buf ++ stringBytes s := by
  have hlt := padding_lt (utf8 s).length
  have zeros : (List.replicate 8 (0 : UInt8)).take (padding (utf8 s).length) =
      List.replicate (padding (utf8 s).length) 0 := by
    rw [List.take_replicate, Nat.min_eq_left (by omega)]
  unfold writeNixString stringBytes
  rw [leBytes_u64, zeros]
  by_cases h : padding (utf8 s).length > 0
  · simp [h]
  · simp [Nat.eq_zero_of_not_pos h]

/-- One field behind another. -/
theorem buildExportData_eq (result : FetchResult) : result.buildExportData =
    leBytes 8 (1 : UInt64).toNat ++ (result.narData.val ++
      (leBytes 8 (0x4558494e : UInt64).toNat ++ (stringBytes result.storePath ++
        (leBytes 8 result.references.length ++ result.references.flatMap stringBytes ++
          (stringBytes (result.deriver.getD "") ++
            (leBytes 8 (0 : UInt64).toNat ++ (leBytes 8 (0 : UInt64).toNat ++ []))))))) := by
  simp only [FetchResult.buildExportData, writeNixString_eq, List.foldl_append_eq_append,
    ← List.flatMap_def, leBytes_u64, List.append_assoc, List.nil_append, List.append_nil]

/-- An export is read back by the build hook's readers, field for field, with nothing left. -/
theorem export_read_back (result : { r : FetchResult // r.Fits }) (failure : Option IoError) :
    readExport result.val.narData.val.length ⟨result.val.buildExportData, failure⟩ =
      .ok (⟨1, result.val.narData.val, 0x4558494e, result.val.storePath, result.val.references,
        result.val.deriver.getD "", 0, 0⟩, ⟨[], failure⟩) := by
  obtain ⟨result, path, ⟨size, references⟩, deriver⟩ := result
  have u64 : ∀ (n : UInt64) (rest : Bytes),
      readU64 ⟨leBytes 8 n.toNat ++ rest, failure⟩ = .ok (n, ⟨rest, failure⟩) := fun n rest =>
    readU64_accepts.run rfl rest failure
  have string : ∀ {s : String} (rest : Bytes), StringFits s →
      readString ⟨stringBytes s ++ rest, failure⟩ = .ok (s, ⟨rest, failure⟩) := fun rest fits =>
    readString_accepts.run (stringBytes_enc fits) rest failure
  have set : ∀ rest : Bytes, readStringSet ⟨leBytes 8 result.references.length ++
      result.references.flatMap stringBytes ++ rest, failure⟩ =
        .ok (result.references, ⟨rest, failure⟩) := fun rest =>
    readStringSet_accepts.run
      ⟨_, rfl, sequence_flatMap fun s hs => stringBytes_enc (references s hs), size⟩ rest failure
  simp only [buildExportData_eq, readExport]
  rw [Reading.bind_run (u64 1 _), Reading.bind_run ((Reading.accepts_exactly _ _ _).run ⟨rfl, rfl⟩ _ _),
    Reading.bind_run (u64 0x4558494e _), Reading.bind_run (string _ path), Reading.bind_run (set _),
    Reading.bind_run (string _ deriver), Reading.bind_run (u64 0 _), Reading.bind_run (u64 0 _)]
  rfl

/-- A path that refers to itself and another one. -/
def helloResult : { r : FetchResult // r.Fits } :=
  ⟨{ narData := ⟨[0x0d, 0x00, 0xff], by decide⟩
     blake3 := ⟨.replicate 32 1⟩
     sha256 := ⟨.replicate 32 2⟩
     narSize := 3
     storePath := "/nix/store/0123-hello"
     references := ["/nix/store/0123-hello", "/nix/store/4567-glibc"]
     deriver := some "/nix/store/89ab-hello.drv" },
    by simp only [FetchResult.Fits, StringsFit, StringFits]; decide +kernel⟩

theorem hello_export_read_back :
    readExport 3 ⟨helloResult.val.buildExportData, none⟩ =
      .ok (⟨1, [0x0d, 0x00, 0xff], 0x4558494e, "/nix/store/0123-hello",
        ["/nix/store/0123-hello", "/nix/store/4567-glibc"], "/nix/store/89ab-hello.drv", 0, 0⟩,
        ⟨[], none⟩) :=
  export_read_back helloResult none

end IrohNix.Transfer

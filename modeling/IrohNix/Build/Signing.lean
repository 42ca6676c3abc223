import IrohNix.Build.Job
import IrohNix.Lib.Bytes

namespace IrohNix.Build
open IrohNix.Lib

def outputBytes (output : BuildOutput) : Bytes :=
  utf8 output.storePath ++ (output.blake3.toList ++ (output.sha256.toList ++
    leBytes 8 output.narSize.toNat))

def resultToSignData (result : BuildResult) : Bytes :=
  leBytes 8 result.jobId.val.toNat ++ result.drvHash.bytes.toList ++ result.builder.toList ++
    result.outputs.flatMap outputBytes

def signatureR (signature : Vector UInt8 64) : Bytes32 := Vector.ofFn fun i => signature[i.val]

def signatureS (signature : Vector UInt8 64) : Bytes32 := Vector.ofFn fun i => signature[i.val + 32]

def signatureBytes (r s : Bytes32) : Vector UInt8 64 :=
  Vector.ofFn fun i => if h : i.val < 32 then r[i.val] else s[i.val - 32]

def signBuildResult (crypto : Ed25519) (secretKey : crypto.SecretKey) (jobId : JobId)
    (drvHash : DrvHash) (outputs : List BuildOutput) : BuildResult :=
  let builder := (crypto.publicKey secretKey).asBytes
  let result : BuildResult :=
    { jobId, drvHash, builder, outputs, signatureR := zeroBytes32, signatureS := zeroBytes32 }
  let signature := crypto.sign secretKey (resultToSignData result)
  { result with signatureR := signatureR signature, signatureS := signatureS signature }

def verifyBuildResult (crypto : Ed25519) (result : BuildResult) : Bool :=
  match crypto.endpointIdFromBytes result.builder with
  | none => false
  | some builderId =>
    crypto.verify builderId (resultToSignData result)
      (signatureBytes result.signatureR result.signatureS)

theorem signatureBytes_split (signature : Vector UInt8 64) :
    signatureBytes (signatureR signature) (signatureS signature) = signature := by
  apply Vector.ext
  intro i hi
  simp only [signatureBytes, signatureR, signatureS, Vector.getElem_ofFn]
  split
  · rfl
  · congr 1
    omega

/-- What a signature is made for. -/
def SameClaim (r₁ r₂ : BuildResult) : Prop :=
  r₁.jobId = r₂.jobId ∧ r₁.drvHash = r₂.drvHash ∧ r₁.builder = r₂.builder ∧
    r₁.outputs = r₂.outputs

theorem signData_of_same {r₁ r₂ : BuildResult} (h : SameClaim r₁ r₂) :
    resultToSignData r₁ = resultToSignData r₂ := by
  obtain ⟨hjob, hdrv, hbuilder, houtputs⟩ := h
  simp only [resultToSignData, hjob, hdrv, hbuilder, houtputs]

/-- A result signed with a key verifies under the builder it names. -/
theorem sign_verifies {crypto : Ed25519} (genuine : crypto.Genuine) (secretKey : crypto.SecretKey)
    (jobId : JobId) (drvHash : DrvHash) (outputs : List BuildOutput) :
    verifyBuildResult crypto (signBuildResult crypto secretKey jobId drvHash outputs) = true := by
  let unsigned : BuildResult :=
    ⟨jobId, drvHash, (crypto.publicKey secretKey).asBytes, outputs, zeroBytes32, zeroBytes32⟩
  have hdata : resultToSignData (signBuildResult crypto secretKey jobId drvHash outputs) =
      resultToSignData unsigned := signData_of_same ⟨rfl, rfl, rfl, rfl⟩
  unfold verifyBuildResult
  rw [hdata]
  simp only [signBuildResult, genuine.decodes, signatureBytes_split]
  exact genuine.verifies secretKey (resultToSignData unsigned)

/-- The signature of a result is a signature of every result with its bytes. -/
theorem verify_of_signData_eq {crypto : Ed25519} {r₁ r₂ : BuildResult}
    (hdata : resultToSignData r₁ = resultToSignData r₂) (hbuilder : r₁.builder = r₂.builder)
    (hr : r₁.signatureR = r₂.signatureR) (hs : r₁.signatureS = r₂.signatureS) :
    verifyBuildResult crypto r₁ = verifyBuildResult crypto r₂ := by
  simp only [verifyBuildResult, hdata, hbuilder, hr, hs]

theorem outputBytes_length (output : BuildOutput) :
    (outputBytes output).length = (utf8 output.storePath).length + 72 := by
  simp [outputBytes]

theorem outputBytes_injective : Function.Injective outputBytes := by
  intro a b h
  have hlen := congrArg List.length h
  simp only [outputBytes_length] at hlen
  obtain ⟨hpath, htail⟩ := List.append_inj h (by omega)
  obtain ⟨hblake, htail⟩ := List.append_inj htail (by simp)
  obtain ⟨hsha, hsize⟩ := List.append_inj htail (by simp)
  cases a
  cases b
  simp only [BuildOutput.mk.injEq]
  exact ⟨utf8_inj.mp hpath, Vector.toList_inj.mp hblake, Vector.toList_inj.mp hsha,
    leBytes_u64_inj hsize⟩

/-- The lengths of a result's store paths, in order. -/
def pathLengths (r : BuildResult) : List Nat := r.outputs.map fun o => (utf8 o.storePath).length

/-- How many bytes outputs with these path lengths take. -/
def encodedLength (lengths : List Nat) : Nat := (lengths.map (· + 72)).sum

theorem outputs_length (r : BuildResult) :
    (r.outputs.flatMap outputBytes).length = encodedLength (pathLengths r) := by
  simp [List.length_flatMap, encodedLength, pathLengths, outputBytes_length, Function.comp_def]

theorem signData_split {r₁ r₂ : BuildResult} (h : resultToSignData r₁ = resultToSignData r₂) :
    r₁.jobId = r₂.jobId ∧ r₁.drvHash = r₂.drvHash ∧ r₁.builder = r₂.builder ∧
      r₁.outputs.flatMap outputBytes = r₂.outputs.flatMap outputBytes := by
  obtain ⟨hhead, houtputs⟩ := List.append_inj h (by simp)
  obtain ⟨hhead, hbuilder⟩ := List.append_inj hhead (by simp)
  obtain ⟨hjob, hdrv⟩ := List.append_inj hhead (by simp)
  cases hj₁ : r₁.jobId
  cases hj₂ : r₂.jobId
  cases hd₁ : r₁.drvHash
  cases hd₂ : r₂.drvHash
  rw [hj₁, hj₂] at hjob
  rw [hd₁, hd₂] at hdrv
  exact ⟨congrArg JobId.mk (leBytes_u64_inj hjob), congrArg DrvHash.mk (Vector.toList_inj.mp hdrv),
    Vector.toList_inj.mp hbuilder, houtputs⟩

theorem signData_inj_of_pathLengths {r₁ r₂ : BuildResult} (hlen : pathLengths r₁ = pathLengths r₂)
    (h : resultToSignData r₁ = resultToSignData r₂) : SameClaim r₁ r₂ := by
  obtain ⟨hjob, hdrv, hbuilder, houtputs⟩ := signData_split h
  refine ⟨hjob, hdrv, hbuilder, flatMap_inj outputBytes_injective ?_ houtputs⟩
  simpa [pathLengths, outputBytes_length, Function.comp_def] using congrArg (List.map (· + 72)) hlen

section Shifted

def letterA : Bytes32 := Vector.replicate 32 97

/-- An output whose every byte is the letter a. -/
def letterOutput (n : Nat) : BuildOutput :=
  ⟨String.ofList (List.replicate n 'a'), letterA, letterA, UInt64.ofNat 0x6161616161616161⟩

def letterResult (lengths : List Nat) : BuildResult :=
  ⟨⟨1⟩, ⟨zeroBytes32⟩, zeroBytes32, lengths.map letterOutput, zeroBytes32, zeroBytes32⟩

theorem utf8_letters (n : Nat) :
    utf8 (String.ofList (List.replicate n 'a')) = List.replicate n 97 := by
  rw [utf8_ofList]
  induction n with
  | zero => rfl
  | succ n ih => rw [List.replicate_succ, List.flatMap_cons, ih, List.replicate_succ]; rfl

theorem letter_pathLengths (lengths : List Nat) : pathLengths (letterResult lengths) = lengths := by
  simp [pathLengths, letterResult, letterOutput, utf8_letters, Function.comp_def]

theorem letter_outputBytes (n : Nat) :
    outputBytes (letterOutput n) = List.replicate (n + 72) 97 := by
  have htail : letterA.toList ++ (letterA.toList ++
      leBytes 8 (UInt64.ofNat 0x6161616161616161).toNat) = List.replicate 72 97 := by decide
  rw [outputBytes, letterOutput, utf8_letters, htail, List.replicate_append_replicate]

theorem letter_outputs (lengths : List Nat) :
    (letterResult lengths).outputs.flatMap outputBytes =
      List.replicate (encodedLength lengths) 97 := by
  induction lengths with
  | nil => rfl
  | cons n lengths ih =>
    simp only [letterResult] at ih
    simp only [letterResult, List.map_cons, List.flatMap_cons, ih, letter_outputBytes,
      List.replicate_append_replicate, encodedLength, List.sum_cons]

end Shifted

/-- The signed bytes determine what is signed exactly for results whose path
lengths agree one by one, or do not even add up to the same number of bytes. -/
theorem signData_identifies_iff (lengths₁ lengths₂ : List Nat) :
    (∀ r₁ r₂, pathLengths r₁ = lengths₁ → pathLengths r₂ = lengths₂ →
        resultToSignData r₁ = resultToSignData r₂ → SameClaim r₁ r₂) ↔
      lengths₁ = lengths₂ ∨ encodedLength lengths₁ ≠ encodedLength lengths₂ := by
  constructor
  · intro hall
    by_contra hne
    simp only [not_or, not_not] at hne
    obtain ⟨hshape, htotal⟩ := hne
    have hdata : resultToSignData (letterResult lengths₁) =
        resultToSignData (letterResult lengths₂) := by
      simp only [resultToSignData, letter_outputs, htotal]
      rfl
    have hsame := hall _ _ (letter_pathLengths lengths₁) (letter_pathLengths lengths₂) hdata
    apply hshape
    rw [← letter_pathLengths lengths₁, ← letter_pathLengths lengths₂]
    simp only [pathLengths, hsame.2.2.2]
  · intro hshape r₁ r₂ h₁ h₂ h
    rcases hshape with he | hne
    · exact signData_inj_of_pathLengths (h₁.trans (he.trans h₂.symm)) h
    · have hlen := congrArg List.length (signData_split h).2.2.2
      rw [outputs_length, outputs_length, h₁, h₂] at hlen
      exact absurd hlen hne

section Counterexample

def twoOutputs : BuildResult :=
  ⟨⟨1⟩, ⟨zeroBytes32⟩, zeroBytes32,
    [⟨"/nix/store/x", letterA, letterA, UInt64.ofNat 0x6161616161616161⟩,
      ⟨"/nix/store/y", letterA, letterA, 7⟩], zeroBytes32, zeroBytes32⟩

/-- One output whose path runs to the end of the second output's path. -/
def oneOutput : BuildResult :=
  { twoOutputs with
    outputs :=
      [⟨String.ofList ("/nix/store/x".toList ++ List.replicate 72 'a' ++ "/nix/store/y".toList),
        letterA, letterA, 7⟩] }

/-- Two results with different outputs have one signed byte string, and every
signature scheme accepts for the second what it accepts for the first. -/
theorem signData_shifts_boundary :
    resultToSignData twoOutputs = resultToSignData oneOutput ∧ ¬ SameClaim twoOutputs oneOutput ∧
      ∀ crypto r s,
        verifyBuildResult crypto { twoOutputs with signatureR := r, signatureS := s } =
          verifyBuildResult crypto { oneOutput with signatureR := r, signatureS := s } := by
  have hdata : resultToSignData twoOutputs = resultToSignData oneOutput := by decide +kernel
  refine ⟨hdata, ?_, ?_⟩
  · intro hsame
    exact absurd (congrArg List.length hsame.2.2.2) (by decide)
  · intro crypto r s
    exact verify_of_signData_eq hdata rfl rfl rfl

end Counterexample

end IrohNix.Build

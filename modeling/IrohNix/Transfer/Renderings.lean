import IrohNix.Nix.Nix32
import IrohNix.Transfer.CacheNarInfo

namespace IrohNix.Transfer
open IrohNix.Lib IrohNix.Nix

theorem hexDigit_size : ∀ n < 16, (hexDigit n).utf8Size = 1 := by decide +kernel

/-- Two characters a byte. -/
theorem hexLower_size (bytes : Bytes) : (hexLower bytes).utf8ByteSize = 2 * bytes.length := by
  have sizes : ∀ c ∈ (hexLower bytes).toList, c.utf8Size = 1 := by
    intro c hc
    obtain ⟨n, hn, rfl⟩ := mem_hexLower hc
    exact hexDigit_size n hn
  rw [hexLower, String.toList_ofList] at sizes
  rw [hexLower, utf8ByteSize_ofList sizes]
  simp [List.length_flatMap, Nat.mul_comm]

theorem hexLower_digits (bytes : Bytes) :
    (hexLower bytes).toList.all (fun c => (hexValue c).isSome) = true := by
  rw [List.all_eq_true]
  intro c hc
  obtain ⟨n, hn, rfl⟩ := mem_hexLower hc
  rw [hexValue_hexDigit n hn]
  rfl

/-- A hash that is written in hex is read back. -/
theorem parsePrefixedSha256_hex (decodeBase64 : String → Except String Bytes)
    (hash : Sha256Hash) :
    parsePrefixedSha256 decodeBase64 ("sha256:" ++ hexLower hash.bytes.toList) = .ok hash := by
  have size : (hexLower hash.bytes.toList).utf8ByteSize = 64 := by
    rw [hexLower_size, Vector.length_toList]
  simp only [parsePrefixedSha256, stripPrefix_append, parseSha256Hash,
    if_pos (And.intro size (hexLower_digits _)), Sha256Hash.fromHex, hexDecode_hexLower]
  exact Sha256Hash.fromSlice_toList hash.bytes

/-- The two notations differ where the name of the hash ends. -/
theorem sri_not_native (b64 : String) : stripPrefix "sha256:" ("sha256-" ++ b64) = none := by
  cases hs : stripPrefix "sha256:" ("sha256-" ++ b64) with
  | none => rfl
  | some rest =>
    have same := congrArg String.toList (stripPrefix_eq_some.mp hs)
    simp at same

/-- A hash that is written in base64 is read back, by whoever decodes it. -/
theorem parsePrefixedSha256_base64 {decodeBase64 : String → Except String Bytes} {b64 : String}
    {hash : Sha256Hash} (decoded : decodeBase64 b64 = .ok hash.bytes.toList) :
    parsePrefixedSha256 decodeBase64 ("sha256-" ++ b64) = .ok hash := by
  simp only [parsePrefixedSha256, sri_not_native, stripPrefix_append, parseSha256Base64, decoded]
  exact Sha256Hash.fromSlice_toList hash.bytes

theorem sha256Bytes_base64 {nix : NixDatabase} {b64 : String} {hash : Sha256Hash}
    (decoded : nix.decodeBase64 b64 = .ok hash.bytes.toList) {info : NixPathInfo}
    (written : info.narHash = "sha256-" ++ b64) : info.sha256Bytes nix = .ok hash.bytes := by
  simp only [NixPathInfo.sha256Bytes, written, stripPrefix_append, decoded]
  refine except_bind_ok.mpr ⟨hash.bytes.toList, rfl, ?_⟩
  rw [toBytes32_toList]

/-- Whatever way a hash is written, what reads it reads that hash. -/
theorem hash_renderings_read (hash : Sha256Hash) (nix : NixDatabase)
    (encodeBase64 : Bytes → String)
    (roundTrip : nix.decodeBase64 (encodeBase64 hash.bytes.toList) = .ok hash.bytes.toList) :
    decodeNixBase32 hash.toNixBase32 = .ok hash.bytes.toList ∧
    decodeNix32 hash.toNixBase32 = .ok hash.bytes ∧
    hash.toNixBase32.toList.length = 52 ∧
    parsePrefixedSha256 nix.decodeBase64 ("sha256:" ++ hash.toNixBase32) = .ok hash ∧
    parsePrefixedSha256 nix.decodeBase64 ("sha256:" ++ hexLower hash.bytes.toList) = .ok hash ∧
    parsePrefixedSha256 nix.decodeBase64 ("sha256-" ++ encodeBase64 hash.bytes.toList) =
      .ok hash ∧
    ∀ info : NixPathInfo, info.narHash = "sha256-" ++ encodeBase64 hash.bytes.toList →
      info.sha256Bytes nix = .ok hash.bytes := by
  have length : hash.toNixBase32.toList.length = 52 := by
    rw [toNixBase32_digits]
    simp [hashDigits]
  exact ⟨decode_toNixBase32 hash, decodeNix32_toNixBase32 hash, length,
    parsePrefixedSha256_base32 _ hash, parsePrefixedSha256_hex _ hash,
    parsePrefixedSha256_base64 roundTrip, fun _ written => sha256Bytes_base64 roundTrip written⟩

/-- The bytes 0 to 31. -/
def countingHash : Sha256Hash := ⟨Vector.ofFn fun i => .ofNat i⟩

def countingBase64 : String := "AAECAwQFBgcICQoLDA0ODxAREhMUFRYXGBkaGxwdHh8="

def countingDatabase : NixDatabase where
  query path := .error (.storePathNotFound path)
  decodeBase64 b64 :=
    if b64 = countingBase64 then .ok countingHash.bytes.toList else .error "Invalid symbol"

theorem counting_read :
    parsePrefixedSha256 countingDatabase.decodeBase64 ("sha256:" ++ countingHash.toNixBase32) =
        .ok countingHash ∧
      parsePrefixedSha256 countingDatabase.decodeBase64 ("sha256-" ++ countingBase64) =
        .ok countingHash := by
  have roundTrip : countingDatabase.decodeBase64 countingBase64 =
      .ok countingHash.bytes.toList := by
    simp only [countingDatabase, if_true]
  have read := hash_renderings_read countingHash countingDatabase (fun _ => countingBase64)
    roundTrip
  exact ⟨read.2.2.2.1, read.2.2.2.2.2.1⟩

end IrohNix.Transfer

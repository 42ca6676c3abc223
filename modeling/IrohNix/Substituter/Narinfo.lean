import IrohNix.Substituter.Server
import IrohNix.Transfer.CacheNarInfo

namespace IrohNix.Substituter
open IrohNix.Lib IrohNix.Index IrohNix.Transfer

/-- An entry each of whose texts stands on a line: the store path without white space
around it, references whose names have none, and a deriver that is known. -/
structure Writable (entry : HashEntry) : Prop where
  storePath_trimmed : Trimmed entry.storePath
  storePath_line : '\n' ∉ entry.storePath.toList
  references : ∃ names : List String, entry.references = names.map ("/nix/store/" ++ ·) ∧
    ∀ n ∈ names, IsWord n
  deriver : ∀ d, entry.deriver = some d → ∃ name, d = "/nix/store/" ++ name ∧ name ≠ "" ∧
    Trimmed name ∧ '\n' ∉ name.toList ∧ name ≠ "unknown-deriver"

theorem narinfo_keys : ∀ key ∈ ["StorePath", "URL", "Compression", "NarHash", "NarSize",
    "References", "Deriver"], IsKey key := by
  decide +kernel

/-- The line of the deriver, where there is one. -/
def deriverLine (entry : HashEntry) : String :=
  match entry.deriver.bind storePathBasename with
  | some basename => fieldLine "Deriver" basename
  | none => ""

theorem narinfoBody_lines (entry : HashEntry) :
    narinfoBody entry = fieldLine "StorePath" entry.storePath ++
      (fieldLine "URL" (narUrl entry) ++
      (fieldLine "Compression" "none" ++
      (fieldLine "NarHash" ("sha256:" ++ entry.sha256.toNixBase32) ++
      (fieldLine "NarSize" (toString entry.narSize) ++
      (fieldLine "References" (" ".intercalate (referencesToBasenames entry.references)) ++
      deriverLine entry))))) := by
  apply String.toList_injective
  unfold narinfoBody deriverLine
  cases entry.deriver.bind storePathBasename <;> simp [fieldLine]

theorem narHash_word (hash : Sha256Hash) : IsWord ("sha256:" ++ hash.toNixBase32) := by
  have start : IsWord "sha256:" := by decide +kernel
  refine start.append fun c hc => ?_
  obtain ⟨space, ascii⟩ := Nix.toNixBase32_ascii hash hc
  exact isWhitespace_ascii space ascii

/-- The fields of a body are those that it was written from. -/
theorem fields_narinfoBody {entry : HashEntry} (hw : Writable entry) :
    fields (narinfoBody entry) =
      ("StorePath", entry.storePath) :: ("URL", narUrl entry) :: ("Compression", "none") ::
      ("NarHash", "sha256:" ++ entry.sha256.toNixBase32) ::
      ("NarSize", toString entry.narSize) ::
      ("References", " ".intercalate (referencesToBasenames entry.references)) ::
      (entry.deriver.bind storePathBasename).toList.map (("Deriver", ·)) := by
  obtain ⟨names, hrefs, hnames⟩ := hw.references
  have url := narUrl_word entry
  have narHash := narHash_word entry.sha256
  have narSize := toString_word entry.narSize
  have none_word : IsWord "none" := by decide +kernel
  obtain ⟨refs_trimmed, refs_line, _⟩ := join_trimmed hnames
  have last : fields (deriverLine entry) =
      (entry.deriver.bind storePathBasename).toList.map (("Deriver", ·)) := by
    unfold deriverLine
    cases hd : entry.deriver with
    | none => rfl
    | some d =>
      obtain ⟨name, rfl, _, htrimmed, hline, _⟩ := hw.deriver d hd
      have read := fields_fieldLine (narinfo_keys "Deriver" (by simp)) htrimmed hline ""
      simpa [storePathBasename, fields_empty] using read
  rw [narinfoBody_lines, hrefs, basenames_of_references,
    fields_fieldLine (narinfo_keys "StorePath" (by simp)) hw.storePath_trimmed hw.storePath_line,
    fields_fieldLine (narinfo_keys "URL" (by simp)) url.trimmed url.line,
    fields_fieldLine (narinfo_keys "Compression" (by simp)) none_word.trimmed none_word.line,
    fields_fieldLine (narinfo_keys "NarHash" (by simp)) narHash.trimmed narHash.line,
    fields_fieldLine (narinfo_keys "NarSize" (by simp)) narSize.trimmed narSize.line,
    fields_fieldLine (narinfo_keys "References" (by simp)) refs_trimmed refs_line, last]

/-- The line of the deriver sets it, and without the line there is none. -/
theorem set_deriver (decodeBase64 : String → Except String Bytes) {entry : HashEntry}
    (hw : Writable entry) {info : NarInfoFields} (hnone : info.deriver = none) :
    ((entry.deriver.bind storePathBasename).toList.map (("Deriver", ·))).foldlM
      (NarInfoFields.set decodeBase64) info = .ok { info with deriver := entry.deriver } := by
  cases hd : entry.deriver with
  | none =>
    obtain ⟨⟩ := info
    cases hnone
    rfl
  | some d =>
    obtain ⟨name, rfl, hne, htrimmed, _, hknown⟩ := hw.deriver d hd
    simp [storePathBasename, NarInfoFields.set, htrimmed.trim, hne, hknown]

/-- What a cache's client reads from a narinfo is the entry it was written from. -/
theorem parse_narinfoBody (decodeBase64 : String → Except String Bytes) {entry : HashEntry}
    (hw : Writable entry) :
    CacheNarInfo.parse decodeBase64 (narinfoBody entry) = .ok {
      storePath := entry.storePath
      url := narUrl entry
      compression := .none
      narHash := entry.sha256
      narSize := entry.narSize
      fileSize := none
      references := entry.references
      deriver := entry.deriver } := by
  obtain ⟨names, hrefs, hnames⟩ := hw.references
  have narHash := parsePrefixedSha256_base32 decodeBase64 entry.sha256
  have narSize := parseU64_toString entry.narSize
  have references : ((splitWhitespace (" ".intercalate
      (referencesToBasenames entry.references))).filter (fun s => !s.isEmpty)).map
        ("/nix/store/" ++ ·) = entry.references := by
    rw [hrefs, basenames_of_references]
    exact references_of_basenames hnames
  rw [CacheNarInfo.parse, fields_narinfoBody hw]
  simp only [List.foldlM_cons, NarInfoFields.set, narHash, narSize, references, except_ok_bind,
    Compression.fromNarinfo_none, set_deriver decodeBase64 hw]
  rfl

def sampleEntry : HashEntry where
  blake3 := ⟨Vector.replicate 32 0xab⟩
  sha256 := ⟨Vector.replicate 32 0x5c⟩
  storePath := "/nix/store/a-x: 1"
  narSize := 18446744073709551615
  references := ["b-y", "c-z"].map ("/nix/store/" ++ ·)
  deriver := some ("/nix/store/" ++ "d-x.drv")

theorem parse_sample : CacheNarInfo.parse (fun _ => .error "not called") (narinfoBody sampleEntry) =
    .ok {
      storePath := "/nix/store/a-x: 1"
      url := narUrl sampleEntry
      compression := .none
      narHash := ⟨Vector.replicate 32 0x5c⟩
      narSize := 18446744073709551615
      fileSize := none
      references := ["/nix/store/b-y", "/nix/store/c-z"]
      deriver := some "/nix/store/d-x.drv" } := by
  have name : IsWord "d-x.drv" := by decide +kernel
  have writable : Writable sampleEntry := by
    refine ⟨⟨?_, ?_⟩, ?_, ⟨_, rfl, ?_⟩, ?_⟩
    · intro c hc
      cases hc
      rfl
    · intro c hc
      cases hc
      rfl
    · decide +kernel
    · intro n hn
      simp only [List.mem_cons, List.not_mem_nil, or_false] at hn
      rcases hn with rfl | rfl <;> decide +kernel
    · intro d hd
      cases hd
      refine ⟨"d-x.drv", rfl, name.1, name.trimmed, name.line, by decide⟩
  exact parse_narinfoBody _ writable

end IrohNix.Substituter

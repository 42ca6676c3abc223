import IrohNix.Index.ThreeWay
import IrohNix.Substituter.Delivery
import IrohNix.Transfer.RoundTrip

namespace IrohNix.Substituter
open IrohNix.Lib IrohNix.Index IrohNix.Transfer IrohNix.Node IrohNix.Nar

/-- One head, and behind it a body of the length the head gives. -/
def Framed (answer : Answer) : Prop :=
  ∃ status statusText contentType, ∃ pieces : List Bytes, answer.effects =
    .head status statusText contentType pieces.flatten.length :: pieces.map .body

/-- The head of another answer, and no body. -/
def HeadOf (answer full : Answer) : Prop :=
  ∃ status statusText contentType contentLength rest,
    full.effects = .head status statusText contentType contentLength :: rest ∧
      answer.effects = [.head status statusText contentType contentLength]

/-- What a route answers with: the length its head gives, and the body it sends unless
only the head is asked for. -/
def Responds (route : Bool → Answer) (contentLength : Nat) (body : Bytes) : Prop :=
  ∃ status statusText contentType, ∃ pieces : List Bytes, pieces.flatten = body ∧
    (route false).effects = .head status statusText contentType contentLength ::
      pieces.map .body ∧
    (route true).effects = [.head status statusText contentType contentLength]

/-- On the wire a framed answer is a head and as many bytes as it announces. -/
theorem Framed.bytes {answer : Answer} (h : Framed answer) :
    ∃ status statusText contentType, ∃ body : Bytes, answer.effects.flatMap Sent.bytes =
      (Sent.head status statusText contentType body.length).bytes ++ body := by
  obtain ⟨status, statusText, contentType, pieces, effects⟩ := h
  have body : (pieces.map Sent.body).flatMap Sent.bytes = pieces.flatten := by
    rw [List.flatMap_map, List.flatMap_def]
    exact congrArg List.flatten (List.map_id pieces)
  refine ⟨status, statusText, contentType, pieces.flatten, ?_⟩
  rw [effects, List.flatMap_cons, body]

theorem Responds.headOf {route : Bool → Answer} {contentLength : Nat} {body : Bytes}
    (h : Responds route contentLength body) : HeadOf (route true) (route false) := by
  obtain ⟨status, statusText, contentType, pieces, _, get, head⟩ := h
  exact ⟨status, statusText, contentType, contentLength, _, get, head⟩

theorem body_injective : Function.Injective Sent.body := by
  intro a b h
  cases h
  rfl

theorem Responds.framed_iff {route : Bool → Answer} {contentLength : Nat} {body : Bytes}
    (h : Responds route contentLength body) :
    Framed (route false) ↔ contentLength = body.length := by
  obtain ⟨status, statusText, contentType, pieces, rfl, get, _⟩ := h
  constructor
  · intro framed
    obtain ⟨_, _, _, pieces', get'⟩ := framed
    rw [get] at get'
    simp only [List.cons.injEq, Sent.head.injEq] at get'
    obtain ⟨⟨_, _, _, hlength⟩, same⟩ := get'
    rw [hlength, body_injective.list_map same]
  · intro hlength
    exact ⟨status, statusText, contentType, pieces, by rw [get, hlength]⟩

theorem sendResponse_responds (status : Nat) (statusText contentType : String) (body : Bytes) :
    Responds (sendResponse status statusText contentType body) body.length body := by
  cases body with
  | nil => exact ⟨status, statusText, contentType, [], rfl, rfl, rfl⟩
  | cons b bytes =>
    exact ⟨status, statusText, contentType, [b :: bytes], by simp, rfl, rfl⟩

theorem sendNarChunks_effects (narData : Bytes) :
    (sendNarChunks narData).effects = (narData.toChunks (64 * 1024)).map .body :=
  Logged.effects_forEach_perform _ _

/-- A NAR behind a head of any length. -/
theorem narChunks_responds (contentLength : Nat) (narData : Bytes) :
    Responds (fun isHead => do
      sendNarHead contentLength
      if !isHead then sendNarChunks narData) contentLength narData := by
  refine ⟨200, "OK", "application/x-nix-nar", _, flatten_toChunks (64 * 1024) narData, ?_, rfl⟩
  rw [Logged.effects_bind rfl]
  exact congrArg _ (sendNarChunks_effects narData)

/-- The head of a NAR from the disk gives the recorded size, before the path is read. -/
theorem sendNar_local {hashers : Hashers} {env : SubstituterEnv} {blake3 : Blake3Hash}
    {entry : HashEntry} (onDisk : env.files.pathExists entry.storePath = true) :
    Responds (sendNar hashers env blake3 entry) entry.narSize.toNat
      (servedNar hashers env.files entry.storePath) := by
  cases hs : serializePath hashers entry.storePath (env.files.node entry.storePath) with
  | ok served =>
    obtain ⟨narData, info⟩ := served
    have sent := narChunks_responds entry.narSize.toNat narData
    have same : ∀ isHead, (sendNar hashers env blake3 entry isHead).effects = (do
        sendNarHead entry.narSize.toNat
        if !isHead then sendNarChunks narData : Answer).effects := by
      intro isHead
      rw [sendNar, if_pos onDisk, hs]
      rfl
    simpa only [Responds, servedNar, hs, same] using sent
  | error e =>
    refine ⟨200, "OK", "application/x-nix-nar", [], ?_, ?_, ?_⟩
    · rw [servedNar, hs, List.flatten_nil]
    · rw [sendNar, if_pos onDisk, hs]
      rfl
    · rw [sendNar, if_pos onDisk]
      rfl

/-- The head of a NAR from a peer gives the length of what the peer sent. -/
theorem sendNar_remote {hashers : Hashers} {env : SubstituterEnv} {blake3 : Blake3Hash}
    {entry : HashEntry} (missing : env.files.pathExists entry.storePath = false) :
    ∃ body, Responds (sendNar hashers env blake3 entry) body.length body := by
  cases hremote : tryFetchNarFromPeer hashers env.codec env.p2p blake3 with
  | some narData =>
    have remote : sendNar hashers env blake3 entry = (fun isHead => do
        sendNarHead narData.length
        if !isHead then sendNarChunks narData) := by
      funext isHead
      rw [sendNar, if_neg (by simp [missing]), hremote]
    rw [remote]
    exact ⟨narData, narChunks_responds _ _⟩
  | none =>
    have remote : sendNar hashers env blake3 entry =
        sendText 404 "Not Found" "Store path not found" := by
      funext isHead
      rw [sendNar, if_neg (by simp [missing]), hremote]
    rw [remote]
    exact ⟨_, sendResponse_responds _ _ _ _⟩

/-- Where a NAR is served from the disk, its recorded size is current. -/
def NarCurrent (hashers : Hashers) (env : SubstituterEnv) (index : HashIndex) (path : String) :
    Prop :=
  ∀ blake3 entry, narBlake3 path = some blake3 → index.getByBlake3 blake3 = some entry →
    env.files.pathExists entry.storePath →
    SizeCurrent hashers env.files entry.storePath entry.narSize

/-- A route that answers a GET with a well-framed response exactly under a condition, and
a HEAD with the head of that. -/
def Honest (route : Bool → Answer) (condition : Prop) : Prop :=
  (Framed (route false) ↔ condition) ∧ HeadOf (route true) (route false)

theorem Responds.honest {route : Bool → Answer} {contentLength : Nat} {body : Bytes}
    {condition : Prop} (h : Responds route contentLength body)
    (hc : contentLength = body.length ↔ condition) : Honest route condition :=
  ⟨h.framed_iff.trans hc, h.headOf⟩

theorem sendResponse_honest (status : Nat) (statusText contentType : String) (body : Bytes)
    {condition : Prop} (hc : condition) :
    Honest (sendResponse status statusText contentType body) condition :=
  (sendResponse_responds status statusText contentType body).honest (iff_of_true rfl hc)

theorem handleNarinfo_honest (env : SubstituterEnv) (index : HashIndex) (path : String)
    {condition : Prop} (hc : condition) : Honest (handleNarinfo env index path) condition := by
  unfold handleNarinfo
  cases narinfoEntry env.p2p index (narinfoHashPart path) with
  | some entry => exact sendResponse_honest _ _ _ _ hc
  | none => exact sendResponse_honest _ _ _ _ hc

theorem handleNar_honest (hashers : Hashers) (env : SubstituterEnv) (index : HashIndex)
    (path : String) :
    Honest (handleNar hashers env index path) (NarCurrent hashers env index path) := by
  unfold handleNar
  cases hb : narBlake3 path with
  | none =>
    refine sendResponse_honest _ _ _ _ fun blake3 entry h => ?_
    rw [hb] at h
    cases h
  | some blake3 =>
    simp only
    cases hget : index.getByBlake3 blake3 with
    | none =>
      refine sendResponse_honest _ _ _ _ fun blake3' entry h h' => ?_
      rw [hb] at h
      cases h
      rw [hget] at h'
      cases h'
    | some entry =>
      have current : NarCurrent hashers env index path ↔
          (env.files.pathExists entry.storePath = true →
            SizeCurrent hashers env.files entry.storePath entry.narSize) := by
        constructor
        · intro h
          exact h blake3 entry hb hget
        · intro h blake3' entry' hb' hget'
          rw [hb] at hb'
          cases hb'
          rw [hget] at hget'
          cases hget'
          exact h
      rw [current]
      cases onDisk : env.files.pathExists entry.storePath with
      | true => exact (sendNar_local onDisk).honest (by simp [SizeCurrent])
      | false =>
        have remote : ∃ body, Responds (sendNar hashers env blake3 entry) body.length body :=
          sendNar_remote onDisk
        obtain ⟨body, responds⟩ := remote
        exact responds.honest (by simp)

/-- How a request for a path is routed. -/
def route (hashers : Hashers) (env : SubstituterEnv) (index : HashIndex) (path : String)
    (isHead : Bool) : Answer :=
  if path = "/nix-cache-info" then handleCacheInfo env isHead
  else if ".narinfo".toList.isSuffixOf path.toList then handleNarinfo env index path isHead
  else if "/nar/".toList.isPrefixOf path.toList ∧ ".nar".toList.isSuffixOf path.toList then
    handleNar hashers env index path isHead
  else sendText 404 "Not Found" "Not Found" isHead

/-- A path that is routed as a NAR. -/
abbrev IsNarPath (path : String) : Prop :=
  "/nar/".toList.isPrefixOf path.toList ∧ ".nar".toList.isSuffixOf path.toList

theorem not_narinfo_of_nar {path : String} (h : ".nar".toList.isSuffixOf path.toList = true) :
    ¬ ".narinfo".toList.isSuffixOf path.toList = true := by
  intro h'
  obtain ⟨xs, hx⟩ := List.isSuffixOf_iff_suffix.mp h
  obtain ⟨ys, hy⟩ := List.isSuffixOf_iff_suffix.mp h'
  have last := congrArg List.getLast? (hx.trans hy.symm)
  simp at last

theorem route_honest (hashers : Hashers) (env : SubstituterEnv) (index : HashIndex)
    (path : String) :
    Honest (route hashers env index path)
      (IsNarPath path → NarCurrent hashers env index path) := by
  by_cases info : path = "/nix-cache-info"
  · have routed : route hashers env index path = handleCacheInfo env := by
      funext isHead
      rw [route, if_pos info]
    rw [routed]
    refine sendResponse_honest _ _ _ _ fun nar => ?_
    rw [info] at nar
    exact absurd nar.1 (by decide)
  · by_cases narinfo : ".narinfo".toList.isSuffixOf path.toList = true
    · have routed : route hashers env index path = handleNarinfo env index path := by
        funext isHead
        rw [route, if_neg info, if_pos narinfo]
      rw [routed]
      refine handleNarinfo_honest env index path fun nar => ?_
      exact absurd narinfo (not_narinfo_of_nar nar.2)
    · by_cases nar : IsNarPath path
      · have routed : route hashers env index path = handleNar hashers env index path := by
          funext isHead
          rw [route, if_neg info, if_neg narinfo, if_pos nar]
        rw [routed, forall_prop_of_true nar]
        exact handleNar_honest hashers env index path
      · have routed : route hashers env index path = sendText 404 "Not Found" "Not Found" := by
          funext isHead
          rw [route, if_neg info, if_neg narinfo, if_neg nar]
        rw [routed]
        exact sendResponse_honest _ _ _ _ fun h => absurd h nar

theorem handleConnection_get {hashers : Hashers} {env : SubstituterEnv} {index : HashIndex}
    {requestLine path : String} {rest : List String}
    (line : splitWhitespace requestLine = "GET" :: path :: rest) :
    handleConnection hashers env index requestLine = route hashers env index path false := by
  have known : ¬ ("GET" ≠ "GET" ∧ "GET" ≠ "HEAD") := fun h => h.1 rfl
  have not_head : decide ("GET" = "HEAD") = false := by decide
  rw [handleConnection, line]
  simp only [if_neg known, not_head]
  rfl

theorem handleConnection_head {hashers : Hashers} {env : SubstituterEnv} {index : HashIndex}
    {requestLine path : String} {rest : List String}
    (line : splitWhitespace requestLine = "HEAD" :: path :: rest) :
    handleConnection hashers env index requestLine = route hashers env index path true := by
  have known : ¬ ("HEAD" ≠ "GET" ∧ "HEAD" ≠ "HEAD") := fun h => h.2 rfl
  rw [handleConnection, line]
  simp only [if_neg known]
  rfl

/-- A line that asks for neither is answered with a text. -/
theorem handleConnection_other {hashers : Hashers} {env : SubstituterEnv} {index : HashIndex}
    {requestLine : String} (other : ∀ method path rest,
      splitWhitespace requestLine = method :: path :: rest → method ≠ "GET" ∧ method ≠ "HEAD") :
    Framed (handleConnection hashers env index requestLine) := by
  have text : ∀ status statusText text, Framed (sendText status statusText text false) := by
    intro status statusText text
    exact (sendResponse_responds status statusText "text/plain" (utf8 text)).framed_iff.mpr rfl
  unfold handleConnection
  split
  · rename_i method path rest line
    rw [if_pos (other method path rest line)]
    exact text _ _ _
  · exact text _ _ _

/-- A GET is answered with a well-framed response, and a HEAD with the head of it, exactly
if the path is not that of a NAR served from the disk under a stale size. -/
theorem framing_honest_iff (hashers : Hashers) (env : SubstituterEnv) (index : HashIndex) :
    (∀ requestLine, (∀ method path rest,
        splitWhitespace requestLine = method :: path :: rest → method ≠ "GET" ∧ method ≠ "HEAD") →
      Framed (handleConnection hashers env index requestLine)) ∧
    ∀ getLine headLine path getRest headRest,
      splitWhitespace getLine = "GET" :: path :: getRest →
      splitWhitespace headLine = "HEAD" :: path :: headRest →
      HeadOf (handleConnection hashers env index headLine)
          (handleConnection hashers env index getLine) ∧
        (Framed (handleConnection hashers env index getLine) ∧
          HeadOf (handleConnection hashers env index headLine)
            (handleConnection hashers env index getLine) ↔
          (IsNarPath path → NarCurrent hashers env index path)) := by
  refine ⟨fun _ => handleConnection_other, ?_⟩
  intro getLine headLine path getRest headRest get head
  rw [handleConnection_get get, handleConnection_head head]
  obtain ⟨framed, headOf⟩ := route_honest hashers env index path
  exact ⟨headOf, by rw [framed, and_iff_left headOf]⟩

/-- A server with one small file at every path, and no peers. -/
def fileServer : SubstituterEnv := ⟨40, shortCodec, oneFileEnv.files, none⟩

/-- A row about the file, with this size. -/
def fileEntry (narSize : UInt64) : HashEntry := { twinEntry "a-x" with narSize }

def requestLine (method : String) (narSize : UInt64) : String :=
  method ++ (" " ++ (narPath (fileEntry narSize) ++ (" " ++ "HTTP/1.1")))

theorem requestLine_words {method : String} (hm : IsWord method) (narSize : UInt64) :
    splitWhitespace (requestLine method narSize) =
      [method, narPath (fileEntry narSize), "HTTP/1.1"] := by
  have version : IsWord "HTTP/1.1" := by decide +kernel
  rw [requestLine, splitWhitespace_word_append hm, splitWhitespace_word_append (narPath_word _),
    splitWhitespace_word version]

theorem fileEntry_path (narSize : UInt64) : IsNarPath (narPath (fileEntry narSize)) := by
  simp [IsNarPath, narPath, narUrl, List.isSuffixOf]

/-- The file's NAR has 120 bytes. -/
theorem fileEntry_current_iff (narSize : UInt64) :
    NarCurrent zeroHashers fileServer (HashIndex.insert .empty (fileEntry narSize))
        (narPath (fileEntry narSize)) ↔ narSize = 120 := by
  have well : (fileEntry narSize).WellFormed := ⟨⟨[], rfl, by simp⟩, by simp [fileEntry, twinEntry]⟩
  have found := (HashIndex.insert_holds Table.empty well).byBlake3
  have served : (servedNar zeroHashers fileServer.files "/nix/store/a-x").length = 120 := rfl
  have size : SizeCurrent zeroHashers fileServer.files "/nix/store/a-x" narSize ↔
      narSize = 120 := by
    rw [SizeCurrent, served, ← UInt64.toNat_inj]
    rfl
  rw [← size]
  constructor
  · intro current
    exact current _ _ (narBlake3_narPath _) found rfl
  · intro current blake3 entry hb hget _
    rw [narBlake3_narPath] at hb
    cases hb
    rw [found] at hget
    cases hget
    exact current

theorem get_word : IsWord "GET" := by decide +kernel

theorem head_word : IsWord "HEAD" := by decide +kernel

theorem framing_current :
    let index := HashIndex.insert .empty (fileEntry 120)
    HeadOf (handleConnection zeroHashers fileServer index (requestLine "HEAD" 120))
        (handleConnection zeroHashers fileServer index (requestLine "GET" 120)) ∧
      Framed (handleConnection zeroHashers fileServer index (requestLine "GET" 120)) := by
  have routed := (framing_honest_iff zeroHashers fileServer
    (HashIndex.insert .empty (fileEntry 120))).2 _ _ _ _ _
    (requestLine_words get_word 120) (requestLine_words head_word 120)
  exact ⟨routed.1, (routed.2.mpr fun _ => (fileEntry_current_iff 120).mpr rfl).1⟩

/-- A stale size goes out in front of a body of another length. -/
theorem stale_unframed :
    ¬ Framed (handleConnection zeroHashers fileServer (HashIndex.insert .empty (fileEntry 7))
      (requestLine "GET" 7)) := by
  intro framed
  rw [handleConnection_get (requestLine_words get_word 7)] at framed
  have current := (route_honest _ _ _ _).1.mp framed (fileEntry_path 7)
  exact absurd ((fileEntry_current_iff 7).mp current) (by decide)

end IrohNix.Substituter

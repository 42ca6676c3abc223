import IrohNix.Gossip.Caches
import IrohNix.Index.HashIndex
import IrohNix.Nix.Base32
import IrohNix.Node.Effect
import IrohNix.Transfer.Fetch

namespace IrohNix.Substituter
open IrohNix.Lib IrohNix.Index IrohNix.Gossip IrohNix.Transfer IrohNix.Node IrohNix.Nar

/-- What a client is sent: the head of a response, and pieces of its body. -/
inductive Sent where
  | head (status : Nat) (statusText contentType : String) (contentLength : Nat)
  | body (data : Bytes)
deriving DecidableEq

def Sent.bytes : Sent → Bytes
  | .head status statusText contentType contentLength =>
    utf8 ("HTTP/1.1 " ++ toString status ++ " " ++ statusText ++ "\r\nContent-Type: " ++
      contentType ++ "\r\nContent-Length: " ++ toString contentLength ++ "\r\n\r\n")
  | .body data => data

def Sent.payload : Sent → Bytes
  | .head .. => []
  | .body data => data

abbrev Answer := Logged Sent Error Unit

/-- The gossip cache, the order in which its hashes are walked over, and what each
attempt to fetch from a peer meets. -/
structure P2pContext where
  providerCache : ProviderCache
  order : providerCache.providers.Iter
  peer : EndpointId → Nat → NarExchange

/-- What requests are answered with, beside the index. -/
structure SubstituterEnv where
  priority : UInt32
  codec : NarCodec
  files : FileSystem
  p2p : Option P2pContext

def sendResponse (status : Nat) (statusText contentType : String) (body : Bytes) (isHead : Bool) :
    Answer := do
  .perform (.head status statusText contentType body.length)
  if !isHead && !body.isEmpty then .perform (.body body)

def sendText (status : Nat) (statusText text : String) (isHead : Bool) : Answer :=
  sendResponse status statusText "text/plain" (utf8 text) isHead

def handleCacheInfo (env : SubstituterEnv) (isHead : Bool) : Answer :=
  sendResponse 200 "OK" "text/x-nix-cache-info"
    (utf8 ("StoreDir: /nix/store\nWantMassQuery: 1\nPriority: " ++ toString env.priority ++ "\n"))
    isHead

/-- The entry made up for a provider: of its hashes none is known. -/
def syntheticEntry (provider : ProviderInfo) : HashEntry where
  blake3 := ⟨zeroBytes32⟩
  sha256 := ⟨zeroBytes32⟩
  storePath := provider.storePath
  narSize := provider.narSize
  references := []
  deriver := none

/-- Scan all providers for a store path of this hash prefix. -/
def tryFindViaGossip (storeHash : String) (p2p : Option P2pContext) : Option HashEntry := do
  let p2p ← p2p
  (p2p.order.items.flatMap Prod.snd).findSome? fun provider =>
    match storePathBasename provider.storePath with
    | some basename =>
      let providerHash := String.ofList (basename.toList.takeWhile (· != '-'))
      if providerHash = storeHash then some (syntheticEntry provider) else none
    | none => none

/-- The entry a narinfo is written from. -/
def narinfoEntry (p2p : Option P2pContext) (index : HashIndex) (hashPart : String) :
    Option HashEntry :=
  match index.getByStoreHash hashPart with
  | some entry => some entry
  | none => tryFindViaGossip hashPart p2p

def narUrl (entry : HashEntry) : String := "nar/" ++ hexLower entry.blake3.bytes.toList ++ ".nar"

def narinfoBody (entry : HashEntry) : String :=
  "StorePath: " ++ entry.storePath ++ "\n" ++
  "URL: " ++ narUrl entry ++ "\n" ++
  "Compression: none\n" ++
  "NarHash: sha256:" ++ entry.sha256.toNixBase32 ++ "\n" ++
  "NarSize: " ++ toString entry.narSize ++ "\n" ++
  "References: " ++ " ".intercalate (referencesToBasenames entry.references) ++ "\n" ++
  match entry.deriver.bind storePathBasename with
  | some basename => "Deriver: " ++ basename ++ "\n"
  | none => ""

/-- "/abcdef123.narinfo" asks for "abcdef123". -/
def narinfoHashPart (path : String) : String :=
  trimEndMatches ".narinfo" (trimStartMatches "/" path)

def handleNarinfo (env : SubstituterEnv) (index : HashIndex) (path : String) (isHead : Bool) :
    Answer :=
  match narinfoEntry env.p2p index (narinfoHashPart path) with
  | some entry => sendResponse 200 "OK" "text/x-nix-narinfo" (utf8 (narinfoBody entry)) isHead
  | none => sendText 404 "Not Found" "Not Found" isHead

/-- The NAR from the first of the listed providers that has it. -/
def tryFetchNarFromPeer (hashers : Hashers) (codec : NarCodec) (p2p : Option P2pContext)
    (blake3 : Blake3Hash) : Option Bytes := do
  let p2p ← p2p
  ((p2p.providerCache.getProviders blake3.bytes).getD []).findSome? fun provider =>
    match fetchNarWithConfig hashers codec .default (p2p.peer provider.endpointId) blake3 with
    | .ok (_, data) => some data
    | .error _ => none

/-- "/nar/abcdef.nar" asks for the hash abcdef, if that is one. -/
def narBlake3 (path : String) : Option Blake3Hash := do
  let bytes ← (hexDecode (trimEndMatches ".nar" (trimStartMatches "/nar/" path))).toOption
  (Nix.toBytes32 bytes).map Blake3Hash.mk

def sendNarHead (contentLength : Nat) : Answer :=
  .perform (.head 200 "OK" "application/x-nix-nar" contentLength)

def sendNarChunks (narData : Bytes) : Answer :=
  .forEach (fun chunk => .perform (.body chunk)) (narData.toChunks (64 * 1024))

/-- The NAR of an indexed path, from the disk or else from a peer. Once the head is
sent, a path that cannot be serialized ends the connection. -/
def sendNar (hashers : Hashers) (env : SubstituterEnv) (blake3 : Blake3Hash) (entry : HashEntry)
    (isHead : Bool) : Answer :=
  if env.files.pathExists entry.storePath then do
    sendNarHead entry.narSize.toNat
    if !isHead then do
      let (narData, _) ← .lift
        (serializePath hashers entry.storePath (env.files.node entry.storePath))
      sendNarChunks narData
  else match tryFetchNarFromPeer hashers env.codec env.p2p blake3 with
    | some narData => do
      sendNarHead narData.length
      if !isHead then sendNarChunks narData
    | none => sendText 404 "Not Found" "Store path not found" isHead

def handleNar (hashers : Hashers) (env : SubstituterEnv) (index : HashIndex) (path : String)
    (isHead : Bool) : Answer :=
  match narBlake3 path with
  | none => sendText 400 "Bad Request" "Invalid hash" isHead
  | some blake3 =>
    match index.getByBlake3 blake3 with
    | none => sendText 404 "Not Found" "Not Found" isHead
    | some entry => sendNar hashers env blake3 entry isHead

/-- Route a request, by the first line of it. -/
def handleConnection (hashers : Hashers) (env : SubstituterEnv) (index : HashIndex)
    (requestLine : String) : Answer :=
  match splitWhitespace requestLine with
  | method :: path :: _ =>
    if method ≠ "GET" ∧ method ≠ "HEAD" then
      sendText 405 "Method Not Allowed" "Method Not Allowed" false
    else
      let isHead := method = "HEAD"
      if path = "/nix-cache-info" then handleCacheInfo env isHead
      else if ".narinfo".toList.isSuffixOf path.toList then handleNarinfo env index path isHead
      else if "/nar/".toList.isPrefixOf path.toList ∧ ".nar".toList.isSuffixOf path.toList then
        handleNar hashers env index path isHead
      else sendText 404 "Not Found" "Not Found" isHead
  | _ => sendText 400 "Bad Request" "Bad Request" false

theorem hexDigit_solid : ∀ n < 16, isWhitespace (hexDigit n) = false := by decide +kernel

theorem hexLower_solid (bytes : Bytes) : ∀ c ∈ (hexLower bytes).toList, isWhitespace c = false := by
  intro c hc
  obtain ⟨n, hn, rfl⟩ := mem_hexLower hc
  exact hexDigit_solid n hn

theorem narUrl_word (entry : HashEntry) : IsWord (narUrl entry) := by
  have start : IsWord "nar/" := by decide +kernel
  have stop : IsWord ".nar" := by decide +kernel
  exact (start.append (hexLower_solid _)).append stop.2

end IrohNix.Substituter

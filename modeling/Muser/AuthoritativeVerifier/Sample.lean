import Muser.AuthoritativeVerifier.Checks
import Muser.AuthoritativeVerifier.Run

/-! # A small instance

A concrete instance of the primitives, in which digests are polynomial hashes, and a session that
can be run to the end of its rounds. Results are what the target would sign for a round at any
parent. The statements about whole histories are inhabited by histories of this instance.
-/

namespace Muser.Verifier.Sample

/-- The hexadecimal digits, each as a text. -/
def hexDigits : List (List Char) :=
  [['0'], ['1'], ['2'], ['3'], ['4'], ['5'], ['6'], ['7'], ['8'], ['9'], ['a'], ['b'], ['c'], ['d'], ['e'], ['f']]

/-- The low hexadecimal digits of a number, least significant first. -/
def hexText : ℕ → ℕ → List Char
  | 0, _ => []
  | count + 1, value => hexDigits.getD (value % 16) ['0'] ++ hexText count (value / 16)

def digestOf (value : ℕ) : String := String.ofList (hexText 64 value)

private theorem utf8_ofList (text : List Char) : utf8 (String.ofList text) = text.flatMap String.utf8EncodeChar := by
  simp [utf8, String.toUTF8, String.ofList, List.utf8Encode]

private theorem hexText_encoded (count value : ℕ) :
    ((hexText count value).flatMap String.utf8EncodeChar).length = count ∧
      ∀ byte ∈ (hexText count value).flatMap String.utf8EncodeChar, isHexByte byte = true := by
  induction count generalizing value with
  | zero => simp [hexText]
  | succ count ih =>
    have digit : ∀ number < 16, ((hexDigits.getD number ['0']).flatMap String.utf8EncodeChar).length = 1 ∧
        ∀ byte ∈ (hexDigits.getD number ['0']).flatMap String.utf8EncodeChar, isHexByte byte = true := by decide +kernel
    obtain ⟨single, hex⟩ := digit (value % 16) (Nat.mod_lt _ (by omega))
    obtain ⟨length, later⟩ := ih (value / 16)
    rw [hexText, List.flatMap_append, List.length_append]
    refine ⟨by omega, fun byte member => ?_⟩
    rcases List.mem_append.mp member with first | rest
    · exact hex byte first
    · exact later byte rest

theorem isDigest_digestOf (value : ℕ) : isDigest (digestOf value) = true := by
  obtain ⟨length, hex⟩ := hexText_encoded 64 value
  simp only [isDigest, digestOf, utf8_ofList, Bool.and_eq_true, beq_iff_eq, List.all_eq_true]
  exact ⟨length, hex⟩

/-- The text as a number, modulo a prime. -/
def hash (text : Bytes) : ℕ := text.foldl (fun value byte => value * 257 + byte.toNat + 1) 7 % (2 ^ 127 - 1)

/-- The signature of a message under a public key. -/
def signature (publicKey message : Bytes) : Bytes :=
  (List.range 64).map fun place => UInt8.ofNat (hash (publicKey ++ message) / 256 ^ place)

def primitives : Primitives where
  sha256Hex text := digestOf (hash text)
  hmacSha256Hex key text := digestOf (hash (key ++ text))
  ed25519Verify publicKey message signed := signed == signature publicKey message
  drawRow entries snapshot := ((entries.map (·.token)).headD 0, { snapshot with index := snapshot.index + 1 })
  jsonFailure _ := "EOF while parsing a value"
  sha256Hex_isDigest _ := isDigest_digestOf _
  hmacSha256Hex_isDigest _ _ := isDigest_digestOf _

def key : MacKey := ⟨[7, 7, 7]⟩

def publicKey : Vector UInt8 32 := Vector.replicate 32 9

def signer : TargetSigningKeyV2 := ⟨signature publicKey.toList⟩

def unsigned : SessionCoreV2 where
  protocol := verifierSessionProtocolV2
  sessionId := "session"
  clientIncarnation := "client"
  logWriterAuthorityId := "writer"
  authorityLeaseId := "lease"
  authorityTerm := 1
  targetExecutorId := "target"
  targetPublicKey := publicKey
  createdUnixMs := 1
  expiresUnixMs := 1000
  hmacKeyId := "key"
  hmacKeyEpoch := 1
  identity := {
    semanticProductSha256 := zeroDigest
    prefixCheckpointSha256 := zeroDigest
    targetCheckpointSha256 := zeroDigest
    targetEngineSha256 := zeroDigest
    targetSamplerSha256 := zeroDigest
    draftCheckpointSha256 := zeroDigest
    draftEngineSha256 := zeroDigest
    tokenizerSha256 := zeroDigest
    vocabularySha256 := zeroDigest
    targetGenesisRootSha256 := zeroDigest
    draftGenesisRootSha256 := zeroDigest
    portableKvAbi := "abi" }
  couplingPolicy := .greedy
  samplerConfigSha256 := zeroDigest
  vocabSize := 50
  maxContextTokens := 20000
  maxDrafts := 2
  maxTotalFragmentBytes := 64
  initialEvaluatedTokens := [1, 2]
  initialOutputHeight := 0
  initialFrontier := .opened 3 0
  initialSamplerState := .stateless statelessSamplerV2
  fragmentRequirements := [⟨"hidden", .targetHidden, .roundSingleton, "rows", 2, true⟩]
  genesisHeadSha256 := zeroDigest

/-- The session core with its genesis head. -/
def core : SessionCoreV2 := { unsigned with genesisHeadSha256 := unsigned.genesisDigest primitives }

def session : AuthenticatedSessionV2 where
  core
  hmacSha256 := primitives.hmacSha256Hex key.bytes (MacKey.domainStream verifierSessionMacDomainV2 (canonical core))

/-- A round with one draft at a parent. -/
def roundCore (requestId : String) (parent : Parent) : RoundCoreV2 where
  protocol := verifierRoundProtocolV3
  intent := .verify
  sessionId := core.sessionId
  sessionGenesisSha256 := core.genesisHeadSha256
  authorityTerm := core.authorityTerm
  requestId
  createdUnixMs := 2
  expiresUnixMs := 900
  hmacKeyId := core.hmacKeyId
  hmacKeyEpoch := core.hmacKeyEpoch
  baseOutputHeight := parent.outputHeight
  baseHeadSha256 := parent.headSha256
  baseEvaluatedTokens := parent.evaluatedTokens
  baseTokensSha256 := tokenDigest primitives parent.evaluatedTokens
  frontierIn := parent.frontier
  draftTokens := [4]
  draftEvidence := .none
  baseSamplerState := parent.samplerState
  postDraftSamplerState := parent.samplerState

def round (requestId : String) (parent : Parent) : AuthenticatedRoundV2 where
  core := roundCore requestId parent
  hmacSha256 := primitives.hmacSha256Hex key.bytes
    (MacKey.domainStream verifierRoundMacDomainV3 (canonical (roundCore requestId parent)))

/-- The payload of the one fragment of every result. -/
def payload : Bytes := [5, 6]

def descriptor (request : AuthenticatedRoundV2) : FragmentDescriptorV2 where
  ordinal := 0
  componentId := "hidden"
  kind := .targetHidden
  logicalStart := request.core.baseOutputHeight
  logicalCount := 1
  payloadAbi := "rows"
  bytesPerLogicalRow := 2
  byteLen := 2
  sha256 := primitives.sha256Hex payload

/-- The target rejects the draft and opens the next frontier at the given token. -/
def answer (request : AuthenticatedRoundV2) (frontierIn frontierOut : UInt32) : AuthenticatedResultV2 :=
  .sign ((unlinkedResult primitives request core (.opened 0 frontierOut) [frontierIn]
    (request.core.baseOutputHeight + 1) request.core.baseSamplerState [descriptor request] 10).linked primitives) signer

def closure (request : AuthenticatedRoundV2) (result : AuthenticatedResultV2) : VerifiedClosureV2 primitives where
  resultSha256 := result.recordDigest primitives
  fragments := [⟨descriptor request, payload⟩]
  described := by
    intro fragment member
    obtain rfl := List.mem_singleton.mp member
    exact ⟨rfl, rfl⟩

def fence : AuthorityFenceV2 := ⟨fun _ _ _ _ _ _ => true⟩

def renderer : VerifierRendererV2 primitives where
  stage result _ nowUnixMs := .ok ⟨result.recordDigest primitives, result.core.fragmentsSha256, "stage", nowUnixMs⟩
  activate _ := .ok ()

/-- A file system without faults. -/
def sound : FileOp → Fault := fun _ => .done

/-- A file system that stops every write after some bytes. -/
def tearing (written : ℕ) : FileOp → Fault := fun _ => .torn written

def request : AuthenticatedRoundV2 := round "first" ⟨[1, 2], 0, core.genesisHeadSha256, .opened 3 0,
    .stateless statelessSamplerV2⟩

def result : AuthenticatedResultV2 := answer request 3 8

/-- One round from its reservation to its ACK. -/
def firstRound : List (Event primitives) := [
  .call (.reserve request fence 5) sound,
  .call (.recordPrepared request result fence 6) sound,
  .call (.stageResult request (closure request result) renderer 7) sound,
  .call (.commitAndActivate request fence renderer 8) sound,
  .call (.acknowledge "first" result.core.newHeadSha256 9) sound]

/-- The world of the created journal. -/
def start : World := ⟨Journal.fromSession primitives key session, Disk.fresh session, [], [], []⟩

set_option maxRecDepth 100000 in
theorem created : create primitives session key 2 "key" 0 = .ok start := by
  rw [create, check_eq_ok_iff]
  exact ⟨by decide +kernel, rfl⟩

end Muser.Verifier.Sample

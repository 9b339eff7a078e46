import Muser.Cluster.Manifest
import Muser.Lib.Endian

/-! # Frames on the wire

A frame is a preamble of twenty bytes, a header in JSON and a payload. The writer checks the lengths
against its limits. The reader checks them again before it allocates, looks through the header for
fields that it does not know, and then reads it with its type.
-/

namespace Muser.Cluster

/-- A number in so many bytes, least significant first. -/
def littleEndian (size value : ℕ) : Bytes := (bigEndian size value).reverse

def fromLittleEndian (bytes : Bytes) : ℕ := fromBigEndian bytes.reverse

def magic : Bytes := [0x4B, 0x56, 0x50, 0x4B, 0x56, 0x32, 0, 0]

def preambleBytes : ℕ := 20

/-- A begin manifest and the prefix cut that stands beside it. -/
structure BeginAdmissionV2 where
  manifest : BeginManifestV2
  prefixCut : ℕ
deriving DecidableEq

inductive WireFrameV2 where
  | begin (admission : BeginAdmissionV2)
  | segment (sequence : UInt32) (payload : Bytes)
  | deferredSegment (descriptor : SegmentDescriptorV2) (payload : Bytes)
  | sealed (manifest : SealManifestV2)
  | ack (transferId : String) (generation : ℕ)
  | abort (reason : String)
deriving DecidableEq

inductive Header where
  | begin (manifest : BeginManifestV2)
  | segment (sequence : UInt32) (descriptor : Option SegmentDescriptorV2)
  | sealed (manifest : SealManifestV2)
  | ack (transferId : String) (generation : ℕ)
  | abort (reason : String)
deriving DecidableEq

/-- A descriptor that is written only where there is one. -/
def descriptorMember : Option SegmentDescriptorV2 → List (String × Json)
  | none => []
  | some descriptor => [("descriptor", toJson descriptor)]

instance : ToJson Header where
  toJson
    | .begin manifest => .obj [("kind", .str "begin"), ("manifest", toJson manifest)]
    | .segment sequence descriptor =>
      .obj ([("kind", .str "segment"), ("sequence", toJson sequence)] ++ descriptorMember descriptor)
    | .sealed manifest => .obj [("kind", .str "seal"), ("manifest", toJson manifest)]
    | .ack transferId generation =>
      .obj [("kind", .str "ack"), ("transfer_id", toJson transferId), ("generation", toJson generation)]
    | .abort reason => .obj [("kind", .str "abort"), ("reason", toJson reason)]

/-- The limits are `usize`s. -/
structure FrameLimitsV2 where
  maxHeaderBytes : UInt64
  maxPayloadBytes : UInt64
deriving DecidableEq

def FrameLimitsV2.default : FrameLimitsV2 := ⟨8388608, 536870912⟩

inductive TransportError where
  | io (message : String)
  | invalid (message : String)
  | json (message : String)
deriving DecidableEq

instance : LawfulToJson Header where
  toJson_injective left right same := by
    cases left <;> cases right <;> have members := Json.obj.inj same
    case segment.segment sequence descriptor sequence' descriptor' =>
      cases descriptor <;> cases descriptor' <;>
        simp_all only [descriptorMember, List.append_nil, List.cons_append, List.nil_append, List.cons.injEq, Prod.mk.injEq,
          toJson_inj, true_and, and_true, reduceCtorEq, and_false]
    all_goals simp_all only [List.cons_append, List.cons.injEq, Prod.mk.injEq, toJson_inj, true_and, and_true,
      Json.str.injEq, String.reduceEq, false_and]

/-- The JSON readers, which read back what was written: the value of a text, and the header of one. -/
structure HeaderReader where
  value : Bytes → Except String Json
  fromSlice : Bytes → Except String Header
  value_canonical : ∀ header : Header, value (canonical header) = .ok (toJson header)
  fromSlice_canonical : ∀ header : Header, fromSlice (canonical header) = .ok header

/-- What a frame is written as. -/
def WireFrameV2.parts : WireFrameV2 → Header × Bytes
  | .begin admission => (.begin admission.manifest, [])
  | .segment sequence payload => (.segment sequence none, payload)
  | .deferredSegment descriptor payload => (.segment descriptor.sequence (some descriptor), payload)
  | .sealed manifest => (.sealed manifest, [])
  | .ack transferId generation => (.ack transferId generation, [])
  | .abort reason => (.abort reason, [])

/-- A cut that the typed manifest cannot say. -/
def WireFrameV2.cuts : WireFrameV2 → Bool
  | .begin admission => admission.prefixCut ≠ 0
  | _ => false

/-- The preamble; the lengths are cut to the width of their fields. -/
def preamble (json payload : Bytes) : Bytes := magic ++ littleEndian 4 json.length ++ littleEndian 8 payload.length

def writeFrameV2 (frame : WireFrameV2) (limits : FrameLimitsV2) : Except TransportError Bytes := do
  reject frame.cuts (.invalid "the typed begin manifest cannot serialize a prefix cut")
  let json := canonical frame.parts.1
  let payload := frame.parts.2
  reject (limits.maxHeaderBytes.toNat < json.length || limits.maxPayloadBytes.toNat < payload.length)
    (.invalid "frame exceeds configured bounds")
  .ok (preamble json payload ++ json ++ payload)

section Audit

def beginFrameFields : List String := ["kind", "manifest"]

def beginManifestFields : List String :=
  ["protocol", "transfer_id", "generation", "created_unix_ms", "expires_unix_ms", "identity", "prompt_token_ids",
    "multimodal", "hmac", "components", "deferred_segments", "segments", "prefix_cut"]

def identityFields : List String :=
  ["adapter_sha256", "chat_template_sha256", "context_policy_sha256", "model_revision", "model_sha256",
    "tokenizer_revision", "tokenizer_sha256"]

def multimodalFields : List String := ["projector_sha256", "preprocessing_sha256", "image_sequence_sha256"]

def hmacFields : List String := ["key_id", "epoch"]

def componentFields : List String := ["id", "kind", "required", "identity_sha256"]

def descriptorFields : List String :=
  ["sequence", "component_id", "role", "layer", "logical_start", "logical_count", "element_type", "elements_per_token",
    "byte_len", "sha256"]

def segmentFrameFields : List String := ["kind", "sequence", "descriptor"]

def sealFrameFields : List String := ["kind", "manifest"]

def sealManifestFields : List String := ["core", "hmac_sha256"]

def sealCoreFields : List String :=
  ["transfer_id", "generation", "begin_sha256", "descriptor_sha256", "payload_sha256", "segment_count", "total_bytes"]

def ackFrameFields : List String := ["kind", "transfer_id", "generation"]

def abortFrameFields : List String := ["kind", "reason"]

/-- A member of an object. -/
def get (value : Json) (key : String) : Option Json :=
  match value with
  | .obj members => members.lookup key
  | _ => none

def asStr : Json → Option String
  | .str text => some text
  | _ => none

def asU64 : Json → Option ℕ
  | .num value => if value < 2 ^ 64 then some value else none
  | _ => none

/-- The items of an array, and none of anything else. -/
def items : Option Json → List Json
  | some (.arr values) => values
  | _ => []

/-- An object names no field that is not known; what is no object is left to the typed reader. -/
def auditObject (value : Option Json) (known : List String) (label : String) : Except TransportError Unit :=
  match value with
  | some (.obj members) =>
    match (members.map Prod.fst).find? fun key => !known.contains key with
    | some unknown =>
      .error (.invalid (label ++ " carries unknown field `" ++ unknown ++ "`: the producer is newer than this receiver"))
    | none => .ok ()
  | _ => .ok ()

def auditBeginValue (frame : Json) : Except TransportError Unit := do
  auditObject (some frame) beginFrameFields "begin frame"
  let manifest := get frame "manifest"
  auditObject manifest beginManifestFields "begin manifest"
  let field name := manifest.bind (get · name)
  auditObject (field "identity") identityFields "exact identity"
  auditObject (field "multimodal") multimodalFields "multimodal identity"
  auditObject (field "hmac") hmacFields "HMAC identity"
  forM (items (field "components")) fun component => auditObject (some component) componentFields "component"
  forM (items (field "segments")) fun descriptor => auditObject (some descriptor) descriptorFields "segment descriptor"

def auditFrameFields (frame : Json) : Except TransportError Unit :=
  match (get frame "kind").bind asStr with
  | some "begin" => auditBeginValue frame
  | some "segment" => do
    auditObject (some frame) segmentFrameFields "segment frame"
    auditObject (get frame "descriptor") descriptorFields "deferred segment descriptor"
  | some "seal" => do
    auditObject (some frame) sealFrameFields "seal frame"
    let manifest := get frame "manifest"
    auditObject manifest sealManifestFields "seal manifest"
    auditObject (manifest.bind (get · "core")) sealCoreFields "seal core"
  | some "ack" => auditObject (some frame) ackFrameFields "ACK frame"
  | some "abort" => auditObject (some frame) abortFrameFields "abort frame"
  | _ => .ok ()

/-- The cut that the raw header names. -/
def beginPrefixCut (frame : Json) : Except TransportError ℕ :=
  match (get frame "manifest").bind (get · "prefix_cut") with
  | none => .ok 0
  | some value =>
    match asU64 value with
    | none => .error (.invalid "begin prefix_cut is not an unsigned integer")
    | some cut => .ok cut

end Audit

/-- Take exactly so many bytes off a stream. -/
def readExact (count : ℕ) (stream : Bytes) : Except TransportError (Bytes × Bytes) :=
  if stream.length < count then .error (.io "failed to fill whole buffer") else .ok (stream.take count, stream.drop count)

def jsonError {α : Type} : Except String α → Except TransportError α
  | .error message => .error (.json message)
  | .ok value => .ok value

/-- The payload of a segment: what there is of it, which must be all of it. -/
def readPayload (count : ℕ) (stream : Bytes) : Except TransportError (Bytes × Bytes) :=
  if stream.length < count then .error (.invalid "truncated segment payload") else .ok (stream.take count, stream.drop count)

def readBody (header : Header) (value : Json) (payloadLen : ℕ) (stream : Bytes) :
    Except TransportError (WireFrameV2 × Bytes) :=
  match header with
  | .segment sequence descriptor => do
    reject (payloadLen == 0) (.invalid "empty segment")
    let (payload, stream) ← readPayload payloadLen stream
    match descriptor with
    | some descriptor =>
      if descriptor.sequence = sequence then .ok (.deferredSegment descriptor payload, stream)
      else .error (.invalid "segment sequence differs from its descriptor")
    | none => .ok (.segment sequence payload, stream)
  | header =>
    if payloadLen ≠ 0 then .error (.invalid "control frame carries payload")
    else match header with
      | .begin manifest =>
        match beginPrefixCut value with
        | .error error => .error error
        | .ok prefixCut => .ok (.begin { manifest := manifest, prefixCut := prefixCut }, stream)
      | .sealed manifest => .ok (.sealed manifest, stream)
      | .ack transferId generation => .ok (.ack transferId generation, stream)
      | .abort reason => .ok (.abort reason, stream)
      | .segment .. => .error (.invalid "control frame carries payload")

/-- Read one frame off a stream. -/
def readFrameV2 (reader : HeaderReader) (stream : Bytes) (limits : FrameLimitsV2) :
    Except TransportError (WireFrameV2 × Bytes) := do
  let (preamble, stream) ← readExact preambleBytes stream
  reject (preamble.take 8 != magic) (.invalid "bad frame magic")
  let headerLen := fromLittleEndian ((preamble.drop 8).take 4)
  let payloadLen := fromLittleEndian (preamble.drop 12)
  reject (headerLen == 0 || limits.maxHeaderBytes.toNat < headerLen || limits.maxPayloadBytes.toNat < payloadLen)
    (.invalid "frame lengths exceed bounds")
  let (json, stream) ← readExact headerLen stream
  let value ← jsonError (reader.value json)
  auditFrameFields value
  let header ← jsonError (reader.fromSlice json)
  readBody header value payloadLen stream

section Streams

/-- Frames one behind the other. -/
def writeFrames (limits : FrameLimitsV2) : List WireFrameV2 → Except TransportError Bytes
  | [] => .ok []
  | frame :: frames => do
    let bytes ← writeFrameV2 frame limits
    let more ← writeFrames limits frames
    .ok (bytes ++ more)

/-- Read so many frames off a stream. -/
def readFrames (reader : HeaderReader) (limits : FrameLimitsV2) :
    ℕ → Bytes → Except TransportError (List WireFrameV2 × Bytes)
  | 0, stream => .ok ([], stream)
  | count + 1, stream => do
    let (frame, stream) ← readFrameV2 reader stream limits
    let (frames, stream) ← readFrames reader limits count stream
    .ok (frame :: frames, stream)

end Streams

end Muser.Cluster

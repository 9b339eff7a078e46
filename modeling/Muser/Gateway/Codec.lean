import Muser.Gateway.Messages
import Muser.Lib.Endian
import Mathlib.Logic.Function.Basic
import Muser.AuthoritativeVerifier.Sample

/-! # Frames between a source and its gateway

A frame is a fixed preamble, a canonical header and a payload. The reader checks the lengths before it
allocates, the header before it reads the payload, and the payload against the header.
-/

namespace Muser.Gateway

open Verifier

inductive VerifierGatewayCodecErrorV1 where
  | io (message : String)
  | validation (message : String)
  | authentication
deriving DecidableEq

abbrev CodecResultV1 (α : Type) := Except VerifierGatewayCodecErrorV1 α

def invalid (message : String) : VerifierGatewayCodecErrorV1 := .validation message

def verifierGatewayMagicV1 : Bytes := utf8 "MUVERF1" ++ [0]
def maxVerifierGatewayHeaderBytesV1 : ℕ := 64 * 1024 * 1024

structure VerifierGatewayFrameLimitsV1 where
  maxHeaderBytes : ℕ
  maxPayloadBytes : ℕ
deriving DecidableEq

def VerifierGatewayFrameLimitsV1.validate (limits : VerifierGatewayFrameLimitsV1) : CodecResultV1 Unit :=
  reject (limits.maxHeaderBytes == 0 || maxVerifierGatewayHeaderBytesV1 < limits.maxHeaderBytes ||
    maxFragmentBytesV2 < limits.maxPayloadBytes) (invalid "frame limits exceed the closed protocol bounds")

def validateIdentifier (label value : String) : CodecResultV1 Unit :=
  reject (!isIdentifier value) (invalid (label ++ " identifier differs"))

def validateDigest (label value : String) : CodecResultV1 Unit :=
  reject (!isDigest value) (invalid (label ++ " digest differs"))

/-- No ordinal is followed by one that is not larger. -/
def strictlyAscending : List UInt32 → Bool
  | first :: second :: rest => first < second && strictlyAscending (second :: rest)
  | _ => true

def MirrorPredictionCommitmentV1.validateFor (p : Primitives) (commitment : MirrorPredictionCommitmentV1)
    (round : AuthenticatedRoundV2) : CodecResultV1 Unit := do
  reject (commitment.protocol != verifierMirrorPredictionProtocolV1 || commitment.requestId != round.core.requestId ||
    commitment.requestIntentSha256 != round.intentSha256 p || commitment.baseHeadSha256 != round.core.baseHeadSha256)
    (invalid "Mirror prediction commitment differs from round")
  reject (commitment.provisionalParentCacheRevision.toNat + 1 == 2 ^ 64) (invalid "Mirror cache revision overflow")
  reject (commitment.provisionalCacheRevision != commitment.provisionalParentCacheRevision + 1)
    (invalid "Mirror prediction commitment differs from round")
  validateIdentifier "Mirror prediction request" commitment.requestId
  validateDigest "Mirror prediction intent" commitment.requestIntentSha256
  validateDigest "Mirror prediction parent" commitment.baseHeadSha256
  validateDigest "Mirror provisional state" commitment.provisionalStateSha256

def GatewaySourceRequestCoreV1.validate (p : Primitives) (core : GatewaySourceRequestCoreV1) : CodecResultV1 Unit := do
  reject (core.protocol != verifierGatewaySourceProtocolV1) (invalid "source request protocol differs")
  validateDigest "session record" core.sessionRecordSha256
  match core.command with
  | .admitSession session =>
    reject (session.recordDigest p != core.sessionRecordSha256) (invalid "admitted session digest differs")
  | .submitRound round mirrorPrediction => do
    validateIdentifier "round request" round.core.requestId
    match mirrorPrediction with
    | some commitment => commitment.validateFor p round
    | none => .ok ()
  | .fetchMissing requestId resultSha256 ordinals => do
    validateIdentifier "fetch request" requestId
    validateDigest "fetch result" resultSha256
    reject (maxFragmentsV2 < ordinals.length || !strictlyAscending ordinals)
      (invalid "missing fragment ordinals are not a bounded strict set")
  | .sourceAck receipt => do
    reject (receipt.protocol != verifierSourceInstallReceiptProtocolV1 || receipt.durableUnixMs == 0)
      (invalid "source install receipt protocol or time differs")
    validateIdentifier "ACK request" receipt.requestId
    validateDigest "ACK result" receipt.resultSha256
    validateDigest "ACK head" receipt.appliedHeadSha256
    validateDigest "ACK render root" receipt.renderRootSha256
    validateDigest "ACK source state" receipt.sourceStateSha256
    validateDigest "ACK installed transcript" receipt.installedTranscriptSha256
    reject (receipt.sourceStateBytes == 0) (invalid "source install receipt has no durable state")

def validatePendingPair (p : Primitives) (request : AuthenticatedRoundV2) (result : AuthenticatedResultV2) :
    CodecResultV1 Unit := do
  validateIdentifier "pending request" request.core.requestId
  reject (request.core.requestId != result.core.requestId || request.intentSha256 p != result.core.requestIntentSha256)
    (invalid "pending request/result identity differs")

def PendingRoundSummaryV1.validate (p : Primitives) : PendingRoundSummaryV1 → CodecResultV1 Unit
  | .reserved request => validateIdentifier "pending request" request.core.requestId
  | .prepared request result => validatePendingPair p request result
  | .staged request result renderer => do
    validatePendingPair p request result
    validateDigest "pending renderer result" renderer.resultSha256
    validateDigest "pending renderer root" renderer.renderRootSha256
    validateIdentifier "pending renderer token" renderer.stageToken
    reject (renderer.resultSha256 != result.recordDigest p || renderer.renderRootSha256 != result.core.fragmentsSha256)
      (invalid "pending renderer receipt differs")

def validateReply (p : Primitives) : VerifierGatewayReplyV1 → CodecResultV1 Unit
  | .sessionAccepted session sessionRecordSha256 pending => do
    validateDigest "accepted session" sessionRecordSha256
    reject (session.recordDigest p != sessionRecordSha256) (invalid "accepted session record digest differs")
    match pending with
    | some pending => pending.validate p
    | none => .ok ()
  | .roundCommitted result resultSha256 sourceAdmissionSha256 _ => do
    validateDigest "committed result" resultSha256
    validateDigest "committed source admission" sourceAdmissionSha256
    validateIdentifier "committed request" result.core.requestId
    reject (result.recordDigest p != resultSha256) (invalid "committed result digest differs")
  | .fragment requestId resultSha256 descriptor => do
    validateIdentifier "fragment request" requestId
    validateDigest "fragment result" resultSha256
    validateIdentifier "fragment component" descriptor.componentId
    validateIdentifier "fragment ABI" descriptor.payloadAbi
    validateDigest "fragment payload" descriptor.sha256
    reject (maxFragmentsV2 ≤ descriptor.ordinal.toNat || descriptor.byteLen == 0 ||
      maxFragmentBytesV2 < descriptor.byteLen.toNat) (invalid "fragment descriptor exceeds wire bounds")
  | .fetchComplete requestId resultSha256 deliveredOrdinals => do
    validateIdentifier "fetch completion request" requestId
    validateDigest "fetch completion result" resultSha256
    reject (maxFragmentsV2 < deliveredOrdinals.length || !strictlyAscending deliveredOrdinals)
      (invalid "fetch completion ordinal set differs")
  | .sourceAcked requestId resultSha256 appliedHeadSha256 => do
    validateIdentifier "ACKed request" requestId
    validateDigest "ACKed result" resultSha256
    validateDigest "ACKed head" appliedHeadSha256
  | .sessionFailed sessionRecordSha256 failure => do
    validateDigest "failed session" sessionRecordSha256
    validateIdentifier "failed request" failure.requestId
    validateDigest "failed request intent" failure.requestIntentSha256
    validateDigest "failed request parent" failure.baseHeadSha256
    reject (failure.requestExpiresUnixMs == 0 || failure.failedUnixMs == 0) (invalid "failed session timestamps differ")
    reject (failure.reason == .expiredReserved && failure.failedUnixMs ≤ failure.requestExpiresUnixMs)
      (invalid "expired reservation failure predates expiry")
  | .stale requestId _ headSha256 _ _ transcriptSha256 => do
    validateIdentifier "stale request" requestId
    validateDigest "stale head" headSha256
    validateDigest "stale transcript" transcriptSha256

/-- What a message demands of the length of its payload. -/
def validateMessageHeader (p : Primitives) (message : VerifierGatewayMessageV1) (payloadBytes : ℕ) : CodecResultV1 Unit :=
  match message with
  | .source request => do
    request.core.validate p
    reject (payloadBytes != 0) (invalid "source control frame carries a payload")
  | .gateway reply => do
    validateReply p reply
    match reply with
    | .fragment _ _ descriptor =>
      reject (payloadBytes != descriptor.byteLen.toNat) (invalid "fragment preamble length differs from descriptor")
    | _ => reject (payloadBytes != 0) (invalid "control reply carries a payload")

def VerifierGatewayFrameV1.validate (p : Primitives) (frame : VerifierGatewayFrameV1) : CodecResultV1 Unit := do
  validateMessageHeader p frame.message frame.payload.length
  match frame.message with
  | .source request => request.core.validate p
  | .gateway (.fragment _ _ descriptor) =>
    reject (frame.payload.length != descriptor.byteLen.toNat || p.sha256Hex frame.payload != descriptor.sha256)
      (invalid "fragment frame payload differs")
  | .gateway _ => .ok ()

/-- The JSON reader of a header, which reads back what the writer writes. -/
structure SerdeJson where
  fromSlice : Bytes → Except String VerifierGatewayFrameHeaderV1
  fromSlice_canonical : ∀ header, fromSlice (canonical header) = .ok header

/-- Read a header that is in canonical form. -/
def decodeCanonicalJson (serde : SerdeJson) (bytes : Bytes) (maxBytes : ℕ) :
    CodecResultV1 VerifierGatewayFrameHeaderV1 :=
  if bytes.isEmpty || maxBytes < bytes.length then
    .error (invalid ("JSON length " ++ toString bytes.length ++ " is outside 1..=" ++ toString maxBytes))
  else
    match serde.fromSlice bytes with
    | .error message => .error (invalid message)
    | .ok decoded =>
      if canonical decoded ≠ bytes then
        .error (invalid "JSON is not in the canonical compact sorted-key encoding")
      else .ok decoded

/-- Take exactly so many bytes off a stream. -/
def readExact (count : ℕ) (stream : Bytes) : CodecResultV1 (Bytes × Bytes) :=
  if stream.length < count then .error (.io "failed to fill whole buffer") else .ok (stream.take count, stream.drop count)

def VerifierGatewayFrameV1.header (p : Primitives) (frame : VerifierGatewayFrameV1) : VerifierGatewayFrameHeaderV1 where
  protocol := verifierGatewayProtocolV1
  payloadBytes := UInt64.ofNat frame.payload.length
  payloadSha256 := p.sha256Hex frame.payload
  message := frame.message

/-- The bytes written for a frame. -/
def writeVerifierGatewayFrameV1 (p : Primitives) (frame : VerifierGatewayFrameV1) (limits : VerifierGatewayFrameLimitsV1) :
    CodecResultV1 Bytes := do
  limits.validate
  frame.validate p
  reject (limits.maxPayloadBytes < frame.payload.length) (invalid "frame payload exceeds configured bounds")
  let header := canonical (frame.header p)
  reject (header.isEmpty || limits.maxHeaderBytes < header.length) (invalid "frame header exceeds configured bounds")
  reject (2 ^ 32 ≤ header.length) (invalid "frame header overflow")
  .ok (verifierGatewayMagicV1 ++ bigEndian 4 header.length ++ bigEndian 8 frame.payload.length ++ header ++ frame.payload)

/-- Read one frame off a stream. -/
def readVerifierGatewayFrameV1 (p : Primitives) (serde : SerdeJson) (stream : Bytes)
    (limits : VerifierGatewayFrameLimitsV1) : CodecResultV1 (VerifierGatewayFrameV1 × Bytes) := do
  limits.validate
  let (magic, stream) ← readExact 8 stream
  let (headerLen, stream) ← readExact 4 stream
  let (payloadLen, stream) ← readExact 8 stream
  reject (magic != verifierGatewayMagicV1) (invalid "frame magic differs")
  let headerLen := fromBigEndian headerLen
  let payloadLen := fromBigEndian payloadLen
  reject (headerLen == 0 || limits.maxHeaderBytes < headerLen || limits.maxPayloadBytes < payloadLen)
    (invalid "frame lengths exceed configured bounds")
  let (headerBytes, stream) ← readExact headerLen stream
  let header ← decodeCanonicalJson serde headerBytes limits.maxHeaderBytes
  reject (header.protocol != verifierGatewayProtocolV1 || header.payloadBytes.toNat != payloadLen ||
    !isDigest header.payloadSha256) (invalid "frame header identity or payload length differs")
  validateMessageHeader p header.message payloadLen
  let (payload, stream) ← readExact payloadLen stream
  reject (p.sha256Hex payload != header.payloadSha256) (invalid "frame payload commitment differs")
  let frame : VerifierGatewayFrameV1 := ⟨header.message, payload⟩
  frame.validate p
  .ok (frame, stream)

end Muser.Gateway

/-! ## One encoding for every frame

What the writer accepts is read back unchanged, and what the reader accepts is what the writer writes.
-/

namespace Muser.Gateway

open Verifier

variable {p : Primitives} {serde : SerdeJson} {limits : VerifierGatewayFrameLimitsV1} {frame : VerifierGatewayFrameV1}
  {stream bytes rest : Bytes}

theorem readExact_eq_ok_iff {count : ℕ} : readExact count stream = .ok (bytes, rest) ↔
    stream = bytes ++ rest ∧ bytes.length = count := by
  rw [readExact]
  constructor
  · intro read
    split at read
    · cases read
    · next long =>
      rw [Except.ok.injEq, Prod.mk.injEq] at read
      obtain ⟨rfl, rfl⟩ := read
      exact ⟨(List.take_append_drop count stream).symm, List.length_take_of_le (by omega)⟩
  · rintro ⟨rfl, rfl⟩
    rw [if_neg (by rw [List.length_append]; omega), List.take_left, List.drop_left]

theorem canonical_header_ne_nil (header : VerifierGatewayFrameHeaderV1) : canonical header ≠ [] := by
  change (Json.obj _).render ≠ []
  rw [Json.render]
  exact List.cons_ne_nil _ _

/-- The reader of headers accepts exactly the canonical text. -/
theorem decodeCanonicalJson_eq_ok_iff {header : VerifierGatewayFrameHeaderV1} {maxBytes : ℕ} :
    decodeCanonicalJson serde bytes maxBytes = .ok header ↔ canonical header = bytes ∧ bytes.length ≤ maxBytes := by
  rw [decodeCanonicalJson]
  constructor
  · intro decoded
    split at decoded
    · cases decoded
    · next sized =>
      split at decoded
      · cases decoded
      · split at decoded
        · cases decoded
        · next same =>
          cases decoded
          simp only [Bool.or_eq_true, decide_eq_true_eq, not_or, Nat.not_lt] at sized
          exact ⟨not_not.mp same, sized.2⟩
  · rintro ⟨rfl, sized⟩
    have nonempty : (canonical header).isEmpty = false :=
      Bool.eq_false_iff.mpr fun empty => canonical_header_ne_nil header (List.isEmpty_iff.mp empty)
    rw [if_neg (by rw [nonempty, Bool.false_or, decide_eq_true_eq]; omega), serde.fromSlice_canonical]
    dsimp only
    rw [if_neg (not_not.mpr rfl)]

theorem validate_limits (valid : limits.validate = .ok ()) :
    limits.maxHeaderBytes < 256 ^ 4 ∧ limits.maxPayloadBytes < 256 ^ 8 := by
  simp only [VerifierGatewayFrameLimitsV1.validate, reject_eq_ok_iff, Bool.or_eq_false_iff, decide_eq_false_iff_not,
    Nat.not_lt] at valid
  have header : limits.maxHeaderBytes ≤ 67108864 := valid.1.2
  have payload : limits.maxPayloadBytes ≤ 536870912 := valid.2
  omega

/-- The bytes of a frame. -/
def VerifierGatewayFrameV1.encoded (p : Primitives) (frame : VerifierGatewayFrameV1) : Bytes :=
  verifierGatewayMagicV1 ++ bigEndian 4 (canonical (frame.header p)).length ++ bigEndian 8 frame.payload.length ++
    canonical (frame.header p) ++ frame.payload

/-- What the writer accepts. -/
structure Accepted (p : Primitives) (frame : VerifierGatewayFrameV1) (limits : VerifierGatewayFrameLimitsV1) : Prop where
  limitsValid : limits.validate = .ok ()
  frameValid : frame.validate p = .ok ()
  payloadFits : frame.payload.length ≤ limits.maxPayloadBytes
  headerFits : (canonical (frame.header p)).length ≤ limits.maxHeaderBytes

theorem write_eq_ok_iff : writeVerifierGatewayFrameV1 p frame limits = .ok bytes ↔
    Accepted p frame limits ∧ bytes = frame.encoded p := by
  simp only [writeVerifierGatewayFrameV1, check_eq_ok_iff, reject_eq_ok_iff, Bool.or_eq_false_iff,
    decide_eq_false_iff_not, Nat.not_lt, Nat.not_le, Except.ok.injEq]
  constructor
  · rintro ⟨valid, accepted, payload, ⟨_, header⟩, _, rfl⟩
    exact ⟨⟨valid, accepted, payload, header⟩, rfl⟩
  · rintro ⟨⟨valid, accepted, payload, header⟩, rfl⟩
    have bounds := validate_limits valid
    refine ⟨valid, accepted, payload, ⟨?_, header⟩, by omega, rfl⟩
    exact Bool.eq_false_iff.mpr fun empty => canonical_header_ne_nil _ (List.isEmpty_iff.mp empty)

/-- Both sides check the header in the same way. -/
theorem validateMessageHeader_of_validate (accepted : frame.validate p = .ok ()) :
    validateMessageHeader p frame.message frame.payload.length = .ok () := by
  rw [VerifierGatewayFrameV1.validate, check_eq_ok_iff] at accepted
  exact accepted.1

theorem length_magic : verifierGatewayMagicV1.length = 8 := by decide

/-- A number read off so many bytes is written back as these bytes. -/
theorem bigEndian_of_fromBigEndian {size value : ℕ} (sized : bytes.length = size) (read : value = fromBigEndian bytes) :
    bigEndian size value = bytes := by
  rw [read, ← sized, bigEndian_fromBigEndian]

/-- The reader accepts exactly the bytes of frames that the writer accepts. -/
theorem read_eq_ok_iff : readVerifierGatewayFrameV1 p serde stream limits = .ok (frame, rest) ↔
    Accepted p frame limits ∧ stream = frame.encoded p ++ rest := by
  simp only [readVerifierGatewayFrameV1, bind_eq_ok_iff, Prod.exists, readExact_eq_ok_iff, reject_eq_ok_iff,
    decodeCanonicalJson_eq_ok_iff, Bool.or_eq_false_iff, decide_eq_false_iff_not, Nat.not_lt, bne_eq_false_iff_eq,
    beq_eq_false_iff_ne, Bool.not_eq_false', Except.ok.injEq, Prod.mk.injEq]
  constructor
  · rintro ⟨_, valid, _, _, ⟨rfl, _⟩, headerSize, _, ⟨rfl, headerSized⟩, payloadSize, _, ⟨rfl, payloadSized⟩, _, rfl, _,
      ⟨_, payloadFits⟩, _, _, ⟨rfl, headerLen⟩, header, ⟨rfl, headerFits⟩, _, ⟨⟨protocol, payloadBytes⟩, _⟩, _,
        _, payload, _,
      ⟨rfl, payloadLen⟩, _, hash, _, accepted, rfl, rfl⟩
    have headerEq : VerifierGatewayFrameV1.header p ⟨header.message, payload⟩ = header := by
      have length : UInt64.ofNat payload.length = header.payloadBytes := by
        rw [payloadLen, ← payloadBytes, UInt64.ofNat_toNat]
      rw [VerifierGatewayFrameV1.header]
      dsimp only
      rw [length, hash, ← protocol]
    refine ⟨⟨valid, accepted, payloadLen ▸ payloadFits, headerEq.symm ▸ headerFits⟩, ?_⟩
    rw [VerifierGatewayFrameV1.encoded, headerEq, bigEndian_of_fromBigEndian headerSized headerLen,
      bigEndian_of_fromBigEndian payloadSized payloadLen]
    simp only [List.append_assoc]
  · rintro ⟨accepted, rfl⟩
    have bounds := validate_limits accepted.limitsValid
    have headerFits := accepted.headerFits
    have payloadFits := accepted.payloadFits
    have headerLen : fromBigEndian (bigEndian 4 (canonical (frame.header p)).length) =
        (canonical (frame.header p)).length := fromBigEndian_bigEndian (by omega)
    have payloadLen : fromBigEndian (bigEndian 8 frame.payload.length) = frame.payload.length :=
      fromBigEndian_bigEndian (by omega)
    have nonempty : (canonical (frame.header p)).length ≠ 0 := fun zero =>
      canonical_header_ne_nil _ (List.eq_nil_of_length_eq_zero zero)
    have payloadBytes : (frame.header p).payloadBytes.toNat = frame.payload.length := by
      rw [VerifierGatewayFrameV1.header, UInt64.toNat_ofNat']
      exact Nat.mod_eq_of_lt (by omega)
    refine ⟨(), accepted.limitsValid, verifierGatewayMagicV1, _, ⟨by simp only [VerifierGatewayFrameV1.encoded,
      List.append_assoc], length_magic⟩, bigEndian 4 _, _, ⟨rfl, length_bigEndian _ _⟩, bigEndian 8 _, _,
      ⟨rfl, length_bigEndian _ _⟩, (), rfl, (), ?_, canonical (frame.header p), _, ⟨rfl, headerLen.symm⟩, frame.header p,
      ⟨rfl, headerFits⟩, (), ⟨⟨rfl, ?_⟩, p.sha256Hex_isDigest _⟩, (), ?_, frame.payload, rest, ⟨rfl, payloadLen.symm⟩, (),
      rfl, (), accepted.frameValid, rfl, rfl⟩
    · rw [headerLen, payloadLen]
      exact ⟨⟨nonempty, headerFits⟩, payloadFits⟩
    · rw [payloadLen, payloadBytes]
    · rw [payloadLen]
      exact validateMessageHeader_of_validate accepted.frameValid

/-- What the writer accepts is read back unchanged and nothing behind it is touched, and what the reader
accepts is what the writer writes, so no frame has two encodings. -/
theorem frames_round_trip (p : Primitives) (serde : SerdeJson) (limits : VerifierGatewayFrameLimitsV1)
    (frame : VerifierGatewayFrameV1) :
    (∀ bytes rest, writeVerifierGatewayFrameV1 p frame limits = .ok bytes →
      readVerifierGatewayFrameV1 p serde (bytes ++ rest) limits = .ok (frame, rest)) ∧
    (∀ stream rest, readVerifierGatewayFrameV1 p serde stream limits = .ok (frame, rest) →
      ∃ bytes, writeVerifierGatewayFrameV1 p frame limits = .ok bytes ∧ stream = bytes ++ rest) ∧
    ∀ left right, readVerifierGatewayFrameV1 p serde left limits = .ok (frame, []) →
      readVerifierGatewayFrameV1 p serde right limits = .ok (frame, []) → left = right := by
  refine ⟨?_, ?_, ?_⟩
  · intro bytes rest written
    obtain ⟨accepted, rfl⟩ := write_eq_ok_iff.mp written
    exact read_eq_ok_iff.mpr ⟨accepted, rfl⟩
  · intro stream rest read
    obtain ⟨accepted, rfl⟩ := read_eq_ok_iff.mp read
    exact ⟨frame.encoded p, write_eq_ok_iff.mpr ⟨accepted, rfl⟩, rfl⟩
  · intro left right first second
    rw [(read_eq_ok_iff.mp first).2, (read_eq_ok_iff.mp second).2]

/-- A reader of headers: it inverts the writer. -/
noncomputable def inverseSerde : SerdeJson where
  fromSlice bytes := ((Function.partialInv canonical bytes).map Except.ok).getD (.error "expected value")
  fromSlice_canonical header := by rw [Function.partialInv_left canonical_injective, Option.map_some, Option.getD_some]

def sampleFragment : VerifierGatewayFrameV1 :=
  ⟨.gateway (.fragment "request-a" (Sample.digestOf 1) (Sample.descriptor Sample.request)), Sample.payload⟩

def sampleAck : VerifierGatewayFrameV1 :=
  ⟨.gateway (.sourceAcked "request-a" (Sample.digestOf 1) (Sample.digestOf 2)), []⟩

theorem accepted_sampleFragment : Accepted Sample.primitives sampleFragment ⟨4096, 64⟩ :=
  ⟨by decide, by decide +kernel, by decide, by decide +kernel⟩

theorem accepted_sampleAck : Accepted Sample.primitives sampleAck ⟨4096, 64⟩ :=
  ⟨by decide, by decide, by decide, by decide +kernel⟩

theorem frames_round_trip_fragment :
    readVerifierGatewayFrameV1 Sample.primitives inverseSerde (sampleFragment.encoded Sample.primitives ++ [7]) ⟨4096, 64⟩ =
        .ok (sampleFragment, [7]) ∧
      ∃ bytes, writeVerifierGatewayFrameV1 Sample.primitives sampleFragment ⟨4096, 64⟩ = .ok bytes ∧
        sampleFragment.encoded Sample.primitives ++ [7] = bytes ++ [7] := by
  obtain ⟨forward, backward, _⟩ := frames_round_trip Sample.primitives inverseSerde ⟨4096, 64⟩ sampleFragment
  have read := forward (sampleFragment.encoded Sample.primitives) [7] (write_eq_ok_iff.mpr ⟨accepted_sampleFragment, rfl⟩)
  exact ⟨read, backward _ [7] read⟩

theorem encoded_append_inj {other : VerifierGatewayFrameV1} {rest rest' : Bytes} (accepted : Accepted p frame limits)
    (accepted' : Accepted p other limits) (same : frame.encoded p ++ rest = other.encoded p ++ rest') :
    frame = other ∧ rest = rest' := by
  have read := (@read_eq_ok_iff p inverseSerde limits frame _ rest).mpr ⟨accepted, rfl⟩
  have read' := (@read_eq_ok_iff p inverseSerde limits other _ rest').mpr ⟨accepted', same⟩
  exact Prod.ext_iff.mp (Except.ok.inj (read.symm.trans read'))

theorem encoded_ne_nil (frame : VerifierGatewayFrameV1) : frame.encoded p ≠ [] := by
  intro empty
  have long := congrArg List.length empty
  simp only [VerifierGatewayFrameV1.encoded, List.length_append, length_magic, List.length_nil] at long
  omega

/-- What has arrived of a stream of frames tells the frames that were sent. -/
theorem prefix_of_sent {frames others : List VerifierGatewayFrameV1} {sent sent' : List Bytes}
    (written : frames.mapM (writeVerifierGatewayFrameV1 p · limits) = .ok sent)
    (written' : others.mapM (writeVerifierGatewayFrameV1 p · limits) = .ok sent')
    (begins : sent.flatten <+: sent'.flatten) : frames <+: others := by
  induction frames generalizing others sent sent' with
  | nil => exact List.nil_prefix
  | cons frame frames ih =>
    simp only [List.mapM_cons, bind_eq_ok_iff, write_eq_ok_iff] at written
    obtain ⟨_, ⟨accepted, rfl⟩, later, written, made⟩ := written
    cases made
    obtain ⟨rest, same⟩ := begins
    cases others with
    | nil =>
      cases written'
      exact absurd (List.append_eq_nil_iff.mp (List.append_eq_nil_iff.mp same).1).1 (encoded_ne_nil frame)
    | cons other others =>
      simp only [List.mapM_cons, bind_eq_ok_iff, write_eq_ok_iff] at written'
      obtain ⟨_, ⟨accepted', rfl⟩, later', written', made⟩ := written'
      cases made
      rw [List.flatten_cons, List.flatten_cons, List.append_assoc] at same
      obtain ⟨rfl, behind⟩ := encoded_append_inj accepted accepted' same
      exact List.cons_prefix_cons.mpr ⟨rfl, ih written written' ⟨rest, behind⟩⟩

theorem prefix_of_sent_fragment : [sampleFragment] <+: [sampleFragment, sampleAck] := by
  have fragment : writeVerifierGatewayFrameV1 Sample.primitives sampleFragment ⟨4096, 64⟩ =
      .ok (sampleFragment.encoded Sample.primitives) := write_eq_ok_iff.mpr ⟨accepted_sampleFragment, rfl⟩
  have ack : writeVerifierGatewayFrameV1 Sample.primitives sampleAck ⟨4096, 64⟩ =
      .ok (sampleAck.encoded Sample.primitives) :=
    write_eq_ok_iff.mpr ⟨accepted_sampleAck, rfl⟩
  exact @prefix_of_sent Sample.primitives ⟨4096, 64⟩ [sampleFragment] [sampleFragment, sampleAck]
    [sampleFragment.encoded Sample.primitives] [sampleFragment.encoded Sample.primitives,
      sampleAck.encoded Sample.primitives]
    (by simp [fragment]) (by simp [fragment, ack]; rfl) (by simp)

end Muser.Gateway

import Muser.Cluster.Transport
import Mathlib.Data.List.Infix
import Mathlib.Logic.Function.Basic

/-! # Which frames are read back

The writer accepts a segment without payload, which the reader refuses, and cuts the length of its
header to 32 bits, where the limits allow a longer one. All other frames are read back, one behind the
other, and a stream that breaks off is never read as other frames.
-/

namespace Muser.Cluster

section Numbers

@[simp] theorem length_littleEndian (size value : ℕ) : (littleEndian size value).length = size := by
  rw [littleEndian, List.length_reverse, length_bigEndian]

theorem fromLittleEndian_littleEndian (size value : ℕ) :
    fromLittleEndian (littleEndian size value) = value % 256 ^ size := by
  rw [fromLittleEndian, littleEndian, List.reverse_reverse, fromBigEndian_bigEndian_mod]

end Numbers

section Audits

theorem auditObject_obj {members : List (String × Json)} {k known : List String} {label : String}
    (named : members.map Prod.fst = k) (each : k.all known.contains = true) :
    auditObject (some (.obj members)) known label = .ok () := by
  have nothing : (members.map Prod.fst).find? (fun key => !known.contains key) = none := by
    rw [named]
    refine List.find?_eq_none.mpr fun key member => ?_
    rw [Bool.not_eq_true', Bool.not_eq_false]
    exact List.all_eq_true.mp each key member
  rw [auditObject, nothing]

theorem audit_descriptor (descriptor : SegmentDescriptorV2) (label : String) :
    auditObject (some (toJson descriptor)) descriptorFields label = .ok () :=
  auditObject_obj (k := descriptorFields) rfl (by decide)

theorem audit_component (component : ComponentV2) (label : String) :
    auditObject (some (toJson component)) componentFields label = .ok () :=
  auditObject_obj (k := componentFields) rfl (by decide)

theorem audit_multimodal (multimodal : Option MultimodalIdentityV2) (label : String) :
    auditObject (some (toJson multimodal)) multimodalFields label = .ok () := by
  cases multimodal with
  | none => rfl
  | some multimodal => exact auditObject_obj (k := multimodalFields) rfl (by decide)

/-- An audit of the items of a list of values that each pass. -/
theorem forM_items {α : Type} [ToJson α] (values : List α) {check : Json → Except TransportError Unit}
    (each : ∀ value : α, check (toJson value) = .ok ()) : forM (items (some (toJson values))) check = .ok () := by
  refine (forM_eq_ok_iff _ _).mpr fun item member => ?_
  obtain ⟨value, _, rfl⟩ := List.mem_map.mp (show item ∈ values.map toJson from member)
  exact each value

theorem get_segments (manifest : BeginManifestV2) : get (toJson manifest) "segments" = some (toJson manifest.segments) := by
  obtain ⟨_, _, _, _, _, _, _, _, _, _, deferred, _⟩ := manifest
  cases deferred <;> rfl

theorem get_prefixCut (manifest : BeginManifestV2) : get (toJson manifest) "prefix_cut" = none := by
  obtain ⟨_, _, _, _, _, _, _, _, _, _, deferred, _⟩ := manifest
  cases deferred <;> rfl

theorem audit_manifest (manifest : BeginManifestV2) (label : String) :
    auditObject (some (toJson manifest)) beginManifestFields label = .ok () := by
  obtain ⟨_, _, _, _, _, _, _, _, _, _, deferred, _⟩ := manifest
  cases deferred with
  | true => exact auditObject_obj (k := beginManifestFields.dropLast) rfl (by decide)
  | false => exact auditObject_obj (k := beginManifestFields.dropLast.erase "deferred_segments") rfl (by decide)

theorem audit_begin (manifest : BeginManifestV2) : auditBeginValue (toJson (Header.begin manifest)) = .ok () := by
  have found : get (toJson (Header.begin manifest)) "manifest" = some (toJson manifest) := rfl
  simp only [auditBeginValue, found, check_eq_ok_iff]
  refine ⟨auditObject_obj (k := beginFrameFields) rfl (by decide), audit_manifest manifest _, ?_, ?_, ?_, ?_, ?_⟩
  · exact auditObject_obj (k := identityFields) rfl (by decide)
  · exact audit_multimodal manifest.multimodal _
  · exact auditObject_obj (k := hmacFields) rfl (by decide)
  · exact forM_items manifest.components fun component => audit_component component _
  · rw [Option.bind_some, get_segments]
    exact forM_items manifest.segments fun descriptor => audit_descriptor descriptor _

/-- The header of a written frame names no field that the reader does not know. -/
theorem audit_header (header : Header) : auditFrameFields (toJson header) = .ok () := by
  cases header with
  | begin manifest => exact audit_begin manifest
  | segment sequence descriptor =>
    cases descriptor with
    | none =>
      refine check_eq_ok_iff.mpr ⟨?_, rfl⟩
      exact auditObject_obj (k := segmentFrameFields.dropLast) rfl (by decide)
    | some descriptor =>
      refine check_eq_ok_iff.mpr ⟨?_, audit_descriptor descriptor _⟩
      exact auditObject_obj (k := segmentFrameFields) rfl (by decide)
  | sealed manifest =>
    refine check_eq_ok_iff.mpr ⟨?_, check_eq_ok_iff.mpr ⟨?_, ?_⟩⟩
    · exact auditObject_obj (k := sealFrameFields) rfl (by decide)
    · exact auditObject_obj (k := sealManifestFields) rfl (by decide)
    · exact auditObject_obj (k := sealCoreFields) rfl (by decide)
  | ack transferId generation =>
    change auditObject (some (toJson (Header.ack transferId generation))) ackFrameFields "ACK frame" = _
    exact auditObject_obj (k := ackFrameFields) rfl (by decide)
  | abort reason =>
    change auditObject (some (toJson (Header.abort reason))) abortFrameFields "abort frame" = _
    exact auditObject_obj (k := abortFrameFields) rfl (by decide)

theorem beginPrefixCut_header (manifest : BeginManifestV2) : beginPrefixCut (toJson (Header.begin manifest)) = .ok 0 := by
  have found : (get (toJson (Header.begin manifest)) "manifest").bind (get · "prefix_cut") = none := get_prefixCut manifest
  rw [beginPrefixCut, found]

end Audits

variable {reader : HeaderReader} {limits : FrameLimitsV2} {frame : WireFrameV2} {header : Header}
  {stream bytes json payload part rest : Bytes}

section Reading

theorem readExact_append (bytes rest : Bytes) : readExact bytes.length (bytes ++ rest) = .ok (bytes, rest) := by
  rw [readExact, if_neg (by rw [List.length_append]; omega), List.take_left, List.drop_left]

theorem readPayload_append (bytes rest : Bytes) : readPayload bytes.length (bytes ++ rest) = .ok (bytes, rest) := by
  rw [readPayload, if_neg (by rw [List.length_append]; omega), List.take_left, List.drop_left]

theorem readExact_eq_ok {count : ℕ} (read : readExact count stream = .ok (bytes, rest)) :
    stream = bytes ++ rest ∧ bytes.length = count := by
  rw [readExact] at read
  split at read
  · cases read
  · next long =>
    cases read
    exact ⟨(List.take_append_drop count stream).symm, List.length_take_of_le (by omega)⟩

theorem readPayload_eq_ok {count : ℕ} (read : readPayload count stream = .ok (bytes, rest)) :
    stream = bytes ++ rest ∧ bytes.length = count := by
  rw [readPayload] at read
  split at read
  · cases read
  · next long =>
    cases read
    exact ⟨(List.take_append_drop count stream).symm, List.length_take_of_le (by omega)⟩

@[simp] theorem length_preamble (json payload : Bytes) : (preamble json payload).length = preambleBytes := by
  rw [preamble, List.length_append, List.length_append, length_littleEndian, length_littleEndian]
  rfl

theorem canonical_header_ne_nil (header : Header) : canonical header ≠ [] := by
  cases header <;> exact List.cons_ne_nil _ _

/-- What the reader finds in a preamble. -/
theorem take_preamble : (preamble json payload).take 8 = magic := by
  rw [preamble, List.append_assoc]
  exact List.take_left' rfl

theorem headerLen_preamble : fromLittleEndian (((preamble json payload).drop 8).take 4) = json.length % 256 ^ 4 := by
  have skipped : (preamble json payload).drop 8 = littleEndian 4 json.length ++ littleEndian 8 payload.length := by
    rw [preamble, List.append_assoc]
    exact List.drop_left' rfl
  rw [skipped, List.take_left' (length_littleEndian 4 _), fromLittleEndian_littleEndian]

theorem payloadLen_preamble : fromLittleEndian ((preamble json payload).drop 12) = payload.length % 256 ^ 8 := by
  have skipped : (preamble json payload).drop 12 = littleEndian 8 payload.length := by
    rw [preamble]
    refine List.drop_left' ?_
    rw [List.length_append, length_littleEndian]
    rfl
  rw [skipped, fromLittleEndian_littleEndian]

end Reading

section Accepting

/-- What the writer asks of a frame. -/
structure Writable (limits : FrameLimitsV2) (frame : WireFrameV2) : Prop where
  uncut : frame.cuts = false
  headerFits : (canonical frame.parts.1).length ≤ limits.maxHeaderBytes.toNat
  payloadFits : frame.parts.2.length ≤ limits.maxPayloadBytes.toNat

/-- The bytes of a frame. -/
def WireFrameV2.encoded (frame : WireFrameV2) : Bytes :=
  preamble (canonical frame.parts.1) frame.parts.2 ++ canonical frame.parts.1 ++ frame.parts.2

theorem writeFrameV2_eq_ok_iff : writeFrameV2 frame limits = .ok bytes ↔ Writable limits frame ∧ bytes = frame.encoded := by
  rw [writeFrameV2]
  simp only [check_eq_ok_iff, reject_eq_ok_iff, Bool.or_eq_false_iff, decide_eq_false_iff_not, Nat.not_lt,
    Except.ok.injEq]
  constructor
  · rintro ⟨uncut, ⟨headerFits, payloadFits⟩, rfl⟩
    exact ⟨⟨uncut, headerFits, payloadFits⟩, rfl⟩
  · rintro ⟨accepted, rfl⟩
    exact ⟨accepted.uncut, ⟨accepted.headerFits, accepted.payloadFits⟩, rfl⟩

/-- The payload of an accepted frame has a length that its field can say. -/
theorem Writable.payloadLen (accepted : Writable limits frame) : frame.parts.2.length % 256 ^ 8 = frame.parts.2.length := by
  have small : limits.maxPayloadBytes.toNat < 2 ^ 64 := limits.maxPayloadBytes.toNat_lt
  have fits := accepted.payloadFits
  exact Nat.mod_eq_of_lt (by omega)

end Accepting

section OneFrame

/-- A frame of the kinds that carry a payload. -/
def WireFrameV2.isSegment : WireFrameV2 → Bool
  | .segment .. | .deferredSegment .. => true
  | _ => false

/-- A frame whose segment is not empty, and whose header has a length that its field can say. -/
structure WireFrameV2.Readable (frame : WireFrameV2) : Prop where
  filled : frame.isSegment = true → frame.parts.2 ≠ []
  short : (canonical frame.parts.1).length < 2 ^ 32

theorem readBody_parts (accepted : Writable limits frame) (readable : frame.Readable) (rest : Bytes) :
    readBody frame.parts.1 (toJson frame.parts.1) frame.parts.2.length (frame.parts.2 ++ rest) = .ok (frame, rest) := by
  have filled := readable.filled
  cases frame with
  | begin admission =>
    obtain ⟨manifest, prefixCut⟩ := admission
    have uncut : prefixCut = 0 := by simpa [WireFrameV2.cuts] using accepted.uncut
    subst uncut
    simp [WireFrameV2.parts, readBody, beginPrefixCut_header]
  | segment sequence payload | deferredSegment descriptor payload =>
    have nonempty : (payload.length == 0) = false := by simpa [WireFrameV2.parts] using filled rfl
    simp [WireFrameV2.parts, readBody, nonempty, reject, readPayload_append, bind, Except.bind]
  | sealed manifest => rfl
  | ack transferId generation => rfl
  | abort reason => rfl

/-- A readable frame is read back, and nothing behind it is touched. -/
theorem readFrameV2_encoded (reader : HeaderReader) (accepted : Writable limits frame) (readable : frame.Readable)
    (rest : Bytes) : readFrameV2 reader (frame.encoded ++ rest) limits = .ok (frame, rest) := by
  have headerLen : (canonical frame.parts.1).length % 256 ^ 4 = (canonical frame.parts.1).length :=
    Nat.mod_eq_of_lt readable.short
  have nonempty : (canonical frame.parts.1).length ≠ 0 := fun empty =>
    canonical_header_ne_nil _ (List.length_eq_zero_iff.mp empty)
  have begun : readExact preambleBytes (frame.encoded ++ rest) =
      .ok (preamble (canonical frame.parts.1) frame.parts.2, canonical frame.parts.1 ++ (frame.parts.2 ++ rest)) := by
    rw [WireFrameV2.encoded, List.append_assoc, List.append_assoc, ← length_preamble (canonical frame.parts.1) frame.parts.2]
    exact readExact_append _ _
  refine bind_eq_ok_iff.mpr ⟨_, begun, ?_⟩
  dsimp only
  rw [take_preamble, headerLen_preamble, payloadLen_preamble, headerLen, accepted.payloadLen]
  refine check_eq_ok_iff.mpr ⟨rfl, check_eq_ok_iff.mpr ⟨?_, bind_eq_ok_iff.mpr ⟨_, readExact_append _ _, ?_⟩⟩⟩
  · simpa [nonempty] using ⟨accepted.headerFits, accepted.payloadFits⟩
  dsimp only
  rw [reader.value_canonical, reader.fromSlice_canonical]
  refine bind_eq_ok_iff.mpr ⟨_, rfl, check_eq_ok_iff.mpr ⟨audit_header _, bind_eq_ok_iff.mpr ⟨_, rfl, ?_⟩⟩⟩
  exact readBody_parts accepted readable rest

theorem readBody_eq_ok {value : Json} {payloadLen : ℕ} (read : readBody header value payloadLen stream = .ok (frame, rest)) :
    ∃ payload, stream = payload ++ rest ∧ payload.length = payloadLen ∧ (frame.isSegment = true → payload ≠ []) := by
  cases header with
  | segment sequence descriptor =>
    obtain ⟨nonempty, body⟩ := check_eq_ok_iff.mp read
    obtain ⟨⟨payload, behind⟩, taken, finished⟩ := bind_eq_ok_iff.mp body
    obtain ⟨whole, len⟩ := readPayload_eq_ok taken
    have same : behind = rest := by
      cases descriptor with
      | none =>
        cases finished
        rfl
      | some descriptor =>
        dsimp only at finished
        split at finished <;> cases finished
        rfl
    refine ⟨payload, same ▸ whole, len, fun _ empty => ?_⟩
    rw [reject_eq_ok_iff, beq_eq_false_iff_ne] at nonempty
    exact nonempty (by rw [← len, empty, List.length_nil])
  | begin manifest =>
    rw [readBody] at read
    split at read
    · cases read
    · next empty =>
      split at read
      · cases read
      · cases read
        exact ⟨[], rfl, (not_not.mp empty).symm, fun carries => Bool.noConfusion carries⟩
  | sealed manifest | ack transferId generation | abort reason =>
    rw [readBody] at read
    split at read
    · cases read
    · next empty =>
      cases read
      exact ⟨[], rfl, (not_not.mp empty).symm, fun carries => Bool.noConfusion carries⟩

/-- What the reader took off the stream when it read a frame. -/
theorem readFrameV2_eq_ok (read : readFrameV2 reader stream limits = .ok (frame, rest)) :
    ∃ head json payload, stream = head ++ (json ++ (payload ++ rest)) ∧ head.length = preambleBytes ∧
      json.length = fromLittleEndian ((head.drop 8).take 4) ∧ payload.length = fromLittleEndian (head.drop 12) ∧
      (frame.isSegment = true → payload ≠ []) := by
  obtain ⟨⟨head, behind⟩, begun, read⟩ := bind_eq_ok_iff.mp read
  obtain ⟨_, read⟩ := check_eq_ok_iff.mp read
  obtain ⟨_, read⟩ := check_eq_ok_iff.mp read
  obtain ⟨⟨json, last⟩, taken, read⟩ := bind_eq_ok_iff.mp read
  obtain ⟨value, _, read⟩ := bind_eq_ok_iff.mp read
  obtain ⟨_, read⟩ := check_eq_ok_iff.mp read
  obtain ⟨header, _, read⟩ := bind_eq_ok_iff.mp read
  obtain ⟨payload, split, payloadLen, filled⟩ := readBody_eq_ok read
  obtain ⟨whole, headLen⟩ := readExact_eq_ok begun
  obtain ⟨more, jsonLen⟩ := readExact_eq_ok taken
  exact ⟨head, json, payload, by rw [whole, more, split], headLen, jsonLen, payloadLen, filled⟩

/-- A frame that is read back was readable. -/
theorem readable_of_readFrameV2 (accepted : Writable limits frame)
    (read : readFrameV2 reader (frame.encoded ++ rest) limits = .ok (frame, rest)) : frame.Readable := by
  obtain ⟨head, json, payload, split, headLen, jsonLen, payloadLen, filled⟩ := readFrameV2_eq_ok read
  rw [WireFrameV2.encoded, List.append_assoc, List.append_assoc] at split
  obtain ⟨rfl, behind⟩ := List.append_inj split (by rw [headLen, length_preamble])
  rw [headerLen_preamble] at jsonLen
  rw [payloadLen_preamble, accepted.payloadLen] at payloadLen
  have lengths := congrArg List.length behind
  simp only [List.length_append] at lengths
  have short : (canonical frame.parts.1).length % 256 ^ 4 < 256 ^ 4 := Nat.mod_lt _ (by decide)
  refine ⟨fun carries empty => ?_, by lia⟩
  rw [empty, List.length_nil] at payloadLen
  exact filled carries (List.length_eq_zero_iff.mp payloadLen)

/-- Whatever is read off a part of a stream is the frame that stands there. -/
theorem readFrameV2_of_prefix {other : WireFrameV2} (accepted : Writable limits frame) (readable : frame.Readable)
    (cut : part <+: frame.encoded ++ stream) (read : readFrameV2 reader part limits = .ok (other, rest)) :
    other = frame ∧ part = frame.encoded ++ rest ∧ rest <+: stream := by
  obtain ⟨head, json, payload, split, headLen, jsonLen, payloadLen, _⟩ := readFrameV2_eq_ok read
  have headerLen : (canonical frame.parts.1).length % 256 ^ 4 = (canonical frame.parts.1).length :=
    Nat.mod_eq_of_lt readable.short
  have same : head = preamble (canonical frame.parts.1) frame.parts.2 := by
    have first : head <+: frame.encoded ++ stream := (split ▸ List.prefix_append head _).trans cut
    rw [WireFrameV2.encoded, List.append_assoc, List.append_assoc] at first
    exact (List.prefix_of_prefix_length_le first (List.prefix_append _ _) (by rw [headLen, length_preamble])).eq_of_length
      (by rw [headLen, length_preamble])
  rw [same, headerLen_preamble, headerLen] at jsonLen
  rw [same, payloadLen_preamble, accepted.payloadLen] at payloadLen
  have long : frame.encoded.length ≤ part.length := by
    rw [WireFrameV2.encoded, split]
    simp only [List.length_append, length_preamble]
    lia
  obtain ⟨behind, whole⟩ := List.prefix_of_prefix_length_le (List.prefix_append frame.encoded stream) cut long
  have answer := readFrameV2_encoded reader accepted readable behind
  rw [whole, read] at answer
  cases answer
  exact ⟨rfl, whole.symm, (List.prefix_append_right_inj frame.encoded).mp (whole ▸ cut)⟩

end OneFrame

section ManyFrames

variable {frames : List WireFrameV2}

theorem writeFrames_cons (written : writeFrames limits (frame :: frames) = .ok stream) :
    ∃ more, writeFrames limits frames = .ok more ∧ stream = frame.encoded ++ more := by
  rw [writeFrames] at written
  obtain ⟨bytes, first, written⟩ := bind_eq_ok_iff.mp written
  obtain ⟨more, others, written⟩ := bind_eq_ok_iff.mp written
  cases written
  exact ⟨more, others, by rw [(writeFrameV2_eq_ok_iff.mp first).2]⟩

/-- A stream is read back as the frames that were written to it. -/
theorem readFrames_written (reader : HeaderReader) (accepted : ∀ frame ∈ frames, Writable limits frame)
    (readable : ∀ frame ∈ frames, frame.Readable) (written : writeFrames limits frames = .ok stream) (rest : Bytes) :
    readFrames reader limits frames.length (stream ++ rest) = .ok (frames, rest) := by
  induction frames generalizing stream with
  | nil =>
    cases written
    rfl
  | cons frame frames ih =>
    obtain ⟨more, others, rfl⟩ := writeFrames_cons written
    have later := ih (fun other member => accepted other (List.mem_cons_of_mem _ member))
      (fun other member => readable other (List.mem_cons_of_mem _ member)) others
    have first := readFrameV2_encoded reader (accepted frame List.mem_cons_self) (readable frame List.mem_cons_self)
      (more ++ rest)
    rw [List.append_assoc]
    exact bind_eq_ok_iff.mpr ⟨_, first, bind_eq_ok_iff.mpr ⟨_, later, rfl⟩⟩

/-- What is read off a part of a stream are its first frames, and all of them only off the whole. -/
theorem readFrames_of_prefix {count : ℕ} {others : List WireFrameV2} (accepted : ∀ frame ∈ frames, Writable limits frame)
    (readable : ∀ frame ∈ frames, frame.Readable) (written : writeFrames limits frames = .ok stream)
    (cut : part <+: stream) (read : readFrames reader limits count part = .ok (others, rest)) :
    others <+: frames ∧ (others = frames → part = stream) := by
  induction count generalizing frames stream part others rest with
  | zero =>
    cases read
    refine ⟨List.nil_prefix, fun empty => ?_⟩
    subst empty
    cases written
    exact List.prefix_nil.mp cut
  | succ count ih =>
    obtain ⟨⟨first, behind⟩, begun, read⟩ := bind_eq_ok_iff.mp read
    obtain ⟨⟨later, last⟩, more, finished⟩ := bind_eq_ok_iff.mp read
    cases finished
    cases frames with
    | nil =>
      cases written
      rw [List.prefix_nil.mp cut] at begun
      cases begun
    | cons frame frames =>
      obtain ⟨tail, others, rfl⟩ := writeFrames_cons written
      obtain ⟨rfl, whole, inside⟩ := readFrameV2_of_prefix (accepted frame List.mem_cons_self)
        (readable frame List.mem_cons_self) cut begun
      obtain ⟨kept, all⟩ := ih (fun other member => accepted other (List.mem_cons_of_mem _ member))
        (fun other member => readable other (List.mem_cons_of_mem _ member)) others inside more
      refine ⟨List.cons_prefix_cons.mpr ⟨rfl, kept⟩, fun same => ?_⟩
      rw [whole, all (List.cons.inj same).2]

end ManyFrames

/-- The frames of a stream are read back, each by itself and all behind each other, and no part of the
stream is read as other frames. -/
structure FramesRoundTrip (reader : HeaderReader) (limits : FrameLimitsV2) (frames : List WireFrameV2) : Prop where
  each : ∀ frame ∈ frames, ∀ bytes, writeFrameV2 frame limits = .ok bytes →
    ∀ rest, readFrameV2 reader (bytes ++ rest) limits = .ok (frame, rest)
  sequence : ∀ stream, writeFrames limits frames = .ok stream →
    ∀ rest, readFrames reader limits frames.length (stream ++ rest) = .ok (frames, rest)
  parts : ∀ stream, writeFrames limits frames = .ok stream → ∀ part, part <+: stream →
    ∀ count others rest, readFrames reader limits count part = .ok (others, rest) →
      others <+: frames ∧ (others = frames → part = stream)

/-- The frames that the writer accepts are read back exactly if their segments are not empty and their
headers are shorter than the field of their length can say. -/
theorem framing_iff (reader : HeaderReader) (limits : FrameLimitsV2) (frames : List WireFrameV2)
    (accepted : ∀ frame ∈ frames, ∃ bytes, writeFrameV2 frame limits = .ok bytes) :
    FramesRoundTrip reader limits frames ↔ ∀ frame ∈ frames, frame.Readable := by
  have admitted : ∀ frame ∈ frames, Writable limits frame := fun frame member => by
    obtain ⟨bytes, written⟩ := accepted frame member
    exact (writeFrameV2_eq_ok_iff.mp written).1
  constructor
  · intro trips frame member
    have written := writeFrameV2_eq_ok_iff.mpr ⟨admitted frame member, rfl⟩
    exact readable_of_readFrameV2 (admitted frame member) (trips.each frame member _ written [])
  · intro readable
    refine ⟨fun frame member bytes written rest => ?_, fun stream written rest => ?_, ?_⟩
    · rw [(writeFrameV2_eq_ok_iff.mp written).2]
      exact readFrameV2_encoded reader (admitted frame member) (readable frame member) rest
    · exact readFrames_written reader admitted readable written rest
    · intro stream written part cut count others rest read
      exact readFrames_of_prefix admitted readable written cut read

/-- A reader of headers: it inverts the writer. -/
noncomputable def inverseReader : HeaderReader where
  value bytes := (((Function.partialInv canonical bytes : Option Header).map toJson).map Except.ok).getD
    (.error "expected value")
  fromSlice bytes := ((Function.partialInv canonical bytes).map Except.ok).getD (.error "expected value")
  value_canonical header := by
    rw [Function.partialInv_left canonical_injective, Option.map_some, Option.map_some, Option.getD_some]
  fromSlice_canonical header := by rw [Function.partialInv_left canonical_injective, Option.map_some, Option.getD_some]

def sampleFrames : List WireFrameV2 := [.ack "t" 3, .segment 0 [7]]

private theorem writable_samples : ∀ frame ∈ sampleFrames ++ [WireFrameV2.segment 0 []], Writable .default frame := by
  have sized : ∀ frame ∈ sampleFrames ++ [WireFrameV2.segment 0 []], frame.cuts = false ∧
      (canonical frame.parts.1).length ≤ FrameLimitsV2.default.maxHeaderBytes.toNat ∧
      frame.parts.2.length ≤ FrameLimitsV2.default.maxPayloadBytes.toNat := by
    decide +kernel
  intro frame member
  obtain ⟨uncut, header, payload⟩ := sized frame member
  exact ⟨uncut, header, payload⟩

theorem framing_iff_sample : (∀ frame ∈ sampleFrames, ∃ bytes, writeFrameV2 frame .default = .ok bytes) ∧
    (FramesRoundTrip inverseReader .default sampleFrames ↔ ∀ frame ∈ sampleFrames, frame.Readable) := by
  have accepted : ∀ frame ∈ sampleFrames, ∃ bytes, writeFrameV2 frame .default = .ok bytes := fun frame member =>
    ⟨frame.encoded, writeFrameV2_eq_ok_iff.mpr ⟨writable_samples frame (List.mem_append_left _ member), rfl⟩⟩
  exact ⟨accepted, framing_iff inverseReader .default sampleFrames accepted⟩

/-- A segment without payload is written and refused. -/
theorem empty_segment_refused : writeFrameV2 (.segment 0 []) .default = .ok (WireFrameV2.segment 0 []).encoded ∧
    ∀ reader, ¬ FramesRoundTrip reader .default [.segment 0 []] := by
  have accepted := writable_samples (.segment 0 []) (by simp)
  have written := writeFrameV2_eq_ok_iff.mpr ⟨accepted, rfl⟩
  refine ⟨written, fun reader trips => ?_⟩
  have read := trips.each _ List.mem_cons_self _ written []
  exact (readable_of_readFrameV2 accepted read).filled rfl rfl

end Muser.Cluster

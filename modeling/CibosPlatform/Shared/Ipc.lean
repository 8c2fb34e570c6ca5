/- source: shared/src/protocols/ipc.rs, shared/src/types/isolation.rs, shared/src/types/time.rs
   digest: Channel terms, channel requests, points in time and the interface between channels and the scheduler. -/

import CibosPlatform.Core.MachineWord
import CibosPlatform.Core.Utf8
import CibosPlatform.Shared.Error

namespace CibosPlatform.Shared.Ipc

open Core LittleEndian MachineWord Error

abbrev LaneId := Nat

abbrev ChannelId := Nat

abbrev BoundaryId := Nat

abbrev Message := List Byte

/-- `Monotonic::saturating_add`: a point in time is a 64-bit number of nanoseconds, a duration a number
of any size. -/
def Monotonic.saturatingAdd (at' duration : Nat) : Nat :=
  Core.MachineWord.saturatingAdd at' (min duration (wordBound - 1))

theorem Monotonic.saturatingAdd_eq (at' duration : Nat) :
    Monotonic.saturatingAdd at' duration = min (at' + duration) (wordBound - 1) := by
  rw [Monotonic.saturatingAdd, Core.MachineWord.saturatingAdd]
  omega

inductive WaitResource where
  | channelData (id : ChannelId)
  | channelBuffer (id : ChannelId)
  | memory (bytes : Nat)
  | diskIo (handle : Nat)
  | networkIo (handle : Nat)
  | timer (deadline : Nat)
  deriving DecidableEq

class KernelInterface (K : Type) where
  registerWait : LaneId → WaitResource → K → K
  signalReady : LaneId → K → K

abbrev maxChannelPurpose : Nat := 64

structure ChannelPurpose where
  bytes : List Byte
  short : bytes.length ≤ maxChannelPurpose

inductive ChannelDirection where
  | requesterToReceiver
  | receiverToRequester
  | bidirectional

def ChannelDirection.code : ChannelDirection → Nat
  | requesterToReceiver => 1
  | receiverToRequester => 2
  | bidirectional => 3

def ChannelDirection.ofCode : Nat → Option ChannelDirection
  | 1 => some requesterToReceiver
  | 2 => some receiverToRequester
  | 3 => some bidirectional
  | _ => none

structure ChannelTerms where
  purpose : ChannelPurpose
  direction : ChannelDirection
  maxMessageBytes : Nat
  bufferCapacity : Nat

def ChannelTerms.new (purpose : List Byte) (direction : ChannelDirection)
    (maxMessageBytes bufferCapacity : Nat) : Except ProtocolError ChannelTerms :=
  if short : purpose.length ≤ maxChannelPurpose then
    if bufferCapacity = 0 then
      .error (.channelEstablishmentFailed "buffer capacity must be non-zero")
    else .ok ⟨⟨purpose, short⟩, direction, maxMessageBytes, bufferCapacity⟩
  else .error (.channelEstablishmentFailed "purpose string too long")

theorem ChannelTerms.new_eq_ok {purpose : List Byte} {direction : ChannelDirection}
    {maxMessageBytes bufferCapacity : Nat} (short : purpose.length ≤ maxChannelPurpose)
    (pos : bufferCapacity ≠ 0) : ChannelTerms.new purpose direction maxMessageBytes bufferCapacity =
      .ok ⟨⟨purpose, short⟩, direction, maxMessageBytes, bufferCapacity⟩ := by
  rw [new, dif_pos short, if_neg pos]

structure ChannelRequest where
  target : BoundaryId
  terms : ChannelTerms

structure ChannelTermsWire where
  purpose : List Byte
  purposeLen : Nat
  direction : Nat
  maxMessageBytes : Nat
  bufferCapacity : Nat

namespace ChannelTermsWire

def fromTerms (terms : ChannelTerms) : ChannelTermsWire where
  purpose := terms.purpose.bytes ++ List.replicate (maxChannelPurpose - terms.purpose.bytes.length) 0
  purposeLen := terms.purpose.bytes.length
  direction := terms.direction.code
  maxMessageBytes := terms.maxMessageBytes
  bufferCapacity := terms.bufferCapacity

def toBytes (wire : ChannelTermsWire) : List Byte :=
  wire.purpose ++ toLE 1 wire.purposeLen ++ toLE 1 wire.direction ++ [0, 0] ++
    toLE 4 wire.maxMessageBytes ++ toLE 4 wire.bufferCapacity

def fromBytes (b : List Byte) : ChannelTermsWire where
  purpose := slice b 0 maxChannelPurpose
  purposeLen := ofLE (slice b 64 1)
  direction := ofLE (slice b 65 1)
  maxMessageBytes := ofLE (slice b 68 4)
  bufferCapacity := ofLE (slice b 72 4)

/-- The terms, if the purpose is valid UTF-8, the direction known and the capacity not zero. -/
def toTerms (wire : ChannelTermsWire) : Option ChannelTerms :=
  let purpose := wire.purpose.take (min wire.purposeLen maxChannelPurpose)
  if ByteArray.validateUTF8 ⟨(purpose.map UInt8.ofBitVec).toArray⟩ then
    (ChannelDirection.ofCode wire.direction).bind fun direction =>
      (ChannelTerms.new purpose direction wire.maxMessageBytes wire.bufferCapacity).toOption
  else none

end ChannelTermsWire

abbrev channelTermsWireLen : Nat := 76

namespace ChannelTermsWire

open List

variable {wire : ChannelTermsWire} {terms : ChannelTerms}

abbrev IsText (bytes : List Byte) : Prop := ByteArray.validateUTF8 ⟨(bytes.map UInt8.ofBitVec).toArray⟩ = true

theorem isText_toBytes (text : String) : IsText (Utf8.toBytes text) := by
  have h := Utf8.fromBytes_toBytes text
  rw [Utf8.fromBytes, String.fromUTF8?] at h
  split at h
  · exact ByteArray.validateUTF8_eq_true_iff.mpr ‹_›
  · cases h

/-- The image is bad, whatever length its purpose is said to have. -/
def Malformed (wire : ChannelTermsWire) : Prop :=
  ¬ IsText (wire.purpose.take wire.purposeLen) ∨ wire.direction ∉ [1, 2, 3] ∨ wire.bufferCapacity = 0

theorem toTerms_eq_none (room : wire.purpose.length = 64) : wire.toTerms = none ↔ wire.Malformed := by
  have hpurpose : wire.purpose.take (min wire.purposeLen 64) = wire.purpose.take wire.purposeLen :=
    take_eq_take_iff.mpr (by omega)
  have hshort : (wire.purpose.take wire.purposeLen).length ≤ 64 := by
    rw [length_take]
    omega
  simp only [toTerms, Malformed, hpurpose]
  by_cases htext : IsText (wire.purpose.take wire.purposeLen)
  · simp only [if_pos htext, ChannelTerms.new, dif_pos hshort, ChannelDirection.ofCode]
    split <;> split <;> simp_all [Except.toOption]
  · rw [if_neg htext]
    exact iff_of_true rfl (.inl htext)

theorem fromBytes_toBytes (room : wire.purpose.length = 64) (len : wire.purposeLen < 256 ^ 1)
    (direction : wire.direction < 256 ^ 1) (max : wire.maxMessageBytes < 256 ^ 4)
    (capacity : wire.bufferCapacity < 256 ^ 4) : fromBytes wire.toBytes = wire := by
  have hdrop (n : Nat) : wire.toBytes.drop (64 + n) = (toLE 1 wire.purposeLen ++ (toLE 1 wire.direction ++
      ([0, 0] ++ (toLE 4 wire.maxMessageBytes ++ toLE 4 wire.bufferCapacity)))).drop n := by
    simp only [toBytes, append_assoc, ← drop_drop, drop_left' room]
  have hpurpose : wire.toBytes.take 64 = wire.purpose := by
    simp only [toBytes, append_assoc, take_left' room]
  simp only [fromBytes, slice, drop_zero, hpurpose, hdrop 0, hdrop 1, hdrop 4, hdrop 8]
  change ChannelTermsWire.mk _ (ofLE (toLE 1 _)) (ofLE (toLE 1 _)) (ofLE (toLE 4 _)) (ofLE (toLE 4 _)) = _
  rw [ofLE_toLE len, ofLE_toLE direction, ofLE_toLE max, ofLE_toLE capacity]

theorem toTerms_fromTerms (text : IsText terms.purpose.bytes) (holds : terms.bufferCapacity ≠ 0) :
    (fromTerms terms).toTerms = some terms := by
  have hshort := terms.purpose.short
  have hdirection : ChannelDirection.ofCode terms.direction.code = some terms.direction := by
    cases terms.direction <;> rfl
  simp only [toTerms, fromTerms, min_eq_left hshort, take_left, if_pos text, hdirection, Option.bind_some,
    ChannelTerms.new_eq_ok hshort holds]
  rfl

/-- Terms survive the wire, and an image is refused exactly if it is bad, unless it only claims a purpose that is
too long. -/
theorem wire_exact_iff {purpose : String} {direction : ChannelDirection} {maxMessageBytes bufferCapacity : Nat}
    (maxFits : maxMessageBytes < 2 ^ 32) (capacityFits : bufferCapacity < 2 ^ 32)
    (made : ChannelTerms.new (Utf8.toBytes purpose) direction maxMessageBytes bufferCapacity = .ok terms)
    {image : List Byte} (size : image.length = channelTermsWireLen) :
    ((fromBytes (fromTerms terms).toBytes).toTerms = some terms ∧ ((fromBytes image).toTerms = none ↔
      maxChannelPurpose < (fromBytes image).purposeLen ∨ (fromBytes image).Malformed)) ↔
    ((fromBytes image).purposeLen ≤ maxChannelPurpose ∨ (fromBytes image).Malformed) := by
  have hround : (fromBytes (fromTerms terms).toBytes).toTerms = some terms := by
    rw [ChannelTerms.new] at made
    split at made <;> try split at made
    case isTrue.isFalse hshort hpos =>
      cases made
      have hroom := Nat.add_sub_cancel' hshort
      rw [fromBytes_toBytes (by simpa [fromTerms] using hroom) (lt_of_le_of_lt hshort (by decide))
        (show direction.code < 256 by cases direction <;> decide) maxFits capacityFits]
      exact toTerms_fromTerms (isText_toBytes purpose) hpos
    all_goals cases made
  rw [toTerms_eq_none (slice_length (by rw [size]; decide)), and_iff_right hround, iff_or_self, imp_iff_not_or,
    not_lt]

/-- Terms with a purpose, and the image of other terms with the direction spoilt. -/
theorem wire_exact_iff_log :
    (fromBytes (fromTerms ⟨⟨[108, 111, 103], by decide⟩, .bidirectional, 8, 4⟩).toBytes).toTerms =
      some ⟨⟨[108, 111, 103], by decide⟩, .bidirectional, 8, 4⟩ ∧
    (fromBytes ((fromTerms ⟨⟨[108], by decide⟩, .bidirectional, 8, 4⟩).toBytes.set 65 9)).toTerms = none := by
  obtain ⟨hround, himage⟩ := (wire_exact_iff (by decide) (by decide)
    (show ChannelTerms.new (Utf8.toBytes "log") .bidirectional 8 4 = .ok _ from rfl)
    (show ((fromTerms ⟨⟨[108], by decide⟩, .bidirectional, 8, 4⟩).toBytes.set 65 9).length = _ from rfl)).mpr
      (.inl (by decide))
  exact ⟨hround, himage.mpr (.inr (.inr (.inl (by decide))))⟩

/-- The length says 65, and the 64 bytes there are make up the purpose. -/
theorem long_purpose_accepted : ∃ image, image.length = channelTermsWireLen ∧
    maxChannelPurpose < (fromBytes image).purposeLen ∧ (fromBytes image).toTerms ≠ none :=
  ⟨replicate 64 0 ++ [65, 1, 0, 0, 8, 0, 0, 0, 4, 0, 0, 0], by decide, by decide, by decide +kernel⟩

end ChannelTermsWire

abbrev channelRequestWireLen : Nat := 84

structure ChannelRequestWire where
  requester : BoundaryId
  terms : ChannelTermsWire

def ChannelRequestWire.toBytes (wire : ChannelRequestWire) : List Byte :=
  toLE 8 wire.requester ++ wire.terms.toBytes

end CibosPlatform.Shared.Ipc

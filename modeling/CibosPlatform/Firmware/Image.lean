/- source: cibios/src/image.rs
   digest: The layout of a CIBOS image and the range-checked view over its bytes. -/

import CibosPlatform.Core.MachineWord
import CibosPlatform.Shared.Crypto

/-! `usize` is 64 bits wide, so a `u64` field keeps its value when it is used as an index. -/

namespace CibosPlatform.Firmware.Image

open List
open Core LittleEndian MachineWord Program Shared Error Hash Serialization Outcome ByteReader

def imageMagic : Nat := 0x474D4943

def imageVersion : Nat := 1

def headerLen : Nat := 64

def descriptorLen : Nat := 64

def maxComponents : Nat := 32

inductive ComponentKind where
  | kernel
  | runtime
  | initRamfs
  | config

namespace ComponentKind

def asU32 : ComponentKind → Nat
  | kernel => 1
  | runtime => 2
  | initRamfs => 3
  | config => 4

def fromU32 : Nat → Outcome FirmwareError ComponentKind
  | 1 => .ok kernel
  | 2 => .ok runtime
  | 3 => .ok initRamfs
  | 4 => .ok config
  | _ => .err (.malformedImage "unknown component kind")

theorem fromU32_asU32 (kind : ComponentKind) : fromU32 kind.asU32 = .ok kind := by
  cases kind <;> rfl

end ComponentKind

structure ImageHeader where
  magic : Nat
  version : Nat
  architecture : Nat
  cibosProfile : Nat
  componentCount : Nat
  signatureAlgorithm : Nat
  entryPoint : Nat
  loadBase : Nat
  signedRegionLen : Nat
  signatureLen : Nat
  reserved : Nat
  deriving DecidableEq

structure ComponentDescriptor where
  kind : Nat
  offset : Nat
  length : Nat
  loadAddr : Nat
  hash : Digest256
  deriving DecidableEq

def readU32 : Prog ByteReader FirmwareError Nat :=
  Prog.mapErr (.malformedImage "unexpected end of header/descriptor") getU32

def readU64 : Prog ByteReader FirmwareError Nat :=
  Prog.mapErr (.malformedImage "unexpected end of header/descriptor") getU64

/-- The order of the fields is the wire format. -/
def ImageHeader.read : Prog ByteReader FirmwareError ImageHeader := do
  let magic ← readU32
  let version ← readU32
  let architecture ← readU32
  let cibosProfile ← readU32
  let componentCount ← readU32
  let signatureAlgorithm ← readU32
  let entryPoint ← readU64
  let loadBase ← readU64
  let signedRegionLen ← readU64
  let signatureLen ← readU32
  let reserved ← readU32
  pure ⟨magic, version, architecture, cibosProfile, componentCount, signatureAlgorithm, entryPoint,
    loadBase, signedRegionLen, signatureLen, reserved⟩

variable (bytes : List Byte)

def ImageHeader.parse : Outcome FirmwareError ImageHeader := do
  rejectIf (bytes.length < headerLen) (.malformedImage "image shorter than header")
  ImageHeader.read.eval (.new (bytes.take headerLen))

def ComponentDescriptor.read : Prog ByteReader FirmwareError ComponentDescriptor := do
  let kind ← readU32
  let _reserved ← readU32
  let offset ← readU64
  let length ← readU64
  let loadAddr ← readU64
  let hash ← Prog.mapErr (.malformedImage "descriptor hash truncated") (getInto 32)
  pure ⟨kind, offset, length, loadAddr, digestOf hash⟩

def ComponentDescriptor.parse : Outcome FirmwareError ComponentDescriptor := do
  rejectIf (bytes.length < descriptorLen) (.malformedImage "descriptor truncated")
  ComponentDescriptor.read.eval (.new (bytes.take descriptorLen))

def ComponentDescriptor.componentKind (desc : ComponentDescriptor) :
    Outcome FirmwareError ComponentKind := ComponentKind.fromU32 desc.kind

structure ImageView where
  bytes : List Byte
  header : ImageHeader
  deriving DecidableEq

def sliceFrom (start : Nat) : Outcome FirmwareError (List Byte) :=
  .orPanic (if start ≤ bytes.length then some (bytes.drop start) else none)

namespace ImageView

def parse (bytes : List Byte) : Outcome FirmwareError ImageView := do
  let header ← ImageHeader.parse bytes
  rejectIf (header.magic ≠ imageMagic) (.malformedImage "bad image magic")
  rejectIf (header.version ≠ imageVersion) (.malformedImage "unsupported image version")
  rejectIf (maxComponents < header.componentCount) (.malformedImage "too many components")
  let descriptorsLen ← okOr (checkedMul header.componentCount descriptorLen)
    (.malformedImage "descriptor table size overflow")
  let descriptorsEnd ← okOr (checkedAdd headerLen descriptorsLen)
    (.malformedImage "descriptor table end overflow")
  rejectIf (bytes.length < descriptorsEnd) (.malformedImage "descriptor table exceeds image")
  let sigEnd ← okOr (checkedAdd header.signedRegionLen header.signatureLen)
    (.malformedImage "signature region overflow")
  rejectIf (header.signedRegionLen < descriptorsEnd ∨ bytes.length < sigEnd)
    (.malformedImage "signed region inconsistent with image size")
  pure ⟨bytes, header⟩

variable (view : ImageView)

def descriptor (index : Nat) : Outcome FirmwareError ComponentDescriptor := do
  rejectIf (view.header.componentCount ≤ index) (.malformedImage "component index out of range")
  let rest ← sliceFrom view.bytes (headerLen + index * descriptorLen)
  ComponentDescriptor.parse rest

def componentBody (desc : ComponentDescriptor) : Outcome FirmwareError (List Byte) := do
  let stop ← okOr (checkedAdd desc.offset desc.length) (.malformedImage "component range overflow")
  rejectIf (view.bytes.length < stop) (.malformedImage "component body exceeds image")
  pure (slice view.bytes desc.offset desc.length)

def signedRegion : Outcome FirmwareError (List Byte) := do
  rejectIf (view.bytes.length < view.header.signedRegionLen)
    (.malformedImage "signed region exceeds image")
  pure (view.bytes.take view.header.signedRegionLen)

/-- The sum does not overflow: the view comes from `parse`, which has checked it. -/
def signature : Outcome FirmwareError (List Byte) := do
  rejectIf (view.bytes.length < view.header.signedRegionLen + view.header.signatureLen)
    (.malformedImage "signature exceeds image")
  pure (slice view.bytes view.header.signedRegionLen view.header.signatureLen)

def component (index : Nat) : Outcome FirmwareError (ComponentDescriptor × List Byte) := do
  let desc ← view.descriptor index
  let body ← view.componentBody desc
  pure (desc, body)

def forEachComponent {σ : Type} (view : ImageView)
    (f : ComponentDescriptor → List Byte → Prog σ FirmwareError Unit) : Prog σ FirmwareError Unit :=
  Prog.forEach (upTo 0 view.header.componentCount) fun index => do
    let (desc, body) ← Prog.lift (view.component index)
    f desc body

def verifyComponentHashes (sha256 : Sha256) (view : ImageView) : Outcome FirmwareError Unit :=
  forEach (upTo 0 view.header.componentCount) fun index => do
    let (desc, body) ← view.component index
    rejectIf (¬ digestsEqualCt (sha256 body) desc.hash) (.componentHashMismatch index)

end ImageView

section

variable {bytes : List Byte} {view : ImageView}

/-- The structural checks: the header is the front of the bytes, the table lies in the signed
region, and the signed region with the signature lies in the image. -/
structure Laid (bytes : List Byte) (view : ImageView) : Prop where
  whole : view.bytes = bytes
  read : ImageHeader.parse bytes = .ok view.header
  magic : view.header.magic = imageMagic
  version : view.header.version = imageVersion
  count : view.header.componentCount ≤ maxComponents
  table : headerLen + view.header.componentCount * descriptorLen ≤ view.header.signedRegionLen
  signedEnd : view.header.signedRegionLen + view.header.signatureLen ≤ bytes.length
  addressable : view.header.signedRegionLen + view.header.signatureLen < wordBound

theorem laid_of_parse (h : ImageView.parse bytes = .ok view) : Laid bytes view := by
  obtain ⟨header, hread, h⟩ := of_bind_ok h
  obtain ⟨hmagic, h⟩ := of_rejectIf_bind_ok h
  obtain ⟨hversion, h⟩ := of_rejectIf_bind_ok h
  obtain ⟨hcount, h⟩ := of_rejectIf_bind_ok h
  obtain ⟨tableLen, hmul, h⟩ := of_bind_ok h
  obtain ⟨tableEnd, hadd, h⟩ := of_bind_ok h
  obtain ⟨-, h⟩ := of_rejectIf_bind_ok h
  obtain ⟨sigEnd, hsig, h⟩ := of_bind_ok h
  obtain ⟨hregion, hview⟩ := of_rejectIf_bind_ok h
  obtain ⟨-, rfl⟩ := checkedMul_eq_some.mp (okOr_eq_ok.mp hmul)
  obtain ⟨-, rfl⟩ := checkedAdd_eq_some.mp (okOr_eq_ok.mp hadd)
  obtain ⟨hword, rfl⟩ := checkedAdd_eq_some.mp (okOr_eq_ok.mp hsig)
  obtain rfl := Outcome.ok.inj hview
  obtain ⟨htable, hend⟩ := not_or.mp hregion
  exact ⟨rfl, hread, by simpa using hmagic, by simpa using hversion, by simpa using hcount,
    not_lt.mp htable, not_lt.mp hend, hword⟩

variable (laid : Laid bytes view)

include laid

theorem Laid.parse : ImageView.parse bytes = .ok view := by
  obtain ⟨whole, read, magic, version, count, table, signedEnd, addressable⟩ := laid
  have hbound : wordBound = 2 ^ 64 := rfl
  unfold maxComponents at count
  unfold headerLen descriptorLen at table
  have hmul : checkedMul view.header.componentCount descriptorLen =
      some (view.header.componentCount * descriptorLen) :=
    checkedMul_eq_some.mpr ⟨by unfold descriptorLen; omega, rfl⟩
  have hadd : checkedAdd headerLen (view.header.componentCount * descriptorLen) =
      some (headerLen + view.header.componentCount * descriptorLen) :=
    checkedAdd_eq_some.mpr ⟨by unfold headerLen descriptorLen; omega, rfl⟩
  have hsig := checkedAdd_eq_some.mpr ⟨addressable, rfl⟩
  rw [ImageView.parse, read, ok_bind, rejectIf_bind (by simpa using magic),
    rejectIf_bind (by simpa using version),
    rejectIf_bind (by unfold maxComponents; omega), hmul]
  simp only [hadd, hsig, okOr, ok_bind]
  rw [rejectIf_bind (by unfold headerLen descriptorLen; omega),
    rejectIf_bind (by unfold headerLen descriptorLen; omega), ← whole]
  rfl

theorem Laid.signedRegion : view.signedRegion = .ok (bytes.take view.header.signedRegionLen) := by
  have hend := laid.signedEnd
  rw [ImageView.signedRegion, laid.whole, rejectIf_bind (by omega)]
  rfl

theorem Laid.signature :
    view.signature = .ok (slice bytes view.header.signedRegionLen view.header.signatureLen) := by
  have hend := laid.signedEnd
  rw [ImageView.signature, laid.whole, rejectIf_bind (by omega)]
  rfl

theorem Laid.descriptor {index : Nat} (inside : index < view.header.componentCount) :
    view.descriptor index =
      ComponentDescriptor.read.eval (.new (slice bytes (headerLen + index * descriptorLen) descriptorLen)) := by
  have htable := laid.table
  have hend := laid.signedEnd
  unfold headerLen descriptorLen at htable
  rw [ImageView.descriptor, laid.whole, rejectIf_bind (by omega), sliceFrom,
    if_pos (by unfold headerLen descriptorLen; omega), orPanic, ok_bind,
    ComponentDescriptor.parse,
    rejectIf_bind (by rw [length_drop]; unfold headerLen descriptorLen; omega)]
  rfl

omit laid

theorem componentBody_ok {desc : ComponentDescriptor} {body : List Byte} :
    view.componentBody desc = .ok body ↔ desc.offset + desc.length < wordBound ∧
      desc.offset + desc.length ≤ view.bytes.length ∧
        body = slice view.bytes desc.offset desc.length := by
  constructor
  · intro h
    obtain ⟨stop, hstop, h⟩ := of_bind_ok h
    obtain ⟨hend, hbody⟩ := of_rejectIf_bind_ok h
    obtain ⟨hword, rfl⟩ := checkedAdd_eq_some.mp (okOr_eq_ok.mp hstop)
    exact ⟨hword, by omega, (Outcome.ok.inj hbody).symm⟩
  · rintro ⟨hword, hend, rfl⟩
    rw [ImageView.componentBody, checkedAdd_eq_some.mpr ⟨hword, rfl⟩, okOr, ok_bind,
      rejectIf_bind (by omega)]
    rfl

end

section

variable {view : ImageView} {sha256 : Sha256}

theorem component_ok {index : Nat} {desc : ComponentDescriptor} {body : List Byte} :
    view.component index = .ok (desc, body) ↔
      view.descriptor index = .ok desc ∧ view.componentBody desc = .ok body := by
  constructor
  · intro h
    obtain ⟨desc', hdesc, h⟩ := of_bind_ok h
    obtain ⟨body', hbody, h⟩ := of_bind_ok h
    obtain ⟨rfl, rfl⟩ := Prod.mk.inj (Outcome.ok.inj h)
    exact ⟨hdesc, hbody⟩
  · rintro ⟨hdesc, hbody⟩
    rw [ImageView.component, hdesc, ok_bind, hbody]
    rfl

theorem verifyComponentHashes_iff :
    view.verifyComponentHashes sha256 = .ok () ↔ ∀ index < view.header.componentCount,
      ∃ desc body, view.component index = .ok (desc, body) ∧ sha256 body = desc.hash := by
  rw [ImageView.verifyComponentHashes, forEach_ok_iff]
  constructor
  · intro h index hindex
    obtain ⟨⟨desc, body⟩, hcomponent, hcheck⟩ :=
      of_bind_ok (h index (mem_upTo.mpr ⟨Nat.zero_le _, hindex⟩))
    refine ⟨desc, body, hcomponent, ?_⟩
    simpa [rejectIf_ok_iff, digestsEqualCt_iff] using hcheck
  · intro h index hindex
    obtain ⟨desc, body, hcomponent, hhash⟩ := h index (mem_upTo.mp hindex).2
    rw [hcomponent, ok_bind]
    simpa [rejectIf_ok_iff, digestsEqualCt_iff] using hhash

theorem forEachComponent_eq {σ : Type} {components : List (ComponentDescriptor × List Byte)}
    (count : components.length = view.header.componentCount)
    (each : ∀ index (h : index < components.length), view.component index = .ok (components[index]))
    (f : ComponentDescriptor → List Byte → Prog σ FirmwareError Unit) :
    view.forEachComponent f = Prog.forEach components fun c => f c.1 c.2 := by
  -- the loop is at index `done`, with the components from there on still to visit
  have loop : ∀ (rest : List (ComponentDescriptor × List Byte)) (done : Nat),
      components.drop done = rest → (Prog.forEach (upTo done components.length) fun index => do
        let (desc, body) ← (Prog.lift (view.component index) : Prog σ FirmwareError _)
        f desc body) = Prog.forEach rest fun c => f c.1 c.2 := by
    intro rest
    induction rest with
    | nil =>
      intro done hrest
      rw [upTo_nil (drop_eq_nil_iff.mp hrest)]
      rfl
    | cons c rest ih =>
      intro done hrest
      have hdone : done < components.length := by
        by_contra hge
        rw [drop_eq_nil_of_le (by omega)] at hrest
        cases hrest
      rw [drop_eq_getElem_cons hdone] at hrest
      obtain ⟨hc, htail⟩ := cons.inj hrest
      rw [upTo_cons hdone, Prog.forEach, each done hdone, hc, ih (done + 1) htail]
      rfl
  rw [ImageView.forEachComponent, ← count]
  exact loop components 0 rfl

end

end CibosPlatform.Firmware.Image

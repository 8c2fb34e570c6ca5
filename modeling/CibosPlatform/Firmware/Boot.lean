/- source: cibios/src/bare/mod.rs, cibios/src/verification.rs, cibios/src/image.rs
   digest: Placing the components of a verified image, and when they all stay where they were put. -/

import CibosPlatform.Core.ByteMemory
import CibosPlatform.Firmware.AcceptedHandoff
import CibosPlatform.Firmware.ImageBuild
import CibosPlatform.Firmware.Verification

namespace CibosPlatform.Firmware.Boot

open Core ByteMemory LittleEndian MachineWord Program List Prog
open Firmware.AcceptedHandoff (buildHandoff)
open Firmware.Image ImageBuild Verification Shared Config Error
open Shared Handoff Hardware Hash Serialization Signature ImageView Outcome

structure Platform where
  sha256 : Sha256
  backends : Option Backends
  firmwareProfile : CibiosProfile
  hardware : HardwareProfile
  memoryMap : List MemoryRegion
  entropySeed : EntropySeed

def Platform.policy (p : Platform) : VerificationPolicy :=
  ⟨p.firmwareProfile = .standard, WireEnum.asU32 p.hardware.architecture⟩

variable (view : ImageView)

/-- A round of `for_each_component`. The view borrows the image: what is copied is read from the memory as
the copies before it have left it. -/
def placeComponent (base index : Nat) : Prog Memory FirmwareError Unit := do
  let bytes ← gets fun m => readBytes m base view.bytes.length
  let (desc, body) ← lift (component ⟨bytes, view.header⟩ index)
  update fun m => writeBytes m desc.loadAddr body

/-- The image is the `len` bytes at `base`. The result is where the firmware jumps to and the record
it hands over. -/
def bootImage (p : Platform) (base len : Nat) (trustedRootKey : List Byte) :
    Prog Memory FirmwareError (Nat × HandoffData) := do
  let image ← gets fun m => readBytes m base len
  let verified ← lift (verifyImage p.sha256 p.backends image p.policy trustedRootKey)
  let view ← lift (parse image)
  forEach (upTo 0 view.header.componentCount) (placeComponent view base)
  let (handoff, _) ← lift (ofExcept id (buildHandoff p.firmwareProfile p.hardware
    ⟨verified.cibosProfile⟩ p.memoryMap p.entropySeed))
  pure (verified.entryPoint, handoff)

def Placed (m : Memory) : Prop :=
  ∀ index desc body, view.component index = .ok (desc, body) →
    readBytes m desc.loadAddr body.length = body

def InComponent (addr : Nat) : Prop :=
  ∃ index desc body, view.component index = .ok (desc, body) ∧
    desc.loadAddr ≤ addr ∧ addr < desc.loadAddr + body.length

/-- Where the load ranges of two components meet, their bodies have the same bytes. -/
def NoConflict : Prop :=
  ∀ index index' desc desc' body body', index < index' → view.component index = .ok (desc, body) →
    view.component index' = .ok (desc', body') → Agree (desc.loadAddr, body) (desc'.loadAddr, body')

/-- Where a load range meets the memory that the image itself is in, it has the bytes of the image. -/
def SparesImage (base : Nat) : Prop :=
  ∀ index desc body, view.component index = .ok (desc, body) →
    Agree (desc.loadAddr, body) (base, view.bytes)

section

variable {view : ImageView} {m : Memory}

theorem components_of_hashes {sha256 : Sha256}
    (hashes : view.verifyComponentHashes sha256 = .ok ()) :
    ∃ components : List (ComponentDescriptor × List Byte),
      components.length = view.header.componentCount ∧ ∀ index (h : index < components.length),
          view.component index = .ok (components[index]) := by
  have heach : ∀ index : Fin view.header.componentCount, ∃ c, view.component index = .ok c := by
    intro index
    obtain ⟨desc, body, hcomponent, -⟩ := verifyComponentHashes_iff.mp hashes index index.isLt
    exact ⟨(desc, body), hcomponent⟩
  choose component hcomponent using heach
  refine ⟨ofFn component, length_ofFn, fun index hindex => ?_⟩
  rw [List.getElem_ofFn]
  exact hcomponent ⟨index, by simpa using hindex⟩

theorem component_index_lt {index : Nat} {c : ComponentDescriptor × List Byte}
    (found : view.component index = .ok c) : index < view.header.componentCount := by
  obtain ⟨desc, hdesc, -⟩ := of_bind_ok found
  exact not_le.mp (of_rejectIf_bind_ok hdesc).1

variable {components : List (ComponentDescriptor × List Byte)}

variable (count : components.length = view.header.componentCount)
  (each : ∀ index (h : index < components.length), view.component index = .ok (components[index]))

include count each

theorem placed_iff : Placed view m ↔ ∀ part ∈ components.map fun c => (c.1.loadAddr, c.2),
      readBytes m part.1 part.2.length = part.2 := by
  rw [forall_mem_map]
  constructor
  · intro placed c hc
    obtain ⟨index, hindex, rfl⟩ := getElem_of_mem hc
    exact placed index _ _ (each index hindex)
  · intro whole index desc body hcomponent
    have hindex : index < components.length := count ▸ component_index_lt hcomponent
    have hsame := Outcome.ok.inj ((each index hindex).symm.trans hcomponent)
    have hread := whole _ (getElem_mem hindex)
    rwa [hsame] at hread

theorem noConflict_iff :
    NoConflict view ↔ (components.map fun c => (c.1.loadAddr, c.2)).Pairwise Agree := by
  rw [pairwise_map, pairwise_iff_getElem]
  constructor
  · intro agree i j hi hj hlt
    exact agree i j _ _ _ _ hlt (each i hi) (each j hj)
  · intro agree i j desc desc' body body' hlt hfirst hsecond
    have hi : i < components.length := count ▸ component_index_lt hfirst
    have hj : j < components.length := count ▸ component_index_lt hsecond
    have hpair := agree i j hi hj hlt
    rwa [Outcome.ok.inj ((each i hi).symm.trans hfirst),
      Outcome.ok.inj ((each j hj).symm.trans hsecond)] at hpair

variable {base : Nat} (spares : SparesImage view base)

include spares

omit count in
theorem forEach_placeComponent (located : readBytes m base view.bytes.length = view.bytes) :
    forEach (upTo 0 components.length) (placeComponent view base) m =
      (.ok (), writeAll m (components.map fun c => (c.1.loadAddr, c.2))) := by
  -- the loop is at index `done`, and the image is still as it was
  have loop : ∀ (rest : List (ComponentDescriptor × List Byte)) (done : Nat) (m : Memory),
      components.drop done = rest → readBytes m base view.bytes.length = view.bytes →
      forEach (upTo done components.length) (placeComponent view base) m =
        (.ok (), writeAll m (rest.map fun c => (c.1.loadAddr, c.2))) := by
    intro rest
    induction rest with
    | nil =>
      intro done m hrest _
      rw [upTo_nil (drop_eq_nil_iff.mp hrest)]
      rfl
    | cons c rest ih =>
      intro done m hrest hlocated
      have hdone : done < components.length := by
        by_contra hge
        rw [drop_eq_nil_of_le (not_lt.mp hge)] at hrest
        cases hrest
      rw [drop_eq_getElem_cons hdone] at hrest
      obtain ⟨hc, htail⟩ := cons.inj hrest
      have hcomponent := each done hdone
      rw [hc] at hcomponent
      have hround : placeComponent view base done m = (.ok (), writeBytes m c.1.loadAddr c.2) := by
        rw [placeComponent, bind_ok (gets_run _ _), hlocated]
        change (lift (view.component done) >>= _) m = _
        rw [hcomponent]
        rfl
      have hspared : readBytes (writeBytes m c.1.loadAddr c.2) base view.bytes.length =
        view.bytes := by
        refine readBytes_eq_iff.mpr fun i hi => ?_
        change writeAll m [(c.1.loadAddr, c.2)] (base + i) = _
        refine writeAll_at (readBytes_eq_iff.mp hlocated i hi) ?_
        simp only [mem_singleton, forall_eq]
        exact fun j hj hsame => spares done c.1 c.2 hcomponent j i hj hi hsame
      rw [upTo_cons hdone, Prog.forEach, Prog.bind_ok hround, ih (done + 1) _ htail hspared]
      rfl
  exact loop components 0 m rfl located

variable {p : Platform} {image key : List Byte} {verified : VerifiedImage}

theorem bootImage_eq (accepted : verifyImage p.sha256 p.backends image p.policy key = .ok verified)
    (parsed : parse image = .ok view) (located : readBytes m base image.length = image) :
    (bootImage p base image.length key m).2 =
        writeAll m (components.map fun c => (c.1.loadAddr, c.2)) ∧
      ∀ entry handoff, (bootImage p base image.length key m).1 = .ok (entry, handoff) →
        entry = verified.entryPoint := by
  have hverify : (lift (verifyImage p.sha256 p.backends image p.policy key) :
      Prog Memory FirmwareError VerifiedImage) m = (.ok verified, m) := by
    rw [lift, accepted]
  have hparse : (lift (parse image) : Prog Memory FirmwareError ImageView) m = (.ok view, m) := by
    rw [lift, parsed]
  have hwhole := (laid_of_parse parsed).whole
  have hplace := forEach_placeComponent each spares (hwhole.symm ▸ located)
  rw [count] at hplace
  rw [bootImage, bind_ok (gets_run _ _), located, bind_ok hverify, bind_ok hparse, bind_ok hplace]
  cases hhandoff : buildHandoff p.firmwareProfile p.hardware ⟨verified.cibosProfile⟩ p.memoryMap
      p.entropySeed with
  | error e =>
    refine ⟨rfl, fun entry handoff hjump => ?_⟩
    cases hjump
  | ok built =>
    refine ⟨rfl, fun entry handoff hjump => ?_⟩
    cases hjump
    rfl

end

section

def lightweight (sha256 : Sha256) : Platform :=
  ⟨sha256, none, .lightweight, ⟨.x86_64, .desktop, ⟨1, 1, false⟩, 0⟩, [], Vector.replicate 32 0⟩

local instance u32_ne_zero : NeZero (2 ^ 32) := ⟨by decide⟩

local instance u64_ne_zero : NeZero (2 ^ 64) := ⟨by decide⟩

def builtParams (entry : Fin (2 ^ 64)) : ImageParams := ⟨1, 4, entry, 0, 0, 0⟩

variable (sha256 : Sha256) (entry : Fin (2 ^ 64)) {components : List ComponentInput}

theorem verify_built (few : components.length ≤ maxComponents)
    (fits : (imageBytes sha256 (builtParams entry) components).length + ([] : List Byte).length <
      wordBound) :
    verifyImage sha256 none (imageBytes sha256 (builtParams entry) components ++ [])
        (lightweight sha256).policy [] = .ok ⟨entry, 0, 4, components.length, false⟩ ∧
      parse (imageBytes sha256 (builtParams entry) components ++ []) =
        .ok (viewOf sha256 (builtParams entry) components []) ∧
      ∀ before c after, components = before ++ c :: after → ∃ offset,
        (viewOf sha256 (builtParams entry) components []).component before.length =
          .ok (⟨c.kind.asU32, offset, c.body.length, c.loadAddr, sha256 c.body⟩, c.body) := by
  have hdeclared : ([] : List Byte).length = (builtParams entry).signatureLen := rfl
  have hparse := (laid_viewOf few hdeclared fits).parse
  have hcomponent : ∀ before c after, components = before ++ c :: after → ∃ offset,
      (viewOf sha256 (builtParams entry) components []).component before.length =
        .ok (⟨c.kind.asU32, offset, c.body.length, c.loadAddr, sha256 c.body⟩, c.body) :=
    fun _ _ _ hsplit => ⟨_, component_viewOf few hdeclared fits hsplit⟩
  have hhashes : (viewOf sha256 (builtParams entry) components []).verifyComponentHashes sha256 =
    .ok () := by
    apply verifyComponentHashes_iff.mpr
    intro index hindex
    have hsplit : components = components.take index ++ components[index] :: components.drop
      (index + 1) := by
      rw [← drop_eq_getElem_cons hindex, take_append_drop]
    obtain ⟨offset, hat⟩ := hcomponent _ _ _ hsplit
    have hlength : index ≤ components.length := le_of_lt hindex
    rw [length_take, min_eq_left hlength] at hat
    exact ⟨_, _, hat, rfl⟩
  refine ⟨?_, hparse, hcomponent⟩
  have harch : ¬ (viewOf sha256 (builtParams entry) components []).header.architecture ≠
      (lightweight sha256).policy.runningArchitecture := not_not_intro rfl
  rw [verifyImage, hparse, ok_bind]
  rw [rejectIf_bind harch, hhashes]
  rfl

variable (loadAddr : Fin (2 ^ 64))

def kernelAndConfig : List ComponentInput :=
  [⟨.kernel, 0x1000, [7]⟩, ⟨.config, loadAddr, [9]⟩]

def builtImage : List Byte :=
  imageBytes sha256 (builtParams entry) (kernelAndConfig loadAddr) ++ []

def builtView : ImageView :=
  viewOf sha256 (builtParams entry) (kernelAndConfig loadAddr) []

theorem verify_kernelAndConfig :
    verifyImage sha256 none (builtImage sha256 entry loadAddr) (lightweight sha256).policy [] =
        .ok ⟨entry, 0, 4, 2, false⟩ ∧
      parse (builtImage sha256 entry loadAddr) = .ok (builtView sha256 entry loadAddr) ∧
      ∃ first second : ComponentDescriptor, first.loadAddr = 0x1000 ∧ second.loadAddr = loadAddr ∧
        (builtView sha256 entry loadAddr).component 0 = .ok (first, [7]) ∧
        (builtView sha256 entry loadAddr).component 1 = .ok (second, [9]) ∧
        ∀ index c, (builtView sha256 entry loadAddr).component index = .ok c →
          index = 0 ∧ c = (first, [7]) ∨ index = 1 ∧ c = (second, [9]) := by
  have hfits : (imageBytes sha256 (builtParams entry) (kernelAndConfig loadAddr)).length +
      ([] : List Byte).length < wordBound := by
    rw [imageBytes_length]
    show headerLen + 2 * descriptorLen + 2 + 0 < 2 ^ 64
    decide
  have hfew : (kernelAndConfig loadAddr).length ≤ maxComponents := (by decide : 2 ≤ 32)
  obtain ⟨haccepted, hparse, hcomponent⟩ := verify_built sha256 entry hfew hfits
  obtain ⟨first, hfirst⟩ := hcomponent [] _ _ rfl
  obtain ⟨second, hsecond⟩ := hcomponent [_] _ _ rfl
  refine ⟨haccepted, hparse, _, _, rfl, rfl, hfirst, hsecond, ?_⟩
  intro index c hc
  have hindex : index < 2 := component_index_lt hc
  obtain rfl | rfl : index = 0 ∨ index = 1 := by omega
  · exact .inl ⟨rfl, Outcome.ok.inj (hc.symm.trans hfirst)⟩
  · exact .inr ⟨rfl, Outcome.ok.inj (hc.symm.trans hsecond)⟩

end

end CibosPlatform.Firmware.Boot

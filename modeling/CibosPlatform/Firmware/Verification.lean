/- source: cibios/src/verification.rs, cibios/src/image.rs
   digest: The gate an image passes before the firmware hands off to it, and what it binds. -/

import CibosPlatform.Firmware.Image

namespace CibosPlatform.Firmware.Verification

open Core LittleEndian MachineWord Program Firmware.Image Shared Error Hash List Outcome ImageView
open Shared Serialization Signature

structure VerificationPolicy where
  requireSignature : Bool
  runningArchitecture : Nat

structure VerifiedImage where
  entryPoint : Nat
  loadBase : Nat
  cibosProfile : Nat
  componentCount : Nat
  signatureVerified : Bool
  deriving DecidableEq

/-- `none` is a firmware without the verifier: a signature that is required then cannot be checked,
and the image is refused. -/
def verifySignature (backends : Option Backends) (view : ImageView) (trustedRootKey : List Byte) :
    Outcome FirmwareError Unit :=
  match backends with
  | none => .err (.shared (.crypto (.algorithmUnavailable
      "SPHINCS+ (handoff-cryptographic feature not compiled)")))
  | some backends => do
    let signed ← view.signedRegion
    let signature ← view.signature
    let algorithm ← ofExcept (fun e => FirmwareError.shared (.serialization e))
      (tryFrom view.header.signatureAlgorithm)
    ofExcept (fun e => FirmwareError.shared (.crypto e))
      (verifyWith backends algorithm trustedRootKey signed signature)

/-- The integrity of the components is checked always, the signature when the policy asks for it. -/
def verifyImage (sha256 : Sha256) (backends : Option Backends) (image : List Byte)
    (policy : VerificationPolicy) (trustedRootKey : List Byte) :
    Outcome FirmwareError VerifiedImage := do
  let view ← parse image
  let header := view.header
  rejectIf (header.architecture ≠ policy.runningArchitecture)
    (.architectureMismatch header.architecture policy.runningArchitecture)
  view.verifyComponentHashes sha256
  let signatureVerified ← (if policy.requireSignature then do
      verifySignature backends view trustedRootKey
      pure true
    else pure false)
  pure ⟨header.entryPoint, header.loadBase, header.cibosProfile, header.componentCount,
    signatureVerified⟩

def IsBody (view : ImageView) (body : List Byte) : Prop :=
  ∃ index desc, view.component index = .ok (desc, body)

section

variable {image image1 image2 : List Byte} {view view1 view2 : ImageView} {sha256 : Sha256}

theorem verifyImage_hashes {backends : Option Backends} {policy : VerificationPolicy}
    {key : List Byte} {verified : VerifiedImage} (parsed : parse image = .ok view)
    (accepted : verifyImage sha256 backends image policy key = .ok verified) :
    view.verifyComponentHashes sha256 = .ok () := by
  obtain ⟨view', hparse, hrest⟩ := of_bind_ok accepted
  obtain rfl := Outcome.ok.inj (parsed.symm.trans hparse)
  obtain ⟨-, hrest⟩ := of_rejectIf_bind_ok hrest
  obtain ⟨_, hhashes, -⟩ := of_bind_ok hrest
  exact hhashes

variable (laid1 : Laid image1 view1) (laid2 : Laid image2 view2)

include laid1 laid2

theorem signedRegion_eq (signed : view1.signedRegion = view2.signedRegion) :
    view1.header.signedRegionLen = view2.header.signedRegionLen ∧
      image1.take view1.header.signedRegionLen = image2.take view1.header.signedRegionLen := by
  rw [laid1.signedRegion, laid2.signedRegion] at signed
  have hregion := Outcome.ok.inj signed
  have hlen := congrArg length hregion
  have hend1 := laid1.signedEnd
  have hend2 := laid2.signedEnd
  rw [length_take, length_take, min_eq_left (by omega), min_eq_left (by omega)] at hlen
  exact ⟨hlen, by rw [hregion, hlen]⟩

theorem header_eq {n : Nat} (covered : headerLen ≤ n) (same : image1.take n = image2.take n) :
    view1.header = view2.header := by
  have htake : image1.take headerLen = image2.take headerLen := by
    have h := congrArg (take headerLen) same
    rwa [take_take, take_take, min_eq_left covered] at h
  obtain ⟨-, hread1⟩ := of_rejectIf_bind_ok laid1.read
  obtain ⟨-, hread2⟩ := of_rejectIf_bind_ok laid2.read
  rw [htake] at hread1
  exact Outcome.ok.inj (hread1.symm.trans hread2)

theorem descriptor_eq (header : view1.header = view2.header)
    (same : image1.take view1.header.signedRegionLen = image2.take view1.header.signedRegionLen) (index : Nat) :
    view1.descriptor index = view2.descriptor index := by
  by_cases hindex : index < view1.header.componentCount
  · have htable := laid1.table
    unfold headerLen descriptorLen at htable
    have hinside : headerLen + index * descriptorLen + descriptorLen ≤ view1.header.signedRegionLen := by
      unfold headerLen descriptorLen
      omega
    rw [laid1.descriptor hindex, laid2.descriptor (header ▸ hindex), ← slice_take hinside, same,
      slice_take hinside]
  · have hout := not_lt.mp hindex
    have hout2 := header ▸ hout
    rw [descriptor, descriptor, rejectIf, if_pos hout, rejectIf, if_pos hout2]
    rfl

omit laid1 laid2

theorem component_eq (header : view1.header = view2.header)
    (descriptors : ∀ index, view1.descriptor index = view2.descriptor index)
    (hashes1 : view1.verifyComponentHashes sha256 = .ok ())
    (hashes2 : view2.verifyComponentHashes sha256 = .ok ())
    (noCollision : ∀ body1 body2, IsBody view1 body1 → IsBody view2 body2 →
      sha256 body1 = sha256 body2 → body1 = body2)
    {index : Nat} (inside : index < view1.header.componentCount) :
    ∃ c, view1.component index = .ok c ∧ view2.component index = .ok c := by
  obtain ⟨desc1, body1, hcomponent1, hhash1⟩ := verifyComponentHashes_iff.mp hashes1 index inside
  obtain ⟨desc2, body2, hcomponent2, hhash2⟩ :=
    verifyComponentHashes_iff.mp hashes2 index (header ▸ inside)
  have hdesc : desc1 = desc2 := by
    have h1 := (component_ok.mp hcomponent1).1
    rw [descriptors, (component_ok.mp hcomponent2).1] at h1
    exact (Outcome.ok.inj h1).symm
  have hbody : body1 = body2 := by
    apply noCollision body1 body2 ⟨index, desc1, hcomponent1⟩ ⟨index, desc2, hcomponent2⟩
    rw [hhash1, hhash2, hdesc]
  exact ⟨(desc1, body1), hcomponent1, by rw [hcomponent2, hdesc, hbody]⟩

end

/-- Two images accepted with the signature required that agree on the signed bytes hand the loader
the same header and components, wherever the bodies lie, if the hash is injective between their
bodies. -/
theorem verified_boot_binds_contents {sha256 : Sha256} {backends1 backends2 : Option Backends}
    {image1 image2 key1 key2 : List Byte} {running1 running2 : Nat} {view1 view2 : ImageView}
    {verified1 verified2 : VerifiedImage}
    (accepted1 : verifyImage sha256 backends1 image1 ⟨true, running1⟩ key1 = .ok verified1)
    (accepted2 : verifyImage sha256 backends2 image2 ⟨true, running2⟩ key2 = .ok verified2)
    (parsed1 : parse image1 = .ok view1) (parsed2 : parse image2 = .ok view2)
    (signed : view1.signedRegion = view2.signedRegion)
    (noCollision : ∀ body1 body2, IsBody view1 body1 → IsBody view2 body2 →
      sha256 body1 = sha256 body2 → body1 = body2) :
    view1.header = view2.header ∧ (∀ index, view1.descriptor index = view2.descriptor index) ∧
      ∃ components : List (ComponentDescriptor × List Byte),
        components.length = view1.header.componentCount ∧
        (∀ (σ : Type) (f : ComponentDescriptor → List Byte → Prog σ FirmwareError Unit),
          view1.forEachComponent f = Prog.forEach components fun c => f c.1 c.2) ∧
        (∀ (σ : Type) (f : ComponentDescriptor → List Byte → Prog σ FirmwareError Unit),
          view2.forEachComponent f = Prog.forEach components fun c => f c.1 c.2) := by
  have laid1 := laid_of_parse parsed1
  have laid2 := laid_of_parse parsed2
  obtain ⟨-, hsame⟩ := signedRegion_eq laid1 laid2 signed
  have hcovered := (Nat.le_add_right _ _).trans laid1.table
  have hheader := header_eq laid1 laid2 hcovered hsame
  have hdescriptors := descriptor_eq laid1 laid2 hheader hsame
  refine ⟨hheader, hdescriptors, ?_⟩
  have heach : ∀ index : Fin view1.header.componentCount,
      ∃ c, view1.component index = .ok c ∧ view2.component index = .ok c := by
    intro index
    exact component_eq hheader hdescriptors (verifyImage_hashes parsed1 accepted1)
      (verifyImage_hashes parsed2 accepted2) noCollision index.isLt
  choose component hfirst hsecond using heach
  refine ⟨ofFn component, length_ofFn, ?_, ?_⟩
  · intro σ f
    apply forEachComponent_eq length_ofFn
    intro index hindex
    rw [List.getElem_ofFn]
    exact hfirst ⟨index, by simpa using hindex⟩
  · intro σ f
    apply forEachComponent_eq (length_ofFn.trans (congrArg ImageHeader.componentCount hheader))
    intro index hindex
    rw [List.getElem_ofFn]
    exact hsecond ⟨index, by simpa using hindex⟩

def trailingBody (signature : Byte) : List Byte :=
  toLE 4 imageMagic ++ toLE 4 imageVersion ++ toLE 4 1 ++ toLE 4 1 ++ toLE 4 1 ++ toLE 4 2 ++
    toLE 8 0 ++ toLE 8 0 ++ toLE 8 128 ++ toLE 4 1 ++ toLE 4 0 ++ List.replicate 8 0 ++
    (toLE 4 1 ++ toLE 4 0 ++ toLE 8 129 ++ toLE 8 1 ++ toLE 8 0 ++ (digestOf [7]).toList) ++
    [signature] ++ [7]

def trailingHeader : ImageHeader := ⟨imageMagic, imageVersion, 1, 1, 1, 2, 0, 0, 128, 1, 0⟩

theorem trailingBody_isBody {signature : Byte} {desc : ComponentDescriptor} {body : List Byte}
    (first : (⟨trailingBody signature, trailingHeader⟩ : ImageView).component 0 = .ok (desc, [7]))
    (h : IsBody ⟨trailingBody signature, trailingHeader⟩ body) : body = [7] := by
  obtain ⟨index, desc', hcomponent⟩ := h
  cases index with
  | zero =>
    rw [first] at hcomponent
    exact (Prod.mk.inj (Outcome.ok.inj hcomponent)).2.symm
  | succ index =>
    obtain ⟨_, hdesc, -⟩ := of_bind_ok hcomponent
    have hout := (of_rejectIf_bind_ok hdesc).1
    exact absurd (Nat.le_add_left 1 index) hout

theorem verified_boot_binds_trailing_body : trailingBody 1 ≠ trailingBody 2 ∧
      ∃ components : List (ComponentDescriptor × List Byte), components.length = 1 ∧
        (∀ (σ : Type) (f : ComponentDescriptor → List Byte → Prog σ FirmwareError Unit),
          (⟨trailingBody 1, trailingHeader⟩ : ImageView).forEachComponent f =
            Prog.forEach components fun c => f c.1 c.2) ∧
        (∀ (σ : Type) (f : ComponentDescriptor → List Byte → Prog σ FirmwareError Unit),
          (⟨trailingBody 2, trailingHeader⟩ : ImageView).forEachComponent f =
            Prog.forEach components fun c => f c.1 c.2) := by
  -- a verifier that takes every signature is one of those the theorem is about
  have accepted1 : verifyImage digestOf (some ⟨some fun _ _ _ => .ok (), none⟩) (trailingBody 1)
      ⟨true, 1⟩ [] = .ok ⟨0, 0, 1, 1, true⟩ := by decide +kernel
  have accepted2 : verifyImage digestOf (some ⟨some fun _ _ _ => .ok (), none⟩) (trailingBody 2)
      ⟨true, 1⟩ [] = .ok ⟨0, 0, 1, 1, true⟩ := by decide +kernel
  have parsed1 : parse (trailingBody 1) = .ok ⟨trailingBody 1, trailingHeader⟩ := by decide +kernel
  have parsed2 : parse (trailingBody 2) = .ok ⟨trailingBody 2, trailingHeader⟩ := by decide +kernel
  have first1 : (⟨trailingBody 1, trailingHeader⟩ : ImageView).component 0 =
      .ok (⟨1, 129, 1, 0, digestOf [7]⟩, [7]) := by decide +kernel
  have first2 : (⟨trailingBody 2, trailingHeader⟩ : ImageView).component 0 =
      .ok (⟨1, 129, 1, 0, digestOf [7]⟩, [7]) := by decide +kernel
  have hbound := verified_boot_binds_contents accepted1 accepted2 parsed1 parsed2 (by decide +kernel)
  refine ⟨by decide +kernel, (hbound ?_).2.2⟩
  intro body1 body2 hbody1 hbody2 _
  rw [trailingBody_isBody first1 hbody1, trailingBody_isBody first2 hbody2]

end CibosPlatform.Firmware.Verification

/- source: shared/src/crypto/hash.rs, shared/src/crypto/credential.rs, shared/src/crypto/signature.rs
   digest: Digests, stored passwords, and the dispatch to the signature verifiers compiled into a build. -/

import CibosPlatform.Shared.Error

namespace CibosPlatform.Shared.Hash

open Core.LittleEndian
open List hiding Vector

abbrev Digest256 := Vector Byte 32

/-- What `sha256` computes; no result here depends on which function of the bytes it is. -/
abbrev Sha256 := List Byte → Digest256

def digestOf (bytes : List Byte) : Digest256 := Vector.ofFn fun i : Fin 32 => bytes.getD i 0

/-- All positions are looked at, whatever the first difference is. -/
def digestsEqualCt (a b : Digest256) : Bool :=
  (List.finRange 32).foldl (fun diff i => diff ||| (a.get i ^^^ b.get i)) (0 : Byte) = 0

@[simp] theorem digestOf_toList (digest : Digest256) : digestOf digest.toList = digest := by
  ext i hi
  simp [digestOf]

theorem or_fold_eq_zero {α : Type} (f : α → Byte) (xs : List α) (start : Byte) :
    xs.foldl (· ||| f ·) start = 0 ↔ start = 0 ∧ ∀ x ∈ xs, f x = 0 := by
  induction xs generalizing start with
  | nil => simp
  | cons x xs ih =>
    rw [foldl_cons, ih, forall_mem_cons, ← and_assoc]
    refine and_congr ?_ Iff.rfl
    exact BitVec.or_eq_zero_iff

theorem digestsEqualCt_iff {a b : Digest256} : digestsEqualCt a b = true ↔ a = b := by
  rw [digestsEqualCt, decide_eq_true_iff, or_fold_eq_zero]
  constructor
  · rintro ⟨-, hsame⟩
    apply Vector.ext
    intro i hi
    have hzero := hsame ⟨i, hi⟩ (mem_finRange _)
    exact BitVec.xor_eq_zero_iff.mp hzero
  · rintro rfl
    exact ⟨rfl, fun i _ => BitVec.xor_self⟩

end CibosPlatform.Shared.Hash

namespace CibosPlatform.Shared.Credential

open Core.LittleEndian Hash

def saltLen : Nat := 32

def credentialRecordLen : Nat := 4 + 4 + saltLen + 32

def credentialMagic : Nat := 0x31575043

def credentialVersion : Nat := 1

abbrev Salt := Vector Byte 32

def hashPassword (sha256 : Sha256) (salt : Salt) (password : List Byte) : Digest256 :=
  sha256 (salt.toList ++ password)

def verifyPassword (sha256 : Sha256) (salt : Salt) (stored : Digest256) (password : List Byte) : Bool :=
  digestsEqualCt stored (hashPassword sha256 salt password)

structure CredentialRecord where
  salt : Salt
  hash : Digest256

namespace CredentialRecord

def verify (sha256 : Sha256) (record : CredentialRecord) (password : List Byte) : Bool :=
  verifyPassword sha256 record.salt record.hash password

def toBytes (record : CredentialRecord) : List Byte :=
  toLE 4 credentialMagic ++ toLE 4 credentialVersion ++ record.salt.toList ++ record.hash.toList

/-- Bytes behind the record are not looked at. -/
def fromBytes (b : List Byte) : Option CredentialRecord :=
  if b.length < credentialRecordLen then none
  else if ofLE (slice b 0 4) ≠ credentialMagic ∨ ofLE (slice b 4 4) ≠ credentialVersion then none
  else some ⟨digestOf (slice b 8 saltLen), digestOf (slice b (8 + saltLen) 32)⟩

theorem fromBytes_take (b : List Byte) : fromBytes (b.take credentialRecordLen) = fromBytes b := by
  have hslice : ∀ pos len, pos + len ≤ credentialRecordLen →
      slice (b.take credentialRecordLen) pos len = slice b pos len := fun _ _ => slice_take
  by_cases hshort : b.length < credentialRecordLen
  · rw [List.take_of_length_le hshort.le]
  · have hlen : (b.take credentialRecordLen).length = credentialRecordLen := by
      rw [List.length_take]
      omega
    rw [fromBytes, fromBytes, if_neg (by omega), if_neg hshort, hslice 0 4 (by decide),
      hslice 4 4 (by decide), hslice 8 saltLen (by decide), hslice (8 + saltLen) 32 (by decide)]

theorem fromBytes_toBytes (record : CredentialRecord) : fromBytes record.toBytes = some record := by
  have hmagic : slice record.toBytes 0 4 = toLE 4 credentialMagic :=
    slice_eq_of_parts [] (toLE 4 credentialVersion ++ record.salt.toList ++ record.hash.toList)
      (by simp only [toBytes, List.nil_append, List.append_assoc]) rfl (toLE_length _ _).symm
  have hversion : slice record.toBytes 4 4 = toLE 4 credentialVersion :=
    slice_eq_of_parts (toLE 4 credentialMagic) (record.salt.toList ++ record.hash.toList)
      (by simp only [toBytes, List.append_assoc]) (toLE_length _ _).symm (toLE_length _ _).symm
  have hsalt : slice record.toBytes 8 saltLen = record.salt.toList :=
    slice_eq_of_parts (toLE 4 credentialMagic ++ toLE 4 credentialVersion) record.hash.toList rfl
      (by rw [List.length_append, toLE_length, toLE_length]) Vector.length_toList.symm
  have hhash : slice record.toBytes (8 + saltLen) 32 = record.hash.toList :=
    slice_eq_of_parts (toLE 4 credentialMagic ++ toLE 4 credentialVersion ++ record.salt.toList) []
      (List.append_nil _).symm (by simp [toLE_length, saltLen]) Vector.length_toList.symm
  have hlength : record.toBytes.length = credentialRecordLen := by
    simp [toBytes, toLE_length, credentialRecordLen, saltLen]
  rw [fromBytes, hlength, if_neg (lt_irrefl _), hmagic, hversion, hsalt, hhash, ofLE_toLE (by decide),
    ofLE_toLE (by decide), digestOf_toList, digestOf_toList, if_neg (by simp)]

end CredentialRecord

end CibosPlatform.Shared.Credential

namespace CibosPlatform.Shared.Signature

open Core.LittleEndian Error Serialization

inductive SignatureAlgorithm where
  | ed25519
  | sphincsPlus
  | mlDsa

namespace SignatureAlgorithm

def code : SignatureAlgorithm → Nat
  | ed25519 => 1
  | sphincsPlus => 2
  | mlDsa => 3

instance : WireEnum SignatureAlgorithm where
  field := "SignatureAlgorithm"
  asU32 := code
  values := [ed25519, sphincsPlus, mlDsa]
  complete a := by cases a <;> simp
  injective a b h := by cases a <;> cases b <;> first | rfl | cases h

end SignatureAlgorithm

/-- A verifier of detached signatures, given the key, the message and the signature. -/
abbrev Verifier := List Byte → List Byte → List Byte → Except CryptoError Unit

structure Backends where
  sphincsPlus : Option Verifier
  mlDsa : Option Verifier

/-- A backend that is not there is reported, never passed over. -/
def verifyBy (name : String) (backend : Option Verifier) : Verifier := fun publicKey message signature =>
  match backend with
  | some verify => verify publicKey message signature
  | none => .error (.algorithmUnavailable name)

/-- No build has a backend for Ed25519. -/
def verifyWith (backends : Backends) : SignatureAlgorithm → Verifier
  | .sphincsPlus => verifyBy "SPHINCS+" backends.sphincsPlus
  | .mlDsa => verifyBy "ML-DSA" backends.mlDsa
  | .ed25519 => verifyBy "Ed25519" none

end CibosPlatform.Shared.Signature

/- source: accounts/src/lib.rs, shared/src/types/authentication.rs
   digest: The registry of enrolled profiles and the check of a presented credential. -/

import CibosPlatform.Core.Maps
import CibosPlatform.Shared.Crypto
import CibosPlatform.Shared.Ipc

namespace CibosPlatform.Login.Accounts

open Core LittleEndian Maps Shared Credential Hash Ipc Signature

inductive AuthenticationMethod where
  | password
  | physicalKeyDevice
  | passwordAndKeyDevice
  deriving DecidableEq

inductive AuthenticationFailureReason where
  | badSecret
  | unknownProfile

inductive AuthenticationOutcome where
  | success (boundary : BoundaryId)
  | failure (reason : AuthenticationFailureReason)

inductive Material where
  | password (salt : Salt) (hash : Digest256)
  | keyDevice (publicKey : List Byte)
  | both (salt : Salt) (hash : Digest256) (publicKey : List Byte)

structure Profile where
  name : String
  boundary : BoundaryId
  method : AuthenticationMethod
  verifier : Material

inductive Credential where
  | password (password : List Byte)
  | keyDevice (challenge signature : List Byte)
  | both (password challenge signature : List Byte)

structure Session where
  boundary : BoundaryId
  profile : String

abbrev Registry := SortedMap BoundaryId Profile

def enrollPassword (sha256 : Sha256) (accounts : Registry) (name : String) (boundary : BoundaryId)
    (salt : Salt) (password : List Byte) : Registry :=
  accounts.insert boundary
    ⟨name, boundary, .password, .password salt (hashPassword sha256 salt password)⟩

variable (accounts : Registry)

def enrollPasswordRecord (name : String) (boundary : BoundaryId)
    (record : CredentialRecord) : Registry :=
  accounts.insert boundary ⟨name, boundary, .password, .password record.salt record.hash⟩

def passwordRecordFor (boundary : BoundaryId) : Option CredentialRecord :=
  match (accounts.get? boundary).map Profile.verifier with
  | some (.password salt hash) => some ⟨salt, hash⟩
  | some (.both salt hash _) => some ⟨salt, hash⟩
  | some (.keyDevice _) => none
  | none => none

def methodFor (boundary : BoundaryId) : Option AuthenticationMethod :=
  (accounts.get? boundary).map Profile.method

section

variable (sha256 : Sha256) (keyDeviceVerifier : Option Verifier)

def checkPassword (salt : Salt) (hash : Digest256) (password : List Byte) : Bool :=
  digestsEqualCt hash (hashPassword sha256 salt password)

/-- Without a verifier compiled in the factor fails. -/
def checkKeyDevice (publicKey challenge signature : List Byte) : Bool :=
  match keyDeviceVerifier with
  | some verify => (verify publicKey challenge signature).isOk
  | none => false

/-- `none` when the kind of the credential is not the kind that is enrolled. -/
def checkFactors : Material → Credential → Option Bool
  | .password salt hash, .password pw => some (checkPassword sha256 salt hash pw)
  | .keyDevice publicKey, .keyDevice challenge signature =>
    some (checkKeyDevice keyDeviceVerifier publicKey challenge signature)
  | .both salt hash publicKey, .both pw challenge signature =>
    some (checkPassword sha256 salt hash pw &&
      checkKeyDevice keyDeviceVerifier publicKey challenge signature)
  | _, _ => none

def authenticate (accounts : Registry) (boundary : BoundaryId) (credential : Credential) :
    AuthenticationOutcome :=
  match accounts.get? boundary with
  | none => .failure .unknownProfile
  | some profile =>
    match checkFactors sha256 keyDeviceVerifier profile.verifier credential with
    | some true => .success boundary
    | some false => .failure .badSecret
    | none => .failure .badSecret

def openSession (accounts : Registry) (boundary : BoundaryId) (credential : Credential) :
    Option Session :=
  match authenticate sha256 keyDeviceVerifier accounts boundary credential with
  | .success boundary => (accounts.get? boundary).map fun p => ⟨boundary, p.name⟩
  | .failure _ => none

end

variable {sha256 : Sha256} {keyDeviceVerifier : Option Verifier}

variable (accounts : Registry) (name : String) (boundary : BoundaryId) (record : CredentialRecord)

theorem openSession_enrollPasswordRecord (password : List Byte) :
    openSession sha256 keyDeviceVerifier (enrollPasswordRecord accounts name boundary record) boundary
      (.password password) =
        if record.verify sha256 password then some ⟨boundary, name⟩ else none := by
  have hget : (enrollPasswordRecord accounts name boundary record).get? boundary =
      some ⟨name, boundary, .password, .password record.salt record.hash⟩ := by
    rw [enrollPasswordRecord, SortedMap.get?_insert, if_pos rfl]
  have hcheck : checkPassword sha256 record.salt record.hash password =
      record.verify sha256 password := rfl
  unfold openSession authenticate
  rw [hget]
  simp only [checkFactors, hcheck]
  cases record.verify sha256 password with
  | true => simp [hget]
  | false => simp

theorem methodFor_enrollPasswordRecord :
    methodFor (enrollPasswordRecord accounts name boundary record) boundary = some .password := by
  rw [methodFor, enrollPasswordRecord, SortedMap.get?_insert, if_pos rfl]
  rfl

theorem passwordRecordFor_enrollPassword (salt : Salt) (password : List Byte) :
    passwordRecordFor (enrollPassword sha256 accounts name boundary salt password) boundary =
      some ⟨salt, hashPassword sha256 salt password⟩ := by
  rw [passwordRecordFor, enrollPassword, SortedMap.get?_insert, if_pos rfl]
  rfl

end CibosPlatform.Login.Accounts

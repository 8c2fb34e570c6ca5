/- source: shared/src/types/error.rs, shared/src/protocols/syscall.rs, cibios/src/error.rs
   digest: The error vocabulary of the shared layer, of system calls and of the firmware. -/

import CibosPlatform.Shared.Serialization

namespace CibosPlatform.Shared.Error

open Serialization

inductive HardwareError where
  | initializationFailed (subsystem : String) (code : Int)
  deriving DecidableEq

inductive IsolationError where
  | boundarySetupFailed (detail : String)
  deriving DecidableEq

inductive ProtocolError where
  | versionMismatch (versionLocal versionRemote : Nat)
  | handoffRejected (detail : String)
  | channelEstablishmentFailed (detail : String)
  deriving DecidableEq

inductive CryptoError where
  | signatureInvalid
  | invalidKeyLength (expected actual : Nat)
  | invalidSignatureLength (expected actual : Nat)
  | algorithmUnavailable (algorithm : String)
  deriving DecidableEq

inductive SharedError where
  | hardware (e : HardwareError)
  | isolation (e : IsolationError)
  | crypto (e : CryptoError)
  | serialization (e : SerializationError)
  | protocol (e : ProtocolError)
  deriving DecidableEq

inductive SyscallError where
  | noSuchCall
  | badAddress
  | invalidArgument
  | notPermitted
  | notFound
  | ioError
  | wouldBlock

inductive FirmwareError where
  | shared (e : SharedError)
  | bootFailure (phase : String)
  | imageNotFound
  | malformedImage (detail : String)
  | componentHashMismatch (index : Nat)
  | architectureMismatch (image running : Nat)
  | handoffFailure (detail : String)
  deriving DecidableEq

end CibosPlatform.Shared.Error

/- source: shared/src/protocols/syscall.rs
   digest: The numbers, argument blocks and return values of the system-call interface. -/

import CibosPlatform.Shared.Error

namespace CibosPlatform.Shared.SyscallAbi

open Core.LittleEndian Error

abbrev Word := BitVec 64

inductive Syscall where
  | log
  | exit
  | yield
  | now
  | fsRead
  | fsWrite
  | fsMkdir
  | fsExists
  | readKey
  | getRandom
  | fsList
  | fsDelete
  | sleep
  | openChannel
  | channelSend
  | channelRecv
  | spawn
  | requestChannel
  | pollChannelRequest
  | acceptChannel
  | rejectChannel
  | pollChannelOutcome
  | gateBind
  | gateConnect
  | gateAccept
  | linkSend
  | linkRecv
  | linkClose
  | wardenSet
  | gateProbe
  deriving DecidableEq

def Syscall.fromNumber (n : Word) : Option Syscall :=
  match n.toNat with
  | 1 => some .log
  | 2 => some .exit
  | 3 => some .yield
  | 4 => some .now
  | 5 => some .fsRead
  | 6 => some .fsWrite
  | 7 => some .fsMkdir
  | 8 => some .fsExists
  | 9 => some .readKey
  | 10 => some .getRandom
  | 11 => some .fsList
  | 12 => some .fsDelete
  | 13 => some .sleep
  | 14 => some .openChannel
  | 15 => some .channelSend
  | 16 => some .channelRecv
  | 17 => some .spawn
  | 18 => some .requestChannel
  | 19 => some .pollChannelRequest
  | 20 => some .acceptChannel
  | 21 => some .rejectChannel
  | 22 => some .pollChannelOutcome
  | 23 => some .gateBind
  | 24 => some .gateConnect
  | 25 => some .gateAccept
  | 26 => some .linkSend
  | 27 => some .linkRecv
  | 28 => some .linkClose
  | 29 => some .wardenSet
  | 30 => some .gateProbe
  | _ => none

structure FsRwArgs where
  pathPtr : Word
  pathLen : Word
  bufPtr : Word
  bufLen : Word

abbrev fsRwArgsLen : Nat := 32

def FsRwArgs.fromBytes (b : List Byte) : FsRwArgs where
  pathPtr := BitVec.ofNat 64 (ofLE (slice b 0 8))
  pathLen := BitVec.ofNat 64 (ofLE (slice b 8 8))
  bufPtr := BitVec.ofNat 64 (ofLE (slice b 16 8))
  bufLen := BitVec.ofNat 64 (ofLE (slice b 24 8))

def errorCode : SyscallError → Int
  | .noSuchCall => 1
  | .badAddress => 2
  | .invalidArgument => 3
  | .notPermitted => 4
  | .notFound => 5
  | .ioError => 6
  | .wouldBlock => 7

def asReturn (e : SyscallError) : Int := -errorCode e

theorem asReturn_neg (e : SyscallError) : asReturn e < 0 := by cases e <;> decide

/-- `(w & i64::MAX as u64) as i64`. -/
def maskedReturn (w : Word) : Int := (w &&& 0x7FFFFFFFFFFFFFFF#64).toInt

theorem maskedReturn_nonneg (w : Word) : 0 ≤ maskedReturn w := by
  have hbit : (w &&& 0x7FFFFFFFFFFFFFFF#64).msb = false := by
    rw [BitVec.msb_and]
    exact Bool.and_false _
  rw [maskedReturn, BitVec.toInt_eq_toNat_of_msb hbit]
  exact Int.natCast_nonneg _

/-- `n as i64` of a `usize`. -/
def lengthReturn (n : Nat) : Int := (BitVec.ofNat 64 n).toInt

theorem lengthReturn_eq {n : Nat} (small : n < 2 ^ 63) : lengthReturn n = n := by
  have hword : (BitVec.ofNat 64 n).toNat = n := BitVec.toNat_ofNat n 64 ▸ Nat.mod_eq_of_lt (by omega)
  rw [lengthReturn, BitVec.toInt_eq_toNat_of_lt (by omega), hword]

end CibosPlatform.Shared.SyscallAbi

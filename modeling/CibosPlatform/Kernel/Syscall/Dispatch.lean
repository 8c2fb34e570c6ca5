/- source: cibos-kernel/src/syscall.rs
   digest: The dispatcher of system calls, over an environment it asks for everything else. -/

import CibosPlatform.Core.Interaction
import CibosPlatform.Shared.Ipc
import CibosPlatform.Shared.SyscallAbi

/-! The dispatcher asks its environment: every method of the trait is a question, and so is every buffer it
makes on the heap, since its size is what a caller could abuse. -/

namespace CibosPlatform.Kernel.Syscall.Dispatch

open Core Interaction LittleEndian
open Core.Program (Outcome)
open Shared Error Ipc SyscallAbi

abbrev maxLogLen : Nat := 4096

abbrev maxPathLen : Nat := 1024

abbrev maxFsIoLen : Nat := 64 * 1024

abbrev isizeMax : Nat := 2 ^ 63 - 1

structure SyscallRequest where
  number : Word
  arg0 : Word
  arg1 : Word
  arg2 : Word
  boundary : BoundaryId

inductive SyscallOutcome where
  | ret (value : Int)
  | exit (code : Word)
  | yield
  deriving DecidableEq

/-- What the dispatcher asks: `alloc` is a vector of that many bytes, the rest is `SyscallEnv`. -/
inductive EnvCall where
  | alloc (len : Nat)
  | copyFromUser (boundary : BoundaryId) (ptr : Word) (len : Nat)
  | consoleWrite (bytes : List Byte)
  | nowNanos
  | copyToUser (boundary : BoundaryId) (ptr : Word) (bytes : List Byte)
  | fsRead (path : List Byte)
  | fsWrite (path data : List Byte)
  | fsMkdir (path : List Byte)
  | fsExists (path : List Byte)
  | fsList (path : List Byte)
  | fsDelete (path : List Byte)
  | sleepNanos (nanos : Word)
  | readKey (blocking : Bool)
  | fillRandom (len : Nat)
  | openChannel (boundary : BoundaryId) (capacity maxMessageBytes : Nat)
  | channelSend (boundary : BoundaryId) (handle : Word) (data : List Byte)
  | channelRecv (boundary : BoundaryId) (handle : Word)
  | spawn (boundary : BoundaryId) (entry arg : Word)
  | requestChannel (requester target : BoundaryId) (terms : ChannelTerms)
  | pollChannelRequest (target : BoundaryId)
  | acceptChannel (target : BoundaryId) (id : Word)
  | rejectChannel (target : BoundaryId) (id : Word)
  | pollChannelOutcome (requester : BoundaryId) (id : Word)
  | gateBind (owner : BoundaryId) (gate : Nat)
  | gateConnect (source : BoundaryId) (gate : Nat)
  | gateAccept (owner : BoundaryId) (gate : Nat)
  | linkSend (boundary : BoundaryId) (handle : Word) (data : List Byte)
  | linkRecv (boundary : BoundaryId) (handle : Word)
  | linkClose (boundary : BoundaryId) (handle : Word)
  | wardenSet (boundary : BoundaryId) (gate : Nat) (allow : Bool)
  | gateProbe (boundary : BoundaryId) (gate : Nat)

/-- What each question is answered with. A buffer passed to be filled is part of the answer. -/
abbrev Answer : EnvCall → Type
  | .alloc _ | .consoleWrite _ => Unit
  | .nowNanos | .readKey _ => Word
  | .copyFromUser _ _ len | .fillRandom len => Except SyscallError (Vector Byte len)
  | .fsRead _ => Except SyscallError (Option (List Byte))
  | .fsExists _ => Except SyscallError Bool
  | .fsList _ => Except SyscallError (Option (List (List Byte)))
  | .channelRecv .. | .linkRecv .. => Except SyscallError (List Byte)
  | .pollChannelRequest _ => Except SyscallError (Word × Vector Byte channelRequestWireLen)
  | .openChannel .. | .spawn .. | .requestChannel .. | .acceptChannel .. | .pollChannelOutcome ..
  | .gateBind .. | .gateConnect .. | .gateAccept .. | .gateProbe .. => Except SyscallError Word
  | .copyToUser .. | .fsWrite .. | .fsMkdir _ | .fsDelete _ | .sleepNanos _ | .channelSend ..
  | .rejectChannel .. | .linkSend .. | .linkClose .. | .wardenSet .. => Except SyscallError Unit

/-- The methods the trait implements itself, beside a user memory of which nothing is mapped and a
clock that stands still. -/
def defaultAnswer : (q : EnvCall) → Answer q
  | .alloc _ | .consoleWrite _ => ()
  | .nowNanos => 0
  | .copyFromUser .. | .copyToUser .. => .error .badAddress
  | .sleepNanos _ => .ok ()
  | .readKey _ => BitVec.ofInt 64 (asReturn .notFound)
  | .fsRead _ | .fsWrite .. | .fsMkdir _ | .fsExists _ | .fsList _ | .fsDelete _ | .fillRandom _
  | .openChannel .. | .channelSend .. | .channelRecv .. | .spawn .. | .requestChannel ..
  | .pollChannelRequest _ | .acceptChannel .. | .rejectChannel .. | .pollChannelOutcome ..
  | .gateBind .. | .gateConnect .. | .gateAccept .. | .linkSend .. | .linkRecv .. | .linkClose ..
  | .wardenSet .. | .gateProbe .. => .error .notPermitted

abbrev Event := Sigma Answer

abbrev Sys := Ask EnvCall Answer SyscallError

open Ask

def allocate (len : Nat) : Sys Unit := ask (.alloc len) fun _ => if len ≤ isizeMax then done () else panic

variable (boundary : BoundaryId)

def copyFromUser (ptr : Word) (len : Nat) : Sys (List Byte) :=
  ask (.copyFromUser boundary ptr len) fun r => orFail (r.map Vector.toList)

def returnMasked (r : Except SyscallError Word) : Sys SyscallOutcome := orFail (r.map fun w => .ret (maskedReturn w))

def returnZero (r : Except SyscallError Unit) : Sys SyscallOutcome := orFail (r.map fun _ => .ret 0)

def asGate (w : Word) : Sys Nat := if w.toNat < 2 ^ 16 then done w.toNat else fail .invalidArgument

def readPath (ptr : Word) (len : Nat) : Sys (List Byte) := do
  rejectIf (len = 0 ∨ maxPathLen < len) .invalidArgument
  allocate len
  copyFromUser boundary ptr len

def readRwArgs (ptr : Word) : Sys FsRwArgs := do
  let raw ← copyFromUser boundary ptr fsRwArgsLen
  pure (FsRwArgs.fromBytes raw)

variable (req : SyscallRequest)

def logCall : Sys SyscallOutcome := do
  let len := req.arg1.toNat
  rejectIf (maxLogLen < len) .invalidArgument
  let buf ← copyFromUser req.boundary req.arg0 len
  ask (.consoleWrite buf) fun _ => done (.ret 0)

def copyOut (args : FsRwArgs) (data : List Byte) : Sys SyscallOutcome :=
  let n := min data.length args.bufLen.toNat
  ask (.copyToUser req.boundary args.bufPtr (data.take n)) fun r => orFail (r.map fun _ => .ret (lengthReturn n))

def fsRead : Sys SyscallOutcome := do
  let args ← readRwArgs req.boundary req.arg0
  rejectIf (maxFsIoLen < args.bufLen.toNat) .invalidArgument
  let path ← readPath req.boundary args.pathPtr args.pathLen.toNat
  match ← ask (.fsRead path) orFail with
  | none => fail .notFound
  | some data => copyOut req args data

def joinNames (names : List (List Byte)) : List Byte := [10#8].intercalate names

def fsList : Sys SyscallOutcome := do
  let args ← readRwArgs req.boundary req.arg0
  rejectIf (maxFsIoLen < args.bufLen.toNat) .invalidArgument
  let path ← readPath req.boundary args.pathPtr args.pathLen.toNat
  match ← ask (.fsList path) orFail with
  | none => fail .notFound
  | some names => copyOut req args (joinNames names)

def fsWrite : Sys SyscallOutcome := do
  let args ← readRwArgs req.boundary req.arg0
  let dlen := args.bufLen.toNat
  rejectIf (maxFsIoLen < dlen) .invalidArgument
  let path ← readPath req.boundary args.pathPtr args.pathLen.toNat
  allocate dlen
  let data ← (if 0 < dlen then copyFromUser req.boundary args.bufPtr dlen else done [])
  ask (.fsWrite path data) fun r => orFail (r.map fun _ => .ret (lengthReturn dlen))

def onPath (next : List Byte → Sys SyscallOutcome) : Sys SyscallOutcome := do
  let path ← readPath req.boundary req.arg0 req.arg1.toNat
  next path

def getRandom : Sys SyscallOutcome := do
  let len := req.arg1.toNat
  rejectIf (len = 0 ∨ maxFsIoLen < len) .invalidArgument
  allocate len
  let buf ← ask (.fillRandom len) orFail
  ask (.copyToUser req.boundary req.arg0 buf.toList) fun r => orFail (r.map fun _ => .ret (lengthReturn len))

def openChannel : Sys SyscallOutcome := do
  let capacity := req.arg0.toNat
  let maxMessageBytes := req.arg1.toNat
  rejectIf (capacity = 0 ∨ maxMessageBytes = 0 ∨ maxFsIoLen < maxMessageBytes) .invalidArgument
  ask (.openChannel req.boundary capacity maxMessageBytes) returnMasked

def channelSend : Sys SyscallOutcome := do
  let len := req.arg2.toNat
  rejectIf (maxFsIoLen < len) .invalidArgument
  allocate len
  let buf ← copyFromUser req.boundary req.arg1 len
  ask (.channelSend req.boundary req.arg0 buf) returnZero

/-- The message is cut to the caller's buffer. -/
def channelRecv : Sys SyscallOutcome := do
  let cap := req.arg2.toNat
  rejectIf (maxFsIoLen < cap) .invalidArgument
  let msg ← ask (.channelRecv req.boundary req.arg0) orFail
  let n := min msg.length cap
  ask (.copyToUser req.boundary req.arg1 (msg.take n)) fun r => orFail (r.map fun _ => .ret (lengthReturn n))

def requestChannel : Sys SyscallOutcome := do
  let target := req.arg0.toNat
  rejectIf (req.arg2.toNat < channelTermsWireLen) .invalidArgument
  let buf ← copyFromUser req.boundary req.arg1 channelTermsWireLen
  match (ChannelTermsWire.fromBytes buf).toTerms with
  | none => fail .invalidArgument
  | some terms => do
    rejectIf (target = req.boundary) .invalidArgument
    ask (.requestChannel req.boundary target terms) returnMasked

def pollChannelRequest : Sys SyscallOutcome := do
  rejectIf (req.arg1.toNat < channelRequestWireLen) .invalidArgument
  let (id, out) ← ask (.pollChannelRequest req.boundary) orFail
  ask (.copyToUser req.boundary req.arg0 out.toList) fun r => orFail (r.map fun _ => .ret (maskedReturn id))

/-- Unlike `channel_send` there is no bound on the length. -/
def linkSend : Sys SyscallOutcome := do
  let len := req.arg2.toNat
  allocate len
  let buf ← copyFromUser req.boundary req.arg1 len
  ask (.linkSend req.boundary req.arg0 buf) returnZero

/-- Unlike `channel_recv` a message that does not fit is refused, after it has been received. -/
def linkRecv : Sys SyscallOutcome := do
  let bytes ← ask (.linkRecv req.boundary req.arg0) orFail
  rejectIf (req.arg2.toNat < bytes.length) .invalidArgument
  ask (.copyToUser req.boundary req.arg1 bytes) fun r =>
    orFail (r.map fun _ => .ret (maskedReturn (BitVec.ofNat 64 bytes.length)))

def handle : Syscall → Sys SyscallOutcome
  | .log => logCall req
  | .exit => done (.exit req.arg0)
  | .yield => done .yield
  | .now => ask .nowNanos fun ns => done (.ret (maskedReturn ns))
  | .fsRead => fsRead req
  | .fsWrite => fsWrite req
  | .fsMkdir => onPath req fun path => ask (.fsMkdir path) returnZero
  | .fsExists => onPath req fun path =>
    ask (.fsExists path) fun r => orFail (r.map fun found => .ret (if found then 1 else 0))
  | .readKey => ask (.readKey (req.arg0 != 0)) fun key => done (.ret key.toInt)
  | .getRandom => getRandom req
  | .fsList => fsList req
  | .fsDelete => onPath req fun path => ask (.fsDelete path) returnZero
  | .sleep => ask (.sleepNanos (req.arg0 ||| (req.arg1 <<< 32))) returnZero
  | .openChannel => openChannel req
  | .channelSend => channelSend req
  | .channelRecv => channelRecv req
  | .spawn => ask (.spawn req.boundary req.arg0 req.arg1) returnMasked
  | .requestChannel => requestChannel req
  | .pollChannelRequest => pollChannelRequest req
  | .acceptChannel => ask (.acceptChannel req.boundary req.arg0) returnMasked
  | .rejectChannel => ask (.rejectChannel req.boundary req.arg0) returnZero
  | .pollChannelOutcome => ask (.pollChannelOutcome req.boundary req.arg0) returnMasked
  | .gateBind => asGate req.arg0 >>= fun gate => ask (.gateBind req.boundary gate) returnMasked
  | .gateConnect => asGate req.arg0 >>= fun gate => ask (.gateConnect req.boundary gate) returnMasked
  | .gateAccept => asGate req.arg0 >>= fun gate => ask (.gateAccept req.boundary gate) returnMasked
  | .linkSend => linkSend req
  | .linkRecv => linkRecv req
  | .linkClose => ask (.linkClose req.boundary req.arg0) returnZero
  | .wardenSet => asGate req.arg0 >>= fun gate => ask (.wardenSet req.boundary gate (req.arg1 != 0)) returnZero
  | .gateProbe => asGate req.arg0 >>= fun gate => ask (.gateProbe req.boundary gate) returnMasked

def dispatch : Sys SyscallOutcome :=
  match Syscall.fromNumber req.number with
  | none => fail .noSuchCall
  | some call => handle req call

def returned : Outcome SyscallError SyscallOutcome → Option SyscallOutcome
  | .ok outcome => some outcome
  | .err e => some (.ret (asReturn e))
  | .panic => none

end CibosPlatform.Kernel.Syscall.Dispatch

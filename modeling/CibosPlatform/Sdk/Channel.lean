/- source: cibos-sdk/src/channel.rs, cibos-kernel/src/channel.rs
   digest: Typed channels over a kernel channel of one-byte tokens, as programs that call the kernel. -/

import CibosPlatform.Kernel.Channel.Queue
import CibosPlatform.Kernel.Loop

namespace CibosPlatform.Sdk.Channel

open Core Interaction LittleEndian Kernel.Channel.Queue Kernel.Loop
open Kernel.Scheduler.State (SchedulerState)
open Shared.Ipc

abbrev Call (α : Type) := Ask KernelCall KernelAnswer Empty α

namespace Signal

def wake : Option LaneId → Call Unit
  | some lane => .ask (.signalReady lane) fun _ => .done ()
  | none => .done ()

def trySend (lane : LaneId) (msg : Message) (c : ChannelInner) : Call (SendStep × ChannelInner) :=
  match c.sendSection lane msg with
  | (.sentWake waiter, c) => wake waiter >>= fun _ => .done (.sent, c)
  | (.registerFull, c) => .ask (.registerWait lane (.channelBuffer c.id)) fun _ => .done (.full, c)
  | (.closed, c) => .done (.closed, c)
  | (.tooLarge, c) => .done (.tooLarge, c)

def tryRecv (lane : LaneId) (c : ChannelInner) : Call (RecvStep × ChannelInner) :=
  match c.recvSection lane with
  | (.gotWake msg waiter, c) => wake waiter >>= fun _ => .done (.message msg, c)
  | (.registerEmpty, c) => .ask (.registerWait lane (.channelData c.id)) fun _ => .done (.empty, c)
  | (.closed, c) => .done (.closed, c)

def close (c : ChannelInner) : Call ChannelInner :=
  let taken := c.closeSection
  wake taken.1.1 >>= fun _ => wake taken.1.2 >>= fun _ => .done taken.2

variable {lane : LaneId} {msg : Message} {c : ChannelInner} {s : SchedulerState}

theorem run_trySend {r : SendStep × Wired SchedulerState}
    (wired : Kernel.Channel.Queue.trySend lane msg ⟨c, s⟩ = r) : ∃ events,
    (trySend lane msg c).run schedulerEnv s = some ⟨.ok (r.1, r.2.channel), events, r.2.kernel⟩ := by
  subst wired
  unfold trySend Kernel.Channel.Queue.trySend
  rcases c.sendSection lane msg with ⟨action, c'⟩
  cases action with
  | sentWake waiter =>
    cases waiter with
    | none | some other => exact ⟨_, rfl⟩
  | registerFull | closed | tooLarge => exact ⟨_, rfl⟩

theorem run_tryRecv {r : RecvStep × Wired SchedulerState}
    (wired : Kernel.Channel.Queue.tryRecv lane ⟨c, s⟩ = r) : ∃ events,
    (tryRecv lane c).run schedulerEnv s = some ⟨.ok (r.1, r.2.channel), events, r.2.kernel⟩ := by
  subst wired
  unfold tryRecv Kernel.Channel.Queue.tryRecv
  rcases c.recvSection lane with ⟨action, c'⟩
  cases action with
  | gotWake msg waiter =>
    cases waiter with
    | none | some other => exact ⟨_, rfl⟩
  | registerEmpty | closed => exact ⟨_, rfl⟩

theorem run_close {w : Wired SchedulerState} (wired : Kernel.Channel.Queue.close ⟨c, s⟩ = w) : ∃ events,
    (close c).run schedulerEnv s = some ⟨.ok w.channel, events, w.kernel⟩ := by
  subst wired
  unfold close Kernel.Channel.Queue.close
  rcases c.closeSection with ⟨⟨receiver, sender⟩, c'⟩
  cases receiver with
  | none =>
    cases sender with
    | none | some other => exact ⟨_, rfl⟩
  | some first =>
    cases sender with
    | none | some other => exact ⟨_, rfl⟩

end Signal

inductive ChannelError where
  | targetNotFound
  | targetRejected
  | targetTimeout
  | termsViolation
  | unauthorized
  | channelClosed
  | messageTooLarge
  | bufferCapacityInvalid
  | containerExiting

inductive TrySendError (V : Type) where
  | full (message : V)
  | closed (message : V)

inductive TryReceiveError where
  | empty
  | closed

/-- What the handles of a typed channel share: the payloads, and the signal that carries one token for
each of them. -/
structure TypedChannel (V : Type) where
  queue : List V
  signal : ChannelInner

def token : Message := [1]

abbrev maxLocalBuffer : Nat := 65536

/-- The checks `new_local` and `request` make, and the signal they open; `inUse` channels of the kind are
open in a container that may have `maxChannels`. -/
def openSignal (id : ChannelId) (purpose : List Byte) (capacity inUse maxChannels : Nat) :
    Except ChannelError ChannelInner :=
  if capacity = 0 ∨ maxLocalBuffer < capacity then .error .bufferCapacityInvalid
  else if maxChannels ≤ inUse then .error .termsViolation
  else match ChannelTerms.new purpose .bidirectional 1 capacity with
    | .error _ => .error .termsViolation
    | .ok terms => .ok (.new id terms)

def localPurpose : List Byte := [0x6c, 0x6f, 0x63, 0x61, 0x6c]

theorem openSignal_eq_ok {id : ChannelId} {purpose : List Byte} {capacity inUse maxChannels : Nat} {c : ChannelInner} :
    openSignal id purpose capacity inUse maxChannels = .ok c ↔
      (1 ≤ capacity ∧ capacity ≤ maxLocalBuffer) ∧ inUse < maxChannels ∧
      ∃ short : purpose.length ≤ maxChannelPurpose, c = .new id ⟨⟨purpose, short⟩, .bidirectional, 1, capacity⟩ := by
  unfold openSignal
  by_cases hcapacity : capacity = 0 ∨ maxLocalBuffer < capacity
  · grind
  · rw [if_neg hcapacity]
    by_cases hceiling : maxChannels ≤ inUse
    · grind
    · rw [if_neg hceiling]
      by_cases hshort : purpose.length ≤ maxChannelPurpose
      · grind [ChannelTerms.new_eq_ok]
      · grind [ChannelTerms.new]

namespace TypedChannel

variable {V : Type}

def newLocal (id : ChannelId) (capacity inUse maxChannels : Nat) : Except ChannelError (TypedChannel V) :=
  (openSignal id localPurpose capacity inUse maxChannels).map fun signal => ⟨[], signal⟩

def requested (id : ChannelId) (purpose : List Byte) (capacity inUse maxChannels : Nat) :
    Except ChannelError (TypedChannel V) :=
  (openSignal id purpose capacity inUse maxChannels).map fun signal => ⟨[], signal⟩

/-- A token is sent, and its payload follows. -/
def trySend (lane : LaneId) (message : V) (c : TypedChannel V) : Call (SendStep × TypedChannel V) :=
  Signal.trySend lane token c.signal >>= fun r =>
    .done (r.1, ⟨if r.1 = .sent then c.queue ++ [message] else c.queue, r.2⟩)

/-- What a receive finds: with a token, the payload at the front, if there is one. -/
inductive Received (V : Type) where
  | message (payload : Option V)
  | empty
  | closed

def tryReceive (lane : LaneId) (c : TypedChannel V) : Call (Received V × TypedChannel V) :=
  Signal.tryRecv lane c.signal >>= fun r =>
    match r.1 with
    | .message _ => .done (.message c.queue.head?, ⟨c.queue.tail, r.2⟩)
    | .empty => .done (.empty, ⟨c.queue, r.2⟩)
    | .closed => .done (.closed, ⟨c.queue, r.2⟩)

def close (c : TypedChannel V) : Call (TypedChannel V) :=
  Signal.close c.signal >>= fun signal => .done ⟨c.queue, signal⟩

end TypedChannel

abbrev Channels (V : Type) := Nat → TypedChannel V

namespace Channels

variable {V : Type}

def on {α : Type} (channels : Channels V) (channel : Nat) (op : TypedChannel V → Call (α × TypedChannel V)) :
    Call (α × Channels V) :=
  op (channels channel) >>= fun r => .done (r.1, Function.update channels channel r.2)

end Channels

end CibosPlatform.Sdk.Channel

/- source: kernel-image/src/boot.rs
   digest: The handle table of the kernel image and the channel and gate calls over it. -/

import CibosPlatform.Kernel.Channel.Handshake
import CibosPlatform.Kernel.Gate.Registry
import CibosPlatform.KernelImage.RemoteLink

/-! Whatever a call does to a channel goes through a boundary and its number for it. A step that is `none` is
a counter that overflows in a build with overflow checks. -/

namespace CibosPlatform.KernelImage.Table

open Core LittleEndian MachineWord Kernel.Channel Option
open Kernel.Channel.Handshake (ChannelRegistry PendingRequest)
open Kernel.Channel.Queue (ChannelInner SendStep RecvStep)
open Kernel.Channel.Sharing
open Kernel.Gate.Registry (BoundGate GateId GateRegistry PendingConnect)
open Net.Packets (Ipv4Addr Port)
open RemoteLink (Link)
open UdpTransport (NetDevice TransportError World)
open Shared Error Ipc Function

/-- The table: handles of boundaries, the registries, and the outcomes not yet collected. -/
structure ChannelHandleTable (K : Type) where
  nextHandle : Nat
  handles : BoundaryId × Nat → Option ChannelRef
  registry : ChannelRegistry
  accepted : Nat → Option (BoundaryId × Nat)
  gates : GateRegistry
  nextChannelId : Nat
  remoteLinks : BoundaryId × Nat → Option Link
  channels : Channels K

def syscallPurpose : List Byte := [115, 121, 115, 99, 97, 108, 108]

abbrev shortBound : Nat := 2 ^ 32

def sendResult : SendStep → Except SyscallError Unit
  | .sent => .ok ()
  | .full => .error .wouldBlock
  | .closed => .error .notFound
  | .tooLarge => .error .invalidArgument

def recvResult : RecvStep → Except SyscallError Message
  | .message msg => .ok msg
  | .empty => .error .wouldBlock
  | .closed => .error .notFound

section

variable {δ : Type} (dev : NetDevice δ)

def remoteSend (link : Link) (data : Message) (net : World δ) :
    Option (Except SyscallError Unit × World δ) :=
  match link.send dev data net with
  | (.ok _, net') => some (.ok (), net')
  | (.err (.net _), net') => some (.error .invalidArgument, net')
  | (.err _, net') => some (.error .wouldBlock, net')
  | (.panic, _) => none

def remoteRoom : List Byte := List.replicate 1500 0

def remoteRecv (link : Link) (net : World δ) : Option (Except SyscallError Message × World δ) :=
  match link.recv dev remoteRoom net with
  | (.ok (some len, buf), net') => some (.ok (buf.take len), net')
  | (.ok (none, _), net') => some (.error .wouldBlock, net')
  | (.err _, net') => some (.error .wouldBlock, net')
  | (.panic, _) => none

end

variable (profile : BuildProfile)

namespace ChannelHandleTable

variable {K : Type}

def new (kernel : K) : ChannelHandleTable K where
  nextHandle := 0
  handles := fun _ => none
  registry := .new
  accepted := fun _ => none
  gates := .new
  nextChannelId := 0x10000000
  remoteLinks := fun _ => none
  channels := .empty kernel

variable (boundary : BoundaryId) (t : ChannelHandleTable K)

def give (ch : ChannelRef) (next : Nat) : ChannelHandleTable K :=
  { t with nextHandle := next, handles := update t.handles (boundary, t.nextHandle) (some ch) }

def register (boundary : BoundaryId) (ch : ChannelRef) : Option (Nat × ChannelHandleTable K) :=
  (addWord profile t.nextHandle 1).map fun next => (t.nextHandle, t.give boundary ch next)

theorem register_eq_some {profile : BuildProfile} {t : ChannelHandleTable K} {boundary : BoundaryId}
    {ch : ChannelRef} {r : Nat × ChannelHandleTable K}
    (h : t.register profile boundary ch = some r) :
    ∃ next, addWord profile t.nextHandle 1 = some next ∧
      r = (t.nextHandle, t.give boundary ch next) := by
  obtain ⟨next, hnext, hr⟩ := map_eq_some_iff.mp h
  exact ⟨next, hnext, hr.symm⟩

def resolve (handle : Nat) : Option ChannelRef :=
  t.handles (boundary, handle)

def connectRemote (remoteIp : Ipv4Addr) (remotePort localPort : Port) :
    Option (Nat × ChannelHandleTable K) :=
  (addWord profile t.nextHandle 1).map fun next => (t.nextHandle, { t with
    nextHandle := next
    remoteLinks := update t.remoteLinks (boundary, t.nextHandle)
      (some ⟨localPort, remoteIp, remotePort⟩) })

def resolveRemote (handle : Nat) : Option Link :=
  t.remoteLinks (boundary, handle)

def adding (c : ChannelInner) : ChannelHandleTable K :=
  { t with channels := t.channels.create c }

def withBound (gate : GateId) (g : BoundGate) : ChannelHandleTable K :=
  { t with gates := { t.gates with bound := t.gates.bound.insert gate g } }

def withRegistry (registry : ChannelRegistry) : ChannelHandleTable K :=
  { t with registry := registry }

def openChannel (boundary : BoundaryId) (capacity maxMessageBytes : Nat) :
    Option (Except SyscallError Nat × ChannelHandleTable K) :=
  match ChannelTerms.new syscallPurpose .bidirectional (maxMessageBytes % shortBound)
      (max capacity 1 % shortBound) with
  | .error _ => some (.error .invalidArgument, t)
  | .ok terms => (t.registry.create profile terms).bind fun made =>
    let t' : ChannelHandleTable K := { t with registry := made.2 }
    ((t'.adding made.1).register profile boundary t.channels.fresh).map fun r => (.ok r.1, r.2)

def requestChannel (requester target : BoundaryId) (terms : ChannelTerms) :
    Option (Except SyscallError Nat × ChannelHandleTable K) :=
  (t.registry.request profile requester ⟨target, terms⟩).map fun r =>
    (.ok r.1, { t with registry := r.2 })

variable (target : BoundaryId)

/-- The id of the next request for `target`, and the caller's buffer with the request at its start. -/
def pollChannelRequest (out : List Byte) : Except SyscallError (Nat × List Byte) :=
  match t.registry.poll target with
  | none => .error .notFound
  | some (id, requester, terms) =>
    if out.length < channelRequestWireLen then .error .invalidArgument
    else .ok (id, ChannelRequestWire.toBytes ⟨requester, .fromTerms terms⟩ ++
      out.drop channelRequestWireLen)

/-- Both ends get a handle: the target at once, the requester when it asks for the outcome. -/
def acceptChannel (id : Nat) : Option (Except SyscallError Nat × ChannelHandleTable K) :=
  (t.registry.accept profile id target).bind fun
  | (none, _) => some (.error .notPermitted, t)
  | (some (c, requester), registry) =>
    let t' : ChannelHandleTable K := { t with registry := registry }
    ((t'.adding c).register profile target t.channels.fresh).bind fun first =>
      (first.2.register profile requester t.channels.fresh).map fun second =>
        (.ok first.1, { second.2 with
          accepted := update second.2.accepted id (some (requester, second.1)) })

def rejectChannel (id : Nat) : Except SyscallError Unit × ChannelHandleTable K :=
  match t.registry.reject id target with
  | (true, registry) => (.ok (), { t with registry := registry })
  | (false, _) => (.error .notFound, t)

def pollChannelOutcome (requester : BoundaryId) (id : Nat) :
    Except SyscallError Nat × ChannelHandleTable K :=
  match t.accepted id with
  | some (boundary, handle) =>
    if boundary = requester then (.ok handle, { t with accepted := update t.accepted id none })
    else (.error .notPermitted, t)
  | none => (.error (if t.registry.isPending id then .wouldBlock else .notFound), t)

def gateBind (owner : BoundaryId) (gate : GateId) :
    Except SyscallError Nat × ChannelHandleTable K :=
  match t.gates.bind owner gate with
  | .ok gates => (.ok gate, { t with gates := gates })
  | .error .blocked => (.error .notPermitted, t)
  | .error .alreadyBound => (.error .notPermitted, t)
  | .error _ => (.error .invalidArgument, t)

/-- The channel id is used up also when the connect fails. -/
def gateConnect (requester : BoundaryId) (gate : GateId) :
    Option (Except SyscallError Nat × ChannelHandleTable K) :=
  (addWord profile t.nextChannelId 1).bind fun nextChannelId =>
    match t.gates.connect requester gate t.nextChannelId t.channels with
    | .ok (link, gates, channels) =>
      let t' : ChannelHandleTable K :=
        { t with nextChannelId := nextChannelId, gates := gates, channels := channels }
      (t'.register profile requester link).map fun r => (.ok r.1, r.2)
    | .error .blocked => some (.error .notPermitted, { t with nextChannelId := nextChannelId })
    | .error .refused => some (.error .notFound, { t with nextChannelId := nextChannelId })
    | .error _ => some (.error .invalidArgument, { t with nextChannelId := nextChannelId })

def gateAccept (owner : BoundaryId) (gate : GateId) :
    Option (Except SyscallError Nat × ChannelHandleTable K) :=
  match t.gates.accept owner gate with
  | .ok ((link, _), gates) =>
    let t' : ChannelHandleTable K := { t with gates := gates }
    (t'.register profile owner link).map fun r => (.ok r.1, r.2)
  | .error .wouldBlock => some (.error .wouldBlock, t)
  | .error .notOwner => some (.error .notPermitted, t)
  | .error _ => some (.error .notFound, t)

def wardenSet (gate : GateId) (allow : Bool) : ChannelHandleTable K :=
  { t with gates := if allow then t.gates.wardenAllow gate else t.gates.wardenDeny gate }

def gateProbe (gate : GateId) : Nat :=
  match t.gates.probe gate with
  | .closed => 0
  | .isOpen => 1
  | .blocked => 2

variable [KernelInterface K]

variable (handle : Nat)

def sendOn (lane : LaneId) (data : Message) : Except SyscallError Unit × ChannelHandleTable K :=
  match t.resolve boundary handle with
  | none => (.error .notFound, t)
  | some ch =>
    let r := t.channels.trySend ch lane data
    (sendResult r.1, { t with channels := r.2 })

def recvOn (lane : LaneId) : Except SyscallError Message × ChannelHandleTable K :=
  match t.resolve boundary handle with
  | none => (.error .notFound, t)
  | some ch =>
    let r := t.channels.tryRecv ch lane
    (recvResult r.1, { t with channels := r.2 })

def channelSend (lane : LaneId) (data : Message) :
    Except SyscallError Unit × ChannelHandleTable K :=
  t.sendOn boundary handle lane data

def channelRecv (lane : LaneId) :
    Except SyscallError Message × ChannelHandleTable K := t.recvOn boundary handle lane

section

variable {δ : Type} (dev : NetDevice δ)

/-- A handle without a channel may be one of a link over the network. -/
def linkSend (handle : Nat) (lane : LaneId) (data : Message) (net : World δ) :
    Option (Except SyscallError Unit × ChannelHandleTable K × World δ) :=
  match t.resolve boundary handle, t.resolveRemote boundary handle with
  | none, some link => (remoteSend dev link data net).map fun r => (r.1, t, r.2)
  | _, _ => some ((t.sendOn boundary handle lane data).map id fun t' => (t', net))

def linkRecv (handle : Nat) (lane : LaneId) (net : World δ) :
    Option (Except SyscallError Message × ChannelHandleTable K × World δ) :=
  match t.resolve boundary handle, t.resolveRemote boundary handle with
  | none, some link => (remoteRecv dev link net).map fun r => (r.1, t, r.2)
  | _, _ => some ((t.recvOn boundary handle lane).map id fun t' => (t', net))

end

def linkClose (handle : Nat) : Except SyscallError Unit × ChannelHandleTable K :=
  match t.resolve boundary handle with
  | none => (.error .notFound, t)
  | some ch => (.ok (), { t with channels := t.channels.close ch })

end ChannelHandleTable

inductive Call where
  | openChannel (boundary : BoundaryId) (capacity maxMessageBytes : Nat)
  | channelSend (boundary : BoundaryId) (handle : Nat) (lane : LaneId) (data : Message)
  | channelRecv (boundary : BoundaryId) (handle : Nat) (lane : LaneId)
  | requestChannel (requester target : BoundaryId) (terms : ChannelTerms)
  | pollChannelRequest (target : BoundaryId) (out : List Byte)
  | acceptChannel (target : BoundaryId) (id : Nat)
  | rejectChannel (target : BoundaryId) (id : Nat)
  | pollChannelOutcome (requester : BoundaryId) (id : Nat)
  | gateBind (owner : BoundaryId) (gate : GateId)
  | gateConnect (requester : BoundaryId) (gate : GateId)
  | gateAccept (owner : BoundaryId) (gate : GateId)
  | linkSend (boundary : BoundaryId) (handle : Nat) (lane : LaneId) (data : Message)
  | linkRecv (boundary : BoundaryId) (handle : Nat) (lane : LaneId)
  | linkClose (boundary : BoundaryId) (handle : Nat)
  | wardenSet (boundary : BoundaryId) (gate : GateId) (allow : Bool)
  | gateProbe (boundary : BoundaryId) (gate : GateId)

inductive Reply where
  | number (r : Except SyscallError Nat)
  | done (r : Except SyscallError Unit)
  | bytes (r : Except SyscallError Message)
  | polled (r : Except SyscallError (Nat × List Byte))

section

variable {K : Type} [KernelInterface K]

def noCard : NetDevice Empty := ⟨fun nic => nic.elim, fun nic => nic.elim, fun nic => nic.elim⟩

/-- The calls on a machine without a network, where a remote link only blocks. -/
def step (call : Call) (t : ChannelHandleTable K) : Option (Reply × ChannelHandleTable K) :=
  match call with
  | .openChannel boundary capacity maxMessageBytes =>
    (t.openChannel profile boundary capacity maxMessageBytes).map (Prod.map .number id)
  | .channelSend boundary handle lane data =>
    some ((t.channelSend boundary handle lane data).map .done id)
  | .channelRecv boundary handle lane => some ((t.channelRecv boundary handle lane).map .bytes id)
  | .requestChannel requester target terms =>
    (t.requestChannel profile requester target terms).map (Prod.map .number id)
  | .pollChannelRequest target out => some (.polled (t.pollChannelRequest target out), t)
  | .acceptChannel target id =>
    (t.acceptChannel profile target id).map (Prod.map .number fun t => t)
  | .rejectChannel target id => some ((t.rejectChannel target id).map .done fun t => t)
  | .pollChannelOutcome requester id =>
    some ((t.pollChannelOutcome requester id).map .number fun t => t)
  | .gateBind owner gate => some ((t.gateBind owner gate).map .number id)
  | .gateConnect requester gate => (t.gateConnect profile requester gate).map (Prod.map .number id)
  | .gateAccept owner gate => (t.gateAccept profile owner gate).map (Prod.map .number id)
  | .linkSend boundary handle lane data =>
    (t.linkSend boundary noCard handle lane data ⟨none, none, []⟩).map fun r => (.done r.1, r.2.1)
  | .linkRecv boundary handle lane =>
    (t.linkRecv boundary noCard handle lane ⟨none, none, []⟩).map fun r => (.bytes r.1, r.2.1)
  | .linkClose boundary handle => some ((t.linkClose boundary handle).map .done id)
  | .wardenSet _ gate allow => some (.done (.ok ()), t.wardenSet gate allow)
  | .gateProbe _ gate => some (.number (.ok (t.gateProbe gate)), t)

def Call.operation : Call → Option ((BoundaryId × Nat) × Queue.Op)
  | channelSend boundary handle lane data | linkSend boundary handle lane data =>
    some ((boundary, handle), .send lane data)
  | channelRecv boundary handle lane | linkRecv boundary handle lane =>
    some ((boundary, handle), .recv lane)
  | linkClose boundary handle => some ((boundary, handle), .close)
  | _ => none

def answer : Queue.Reply → Reply
  | .send r => .done (sendResult r)
  | .recv r => .bytes (recvResult r)
  | .done => .done (.ok ())

def Idle : Call → Reply → Prop
  | .openChannel .., .number (.ok _) | .requestChannel .., .number (.ok _)
  | .acceptChannel .., .number (.ok _) | .rejectChannel .., .done (.ok _)
  | .pollChannelOutcome .., .number (.ok _) | .gateBind .., .number (.ok _)
  | .gateConnect .., .number (.ok _) | .gateAccept .., .number (.ok _) => False
  | _, _ => True

inductive Stepped (profile : BuildProfile) (t : ChannelHandleTable K) :
    Call → Reply → ChannelHandleTable K → Prop
  | opened {boundary : BoundaryId} {capacity maxMessageBytes nextId next : Nat} {c : ChannelInner}
      (made : ∃ cid terms, c = .new cid terms)
      (count : addWord profile t.nextHandle 1 = some next) :
      Stepped profile t (.openChannel boundary capacity maxMessageBytes)
        (.number (.ok t.nextHandle))
        (((t.withRegistry { t.registry with nextId := nextId }).adding c).give boundary
          t.channels.fresh next)
  | requested {requester target : BoundaryId} {terms : ChannelTerms} {next : Nat} :
      Stepped profile t (.requestChannel requester target terms)
        (.number (.ok t.registry.nextRequest))
        (t.withRegistry ⟨t.registry.nextId,
          t.registry.pending.insert t.registry.nextRequest ⟨requester, target, terms⟩, next⟩)
  | accepted {target : BoundaryId} {id nextId next next' : Nat} {req : PendingRequest}
      {c : ChannelInner}
      (aimed : t.registry.Aimed id target req) (made : ∃ cid terms, c = .new cid terms)
      (count : addWord profile t.nextHandle 1 = some next)
      (count' : addWord profile next 1 = some next') :
      Stepped profile t (.acceptChannel target id) (.number (.ok t.nextHandle))
        { (((t.withRegistry ⟨nextId, t.registry.pending.erase id, t.registry.nextRequest⟩).adding c
            ).give target t.channels.fresh next).give req.requester t.channels.fresh next' with
          accepted := update t.accepted id (some (req.requester, next)) }
  | rejected {target : BoundaryId} {id : Nat} {req : PendingRequest}
      (aimed : t.registry.Aimed id target req) :
      Stepped profile t (.rejectChannel target id) (.done (.ok ()))
        (t.withRegistry { t.registry with pending := t.registry.pending.erase id })
  | collected {requester : BoundaryId} {id handle : Nat}
      (outcome : t.accepted id = some (requester, handle)) :
      Stepped profile t (.pollChannelOutcome requester id) (.number (.ok handle))
        { t with accepted := update t.accepted id none }
  | bound {owner : BoundaryId} {gate : GateId} (free : t.gates.bound.get? gate = none) :
      Stepped profile t (.gateBind owner gate) (.number (.ok gate)) (t.withBound gate ⟨owner, []⟩)
  | connected {owner requester : BoundaryId} {gate : GateId} {queue : List PendingConnect}
      {c : ChannelInner} {nextChannelId next : Nat}
      (there : t.gates.bound.get? gate = some ⟨owner, queue⟩)
      (made : ∃ cid terms, c = .new cid terms)
      (count : addWord profile t.nextHandle 1 = some next) :
      Stepped profile t (.gateConnect requester gate) (.number (.ok t.nextHandle))
        { ((t.withBound gate ⟨owner, queue ++ [⟨requester, t.channels.fresh⟩]⟩).adding c).give
            requester t.channels.fresh next with nextChannelId := nextChannelId }
  | linked {owner : BoundaryId} {gate : GateId} {p : PendingConnect} {queue : List PendingConnect}
      {next : Nat} (there : t.gates.bound.get? gate = some ⟨owner, p :: queue⟩)
      (count : addWord profile t.nextHandle 1 = some next) :
      Stepped profile t (.gateAccept owner gate) (.number (.ok t.nextHandle))
        ((t.withBound gate ⟨owner, queue⟩).give owner p.listenerLink next)
  | operated {call : Call} {key : BoundaryId × Nat} {op : Queue.Op} {ch : ChannelRef}
      (asks : call.operation = some (key, op)) (resolved : t.handles key = some ch) :
      Stepped profile t call (answer (t.channels.perform ch op).1)
        { t with channels := (t.channels.perform ch op).2 }
  | idle {call : Call} {reply : Reply} {denied : Finset GateId} {nextChannelId : Nat}
      (quiet : Idle call reply)
      (nothing : ∀ key op, call.operation = some (key, op) → t.handles key = none) :
      Stepped profile t call reply
        { t with nextChannelId := nextChannelId, gates := { t.gates with denied := denied } }

variable {profile : BuildProfile} {t t' : ChannelHandleTable K} {call : Call} {reply : Reply}

variable {boundary : BoundaryId} {r : Except SyscallError Nat × ChannelHandleTable K}

private theorem stepped_openChannel {capacity maxMessageBytes : Nat}
    (h : t.openChannel profile boundary capacity maxMessageBytes = some r) :
    Stepped profile t (.openChannel boundary capacity maxMessageBytes) (.number r.1) r.2 := by
  rw [ChannelHandleTable.openChannel] at h
  split at h
  · cases h
    exact .idle trivial (by rintro _ _ ⟨⟩)
  · obtain ⟨made, hmade, hrest⟩ := bind_eq_some_iff.mp h
    obtain ⟨nextId, -, rfl⟩ := map_eq_some_iff.mp hmade
    obtain ⟨r', hregister, rfl⟩ := map_eq_some_iff.mp hrest
    obtain ⟨next, hnext, rfl⟩ := ChannelHandleTable.register_eq_some hregister
    exact .opened ⟨_, _, rfl⟩ hnext

private theorem stepped_acceptChannel {target : BoundaryId} {id : Nat}
    (h : t.acceptChannel profile target id = some r) :
    Stepped profile t (.acceptChannel target id) (.number r.1) r.2 := by
  obtain ⟨made, hmade, hrest⟩ := bind_eq_some_iff.mp h
  have hstep : Handshake.step profile (.accept id target) t.registry =
    some (.accepted made.1, made.2) := by
    rw [Handshake.step, hmade]
    rfl
  obtain ⟨answer, registry⟩ := made
  cases Handshake.stepped_of_step hstep with
  | accept aimed =>
    obtain ⟨first, hfirst, hrest⟩ := bind_eq_some_iff.mp hrest
    obtain ⟨second, hsecond, rfl⟩ := map_eq_some_iff.mp hrest
    obtain ⟨next, hnext, rfl⟩ := ChannelHandleTable.register_eq_some hfirst
    obtain ⟨next', hnext', rfl⟩ := ChannelHandleTable.register_eq_some hsecond
    exact .accepted aimed ⟨_, _, rfl⟩ hnext hnext'
  | acceptNone =>
    cases hrest
    exact .idle trivial (by rintro _ _ ⟨⟩)

private theorem stepped_gateConnect {requester : BoundaryId} {gate : GateId}
    (h : t.gateConnect profile requester gate = some r) :
    Stepped profile t (.gateConnect requester gate) (.number r.1) r.2 := by
  obtain ⟨nextChannelId, -, hrest⟩ := bind_eq_some_iff.mp h
  split at hrest
  · rename_i link gates channels hconnect
    obtain ⟨owner, queue, terms, -, hbound, rfl, rfl, rfl⟩ := GateRegistry.connect_eq_ok hconnect
    obtain ⟨r', hregister, rfl⟩ := map_eq_some_iff.mp hrest
    obtain ⟨next, hnext, rfl⟩ := ChannelHandleTable.register_eq_some hregister
    exact .connected hbound ⟨_, _, rfl⟩ hnext
  all_goals
    cases hrest
    exact .idle trivial (by rintro _ _ ⟨⟩)

private theorem stepped_gateAccept {owner : BoundaryId} {gate : GateId}
    (h : t.gateAccept profile owner gate = some r) :
    Stepped profile t (.gateAccept owner gate) (.number r.1) r.2 := by
  rw [ChannelHandleTable.gateAccept] at h
  split at h
  · rename_i link requester gates haccept
    obtain ⟨p, queue, hbound, hgot, rfl⟩ := GateRegistry.accept_eq_ok haccept
    obtain ⟨r', hregister, rfl⟩ := map_eq_some_iff.mp h
    obtain ⟨next, hnext, rfl⟩ := ChannelHandleTable.register_eq_some hregister
    cases hgot
    exact .linked hbound hnext
  all_goals
    cases h
    exact .idle trivial (by rintro _ _ ⟨⟩)

private theorem stepped_operation {key : BoundaryId × Nat} {op : Queue.Op}
    (asks : call.operation = some (key, op)) (quiet : Idle call reply)
    (out : (reply, t') = (t.handles key).elim (reply, t) fun ch =>
      (answer (t.channels.perform ch op).1, { t with channels := (t.channels.perform ch op).2 })) :
    Stepped profile t call reply t' := by
  rcases hkey : t.handles key with _ | ch
  · rw [hkey] at out
    cases out
    refine .idle quiet fun key' op' hop => ?_
    rw [asks] at hop
    cases hop
    exact hkey
  · rw [hkey] at out
    cases out
    exact .operated asks hkey

theorem stepped_of_step (h : step profile call t = some (reply, t')) : Stepped profile t call reply t' := by
  cases call with
  | openChannel boundary capacity maxMessageBytes =>
    obtain ⟨r, hr, hout⟩ := map_eq_some_iff.mp h
    cases hout
    exact stepped_openChannel hr
  | channelSend boundary handle lane data | channelRecv boundary handle lane | linkClose boundary handle =>
    cases h
    refine stepped_operation rfl trivial ?_
    simp only [ChannelHandleTable.resolve]
    rcases t.handles (boundary, handle) with _ | ch <;> rfl
  | linkSend boundary handle lane data | linkRecv boundary handle lane =>
    refine stepped_operation rfl trivial ?_
    revert h
    simp only [step, ChannelHandleTable.linkSend, ChannelHandleTable.linkRecv,
      ChannelHandleTable.resolve,
      ChannelHandleTable.resolveRemote, ChannelHandleTable.sendOn, ChannelHandleTable.recvOn]
    rcases t.handles (boundary, handle) with _ | ch
    · rcases t.remoteLinks (boundary, handle) with _ | link <;> rintro ⟨⟩ <;> rfl
    · rintro ⟨⟩
      rfl
  | requestChannel requester target terms =>
    obtain ⟨r, hr, hout⟩ := map_eq_some_iff.mp h
    obtain ⟨made, hmade, rfl⟩ := map_eq_some_iff.mp hr
    obtain ⟨next, -, rfl⟩ := map_eq_some_iff.mp hmade
    cases hout
    exact .requested
  | pollChannelRequest target out | gateProbe boundary gate =>
    cases h
    exact .idle trivial (by rintro _ _ ⟨⟩)
  | acceptChannel target id =>
    obtain ⟨r, hr, hout⟩ := map_eq_some_iff.mp h
    cases hout
    exact stepped_acceptChannel hr
  | rejectChannel target id =>
    cases h
    change Stepped profile t _ (.done (t.rejectChannel target id).1) (t.rejectChannel target id).2
    rw [ChannelHandleTable.rejectChannel, ChannelRegistry.reject]
    by_cases haimed : ∃ req, t.registry.Aimed id target req
    · obtain ⟨req, haimed⟩ := haimed
      rw [ChannelRegistry.remove_of_aimed haimed]
      exact .rejected haimed
    · rw [ChannelRegistry.remove_of_not_aimed (not_exists.mp haimed)]
      exact .idle trivial (by rintro _ _ ⟨⟩)
  | pollChannelOutcome requester id =>
    cases h
    change Stepped profile t _ (.number (t.pollChannelOutcome requester id).1)
      (t.pollChannelOutcome requester id).2
    rw [ChannelHandleTable.pollChannelOutcome]
    split
    · rename_i boundary handle houtcome
      split
      · rename_i hsame
        subst hsame
        exact .collected houtcome
      · exact .idle trivial (by rintro _ _ ⟨⟩)
    · exact .idle trivial (by rintro _ _ ⟨⟩)
  | gateBind owner gate =>
    cases h
    change Stepped profile t _ (.number (t.gateBind owner gate).1) (t.gateBind owner gate).2
    rw [ChannelHandleTable.gateBind]
    split
    · rename_i gates hbind
      obtain ⟨-, hfree, rfl⟩ := GateRegistry.bind_eq_ok.mp hbind
      exact .bound hfree
    all_goals exact .idle trivial (by rintro _ _ ⟨⟩)
  | gateConnect requester gate =>
    obtain ⟨r, hr, hout⟩ := map_eq_some_iff.mp h
    cases hout
    exact stepped_gateConnect hr
  | gateAccept owner gate =>
    obtain ⟨r, hr, hout⟩ := map_eq_some_iff.mp h
    cases hout
    exact stepped_gateAccept hr
  | wardenSet boundary gate allow =>
    cases h
    rw [ChannelHandleTable.wardenSet]
    cases allow with
    | true | false => exact .idle trivial (by rintro _ _ ⟨⟩)

end

end CibosPlatform.KernelImage.Table

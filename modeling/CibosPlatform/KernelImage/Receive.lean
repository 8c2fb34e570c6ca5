/- source: cibos-kernel/src/syscall.rs, kernel-image/src/boot.rs
   digest: What a receive call takes from a channel or the card, against what reaches the caller. -/

import CibosPlatform.KernelImage.Environment

namespace CibosPlatform.KernelImage.Receive

open Core Interaction Core.Interaction.Ask LittleEndian MachineWord Option
open Core.Program (Outcome)
open Kernel.Channel
open Kernel.Channel.Queue (Receives tryRecv_receives)
open Kernel.Syscall.Dispatch Environment Table Shared Error Ipc RemoteLink
open UdpTransport (Frames NetDevice World loopbackHost)
open Shared.SyscallAbi

private theorem writeRam_inside (ram : Ram) (ptr : Word) (bytes : List Byte) {i : Nat}
    (h : i < bytes.length) :
    writeRam ram ptr bytes (ptr.toNat + i) = bytes[i] := by
  rw [writeRam, if_pos (Nat.le_add_right _ _), Nat.add_sub_cancel_left, List.getElem?_eq_getElem h]
  rfl

section

variable {K : Type}

/-- The messages in the channel behind a handle of a boundary; without a channel there are none. -/
def queued (boundary : BoundaryId) (handle : Nat) (t : ChannelHandleTable K) : List Message :=
  match t.resolve boundary handle with
  | some ch => (t.channels.inner ch).state.messages
  | none => []

end

section

variable {K δ : Type}

variable (req : SyscallRequest)

abbrev waiting (t : ChannelHandleTable K) : List Message :=
  queued req.boundary req.arg0.toNat t

def remoteOf (t : ChannelHandleTable K) : Option Link :=
  match t.resolve req.boundary req.arg0.toNat with
  | some _ => none
  | none => t.resolveRemote req.boundary req.arg0.toNat

/-- The network with a log of the frames that the card has delivered. -/
abbrev Net (δ : Type) := World (δ × Frames)

/-- What has been taken, in order, from the channel or from the datagrams for the link. -/
def Removed (t : ChannelHandleTable K) (net : Net δ) (t' : ChannelHandleTable K)
    (net' : Net δ) (msgs : List Message) : Prop :=
  match remoteOf req t with
  | none => waiting req t = msgs ++ waiting req t'
  | some link => ∃ frames, delivered net' = delivered net ++ frames ∧
      frames.filterMap (link.payloadIn net) = msgs

def Fits (msg : Message) : Prop :=
  msg.length ≤ req.arg2.toNat ∧ req.arg1 ≠ 0 ∧ req.arg1.toNat + msg.length < wordBound

def polled (dev : NetDevice δ) (link : Link) (net : Net δ) : Frames :=
  (delivered (link.recv (logged dev) remoteRoom net).2).drop (delivered net).length

/-- A datagram for the link among those frames is in the first and fits the buffer: further frames are
taken only when the first is an echo request, and are dropped. -/
def FirstFits (dev : NetDevice δ) (req : SyscallRequest) (link : Link) (net : Net δ) : Prop :=
  ∀ i frame msg, (polled dev link net)[i]? = some frame → link.payloadIn net frame = some msg →
    i = 0 ∧ Fits req msg

structure Ready (dev : NetDevice δ) (req : SyscallRequest) (t : ChannelHandleTable K)
    (net : Net δ) : Prop where
  channel : ∀ msg rest, waiting req t = msg :: rest → Fits req msg
  remote : Syscall.fromNumber req.number = some .linkRecv → ∀ link, remoteOf req t = some link →
    FirstFits dev req link net

inductive Answered (dev : NetDevice δ) (req : SyscallRequest) (t : ChannelHandleTable K)
    (net : Net δ) :
    Except SyscallError Message × ChannelHandleTable K × Net δ → Prop
  | failed {e : SyscallError} {msgs : List Message} {t' : ChannelHandleTable K} {net' : Net δ}
      (removed : Removed req t net t' net' msgs) (ready : Ready dev req t net ↔ msgs = []) :
      Answered dev req t net (.error e, t', net')
  | message {msg : Message} {t' : ChannelHandleTable K} {net' : Net δ}
      (removed : Removed req t net t' net' [msg]) (ready : Ready dev req t net ↔ Fits req msg) :
      Answered dev req t net (.ok msg, t', net')

variable {dev : NetDevice δ} {req : SyscallRequest} {t t' : ChannelHandleTable K} {net net' : Net δ}

private theorem removed_nil : Removed req t net t net [] := by
  rw [Removed]
  split
  · rfl
  · exact ⟨[], (List.append_nil _).symm, rfl⟩

private theorem Removed.unique {msgs msgs' : List Message} (h : Removed req t net t' net' msgs)
    (h' : Removed req t net t' net' msgs') : msgs = msgs' := by
  rw [Removed] at h h'
  rcases hremote : remoteOf req t with _ | link
  · rw [hremote] at h h'
    exact List.append_cancel_right (h.symm.trans h')
  · rw [hremote] at h h'
    obtain ⟨frames, hframes, rfl⟩ := h
    obtain ⟨frames', hframes', rfl⟩ := h'
    rw [List.append_cancel_left (hframes.symm.trans hframes')]

private theorem remoteOf_of_waiting {msg : Message} {rest : List Message}
    (h : waiting req t = msg :: rest) :
    remoteOf req t = none := by
  rw [waiting, queued] at h
  rw [remoteOf]
  split at h
  · rfl
  · cases h

private theorem waiting_of_remote {link : Link} (h : remoteOf req t = some link) : waiting req t = [] := by
  rcases hwaiting : waiting req t with _ | ⟨msg, rest⟩
  · rfl
  · rw [remoteOf_of_waiting hwaiting] at h
    cases h

private theorem removed_of_local {msgs : List Message} (here : remoteOf req t = none)
    (h : waiting req t = msgs ++ waiting req t') : Removed req t net t' net' msgs := by
  rw [Removed, here]
  exact h

private theorem ready_of_channel (here : Syscall.fromNumber req.number = some .linkRecv →
    remoteOf req t = none)
    (fits : ∀ msg rest, waiting req t = msg :: rest → Fits req msg) : Ready dev req t net := by
  refine ⟨fits, fun hcall link hlink => ?_⟩
  rw [here hcall] at hlink
  cases hlink

private theorem recvOn_answered [KernelInterface K] (lane : LaneId)
    (here : Syscall.fromNumber req.number = some .linkRecv → remoteOf req t = none) :
    Answered dev req t net
      ((t.recvOn req.boundary req.arg0.toNat lane).map id fun t' => (t', net)) := by
  unfold ChannelHandleTable.recvOn
  cases hresolve : t.resolve req.boundary req.arg0.toNat with
  | none =>
    have hnone : waiting req t = [] := by simp [queued, hresolve]
    exact .failed removed_nil (iff_of_true (ready_of_channel here (by simp [hnone])) rfl)
  | some ch =>
    have hlocal : remoteOf req t = none := by rw [remoteOf, hresolve]
    have hbefore : waiting req t = (t.channels.inner ch).state.messages := by
      simp [queued, hresolve]
    have hafter : ∀ c fresh (kernel : K), waiting req
        { t with channels := ⟨Function.update t.channels.inner ch c, fresh, kernel⟩ } =
        c.state.messages := by
      intro c fresh kernel
      have hsame : ({ t with channels := ⟨Function.update t.channels.inner ch c, fresh, kernel⟩ } :
          ChannelHandleTable K).resolve req.boundary req.arg0.toNat = some ch := hresolve
      simp [queued, hsame]
    simp only [Sharing.Channels.tryRecv, Sharing.Channels.act]
    have hreceives := tryRecv_receives lane ⟨t.channels.inner ch, t.channels.kernel⟩
    generalize Queue.tryRecv lane ⟨t.channels.inner ch, t.channels.kernel⟩ = received at hreceives
    cases hreceives with
    | @message msg rest first =>
      simp only at first
      refine .message ?_ ⟨fun h => h.channel _ _ (hbefore.trans first), fun hfits =>
        ready_of_channel here fun msg' rest' hmsg => ?_⟩
      · refine removed_of_local hlocal ?_
        simp [hbefore, hafter, Queue.ChannelInner.pop, first]
      · cases (hbefore.trans first).symm.trans hmsg
        exact hfits
    | empty none isOpen | closed none shut =>
      have hempty := hbefore.trans none
      refine .failed (removed_of_local hlocal (show _ = [] ++ _ from ?_))
        (iff_of_true (ready_of_channel here (by simp [hempty])) rfl)
      rw [hafter]
      exact hbefore

private theorem remoteRecv_eq {link : Link} {r : Except SyscallError Message × Net δ}
    (h : remoteRecv (logged dev) link net = some r) :
    r.2 = (link.recv (logged dev) remoteRoom net).2 ∧
      ((∃ msg, r.1 = .ok msg ∧ received (link.recv (logged dev) remoteRoom net).1 = [msg]) ∨
        ∃ e, r.1 = .error e ∧ received (link.recv (logged dev) remoteRoom net).1 = []) := by
  revert h
  rw [remoteRecv]
  rcases link.recv (logged dev) remoteRoom net with ⟨⟨_ | len, buf⟩ | e | _, after⟩
  · rintro ⟨⟩
    exact ⟨rfl, .inr ⟨_, rfl, rfl⟩⟩
  · rintro ⟨⟩
    exact ⟨rfl, .inl ⟨_, rfl, rfl⟩⟩
  · rintro ⟨⟩
    exact ⟨rfl, .inr ⟨_, rfl, rfl⟩⟩
  · rintro ⟨⟩

section

variable {link : Link} (call : Syscall.fromNumber req.number = some .linkRecv)
  (there : remoteOf req t = some link)

include call there

private theorem ready_iff_firstFits : Ready dev req t net ↔ FirstFits dev req link net := by
  constructor
  · intro h
    exact h.remote call link there
  · intro h
    refine ⟨fun msg rest hmsg => ?_, fun _ link' hlink => ?_⟩
    · cases (waiting_of_remote there).symm.trans hmsg
    · cases there.symm.trans hlink
      exact h

private theorem answered_of_remote {r : Except SyscallError Message × Net δ}
    (h : remoteRecv (logged dev) link net = some r) : Answered dev req t net (r.1, t, r.2) := by
  obtain ⟨hnet, hresult⟩ := remoteRecv_eq h
  have hroom : UdpTransport.ipRoom ≤ remoteRoom.length := (List.length_replicate ..).ge
  obtain ⟨frames, htaken, hframes⟩ := recv_takes link hroom net
  have hpolled : polled dev link net = frames := by rw [polled, htaken, List.drop_left]
  have hremoved : Removed req t net t r.2 (frames.filterMap (link.payloadIn net)) := by
    rw [Removed, there]
    exact ⟨frames, by rw [hnet, htaken], rfl⟩
  rcases hframes with ⟨msg, hreceived, hmap⟩ | ⟨hreceived, hhead⟩
  · obtain ⟨frame, rfl, hpayload⟩ : ∃ frame, frames = [frame] ∧
      link.payloadIn net frame = some msg := by
      simpa using hmap
    obtain ⟨answer, hanswer, hsame⟩ | ⟨e, -, hnone⟩ := hresult
    · cases hsame.symm.trans hreceived
      rw [List.filterMap_cons, hpayload] at hremoved
      rw [hanswer]
      refine .message hremoved ((ready_iff_firstFits call there).trans ?_)
      rw [FirstFits, hpolled]
      constructor
      · intro h
        exact (h 0 frame msg rfl hpayload).2
      · rintro hfits (_ | i) frame' msg' ⟨⟩ hpayload'
        cases hpayload.symm.trans hpayload'
        exact ⟨rfl, hfits⟩
    · cases hnone.symm.trans hreceived
  · obtain ⟨answer, -, hsame⟩ | ⟨e, he, -⟩ := hresult
    · cases hsame.symm.trans hreceived
    · rw [he]
      refine .failed hremoved ((ready_iff_firstFits call there).trans ?_)
      rw [FirstFits, hpolled, List.filterMap_eq_nil_iff]
      constructor
      · intro hfits frame hframe
        by_contra hsome
        obtain ⟨msg, hmsg⟩ := Option.ne_none_iff_exists'.mp hsome
        obtain ⟨i, hi⟩ := List.mem_iff_getElem?.mp hframe
        obtain ⟨rfl, -⟩ := hfits i frame msg hi hmsg
        exact hsome (hhead frame (List.head?_eq_getElem? ▸ hi))
      · intro hnone i frame msg hframe hmsg
        rw [hnone frame (List.mem_of_getElem? hframe)] at hmsg
        cases hmsg

end

end

section

variable {K δ ρ : Type} [KernelInterface K] {dev : NetDevice δ} {build : BuildProfile}
  {lane : LaneId}
  {services : Env EnvCall Answer ρ} {ram : Ram} {t : ChannelHandleTable K} {net : Net δ} {s : ρ}
  {req : SyscallRequest}
  {r : Ended EnvCall Answer SyscallError SyscallOutcome (Ram × ChannelHandleTable K × Net δ × ρ)}

/-- How a receive can end: what it answers, and the user memory, the table and the network it leaves. -/
inductive Received (dev : NetDevice δ) (req : SyscallRequest) (ram : Ram) (t : ChannelHandleTable K)
    (net : Net δ) :
    Outcome SyscallError SyscallOutcome → Ram → ChannelHandleTable K → Net δ → Prop
  | refused {e : SyscallError} (call : Syscall.fromNumber req.number = some .channelRecv)
      (large : maxFsIoLen < req.arg2.toNat) : Received dev req ram t net (.err e) ram t net
  | failed {e : SyscallError} {msgs : List Message} {t' : ChannelHandleTable K} {net' : Net δ}
      (removed : Removed req t net t' net' msgs) (ready : Ready dev req t net ↔ msgs = [])
      (small : Syscall.fromNumber req.number = some .channelRecv → req.arg2.toNat ≤ maxFsIoLen) :
      Received dev req ram t net (.err e) ram t' net'
  | cut {value : Int} {msg : Message} {t' : ChannelHandleTable K} {net' : Net δ} {ram' : Ram}
      (removed : Removed req t net t' net' [msg]) (ready : Ready dev req t net ↔ Fits req msg)
      (small : req.arg2.toNat ≤ maxFsIoLen) (short : req.arg2.toNat < msg.length)
      (nonneg : 0 ≤ value) :
      Received dev req ram t net (.ok (.ret value)) ram' t' net'
  | delivered {value : Int} {msg : Message} {t' : ChannelHandleTable K} {net' : Net δ}
      (removed : Removed req t net t' net' [msg]) (ready : Ready dev req t net)
      (fits : Fits req msg)
      (nonneg : 0 ≤ value) : Received dev req ram t net (.ok (.ret value))
      (writeRam ram req.arg1 msg) t' net'

omit [KernelInterface K] in
private theorem Received.lost {e : SyscallError} {msg : Message} {t' : ChannelHandleTable K} {net' : Net δ}
    (removed : Removed req t net t' net' [msg]) (ready : Ready dev req t net ↔ Fits req msg)
    (small : Syscall.fromNumber req.number = some .channelRecv → req.arg2.toNat ≤ maxFsIoLen)
    (misfit : ¬ Fits req msg) : Received dev req ram t net (.err e) ram t' net' :=
  .failed removed (iff_of_false (mt ready.mp misfit) (List.cons_ne_nil _ _)) small

private theorem copied {bytes : List Byte} {value : Int}
    (ran : (ask (.copyToUser req.boundary req.arg1 bytes) fun r =>
      orFail (r.map fun _ => SyscallOutcome.ret value)).run
      (kernelSyscallEnv (logged dev) build lane services) (ram, t, net, s) = some r) :
    (∃ e, refusal req.arg1 bytes.length = some e ∧ r.outcome = .err e ∧
      r.state = (ram, t, net, s)) ∨
      (refusal req.arg1 bytes.length = none ∧ r.outcome = .ok (.ret value) ∧
        r.state = (writeRam ram req.arg1 bytes, t, net, s)) := by
  obtain ⟨answer, rest, hanswer, hran, rfl⟩ := run_ask ran
  cases hanswer
  simp only [copyToUser] at hran
  cases hrefusal : refusal req.arg1 bytes.length with
  | none =>
    rw [hrefusal] at hran
    cases hran
    exact .inr ⟨rfl, rfl, rfl⟩
  | some e =>
    rw [hrefusal] at hran
    cases hran
    exact .inl ⟨e, rfl, rfl, rfl⟩

private theorem misfit_of_refusal {msg : Message} {e : SyscallError}
    (h : refusal req.arg1 msg.length = some e) :
    ¬ Fits req msg := by
  intro hfits
  rw [refusal_eq_none.mpr hfits.2] at h
  cases h

private theorem channelRecv_received (call : Syscall.fromNumber req.number = some .channelRecv)
    (ran : (channelRecv req).run (kernelSyscallEnv (logged dev) build lane services)
      (ram, t, net, s) = some r) :
    Received dev req ram t net r.outcome r.state.1 r.state.2.1 r.state.2.2.1 := by
  simp only [channelRecv, run_rejectIf] at ran
  by_cases hlarge : maxFsIoLen < req.arg2.toNat
  · rw [if_pos hlarge] at ran
    cases ran
    exact .refused call hlarge
  · rw [if_neg hlarge] at ran
    have hsmall := not_lt.mp hlarge
    obtain ⟨answer, rest, hanswer, hran, rfl⟩ := run_ask ran
    cases hanswer
    have hanswered : Answered dev req t net _ := recvOn_answered lane (by simp [call])
    simp only [ChannelHandleTable.channelRecv] at hran
    generalize t.recvOn req.boundary req.arg0.toNat lane = received at hanswered hran
    obtain ⟨received, t'⟩ := received
    cases hanswered with
    | failed removed ready =>
      cases hran
      exact .failed removed ready fun _ => hsmall
    | @message msg _ _ removed ready =>
      have hnonneg : 0 ≤ lengthReturn (min msg.length req.arg2.toNat) := by
        rw [lengthReturn_eq (by simp only [maxFsIoLen] at hsmall; omega)]
        exact Int.natCast_nonneg _
      by_cases hshort : req.arg2.toNat < msg.length
      · rcases copied hran with ⟨e, -, houtcome, hstate⟩ | ⟨-, houtcome, hstate⟩
        · simp only [houtcome, hstate]
          exact .lost removed ready (fun _ => hsmall) fun hfits =>
            absurd hfits.1 (not_le.mpr hshort)
        · simp only [houtcome, hstate]
          exact .cut removed ready hsmall hshort hnonneg
      · have hwhole : msg.take (min msg.length req.arg2.toNat) = msg := by
          rw [List.take_eq_self_iff]
          omega
        rcases copied hran with ⟨e, hrefusal, houtcome, hstate⟩ | ⟨hrefusal, houtcome, hstate⟩
        · rw [hwhole] at hrefusal
          simp only [houtcome, hstate]
          exact .lost removed ready (fun _ => hsmall) (misfit_of_refusal hrefusal)
        · rw [hwhole] at hrefusal hstate
          have hfits : Fits req msg := ⟨not_lt.mp hshort, refusal_eq_none.mp hrefusal⟩
          simp only [houtcome, hstate]
          exact .delivered removed (ready.mpr hfits) hfits hnonneg

private theorem linkRecv_answered (call : Syscall.fromNumber req.number = some .linkRecv)
    {r : Except SyscallError Message × ChannelHandleTable K × Net δ}
    (h : t.linkRecv req.boundary (logged dev) req.arg0.toNat lane net = some r) :
    Answered dev req t net r := by
  rw [ChannelHandleTable.linkRecv] at h
  split at h
  · rename_i link hlocal hremote
    obtain ⟨answer, hanswer, rfl⟩ := map_eq_some_iff.mp h
    exact answered_of_remote call (by rw [remoteOf, hlocal]; exact hremote) hanswer
  · rename_i hother
    cases h
    refine recvOn_answered lane fun _ => ?_
    rw [remoteOf]
    split
    · rfl
    · rename_i hlocal
      exact eq_none_iff_forall_ne_some.mpr fun link hlink => hother link hlocal hlink

private theorem linkRecv_received (call : Syscall.fromNumber req.number = some .linkRecv)
    (ran : (linkRecv req).run (kernelSyscallEnv (logged dev) build lane services) (ram, t, net, s) =
      some r) :
    Received dev req ram t net r.outcome r.state.1 r.state.2.1 r.state.2.2.1 := by
  have hother : Syscall.fromNumber req.number = some .channelRecv →
    req.arg2.toNat ≤ maxFsIoLen := by
    simp [call]
  obtain ⟨answer, rest, hanswer, hran, rfl⟩ := run_ask ran
  obtain ⟨received, hreceived, hsame⟩ := map_eq_some_iff.mp hanswer
  obtain ⟨⟨received, t', net'⟩, hlink, rfl⟩ := map_eq_some_iff.mp hreceived
  cases hsame
  cases linkRecv_answered call hlink with
  | failed removed ready =>
    cases hran
    exact .failed removed ready hother
  | @message msg _ _ removed ready =>
    change (rejectIf (req.arg2.toNat < msg.length) SyscallError.invalidArgument >>= _).run _ _ =
      _ at hran
    rw [run_rejectIf] at hran
    by_cases hshort : req.arg2.toNat < msg.length
    · rw [if_pos hshort] at hran
      cases hran
      exact .lost removed ready hother fun hfits => absurd hfits.1 (not_le.mpr hshort)
    · rw [if_neg hshort] at hran
      rcases copied hran with ⟨e, hrefusal, houtcome, hstate⟩ | ⟨hrefusal, houtcome, hstate⟩
      · simp only [houtcome, hstate]
        exact .lost removed ready hother (misfit_of_refusal hrefusal)
      · have hfits : Fits req msg := ⟨not_lt.mp hshort, refusal_eq_none.mp hrefusal⟩
        simp only [houtcome, hstate]
        exact .delivered removed (ready.mpr hfits) hfits (maskedReturn_nonneg _)

/-- A receive loses nothing: a failure takes no message, and a success hands one over whole. -/
def Lossless (req : SyscallRequest) (t : ChannelHandleTable K) (net : Net δ)
    (r : Ended EnvCall Answer SyscallError SyscallOutcome
      (Ram × ChannelHandleTable K × Net δ × ρ)) : Prop :=
  ∀ value, returned r.outcome = some (.ret value) →
    (value < 0 → Removed req t net r.state.2.1 r.state.2.2.1 []) ∧
    (0 ≤ value → ∃ msg, Removed req t net r.state.2.1 r.state.2.2.1 [msg] ∧
      msg.length ≤ req.arg2.toNat ∧
      ∀ i (h : i < msg.length), r.state.1 (req.arg1.toNat + i) = msg[i])

private theorem dispatch_received (call : Syscall.fromNumber req.number = some .channelRecv ∨
      Syscall.fromNumber req.number = some .linkRecv)
    (ran : (dispatch req).run (kernelSyscallEnv (logged dev) build lane services) (ram, t, net, s) =
      some r) :
    Received dev req ram t net r.outcome r.state.1 r.state.2.1 r.state.2.2.1 := by
  rcases call with hcall | hcall
  · rw [dispatch, hcall] at ran
    exact channelRecv_received hcall ran
  · rw [dispatch, hcall] at ran
    exact linkRecv_received hcall ran

omit [KernelInterface K] in
private theorem lossless_of_error {e : SyscallError} (failed : r.outcome = .err e) :
    Lossless req t net r ↔ Removed req t net r.state.2.1 r.state.2.2.1 [] := by
  have hvalue : returned r.outcome = some (.ret (asReturn e)) := by rw [failed]; rfl
  have hneg := asReturn_neg e
  constructor
  · intro h
    exact (h _ hvalue).1 hneg
  · intro hsame value hreturned
    rw [hvalue] at hreturned
    cases hreturned
    refine ⟨fun _ => hsame, fun hnonneg => ?_⟩
    omega

end

/-- Boundary 1 has a channel, handle 0, on which lane 5 has sent two bytes, and a remote link, handle 1. -/
def oneMessage : ChannelHandleTable Unit :=
  let opened := ((ChannelHandleTable.new ()).openChannel .dev 1 4 16).map Prod.snd
  let sent := ((opened.getD (.new ())).channelSend 1 0 5 [7, 8]).2
  ((sent.connectRemote .dev 1 loopbackHost.cfg.gateway 5000 53).map Prod.snd).getD sent

def oneFrame : Net Frames := ⟨some loopbackHost, some ([frameTo 53], []), []⟩

def laneSix : Env EnvCall Answer (Ram × ChannelHandleTable Unit × Net Frames × Unit) :=
  kernelSyscallEnv (logged (quietCard loopbackHost.cfg)) .dev 6 fun q s => some (defaultAnswer q, s)

abbrev Ran (req : SyscallRequest) (r : Ended EnvCall Answer SyscallError SyscallOutcome
      (Ram × ChannelHandleTable Unit × Net Frames × Unit)) : Prop :=
  (dispatch req).run laneSix (fun _ => 0, oneMessage, oneFrame, ()) = some r

/-- What a request of lane 6 returns, with the messages then waiting and the frames then delivered. -/
def asked (req : SyscallRequest) : Option (Option SyscallOutcome × List Message × Frames) :=
  ((dispatch req).run laneSix (fun _ => 0, oneMessage, oneFrame, ())).map fun r =>
    (returned r.outcome, waiting req r.state.2.1, delivered r.state.2.2.1)

private theorem exists_ran {req : SyscallRequest} {o : Option SyscallOutcome} {msgs : List Message}
    {frames : Frames} (h : asked req = some (o, msgs, frames)) :
    ∃ r, Ran req r ∧ returned r.outcome = o := by
  obtain ⟨r, hran, hr⟩ := map_eq_some_iff.mp h
  exact ⟨r, hran, congrArg Prod.fst hr⟩

private theorem oneFrame_fits : FirstFits (quietCard loopbackHost.cfg) ⟨27, 1, 4096, 16, 1⟩ firstLink
    oneFrame := by
  intro i frame msg hframe hmsg
  have hpolled : polled (quietCard loopbackHost.cfg) firstLink oneFrame = [frameTo 53] := by
    decide +kernel
  rw [hpolled] at hframe
  obtain ⟨rfl, rfl⟩ : i = 0 ∧ frameTo 53 = frame := by simpa [List.getElem?_singleton] using hframe
  have hpayload : firstLink.payloadIn oneFrame (frameTo 53) = some [7] := by decide +kernel
  cases hpayload.symm.trans hmsg
  exact ⟨rfl, by decide, by decide, by decide⟩

end CibosPlatform.KernelImage.Receive

/- source: kernel-image/src/net_stack.rs, cibos-kernel/src/net_device.rs
   digest: The datagram transport over a network card, and its round trip between two hosts. -/

import CibosPlatform.Core.Program
import CibosPlatform.Net.Packets

/-! The two locks of the source are not modelled: a call holds both from its first access to its return.
Frames handed to the card are recorded, sent or not. -/

namespace CibosPlatform.KernelImage.UdpTransport

open Core BigEndian LittleEndian Program Net.Packets Prog Arp
open List hiding Vector

abbrev Frames := List (List Byte)

inductive NetDeviceError where
  | linkDown
  | tooLarge
  | busy
  | deviceError

/-- A card with its driver. What is received fits the buffer it is received into. -/
structure NetDevice (δ : Type) where
  sendFrame : δ → List Byte → Except NetDeviceError Unit × δ
  recvFrame : δ → Nat → Except NetDeviceError (Option (List Byte)) × δ
  fits : ∀ nic room frame, (recvFrame nic room).1 = .ok (some frame) → frame.length ≤ room

structure NetConfig where
  mac : MacAddr
  ip : Ipv4Addr
  gateway : Ipv4Addr
  netmask : Vector Byte 4

structure NetStack where
  cfg : NetConfig
  arpCache : Arp.ArpCache

inductive TransportError where
  | noNic
  | unconfigured
  | arpTimeout
  | net (error : NetError)
  | device

/-- The kernel's network state, and the frames handed to the card so far. -/
structure World (δ : Type) where
  stack : Option NetStack
  nic : Option δ
  handed : Frames

structure Host (δ : Type) where
  stack : NetStack
  nic : δ
  handed : Frames

def frameRoom : Nat := 1514
def ipRoom : Nat := 1500
def udpRoom : Nat := 1480

def maxPayload : Nat := udpRoom - Udp.headerLen

def arpBudget : Nat := 2000000

def onLink (cfg : NetConfig) (dst : Ipv4Addr) : Bool :=
  (List.finRange 4).all fun i => dst.get i &&& cfg.netmask.get i = cfg.ip.get i &&&
    cfg.netmask.get i

def nextHop (cfg : NetConfig) (dst : Ipv4Addr) : Ipv4Addr :=
  if onLink cfg dst then dst else cfg.gateway

section

variable {δ : Type} (dev : NetDevice δ)

abbrev Op (δ α : Type) : Type := Prog (Host δ) TransportError α

def build {α : Type} (result : Except NetError α) : Op δ α := lift (Outcome.ofExcept .net result)

def sendFrame (frame : List Byte) : Prog (Host δ) NetDeviceError Unit := fun host =>
  let result := dev.sendFrame host.nic frame
  (Outcome.ofExcept id result.1, { host with nic := result.2, handed := host.handed ++ [frame] })

def recvFrame : Prog (Host δ) NetDeviceError (Option (List Byte)) := fun host =>
  let result := dev.recvFrame host.nic frameRoom
  (Outcome.ofExcept id result.1, { host with nic := result.2 })

def learn (ip : Ipv4Addr) (mac : MacAddr) : Op δ Unit :=
  update fun host =>
    { host with stack := { host.stack with arpCache := host.stack.arpCache.insert ip mac } }

def arpOf (frame : List Byte) : Option Arp.ArpPacket :=
  match Ethernet.parse frame with
  | .ok eth =>
    if eth.ethertype = ethertypeArp then (Arp.ArpPacket.parse eth.payload).toOption else none
  | .error _ => none

def awaitReply (ip : Ipv4Addr) : Nat → Op δ MacAddr
  | 0 => fail .arpTimeout
  | budget + 1 => do
    let received ← attempt (recvFrame dev)
    match (received.toOption.join).bind arpOf with
    | some packet =>
      if packet.oper = operReply then do
        learn packet.senderIp packet.senderMac
        (if packet.senderIp = ip then pure packet.senderMac else awaitReply ip budget)
      else awaitReply ip budget
    | none => awaitReply ip budget

def askLink (ip : Ipv4Addr) : Op δ MacAddr := do
  let cfg ← gets fun host => host.stack.cfg
  let arpBuf ← build ((request cfg.mac cfg.ip ip).build arpLen)
  let frame ← build (Ethernet.build (Ethernet.headerLen + arpLen) macBroadcast cfg.mac
    ethertypeArp arpBuf)
  mapErr .device (sendFrame dev frame)
  awaitReply dev ip arpBudget

def resolve (ip : Ipv4Addr) : Op δ MacAddr := do
  match ← gets fun host => host.stack.arpCache.lookup ip with
  | some mac => pure mac
  | none => askLink dev ip

def transmit (cfg : NetConfig) (dstMac : MacAddr) (dstIp : Ipv4Addr) (dstPort srcPort : Port)
    (payload : List Byte) : Op δ Nat := do
  let udp ← build (Udp.build udpRoom cfg.ip dstIp srcPort dstPort payload)
  let ip ← build (Ipv4.build ipRoom cfg.ip dstIp protoUdp 64 0 udp)
  let frame ← build (Ethernet.build frameRoom dstMac cfg.mac ethertypeIpv4 ip)
  mapErr .device (sendFrame dev frame)
  pure payload.length

def sendDatagram (dstIp : Ipv4Addr) (dstPort srcPort : Port) (payload : List Byte) : Op δ Nat := do
  let cfg ← gets fun host => host.stack.cfg
  let dstMac ← resolve dev (nextHop cfg dstIp)
  transmit dev cfg dstMac dstIp dstPort srcPort payload

def answerArp (packet : Arp.ArpPacket) : Op δ Unit := do
  let cfg ← gets fun host => host.stack.cfg
  (if packet.oper = operRequest ∧ packet.targetIp = cfg.ip then do
    match (reply packet cfg.mac cfg.ip).build arpLen with
    | .error _ => pure ()
    | .ok arpBuf =>
      match Ethernet.build (Ethernet.headerLen + arpLen) packet.senderMac cfg.mac ethertypeArp
        arpBuf with
      | .error _ => pure ()
      | .ok frame => do
        let _ ← attempt (sendFrame dev frame)
        pure ()
  else pure ())
  learn packet.senderIp packet.senderMac

/-- Answer an echo request; whatever fails on the way, nothing is reported. -/
def answerEcho (src : Ipv4Addr) (echo : Icmp.IcmpEcho) : Op δ Unit := do
  let cfg ← gets fun host => host.stack.cfg
  match Icmp.echoReply udpRoom echo.id echo.seq echo.payload with
  | .error _ => pure ()
  | .ok icmp =>
    match Ipv4.build ipRoom cfg.ip src protoIcmp 64 0 icmp with
    | .error _ => pure ()
    | .ok ip => do
      match ← attempt (resolve dev src) with
      | .error _ => pure ()
      | .ok mac =>
        match Ethernet.build frameRoom mac cfg.mac ethertypeIpv4 ip with
        | .error _ => pure ()
        | .ok frame => do
          let _ ← attempt (sendFrame dev frame)
          pure ()

abbrev Polled := Option (Ipv4Addr × Port × Nat) × List Byte

variable (port : Port)

def handlePacket (out : List Byte) (packet : Ipv4.Ipv4Packet) : Op δ Polled :=
  if packet.protocol = protoUdp then
    match Udp.parse packet.payload packet.src packet.dst with
    | .error _ => pure (none, out)
    | .ok datagram =>
      if datagram.dstPort = port then
        let n := min datagram.payload.length out.length
        pure (some (packet.src, datagram.srcPort, n), splice out 0 (datagram.payload.take n))
      else pure (none, out)
  else if packet.protocol = protoIcmp then
    match Icmp.parse packet.payload with
    | .error _ => pure (none, out)
    | .ok echo => do
      (if echo.isReply then pure () else answerEcho dev packet.src echo)
      pure (none, out)
  else pure (none, out)

def handleFrame (out frame : List Byte) : Op δ Polled :=
  match Ethernet.parse frame with
  | .error _ => pure (none, out)
  | .ok eth =>
    if eth.ethertype = ethertypeArp then
      match Arp.ArpPacket.parse eth.payload with
      | .error _ => pure (none, out)
      | .ok packet => do
        answerArp dev packet
        pure (none, out)
    else if eth.ethertype = ethertypeIpv4 then
      match Ipv4.parse eth.payload with
      | .error _ => pure (none, out)
      | .ok packet => do
        let cfg ← gets fun host => host.stack.cfg
        if packet.dst ≠ cfg.ip ∧ packet.dst ≠ ipBroadcast then pure (none, out)
        else handlePacket dev port out packet
    else pure (none, out)

def pollFrame (out : List Byte) : Op δ Polled := do
  match ← mapErr .device (recvFrame dev) with
  | none => pure (none, out)
  | some frame => handleFrame dev port out frame

def withNic {α : Type} (op : Op δ α) : Prog (World δ) TransportError α := fun world =>
  match world.stack with
  | none => (.err .unconfigured, world)
  | some stack =>
    match world.nic with
    | none => (.err .noNic, world)
    | some nic =>
      let result := op ⟨stack, nic, world.handed⟩
      (result.1, ⟨some result.2.stack, some result.2.nic, result.2.handed⟩)

def udpSendTo (dstIp : Ipv4Addr) (dstPort srcPort : Port) (payload : List Byte) :
    Prog (World δ) TransportError Nat :=
  withNic (sendDatagram dev dstIp dstPort srcPort payload)

def pollUdp (out : List Byte) : Prog (World δ) TransportError Polled :=
  withNic (pollFrame dev port out)

end

/-- The question that `resolve` puts on the link; nothing of a datagram is in it. -/
def requestFrame (cfg : NetConfig) (ip : Ipv4Addr) : List Byte :=
  macBroadcast.toList ++ cfg.mac.toList ++ toBE 2 ethertypeArp ++ (request cfg.mac cfg.ip ip).bytes

variable {payload : List Byte} {handed : Frames}

section

variable {δ : Type} (dev : NetDevice δ)

def Quiet (cfg : NetConfig) (handed : Frames) (host : Host δ) : Prop :=
  host.stack.cfg = cfg ∧ host.handed = handed

theorem build_ok {α : Type} {result : Except NetError α} {a : α} (built : result = .ok a)
    (host : Host δ) : build result host = (.ok a, host) := by
  rw [built]
  rfl

theorem recvFrame_total : Prog.Total (recvFrame dev) := by
  intro host
  exact Outcome.ofExcept_ne_panic id _

variable (ip : Ipv4Addr)

theorem awaitReply_total (budget : Nat) : Prog.Total (awaitReply dev ip budget) := by
  induction budget with
  | zero => exact .fail _
  | succ budget ih =>
    refine (Prog.Total.attempt (recvFrame_total dev)).bind fun received => ?_
    split
    · split
      · refine (Prog.Total.update _).bind fun _ => ?_
        split
        · exact .pure _
        · exact ih
      · exact ih
    · exact ih

theorem awaitReply_keeps {P : Host δ → Prop} (recv : Prog.Keeps P (recvFrame dev))
    (learns : ∀ ip mac, Prog.Keeps P (learn ip mac : Op δ Unit)) (budget : Nat) :
    Prog.Keeps P (awaitReply dev ip budget) := by
  induction budget with
  | zero => exact .fail _
  | succ budget ih =>
    refine (Prog.Keeps.attempt recv).bind fun received => ?_
    split
    · split
      · refine (learns _ _).bind fun _ => ?_
        split
        · exact .pure _
        · exact ih
      · exact ih
    · exact ih

theorem awaitReply_quiet {cfg : NetConfig}
    (budget : Nat) : Prog.Keeps (Quiet cfg handed) (awaitReply dev ip budget) :=
  awaitReply_keeps dev ip (fun _ quiet => quiet) (fun _ _ => .update fun _ quiet => quiet) budget

theorem sendFrame_total (frame : List Byte) : Prog.Total (sendFrame dev frame) := by
  intro host
  exact Outcome.ofExcept_ne_panic id _

theorem sendFrame_quiet (frame : List Byte) (host : Host δ) :
    Quiet host.stack.cfg (host.handed ++ [frame])
      (mapErr TransportError.device (sendFrame dev frame) host).2 := by
  rw [mapErr_state]
  exact ⟨rfl, rfl⟩

theorem answerArp_keeps {P : Host δ → Prop} (packet : Arp.ArpPacket)
    (send : ∀ room dst mac payload frame,
      Ethernet.build room dst mac ethertypeArp payload = .ok frame →
        Prog.Keeps P (sendFrame dev frame))
    (learns : ∀ ip mac, Prog.Keeps P (learn ip mac : Op δ Unit)) :
    Prog.Keeps P (answerArp dev packet) := by
  refine Prog.Keeps.bind (fun _ h => h) fun own => Prog.Keeps.bind ?_ fun _ => learns _ _
  split
  · split
    · exact .pure _
    · split
      · exact .pure _
      · rename_i frame hframe
        exact (Prog.Keeps.attempt (send _ _ _ _ frame hframe)).bind fun _ => .pure _
  · exact .pure _

variable (host : Host δ)

theorem askLink_eq : askLink dev ip host =
      (mapErr .device (sendFrame dev (requestFrame host.stack.cfg ip)) >>= fun _ =>
        awaitReply dev ip arpBudget) host := by
  have hpacket : (request host.stack.cfg.mac host.stack.cfg.ip ip).build arpLen =
      .ok (request host.stack.cfg.mac host.stack.cfg.ip ip).bytes := by
    rw [Arp.ArpPacket.build, if_neg (lt_irrefl _)]
  have hframe : Ethernet.build (Ethernet.headerLen + arpLen) macBroadcast host.stack.cfg.mac
      ethertypeArp (request host.stack.cfg.mac host.stack.cfg.ip ip).bytes =
        .ok (requestFrame host.stack.cfg ip) := by
    rw [Ethernet.build, Arp.ArpPacket.bytes_length, if_neg (lt_irrefl _), requestFrame]
  rw [askLink, bind_ok (gets_run _ host), bind_ok (build_ok hpacket host),
    bind_ok (build_ok hframe host)]

theorem askLink_spec : (askLink dev ip host).1 ≠ .panic ∧ Quiet host.stack.cfg
      (host.handed ++ [requestFrame host.stack.cfg ip]) (askLink dev ip host).2 := by
  rw [askLink_eq]
  constructor
  · exact ((sendFrame_total dev _).mapErr _).bind (fun _ => awaitReply_total dev ip arpBudget) host
  · exact Prog.Keeps.after (sendFrame_quiet dev _ host) fun _ => awaitReply_quiet dev ip arpBudget

theorem resolve_spec : (resolve dev ip host).1 ≠ .panic ∧ ∃ asked,
      Quiet host.stack.cfg (host.handed ++ asked) (resolve dev ip host).2 ∧
        ∀ frame ∈ asked, frame = requestFrame host.stack.cfg ip := by
  rw [resolve, bind_ok (gets_run _ host)]
  cases host.stack.arpCache.lookup ip with
  | some mac =>
    have hnone : ∀ frame ∈ ([] : Frames), frame = requestFrame host.stack.cfg ip :=
      fun frame hframe => absurd hframe not_mem_nil
    exact ⟨Prog.Total.pure mac host, [], ⟨rfl, (append_nil _).symm⟩, hnone⟩
  | none =>
    obtain ⟨htotal, hquiet⟩ := askLink_spec dev ip host
    exact ⟨htotal, [requestFrame host.stack.cfg ip], hquiet, fun frame => mem_singleton.mp⟩

def IsDatagram (cfg : NetConfig) (dstIp : Ipv4Addr) (srcPort dstPort : Port)
    (payload frame : List Byte) : Prop :=
  ∃ mac udp ip, Udp.build udpRoom cfg.ip dstIp srcPort dstPort payload = .ok udp ∧
    Ipv4.build ipRoom cfg.ip dstIp protoUdp 64 0 udp = .ok ip ∧
    Ethernet.build frameRoom mac cfg.mac ethertypeIpv4 ip = .ok frame

section

variable (cfg : NetConfig) (dstIp : Ipv4Addr) (dstPort srcPort : Port) (mac : MacAddr)
  (host : Host δ)

theorem transmit_fits (fits : payload.length ≤ maxPayload) :
    ∃ frame, IsDatagram cfg dstIp srcPort dstPort payload frame ∧
      (transmit dev cfg mac dstIp dstPort srcPort payload host).2.handed = host.handed ++ [frame] ∧
      ∀ n, (transmit dev cfg mac dstIp dstPort srcPort payload host).1 = .ok n →
        n = payload.length := by
  have hsize : payload.length ≤ 1472 := fits
  obtain ⟨udp, hudp, hudpLen⟩ : ∃ udp, Udp.build udpRoom cfg.ip dstIp srcPort dstPort payload =
      .ok udp ∧ udp.length = 8 + payload.length :=
    Udp.build_eq_ok (Nat.add_le_add_left hsize 8)
      (le_trans (Nat.add_le_add_left hsize 8) (by decide)) ..
  obtain ⟨ip, hip, hipLen⟩ : ∃ ip, Ipv4.build ipRoom cfg.ip dstIp protoUdp 64 0 udp = .ok ip ∧
      ip.length = 20 + udp.length :=
    Ipv4.build_eq_ok (show 20 + udp.length ≤ 1500 by omega)
      (show 20 + udp.length ≤ 0xFFFF by omega) ..
  obtain ⟨frame, hframe⟩ : ∃ frame, Ethernet.build frameRoom mac cfg.mac ethertypeIpv4 ip =
      .ok frame :=
    ⟨_, Ethernet.build_eq_ok (show 14 + ip.length ≤ 1514 by omega) mac cfg.mac ethertypeIpv4⟩
  have hrun : transmit dev cfg mac dstIp dstPort srcPort payload host =
      (mapErr .device (sendFrame dev frame) >>= fun _ => pure payload.length) host := by
    rw [transmit, bind_ok (build_ok hudp host), bind_ok (build_ok hip host),
      bind_ok (build_ok hframe host)]
  rw [hrun]
  refine ⟨frame, ⟨mac, udp, ip, hudp, hip, hframe⟩, ?_, ?_⟩
  · have hquiet := Prog.Keeps.after (sendFrame_quiet dev frame host) fun _ =>
      (Prog.Keeps.pure payload.length : Prog.Keeps _ (pure payload.length : Op δ Nat))
    exact hquiet.2
  · intro n hn
    obtain ⟨u, sent, -, hpure⟩ := of_bind_ok (Prod.ext hn rfl)
    exact (Outcome.ok.inj (congrArg Prod.fst hpure)).symm

theorem transmit_too_long (long : maxPayload < payload.length) :
    transmit dev cfg mac dstIp dstPort srcPort payload host =
      (.err (.net .bufferTooSmall), host) := by
  have hsize : 1472 < payload.length := long
  have hudp : Udp.build udpRoom cfg.ip dstIp srcPort dstPort payload = .error .bufferTooSmall := by
    rw [Udp.build, if_pos (.inl (show 1480 < 8 + payload.length by omega))]
  rw [transmit, hudp]
  rfl

end

theorem sendDatagram_cases (dstIp : Ipv4Addr) (dstPort srcPort : Port) (payload : List Byte)
    (host : Host δ) :
    ∃ asked after, (∀ frame ∈ asked, frame = requestFrame host.stack.cfg
        (nextHop host.stack.cfg dstIp)) ∧ after.handed = host.handed ++ asked ∧
      ((∃ e, sendDatagram dev dstIp dstPort srcPort payload host = (.err e, after)) ∨
        ∃ mac, sendDatagram dev dstIp dstPort srcPort payload host =
          transmit dev host.stack.cfg mac dstIp dstPort srcPort payload after) := by
  obtain ⟨htotal, asked, hquiet, hasked⟩ := resolve_spec dev (nextHop host.stack.cfg dstIp) host
  rw [sendDatagram, bind_ok (gets_run _ host)]
  rcases hresolve : resolve dev (nextHop host.stack.cfg dstIp) host with ⟨mac | e | _, after⟩
  · rw [hresolve] at hquiet
    exact ⟨asked, after, hasked, hquiet.2, .inr ⟨mac, bind_ok hresolve⟩⟩
  · rw [hresolve] at hquiet
    exact ⟨asked, after, hasked, hquiet.2, .inl ⟨e, bind_err hresolve⟩⟩
  · rw [hresolve] at htotal
    exact absurd rfl htotal

end

variable {frame : List Byte}

section

variable {δ : Type} (dev : NetDevice δ)

/-- A frame with the datagram, whatever follows it on the link, is reported to a poll of its port
with enough room: the sender and the payload, and the rest of the buffer untouched. -/
def Arrives (receiver : NetStack) (src : Ipv4Addr) (srcPort dstPort : Port)
    (payload frame : List Byte) : Prop :=
  ∀ (padding out : List Byte) (nic : δ) (handed : Frames), payload.length ≤ out.length →
    (dev.recvFrame nic frameRoom).1 = .ok (some (frame ++ padding)) →
    (pollUdp dev dstPort out ⟨some receiver, some nic, handed⟩).1 =
      .ok (some (src, srcPort, payload.length), payload ++ out.drop payload.length)

theorem splice_front {out : List Byte} :
    splice out 0 payload = payload ++ out.drop payload.length := by
  rw [splice, take_zero, nil_append, zero_add]

theorem pollUdp_received (port : Port) (out : List Byte) {stack : NetStack} {nic nic' : δ}
    (received : dev.recvFrame nic frameRoom = (.ok (some frame), nic')) :
    pollUdp dev port out ⟨some stack, some nic, handed⟩ =
      withNic (fun _ => handleFrame dev port out frame ⟨stack, nic', handed⟩)
        ⟨some stack, some nic, handed⟩ := by
  have hrun : mapErr TransportError.device (recvFrame dev) ⟨stack, nic, handed⟩ =
      (.ok (some frame), ⟨stack, nic', handed⟩) := by
    simp only [mapErr, recvFrame, received, Outcome.ofExcept]
  simp only [pollUdp, withNic]
  rw [pollFrame, bind_ok hrun]

def Carries (cfg : NetConfig) (frame : List Byte) (packet : Ipv4.Ipv4Packet) : Prop :=
  ∃ eth, Ethernet.parse frame = .ok eth ∧ eth.ethertype = ethertypeIpv4 ∧
    Ipv4.parse eth.payload = .ok packet ∧
    (packet.dst = cfg.ip ∨ packet.dst = ipBroadcast)

variable {host : Host δ}

theorem handleFrame_carried (port : Port) (out : List Byte) {packet : Ipv4.Ipv4Packet}
    (carried : Carries host.stack.cfg frame packet) :
    handleFrame dev port out frame host = handlePacket dev port out packet host := by
  obtain ⟨eth, heth, htype, hip, hdst⟩ := carried
  have hours : ¬ (packet.dst ≠ host.stack.cfg.ip ∧ packet.dst ≠ ipBroadcast) := by
    rintro ⟨hnot, hnot'⟩
    exact hdst.elim hnot hnot'
  rw [handleFrame, heth]
  dsimp only
  rw [htype, if_neg (by decide), if_pos rfl, hip]
  dsimp only
  rw [bind_ok (gets_run _ host), if_neg hours]

def Requests (packet : Ipv4.Ipv4Packet) (echo : Icmp.IcmpEcho) : Prop :=
  packet.protocol = protoIcmp ∧ Icmp.parse packet.payload = .ok echo ∧ echo.isReply = false

structure Unreported (P : Host δ → Prop) (r : Outcome TransportError Polled × Host δ) : Prop where
  silent : ∀ d rest, r.1 ≠ .ok (some d, rest)
  kept : P r.2

theorem unreported_after {P : Host δ → Prop} {op : Op δ Unit} (out : List Byte)
    (kept : P (op host).2) : Unreported P ((op >>= fun _ => pure (none, out)) host) := by
  rcases hop : op host with ⟨_ | e | _, after⟩
  · rw [hop] at kept
    rw [bind_ok hop]
    exact ⟨by rintro _ _ ⟨⟩, kept⟩
  · rw [hop] at kept
    rw [bind_err hop]
    exact ⟨by rintro _ _ ⟨⟩, kept⟩
  · rw [hop] at kept
    rw [bind_panic hop]
    exact ⟨by rintro _ _ ⟨⟩, kept⟩

theorem handleFrame_unreported (port : Port) (out : List Byte) {P : Host δ → Prop}
    (arp : ∀ packet, Prog.Keeps P (answerArp dev packet))
    (other : ∀ packet d, Carries host.stack.cfg frame packet → packet.protocol = protoUdp →
      Udp.parse packet.payload packet.src packet.dst = .ok d → d.dstPort ≠ port)
    (echoes : ∀ packet echo, Carries host.stack.cfg frame packet → Requests packet echo →
      P (answerEcho dev packet.src echo host).2)
    (start : P host) : Unreported P (handleFrame dev port out frame host) := by
  have hnone : Unreported P ((pure (none, out) : Op δ Polled) host) := ⟨by rintro _ _ ⟨⟩, start⟩
  by_cases hcarried : ∃ packet, Carries host.stack.cfg frame packet
  · obtain ⟨packet, hcarried⟩ := hcarried
    rw [handleFrame_carried dev port out hcarried, handlePacket]
    split_ifs with hudp hicmp
    · cases hparse : Udp.parse packet.payload packet.src packet.dst with
      | error e => exact hnone
      | ok d =>
        dsimp only
        rwa [if_neg (other packet d hcarried hudp hparse)]
    · cases hparse : Icmp.parse packet.payload with
      | error e => exact hnone
      | ok echo =>
        refine unreported_after out ?_
        cases hkind : echo.isReply with
        | true => exact start
        | false => exact echoes packet echo hcarried ⟨hicmp, hparse, hkind⟩
    · exact hnone
  · rw [handleFrame]
    cases heth : Ethernet.parse frame with
    | error e => exact hnone
    | ok eth =>
      dsimp only
      split_ifs with harp hip
      · cases Arp.ArpPacket.parse eth.payload with
        | error e => exact hnone
        | ok packet => exact unreported_after out (arp packet host start)
      · cases hparse : Ipv4.parse eth.payload with
        | error e => exact hnone
        | ok packet =>
          dsimp only
          rw [bind_ok (gets_run _ host)]
          split_ifs with hdst
          · exact hnone
          · exact absurd ⟨packet, eth, heth, hip, hparse, by tauto⟩ hcarried
      · exact hnone

theorem arrives_of_isDatagram {cfg : NetConfig} {receiver : NetStack} {srcPort dstPort : Port}
    (datagram : IsDatagram cfg receiver.cfg.ip srcPort dstPort payload frame) :
    Arrives dev receiver cfg.ip srcPort dstPort payload frame := by
  obtain ⟨mac, udp, ip, hudp, hip, hframe⟩ := datagram
  intro padding out nic handed hroom hrecv
  have hcarried : Carries receiver.cfg (frame ++ padding)
    ⟨protoUdp, cfg.ip, receiver.cfg.ip, 64, udp⟩ :=
    ⟨_, Ethernet.parse_build hframe (by decide) padding, rfl, Ipv4.parse_build hip padding,
      .inl rfl⟩
  rw [pollUdp_received dev dstPort out (Prod.ext hrecv rfl),
    handleFrame_carried dev dstPort out hcarried, handlePacket,
    if_pos rfl, Udp.parse_build hudp]
  dsimp only
  rw [if_pos rfl, min_eq_left hroom, take_length, splice_front]
  rfl

end

section

variable {δ δ' : Type} (dev : NetDevice δ) (dev' : NetDevice δ')

/-- The frames handed over by a call are questions of address resolution and, when the payload fits
one datagram, a frame that arrives at the other host; when it does not, the call reports an error
and no frame has anything of it. -/
theorem udp_round_trip (sender receiver : NetStack) (nic : Option δ) (handed : Frames)
    (srcPort dstPort : Port) (payload : List Byte) :
    let result := udpSendTo dev receiver.cfg.ip dstPort srcPort payload ⟨some sender, nic, handed⟩
    let question := requestFrame sender.cfg (nextHop sender.cfg receiver.cfg.ip)
    ∃ new, result.2.handed = handed ++ new ∧ (payload.length ≤ 1472 →
        (∀ frame ∈ new, frame = question ∨
          Arrives dev' receiver sender.cfg.ip srcPort dstPort payload frame) ∧
        ∀ n, result.1 = .ok n → n = payload.length ∧ ∃ frame ∈ new,
          Arrives dev' receiver sender.cfg.ip srcPort dstPort payload frame) ∧
      (1472 < payload.length → (∃ e, result.1 = .err e) ∧ ∀ frame ∈ new, frame = question) := by
  intro result question
  cases nic with
  | none =>
    have hnone : ∀ frame ∈ ([] : Frames), frame = question :=
      fun frame hframe => absurd hframe not_mem_nil
    refine ⟨[], (append_nil _).symm, ?_, fun _ => ⟨⟨.noNic, rfl⟩, hnone⟩⟩
    intro _
    refine ⟨fun frame hframe => .inl (hnone frame hframe), ?_⟩
    rintro n ⟨⟩
  | some nic =>
    obtain ⟨asked, after, hasked, hafter, hrun⟩ := sendDatagram_cases dev receiver.cfg.ip dstPort
      srcPort payload ⟨sender, nic, handed⟩
    rcases hrun with ⟨e, hfailed⟩ | ⟨mac, hresolved⟩
    · have hout : result.1 = .err e := congrArg Prod.fst hfailed
      have hhanded := (congrArg (·.2.handed) hfailed).trans hafter
      refine ⟨asked, hhanded, ?_, fun _ => ⟨⟨e, hout⟩, hasked⟩⟩
      intro _
      refine ⟨fun frame hframe => .inl (hasked frame hframe), ?_⟩
      intro n hn
      rw [hout] at hn
      cases hn
    · have hout : result.1 = (transmit dev sender.cfg mac receiver.cfg.ip dstPort srcPort payload
          after).1 := congrArg Prod.fst hresolved
      have hhanded : result.2.handed = (transmit dev sender.cfg mac receiver.cfg.ip dstPort srcPort
          payload after).2.handed := congrArg (·.2.handed) hresolved
      by_cases hfits : payload.length ≤ 1472
      · obtain ⟨frame, hdatagram, hsent, hcount⟩ :=
          transmit_fits dev sender.cfg receiver.cfg.ip dstPort srcPort mac after hfits
        have harrives := arrives_of_isDatagram dev' hdatagram
        have hmem : frame ∈ asked ++ [frame] := mem_append_right _ mem_cons_self
        refine ⟨asked ++ [frame], ?_, fun _ => ⟨?_, ?_⟩, fun hlong => absurd hfits (by omega)⟩
        · rw [hhanded, hsent, hafter, append_assoc]
        · intro f hf
          rcases mem_append.mp hf with hold | hnew
          · exact .inl (hasked f hold)
          · exact .inr (mem_singleton.mp hnew ▸ harrives)
        · intro n hn
          exact ⟨hcount n (hout ▸ hn), frame, hmem, harrives⟩
      · have hlong := transmit_too_long dev sender.cfg receiver.cfg.ip dstPort srcPort mac after
          (not_le.mp hfits)
        rw [hlong] at hout hhanded
        refine ⟨asked, hhanded.trans hafter, fun h => absurd h hfits, fun _ => ⟨⟨_, hout⟩, hasked⟩⟩

end

def loopbackRecv : Frames → Nat → Except NetDeviceError (Option (List Byte)) × Frames
  | [], _ => (.ok none, [])
  | frame :: queue, room =>
    if room < frame.length then (.error .tooLarge, frame :: queue) else (.ok (some frame), queue)

theorem loopbackRecv_fits (queue : Frames) (room : Nat) (frame : List Byte)
    (received : (loopbackRecv queue room).1 = .ok (some frame)) : frame.length ≤ room := by
  cases queue with
  | nil => cases received
  | cons first queue =>
    rw [loopbackRecv] at received
    split at received
    · cases received
    · rename_i hroom
      cases received
      exact not_lt.mp hroom

def loopback : NetDevice Frames where
  sendFrame queue frame := (.ok (), queue ++ [frame])
  recvFrame := loopbackRecv
  fits := loopbackRecv_fits

def loopbackHost : NetStack :=
  { cfg := ⟨Vector.replicate 6 2, #v[10, 0, 2, 15], #v[10, 0, 2, 2], #v[255, 255, 255, 0]⟩
    arpCache := Arp.ArpCache.new.insert #v[10, 0, 2, 15] (Vector.replicate 6 2) }

theorem udp_round_trip_loopback : ([7, 8, 9] : List Byte).length ≤ 1472 ∧
      (udpSendTo loopback loopbackHost.cfg.ip 53 5000
        [7, 8, 9] ⟨some loopbackHost, some [], []⟩).1 =
        .ok 3 ∧
      ∃ frame ∈ (udpSendTo loopback loopbackHost.cfg.ip 53 5000 [7, 8, 9]
          ⟨some loopbackHost, some [], []⟩).2.handed,
        Arrives loopback loopbackHost loopbackHost.cfg.ip 5000 53 [7, 8, 9] frame := by
  have hsmall : ([7, 8, 9] : List Byte).length ≤ 1472 := by decide
  have hsent : (udpSendTo loopback loopbackHost.cfg.ip 53 5000 [7, 8, 9]
      ⟨some loopbackHost, some [], []⟩).1 = .ok 3 := by rfl
  obtain ⟨new, hnew, hshort, -⟩ := udp_round_trip loopback loopback loopbackHost loopbackHost
    (some []) [] 5000 53 [7, 8, 9]
  obtain ⟨-, frame, hframe, harrives⟩ := (hshort hsmall).2 3 hsent
  rw [hnew, nil_append]
  exact ⟨hsmall, hsent, frame, hframe, harrives⟩

end CibosPlatform.KernelImage.UdpTransport

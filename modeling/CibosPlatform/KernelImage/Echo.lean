/- source: kernel-image/src/net_stack.rs, cibos-net/src/ipv4.rs, cibos-net/src/icmp.rs
   digest: What a poll does with a packet for this host: where echo replies go, and fragments. -/

import CibosPlatform.KernelImage.UdpTransport

namespace CibosPlatform.KernelImage.Echo

open Core BigEndian LittleEndian Program UdpTransport Net.Packets Prog
open List hiding Vector

def IsReply (cfg : NetConfig) (mac : MacAddr) (src : Ipv4Addr) (echo : Icmp.IcmpEcho)
    (frame : List Byte) :
    Prop :=
  ∃ icmp ip, Icmp.echoReply udpRoom echo.id echo.seq echo.payload = .ok icmp ∧
    Ipv4.build ipRoom cfg.ip src protoIcmp 64 0 icmp = .ok ip ∧
    Ethernet.build frameRoom mac cfg.mac ethertypeIpv4 ip = .ok frame

variable {cfg : NetConfig} {src : Ipv4Addr} {echo : Icmp.IcmpEcho}

theorem IsReply.dst_unique {mac mac' : MacAddr}
    {frame : List Byte} (reply : IsReply cfg mac src echo frame)
    (reply' : IsReply cfg mac' src echo frame) :
    mac = mac' := by
  obtain ⟨icmp, ip, -, -, hframe⟩ := reply
  obtain ⟨icmp', ip', -, -, hframe'⟩ := reply'
  have hparse := Ethernet.parse_build hframe (by decide) []
  rw [Ethernet.parse_build hframe' (by decide) []] at hparse
  injection hparse with hparse
  injection hparse with hmac
  exact hmac.symm

theorem IsReply.not_arp {mac mac' dst : MacAddr} {room : Nat} {payload frame : List Byte}
    (built : Ethernet.build room dst mac' ethertypeArp payload = .ok frame) :
    ¬ IsReply cfg mac src echo frame := by
  rintro ⟨icmp, ip, -, -, hframe⟩
  have hparse := Ethernet.parse_build hframe (by decide) []
  rw [Ethernet.parse_build built (by decide) []] at hparse
  injection hparse with hparse
  injection hparse with _ _ htype
  exact absurd htype (by decide)

theorem requestFrame_not_reply {mac : MacAddr} (cfg' : NetConfig) (ip : Ipv4Addr) :
    ¬ IsReply cfg mac src echo (requestFrame cfg' ip) :=
  IsReply.not_arp (Ethernet.build_eq_ok le_rfl macBroadcast cfg'.mac ethertypeArp)

section

variable {δ : Type} (dev : NetDevice δ) {host after : Host δ} {frame : List Byte}
  {packet : Ipv4.Ipv4Packet}
  {src : Ipv4Addr} {echo : Icmp.IcmpEcho}

theorem request_small {cfg : NetConfig} (fits : frame.length ≤ frameRoom)
    (carried : Carries cfg frame packet)
    (request : Requests packet echo) : 8 + echo.payload.length ≤ 1480 := by
  obtain ⟨eth, heth, -, hip, -⟩ := carried
  obtain ⟨-, hicmp, -⟩ := request
  have hfits : frame.length ≤ 1514 := fits
  have hfirst := Ethernet.parse_length heth
  have hsecond := Ipv4.parse_length hip
  have hthird : echo.payload.length + 8 = packet.payload.length := by
    rw [Icmp.parse, Icmp.echoHeaderLen] at hicmp
    split_ifs at hicmp
    cases hicmp
    rw [length_drop]
    omega
  omega

theorem answerEcho_spec (small : 8 + echo.payload.length ≤ 1480) :
    (∀ mac, resolve dev src host = (.ok mac, after) →
      ∃ reply, IsReply host.stack.cfg mac src echo reply ∧
      answerEcho dev src echo host = (.ok (), (sendFrame dev reply after).2)) ∧
    ∀ e, resolve dev src host = (.err e, after) →
      answerEcho dev src echo host = (.ok (), after) := by
  obtain ⟨icmp, hicmp, hicmpLen⟩ := Icmp.echoReply_eq_ok
    (show 8 + echo.payload.length ≤ udpRoom from small)
    echo.id echo.seq
  have hlength : icmp.length = 8 + echo.payload.length := hicmpLen
  obtain ⟨ip, hip, hipLen⟩ : ∃ ip,
      Ipv4.build ipRoom host.stack.cfg.ip src protoIcmp 64 0 icmp = .ok ip ∧
        ip.length = 20 + icmp.length :=
    Ipv4.build_eq_ok (show 20 + icmp.length ≤ 1500 by omega)
      (show 20 + icmp.length ≤ 0xFFFF by omega) ..
  rw [answerEcho, bind_ok (gets_run _ host), hicmp]
  dsimp only
  rw [hip]
  dsimp only
  constructor
  · intro mac hresolve
    have hfound : (attempt (resolve dev src) host : Outcome TransportError _ × _) =
      (.ok (.ok mac), after) := by
      rw [attempt, hresolve]
    obtain ⟨frame, hframe⟩ : ∃ frame,
        Ethernet.build frameRoom mac host.stack.cfg.mac ethertypeIpv4 ip = .ok frame :=
      ⟨_, Ethernet.build_eq_ok (show 14 + ip.length ≤ 1514 by omega) ..⟩
    obtain ⟨sent, hsent⟩ :
      ∃ sent, (attempt (sendFrame dev frame) after : Outcome TransportError _ × _) =
        (.ok sent, (sendFrame dev frame after).2) := by
      rw [attempt, sendFrame]
      cases (dev.sendFrame after.nic frame).1 with
      | ok _ | error _ => exact ⟨_, rfl⟩
    refine ⟨frame, ⟨icmp, ip, hicmp, hip, hframe⟩, ?_⟩
    rw [bind_ok hfound]
    dsimp only
    rw [hframe]
    exact bind_ok hsent
  · intro e hresolve
    have hfound : (attempt (resolve dev src) host : Outcome TransportError _ × _) =
      (.ok (.error e), after) := by
      rw [attempt, hresolve]
    exact bind_ok hfound

end

section

variable {δ : Type} (dev : NetDevice δ) (port : Port) (out : List Byte) (stack : NetStack) (nic : δ)
  (handed : Frames)

def RepliesTo (src : Ipv4Addr) (echo : Icmp.IcmpEcho) (mac : MacAddr) : Prop :=
  ∃ reply, IsReply stack.cfg mac src echo reply ∧
    (pollUdp dev port out ⟨some stack, some nic, handed⟩).1 = .ok (none, out) ∧
    (pollUdp dev port out ⟨some stack, some nic, handed⟩).2.handed = handed ++ [reply]

def Delivers : Prop :=
  (∃ d rest, (pollUdp dev port out ⟨some stack, some nic, handed⟩).1 = .ok (some d, rest)) ∨
  ∃ mac src echo, ∃ reply ∈ (pollUdp dev port out ⟨some stack, some nic, handed⟩).2.handed.drop
    handed.length,
    IsReply stack.cfg mac src echo reply

def Wanted (packet : Ipv4.Ipv4Packet) (host : Host δ) : Prop :=
  (∃ d, packet.protocol = protoUdp ∧ Udp.parse packet.payload packet.src packet.dst = .ok d ∧
    d.dstPort = port) ∨
  ∃ echo mac, Requests packet echo ∧ (resolve dev packet.src host).1 = .ok mac

def Accepts (frame : List Byte) (host : Host δ) : Prop :=
  ∃ packet, Carries host.stack.cfg frame packet ∧ Wanted dev port packet host

abbrev Unfragmented (frame : List Byte) : Prop :=
  be16 (frame.drop Ethernet.headerLen) 6 % 0x4000 = 0

variable {dev stack nic} {nic' : δ} {frame : List Byte} {packet : Ipv4.Ipv4Packet}
  {echo : Icmp.IcmpEcho}
  (received : dev.recvFrame nic frameRoom = (.ok (some frame), nic'))
    (carried : Carries stack.cfg frame packet)

include received carried

theorem poll_packet : pollUdp dev port out ⟨some stack, some nic, handed⟩ = withNic
      (fun _ => handlePacket dev port out packet ⟨stack, nic', handed⟩)
      ⟨some stack, some nic, handed⟩ := by
  rw [pollUdp_received dev port out received, handleFrame_carried dev port out carried]

variable (request : Requests packet echo)

include request

theorem poll_request : ∃ after, pollUdp dev port out ⟨some stack, some nic, handed⟩ =
    (.ok (none, out), after) ∧
    after.handed = (answerEcho dev packet.src echo ⟨stack, nic', handed⟩).2.handed := by
  have hsmall := request_small (dev.fits _ _ _ (congrArg Prod.fst received)) carried request
  obtain ⟨hproto, hicmp, hkind⟩ := request
  have hok : (answerEcho dev packet.src echo ⟨stack, nic', handed⟩).1 = .ok () := by
    obtain ⟨htotal, -⟩ := resolve_spec dev packet.src ⟨stack, nic', handed⟩
    rcases hresolve : resolve dev packet.src ⟨stack, nic', handed⟩ with
      ⟨mac | e | _, after⟩
    · obtain ⟨reply, -, hanswer⟩ := (answerEcho_spec dev hsmall).1 mac hresolve
      rw [hanswer]
    · rw [(answerEcho_spec dev hsmall).2 e hresolve]
    · rw [hresolve] at htotal
      exact absurd rfl htotal
  rw [poll_packet port out handed received carried, handlePacket, hproto, if_neg (by decide),
    if_pos rfl, hicmp]
  dsimp only
  rw [hkind, if_neg Bool.false_ne_true, bind_ok (Prod.ext hok rfl)]
  exact ⟨_, rfl, rfl⟩

theorem repliesTo_iff (mac : MacAddr) :
    RepliesTo dev port out stack nic handed packet.src echo mac ↔
      stack.arpCache.lookup packet.src = some mac := by
  have hsmall := request_small (dev.fits _ _ _ (congrArg Prod.fst received)) carried request
  obtain ⟨final, hpoll, hfinal⟩ := poll_request port out handed received carried request
  rw [RepliesTo, hpoll, hfinal]
  have hresolve : resolve dev packet.src ⟨stack, nic', handed⟩ = _ := bind_ok (gets_run _ _)
  cases hcached : stack.arpCache.lookup packet.src with
  | some mac' =>
    rw [hcached] at hresolve
    obtain ⟨reply, hreply, hanswer⟩ := (answerEcho_spec dev hsmall).1 mac' hresolve
    rw [hanswer]
    constructor
    · rintro ⟨reply', hreply', -, hsame⟩
      obtain rfl : reply = reply' := singleton_inj.mp (append_cancel_left hsame)
      rw [hreply.dst_unique hreply']
    · intro hmac
      obtain rfl : mac' = mac := Option.some.inj hmac
      exact ⟨reply, hreply, rfl, rfl⟩
  | none =>
    rw [hcached] at hresolve
    refine ⟨?_, nofun⟩
    rintro ⟨reply', hreply', -, hsame⟩
    -- The question on the link is handed over first, and is not a reply.
    obtain ⟨htotal, -, hasked⟩ := askLink_spec dev packet.src ⟨stack, nic', handed⟩
    rcases hask : askLink dev packet.src ⟨stack, nic', handed⟩ with
      ⟨mac' | e | _, after⟩
    · obtain ⟨reply, -, hanswer⟩ := (answerEcho_spec dev hsmall).1 mac' (hresolve.trans hask)
      rw [hask] at hasked
      rw [hanswer, sendFrame, hasked, append_assoc] at hsame
      exact absurd (append_cancel_left hsame) (by simp)
    · rw [(answerEcho_spec dev hsmall).2 e (hresolve.trans hask)] at hsame
      rw [hask] at hasked
      obtain rfl : _ = reply' := singleton_inj.mp (append_cancel_left (hasked.symm.trans hsame))
      exact absurd hreply' (requestFrame_not_reply _ _)
    · rw [hask] at htotal
      exact absurd rfl htotal

/-- A reply goes to the cached next hop of the source exactly if the source is cached under the same
hardware address; a source behind the gateway is asked for on the link. -/
theorem echo_reply_next_hop_iff :
    (∀ mac, stack.arpCache.lookup (nextHop stack.cfg packet.src) = some mac →
      RepliesTo dev port out stack nic handed packet.src echo mac) ↔
    ∀ mac, stack.arpCache.lookup (nextHop stack.cfg packet.src) = some mac →
      stack.arpCache.lookup packet.src = some mac := by
  simp only [repliesTo_iff port out handed received carried request]

omit request

theorem delivers_of_wanted (wanted : Wanted dev port packet ⟨stack, nic', handed⟩) :
    Delivers dev port out stack nic handed := by
  rcases wanted with ⟨d, hproto, hudp, hport⟩ | ⟨echo, mac, request, hmac⟩
  · left
    rw [poll_packet port out handed received carried, handlePacket, if_pos hproto, hudp]
    dsimp only
    rw [if_pos hport]
    exact ⟨_, _, rfl⟩
  · have hsmall := request_small (dev.fits _ _ _ (congrArg Prod.fst received)) carried request
    obtain ⟨final, hpoll, hfinal⟩ := poll_request port out handed received carried request
    obtain ⟨reply, hreply, hanswer⟩ := (answerEcho_spec dev hsmall).1 mac (Prod.ext hmac rfl)
    obtain ⟨-, asked, ⟨-, hasked⟩, -⟩ := resolve_spec dev packet.src ⟨stack, nic', handed⟩
    refine .inr ⟨mac, packet.src, echo, reply, ?_, hreply⟩
    rw [hpoll, hfinal, hanswer, sendFrame, hasked, append_assoc]
    simp

end

section

variable {δ : Type} (dev : NetDevice δ) (port : Port) (out : List Byte) {cfg : NetConfig}
  {handed : Frames} {host : Host δ} {frame : List Byte}

def NoReply (cfg : NetConfig) (handed : Frames) (host : Host δ) : Prop :=
  ∃ new, host.handed = handed ++ new ∧
    ∀ frame ∈ new, ∀ mac src echo, ¬ IsReply cfg mac src echo frame

theorem keeps_sendFrame (other : ∀ mac src echo, ¬ IsReply cfg mac src echo frame) :
    Prog.Keeps (NoReply cfg handed) (sendFrame dev frame) := by
  rintro host ⟨new, hnew, hall⟩
  refine ⟨new ++ [frame], ?_, ?_⟩
  · rw [sendFrame, hnew, append_assoc]
  · intro f hf
    rcases mem_append.mp hf with hold | hlast
    · exact hall f hold
    · exact mem_singleton.mp hlast ▸ other

theorem keeps_resolve (ip : Ipv4Addr) : Prog.Keeps (NoReply cfg handed) (resolve dev ip) := by
  rintro host ⟨new, hnew, hall⟩
  obtain ⟨-, asked, ⟨-, hasked⟩, hquestions⟩ := resolve_spec dev ip host
  refine ⟨new ++ asked, by rw [hasked, hnew, append_assoc], ?_⟩
  intro f hf
  rcases mem_append.mp hf with hold | hquestion
  · exact hall f hold
  · intro mac src echo
    rw [hquestions f hquestion]
    exact requestFrame_not_reply _ _

theorem keeps_answerArp (packet : Arp.ArpPacket) :
    Prog.Keeps (NoReply cfg handed) (answerArp dev packet) :=
  answerArp_keeps dev packet (fun _ _ _ _ _ built => keeps_sendFrame dev fun _ _ _ =>
    IsReply.not_arp built)
    fun _ _ => .update fun _ h => h

theorem handleFrame_silent (fits : frame.length ≤ frameRoom)
    (refused : ¬ Accepts dev port frame host) (start : NoReply cfg handed host) :
    Unreported (NoReply cfg handed) (handleFrame dev port out frame host) := by
  refine handleFrame_unreported dev port out (keeps_answerArp dev) ?_ ?_ start
  · intro packet d hcarried hudp hparse hport
    exact refused ⟨packet, hcarried, .inl ⟨d, hudp, hparse, hport⟩⟩
  · intro packet echo hcarried hrequest
    have hsmall := request_small fits hcarried hrequest
    obtain ⟨htotal, -⟩ := resolve_spec dev packet.src host
    have hkept := keeps_resolve dev packet.src host start
    rcases hresolve : resolve dev packet.src host with ⟨mac | e | _, after⟩
    · exact absurd ⟨packet, hcarried, .inr ⟨echo, mac, hrequest, by rw [hresolve]⟩⟩ refused
    · rw [hresolve] at hkept
      rw [(answerEcho_spec dev hsmall).2 e hresolve]
      exact hkept
    · rw [hresolve] at htotal
      exact absurd rfl htotal

variable {stack : NetStack} {nic nic' : δ} {dev}

/-- For every frame: it is delivered exactly if it is accepted, and fragments are kept out exactly if
none of them is. -/
theorem fragments_refused_iff (received : dev.recvFrame nic frameRoom = (.ok (some frame), nic')) :
    (Delivers dev port out stack nic handed ↔ Accepts dev port frame ⟨stack, nic', handed⟩) ∧
      ((Delivers dev port out stack nic handed → Unfragmented frame) ↔
        (Accepts dev port frame ⟨stack, nic', handed⟩ → Unfragmented frame)) := by
  have hiff : Delivers dev port out stack nic handed ↔
      Accepts dev port frame ⟨stack, nic', handed⟩ := by
    constructor
    · intro hdelivers
      by_contra hrefused
      have hstart : NoReply stack.cfg handed ⟨stack, nic', handed⟩ :=
        ⟨[], (append_nil _).symm, nofun⟩
      obtain ⟨hreport, new, hnew, hall⟩ := handleFrame_silent dev port out
        (dev.fits _ _ _ (congrArg Prod.fst received)) hrefused hstart
      rw [Delivers, pollUdp_received dev port out received] at hdelivers
      rcases hdelivers with ⟨d, rest, hpoll⟩ | ⟨mac, src, echo, reply, hreply, hsent⟩
      · exact hreport d rest hpoll
      · have hnews : (handed ++ new).drop handed.length = new := drop_left
        rw [← hnew] at hnews
        exact hall reply (hnews ▸ hreply) mac src echo hsent
    · rintro ⟨packet, hcarried, hwanted⟩
      exact delivers_of_wanted port out handed received hcarried hwanted
  exact ⟨hiff, by rw [hiff]⟩

end

def frameWith (header payload : List Byte) : List Byte :=
  replicate 12 2 ++ [8, 0] ++ (header ++ [10, 0, 2, 15] ++ payload)

def ping (sum src : List Byte) : List Byte :=
  frameWith ([0x45, 0, 0, 28, 0, 0, 0, 0, 64, 1] ++ sum ++ src) [8, 0, 247, 253, 0, 1, 0, 1]

def fragment : List Byte :=
  frameWith [0x45, 0, 0, 28, 0, 0, 32, 1, 64, 17, 66, 192, 10, 0, 2, 2] [0, 9, 0, 53, 0, 8, 0, 0]

def gatewayHost : NetStack :=
  { loopbackHost with arpCache := Arp.ArpCache.new.insert loopbackHost.cfg.gateway (Vector.replicate 6 3) }

theorem ping_carried : Carries loopbackHost.cfg (ping [98, 196] [10, 0, 2, 15])
    ⟨1, #v[10, 0, 2, 15], #v[10, 0, 2, 15], 64, [8, 0, 247, 253, 0, 1, 0, 1]⟩ :=
  ⟨_, rfl, rfl, by decide +kernel, .inl rfl⟩

theorem ping_requests :
    Requests ⟨1, #v[10, 0, 2, 15], #v[10, 0, 2, 15], 64, [8, 0, 247, 253, 0, 1, 0, 1]⟩
    ⟨false, 1, 1, []⟩ :=
  ⟨rfl, by decide +kernel, rfl⟩

theorem echo_reply_next_hop_iff_own :
    RepliesTo loopback 53 [] loopbackHost [ping [98, 196] [10, 0, 2, 15]]
      [] #v[10, 0, 2, 15] ⟨false, 1, 1, []⟩
      (Vector.replicate 6 2) :=
  (echo_reply_next_hop_iff 53 [] [] rfl ping_carried ping_requests).mpr (fun _ h => h) _ rfl

/-- The gateway is cached, and the source of the request is behind it. -/
theorem echo_behind_gateway : ∃ packet echo mac,
    Carries gatewayHost.cfg (ping [94, 195] [8, 8, 8, 8]) packet ∧
    Requests packet echo ∧
    gatewayHost.arpCache.lookup (nextHop gatewayHost.cfg packet.src) = some mac ∧
    ¬ RepliesTo loopback 53 [] gatewayHost [ping [94, 195] [8, 8, 8, 8]]
      [] packet.src echo mac := by
  have hcarried : Carries gatewayHost.cfg (ping [94, 195] [8, 8, 8, 8])
      ⟨1, #v[8, 8, 8, 8], #v[10, 0, 2, 15], 64, [8, 0, 247, 253, 0, 1, 0, 1]⟩ := ⟨_, rfl, rfl, by decide +kernel, .inl rfl⟩
  have hrequest : Requests ⟨1, #v[8, 8, 8, 8], #v[10, 0, 2, 15], 64, [8, 0, 247, 253, 0, 1, 0, 1]⟩
      ⟨false, 1, 1, []⟩ := ⟨rfl, by decide +kernel, rfl⟩
  refine ⟨_, _, Vector.replicate 6 3, hcarried, hrequest, rfl, ?_⟩
  rw [repliesTo_iff 53 [] [] rfl hcarried hrequest]
  decide

theorem fragments_refused_iff_own :
    Accepts loopback 53 (ping [98, 196] [10, 0, 2, 15]) ⟨loopbackHost, [], []⟩ ∧
      Delivers loopback 53 [] loopbackHost [ping [98, 196] [10, 0, 2, 15]] [] ∧
      Unfragmented (ping [98, 196] [10, 0, 2, 15]) := by
  have haccepts : Accepts loopback 53 (ping [98, 196] [10, 0, 2, 15]) ⟨loopbackHost, [], []⟩ :=
    ⟨_, ping_carried, .inr ⟨_, _, ping_requests, rfl⟩⟩
  have hreceived : loopback.recvFrame [ping [98, 196] [10, 0, 2, 15]] frameRoom =
      (.ok (some (ping [98, 196] [10, 0, 2, 15])), []) := rfl
  obtain ⟨hiff, hclaim⟩ := fragments_refused_iff 53 [] hreceived
  exact ⟨haccepts, hiff.mpr haccepts, hclaim.mpr (fun _ => by decide) (hiff.mpr haccepts)⟩

/-- A fragment is reported as a datagram of its own. -/
theorem fragment_delivered :
    Delivers loopback 53 [] loopbackHost [fragment] [] ∧ ¬ Unfragmented fragment := by
  have hcarried : Carries loopbackHost.cfg fragment
      ⟨17, #v[10, 0, 2, 2], #v[10, 0, 2, 15], 64, [0, 9, 0, 53, 0, 8, 0, 0]⟩ :=
    ⟨_, rfl, rfl, by decide +kernel, .inl rfl⟩
  exact ⟨delivers_of_wanted 53 [] [] rfl hcarried (.inl ⟨_, rfl, rfl, rfl⟩), by decide⟩

end CibosPlatform.KernelImage.Echo

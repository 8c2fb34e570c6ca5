/- source: kernel-image/src/net_stack.rs
   digest: Links over one network card, and whose datagrams their calls take. -/

import CibosPlatform.KernelImage.UdpTransport

/-! All links pull from the same card: a poll takes the next frame whoever it is for, and an address
resolution every frame that arrives while it waits. The frames taken are logged. -/

namespace CibosPlatform.KernelImage.RemoteLink

open Core LittleEndian Program UdpTransport Net.Packets List Prog TransportError

structure Link where
  localPort : Port
  remoteIp : Ipv4Addr
  remotePort : Port
  deriving DecidableEq

section

variable {δ : Type} (dev : NetDevice δ)

def Link.send (link : Link) (bytes : List Byte) : Prog (World δ) TransportError Nat :=
  udpSendTo dev link.remoteIp link.remotePort link.localPort bytes

def Link.recv (link : Link) (out : List Byte) :
    Prog (World δ) TransportError (Option Nat × List Byte) := do
  let polled ← pollUdp dev link.localPort out
  match polled.1 with
  | some (srcIp, srcPort, len) =>
    if srcIp = link.remoteIp ∧ srcPort = link.remotePort then pure (some len, polled.2)
    else pure (none, polled.2)
  | none => pure (none, polled.2)

def logFrame (log : Frames) : Except NetDeviceError (Option (List Byte)) → Frames
  | .ok (some frame) => log ++ [frame]
  | _ => log

def logged : NetDevice (δ × Frames) where
  sendFrame nic frame := ((dev.sendFrame nic.1 frame).1, ((dev.sendFrame nic.1 frame).2, nic.2))
  recvFrame nic room :=
    ((dev.recvFrame nic.1 room).1,
      ((dev.recvFrame nic.1 room).2, logFrame nic.2 (dev.recvFrame nic.1 room).1))
  fits nic room frame received := dev.fits nic.1 room frame received

end

section

def datagramOf (cfg : NetConfig) (frame : List Byte) : Option (Ipv4Addr × Udp.UdpDatagram) :=
  match Ethernet.parse frame with
  | .error _ => none
  | .ok eth =>
    if eth.ethertype = ethertypeIpv4 then
      match Ipv4.parse eth.payload with
      | .error _ => none
      | .ok packet =>
        if (packet.dst = cfg.ip ∨ packet.dst = ipBroadcast) ∧ packet.protocol = protoUdp then
          (Udp.parse packet.payload packet.src packet.dst).toOption.map fun d => (packet.src, d)
        else none
    else none

def Link.payloadOf (link : Link) (cfg : NetConfig) (frame : List Byte) : Option (List Byte) :=
  (datagramOf cfg frame).bind fun (src, d) =>
    if src = link.remoteIp ∧ d.srcPort = link.remotePort ∧
      d.dstPort = link.localPort then some d.payload
    else none

variable {cfg : NetConfig} {frame : List Byte} {src : Ipv4Addr} {d : Udp.UdpDatagram}
  (h : datagramOf cfg frame = some (src, d))

include h

theorem layers_of_datagram :
    ∃ eth packet, Ethernet.parse frame = .ok eth ∧ eth.ethertype = ethertypeIpv4 ∧
      Ipv4.parse eth.payload = .ok packet ∧ (packet.dst = cfg.ip ∨ packet.dst = ipBroadcast) ∧
      packet.protocol = protoUdp ∧ packet.src = src ∧
      Udp.parse packet.payload packet.src packet.dst = .ok d := by
  rw [datagramOf] at h
  rcases heth : Ethernet.parse frame with e | eth
  · rw [heth] at h
    cases h
  rw [heth] at h
  dsimp only at h
  split at h
  · rename_i htype
    rcases hpacket : Ipv4.parse eth.payload with e | packet
    · rw [hpacket] at h
      cases h
    rw [hpacket] at h
    dsimp only at h
    split at h
    · rename_i hours
      rcases hudp : Udp.parse packet.payload packet.src packet.dst with e | d'
      · rw [hudp] at h
        cases h
      · rw [hudp] at h
        cases h
        exact ⟨eth, packet, rfl, htype, hpacket, hours.1, hours.2, rfl, hudp⟩
    · cases h
  · cases h

omit h in
theorem datagramOf_of_carried {packet : Ipv4.Ipv4Packet} (carried : Carries cfg frame packet)
    (udp : packet.protocol = protoUdp)
    (parsed : Udp.parse packet.payload packet.src packet.dst = .ok d) :
    datagramOf cfg frame = some (packet.src, d) := by
  obtain ⟨eth, heth, htype, hip, hdst⟩ := carried
  simp [datagramOf, heth, htype, hip, hdst, udp, parsed, Except.toOption]

theorem arpOf_of_datagram : arpOf frame = none := by
  obtain ⟨eth, packet, heth, htype, -⟩ := layers_of_datagram h
  rw [arpOf, heth]
  dsimp only
  rw [htype, if_neg (by decide)]

theorem payload_length_le : d.payload.length + 14 ≤ frame.length := by
  obtain ⟨eth, packet, heth, -, hpacket, -, -, -, hudp⟩ := layers_of_datagram h
  have hslice : ∀ (buf : List Byte) (pos len : Nat), (slice buf pos len).length ≤ buf.length := by
    intro buf pos len
    rw [slice, length_take, length_drop]
    omega
  have hfirst := Ethernet.parse_length heth
  have hsecond := Ipv4.parse_length hpacket
  have hthird : d.payload.length ≤ packet.payload.length := by
    rw [Udp.parse] at hudp
    split at hudp
    · cases hudp
    · dsimp only at hudp
      split_ifs at hudp
      cases hudp
      exact hslice ..
  omega

variable {δ : Type} (dev : NetDevice δ)

theorem handleFrame_datagram (port : Port) {out : List Byte}
    (large : d.payload.length ≤ out.length) {host : Host δ} (configured : host.stack.cfg = cfg) :
    handleFrame dev port out frame host = (.ok (if d.dstPort = port then
          (some (src, d.srcPort, d.payload.length), d.payload ++ out.drop d.payload.length)
        else (none, out)), host) := by
  obtain ⟨eth, packet, heth, htype, hpacket, hdst, hproto, rfl, hudp⟩ := layers_of_datagram h
  subst configured
  rw [handleFrame_carried dev port out ⟨eth, heth, htype, hpacket, hdst⟩, handlePacket,
    if_pos hproto, hudp]
  dsimp only
  split
  · rw [min_eq_left large, take_length, splice_front, pure_run]
  · rw [pure_run]

end

section

variable {δ : Type} (dev : NetDevice δ)

def ahead : Nat → δ → Frames
  | 0, _ => []
  | polls + 1, nic =>
    logFrame [] (dev.recvFrame nic frameRoom).1 ++ ahead polls (dev.recvFrame nic frameRoom).2

def later : Nat → δ → δ
  | 0, nic => nic
  | polls + 1, nic => later polls (dev.recvFrame nic frameRoom).2

theorem logFrame_append (log : Frames) (r : Except NetDeviceError (Option (List Byte))) :
    logFrame log r = log ++ logFrame [] r := by
  rcases r with e | _ | frame
  · exact (append_nil log).symm
  · exact (append_nil log).symm
  · rfl

def UdpOnly (cfg : NetConfig) : Prop :=
  ∀ nic frame, (dev.recvFrame nic frameRoom).1 = .ok (some frame) →
    ∃ src d, datagramOf cfg frame = some (src, d)

variable {dev} {cfg : NetConfig}

theorem awaitReply_udp (only : UdpOnly dev cfg) (ip : Ipv4Addr) (budget : Nat) (stack : NetStack)
    (nic : δ) (log handed : Frames) :
    awaitReply (logged dev) ip budget ⟨stack, (nic, log), handed⟩ =
      (.err .arpTimeout, ⟨stack, (later dev budget nic, log ++ ahead dev budget nic), handed⟩) := by
  induction budget generalizing nic log with
  | zero => simp [awaitReply, later, ahead]
  | succ budget ih =>
    have hnone : ∀ r, (dev.recvFrame nic frameRoom).1 = r → r.toOption.join.bind arpOf = none := by
      intro r hr
      rcases r with e | _ | frame
      · rfl
      · rfl
      · obtain ⟨src, d, hd⟩ := only nic frame hr
        exact arpOf_of_datagram hd
    have hattempt : attempt (recvFrame (logged dev)) ⟨stack, (nic, log), handed⟩ =
        ((.ok (dev.recvFrame nic frameRoom).1 : Outcome TransportError _),
          ⟨stack, ((dev.recvFrame nic frameRoom).2, logFrame log (dev.recvFrame nic frameRoom).1),
            handed⟩) := by
      rw [attempt, recvFrame, logged]
      dsimp only
      rcases (dev.recvFrame nic frameRoom).1 with e | r <;> rfl
    rw [awaitReply, bind_ok hattempt, hnone _ rfl]
    dsimp only
    rw [ih, ahead, later, logFrame_append log, append_assoc]

theorem sendFrame_log (frame : List Byte) (stack : NetStack) (log : Frames) :
    Prog.Keeps (fun host : Host (δ × Frames) => host.stack = stack ∧ host.nic.2 = log)
      (mapErr device (sendFrame (logged dev) frame)) := by
  intro host h
  rw [mapErr_state]
  exact h

theorem transmit_log (mac : MacAddr) (dstIp : Ipv4Addr) (dstPort srcPort : Port)
    (payload : List Byte) (stack : NetStack) (log : Frames) :
    Prog.Keeps (fun host : Host (δ × Frames) => host.stack = stack ∧ host.nic.2 = log)
      (transmit (logged dev) cfg mac dstIp dstPort srcPort payload) := by
  have hbuild : ∀ {α : Type} (result : Except NetError α),
      Prog.Keeps (fun host : Host (δ × Frames) => host.stack = stack ∧ host.nic.2 = log)
        (build result) := fun _ _ h => h
  refine (hbuild _).bind fun udp => (hbuild _).bind fun ip => (hbuild _).bind fun frame => ?_
  exact (sendFrame_log frame stack log).bind fun _ => .pure _

/-- The frames that a resolution takes: none if the address is cached or the question cannot be
sent, else all while the answer is awaited. -/
def takenByResolve (dev : NetDevice δ) (stack : NetStack) (nic : δ) (ip : Ipv4Addr) : Frames :=
  match stack.arpCache.lookup ip with
  | some _ => []
  | none =>
    match dev.sendFrame nic (requestFrame stack.cfg ip) with
    | (.ok _, nic') => ahead dev arpBudget nic'
    | (.error _, _) => []

variable {stack : NetStack} (only : UdpOnly dev stack.cfg) (nic : δ) (log handed : Frames)

include only

theorem resolve_udp (ip : Ipv4Addr) :
    (resolve (logged dev) ip ⟨stack, (nic, log), handed⟩).2.stack = stack ∧
      (resolve (logged dev) ip ⟨stack, (nic, log), handed⟩).2.nic.2 =
        log ++ takenByResolve dev stack nic ip := by
  rw [resolve, bind_ok (gets_run _ _), takenByResolve]
  rcases stack.arpCache.lookup ip with _ | mac
  · dsimp only
    rw [askLink_eq]
    have hrun : ∀ r nic', dev.sendFrame nic (requestFrame stack.cfg ip) = (r, nic') →
        mapErr device (sendFrame (logged dev) (requestFrame stack.cfg ip))
          ⟨stack, (nic, log), handed⟩ =
          (.ofExcept (fun _ => device) r,
            ⟨stack, (nic', log), handed ++ [requestFrame stack.cfg ip]⟩) := by
      intro r nic' hsend
      rw [mapErr, sendFrame, logged]
      dsimp only
      rw [hsend]
      cases r <;> rfl
    rcases hsend : dev.sendFrame nic (requestFrame stack.cfg ip) with ⟨e | _, nic'⟩
    · rw [bind_err (hrun _ _ hsend)]
      exact ⟨rfl, (append_nil log).symm⟩
    · rw [bind_ok (hrun _ _ hsend), awaitReply_udp only]
      exact ⟨rfl, rfl⟩
  · exact ⟨rfl, (append_nil log).symm⟩

theorem send_spec (link : Link) (bytes : List Byte) : ∃ nic' handed',
      (link.send (logged dev) bytes ⟨some stack, some (nic, log), handed⟩).2 = ⟨some stack,
        some (nic', log ++ takenByResolve dev stack nic (nextHop stack.cfg link.remoteIp)),
        handed'⟩ := by
  obtain ⟨after, hafter, hrun⟩ : ∃ after : Host (δ × Frames), (after.stack = stack ∧ after.nic.2 =
        log ++ takenByResolve dev stack nic (nextHop stack.cfg link.remoteIp)) ∧
      (sendDatagram (logged dev) link.remoteIp link.remotePort link.localPort bytes
        ⟨stack, (nic, log), handed⟩).2 = after := by
    refine ⟨_, ?_, rfl⟩
    rw [sendDatagram, bind_ok (gets_run _ _)]
    exact Prog.Keeps.after (resolve_udp only nic log handed _) fun mac =>
      transmit_log mac link.remoteIp link.remotePort link.localPort bytes stack _
  refine ⟨after.nic.1, after.handed, ?_⟩
  rw [Link.send, udpSendTo, withNic]
  dsimp only
  rw [hrun, hafter.1, ← hafter.2]

end

section

variable {δ : Type} {dev : NetDevice δ} {nic : δ} {frame : List Byte} (stack : NetStack)
  (log handed : Frames) (link : Link) (out : List Byte)

def received : Outcome TransportError (Option Nat × List Byte) → Frames
  | .ok (some n, out) => [out.take n]
  | _ => []

theorem logged_recvFrame (next : (dev.recvFrame nic frameRoom).1 = .ok (some frame)) :
    (logged dev).recvFrame (nic, log) frameRoom =
      (.ok (some frame), (dev.recvFrame nic frameRoom).2, log ++ [frame]) := by
  simp only [logged, next, logFrame]

theorem recv_silent {o : Outcome TransportError Polled} {net after : World (δ × Frames)}
    (poll : pollUdp (logged dev) link.localPort out net = (o, after))
    (silent : ∀ d rest, o ≠ .ok (some d, rest)) :
    (link.recv (logged dev) out net).2 = after ∧
      received (link.recv (logged dev) out net).1 = [] := by
  rcases o with ⟨_ | d, rest⟩ | e | _
  · rw [Link.recv, bind_ok poll]
    exact ⟨rfl, rfl⟩
  · exact absurd rfl (silent d rest)
  · rw [Link.recv, bind_err poll]
    exact ⟨rfl, rfl⟩
  · rw [Link.recv, bind_panic poll]
    exact ⟨rfl, rfl⟩

theorem recv_idle (next : (dev.recvFrame nic frameRoom).1.toOption.join = none) :
    (link.recv (logged dev) out ⟨some stack, some (nic, log), handed⟩).2 =
        ⟨some stack, some ((dev.recvFrame nic frameRoom).2, log), handed⟩ ∧
      received (link.recv (logged dev) out ⟨some stack, some (nic, log), handed⟩).1 = [] := by
  rcases hrecv : dev.recvFrame nic frameRoom with ⟨e | _ | frame, nic'⟩
  · refine recv_silent link out (o := .err .device) ?_ (by rintro _ _ ⟨⟩)
    simp [pollUdp, withNic, pollFrame, recvFrame, logged, logFrame, bind_run, mapErr, hrecv,
      Outcome.ofExcept]
  · refine recv_silent link out (o := .ok (none, out)) ?_ (by rintro _ _ ⟨⟩)
    simp [pollUdp, withNic, pollFrame, recvFrame, logged, logFrame, bind_run, mapErr, hrecv,
      Outcome.ofExcept]
  · rw [hrecv] at next
    cases next

variable {out} {src : Ipv4Addr} {d : Udp.UdpDatagram}

theorem recv_datagram (next : (dev.recvFrame nic frameRoom).1 = .ok (some frame))
    (found : datagramOf stack.cfg frame = some (src, d)) (large : d.payload.length ≤ out.length) :
    (link.recv (logged dev) out ⟨some stack, some (nic, log), handed⟩).2 =
        ⟨some stack, some ((dev.recvFrame nic frameRoom).2, log ++ [frame]), handed⟩ ∧
      received (link.recv (logged dev) out ⟨some stack, some (nic, log), handed⟩).1 =
        (link.payloadOf stack.cfg frame).toList := by
  have hpoll : pollUdp (logged dev) link.localPort out ⟨some stack, some (nic, log), handed⟩ = _ :=
    pollUdp_received (logged dev) link.localPort out (logged_recvFrame log next)
  simp only [withNic] at hpoll
  rw [handleFrame_datagram found (logged dev) link.localPort large rfl] at hpoll
  have hpayload : link.payloadOf stack.cfg frame =
      if src = link.remoteIp ∧ d.srcPort = link.remotePort ∧ d.dstPort = link.localPort then
        some d.payload else none := by
    rw [Link.payloadOf, found, Option.bind_some]
  rw [Link.recv, bind_ok hpoll, hpayload]
  by_cases hport : d.dstPort = link.localPort
  · rw [if_pos hport]
    by_cases hpeer : src = link.remoteIp ∧ d.srcPort = link.remotePort
    · simp [hpeer, hport, received]
    · simp only [hpeer, hport, and_true, if_false, pure_run]
      exact ⟨trivial, rfl⟩
  · simp only [hport, and_false, if_false, pure_run]
    exact ⟨trivial, rfl⟩

variable {stack}

theorem recv_spec (only : UdpOnly dev stack.cfg) (nic : δ) (large : frameRoom ≤ out.length) :
    (link.recv (logged dev) out ⟨some stack, some (nic, log), handed⟩).2 =
        ⟨some stack, some ((dev.recvFrame nic frameRoom).2, log ++ ahead dev 1 nic), handed⟩ ∧
      received (link.recv (logged dev) out ⟨some stack, some (nic, log), handed⟩).1 =
        (ahead dev 1 nic).filterMap (link.payloadOf stack.cfg) := by
  rw [ahead, ahead, append_nil]
  rcases hnext : (dev.recvFrame nic frameRoom).1 with e | _ | frame
  · simpa [logFrame] using recv_idle stack log handed link out (by rw [hnext]; rfl)
  · simpa [logFrame] using recv_idle stack log handed link out (by rw [hnext]; rfl)
  · obtain ⟨src, d, hd⟩ := only nic frame hnext
    have hfits : d.payload.length ≤ out.length := by
      have hlength := payload_length_le hd
      have hframe := dev.fits nic frameRoom frame hnext
      omega
    have htaken : logFrame [] (.ok (some frame)) = [frame] := rfl
    rw [htaken, filterMap_cons, filterMap_nil]
    obtain ⟨hworld, hreceived⟩ := recv_datagram stack log handed link hnext hd hfits
    refine ⟨hworld, hreceived.trans ?_⟩
    cases link.payloadOf stack.cfg frame <;> rfl

variable {log}

def Extends (log : Frames) (host : Host (δ × Frames)) : Prop := log <+: host.nic.2

theorem learn_extends (ip : Ipv4Addr) (mac : MacAddr) :
    Prog.Keeps (Extends log) (learn ip mac : Op (δ × Frames) Unit) := .update fun _ h => h

theorem sendFrame_extends (frame : List Byte) :
    Prog.Keeps (Extends log) (sendFrame (logged dev) frame) := fun _ h => h

theorem recvFrame_extends : Prog.Keeps (Extends log) (recvFrame (logged dev)) := by
  intro host h
  refine IsPrefix.trans h ?_
  rw [recvFrame, logged]
  dsimp only
  rw [logFrame_append]
  exact prefix_append _ _

theorem resolve_extends (ip : Ipv4Addr) : Prog.Keeps (Extends log) (resolve (logged dev) ip) := by
  intro host h
  rw [resolve, bind_ok (gets_run _ host)]
  rcases host.stack.arpCache.lookup ip with _ | mac
  · dsimp only
    rw [askLink_eq]
    refine Prog.Keeps.bind ?_
      (fun _ => awaitReply_keeps _ ip recvFrame_extends learn_extends arpBudget) host h
    intro host h
    rw [mapErr_state]
    exact h
  · exact h

theorem answerEcho_extends (src : Ipv4Addr) (echo : Icmp.IcmpEcho) :
    Prog.Keeps (Extends log) (answerEcho (logged dev) src echo) := by
  refine Prog.Keeps.bind (fun _ h => h) fun cfg => ?_
  split
  · exact .pure _
  · split
    · exact .pure _
    · refine (Prog.Keeps.attempt (resolve_extends src)).bind fun mac => ?_
      split
      · exact .pure _
      · split
        · exact .pure _
        · exact (Prog.Keeps.attempt (sendFrame_extends _)).bind fun _ => .pure _

theorem handleFrame_extends (port : Port) (out : List Byte) {host : Host (δ × Frames)}
    (other : datagramOf host.stack.cfg frame = none) (h : Extends log host) :
    Unreported (Extends log) (handleFrame (logged dev) port out frame host) := by
  refine handleFrame_unreported (logged dev) port out ?_ ?_ ?_ h
  · intro packet
    exact answerArp_keeps _ packet (fun _ _ _ _ frame _ => sendFrame_extends frame) learn_extends
  · intro packet d hcarried hudp hparse
    rw [datagramOf_of_carried hcarried hudp hparse] at other
    cases other
  · intro packet echo _ _
    exact answerEcho_extends packet.src echo host h

def delivered (net : World (δ × Frames)) : Frames := (net.nic.map fun nic => nic.2).getD []

def Link.payloadIn (link : Link) (net : World (δ × Frames)) (frame : List Byte) :
    Option (List Byte) :=
  net.stack.bind fun stack => link.payloadOf stack.cfg frame

/-- A poll returns the datagram of the link in the first frame that it takes. If there is none,
answering an echo request may take further frames. -/
theorem recv_takes (room : ipRoom ≤ out.length) (net : World (δ × Frames)) :
    ∃ frames, delivered (link.recv (logged dev) out net).2 = delivered net ++ frames ∧
      ((∃ msg, received (link.recv (logged dev) out net).1 = [msg] ∧
          frames.map (link.payloadIn net) = [some msg]) ∨
        (received (link.recv (logged dev) out net).1 = [] ∧
          ∀ frame ∈ frames.head?, link.payloadIn net frame = none)) := by
  obtain ⟨_ | stack, nic, handed⟩ := net
  · exact ⟨[], (append_nil _).symm, .inr ⟨rfl, by rintro _ ⟨⟩⟩⟩
  obtain _ | ⟨nic, log⟩ := nic
  · exact ⟨[], (append_nil _).symm, .inr ⟨rfl, by rintro _ ⟨⟩⟩⟩
  have hidle : (dev.recvFrame nic frameRoom).1.toOption.join = none → _ :=
    recv_idle stack log handed link out
  rcases hnext : (dev.recvFrame nic frameRoom).1 with e | _ | frame
  · obtain ⟨hworld, hreceived⟩ := hidle (by rw [hnext]; rfl)
    exact ⟨[], by rw [hworld, append_nil]; rfl, .inr ⟨hreceived, by rintro _ ⟨⟩⟩⟩
  · obtain ⟨hworld, hreceived⟩ := hidle (by rw [hnext]; rfl)
    exact ⟨[], by rw [hworld, append_nil]; rfl, .inr ⟨hreceived, by rintro _ ⟨⟩⟩⟩
  rcases hfound : datagramOf stack.cfg frame with _ | ⟨src, d⟩
  · have hpoll : pollUdp (logged dev) link.localPort out ⟨some stack, some (nic, log), handed⟩ =
      _ :=
      pollUdp_received (logged dev) link.localPort out (logged_recvFrame log hnext)
    have hunreported : Unreported (Extends (log ++ [frame]))
      (handleFrame (logged dev) link.localPort out frame
        ⟨stack, ((dev.recvFrame nic frameRoom).2, log ++ [frame]), handed⟩) :=
      handleFrame_extends link.localPort out hfound prefix_rfl
    simp only [withNic] at hpoll
    generalize handleFrame (logged dev) link.localPort out frame _ = r at hpoll hunreported
    obtain ⟨hsilent, more, hmore⟩ := hunreported
    obtain ⟨hworld, hreceived⟩ := recv_silent link out hpoll hsilent
    refine ⟨frame :: more, ?_, .inr ⟨hreceived, ?_⟩⟩
    · rw [hworld, append_cons]
      exact hmore.symm
    · rintro _ ⟨⟩
      rw [Link.payloadIn, Option.bind_some, Link.payloadOf, hfound, Option.bind_none]
  · have hfits : d.payload.length ≤ out.length := by
      have hlength := payload_length_le hfound
      have hframe : frame.length ≤ 1514 := dev.fits nic frameRoom frame hnext
      have hroom : 1500 ≤ out.length := room
      omega
    obtain ⟨hworld, hreceived⟩ := recv_datagram stack log handed link hnext hfound hfits
    refine ⟨[frame], by rw [hworld]; rfl, ?_⟩
    rw [hreceived]
    rcases hpayload : link.payloadOf stack.cfg frame with _ | msg
    · refine .inr ⟨rfl, ?_⟩
      rintro _ ⟨⟩
      exact hpayload
    · exact .inl ⟨msg, rfl, congrArg (fun payload => [payload]) hpayload⟩

end

variable {frame : List Byte} (cfg : NetConfig)

section

variable {δ : Type} (dev : NetDevice δ)

inductive Call where
  | send (link : Link) (bytes : List Byte)
  | recv (link : Link) (out : List Byte)

variable {call : Call}

def Call.link : Call → Link
  | .send link _ => link
  | .recv link _ => link

def Call.Large : Call → Prop
  | .send _ _ => True
  | .recv _ out => frameRoom ≤ out.length

/-- The kernel's network state with the card's log, and what `recv` has returned on which link. -/
structure Hub (δ : Type) where
  world : World (δ × Frames)
  returned : List (Link × List Byte)

namespace Hub

variable (hub : Hub δ)

def exec : Call → Hub δ
  | .send link bytes => { hub with world := (link.send (logged dev) bytes hub.world).2 }
  | .recv link out =>
    let result := link.recv (logged dev) out hub.world
    ⟨result.2, hub.returned ++ (received result.1).map fun payload => (link, payload)⟩

def run (calls : List Call) : Hub δ := calls.foldl (exec dev) hub

def taken : Frames := (hub.world.nic.map fun nic => nic.2).getD []

def returnedOn (link : Link) : Frames :=
  hub.returned.filterMap fun r => if r.1 = link then some r.2 else none

def start (stack : NetStack) (nic : δ) : Hub δ := ⟨⟨some stack, some (nic, []), []⟩, []⟩

end Hub

/-- Every datagram taken was there for the link that returned it, in order of arrival, and no call has
taken a datagram of another link. -/
structure Separate (cfg : NetConfig) (links : List Link) (hub : Hub δ) (calls : List Call) :
    Prop where
  delivered : ∀ link ∈ links, (hub.run dev calls).returnedOn link =
    (hub.run dev calls).taken.filterMap (link.payloadOf cfg)
  apart : ∀ before call after, calls = before ++ call :: after → ∀ link ∈ links, link ≠ call.link →
    ((hub.run dev (before ++ [call])).taken.drop (hub.run dev before).taken.length).filterMap
      (link.payloadOf cfg) = []

def waiting (stack : NetStack) (nic : δ) : Call → Frames
  | .send link _ => takenByResolve dev stack nic (nextHop stack.cfg link.remoteIp)
  | .recv _ _ => ahead dev 1 nic

/-- A call takes nothing of another link. For `recv`: the next frame is for no link but its own. For
`send`: the next hop is cached, or the question cannot be sent, or nothing for any link comes while
the answer is awaited. -/
def Clear (links : List Link) (stack : NetStack) (nic : δ) : Call → Prop
  | .recv own _ => ∀ frame, (dev.recvFrame nic frameRoom).1 = .ok (some frame) →
      ∀ link ∈ links, link ≠ own → link.payloadOf stack.cfg frame = none
  | .send own _ =>
    let hop := nextHop stack.cfg own.remoteIp
    stack.arpCache.lookup hop = none →
      ∀ nic', dev.sendFrame nic (requestFrame stack.cfg hop) = (.ok (), nic') →
        ∀ frame ∈ ahead dev arpBudget nic', ∀ link ∈ links, link.payloadOf stack.cfg frame = none

structure Hub.At (hub : Hub δ) (stack : NetStack) (nic : δ) (log : Frames) : Prop where
  stack_eq : hub.world.stack = some stack
  nic_eq : hub.world.nic = some (nic, log)

def Undisturbed (links : List Link) (hub : Hub δ) (call : Call) : Prop :=
  ∀ stack nic log, hub.At stack nic log → Clear dev links stack nic call

def Calm (links : List Link) : Hub δ → List Call → Prop
  | _, [] => True
  | hub, call :: rest => Undisturbed dev links hub call ∧ Calm links (hub.exec dev call) rest

section

variable {dev} {links : List Link} {hub : Hub δ} {stack : NetStack} {nic : δ} {log : Frames}

theorem Hub.At.taken_eq (h : hub.At stack nic log) : hub.taken = log := by
  rw [Hub.taken, h.nic_eq]
  rfl

def gained (cfg : NetConfig) (frames : Frames) (link : Link) : Call → Frames
  | .send _ _ => []
  | .recv own _ => if own = link then frames.filterMap (link.payloadOf cfg) else []

theorem exec_spec (only : UdpOnly dev stack.cfg) (h : hub.At stack nic log) (large : call.Large) :
    (∃ nic', (hub.exec dev call).At stack nic' (log ++ waiting dev stack nic call)) ∧
      ∀ link, (hub.exec dev call).returnedOn link =
        hub.returnedOn link ++ gained stack.cfg (waiting dev stack nic call) link call := by
  obtain ⟨⟨s, n, handed⟩, returned⟩ := hub
  obtain ⟨hstack, hnic⟩ := h
  subst hstack hnic
  cases call with
  | send link bytes =>
    obtain ⟨nic', handed', hsend⟩ := send_spec only nic log handed link bytes
    refine ⟨⟨nic', ?_, ?_⟩, fun other => (append_nil _).symm⟩
    · rw [Hub.exec, hsend]
    · rw [Hub.exec, hsend]
      rfl
  | recv link out =>
    obtain ⟨hworld, hreceived⟩ := recv_spec log handed link only nic large
    refine ⟨⟨(dev.recvFrame nic frameRoom).2, ?_, ?_⟩, ?_⟩
    · rw [Hub.exec, hworld]
    · rw [Hub.exec, hworld]
      rfl
    · intro other
      rw [Hub.exec, hreceived, Hub.returnedOn, filterMap_append, filterMap_map, gained]
      refine congrArg _ ?_
      split
      · rename_i hown
        subst hown
        simp [waiting]
      · rename_i hother
        simp [hother]

theorem gained_length_le (frames : Frames) (link : Link) (call : Call) :
    (gained cfg frames link call).length ≤ (frames.filterMap (link.payloadOf cfg)).length := by
  cases call with
  | send _ _ => exact Nat.zero_le _
  | recv own _ =>
    rw [gained]
    split
    · exact le_rfl
    · exact Nat.zero_le _

theorem gained_of_ne {cfg : NetConfig} {frames : Frames} {link : Link}
    (h : link ≠ call.link) : gained cfg frames link call = [] := by
  cases call with
  | send _ _ => rfl
  | recv own _ => exact if_neg fun heq => h heq.symm

theorem mem_logFrame {r : Except NetDeviceError (Option (List Byte))} :
    frame ∈ logFrame [] r ↔ r = .ok (some frame) := by
  rcases r with e | _ | f
  · simp [logFrame]
  · simp [logFrame]
  · simp [logFrame, eq_comm]

theorem mem_takenByResolve {ip : Ipv4Addr} :
    frame ∈ takenByResolve dev stack nic ip ↔ stack.arpCache.lookup ip = none ∧
      ∃ nic', dev.sendFrame nic (requestFrame stack.cfg ip) = (.ok (), nic') ∧
        frame ∈ ahead dev arpBudget nic' := by
  rw [takenByResolve]
  rcases stack.arpCache.lookup ip with _ | mac
  · rcases dev.sendFrame nic (requestFrame stack.cfg ip) with ⟨e | _, nic'⟩
    · simp
    · simp
  · simp

theorem clear_iff (call : Call) : Clear dev links stack nic call ↔ ∀ link ∈ links,
    gained stack.cfg (waiting dev stack nic call) link call =
      (waiting dev stack nic call).filterMap (link.payloadOf stack.cfg) := by
  cases call with
  | send own bytes =>
    simp only [Clear, gained, waiting, eq_comm (a := ([] : Frames)),
      filterMap_eq_nil_iff, mem_takenByResolve]
    constructor
    · rintro h link hlink frame ⟨hcached, nic', hsend, hframe⟩
      exact h hcached nic' hsend frame hframe link hlink
    · intro h hcached nic' hsend frame hframe link hlink
      exact h link hlink frame ⟨hcached, nic', hsend, hframe⟩
  | recv own out =>
    have hahead : ∀ frame, frame ∈ ahead dev 1 nic ↔
      (dev.recvFrame nic frameRoom).1 = .ok (some frame) := by
      intro frame
      rw [ahead, ahead, append_nil, mem_logFrame]
    simp only [Clear, gained, waiting, ← hahead]
    constructor
    · intro h link hlink
      split
      · rfl
      · rename_i hother
        refine (filterMap_eq_nil_iff.mpr fun frame hframe => ?_).symm
        exact h frame hframe link hlink fun heq => hother heq.symm
    · intro h frame hframe link hlink hother
      have hgain := h link hlink
      rw [if_neg fun heq => hother heq.symm] at hgain
      exact filterMap_eq_nil_iff.mp hgain.symm frame hframe

theorem Hub.At.unique {stack' : NetStack} {nic' : δ} {log' : Frames}
    (h : hub.At stack nic log) (h' : hub.At stack' nic' log') :
    stack' = stack ∧ nic' = nic ∧ log' = log := by
  have hstack := h'.stack_eq.symm.trans h.stack_eq
  have hnic := h'.nic_eq.symm.trans h.nic_eq
  cases hstack
  cases hnic
  exact ⟨rfl, rfl, rfl⟩

theorem undisturbed_iff (h : hub.At stack nic log) (call : Call) :
    Undisturbed dev links hub call ↔ Clear dev links stack nic call := by
  constructor
  · intro hclear
    exact hclear stack nic log h
  · intro hclear stack' nic' log' h'
    obtain ⟨rfl, rfl, -⟩ := h.unique h'
    exact hclear

end

section

variable {dev} {links : List Link} {hub : Hub δ} {stack : NetStack} {nic : δ} {log : Frames}

theorem append_eq_iff_of_length_le {α : Type} {a b c d : List α} (h : a.length ≤ b.length)
    (h' : c.length ≤ d.length) : a ++ c = b ++ d ↔ a = b ∧ c = d := by
  constructor
  · intro heq
    have hlen := congrArg length heq
    rw [length_append, length_append] at hlen
    exact append_inj heq (by omega)
  · rintro ⟨rfl, rfl⟩
    rfl

theorem run_spec (links : List Link) (only : UdpOnly dev stack.cfg) (calls : List Call)
    (large : ∀ call ∈ calls, call.Large) (h : hub.At stack nic log) :
    ∃ (nic' : δ) (frames : Frames) (gains : Link → Frames),
      (hub.run dev calls).At stack nic' (log ++ frames) ∧
      (∀ link, (hub.run dev calls).returnedOn link = hub.returnedOn link ++ gains link) ∧
      (∀ link, (gains link).length ≤ (frames.filterMap (link.payloadOf stack.cfg)).length) ∧
      ((∀ link ∈ links, gains link = frames.filterMap (link.payloadOf stack.cfg)) ↔
        Calm dev links hub calls) := by
  induction calls generalizing hub nic log with
  | nil =>
    refine ⟨nic, [], fun _ => [], ?_, fun _ => (append_nil _).symm, fun _ => le_rfl, ?_⟩
    · rw [append_nil]
      exact h
    · simp [Calm]
  | cons call rest ih =>
    obtain ⟨hlarge, hrest⟩ := forall_mem_cons.mp large
    obtain ⟨⟨nic1, h1⟩, hreturned⟩ := exec_spec only h hlarge
    obtain ⟨nic', frames, gains, hat, hgains, hle, hiff⟩ := ih hrest h1
    refine ⟨nic', waiting dev stack nic call ++ frames,
      fun link => gained stack.cfg (waiting dev stack nic call) link call ++ gains link, ?_, ?_, ?_,
      ?_⟩
    · rw [← append_assoc]
      exact hat
    · intro link
      rw [← append_assoc, ← hreturned]
      exact hgains link
    · intro link
      rw [filterMap_append, length_append, length_append]
      exact Nat.add_le_add (gained_length_le ..) (hle link)
    · rw [Calm, undisturbed_iff h, clear_iff, ← hiff, ← forall₂_and]
      refine forall₂_congr fun link _ => ?_
      rw [filterMap_append]
      exact append_eq_iff_of_length_le (gained_length_le ..) (hle link)

theorem calm_append {before after : List Call} (h : Calm dev links hub (before ++ call :: after)) :
    Undisturbed dev links (hub.run dev before) call := by
  induction before generalizing hub with
  | nil => exact h.1
  | cons first before ih => exact ih h.2

theorem apart_of_calm (only : UdpOnly dev stack.cfg) {calls : List Call}
    (large : ∀ call ∈ calls, call.Large) (h : hub.At stack nic log)
    (calm : Calm dev links hub calls)
    {before after : List Call} (split : calls = before ++ call :: after) {link : Link}
    (hlink : link ∈ links) (other : link ≠ call.link) :
    ((hub.run dev (before ++ [call])).taken.drop (hub.run dev before).taken.length).filterMap
      (link.payloadOf stack.cfg) = [] := by
  subst split
  obtain ⟨nic1, frames, -, hat, -⟩ := run_spec links only before
    (fun c hc => large c (mem_append_left _ hc)) h
  have hcall := large call (mem_append_right _ mem_cons_self)
  obtain ⟨⟨nic2, hat'⟩, -⟩ := exec_spec only hat hcall
  have hrun : hub.run dev (before ++ [call]) = (hub.run dev before).exec dev call := by
    rw [Hub.run, foldl_append]
    rfl
  have hclear := (undisturbed_iff hat call).mp (calm_append calm)
  rw [hrun, hat'.taken_eq, hat.taken_eq, drop_left, ← (clear_iff call).mp hclear link hlink,
    gained_of_ne other]

end

end

/-- The links keep to their own datagrams exactly in the sequences of calls whose every call finds the
network state clear. -/
theorem separate_iff_calm {δ : Type} (dev : NetDevice δ) (stack : NetStack) (nic : δ)
    (only : UdpOnly dev stack.cfg) (links : List Link) (calls : List Call)
    (large : ∀ call ∈ calls, call.Large) :
    Separate dev stack.cfg links (.start stack nic) calls ↔
      Calm dev links (.start stack nic) calls := by
  have hstart : (Hub.start stack nic).At stack nic [] := ⟨rfl, rfl⟩
  obtain ⟨nic', frames, gains, hat, hgains, -, hiff⟩ := run_spec links only calls large hstart
  have hdelivered : (∀ link ∈ links, ((Hub.start stack nic).run dev calls).returnedOn link =
      ((Hub.start stack nic).run dev calls).taken.filterMap (link.payloadOf stack.cfg)) ↔
        Calm dev links (.start stack nic) calls := by
    rw [← hiff, hat.taken_eq]
    refine forall₂_congr fun link _ => ?_
    rw [hgains]
    rfl
  constructor
  · intro h
    exact hdelivered.mp h.delivered
  · intro hcalm
    exact ⟨hdelivered.mpr hcalm, fun before call after split link hlink other =>
      apart_of_calm only large hstart hcalm split hlink other⟩

def quietRecv (cfg : NetConfig) : Frames → Nat → Except NetDeviceError (Option (List Byte)) × Frames
  | [], _ => (.ok none, [])
  | frame :: rest, room =>
    if (datagramOf cfg frame).isSome ∧ frame.length ≤ room then (.ok (some frame), rest)
    else (.ok none, rest)

theorem quietRecv_some {cfg : NetConfig} {queue : Frames} {room : Nat}
    (h : (quietRecv cfg queue room).1 = .ok (some frame)) :
    (datagramOf cfg frame).isSome ∧ frame.length ≤ room := by
  cases queue with
  | nil => cases h
  | cons first rest =>
    rw [quietRecv] at h
    split at h
    · rename_i hfirst
      cases h
      exact hfirst
    · cases h

def quietCard (cfg : NetConfig) : NetDevice Frames where
  sendFrame queue _ := (.ok (), queue)
  recvFrame := quietRecv cfg
  fits _ _ _ h := (quietRecv_some h).2

theorem quietCard_udpOnly : UdpOnly (quietCard cfg) cfg := by
  intro queue frame h
  obtain ⟨⟨src, d⟩, hd⟩ := Option.isSome_iff_exists.mp (quietRecv_some h).1
  exact ⟨src, d, hd⟩

def frameTo (port : Port) : List Byte :=
  let udp :=
    (Udp.build udpRoom loopbackHost.cfg.gateway loopbackHost.cfg.ip 5000 port [7]).toOption.getD []
  let ip := (Ipv4.build ipRoom loopbackHost.cfg.gateway loopbackHost.cfg.ip protoUdp 64 0
    udp).toOption.getD []
  (Ethernet.build frameRoom (Vector.replicate 6 2) (Vector.replicate 6 3) ethertypeIpv4
    ip).toOption.getD []

def firstLink : Link := ⟨53, loopbackHost.cfg.gateway, 5000⟩

def secondLink : Link := ⟨54, loopbackHost.cfg.gateway, 5000⟩

def recvOn (link : Link) : Call := .recv link (List.replicate frameRoom 0)

theorem recvOn_large (link : Link) : (recvOn link).Large := by
  rw [recvOn, Call.Large, length_replicate]

theorem own_datagram_clear : Clear (quietCard loopbackHost.cfg) [firstLink, secondLink] loopbackHost
    [frameTo 54] (recvOn secondLink) := by
  intro frame hframe link hlink hother
  obtain rfl : frameTo 54 = frame := by
    have hnext : ((quietCard loopbackHost.cfg).recvFrame [frameTo 54] frameRoom).1.toOption =
        some (some (frameTo 54)) := by decide +kernel
    rw [hframe] at hnext
    exact (Option.some.inj (Option.some.inj hnext)).symm
  obtain rfl | rfl : link = firstLink ∨ link = secondLink := by simpa using hlink
  · decide +kernel
  · exact absurd rfl hother

theorem separate_one_datagram :
    Separate (quietCard loopbackHost.cfg) loopbackHost.cfg [firstLink, secondLink]
      (.start loopbackHost [frameTo 54]) [recvOn secondLink] := by
  refine (separate_iff_calm (quietCard loopbackHost.cfg) loopbackHost [frameTo 54]
    (quietCard_udpOnly loopbackHost.cfg) [firstLink, secondLink] [recvOn secondLink] ?_).mpr
    ⟨(undisturbed_iff ⟨rfl, rfl⟩ _).mpr own_datagram_clear, trivial⟩
  intro call hcall
  obtain rfl := mem_singleton.mp hcall
  exact recvOn_large secondLink

/-- A poll on the first link takes the datagram of the second, which is never returned. -/
theorem datagram_lost_to_other_link :
    ¬ Separate (quietCard loopbackHost.cfg) loopbackHost.cfg [firstLink, secondLink]
      (.start loopbackHost [frameTo 54]) [recvOn firstLink, recvOn secondLink] := by
  intro h
  have hdelivered := h.delivered secondLink (by decide)
  revert hdelivered
  decide +kernel

end CibosPlatform.KernelImage.RemoteLink

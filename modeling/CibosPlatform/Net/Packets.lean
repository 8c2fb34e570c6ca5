/- source: cibos-net/src/lib.rs, cibos-net/src/ethernet.rs, cibos-net/src/arp.rs,
     cibos-net/src/ipv4.rs, cibos-net/src/udp.rs, cibos-net/src/icmp.rs
   digest: Builders and parsers of the protocol layers, and that a parser undoes its builder. -/

import CibosPlatform.Core.MachineWord
import CibosPlatform.Core.OnesComplement

/-! A builder returns the bytes it writes to the front of its buffer. Checksums are over at most one frame, so
the 32-bit sums do not overflow. -/

namespace CibosPlatform.Net.Packets

open Core BigEndian LittleEndian MachineWord OnesComplement Nat
open List hiding Vector

abbrev MacAddr := Vector Byte 6

abbrev Ipv4Addr := Vector Byte 4

abbrev Port := BitVec 16

def macBroadcast : MacAddr := Vector.replicate 6 0xFF

def ipBroadcast : Ipv4Addr := Vector.replicate 4 0xFF

def ethertypeIpv4 : Nat := 0x0800
def ethertypeArp : Nat := 0x0806

def protoIcmp : Byte := 1
def protoUdp : Byte := 17

inductive NetError where
  | truncated
  | malformed
  | bufferTooSmall
  | badChecksum
  deriving DecidableEq

def be16 (buf : List Byte) (i : Nat) : Nat := ofBE (slice buf i 2)

def octets (n : Nat) (buf : List Byte) (pos : Nat) : Vector Byte n :=
  Vector.ofFn fun i => buf.getD (pos + i) 0

def checksumAccumulate (sum : Nat) (data : List Byte) : Nat := sum + wordsSum data

def checksumFold (sum : Nat) : Nat := complement16 (fold16 sum)

def checksum (data : List Byte) : Nat := checksumFold (checksumAccumulate 0 data)

theorem checksumFold_lt (sum : Nat) : checksumFold sum < 2 ^ 16 :=
  lt_of_le_of_lt (sub_le _ _) (by decide)

section

variable (profile : BuildProfile) (sum : BitVec 32)

def addU32 (word : Nat) : Option (BitVec 32) :=
  if profile = .dev ∧ 2 ^ 32 ≤ sum.toNat + word then none else some (sum + BitVec.ofNat 32 word)

def accumulateU32 (sum : BitVec 32) : List Byte → Option (BitVec 32)
  | [] => some sum
  | [hi] => addU32 profile sum (ofBE [hi, 0])
  | hi :: lo :: rest => do accumulateU32 (← addU32 profile sum (ofBE [hi, lo])) rest

/-- No addition overflows, the folded sum is the ones-complement sum of the words, and the data may be
split at any even offset. `checksum` begins with the sum 0. -/
structure Exact (data : List Byte) : Prop where
  accumulated : (accumulateU32 profile sum data).map BitVec.toNat = some (checksumAccumulate sum.toNat data)
  folded : ((accumulateU32 profile sum data).map fun s => checksumFold s.toNat) =
    some (complement16 (onesSum (fold16 sum.toNat) data))
  split : ∀ n, accumulateU32 profile sum data =
    (accumulateU32 profile sum (data.take (2 * n))).bind fun s => accumulateU32 profile s (data.drop (2 * n))

variable {sum} {data : List Byte}

theorem addU32_eq {word : Nat} (fits : sum.toNat + word < 2 ^ 32) :
    ∃ s, addU32 profile sum word = some s ∧ s.toNat = sum.toNat + word := by
  refine ⟨_, if_neg (by omega), ?_⟩
  rw [BitVec.toNat_add, BitVec.toNat_ofNat, add_mod_mod, mod_eq_of_lt fits]

theorem accumulateU32_eq (fits : checksumAccumulate sum.toNat data < 2 ^ 32) :
    ∃ s, accumulateU32 profile sum data = some s ∧ s.toNat = checksumAccumulate sum.toNat data := by
  unfold checksumAccumulate at *
  fun_induction wordsSum data generalizing sum with
  | case1 => exact ⟨sum, rfl, rfl⟩
  | case2 hi => exact addU32_eq profile fits
  | case3 hi lo rest ih =>
    obtain ⟨s, hadd, hs⟩ := addU32_eq profile (show sum.toNat + ofBE [hi, lo] < 2 ^ 32 by omega)
    obtain ⟨t, hrest, ht⟩ := ih (show s.toNat + wordsSum rest < 2 ^ 32 by omega)
    refine ⟨t, ?_, by omega⟩
    rw [accumulateU32, hadd]
    exact hrest

theorem accumulateU32_split (n : Nat) : accumulateU32 profile sum data =
    (accumulateU32 profile sum (data.take (2 * n))).bind fun s => accumulateU32 profile s (data.drop (2 * n)) := by
  induction n generalizing sum data with
  | zero => rfl
  | succ n ih =>
    match data with
    | [] | [hi] => simp [accumulateU32, mul_succ]
    | hi :: lo :: rest =>
      simp only [mul_succ, take_succ_cons, drop_succ_cons, accumulateU32]
      cases addU32 profile sum (ofBE [hi, lo]) with
      | none => rfl
      | some s => exact ih

variable {profile}

theorem Exact.below (h : Exact profile sum data) : checksumAccumulate sum.toNat data < 2 ^ 32 := by
  obtain ⟨s, -, hs⟩ := Option.map_eq_some_iff.mp h.accumulated
  rw [← hs]
  exact s.isLt

end

theorem checksum_exact_iff (profile : BuildProfile) (sum : BitVec 32) (data : List Byte) :
    Exact profile sum data ↔ checksumAccumulate sum.toNat data < 2 ^ 32 := by
  refine ⟨Exact.below, fun fits => ?_⟩
  obtain ⟨s, hsum, hs⟩ := accumulateU32_eq profile fits
  refine ⟨?_, ?_, accumulateU32_split profile⟩
  · rw [hsum, Option.map_some, hs]
  · rw [hsum, Option.map_some, hs, checksumFold, checksumAccumulate, fold16_add_wordsSum]

private theorem wordsSum_ones (n : Nat) : wordsSum (replicate (2 * n) 0xFF) = n * 0xFFFF := by
  induction n with
  | zero => rfl
  | succ n ih =>
    rw [mul_succ, replicate_succ, replicate_succ, wordsSum, ih, succ_mul, add_comm]
    rfl

/-- One word more than fits the sum. -/
theorem checksum_wraps : ¬ Exact .release 0 (replicate (2 * 65538) 0xFF) := by
  intro h
  have hbelow := h.below
  rw [checksumAccumulate, wordsSum_ones] at hbelow
  exact absurd hbelow (by decide)

variable {buf : List Byte}

theorem be16_of_slice {pos n : Nat} (bytes : slice buf pos 2 = toBE 2 n)
    (fits : n < 2 ^ 16) : be16 buf pos = n := by
  rw [be16, bytes]
  exact ofBE_toBE fits

theorem octets_of_parts {n : Nat} {pos : Nat} (v : Vector Byte n)
    (pre rest : List Byte) (parts : buf = pre ++ v.toList ++ rest) (start : pos = pre.length) :
    octets n buf pos = v := by
  apply Vector.ext
  intro i hi
  have hlen : i < v.toList.length := by rwa [Vector.length_toList]
  rw [octets, Vector.getElem_ofFn, parts, start, getD_eq_getElem?_getD, append_assoc,
    getElem?_append_right (le_add_right _ _), Nat.add_sub_cancel_left,
    getElem?_append_left hlen, getElem?_eq_getElem hlen, Option.getD_some,
    Vector.getElem_toList]

variable {payload : List Byte} {room : Nat}

namespace Ethernet

def headerLen : Nat := 14

structure EthFrame where
  dst : MacAddr
  src : MacAddr
  ethertype : Nat
  payload : List Byte

def parse (buf : List Byte) : Except NetError EthFrame :=
  if buf.length < headerLen then .error .truncated
  else .ok
    { dst := octets 6 buf 0
      src := octets 6 buf 6
      ethertype := be16 buf 12
      payload := buf.drop headerLen }

def build (room : Nat) (dst src : MacAddr) (ethertype : Nat) (payload : List Byte) :
    Except NetError (List Byte) :=
  if room < headerLen + payload.length then .error .bufferTooSmall
  else .ok (dst.toList ++ src.toList ++ toBE 2 ethertype ++ payload)

theorem parse_length {frame : EthFrame} (parsed : parse buf = .ok frame) :
    frame.payload.length + 14 = buf.length := by
  rw [parse, headerLen] at parsed
  split_ifs at parsed
  cases parsed
  rw [length_drop]
  omega

theorem build_eq_ok (fits : headerLen + payload.length ≤ room)
    (dst src : MacAddr) (ethertype : Nat) :
    build room dst src ethertype payload =
      .ok (dst.toList ++ src.toList ++ toBE 2 ethertype ++ payload) := by
  rw [build, if_neg (not_lt.mpr fits)]

theorem parse_build {dst src : MacAddr} {ethertype : Nat} {frame : List Byte}
    (built : build room dst src ethertype payload = .ok frame) (fits : ethertype < 2 ^ 16)
    (trailer : List Byte) : parse (frame ++ trailer) = .ok ⟨dst, src, ethertype, payload ++ trailer⟩ := by
  rw [build] at built
  split at built
  · cases built
  · cases built
    have hdst : (dst.toList : List Byte).length = 6 := Vector.length_toList
    have hsrc : (src.toList : List Byte).length = 6 := Vector.length_toList
    have hhead : (dst.toList ++ src.toList ++ toBE 2 ethertype).length = headerLen := by
      rw [length_append, length_append, hdst, hsrc, toBE_length, headerLen]
    have htype : be16 (dst.toList ++ src.toList ++ toBE 2 ethertype ++ payload ++ trailer) 12 =
        ethertype := by
      refine be16_of_slice (slice_eq_of_parts (dst.toList ++ src.toList) (payload ++ trailer) ?_ ?_
        (toBE_length _ _).symm) fits
      · rw [append_assoc _ payload]
      · rw [length_append, hdst, hsrc]
    rw [parse, if_neg, htype]
    · congr 2
      · refine octets_of_parts dst [] (src.toList ++ (toBE 2 ethertype ++ (payload ++ trailer))) ?_ rfl
        simp only [append_assoc, nil_append]
      · refine octets_of_parts src dst.toList (toBE 2 ethertype ++ (payload ++ trailer)) ?_ hdst.symm
        simp only [append_assoc]
      · rw [append_assoc, drop_left' hhead]
    · rw [append_assoc, length_append, hhead]
      exact not_lt.mpr (le_add_right _ _)

end Ethernet

namespace Arp

def arpLen : Nat := 28

def operRequest : Nat := 1
def operReply : Nat := 2

structure ArpPacket where
  oper : Nat
  senderMac : MacAddr
  senderIp : Ipv4Addr
  targetMac : MacAddr
  targetIp : Ipv4Addr

def ArpPacket.parse (buf : List Byte) : Except NetError ArpPacket :=
  if buf.length < arpLen then .error .truncated
  else if be16 buf 0 ≠ 1 ∨ be16 buf 2 ≠ 0x0800 ∨ buf.getD 4 0 ≠ 6 ∨ buf.getD 5 0 ≠ 4 then
    .error .malformed
  else .ok
    { oper := be16 buf 6
      senderMac := octets 6 buf 8
      senderIp := octets 4 buf 14
      targetMac := octets 6 buf 18
      targetIp := octets 4 buf 24 }

variable (packet : ArpPacket)

def ArpPacket.bytes : List Byte :=
  toBE 2 1 ++ toBE 2 0x0800 ++ [6, 4] ++ toBE 2 packet.oper ++ packet.senderMac.toList ++
    packet.senderIp.toList ++ packet.targetMac.toList ++ packet.targetIp.toList

def ArpPacket.build (room : Nat) : Except NetError (List Byte) :=
  if room < arpLen then .error .bufferTooSmall else .ok packet.bytes

theorem ArpPacket.bytes_length : packet.bytes.length = arpLen := by
  simp only [bytes, length_append, length_cons, length_nil, toBE_length,
    Vector.length_toList, arpLen]

def request (senderMac : MacAddr) (senderIp targetIp : Ipv4Addr) : ArpPacket :=
  { oper := operRequest
    senderMac := senderMac
    senderIp := senderIp
    targetMac := Vector.replicate 6 0
    targetIp := targetIp }

def reply (request : ArpPacket) (ourMac : MacAddr) (ourIp : Ipv4Addr) : ArpPacket :=
  { oper := operReply
    senderMac := ourMac
    senderIp := ourIp
    targetMac := request.senderMac
    targetIp := request.senderIp }

structure ArpCache where
  entries : Vector (Option (Ipv4Addr × MacAddr)) 16
  next : Nat

namespace ArpCache

def new : ArpCache := ⟨Vector.replicate 16 none, 0⟩

def holds (ip : Ipv4Addr) (entry : Option (Ipv4Addr × MacAddr)) : Bool :=
  entry.any fun e => e.1 = ip

def insert (cache : ArpCache) (ip : Ipv4Addr) (mac : MacAddr) : ArpCache :=
  match cache.entries.toList.findIdx? (holds ip) with
  | some i => { cache with entries := cache.entries.setIfInBounds i (some (ip, mac)) }
  | none =>
    { entries := cache.entries.setIfInBounds cache.next (some (ip, mac))
      next := (cache.next + 1) % 16 }

def lookup (cache : ArpCache) (ip : Ipv4Addr) : Option MacAddr :=
  ((cache.entries.toList.find? (holds ip)).join).map Prod.snd

abbrev Entry := Ipv4Addr × MacAddr

def Slot (c : ArpCache) (i : Nat) (e : Entry) : Prop := c.entries.toList[i]? = some (some e)

def run (c : ArpCache) (ops : List Entry) : ArpCache := ops.foldl (fun c op => c.insert op.1 op.2) c

def misses (c : ArpCache) : List Entry → Nat
  | [] => 0
  | op :: ops => (if c.lookup op.1 = none then 1 else 0) + misses (c.insert op.1 op.2) ops

variable {c : ArpCache} {ip : Ipv4Addr} {e : Entry} {k : Nat} {ops : List Entry}

theorem holds_iff {entry : Option Entry} : holds ip entry ↔ ∃ mac, entry = some (ip, mac) := by
  rcases entry with _ | ⟨other, mac⟩ <;> simp [holds]

theorem lookup_cases (c : ArpCache) (ip : Ipv4Addr) : c.lookup ip = none ∧ (∀ i mac, ¬ c.Slot i (ip, mac)) ∨
    ∃ i mac, c.lookup ip = some mac ∧ c.Slot i (ip, mac) := by
  unfold lookup
  cases hfind : c.entries.toList.find? (holds ip) with
  | none =>
    refine .inl ⟨rfl, fun i mac hslot => ?_⟩
    exact find?_eq_none.mp hfind _ (mem_of_getElem? hslot) (holds_iff.mpr ⟨mac, rfl⟩)
  | some entry =>
    obtain ⟨mac, rfl⟩ := holds_iff.mp (find?_some hfind)
    obtain ⟨i, hslot⟩ := mem_iff_getElem?.mp (mem_of_find?_eq_some hfind)
    exact .inr ⟨i, mac, rfl, hslot⟩

theorem lookup_none : c.lookup ip = none ↔ ∀ i mac, ¬ c.Slot i (ip, mac) := by
  rcases lookup_cases c ip with ⟨hnone, habsent⟩ | ⟨i, mac, hfound, hslot⟩
  · exact ⟨fun _ => habsent, fun _ => hnone⟩
  · rw [hfound]
    exact ⟨nofun, fun habsent => absurd hslot (habsent i mac)⟩

theorem insert_cases (c : ArpCache) (e : Entry) : ∃ k next,
    c.insert e.1 e.2 = ⟨c.entries.setIfInBounds k (some e), next⟩ ∧ ((∃ old, c.Slot k (e.1, old)) ∧ next = c.next ∨
      c.lookup e.1 = none ∧ k = c.next ∧ next = (c.next + 1) % 16) := by
  unfold insert
  split
  · rename_i k hfind
    obtain ⟨hk, hholds, -⟩ := findIdx?_eq_some_iff_getElem.mp hfind
    obtain ⟨old, hold⟩ := holds_iff.mp hholds
    exact ⟨k, _, rfl, .inl ⟨⟨old, List.getElem?_eq_some_iff.mpr ⟨hk, hold⟩⟩, rfl⟩⟩
  · rename_i hfind
    refine ⟨_, _, rfl, .inr ⟨lookup_none.mpr fun i mac hslot => ?_, rfl, rfl⟩⟩
    have hother := findIdx?_eq_none_iff.mp hfind _ (mem_of_getElem? hslot)
    rw [holds_iff.mpr ⟨mac, rfl⟩] at hother
    cases hother

theorem slot_set {next i : Nat} {e' : Entry} : Slot ⟨c.entries.setIfInBounds k (some e), next⟩ i e' ↔
    if k = i then k < 16 ∧ e = e' else c.Slot i e' := by
  simp only [Slot, Vector.toList_setIfInBounds, getElem?_set, Vector.length_toList]
  by_cases hk : k < 16 <;> split <;> simp [hk]

/-- No address has two slots, and each entry is the last inserted for its address. -/
structure Faithful (ops : List Entry) (c : ArpCache) : Prop where
  next : c.next < 16
  once : ∀ {i j e e'}, c.Slot i e → c.Slot j e' → e.1 = e'.1 → i = j
  latest : ∀ {i e}, c.Slot i e → ops.reverse.lookup e.1 = some e.2

theorem Faithful.insert (h : Faithful ops c) (e : Entry) : Faithful (ops ++ [e]) (c.insert e.1 e.2) := by
  obtain ⟨k, next, hinsert, hcase⟩ := insert_cases c e
  have honly : next < 16 ∧ ∀ i mac, c.Slot i (e.1, mac) → i = k := by
    rcases hcase with ⟨⟨old, there⟩, rfl⟩ | ⟨absent, rfl, rfl⟩
    · exact ⟨h.next, fun i mac hslot => h.once hslot there rfl⟩
    · exact ⟨Nat.mod_lt _ (by decide), fun i mac hslot => absurd hslot (lookup_none.mp absent i mac)⟩
  rw [hinsert]
  refine ⟨honly.1, fun {i j e1 e2} hi hj => ?_, fun {i e1} hi => ?_⟩
  · rw [slot_set] at hi hj
    grind [h.once]
  · rw [slot_set] at hi
    rw [reverse_concat, lookup_cons]
    grind [h.latest]

theorem faithful_new : Faithful [] new := by
  have hnone : ∀ i e, ¬ new.Slot i e := fun i e hslot => by simpa [new] using mem_of_getElem? hslot
  exact ⟨by decide, fun hi => absurd hi (hnone _ _), fun hi => absurd hi (hnone _ _)⟩

theorem Faithful.run (h : Faithful ops c) (more : List Entry) : Faithful (ops ++ more) (c.run more) := by
  induction more generalizing ops c with
  | nil => rwa [append_nil]
  | cons e more ih =>
    rw [append_cons]
    exact ih (h.insert e)

theorem slot_kept {f : Nat} (slot : c.Slot k e) (turn : c.next = (k + 1 + f) % 16) (few : f + misses c ops ≤ 15) :
    ∃ mac, (c.run ops).Slot k (e.1, mac) := by
  induction ops generalizing c f e with
  | nil => exact ⟨e.2, slot⟩
  | cons op ops ih =>
    have hk : k < 16 := by simpa using (List.getElem?_eq_some_iff.mp slot).1
    rw [misses] at few
    rw [run, foldl_cons]
    obtain ⟨k', next, hinsert, ⟨⟨old, there⟩, rfl⟩ | ⟨absent, rfl, rfl⟩⟩ := insert_cases c op
    · rw [hinsert] at few ⊢
      by_cases hsame : k' = k
      · subst hsame
        obtain rfl : e = (op.1, old) := Option.some.inj (Option.some.inj (slot.symm.trans there))
        exact ih (e := op) (slot_set.mpr (by simp [hk])) turn (by omega)
      · exact ih (slot_set.mpr (by rwa [if_neg hsame])) turn (by omega)
    · rw [hinsert, if_pos absent] at few
      rw [hinsert]
      have hother : c.next ≠ k := by omega
      exact ih (e := e) (f := f + 1) (slot_set.mpr (by rwa [if_neg hother])) (by dsimp only; omega) (by omega)

/-- The cache is a bounded map: an address has one entry, the last inserted for it, found until
sixteen others have been placed after it. -/
theorem arpCache_faithful (ops : List Entry) :
    (∀ i j e e', (new.run ops).Slot i e → (new.run ops).Slot j e' → e.1 = e'.1 → i = j) ∧
    (∀ ip, (new.run ops).lookup ip = none ∨ (new.run ops).lookup ip = ops.reverse.lookup ip) ∧
    ∀ before e after, ops = before ++ e :: after → (new.run before).lookup e.1 = none →
      ((new.run before).insert e.1 e.2).misses after ≤ 15 → (new.run ops).lookup e.1 ≠ none := by
  have h : Faithful ops _ := faithful_new.run ops
  refine ⟨fun i j e e' => h.once, fun ip => ?_, ?_⟩
  · rcases lookup_cases (new.run ops) ip with ⟨hnone, -⟩ | ⟨i, mac, hfound, hslot⟩
    · exact .inl hnone
    · rw [hfound, h.latest hslot]
      exact .inr rfl
  · rintro before e after rfl hnew hfew hlost
    have hnext := (faithful_new.run before).next
    have hrun : new.run (before ++ e :: after) = ((new.run before).insert e.1 e.2).run after := foldl_append
    obtain ⟨k, next, hinsert, ⟨⟨old, there⟩, -⟩ | ⟨-, rfl, rfl⟩⟩ := insert_cases (new.run before) e
    · exact lookup_none.mp hnew k old there
    · have hslot : ((new.run before).insert e.1 e.2).Slot (new.run before).next e := by
        rw [hinsert, slot_set, if_pos rfl]
        exact ⟨hnext, rfl⟩
      obtain ⟨mac, hkept⟩ := slot_kept (f := 0) hslot (by rw [hinsert]) ((Nat.zero_add _).trans_le hfew)
      rw [← hrun] at hkept
      exact lookup_none.mp hlost _ mac hkept

end ArpCache

end Arp

namespace Ipv4

def headerLen : Nat := 20

structure Ipv4Packet where
  protocol : Byte
  src : Ipv4Addr
  dst : Ipv4Addr
  ttl : Byte
  payload : List Byte
  deriving DecidableEq

def parse (buf : List Byte) : Except NetError Ipv4Packet :=
  if buf.length < headerLen then .error .truncated
  else
    let version := buf.getD 0 0 >>> 4
    let ihl := (buf.getD 0 0 &&& 0x0F).toNat * 4
    if version ≠ 4 ∨ ihl < headerLen ∨ buf.length < ihl then .error .malformed
    else
      let totalLen := be16 buf 2
      if totalLen < ihl ∨ buf.length < totalLen then .error .malformed
      else if checksum (buf.take ihl) ≠ 0 then .error .badChecksum
      else .ok
        { protocol := buf.getD 9 0
          src := octets 4 buf 12
          dst := octets 4 buf 16
          ttl := buf.getD 8 0
          payload := slice buf ihl (totalLen - ihl) }

theorem parse_length {packet : Ipv4Packet} (parsed : parse buf = .ok packet) :
    packet.payload.length + 20 ≤ buf.length := by
  rw [parse, headerLen] at parsed
  dsimp only at parsed
  split_ifs at parsed
  cases parsed
  rw [slice, length_take, length_drop]
  omega

variable (src dst : Ipv4Addr)

def header (protocol ttl : Byte) (identification total csum : Nat) : List Byte :=
  [0x45, 0] ++ toBE 2 total ++ toBE 2 identification ++ toBE 2 0x4000 ++ [ttl, protocol] ++
    toBE 2 csum ++ (src.toList ++ dst.toList)

def build (room : Nat) (src dst : Ipv4Addr) (protocol ttl : Byte) (identification : Nat)
    (payload : List Byte) : Except NetError (List Byte) :=
  let total := headerLen + payload.length
  if room < total ∨ 0xFFFF < total then .error .bufferTooSmall
  else
    let csum := checksum (header src dst protocol ttl identification total 0)
    .ok (header src dst protocol ttl identification total csum ++ payload)

theorem header_length (protocol ttl : Byte) (identification total csum : Nat) :
    (header src dst protocol ttl identification total csum).length = headerLen := by
  simp only [header, length_append, length_cons, length_nil, toBE_length,
    Vector.length_toList, headerLen]

theorem build_eq_ok (fits : headerLen + payload.length ≤ room)
    (small : headerLen + payload.length ≤ 0xFFFF) (src dst : Ipv4Addr) (protocol ttl : Byte)
    (identification : Nat) :
    ∃ packet, build room src dst protocol ttl identification payload = .ok packet ∧
      packet.length = headerLen + payload.length := by
  refine ⟨_, by rw [build, if_neg (by omega)], ?_⟩
  rw [length_append, header_length]

theorem checksum_header (protocol ttl : Byte) (identification total : Nat) :
    checksum (header src dst protocol ttl identification total
      (checksum (header src dst protocol ttl identification total 0))) = 0 := by
  have hfits : checksum (header src dst protocol ttl identification total 0) < 2 ^ 16 :=
    checksumFold_lt _
  have heven : ([0x45, 0] ++ toBE 2 total ++ toBE 2 identification ++ toBE 2 0x4000 ++
      [ttl, protocol]).length % 2 = 0 := by
    simp only [length_append, length_cons, length_nil, toBE_length]
  rw [checksum, checksumAccumulate, zero_add, header, wordsSum_insert heven hfits]
  rw [checksum, checksumAccumulate, zero_add]
  exact fold16_add_complement _

theorem build_parts {identification : Nat} {src dst : Ipv4Addr} {protocol ttl : Byte} {packet : List Byte}
    (built : build room src dst protocol ttl identification payload = .ok packet) :
    ∃ csum bytes, bytes = header src dst protocol ttl identification (headerLen + payload.length) csum ∧
      bytes.length = headerLen ∧ checksum bytes = 0 ∧ headerLen + payload.length ≤ 0xFFFF ∧
        packet = bytes ++ payload := by
  rw [build] at built
  split at built
  · cases built
  · rename_i hroom
    cases built
    rw [not_or, not_lt, not_lt] at hroom
    exact ⟨_, _, rfl, header_length .., checksum_header .., hroom.2, rfl⟩

theorem parse_build {identification : Nat} {src dst : Ipv4Addr} {protocol ttl : Byte}
    {packet : List Byte}
    (built : build room src dst protocol ttl identification payload = .ok packet)
    (trailer : List Byte) : parse (packet ++ trailer) = .ok ⟨protocol, src, dst, ttl, payload⟩ := by
  obtain ⟨csum, bytes, hbytes, hlen, hsum, hroom, rfl⟩ := build_parts built
  generalize hbuf : bytes ++ payload ++ trailer = buf
  have hsize : buf.length = headerLen + payload.length + trailer.length := by
    rw [← hbuf, length_append, length_append, hlen]
  have hcheck : checksum (buf.take headerLen) = 0 := by
    rw [← hbuf, append_assoc, take_left' hlen, hsum]
  have hpayload : slice buf headerLen (headerLen + payload.length - headerLen) = payload :=
    slice_eq_of_parts _ trailer hbuf.symm hlen.symm (Nat.add_sub_cancel_left _ _)
  rw [hbytes] at hbuf
  have hfirst : buf.getD 0 0 = 0x45 := by
    rw [← hbuf]
    rfl
  have hihl : (buf.getD 0 0 &&& 0x0F).toNat * 4 = headerLen := by
    rw [hfirst]
    rfl
  have htotal : be16 buf 2 = headerLen + payload.length := by
    rw [← hbuf]
    exact be16_of_slice rfl (lt_succ_of_le hroom)
  have hsrc : octets 4 buf 12 = src := by
    refine octets_of_parts src ([0x45, 0] ++ toBE 2 (headerLen + payload.length) ++
      toBE 2 identification ++ toBE 2 0x4000 ++ [ttl, protocol] ++ toBE 2 csum)
      (dst.toList ++ (payload ++ trailer)) ?_ rfl
    simp only [← hbuf, header, append_assoc]
  have hdst : octets 4 buf 16 = dst := by
    refine octets_of_parts dst ([0x45, 0] ++ toBE 2 (headerLen + payload.length) ++
      toBE 2 identification ++ toBE 2 0x4000 ++ [ttl, protocol] ++ toBE 2 csum ++ src.toList)
      (payload ++ trailer) ?_ ?_
    · simp only [← hbuf, header, append_assoc]
    · simp only [length_append, length_cons, length_nil, toBE_length, Vector.length_toList]
  have hrest : buf.getD 9 0 = protocol ∧ buf.getD 8 0 = ttl := by
    rw [← hbuf]
    exact ⟨rfl, rfl⟩
  rw [parse, if_neg (by omega)]
  rw [hihl, hfirst, if_neg, htotal, if_neg, hcheck, if_neg (fun h => h rfl), hpayload, hsrc, hdst,
    hrest.1, hrest.2]
  · omega
  · rw [not_or, not_or]
    exact ⟨fun h => h rfl, lt_irrefl _, by omega⟩

theorem parse_badChecksum {bytes : List Byte} (size : bytes.length = headerLen)
    (first : bytes[0]? = some 0x45) (bad : checksum bytes ≠ 0) : ∃ e, parse (bytes ++ payload) = .error e := by
  have hihl : ((bytes ++ payload).getD 0 0 &&& 0x0F).toNat * 4 = headerLen := by
    rw [getD_eq_getElem?_getD, getElem?_append_left (by rw [size]; decide), first]
    rfl
  unfold parse
  dsimp only
  rw [hihl, take_left' size, if_pos bad]
  split
  · exact ⟨_, rfl⟩
  · split
    · exact ⟨_, rfl⟩
    · split
      · exact ⟨_, rfl⟩
      · exact ⟨_, rfl⟩

/-- A header with one word changed after the first, other than between 0 and all ones, is refused. -/
theorem header_damage_detected {room identification : Nat} {src dst : Ipv4Addr} {protocol ttl : Byte}
    {payload packet : List Byte}
    (built : build room src dst protocol ttl identification payload = .ok packet) :
    parse packet = .ok ⟨protocol, src, dst, ttl, payload⟩ ∧
      ∀ k word, 1 ≤ k → k < 10 → word < 2 ^ 16 → word ≠ be16 packet (2 * k) →
        ¬ (word = 0xFFFF ∧ be16 packet (2 * k) = 0) → ¬ (word = 0 ∧ be16 packet (2 * k) = 0xFFFF) →
        ∃ e, parse (splice packet (2 * k) (toBE 2 word)) = .error e := by
  have hparse := parse_build built []
  rw [append_nil] at hparse
  refine ⟨hparse, ?_⟩
  intro k word hk hk' hword hchanged hones hzero
  obtain ⟨csum, bytes, hbytes, hlen : _ = 20, hcomplete, -, rfl⟩ := build_parts built
  have hfirst : bytes[0]? = some 0x45 := by
    rw [hbytes]
    rfl
  have hinside : 2 * k + (toBE 2 word).length ≤ bytes.length := by
    rw [hlen, toBE_length]
    omega
  have hsplit : splice (bytes ++ payload) (2 * k) (toBE 2 word) =
      splice bytes (2 * k) (toBE 2 word) ++ payload := by
    rw [splice, splice, take_append_of_le_length (by omega), drop_append_of_le_length hinside,
      append_assoc _ _ payload]
  rw [be16, ← slice_take (show 2 * k + 2 ≤ 20 by omega), take_left' hlen] at hchanged hones hzero
  rw [hsplit]
  refine parse_badChecksum ((splice_length hinside).trans hlen) ?_ ?_
  · rw [getElem?_splice hinside, if_neg (by omega), hfirst]
  · intro hbad
    have hnew : (0 + wordsSum (splice bytes (2 * k) (toBE 2 word))) % 0xFFFF = 0 := multiple_of_complete hbad
    have hwas : (0 + wordsSum bytes) % 0xFFFF = 0 := multiple_of_complete hcomplete
    have hsum := wordsSum_splice (mul_mod_right 2 k) (by rwa [toBE_length] at hinside) hword
    have hlt := ofBE_lt (slice bytes (2 * k) 2)
    rw [slice_length (by rwa [toBE_length] at hinside)] at hlt
    omega

theorem header_damage_detected_ttl : ∃ packet, build 20 ipBroadcast ipBroadcast 17 64 0 [] = .ok packet ∧
    ∃ e, parse (splice packet 8 (toBE 2 0x3F11)) = .error e := by
  have hbuilt : build 20 ipBroadcast ipBroadcast 17 64 0 [] = .ok _ := rfl
  exact ⟨_, hbuilt, (header_damage_detected hbuilt).2 4 0x3F11 (by decide) (by decide) (by decide)
    (by decide) (by decide) (by decide)⟩

end Ipv4

namespace Udp

def headerLen : Nat := 8

structure UdpDatagram where
  srcPort : Port
  dstPort : Port
  payload : List Byte

def pseudoHeaderSum (src dst : Ipv4Addr) (udpLen : Nat) : Nat :=
  checksumAccumulate 0 (src.toList ++ dst.toList ++ [0, protoUdp] ++ toBE 2 udpLen)

/-- A zero checksum field means that none was computed. -/
def parse (buf : List Byte) (src dst : Ipv4Addr) : Except NetError UdpDatagram :=
  if buf.length < headerLen then .error .truncated
  else
    let length := be16 buf 4
    if length < headerLen ∨ buf.length < length then .error .malformed
    else if be16 buf 6 ≠ 0 ∧
        checksumFold (checksumAccumulate (pseudoHeaderSum src dst length) (buf.take length)) ≠ 0 then
      .error .badChecksum
    else .ok
      { srcPort := BitVec.ofNat 16 (be16 buf 0)
        dstPort := BitVec.ofNat 16 (be16 buf 2)
        payload := slice buf headerLen (length - headerLen) }

def datagram (srcPort dstPort : Port) (payload : List Byte) (csum : Nat) : List Byte :=
  toBE 2 srcPort.toNat ++ toBE 2 dstPort.toNat ++ toBE 2 (headerLen + payload.length) ++
    toBE 2 csum ++ payload

/-- A checksum of zero is transmitted as all ones. -/
def transmitted (csum : Nat) : Nat := if csum = 0 then 0xFFFF else csum

def build (room : Nat) (src dst : Ipv4Addr) (srcPort dstPort : Port) (payload : List Byte) :
    Except NetError (List Byte) :=
  let total := headerLen + payload.length
  if room < total ∨ 0xFFFF < total then .error .bufferTooSmall
  else
    let csum := checksumFold (checksumAccumulate (pseudoHeaderSum src dst total)
      (datagram srcPort dstPort payload 0))
    .ok (datagram srcPort dstPort payload (transmitted csum))

theorem datagram_length (srcPort dstPort : Port) (payload : List Byte) (csum : Nat) :
    (datagram srcPort dstPort payload csum).length = headerLen + payload.length := by
  simp only [datagram, length_append, toBE_length, headerLen]

theorem build_eq_ok (fits : headerLen + payload.length ≤ room)
    (small : headerLen + payload.length ≤ 0xFFFF) (src dst : Ipv4Addr) (srcPort dstPort : Port) :
    ∃ bytes, build room src dst srcPort dstPort payload = .ok bytes ∧
      bytes.length = headerLen + payload.length := by
  refine ⟨_, by rw [build, if_neg (by omega)], ?_⟩
  rw [datagram_length]

theorem checksum_datagram (sum : Nat) (srcPort dstPort : Port) (payload : List Byte) :
    checksumFold (checksumAccumulate sum (datagram srcPort dstPort payload (transmitted
      (checksumFold (checksumAccumulate sum (datagram srcPort dstPort payload 0)))))) = 0 := by
  have heven : (toBE 2 srcPort.toNat ++ toBE 2 dstPort.toNat ++
      toBE 2 (headerLen + payload.length)).length % 2 = 0 := by
    simp only [length_append, toBE_length]
  have hinsert {csum : Nat} (fits : csum < 2 ^ 16) :
      checksumAccumulate sum (datagram srcPort dstPort payload csum) =
        checksumAccumulate sum (datagram srcPort dstPort payload 0) + csum := by
    rw [checksumAccumulate, datagram, wordsSum_insert heven fits, ← add_assoc]
    rfl
  generalize hzero : checksumAccumulate sum (datagram srcPort dstPort payload 0) = total at hinsert
  rw [transmitted]
  split
  · rename_i hnone
    rw [hinsert (by decide)]
    exact fold16_add_ones hnone
  · rw [hinsert (checksumFold_lt total)]
    exact fold16_add_complement total

theorem parse_build {src dst : Ipv4Addr} {srcPort dstPort : Port}
    {bytes : List Byte} (built : build room src dst srcPort dstPort payload = .ok bytes) :
    parse bytes src dst = .ok ⟨srcPort, dstPort, payload⟩ := by
  rw [build] at built
  split at built
  · cases built
  · rename_i hroom
    cases built
    rw [not_or, not_lt, not_lt] at hroom
    have hsum := checksum_datagram (pseudoHeaderSum src dst (headerLen + payload.length)) srcPort
      dstPort payload
    generalize transmitted (checksumFold (checksumAccumulate
      (pseudoHeaderSum src dst (headerLen + payload.length))
      (datagram srcPort dstPort payload 0))) = csum at hsum
    have hlen := datagram_length srcPort dstPort payload csum
    have hsrc : be16 (datagram srcPort dstPort payload csum) 0 = srcPort.toNat :=
      be16_of_slice rfl srcPort.isLt
    have hdst : be16 (datagram srcPort dstPort payload csum) 2 = dstPort.toNat :=
      be16_of_slice rfl dstPort.isLt
    have hlength : be16 (datagram srcPort dstPort payload csum) 4 = headerLen + payload.length :=
      be16_of_slice rfl (lt_succ_of_le hroom.2)
    have hpayload : slice (datagram srcPort dstPort payload csum) headerLen
        (headerLen + payload.length - headerLen) = payload :=
      slice_eq_of_parts (toBE 2 srcPort.toNat ++ toBE 2 dstPort.toNat ++
        toBE 2 (headerLen + payload.length) ++ toBE 2 csum) [] (append_nil _).symm rfl
        (Nat.add_sub_cancel_left _ _)
    rw [parse, if_neg (by omega)]
    rw [hlength, if_neg (by omega), take_of_length_le (by omega), hsum,
      if_neg (·.2 rfl), hsrc, hdst, hpayload, BitVec.ofNat_toNat, BitVec.ofNat_toNat,
      BitVec.setWidth_eq, BitVec.setWidth_eq]

end Udp

namespace Icmp

def echoHeaderLen : Nat := 8

def typeEchoReply : Byte := 0
def typeEchoRequest : Byte := 8

structure IcmpEcho where
  isReply : Bool
  id : Nat
  seq : Nat
  payload : List Byte
  deriving DecidableEq

def parse (buf : List Byte) : Except NetError IcmpEcho :=
  if buf.length < echoHeaderLen then .error .truncated
  else if buf.getD 0 0 ≠ typeEchoReply ∧ buf.getD 0 0 ≠ typeEchoRequest then .error .malformed
  else if checksum buf ≠ 0 then .error .badChecksum
  else .ok
    { isReply := buf.getD 0 0 = typeEchoReply
      id := be16 buf 4
      seq := be16 buf 6
      payload := buf.drop echoHeaderLen }

def message (type : Byte) (id seq : Nat) (payload : List Byte) (csum : Nat) : List Byte :=
  [type, 0] ++ toBE 2 csum ++ toBE 2 id ++ toBE 2 seq ++ payload

def build (room : Nat) (type : Byte) (id seq : Nat) (payload : List Byte) :
    Except NetError (List Byte) :=
  if room < echoHeaderLen + payload.length then .error .bufferTooSmall
  else .ok (message type id seq payload (checksum (message type id seq payload 0)))

def echoReply (room id seq : Nat) (payload : List Byte) : Except NetError (List Byte) :=
  build room typeEchoReply id seq payload

theorem echoReply_eq_ok (fits : echoHeaderLen + payload.length ≤ room) (id seq : Nat) :
    ∃ icmp, echoReply room id seq payload = .ok icmp ∧ icmp.length = echoHeaderLen + payload.length := by
  refine ⟨_, if_neg (not_lt.mpr fits), ?_⟩
  simp only [message, length_append, length_cons, length_nil, toBE_length, echoHeaderLen]

end Icmp

end CibosPlatform.Net.Packets

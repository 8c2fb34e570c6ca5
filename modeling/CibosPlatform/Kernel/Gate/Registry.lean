/- source: cibos-kernel/src/gate.rs
   digest: Gates, the links that wait on them and the Warden's deny list. -/

import CibosPlatform.Kernel.Channel.Queue
import Mathlib.Data.Finset.Basic

namespace CibosPlatform.Kernel.Gate.Registry

open Core LittleEndian Maps Channel Channel.Sharing Shared.Ipc

abbrev GateId := Nat

inductive GateState where
  | isOpen
  | closed
  | blocked

inductive GateError where
  | refused
  | alreadyBound
  | blocked
  | wouldBlock
  | notOwner

structure PendingConnect where
  requester : BoundaryId
  listenerLink : ChannelRef

structure BoundGate where
  owner : BoundaryId
  pending : List PendingConnect

structure GateRegistry where
  bound : SortedMap GateId BoundGate
  denied : Finset GateId
  linkCapacity : Nat
  linkMaxMessage : Nat

def latticeLink : List Byte := [108, 97, 116, 116, 105, 99, 101, 45, 108, 105, 110, 107]

namespace GateRegistry

def new : GateRegistry where
  bound := .empty
  denied := ∅
  linkCapacity := 16
  linkMaxMessage := 2048

variable (gate : GateId) (r : GateRegistry)

def isAllowed : Bool := gate ∉ r.denied

def wardenDeny : GateRegistry :=
  { r with denied := insert gate r.denied }

def wardenAllow : GateRegistry :=
  { r with denied := r.denied.erase gate }

variable (owner : BoundaryId)

def bind (gate : GateId) : Except GateError GateRegistry :=
  if r.isAllowed gate = false then .error .blocked
  else if (r.bound.get? gate).isSome then .error .alreadyBound
  else .ok { r with bound := r.bound.insert gate ⟨owner, []⟩ }

def unbind (gate : GateId) : Except GateError GateRegistry :=
  match r.bound.get? gate with
  | some g => if g.owner = owner then .ok { r with bound := r.bound.erase gate } else .error .notOwner
  | none => .error .refused

def connect {K : Type} (requester : BoundaryId) (gate : GateId) (id : ChannelId) (cs : Channels K) :
    Except GateError (ChannelRef × GateRegistry × Channels K) :=
  if r.isAllowed gate = false then .error .blocked
  else match r.bound.get? gate with
    | none => .error .refused
    | some g => match ChannelTerms.new latticeLink .bidirectional r.linkMaxMessage r.linkCapacity with
      | .error _ => .error .refused
      | .ok terms => .ok (cs.fresh,
          { r with bound := r.bound.insert gate { g with pending := g.pending ++ [⟨requester, cs.fresh⟩] } },
          cs.create (.new id terms))

def accept (gate : GateId) : Except GateError ((ChannelRef × BoundaryId) × GateRegistry) :=
  match r.bound.get? gate with
  | none => .error .refused
  | some g =>
    if g.owner ≠ owner then .error .notOwner
    else match g.pending with
      | [] => .error .wouldBlock
      | p :: rest => .ok ((p.listenerLink, p.requester),
          { r with bound := r.bound.insert gate { g with pending := rest } })

def probe : GateState :=
  if r.isAllowed gate = false then .blocked
  else if (r.bound.get? gate).isSome then .isOpen
  else .closed

variable {owner requester : BoundaryId} {gate : GateId} {r r' : GateRegistry}

@[simp] theorem isAllowed_eq_true : r.isAllowed gate = true ↔ gate ∉ r.denied := by
  rw [isAllowed, decide_eq_true_eq]

theorem bind_eq_ok : r.bind owner gate = .ok r' ↔ gate ∉ r.denied ∧ r.bound.get? gate = none ∧
    r' = { r with bound := r.bound.insert gate ⟨owner, []⟩ } := by
  rw [bind]
  split
  · rename_i hblocked
    refine ⟨nofun, fun h => ?_⟩
    rw [isAllowed_eq_true.mpr h.1] at hblocked
    cases hblocked
  · rename_i hallowed
    have hallowed := isAllowed_eq_true.mp (Bool.eq_true_of_not_eq_false hallowed)
    split
    · rename_i hbound
      refine ⟨nofun, fun h => ?_⟩
      rw [h.2.1] at hbound
      cases hbound
    · rename_i hfree
      rw [Except.ok.injEq]
      exact ⟨fun h => ⟨hallowed, by simpa using hfree, h.symm⟩, fun h => h.2.2.symm⟩

theorem unbind_eq_ok : r.unbind owner gate = .ok r' ↔
    ∃ queue, r.bound.get? gate = some ⟨owner, queue⟩ ∧ r' = { r with bound := r.bound.erase gate } := by
  rw [unbind]
  split
  · rename_i g hbound
    rw [hbound]
    split
    · rename_i howner
      rw [Except.ok.injEq]
      constructor
      · rintro rfl
        exact ⟨g.pending, by rw [← howner], rfl⟩
      · rintro ⟨queue, -, rfl⟩
        rfl
    · rename_i hother
      refine ⟨nofun, ?_⟩
      rintro ⟨queue, hsame, -⟩
      rw [Option.some.inj hsame] at hother
      exact absurd rfl hother
  · rename_i hnone
    refine ⟨nofun, ?_⟩
    rintro ⟨queue, hsame, -⟩
    rw [hnone] at hsame
    cases hsame

theorem accept_eq_ok {got : ChannelRef × BoundaryId} (h : r.accept owner gate = .ok (got, r')) :
    ∃ p rest, r.bound.get? gate = some ⟨owner, p :: rest⟩ ∧ got = (p.listenerLink, p.requester) ∧
      r' = { r with bound := r.bound.insert gate ⟨owner, rest⟩ } := by
  rw [accept] at h
  split at h
  · cases h
  · rename_i g hbound
    obtain ⟨holder, queue⟩ := g
    split at h
    · cases h
    · rename_i howner
      obtain rfl : holder = owner := not_not.mp howner
      cases queue with
      | nil => cases h
      | cons p rest =>
        cases h
        exact ⟨p, rest, hbound, rfl, rfl⟩

theorem connect_eq_ok {K : Type} {id : ChannelId} {cs cs' : Channels K} {link : ChannelRef}
    (h : r.connect requester gate id cs = .ok (link, r', cs')) :
    ∃ owner queue terms, gate ∉ r.denied ∧ r.bound.get? gate = some ⟨owner, queue⟩ ∧ link = cs.fresh ∧
      r' = { r with bound := r.bound.insert gate ⟨owner, queue ++ [⟨requester, cs.fresh⟩]⟩ } ∧
      cs' = cs.create (.new id terms) := by
  rw [connect] at h
  split at h
  · cases h
  · rename_i hallowed
    split at h
    · cases h
    · rename_i g hbound
      split at h
      · cases h
      · rename_i terms hterms
        cases h
        exact ⟨g.owner, g.pending, terms, isAllowed_eq_true.mp (Bool.eq_true_of_not_eq_false hallowed),
          hbound, rfl, rfl, rfl⟩

end GateRegistry

structure LatticeState (K : Type) where
  gates : GateRegistry
  channels : Channels K

namespace LatticeState

variable {K : Type}

def new (channels : Channels K) : LatticeState K := ⟨.new, channels⟩

def put (s : LatticeState K) (gate : GateId) (g : BoundGate) : LatticeState K :=
  { s with gates := { s.gates with bound := s.gates.bound.insert gate g } }

def drop (s : LatticeState K) (gate : GateId) : LatticeState K :=
  { s with gates := { s.gates with bound := s.gates.bound.erase gate } }

variable (s : LatticeState K) (gate gate' : GateId)

theorem get?_put (g : BoundGate) :
    (s.put gate g).gates.bound.get? gate' = if gate' = gate then some g else s.gates.bound.get? gate' :=
  SortedMap.get?_insert ..

theorem get?_drop :
    (s.drop gate).gates.bound.get? gate' = if gate' = gate then none else s.gates.bound.get? gate' :=
  SortedMap.get?_erase ..

end LatticeState

inductive Op where
  | bind (owner : BoundaryId) (gate : GateId)
  | unbind (owner : BoundaryId) (gate : GateId)
  | connect (requester : BoundaryId) (gate : GateId) (id : ChannelId)
  | accept (owner : BoundaryId) (gate : GateId)
  | wardenDeny (gate : GateId)
  | wardenAllow (gate : GateId)
  | link (ch : ChannelRef) (op : Queue.Op)

inductive Reply where
  | bind (r : Except GateError Unit)
  | unbind (r : Except GateError Unit)
  | connect (r : Except GateError ChannelRef)
  | accept (r : Except GateError (ChannelRef × BoundaryId))
  | warden
  | link (reply : Queue.Reply)

def Reply.Fails : Reply → Prop
  | bind (.error _) => True
  | unbind (.error _) => True
  | connect (.error _) => True
  | accept (.error _) => True
  | _ => False

section

variable {K : Type} [KernelInterface K]

def step (op : Op) (s : LatticeState K) : Option (Reply × LatticeState K) :=
  match op with
  | .bind owner gate =>
    match s.gates.bind owner gate with
    | .ok gates => some (.bind (.ok ()), { s with gates := gates })
    | .error e => some (.bind (.error e), s)
  | .unbind owner gate =>
    match s.gates.unbind owner gate with
    | .ok gates => some (.unbind (.ok ()), { s with gates := gates })
    | .error e => some (.unbind (.error e), s)
  | .connect requester gate id =>
    match s.gates.connect requester gate id s.channels with
    | .ok (link, gates, channels) => some (.connect (.ok link), ⟨gates, channels⟩)
    | .error e => some (.connect (.error e), s)
  | .accept owner gate =>
    match s.gates.accept owner gate with
    | .ok (got, gates) => some (.accept (.ok got), { s with gates := gates })
    | .error e => some (.accept (.error e), s)
  | .wardenDeny gate => some (.warden, { s with gates := s.gates.wardenDeny gate })
  | .wardenAllow gate => some (.warden, { s with gates := s.gates.wardenAllow gate })
  | .link ch op => some (.link (s.channels.perform ch op).1, { s with channels := (s.channels.perform ch op).2 })

inductive Stepped (s : LatticeState K) : Op → Reply → LatticeState K → Prop
  | bind {owner : BoundaryId} {gate : GateId} (allowed : gate ∉ s.gates.denied)
      (free : s.gates.bound.get? gate = none) :
      Stepped s (.bind owner gate) (.bind (.ok ())) (s.put gate ⟨owner, []⟩)
  | unbind {owner : BoundaryId} {gate : GateId} {queue : List PendingConnect}
      (bound : s.gates.bound.get? gate = some ⟨owner, queue⟩) :
      Stepped s (.unbind owner gate) (.unbind (.ok ())) (s.drop gate)
  | connect {owner requester : BoundaryId} {gate : GateId} {id : ChannelId} {queue : List PendingConnect}
      {terms : ChannelTerms} (allowed : gate ∉ s.gates.denied)
      (bound : s.gates.bound.get? gate = some ⟨owner, queue⟩) :
      Stepped s (.connect requester gate id) (.connect (.ok s.channels.fresh))
        { s.put gate ⟨owner, queue ++ [⟨requester, s.channels.fresh⟩]⟩ with
          channels := s.channels.create (.new id terms) }
  | accept {owner : BoundaryId} {gate : GateId} {p : PendingConnect} {queue : List PendingConnect}
      (bound : s.gates.bound.get? gate = some ⟨owner, p :: queue⟩) :
      Stepped s (.accept owner gate) (.accept (.ok (p.listenerLink, p.requester))) (s.put gate ⟨owner, queue⟩)
  | deny {gate : GateId} :
      Stepped s (.wardenDeny gate) .warden { s with gates := s.gates.wardenDeny gate }
  | allow {gate : GateId} :
      Stepped s (.wardenAllow gate) .warden { s with gates := s.gates.wardenAllow gate }
  | link {ch : ChannelRef} {op : Queue.Op} :
      Stepped s (.link ch op) (.link (s.channels.perform ch op).1)
        { s with channels := (s.channels.perform ch op).2 }
  | unbindRefused {owner : BoundaryId} {gate : GateId} {e : GateError}
      (other : ∀ queue, s.gates.bound.get? gate ≠ some ⟨owner, queue⟩) :
      Stepped s (.unbind owner gate) (.unbind (.error e)) s
  | refused {op : Op} {reply : Reply} (fails : reply.Fails) (keeps : ∀ owner gate, op ≠ .unbind owner gate) :
      Stepped s op reply s

theorem stepped_of_step {s s' : LatticeState K} {op : Op} {reply : Reply}
    (h : step op s = some (reply, s')) : Stepped s op reply s' := by
  cases op with
  | bind owner gate =>
    rw [step] at h
    split at h
    · rename_i gates hbind
      cases h
      obtain ⟨hallowed, hfree, rfl⟩ := GateRegistry.bind_eq_ok.mp hbind
      exact .bind hallowed hfree
    · cases h
      exact .refused trivial nofun
  | unbind owner gate =>
    rw [step] at h
    split at h
    · rename_i gates hunbind
      cases h
      obtain ⟨queue, hbound, rfl⟩ := GateRegistry.unbind_eq_ok.mp hunbind
      exact .unbind hbound
    · rename_i e hrefused
      cases h
      refine .unbindRefused fun queue hbound => ?_
      rw [GateRegistry.unbind_eq_ok.mpr ⟨queue, hbound, rfl⟩] at hrefused
      cases hrefused
  | connect requester gate id =>
    rw [step] at h
    split at h
    · rename_i link gates channels hconnect
      cases h
      obtain ⟨owner, queue, terms, hallowed, hbound, rfl, rfl, rfl⟩ := GateRegistry.connect_eq_ok hconnect
      exact .connect hallowed hbound
    · cases h
      exact .refused trivial nofun
  | accept owner gate =>
    rw [step] at h
    split at h
    · rename_i got gates haccept
      cases h
      obtain ⟨p, queue, hbound, rfl, rfl⟩ := GateRegistry.accept_eq_ok haccept
      exact .accept hbound
    · cases h
      exact .refused trivial nofun
  | wardenDeny gate =>
    cases h
    exact .deny
  | wardenAllow gate =>
    cases h
    exact .allow
  | link ch op =>
    cases h
    exact .link

end

end CibosPlatform.Kernel.Gate.Registry

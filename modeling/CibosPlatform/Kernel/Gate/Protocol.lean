/- source: cibos-kernel/src/gate.rs
   digest: Gates over whole histories: owners, denials and the order of accepted links. -/

import CibosPlatform.Kernel.Gate.Registry
import Mathlib.Data.List.Nodup

namespace CibosPlatform.Kernel.Gate.Protocol

open Core.Events Channel.Sharing Registry Shared.Ipc List Finset LatticeState

abbrev Event := Op × Reply

section

def connectsTo (gate : GateId) (events : List Event) : List (ChannelRef × BoundaryId) := events.filterMap fun
  | (.connect requester g _, .connect (.ok link)) => if g = gate then some (link, requester) else none
  | _ => none

def acceptsOn (gate : GateId) (events : List Event) : List (ChannelRef × BoundaryId) := events.filterMap fun
  | (.accept _ g, .accept (.ok got)) => if g = gate then some got else none
  | _ => none

variable (events : List Event)

def links : List ChannelRef := events.filterMap fun
  | (_, .connect (.ok link)) => some link
  | _ => none

def Releases (gate : GateId) (e : Event) : Prop := ∃ owner, e = (.unbind owner gate, .unbind (.ok ()))

def Binding (gate : GateId) (owner : BoundaryId) (pre mid : List Event) : Prop :=
  Since (Releases gate) events pre (.bind owner gate, .bind (.ok ())) mid

def Denied (gate : GateId) : Prop :=
  ∃ pre mid, Since (fun e => e = (.wardenAllow gate, .warden)) events pre (.wardenDeny gate, .warden) mid

/-- What a successful call presupposes of the calls before it. -/
def Keeps (pre : List Event) : Op → Reply → Prop
  | .bind _ gate, .bind (.ok _) => ¬ Denied pre gate ∧ ∀ owner before mid, ¬ Binding pre gate owner before mid
  | .unbind owner gate, .unbind (.ok _) => ∃ before mid, Binding pre gate owner before mid
  | .connect _ gate _, .connect (.ok _) =>
    ¬ Denied pre gate ∧ ∃ owner before mid, Binding pre gate owner before mid
  | .accept owner gate, .accept (.ok got) => ∃ before mid, Binding pre gate owner before mid ∧
      (connectsTo gate mid)[(acceptsOn gate mid).length]? = some got ∧
      got.1 ∉ (connectsTo gate before).map Prod.fst
  | _, _ => True

variable (gate : GateId) (first second : List Event)

theorem connectsTo_append : connectsTo gate (first ++ second) =
    connectsTo gate first ++ connectsTo gate second := filterMap_append

theorem acceptsOn_append : acceptsOn gate (first ++ second) =
    acceptsOn gate first ++ acceptsOn gate second := filterMap_append

theorem links_append : links (first ++ second) = links first ++ links second := filterMap_append

theorem connectsTo_sublist (events : List Event) :
    ((connectsTo gate events).map Prod.fst).Sublist (links events) := by
  induction events with
  | nil => exact List.Sublist.refl _
  | cons e events ih =>
    rw [← singleton_append, connectsTo_append, links_append, map_append]
    refine List.Sublist.append ?_ ih
    obtain ⟨op, reply⟩ := e
    rcases reply with _ | _ | (_ | link) | _ | _ | _ <;> cases op <;> try exact nil_sublist _
    rename_i requester g id
    by_cases hgate : g = gate
    · simp [connectsTo, links, hgate]
    · simp [connectsTo, links, hgate]

end

section

def Current (events : List Event) (gate : GateId) : Option BoundGate → Prop
  | none => ∀ owner pre mid, ¬ Binding events gate owner pre mid
  | some g => ∃ pre mid,
      (∀ owner pre' mid', Binding events gate owner pre' mid' ↔ owner = g.owner ∧ pre' = pre ∧ mid' = mid) ∧
      connectsTo gate mid = acceptsOn gate mid ++ g.pending.map fun p => (p.listenerLink, p.requester)

structure Neutral (gate : GateId) (e : Event) : Prop where
  notBind : ∀ owner, e ≠ (.bind owner gate, .bind (.ok ()))
  notRelease : ¬ Releases gate e

structure Follows {K : Type} (events : List Event) (s : LatticeState K) : Prop where
  denied : ∀ gate, gate ∈ s.gates.denied ↔ Denied events gate
  current : ∀ gate, Current events gate (s.gates.bound.get? gate)
  fresh : ∀ link ∈ links events, link < s.channels.fresh
  once : (links events).Nodup

variable {K : Type} {s s' : LatticeState K} {events : List Event} {gate : GateId} {e : Event}

theorem denied_snoc : Denied (events ++ [e]) gate ↔
    e = (.wardenDeny gate, .warden) ∨ Denied events gate ∧ e ≠ (.wardenAllow gate, .warden) := by
  constructor
  · rintro ⟨pre, mid, hsince⟩
    rcases since_snoc.mp hsince with ⟨hlast, -⟩ | ⟨mid', hbefore, -, hkept⟩
    · exact .inl hlast.symm
    · exact .inr ⟨⟨pre, mid', hbefore⟩, hkept⟩
  · rintro (hlast | ⟨⟨pre, mid, hbefore⟩, hkept⟩)
    · exact ⟨events, [], since_snoc.mpr (.inl ⟨hlast.symm, rfl, rfl⟩)⟩
    · exact ⟨pre, mid ++ [e], since_snoc.mpr (.inr ⟨mid, hbefore, rfl, hkept⟩)⟩

variable {owner : BoundaryId}

theorem Neutral.binding_snoc (h : Neutral gate e) {pre mid : List Event} :
    Binding (events ++ [e]) gate owner pre mid ↔ ∃ mid', Binding events gate owner pre mid' ∧ mid = mid' ++ [e] := by
  constructor
  · intro hbinding
    rcases since_snoc.mp hbinding with ⟨hlast, -⟩ | ⟨mid', hbefore, hmid, -⟩
    · exact absurd hlast.symm (h.notBind owner)
    · exact ⟨mid', hbefore, hmid⟩
  · rintro ⟨mid', hbefore, hmid⟩
    exact since_snoc.mpr (.inr ⟨mid', hbefore, hmid, h.notRelease⟩)

theorem Current.moved {queue queue' : List PendingConnect} (h : Current events gate (some ⟨owner, queue⟩))
    (neutral : Neutral gate e)
    (moved : queue.map (fun p => (p.listenerLink, p.requester)) ++ connectsTo gate [e] =
      acceptsOn gate [e] ++ queue'.map fun p => (p.listenerLink, p.requester)) :
    Current (events ++ [e]) gate (some ⟨owner, queue'⟩) := by
  obtain ⟨pre, mid, hunique, hconnects⟩ := h
  refine ⟨pre, mid ++ [e], fun owner' pre' mid' => ?_, ?_⟩
  · rw [neutral.binding_snoc]
    constructor
    · rintro ⟨mid1, hbinding, rfl⟩
      obtain ⟨howner, hpre, rfl⟩ := (hunique owner' pre' mid1).mp hbinding
      exact ⟨howner, hpre, rfl⟩
    · rintro ⟨howner, hpre, rfl⟩
      exact ⟨mid, (hunique owner' pre' mid).mpr ⟨howner, hpre, rfl⟩, rfl⟩
  · rw [connectsTo_append, hconnects, append_assoc, moved, acceptsOn_append, append_assoc]

theorem Current.kept {b : Option BoundGate} (h : Current events gate b) (neutral : Neutral gate e)
    (noConnect : connectsTo gate [e] = []) (noAccept : acceptsOn gate [e] = []) :
    Current (events ++ [e]) gate b := by
  cases b with
  | none =>
    intro owner pre mid hbinding
    obtain ⟨mid', hbefore, -⟩ := neutral.binding_snoc.mp hbinding
    exact h owner pre mid' hbefore
  | some g =>
    apply Current.moved h neutral
    rw [noConnect, noAccept, append_nil, nil_append]

theorem Current.bound (h : Current events gate none) :
    Current (events ++ [(.bind owner gate, .bind (.ok ()))]) gate (some ⟨owner, []⟩) := by
  refine ⟨events, [], fun owner' pre' mid' => ?_, rfl⟩
  constructor
  · intro hbinding
    rcases since_snoc.mp hbinding with ⟨hsame, hpre, hmid⟩ | ⟨mid1, hbefore, -⟩
    · cases hsame
      exact ⟨rfl, hpre, hmid⟩
    · exact absurd hbefore (h owner' pre' mid1)
  · rintro ⟨rfl, rfl, rfl⟩
    exact since_snoc.mpr (.inl ⟨rfl, rfl, rfl⟩)

theorem Current.released :
    Current (events ++ [(.unbind owner gate, .unbind (.ok ()))]) gate none := by
  intro owner' pre mid hbinding
  rcases since_snoc.mp hbinding with ⟨hsame, -⟩ | ⟨-, -, -, hkept⟩
  · cases hsame
  · exact hkept ⟨owner, rfl⟩

theorem follows_new (channels : Channels K) : Follows [] (new channels) := by
  refine ⟨fun gate => ?_, fun gate owner pre mid => not_since_nil, nofun, nodup_nil⟩
  refine ⟨fun h => absurd h (notMem_empty gate), ?_⟩
  rintro ⟨pre, mid, hsince⟩
  exact absurd hsince not_since_nil

def Counted (events : List Event) (s : LatticeState K) : Prop :=
  (∀ link ∈ links events, link < s.channels.fresh) ∧ (links events).Nodup

variable (h : Follows events s)

include h

private theorem Follows.noLink (none : links [e] = []) (fresh : s'.channels.fresh = s.channels.fresh) :
    Counted (events ++ [e]) s' := by
  rw [Counted, links_append, none, append_nil, fresh]
  exact ⟨h.fresh, h.once⟩

private theorem Follows.oneLink (one : links [e] = [s.channels.fresh])
    (fresh : s'.channels.fresh = s.channels.fresh + 1) : Counted (events ++ [e]) s' := by
  rw [Counted, links_append, one, fresh]
  constructor
  · intro link hlink
    rcases mem_append.mp hlink with hlink | hlink
    · exact (h.fresh link hlink).trans (lt_add_one _)
    · rw [List.mem_singleton.mp hlink]
      exact lt_add_one _
  · refine List.Nodup.append h.once (nodup_singleton _) ?_
    rw [List.disjoint_singleton]
    exact fun hlink => lt_irrefl _ (h.fresh _ hlink)

private theorem Follows.denied_same (denied : s'.gates.denied = s.gates.denied) (notWarden : e.2 ≠ .warden)
    (gate : GateId) : gate ∈ s'.gates.denied ↔ Denied (events ++ [e]) gate := by
  rw [denied_snoc, denied, h.denied gate]
  constructor
  · refine fun hd => .inr ⟨hd, ?_⟩
    rintro rfl
    exact notWarden rfl
  · rintro (rfl | hd)
    · exact absurd rfl notWarden
    · exact hd.1

theorem Follows.idle (gates : s'.gates = s.gates) (fresh : s'.channels.fresh = s.channels.fresh)
    (notWarden : e.2 ≠ .warden) (neutral : ∀ gate, Neutral gate e)
    (noConnect : ∀ gate, connectsTo gate [e] = []) (noAccept : ∀ gate, acceptsOn gate [e] = [])
    (noLink : links [e] = []) : Follows (events ++ [e]) s' := by
  obtain ⟨hfresh, honce⟩ := h.noLink noLink fresh
  refine ⟨h.denied_same (by rw [gates]) notWarden, fun gate => ?_, hfresh, honce⟩
  rw [gates]
  exact (h.current gate).kept (neutral gate) (noConnect gate) (noAccept gate)

theorem Follows.changed (b : Option BoundGate)
    (get? : ∀ gate', s'.gates.bound.get? gate' = if gate' = gate then b else s.gates.bound.get? gate')
    (denied : s'.gates.denied = s.gates.denied) (notWarden : e.2 ≠ .warden)
    (here : Current (events ++ [e]) gate b)
    (elsewhere : ∀ gate', gate' ≠ gate → Neutral gate' e ∧ connectsTo gate' [e] = [] ∧ acceptsOn gate' [e] = [])
    (counted : Counted (events ++ [e]) s') : Follows (events ++ [e]) s' := by
  refine ⟨h.denied_same denied notWarden, fun gate' => ?_, counted.1, counted.2⟩
  rw [get?]
  split
  · rename_i hsame
    rw [hsame]
    exact here
  · rename_i hother
    obtain ⟨hneutral, hconnect, haccept⟩ := elsewhere gate' hother
    exact (h.current gate').kept hneutral hconnect haccept

omit h

variable {op : Op} {reply : Reply}

private theorem connectsTo_of_fails (fails : reply.Fails) : connectsTo gate [(op, reply)] = [] := by
  rcases reply with _ | _ | (_ | link) | _ | _ | _
  case connect.ok => cases fails
  all_goals cases op <;> rfl

private theorem acceptsOn_of_fails (fails : reply.Fails) : acceptsOn gate [(op, reply)] = [] := by
  rcases reply with _ | _ | _ | (_ | got) | _ | _
  case accept.ok => cases fails
  all_goals cases op <;> rfl

theorem links_of_fails (fails : reply.Fails) : links [(op, reply)] = [] := by
  rcases reply with _ | _ | (_ | link) | _ | _ | _
  case connect.ok => cases fails
  all_goals rfl

private theorem neutral_of_op (notBind : ∀ owner, op ≠ .bind owner gate) (notUnbind : ∀ owner, op ≠ .unbind owner gate) :
    Neutral gate (op, reply) := by
  refine ⟨fun owner hsame => notBind owner (Prod.mk.inj hsame).1, ?_⟩
  rintro ⟨owner, hsame⟩
  exact notUnbind owner (Prod.mk.inj hsame).1

variable (h : Follows events s)

include h

private theorem Follows.refused (fails : reply.Fails) : Follows (events ++ [(op, reply)]) s := by
  refine h.idle rfl rfl ?_ ?_ (fun _ => connectsTo_of_fails fails) (fun _ => acceptsOn_of_fails fails)
    (links_of_fails fails)
  · rintro rfl
    exact fails
  · refine fun gate => ⟨?_, ?_⟩
    · rintro owner hsame
      cases hsame
      exact fails
    · rintro ⟨owner, hsame⟩
      cases hsame
      exact fails

private theorem Follows.warden (bound : s'.gates.bound = s.gates.bound)
    (fresh : s'.channels.fresh = s.channels.fresh) (neutral : ∀ gate, Neutral gate (op, .warden))
    (denied : ∀ gate, gate ∈ s'.gates.denied ↔ Denied (events ++ [(op, .warden)]) gate) :
    Follows (events ++ [(op, .warden)]) s' := by
  have hnone : ∀ gate, connectsTo gate [(op, .warden)] = [] ∧ acceptsOn gate [(op, .warden)] = [] := by
    intro gate
    cases op <;> exact ⟨rfl, rfl⟩
  obtain ⟨hfresh, honce⟩ : Counted (events ++ [(op, .warden)]) s' := h.noLink rfl fresh
  refine ⟨denied, fun gate => ?_, hfresh, honce⟩
  rw [bound]
  exact (h.current gate).kept (neutral gate) (hnone gate).1 (hnone gate).2

private theorem Follows.currentAt {g : Option BoundGate} (there : s.gates.bound.get? gate = g) :
    Current events gate g := there ▸ h.current gate

private theorem Follows.next_link {p : PendingConnect} {queue : List PendingConnect}
    (bound : s.gates.bound.get? gate = some ⟨owner, p :: queue⟩) :
    ∃ before mid, Binding events gate owner before mid ∧
      (connectsTo gate mid)[(acceptsOn gate mid).length]? = some (p.listenerLink, p.requester) ∧
      p.listenerLink ∉ (connectsTo gate before).map Prod.fst := by
  obtain ⟨pre, mid, hunique, hconnects⟩ := h.currentAt bound
  have hbinding := (hunique owner pre mid).mpr ⟨rfl, rfl, rfl⟩
  refine ⟨pre, mid, hbinding, ?_, ?_⟩
  · rw [hconnects, getElem?_append_right (le_rfl), Nat.sub_self]
    rfl
  · intro hearlier
    have honce := h.once
    rw [hbinding.1, links_append, ← singleton_append, links_append] at honce
    have hmid : p.listenerLink ∈ links mid := by
      apply (connectsTo_sublist gate mid).subset
      rw [hconnects, map_append]
      exact mem_append_right _ mem_cons_self
    exact disjoint_of_nodup_append honce ((connectsTo_sublist gate pre).subset hearlier)
      (mem_append_right _ hmid)

variable [KernelInterface K]

theorem Follows.step (stepped : Stepped s op reply s') : Follows (events ++ [(op, reply)]) s' := by
  cases stepped with
  | @bind owner gate allowed free =>
    refine h.changed _ (get?_put s gate · _) rfl nofun (h.currentAt free).bound ?_ (h.noLink rfl rfl)
    refine fun gate' hother => ⟨neutral_of_op ?_ nofun, rfl, rfl⟩
    rintro owner' hsame
    cases hsame
    exact hother rfl
  | @unbind owner gate queue bound =>
    refine h.changed _ (get?_drop s gate) rfl nofun Current.released ?_ (h.noLink rfl rfl)
    refine fun gate' hother => ⟨neutral_of_op nofun ?_, rfl, rfl⟩
    rintro owner' hsame
    cases hsame
    exact hother rfl
  | @connect owner requester gate id queue terms allowed bound =>
    refine h.changed _ (get?_put s gate · _) rfl nofun
      ((h.currentAt bound).moved (neutral_of_op nofun nofun) ?_) ?_ (h.oneLink rfl rfl)
    · simp [connectsTo, acceptsOn]
    · intro gate' hother
      refine ⟨neutral_of_op nofun nofun, ?_, rfl⟩
      simp [connectsTo, Ne.symm hother]
  | @accept owner gate p queue bound =>
    refine h.changed _ (get?_put s gate · _) rfl nofun
      ((h.currentAt bound).moved (neutral_of_op nofun nofun) ?_) ?_ (h.noLink rfl rfl)
    · simp [connectsTo, acceptsOn]
    · intro gate' hother
      refine ⟨neutral_of_op nofun nofun, rfl, ?_⟩
      simp [acceptsOn, Ne.symm hother]
  | @deny gate =>
    refine h.warden rfl rfl (fun gate' => neutral_of_op nofun nofun) (fun gate' => ?_)
    change gate' ∈ insert gate s.gates.denied ↔ _
    rw [denied_snoc, mem_insert, h.denied gate']
    apply or_congr
    · rw [Prod.mk.injEq, Op.wardenDeny.injEq, eq_comm, and_iff_left rfl]
    · exact ⟨fun hd => ⟨hd, nofun⟩, fun hd => hd.1⟩
  | @allow gate =>
    refine h.warden rfl rfl (fun gate' => neutral_of_op nofun nofun) (fun gate' => ?_)
    change gate' ∈ s.gates.denied.erase gate ↔ _
    rw [denied_snoc, mem_erase, h.denied gate', and_comm, or_iff_right nofun]
    refine and_congr_right fun _ => not_congr ?_
    rw [Prod.mk.injEq, Op.wardenAllow.injEq, eq_comm, and_iff_left rfl]
  | @link ch op =>
    exact h.idle rfl (Channels.perform_fresh ch op s.channels) nofun (fun gate' => neutral_of_op nofun nofun)
      (fun _ => rfl) (fun _ => rfl) rfl
  | unbindRefused => exact h.refused trivial
  | refused fails => exact h.refused fails

theorem Follows.keeps (stepped : Stepped s op reply s') : Keeps events op reply := by
  cases stepped with
  | @bind owner gate allowed free =>
    exact ⟨fun hdenied => allowed ((h.denied gate).mpr hdenied), h.currentAt free⟩
  | @unbind owner gate queue bound =>
    obtain ⟨pre, mid, hunique, -⟩ := h.currentAt bound
    exact ⟨pre, mid, (hunique owner pre mid).mpr ⟨rfl, rfl, rfl⟩⟩
  | @connect owner requester gate id queue terms allowed bound =>
    obtain ⟨pre, mid, hunique, -⟩ := h.currentAt bound
    exact ⟨fun hdenied => allowed ((h.denied gate).mpr hdenied), owner, pre, mid,
      (hunique owner pre mid).mpr ⟨rfl, rfl, rfl⟩⟩
  | accept bound => exact h.next_link bound
  | deny | allow | link | unbindRefused => trivial
  | @refused op reply fails =>
    rcases reply with (_ | _) | (_ | _) | (_ | _) | (_ | _) | _ | _
    case bind.ok => cases fails
    case unbind.ok => cases fails
    case connect.ok => cases fails
    case accept.ok => cases fails
    all_goals cases op <;> trivial

omit h

theorem follows_of_run {channels : Channels K} (h : Run step (new channels) events s) :
    Follows events s ∧ Always Keeps events := by
  induction h with
  | start => exact ⟨follows_new channels, always_nil _⟩
  | next _ taken ih =>
    have hstepped := stepped_of_step taken
    exact ⟨ih.1.step hstepped, always_snoc.mpr ⟨ih.2, ih.1.keeps hstepped⟩⟩

/-- A gate has one owner at a time; a denied gate is neither bound nor connected to; the accepts of
a binding return its links to its owner, in order and once each, and none of an earlier binding. -/
theorem gate_protocol (channels : Channels K) (h : Run step (LatticeState.new channels) events s) :
    Always Keeps events ∧ (links events).Nodup ∧
      ∀ gate owner pre mid, Binding events gate owner pre mid →
        acceptsOn gate mid <+: connectsTo gate mid ∧
        ∀ owner' pre' mid', Binding events gate owner' pre' mid' → owner' = owner ∧ pre' = pre ∧ mid' = mid := by
  obtain ⟨hfollows, hkeeps⟩ := follows_of_run h
  refine ⟨hkeeps, hfollows.once, ?_⟩
  intro gate owner pre mid hbinding
  have hcurrent := hfollows.current gate
  rcases hbound : s.gates.bound.get? gate with _ | g
  · rw [hbound] at hcurrent
    exact absurd hbinding (hcurrent owner pre mid)
  · rw [hbound] at hcurrent
    obtain ⟨pre1, mid1, hunique, hconnects⟩ := hcurrent
    obtain ⟨rfl, rfl, rfl⟩ := (hunique owner pre mid).mp hbinding
    exact ⟨⟨_, hconnects.symm⟩, fun owner' pre' mid' h' => (hunique owner' pre' mid').mp h'⟩

/-- A gate bound by 1, connected to by 2 and 3 and accepted twice; then it is bound by 4. -/
theorem gate_protocol_rebound : ∃ events s, Run step (LatticeState.new (.empty ()))
      events s ∧ links events = [0, 1] ∧ acceptsOn 80 events = [(0, 2), (1, 3)] ∧
    Always Keeps events ∧ (links events).Nodup := by
  refine ⟨[(.bind 1 80, .bind (.ok ())), (.connect 2 80 7, .connect (.ok 0)), (.connect 3 80 8, .connect (.ok 1)),
    (.accept 3 80, .accept (.error .notOwner)), (.accept 1 80, .accept (.ok (0, 2))),
    (.accept 1 80, .accept (.ok (1, 3))), (.unbind 1 80, .unbind (.ok ())), (.bind 4 80, .bind (.ok ())),
    (.accept 4 80, .accept (.error .wouldBlock)), (.wardenDeny 80, .warden),
    (.connect 2 80 9, .connect (.error .blocked))], exists_run_eval ⟨_, rfl, fun hrun => ?_⟩⟩
  obtain ⟨hkeeps, honce, -⟩ := gate_protocol _ hrun
  exact ⟨rfl, rfl, hkeeps, honce⟩

end

end CibosPlatform.Kernel.Gate.Protocol

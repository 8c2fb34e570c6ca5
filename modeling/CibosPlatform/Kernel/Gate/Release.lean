/- source: cibos-kernel/src/gate.rs, cibos-kernel/src/channel.rs
   digest: What becomes of the links that wait on a gate when it is released. -/

import CibosPlatform.Kernel.Gate.Protocol

namespace CibosPlatform.Kernel.Gate.Release

open Core Events Maps Channel List Function
open Kernel.Channel.Queue (ChannelInner Wired)
open Channel.Sharing Protocol Registry Shared.Ipc PendingConnect

def handedOver (events : List Event) : List ChannelRef := events.filterMap fun
  | (_, .accept (.ok got)) => some got.1
  | _ => none

theorem handedOver_append (first second : List Event) :
    handedOver (first ++ second) = handedOver first ++ handedOver second := filterMap_append

def Waiting {K : Type} (s : LatticeState K) (gate : GateId) (link : ChannelRef) : Prop :=
  ∃ g, s.gates.bound.get? gate = some g ∧ link ∈ g.pending.map listenerLink

def Over (c : ChannelInner) : Prop := c.state.closed = true ∧ c.state.messages = []

section

variable {K : Type} [KernelInterface K]

def HungUp (cs : Channels K) (link : ChannelRef) : Prop :=
  ∀ lane msg, (cs.tryRecv link lane).1 = .closed ∧ (cs.trySend link lane msg).1 = .closed

theorem hungUp_iff_over {cs : Channels K} {link : ChannelRef} :
    HungUp cs link ↔ Over (cs.inner link) := by
  have hrecv : ∀ lane, (cs.tryRecv link lane).1 = .closed ↔ Over (cs.inner link) := by
    intro lane
    change (Queue.tryRecv lane ⟨cs.inner link, cs.kernel⟩).1 = _ ↔ _
    generalize hr : Queue.tryRecv lane ⟨cs.inner link, cs.kernel⟩ = r
    have hreceives := Queue.tryRecv_receives lane ⟨cs.inner link, cs.kernel⟩
    rw [hr] at hreceives
    cases hreceives with
    | message some =>
      refine ⟨nofun, fun h => ?_⟩
      rw [h.2] at some
      cases some
    | empty none isOpen =>
      refine ⟨nofun, fun h => ?_⟩
      rw [h.1] at isOpen
      cases isOpen
    | closed none shut => exact ⟨fun _ => ⟨shut, none⟩, fun _ => rfl⟩
  constructor
  · intro h
    exact (hrecv 0).mp (h 0 []).1
  · intro h lane msg
    refine ⟨(hrecv lane).mpr h, ?_⟩
    change (Queue.trySend lane msg ⟨cs.inner link, cs.kernel⟩).1 = _
    rw [Queue.trySend, ChannelInner.sendSection, if_pos h.1]

theorem over_step {w w' : Wired K} {op : Queue.Op} {reply : Queue.Reply} (h : Over w.channel)
    (stepped : Queue.Stepped w op reply w') : Over w'.channel := by
  cases stepped with
  | send sends =>
    cases sends with
    | closed => exact h
    | tooLarge isOpen | sent isOpen | full isOpen =>
      exact absurd (h.1.symm.trans isOpen) Bool.noConfusion
  | recv receives =>
    cases receives with
    | message some => exact absurd (h.2.symm.trans some) (cons_ne_nil _ _).symm
    | empty none isOpen => exact absurd (h.1.symm.trans isOpen) Bool.noConfusion
    | closed => exact h
  | close => exact ⟨rfl, h.2⟩

theorem over_perform {cs : Channels K} {link ch : ChannelRef} {op : Queue.Op}
    (h : Over (cs.inner link)) :
    Over ((cs.perform ch op).2.inner link) := by
  obtain ⟨w, hstep, hafter⟩ := cs.perform_spec ch op
  rw [hafter]
  by_cases hsame : link = ch
  · subst hsame
    change Over (update cs.inner link w.channel link)
    rw [update_self]
    exact over_step h (Queue.stepped_of_step hstep)
  · change Over (update cs.inner ch w.channel link)
    rw [update_of_ne hsame]
    exact h

end

section

variable {K : Type} {s s' : LatticeState K} {events : List Event} {gate : GateId}

structure Apart (events : List Event) (s : LatticeState K) : Prop where
  handed : ∀ link ∈ handedOver events, link ∈ links events
  connected : ∀ gate link, Waiting s gate link → link ∈ links events
  notYet : ∀ gate link, Waiting s gate link → link ∉ handedOver events
  oneGate : ∀ gate gate' link, Waiting s gate link → Waiting s gate' link → gate = gate'
  onePlace : ∀ gate g, s.gates.bound.get? gate = some g → (g.pending.map listenerLink).Nodup

variable {g : BoundGate} {gate' : GateId} {link : ChannelRef} {owner : BoundaryId}
  {queue : List PendingConnect}
  {p : PendingConnect}

theorem waiting_put : Waiting (s.put gate g) gate' link ↔
      if gate' = gate then link ∈ g.pending.map listenerLink else Waiting s gate' link := by
  rw [Waiting, LatticeState.get?_put]
  split
  · constructor
    · rintro ⟨_, hsame, hlink⟩
      cases hsame
      exact hlink
    · exact fun hlink => ⟨g, rfl, hlink⟩
  · rfl

theorem waiting_drop : Waiting (s.drop gate) gate' link ↔ gate' ≠ gate ∧ Waiting s gate' link := by
  rw [Waiting, LatticeState.get?_drop]
  split
  · rename_i hsame
    refine ⟨?_, fun h => absurd hsame h.1⟩
    rintro ⟨_, hnone, -⟩
    cases hnone
  · rename_i hother
    exact ⟨fun h => ⟨hother, h⟩, fun h => h.2⟩

theorem waiting_of_bound (bound : s.gates.bound.get? gate = some g) (link : ChannelRef) :
    Waiting s gate link ↔ link ∈ g.pending.map listenerLink := by
  rw [Waiting, bound]
  constructor
  · rintro ⟨_, hsame, hlink⟩
    cases hsame
    exact hlink
  · exact fun hlink => ⟨g, rfl, hlink⟩

private theorem waiting_enqueue (bound : s.gates.bound.get? gate = some ⟨owner, queue⟩) :
    Waiting (s.put gate ⟨owner, queue ++ [p]⟩) gate' link ↔
      Waiting s gate' link ∨ gate' = gate ∧ link = p.listenerLink := by
  rw [waiting_put]
  split
  · rename_i hsame
    subst hsame
    rw [map_append, mem_append, waiting_of_bound bound, map_singleton, mem_singleton,
      eq_self, true_and]
  · rename_i hother
    exact ⟨.inl, fun h => h.resolve_right fun hlast => hother hlast.1⟩

private theorem waiting_dequeue (bound : s.gates.bound.get? gate = some ⟨owner, p :: queue⟩) :
    Waiting s gate' link ↔
      Waiting (s.put gate ⟨owner, queue⟩) gate' link ∨ gate' = gate ∧ link = p.listenerLink := by
  rw [waiting_put]
  split
  · rename_i hsame
    subst hsame
    rw [waiting_of_bound bound, map_cons, mem_cons, eq_self, true_and, or_comm]
  · rename_i hother
    exact ⟨.inl, fun h => h.resolve_right fun hlast => hother hlast.1⟩

private theorem Apart.onePlace_put (h : Apart events s)
    (once : (g.pending.map listenerLink).Nodup) (gate' : GateId) (g' : BoundGate)
    (bound : (s.put gate g).gates.bound.get? gate' = some g') :
    (g'.pending.map listenerLink).Nodup := by
  rw [LatticeState.get?_put] at bound
  split at bound
  · cases bound
    exact once
  · exact h.onePlace gate' g' bound

variable {e : Event}

private theorem Apart.fewer (h : Apart events s)
    (handed : ∀ link ∈ handedOver [e], link ∈ links events)
    (waiting : ∀ gate link, Waiting s' gate link → Waiting s gate link ∧ link ∉ handedOver [e])
    (onePlace : ∀ gate g, s'.gates.bound.get? gate = some g →
      (g.pending.map listenerLink).Nodup) : Apart (events ++ [e]) s' := by
  refine ⟨fun link hlink => ?_, fun gate link hw => ?_, fun gate link hw => ?_,
    fun gate gate' link hw hw' => ?_, onePlace⟩
  · rw [handedOver_append, mem_append] at hlink
    rw [links_append]
    exact mem_append_left _ (hlink.elim (h.handed link) (handed link))
  · rw [links_append]
    exact mem_append_left _ (h.connected gate link (waiting gate link hw).1)
  · rw [handedOver_append, mem_append, not_or]
    exact ⟨h.notYet gate link (waiting gate link hw).1, (waiting gate link hw).2⟩
  · exact h.oneGate gate gate' link (waiting gate link hw).1 (waiting gate' link hw').1

private theorem Apart.same (h : Apart events s) (gates : s'.gates.bound = s.gates.bound)
    (notHanded : handedOver [e] = []) : Apart (events ++ [e]) s' := by
  refine h.fewer (fun link hlink => ?_) (fun gate link hw => ⟨?_, ?_⟩) (fun gate g hbound => ?_)
  · rw [notHanded] at hlink
    cases hlink
  · rwa [Waiting, gates] at hw
  · rw [notHanded]
    exact not_mem_nil
  · rw [gates] at hbound
    exact h.onePlace gate g hbound

private theorem handedOver_of_fails {op : Op} {reply : Reply} (fails : reply.Fails) :
    handedOver [(op, reply)] = [] := by
  rcases reply with _ | _ | _ | (_ | got) | _ | _
  case accept.ok => cases fails
  all_goals rfl

private theorem Apart.enqueue (h : Apart events s) {requester : BoundaryId}
    (bound : s.gates.bound.get? gate = some ⟨owner, queue⟩) (new : link ∉ links events)
    (gates : s'.gates = (s.put gate ⟨owner, queue ++ [⟨requester, link⟩]⟩).gates)
    (counted : links [e] = [link])
    (notHanded : handedOver [e] = []) : Apart (events ++ [e]) s' := by
  have hcases : ∀ gate' link', Waiting s' gate' link' → Waiting s gate' link' ∨ gate' = gate ∧
    link' = link := by
    intro gate' link' hw
    rw [Waiting, gates] at hw
    exact (waiting_enqueue bound).mp hw
  refine ⟨fun link' hlink => ?_, fun gate' link' hw => ?_, fun gate' link' hw => ?_,
    fun gate1 gate2 link' hw1 hw2 => ?_, ?_⟩
  · rw [handedOver_append, notHanded, append_nil] at hlink
    rw [links_append]
    exact mem_append_left _ (h.handed link' hlink)
  · rw [links_append, counted, mem_append]
    exact (hcases gate' link' hw).imp (h.connected gate' link') fun hlast =>
      mem_singleton.mpr hlast.2
  · rw [handedOver_append, notHanded, append_nil]
    rcases hcases gate' link' hw with hbefore | ⟨-, rfl⟩
    · exact h.notYet gate' link' hbefore
    · exact fun hlink => new (h.handed _ hlink)
  · rcases hcases gate1 link' hw1 with hbefore1 | ⟨rfl, rfl⟩
    · rcases hcases gate2 link' hw2 with hbefore2 | ⟨rfl, rfl⟩
      · exact h.oneGate gate1 gate2 link' hbefore1 hbefore2
      · exact absurd (h.connected gate1 _ hbefore1) new
    · rcases hcases gate2 _ hw2 with hbefore2 | ⟨rfl, -⟩
      · exact absurd (h.connected gate2 _ hbefore2) new
      · rfl
  · rw [gates]
    refine h.onePlace_put ?_
    rw [map_append]
    refine List.Nodup.append (h.onePlace gate _ bound) (nodup_singleton _) ?_
    rw [map_singleton, disjoint_singleton]
    exact fun hlink => new (h.connected gate _ ((waiting_of_bound bound _).mpr hlink))

private theorem Apart.dequeue (h : Apart events s)
    (bound : s.gates.bound.get? gate = some ⟨owner, p :: queue⟩)
    (handed : handedOver [e] = [p.listenerLink]) :
    Apart (events ++ [e]) (s.put gate ⟨owner, queue⟩) := by
  have hwaits : ∀ {gate' link}, Waiting (s.put gate ⟨owner, queue⟩) gate' link →
    Waiting s gate' link :=
    fun hw => (waiting_dequeue bound).mpr (.inl hw)
  have hfirst : Waiting s gate p.listenerLink := (waiting_dequeue bound).mpr (.inr ⟨rfl, rfl⟩)
  have honce := h.onePlace gate _ bound
  rw [map_cons, nodup_cons] at honce
  refine h.fewer (fun link hlink => ?_) (fun gate' link hw => ⟨hwaits hw, ?_⟩)
    (h.onePlace_put honce.2)
  · rw [handed, mem_singleton] at hlink
    rw [hlink]
    exact h.connected gate _ hfirst
  · rw [handed, mem_singleton]
    rintro rfl
    obtain rfl := h.oneGate gate' gate _ (hwaits hw) hfirst
    rw [waiting_put, if_pos rfl] at hw
    exact honce.1 hw

variable [KernelInterface K] {op : Op} {reply : Reply}

theorem Apart.step (h : Apart events s) (follows : Follows events s)
    (stepped : Stepped s op reply s') :
    Apart (events ++ [(op, reply)]) s' := by
  cases stepped with
  | @bind owner gate allowed free =>
    refine h.fewer nofun (fun gate' link hw => ?_) (h.onePlace_put nodup_nil)
    rw [waiting_put] at hw
    split at hw
    · cases hw
    · exact ⟨hw, not_mem_nil⟩
  | @unbind owner gate queue bound =>
    refine h.fewer nofun (fun gate' link hw => ⟨(waiting_drop.mp hw).2, not_mem_nil⟩)
      (fun gate' g hbound => ?_)
    rw [LatticeState.get?_drop] at hbound
    split at hbound
    · cases hbound
    · exact h.onePlace gate' g hbound
  | @connect owner requester gate id queue terms allowed bound =>
    exact h.enqueue bound (fun hlink => lt_irrefl _ (follows.fresh _ hlink)) rfl rfl rfl
  | accept bound => exact h.dequeue bound rfl
  | deny | allow | link | unbindRefused => exact h.same rfl rfl
  | refused fails => exact h.same rfl (handedOver_of_fails fails)

theorem apart_of_run {channels : Channels K} (h : Run step (LatticeState.new channels) events s) :
    Apart events s := by
  induction h with
  | start =>
    have hnone : ∀ gate link, ¬ Waiting (LatticeState.new channels) gate link := by
      rintro gate link ⟨g, hbound, -⟩
      cases hbound
    exact ⟨nofun, fun gate link hw => absurd hw (hnone gate link),
      fun gate link hw => absurd hw (hnone gate link), fun gate _ link hw _ =>
      absurd hw (hnone gate link),
      nofun⟩
  | next before taken ih => exact ih.step (follows_of_run before).1 (stepped_of_step taken)

end

section

variable {K : Type} [KernelInterface K] {s s' : LatticeState K} {events : List Event}
  {op : Op} {reply : Reply}

def NoneHanging (events : List Event) (s : LatticeState K) : Prop :=
  ∀ link ∈ links events,
    link ∈ handedOver events ∨ (∃ gate, Waiting s gate link) ∨ HungUp s.channels link

def ReleasesOver (s : LatticeState K) : Op → Prop
  | .unbind owner gate => ∀ queue, s.gates.bound.get? gate = some ⟨owner, queue⟩ →
      ∀ p ∈ queue, Over (s.channels.inner p.listenerLink)
  | _ => True

private theorem NoneHanging.kept {e : Event} (h : NoneHanging events s) (noLink : links [e] = [])
    (waiting : ∀ gate link, Waiting s gate link → link ∈ handedOver [e] ∨
      ∃ gate', Waiting s' gate' link)
    (stays : ∀ link, Over (s.channels.inner link) → Over (s'.channels.inner link)) :
    NoneHanging (events ++ [e]) s' := by
  intro link hlink
  rw [links_append, noLink, append_nil] at hlink
  rw [handedOver_append, mem_append]
  rcases h link hlink with hhanded | ⟨gate, hwaiting⟩ | hover
  · exact .inl (.inl hhanded)
  · exact (waiting gate link hwaiting).imp .inr .inl
  · exact .inr (.inr (hungUp_iff_over.mpr (stays link (hungUp_iff_over.mp hover))))

private theorem noneHanging_unbind {owner : BoundaryId} {gate : GateId}
    {queue : List PendingConnect} (apart : Apart events s) (h : NoneHanging events s)
    (bound : s.gates.bound.get? gate = some ⟨owner, queue⟩) :
    NoneHanging (events ++ [(.unbind owner gate, .unbind (.ok ()))]) (s.drop gate) ↔
      ∀ p ∈ queue, Over (s.channels.inner p.listenerLink) := by
  have hlinks : links (events ++ [(.unbind owner gate, .unbind (.ok ()))]) = links events := by
    rw [links_append]
    exact append_nil _
  have hhanded : handedOver (events ++ [(.unbind owner gate, .unbind (.ok ()))]) = handedOver
    events := by
    rw [handedOver_append]
    exact append_nil _
  constructor
  · intro hafter p hp
    have hwaiting : Waiting s gate p.listenerLink := ⟨_, bound, mem_map_of_mem hp⟩
    have hlink := hafter p.listenerLink (by rw [hlinks]; exact apart.connected gate _ hwaiting)
    rw [hhanded] at hlink
    rcases hlink with hearlier | ⟨gate', hother⟩ | hover
    · exact absurd hearlier (apart.notYet gate _ hwaiting)
    · obtain ⟨hne, hother⟩ := waiting_drop.mp hother
      exact absurd (apart.oneGate gate' gate _ hother hwaiting) hne
    · exact hungUp_iff_over.mp hover
  · intro hover link hlink
    rw [hlinks] at hlink
    rw [hhanded]
    rcases h link hlink with hearlier | ⟨gate', hwaiting⟩ | hup
    · exact .inl hearlier
    · by_cases hsame : gate' = gate
      · subst hsame
        obtain ⟨p, hp, rfl⟩ := mem_map.mp ((waiting_of_bound bound link).mp hwaiting)
        exact .inr (.inr (hungUp_iff_over.mpr (hover p hp)))
      · exact .inr (.inl ⟨gate', waiting_drop.mpr ⟨hsame, hwaiting⟩⟩)
    · exact .inr (.inr hup)

theorem noneHanging_step (follows : Follows events s) (apart : Apart events s)
    (h : NoneHanging events s)
    (stepped : Stepped s op reply s') : NoneHanging (events ++ [(op, reply)]) s' ↔
    ReleasesOver s op := by
  cases stepped with
  | @bind owner gate allowed free =>
    refine ⟨fun _ => trivial, fun _ => h.kept rfl
      (fun gate' link hw => .inr ⟨gate', ?_⟩) fun _ => id⟩
    rw [waiting_put, if_neg]
    · exact hw
    · rintro rfl
      obtain ⟨g, hbound, -⟩ := hw
      rw [free] at hbound
      cases hbound
  | @unbind owner gate queue bound =>
    rw [noneHanging_unbind apart h bound]
    constructor
    · intro hover queue' hbound
      rw [bound] at hbound
      cases hbound
      exact hover
    · exact fun hover => hover queue bound
  | @connect owner requester gate id queue terms allowed bound =>
    refine ⟨fun _ => trivial, fun _ link hlink => ?_⟩
    have hput : ∀ gate' link', Waiting s gate' link' ∨ gate' = gate ∧ link' = s.channels.fresh →
        Waiting (s.put gate ⟨owner, queue ++ [⟨requester, s.channels.fresh⟩]⟩) gate' link' :=
      fun gate' link' hw => (waiting_enqueue bound).mpr hw
    rw [handedOver_append, mem_append]
    rw [links_append, mem_append] at hlink
    rcases hlink with hlink | hlink
    · rcases h link hlink with hhanded | ⟨gate', hwaiting⟩ | hover
      · exact .inl (.inl hhanded)
      · exact .inr (.inl ⟨gate', hput gate' link (.inl hwaiting)⟩)
      · have hne : link ≠ s.channels.fresh := ne_of_lt (follows.fresh link hlink)
        refine .inr (.inr (hungUp_iff_over.mpr ?_))
        change Over (update s.channels.inner s.channels.fresh _ link)
        rw [update_of_ne hne]
        exact hungUp_iff_over.mp hover
    · exact .inr (.inl ⟨gate, hput gate link (.inr ⟨rfl, mem_singleton.mp hlink⟩)⟩)
  | @accept owner gate p queue bound =>
    refine ⟨fun _ => trivial, fun _ => h.kept rfl (fun gate' link hw => ?_) fun _ => id⟩
    rcases (waiting_dequeue bound).mp hw with hrest | ⟨-, hfirst⟩
    · exact .inr ⟨gate', hrest⟩
    · exact .inl (mem_singleton.mpr hfirst)
  | deny | allow =>
    exact ⟨fun _ => trivial, fun _ => h.kept rfl (fun gate _ hw => .inr ⟨gate, hw⟩) fun _ => id⟩
  | link =>
    exact ⟨fun _ => trivial, fun _ => h.kept rfl
      (fun gate _ hw => .inr ⟨gate, hw⟩) fun _ => over_perform⟩
  | unbindRefused other =>
    refine ⟨fun _ queue hbound => absurd hbound (other queue), fun _ => ?_⟩
    exact h.kept rfl (fun gate _ hw => .inr ⟨gate, hw⟩) fun _ => id
  | @refused op reply fails keeps =>
    have hnot : ReleasesOver s op := by
      cases op with
      | unbind owner gate => exact absurd rfl (keeps owner gate)
      | _ => trivial
    refine ⟨fun _ => hnot, fun _ => ?_⟩
    exact h.kept (links_of_fails fails) (fun gate _ hw => .inr ⟨gate, hw⟩) fun _ => id

/-- A run leaves no connector hanging exactly if it releases gates only when every link that waits on
them is closed and drained. -/
theorem none_hanging_iff (channels : Channels K)
    (h : Run step (LatticeState.new channels) events s) :
    Through step (LatticeState.new channels) NoneHanging events ↔
      Meets step (LatticeState.new channels) (fun _ s op => ReleasesOver s op) events := by
  refine h.through_iff_meets ?_ ?_
  · exact nofun
  · intro pre s1 op reply s2 hpre hbefore taken
    exact noneHanging_step (follows_of_run hpre).1 (apart_of_run hpre) hbefore
      (stepped_of_step taken)

/-- A gate released after the one link on it was accepted. -/
theorem none_hanging_iff_accepted : ∃ events s, Run step (LatticeState.new (.empty ()))
      events s ∧ handedOver events = [0] ∧
    Through step (LatticeState.new (.empty ())) NoneHanging events := by
  refine ⟨[(.bind 1 80, .bind (.ok ())), (.connect 2 80 7, .connect (.ok 0)),
    (.accept 1 80, .accept (.ok (0, 2))),
    (.unbind 1 80, .unbind (.ok ()))], exists_run_eval ⟨_, rfl, fun hrun => ⟨rfl, ?_⟩⟩⟩
  refine (none_hanging_iff _ hrun).mpr
    ((((meets_nil.next .start trivial).next (.eval rfl) trivial).next
    (.eval rfl) trivial).next (.eval rfl) ?_)
  rintro _ ⟨⟩ p hp
  cases hp

/-- A gate is released while a link waits on it: nobody has the other half, and the connector's calls
are answered as if somebody had. -/
theorem released_link_hangs : ∃ events s, Run step (LatticeState.new (.empty ())) events s ∧
    events = [(.bind 1 80, .bind (.ok ())), (.connect 2 80 7, .connect (.ok 0)),
      (.unbind 1 80, .unbind (.ok ())), (.link 0 (.recv 5), .link (.recv .empty)),
      (.link 0 (.send 5 [9]), .link (.send .sent))] ∧ ¬ NoneHanging events s := by
  refine ⟨_, _, .eval rfl, rfl, fun h => ?_⟩
  rcases h 0 (mem_singleton_self 0) with hhanded | ⟨gate, g, hbound, -⟩ | hup
  · cases hhanded
  · cases hbound
  · cases (hungUp_iff_over.mp hup).1

end

end CibosPlatform.Kernel.Gate.Release

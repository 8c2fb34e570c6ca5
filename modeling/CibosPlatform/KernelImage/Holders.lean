/- source: kernel-image/src/boot.rs
   digest: Which boundaries can hold a handle on one channel: never more than two. -/

import CibosPlatform.KernelImage.Table

namespace CibosPlatform.KernelImage.Holders

open Core Events MachineWord Maps List
open Kernel.Channel.Handshake (ChannelRegistry)
open Kernel.Channel.Queue (ChannelInner)
open Kernel.Channel.Sharing
open Kernel.Gate.Registry (BoundGate GateId PendingConnect)
open Table Shared.Ipc

variable {K : Type}

variable (t : ChannelHandleTable K)

def WaitsAt (gate : GateId) (p : PendingConnect) : Prop :=
  ∃ g, t.gates.bound.get? gate = some g ∧ p ∈ g.pending

def Holds (boundary : BoundaryId) (ch : ChannelRef) : Prop :=
  ∃ handle, t.handles (boundary, handle) = some ch

def Within (ch : ChannelRef) (b1 b2 : BoundaryId) : Prop :=
  ∀ b, Holds t b ch → b = b1 ∨ b = b2

/-- Handles and waiting links are to channels that exist; a waiting link waits at one place, held by
its connector only; and two boundaries at most hold a channel. -/
structure Sound (t : ChannelHandleTable K) : Prop where
  held : ∀ b ch, Holds t b ch → ch < t.channels.fresh
  waiting : ∀ gate p, WaitsAt t gate p → p.listenerLink < t.channels.fresh
  connector : ∀ gate p, WaitsAt t gate p → ∀ b, Holds t b p.listenerLink → b = p.requester
  oneGate : ∀ gate gate' p p', WaitsAt t gate p → WaitsAt t gate' p' →
    p.listenerLink = p'.listenerLink → gate = gate'
  onePlace : ∀ gate g, t.gates.bound.get? gate = some g → (g.pending.map PendingConnect.listenerLink).Nodup
  two : ∀ ch, ∃ b1 b2, Within t ch b1 b2

theorem sound_new (kernel : K) : Sound (ChannelHandleTable.new kernel) := by
  have hheld : ∀ b ch, ¬ Holds (ChannelHandleTable.new kernel) b ch := by
    rintro b ch ⟨handle, hnone⟩
    cases hnone
  have hwaits : ∀ gate p, ¬ WaitsAt (ChannelHandleTable.new kernel) gate p := by
    rintro gate p ⟨g, hnone, -⟩
    cases hnone
  exact ⟨fun b ch hb => absurd hb (hheld b ch), fun gate p hp => absurd hp (hwaits gate p),
    fun gate p hp => absurd hp (hwaits gate p), fun gate _ p _ hp => absurd hp (hwaits gate p),
    nofun, fun ch => ⟨0, 0, fun b hb => absurd hb (hheld b ch)⟩⟩

section

variable {t t' : ChannelHandleTable K} {gate : GateId} {ch : ChannelRef} {boundary owner : BoundaryId}
  {next : Nat}

theorem handles_give (key : BoundaryId × Nat) : (t.give boundary ch next).handles key =
    if key = (boundary, t.nextHandle) then some ch else t.handles key := Function.update_apply ..

theorem holds_give (next : Nat) {b : BoundaryId} {ch' : ChannelRef} (h : Holds (t.give boundary ch next) b ch') :
    Holds t b ch' ∨ b = boundary ∧ ch' = ch := by
  obtain ⟨handle, hhandle⟩ := h
  rw [handles_give] at hhandle
  split at hhandle
  · rename_i hkey
    cases hkey
    cases hhandle
    exact .inr ⟨rfl, rfl⟩
  · exact .inl ⟨handle, hhandle⟩

variable {g : BoundGate} {p : PendingConnect} {queue : List PendingConnect}

theorem waitsAt_withBound {gate' : GateId} :
    WaitsAt (t.withBound gate g) gate' p ↔ if gate' = gate then p ∈ g.pending else WaitsAt t gate' p := by
  have hget : (t.withBound gate g).gates.bound.get? gate' =
      if gate' = gate then some g else t.gates.bound.get? gate' := SortedMap.get?_insert ..
  rw [WaitsAt, hget]
  split
  · constructor
    · rintro ⟨_, hsame, hp⟩
      cases hsame
      exact hp
    · exact fun hp => ⟨g, rfl, hp⟩
  · rfl

theorem waitsAt_of_bound (bound : t.gates.bound.get? gate = some g) (p : PendingConnect) :
    WaitsAt t gate p ↔ p ∈ g.pending := by
  rw [WaitsAt, bound]
  constructor
  · rintro ⟨_, hsame, hp⟩
    cases hsame
    exact hp
  · exact fun hp => ⟨g, rfl, hp⟩

variable (h : Sound t)

include h

theorem Sound.of_same (handles : t'.handles = t.handles) (bound : t'.gates.bound = t.gates.bound)
    (fresh : t.channels.fresh ≤ t'.channels.fresh) : Sound t' := by
  have hholds : ∀ b ch, Holds t' b ch ↔ Holds t b ch := by
    intro b ch
    rw [Holds, Holds, handles]
  have hwaits : ∀ gate p, WaitsAt t' gate p ↔ WaitsAt t gate p := by
    intro gate p
    rw [WaitsAt, WaitsAt, bound]
  constructor
  · intro b ch hb
    exact (h.held b ch ((hholds b ch).mp hb)).trans_le fresh
  · intro gate p hp
    exact (h.waiting gate p ((hwaits gate p).mp hp)).trans_le fresh
  · intro gate p hp b hb
    exact h.connector gate p ((hwaits gate p).mp hp) b ((hholds b _).mp hb)
  · intro gate gate' p p' hp hp'
    exact h.oneGate gate gate' p p' ((hwaits gate p).mp hp) ((hwaits gate' p').mp hp')
  · rw [bound]
    exact h.onePlace
  · intro ch
    obtain ⟨b1, b2, hwithin⟩ := h.two ch
    exact ⟨b1, b2, fun b hb => hwithin b ((hholds b ch).mp hb)⟩

theorem Sound.give (exist : ch < t.channels.fresh)
    (free : ∀ gate p, WaitsAt t gate p → p.listenerLink = ch → boundary = p.requester)
    (room : ∃ b, Within t ch b boundary) : Sound (t.give boundary ch next) := by
  constructor
  · intro b ch' hb
    rcases holds_give next hb with hb | ⟨-, rfl⟩
    · exact h.held b ch' hb
    · exact exist
  · exact h.waiting
  · intro gate p hp b hb
    rcases holds_give next hb with hb | ⟨rfl, hlink⟩
    · exact h.connector gate p hp b hb
    · exact free gate p hp hlink
  · exact h.oneGate
  · exact h.onePlace
  · intro ch'
    by_cases hsame : ch' = ch
    · subst hsame
      obtain ⟨b1, hwithin⟩ := room
      refine ⟨b1, boundary, fun b hb => ?_⟩
      rcases holds_give next hb with hb | ⟨rfl, -⟩
      · exact hwithin b hb
      · exact .inr rfl
    · obtain ⟨b1, b2, hwithin⟩ := h.two ch'
      refine ⟨b1, b2, fun b hb => ?_⟩
      rcases holds_give next hb with hb | ⟨-, hch⟩
      · exact hwithin b hb
      · exact absurd hch hsame

theorem Sound.not_holds_fresh (b : BoundaryId) : ¬ Holds t b t.channels.fresh :=
  fun hb => lt_irrefl _ (h.held b _ hb)

theorem Sound.withRegistry (registry : ChannelRegistry) : Sound (t.withRegistry registry) :=
  h.of_same rfl rfl (le_rfl)

theorem Sound.adding (c : ChannelInner) : Sound (t.adding c) := h.of_same rfl rfl (Nat.le_succ _)

theorem Sound.adding_give (c : ChannelInner) (boundary : BoundaryId) (next : Nat) :
    Sound ((t.adding c).give boundary t.channels.fresh next) := by
  refine (h.adding c).give (lt_add_one _) ?_ ⟨boundary, fun b hb => ?_⟩
  · intro gate p hp hlink
    exact absurd hlink (ne_of_lt (h.waiting gate p hp))
  · exact absurd hb (h.not_holds_fresh b)

theorem Sound.fewer (fewer : ∀ p ∈ g.pending, WaitsAt t gate p)
    (nodup : (g.pending.map PendingConnect.listenerLink).Nodup) : Sound (t.withBound gate g) := by
  have hwaits : ∀ gate' p, WaitsAt (t.withBound gate g) gate' p → WaitsAt t gate' p := by
    intro gate' p hp
    rw [waitsAt_withBound] at hp
    split at hp
    · rename_i hsame
      rw [hsame]
      exact fewer p hp
    · exact hp
  refine ⟨h.held, fun gate' p hp => h.waiting gate' p (hwaits gate' p hp),
    fun gate' p hp => h.connector gate' p (hwaits gate' p hp),
    fun gate1 gate2 p p' hp hp' => h.oneGate gate1 gate2 p p' (hwaits gate1 p hp) (hwaits gate2 p' hp'),
    fun gate' g' hbound => ?_, h.two⟩
  change (t.gates.bound.insert gate g).get? gate' = some g' at hbound
  rw [SortedMap.get?_insert] at hbound
  split at hbound
  · cases hbound
    exact nodup
  · exact h.onePlace gate' g' hbound

theorem Sound.enqueue (bound : t.gates.bound.get? gate = some ⟨owner, queue⟩)
    (exist : p.listenerLink < t.channels.fresh) (connector : ∀ b, Holds t b p.listenerLink → b = p.requester)
    (new : ∀ gate' p', WaitsAt t gate' p' → p'.listenerLink ≠ p.listenerLink) :
    Sound (t.withBound gate ⟨owner, queue ++ [p]⟩) := by
  have hwaits : ∀ gate' p', WaitsAt (t.withBound gate ⟨owner, queue ++ [p]⟩) gate' p' →
      WaitsAt t gate' p' ∨ gate' = gate ∧ p' = p := by
    intro gate' p' hp
    rw [waitsAt_withBound] at hp
    split at hp
    · rename_i hsame
      subst hsame
      rcases mem_append.mp hp with hp | hp
      · exact .inl ((waitsAt_of_bound bound p').mpr hp)
      · exact .inr ⟨rfl, mem_singleton.mp hp⟩
    · exact .inl hp
  refine ⟨h.held, fun gate' p' hp => ?_, fun gate' p' hp b hb => ?_, fun gate1 gate2 p1 p2 hp1 hp2 hlink => ?_,
    fun gate' g' hbound => ?_, h.two⟩
  · rcases hwaits gate' p' hp with hp | ⟨-, rfl⟩
    · exact h.waiting gate' p' hp
    · exact exist
  · rcases hwaits gate' p' hp with hp | ⟨-, rfl⟩
    · exact h.connector gate' p' hp b hb
    · exact connector b hb
  · rcases hwaits gate1 p1 hp1 with hbefore1 | ⟨hgate1, hsame1⟩
    · rcases hwaits gate2 p2 hp2 with hbefore2 | ⟨-, hsame2⟩
      · exact h.oneGate gate1 gate2 p1 p2 hbefore1 hbefore2 hlink
      · exact absurd (hsame2 ▸ hlink) (new gate1 p1 hbefore1)
    · rcases hwaits gate2 p2 hp2 with hbefore2 | ⟨hgate2, -⟩
      · exact absurd (hsame1 ▸ hlink.symm) (new gate2 p2 hbefore2)
      · rw [hgate1, hgate2]
  · change (t.gates.bound.insert gate _).get? gate' = some g' at hbound
    rw [SortedMap.get?_insert] at hbound
    split at hbound
    · cases hbound
      rw [map_append]
      refine List.Nodup.append (h.onePlace gate _ bound) (nodup_singleton _) ?_
      rw [map_singleton, disjoint_singleton]
      intro hmem
      obtain ⟨p', hp', hlink⟩ := mem_map.mp hmem
      exact new gate p' ((waitsAt_of_bound bound p').mpr hp') hlink
    · exact h.onePlace gate' g' hbound

theorem Sound.dequeue (bound : t.gates.bound.get? gate = some ⟨owner, p :: queue⟩) :
    Sound (t.withBound gate ⟨owner, queue⟩) ∧
      ∀ gate' p', WaitsAt (t.withBound gate ⟨owner, queue⟩) gate' p' → p'.listenerLink ≠ p.listenerLink := by
  have honce := h.onePlace gate _ bound
  rw [map_cons, nodup_cons] at honce
  have hfirst : WaitsAt t gate p := (waitsAt_of_bound bound p).mpr mem_cons_self
  refine ⟨h.fewer (fun p' hp' => ?_) honce.2, fun gate' p' hp' hlink => ?_⟩
  · exact (waitsAt_of_bound bound p').mpr (mem_cons_of_mem p hp')
  · rw [waitsAt_withBound] at hp'
    split at hp'
    · exact honce.1 (hlink ▸ mem_map_of_mem hp')
    · rename_i hother
      exact hother (h.oneGate gate' gate p' p hp' hfirst hlink)

omit h

theorem owner_of_withBound {gate' : GateId} {queue' : List PendingConnect}
    (there : t.gates.bound.get? gate = some ⟨owner, queue⟩)
    (h : (t.withBound gate ⟨owner, queue'⟩).gates.bound.get? gate' = some g) :
    ∃ queue, t.gates.bound.get? gate' = some ⟨g.owner, queue⟩ := by
  change (t.gates.bound.insert gate ⟨owner, queue'⟩).get? gate' = some g at h
  rw [SortedMap.get?_insert] at h
  split at h
  · rename_i hsame
    cases h
    rw [hsame]
    exact ⟨queue, there⟩
  · exact ⟨g.pending, h⟩

end

variable [KernelInterface K] {profile : BuildProfile} {t t' : ChannelHandleTable K} {call : Call} {reply : Reply}

theorem Sound.step (h : Sound t) (stepped : Stepped profile t call reply t') : Sound t' := by
  cases stepped with
  | opened => exact (h.withRegistry _).adding_give ..
  | requested | rejected => exact h.withRegistry _
  | @accepted target id nextId next next' req c aimed made count count' =>
    have htarget := ((h.withRegistry ⟨nextId, t.registry.pending.erase id, t.registry.nextRequest⟩).adding_give
      c target next)
    have hboth : Sound ((((t.withRegistry ⟨nextId, t.registry.pending.erase id,
        t.registry.nextRequest⟩).adding c).give target t.channels.fresh next).give
        req.requester t.channels.fresh next') := by
      refine htarget.give (lt_add_one _) ?_ ⟨target, fun b hb => .inl ?_⟩
      · intro gate p hp hlink
        exact absurd hlink (ne_of_lt (h.waiting gate p hp))
      · exact (holds_give next hb).elim (fun hbefore => absurd hbefore (h.not_holds_fresh b)) And.left
    exact hboth.of_same rfl rfl (le_rfl)
  | collected | idle => exact h.of_same rfl rfl (le_rfl)
  | bound free => exact h.fewer nofun nodup_nil
  | @connected owner requester gate queue c nextChannelId next there made count =>
    have hgiven := h.adding_give c requester next
    have henqueued := hgiven.enqueue (p := ⟨requester, t.channels.fresh⟩) there (lt_add_one _)
      (fun b hb => ?_) (fun gate' p' hp' => ne_of_lt (h.waiting gate' p' hp'))
    · exact henqueued.of_same rfl rfl (le_rfl)
    · exact (holds_give next hb).elim (fun hbefore => absurd hbefore (h.not_holds_fresh b)) And.left
  | @linked owner gate p queue next there count =>
    obtain ⟨hdequeued, hnowhere⟩ := h.dequeue there
    have hfirst := (waitsAt_of_bound there p).mpr mem_cons_self
    refine hdequeued.give (h.waiting gate p hfirst) ?_ ⟨p.requester, fun b hb => ?_⟩
    · exact fun gate' p' hp' hlink => absurd hlink (hnowhere gate' p' hp')
    · exact .inl (h.connector gate p hfirst b hb)
  | @operated call key op ch asks resolved =>
    exact h.of_same rfl rfl (Nat.le_of_eq (Channels.perform_fresh ch op t.channels).symm)

theorem settled_step (stepped : Stepped profile t call reply t') {ch : ChannelRef}
    (exist : ch < t.channels.fresh) (free : ∀ gate p, WaitsAt t gate p → p.listenerLink ≠ ch) :
    (∀ gate p, WaitsAt t' gate p → p.listenerLink ≠ ch) ∧ ∀ b, Holds t' b ch → Holds t b ch := by
  have hold : t.channels.fresh ≠ ch := ne_of_gt exist
  cases stepped with
  | @opened boundary capacity maxMessageBytes nextId next c made count =>
    exact ⟨free, fun b hb => (holds_give next hb).resolve_right fun hnew => hold hnew.2.symm⟩
  | requested | rejected | collected | operated | idle => exact ⟨free, fun b hb => hb⟩
  | @accepted target id nextId next next' req c aimed made count count' =>
    refine ⟨free, fun b hb => ?_⟩
    have hfirst := (holds_give next' hb).resolve_right fun hnew => hold hnew.2.symm
    exact (holds_give next hfirst).resolve_right fun hnew => hold hnew.2.symm
  | @bound owner gate notBound =>
    refine ⟨fun gate' p hp => ?_, fun b hb => hb⟩
    rw [waitsAt_withBound] at hp
    split at hp
    · cases hp
    · exact free gate' p hp
  | @connected owner requester gate queue c nextChannelId next there made count =>
    refine ⟨fun gate' p hp => ?_, fun b hb => (holds_give next hb).resolve_right fun hnew => hold hnew.2.symm⟩
    have hp : WaitsAt (t.withBound gate ⟨owner, queue ++ [⟨requester, t.channels.fresh⟩]⟩) gate' p := hp
    rw [waitsAt_withBound] at hp
    split at hp
    · rcases mem_append.mp hp with hp | hp
      · exact free gate p ((waitsAt_of_bound there p).mpr hp)
      · rw [mem_singleton.mp hp]
        exact hold
    · exact free gate' p hp
  | @linked owner gate p queue next there count =>
    have hfirst := free gate p ((waitsAt_of_bound there p).mpr mem_cons_self)
    refine ⟨fun gate' p' hp => ?_, fun b hb => (holds_give next hb).resolve_right fun hnew => hfirst hnew.2.symm⟩
    have hp : WaitsAt (t.withBound gate ⟨owner, queue⟩) gate' p' := hp
    rw [waitsAt_withBound] at hp
    split at hp
    · exact free gate p' ((waitsAt_of_bound there p').mpr (mem_cons_of_mem p hp))
    · exact free gate' p' hp

theorem fresh_le_of_stepped (stepped : Stepped profile t call reply t') : t.channels.fresh ≤ t'.channels.fresh := by
  cases stepped with
  | opened | accepted | connected => exact Nat.le_succ _
  | @operated call key op ch asks resolved => exact Nat.le_of_eq (Channels.perform_fresh ch op t.channels).symm
  | _ => exact le_rfl

theorem sound_of_run {kernel : K} {events : List (Call × Reply)}
    (h : Run (step profile) (.new kernel) events t) : Sound t := by
  induction h with
  | start => exact sound_new kernel
  | next _ taken ih => exact ih.step (stepped_of_step taken)

end CibosPlatform.KernelImage.Holders

/- source: cibos-kernel/src/channel.rs, cibos-kernel/src/scheduler.rs
   digest: When a lane that waits for a channel is woken, and when it is forgotten. -/

import CibosPlatform.Kernel.Channel.Queue

namespace CibosPlatform.Kernel.Channel.Wakeups

open Core.Events Queue Scheduler.Lists Shared.Ipc List LaneLists

section

structure NoLostWakeup (w : Wired LaneLists) : Prop where
  data : ∀ lane, w.kernel.StalledOn lane (.channelData w.channel.id) →
    w.channel.state.messages = [] ∧ w.channel.state.closed = false
  buffer : ∀ lane, w.kernel.StalledOn lane (.channelBuffer w.channel.id) →
    w.channel.capacity ≤ w.channel.state.messages.length ∧ w.channel.state.closed = false

/-- Whenever a call is about to end a wait, no lane waits but the one in the channel's slot. -/
def OnlyWaiter (w : Wired LaneLists) : Op → Prop
  | .send _ msg => w.channel.state.closed = false → msg.length ≤ w.channel.maxMessageBytes →
      w.channel.state.messages.length < w.channel.capacity →
      ∀ lane, w.kernel.StalledOn lane (.channelData w.channel.id) →
        w.channel.state.receiverWaiter = some lane
  | .recv _ => w.channel.state.messages ≠ [] →
      ∀ lane, w.kernel.StalledOn lane (.channelBuffer w.channel.id) →
        w.channel.state.senderWaiter = some lane
  | .close => ∀ lane, w.kernel.StalledOn lane (.channelData w.channel.id) ∨
      w.kernel.StalledOn lane (.channelBuffer w.channel.id) →
      w.channel.state.receiverWaiter = some lane ∨ w.channel.state.senderWaiter = some lane

theorem stalledOn_wake {waiter : Option LaneId} {lists : LaneLists} {lane : LaneId}
    {resource : WaitResource} :
    (wake waiter lists).StalledOn lane resource ↔ waiter ≠ some lane ∧
    lists.StalledOn lane resource := by
  cases waiter with
  | none => exact ⟨fun h => ⟨nofun, h⟩, fun h => h.2⟩
  | some other =>
    change (KernelInterface.signalReady other lists).StalledOn lane resource ↔ _
    rw [stalledOn_signalReady, ne_eq, ne_eq, Option.some.injEq, eq_comm]

variable {w w' : Wired LaneLists} {op : Op} {reply : Reply}

private theorem NoLostWakeup.sent {msg : Message} (h : NoLostWakeup w)
    (room : w.channel.state.messages.length < w.channel.capacity) :
    NoLostWakeup ⟨w.channel.push msg, wake w.channel.state.receiverWaiter w.kernel⟩ ↔
      ∀ lane, w.kernel.StalledOn lane (.channelData w.channel.id) →
        w.channel.state.receiverWaiter = some lane := by
  constructor
  · intro h' lane hstalled
    by_contra hne
    have hempty := (h'.data lane (stalledOn_wake.mpr ⟨hne, hstalled⟩)).1
    exact append_ne_nil_of_right_ne_nil _ (cons_ne_nil msg []) hempty
  · intro honly
    constructor
    · intro lane hstalled
      obtain ⟨hne, hstalled⟩ := stalledOn_wake.mp hstalled
      exact absurd (honly lane hstalled) hne
    · intro lane hstalled
      have hfull := (h.buffer lane (stalledOn_wake.mp hstalled).2).1
      exact absurd hfull (not_le.mpr room)

private theorem NoLostWakeup.got {msg : Message} {rest : List Message} (h : NoLostWakeup w)
    (some : w.channel.state.messages = msg :: rest)
    (bounded : w.channel.state.messages.length ≤ w.channel.capacity) :
    NoLostWakeup ⟨w.channel.pop, wake w.channel.state.senderWaiter w.kernel⟩ ↔
      ∀ lane, w.kernel.StalledOn lane (.channelBuffer w.channel.id) →
        w.channel.state.senderWaiter = Option.some lane := by
  have hlength : (w.channel.pop).state.messages.length < w.channel.capacity := by
    change w.channel.state.messages.tail.length < _
    rw [some, tail_cons]
    rw [some, length_cons] at bounded
    exact bounded
  constructor
  · intro h' lane hstalled
    by_contra hne
    have hfull := (h'.buffer lane (stalledOn_wake.mpr ⟨hne, hstalled⟩)).1
    exact absurd hfull (not_le.mpr hlength)
  · intro honly
    constructor
    · intro lane hstalled
      have hempty := (h.data lane (stalledOn_wake.mp hstalled).2).1
      rw [some] at hempty
      cases hempty
    · intro lane hstalled
      obtain ⟨hne, hstalled⟩ := stalledOn_wake.mp hstalled
      exact absurd (honly lane hstalled) hne

private theorem noLostWakeup_close : NoLostWakeup (close w) ↔ OnlyWaiter w .close := by
  have hwoken : ∀ lane resource, (close w).kernel.StalledOn lane resource ↔
      w.channel.state.senderWaiter ≠ some lane ∧ w.channel.state.receiverWaiter ≠ some lane ∧
        w.kernel.StalledOn lane resource := by
    intro lane resource
    change (wake _ (wake _ w.kernel)).StalledOn lane resource ↔ _
    rw [stalledOn_wake, stalledOn_wake]
    rfl
  constructor
  · intro h lane hstalled
    by_contra hne
    obtain ⟨hreceiver, hsender⟩ := not_or.mp hne
    rcases hstalled with hstalled | hstalled
    · cases (h.data lane ((hwoken lane _).mpr ⟨hsender, hreceiver, hstalled⟩)).2
    · cases (h.buffer lane ((hwoken lane _).mpr ⟨hsender, hreceiver, hstalled⟩)).2
  · intro honly
    constructor
    · intro lane hstalled
      obtain ⟨hsender, hreceiver, hstalled⟩ := (hwoken lane _).mp hstalled
      exact ((honly lane (.inl hstalled)).elim hreceiver hsender).elim
    · intro lane hstalled
      obtain ⟨hsender, hreceiver, hstalled⟩ := (hwoken lane _).mp hstalled
      exact ((honly lane (.inr hstalled)).elim hreceiver hsender).elim

theorem noLostWakeup_step (bounded : w.channel.state.messages.length ≤ w.channel.capacity)
    (h : NoLostWakeup w) (stepped : Stepped w op reply w') : NoLostWakeup w' ↔ OnlyWaiter w op := by
  cases stepped with
  | @send lane msg _ _ sends =>
    cases sends with
    | closed shut => exact ⟨fun _ isOpen => by simp [shut] at isOpen, fun _ => h⟩
    | tooLarge _ large => exact ⟨fun _ _ small => absurd small (not_le.mpr large), fun _ => h⟩
    | sent isOpen small room =>
      rw [h.sent room]
      exact ⟨fun honly _ _ _ => honly, fun honly => honly isOpen small room⟩
    | full isOpen _ full =>
      refine ⟨fun _ _ _ room => absurd full (not_le.mpr room), fun _ => ⟨?_, ?_⟩⟩
      · intro other hstalled
        have hstalled := stalledOn_registerWait.mp hstalled
        split at hstalled
        · cases hstalled
        · exact h.data other hstalled
      · exact fun _ _ => ⟨full, isOpen⟩
  | @recv lane _ _ receives =>
    cases receives with
    | message some =>
      rw [h.got some bounded]
      exact ⟨fun honly _ => honly, fun honly => honly (by rw [some]; exact cons_ne_nil _ _)⟩
    | empty none isOpen =>
      refine ⟨fun _ hsome => absurd none hsome, fun _ => ⟨?_, ?_⟩⟩
      · exact fun _ _ => ⟨none, isOpen⟩
      · intro other hstalled
        have hstalled := stalledOn_registerWait.mp hstalled
        split at hstalled
        · cases hstalled
        · exact h.buffer other hstalled
    | closed none => exact ⟨fun _ hsome => absurd none hsome, fun _ => h⟩
  | close => exact noLostWakeup_close

/-- A run loses no wake-up exactly if, whenever a call provides a message, a place or the close, no
lane but the one in the slot is stalled for it. -/
theorem several_waiters_iff (id : ChannelId) (terms : ChannelTerms) (lists : LaneLists)
    (quiet : ∀ lane, ¬ lists.StalledOn lane (.channelData id) ∧
      ¬ lists.StalledOn lane (.channelBuffer id))
    {events : List (Op × Reply)} (h : Run step ⟨.new id terms, lists⟩ events w) :
    Through step ⟨.new id terms, lists⟩ (fun _ w => NoLostWakeup w) events ↔
      Meets step ⟨.new id terms, lists⟩ (fun _ w op => OnlyWaiter w op) events := by
  refine h.through_iff_meets ?_ ?_
  · exact ⟨fun lane hstalled => absurd hstalled (quiet lane).1,
      fun lane hstalled => absurd hstalled (quiet lane).2⟩
  · intro pre w1 op reply w2 hpre hbefore taken
    have hqueued := queued_of_run hpre
    refine noLostWakeup_step ?_ hbefore (stepped_of_step taken)
    rw [hqueued.capacity]
    exact hqueued.bounded

/-- One receiver that waits and is woken by the first message. -/
theorem several_waiters_iff_one_receiver :
    Through step (⟨.new 9 ⟨⟨[], by decide⟩, .bidirectional, 8, 1⟩, .empty⟩ : Wired LaneLists)
      (fun _ w => NoLostWakeup w) [(.recv 1, .recv .empty), (.send 3 [7], .send .sent)] := by
  refine (several_waiters_iff 9 _ .empty (fun _ => ⟨stalledOn_empty, stalledOn_empty⟩)
    (.eval rfl)).mpr ?_
  refine (meets_nil.next .start fun hnone => absurd rfl hnone).next
    (.eval rfl) fun _ _ _ lane hstalled => ?_
  have hstalled : (KernelInterface.registerWait 1 (.channelData 9) LaneLists.empty).StalledOn lane
      (.channelData 9) := hstalled
  rw [stalledOn_registerWait] at hstalled
  split at hstalled
  · rename_i hlane
    rw [hlane]
    rfl
  · exact absurd hstalled stalledOn_empty

/-- Two lanes find the channel empty; the message that comes wakes the second of them, and the first
stays stalled beside it. -/
theorem first_receiver_forgotten : ∃ w : Wired LaneLists,
    Run step ⟨.new 9 ⟨⟨[], by decide⟩, .bidirectional, 8, 1⟩, .empty⟩
      [(.recv 1, .recv .empty), (.recv 2, .recv .empty), (.send 3 [7], .send .sent)] w ∧
    w.kernel.StalledOn 1 (.channelData 9) ∧ w.channel.state.messages = [[7]] ∧
      ¬ NoLostWakeup w := by
  exact ⟨_, .eval rfl, by decide, rfl, fun h => absurd (h.data 1 (by decide)).1 nofun⟩

end

end CibosPlatform.Kernel.Channel.Wakeups

/- source: cibos-kernel/src/channel.rs, cibos-kernel/src/scheduler.rs
   digest: Channel operations cut where they release the lock, and wake-ups in every interleaving. -/

import CibosPlatform.Kernel.Channel.Queue

/-! An operation decides under the channel's lock and calls the scheduler after it; in between other lanes
act. A step is one decision or one such call. -/

namespace CibosPlatform.Kernel.Channel.Gap

open Core.Events Queue Scheduler.Lists Shared.Ipc List Function LaneLists

inductive Party where
  | sender
  | receiver
  | other (n : Nat)
  deriving DecidableEq

inductive Followup where
  | signal (lane : LaneId)
  | register (lane : LaneId) (resource : WaitResource)

def signals (waiter : Option LaneId) : List Followup := waiter.toList.map .signal

def sendFollowups (id : ChannelId) (lane : LaneId) : SendAction → List Followup
  | .sentWake waiter => signals waiter
  | .registerFull => [.register lane (.channelBuffer id)]
  | .closed => []
  | .tooLarge => []

def recvFollowups (id : ChannelId) (lane : LaneId) : RecvAction → List Followup
  | .gotWake _ waiter => signals waiter
  | .registerEmpty => [.register lane (.channelData id)]
  | .closed => []

def closeFollowups (taken : Option LaneId × Option LaneId) : List Followup :=
  signals taken.1 ++ signals taken.2

section

variable {K : Type} [KernelInterface K]

def Followup.perform : Followup → K → K
  | signal lane, kernel => KernelInterface.signalReady lane kernel
  | register lane resource, kernel => KernelInterface.registerWait lane resource kernel

def performAll (followups : List Followup) (kernel : K) : K :=
  followups.foldl (fun kernel f => f.perform kernel) kernel

private theorem performAll_signals (waiter : Option LaneId) (kernel : K) :
    performAll (signals waiter) kernel = wake waiter kernel := by
  cases waiter with
  | none | some lane => rfl

theorem trySend_eq_performAll (lane : LaneId) (msg : Message) (w : Wired K) :
    (trySend lane msg w).2 = ⟨(w.channel.sendSection lane msg).2,
      performAll (sendFollowups (w.channel.sendSection lane msg).2.id lane
        (w.channel.sendSection lane msg).1) w.kernel⟩ := by
  rw [trySend]
  rcases w.channel.sendSection lane msg with ⟨waiter | _ | _ | _, c⟩
  · exact congrArg (Wired.mk c) (performAll_signals waiter w.kernel).symm
  · rfl
  · rfl
  · rfl

theorem tryRecv_eq_performAll (lane : LaneId) (w : Wired K) :
    (tryRecv lane w).2 = ⟨(w.channel.recvSection lane).2,
      performAll (recvFollowups (w.channel.recvSection lane).2.id lane
        (w.channel.recvSection lane).1) w.kernel⟩ := by
  rw [tryRecv]
  rcases w.channel.recvSection lane with ⟨⟨msg, waiter⟩ | _ | _, c⟩
  · exact congrArg (Wired.mk c) (performAll_signals waiter w.kernel).symm
  · rfl
  · rfl

theorem close_eq_performAll (w : Wired K) :
    close w = ⟨w.channel.closeSection.2, performAll (closeFollowups w.channel.closeSection.1) w.kernel⟩ := by
  rw [close, closeFollowups, performAll, foldl_append]
  change _ = Wired.mk _ (performAll (signals _) (performAll (signals _) w.kernel))
  rw [performAll_signals, performAll_signals]

end

/-- A channel, the scheduler, and what each party has still to call. -/
structure Gapped where
  channel : ChannelInner
  kernel : LaneLists
  pending : Party → List Followup

inductive Move where
  | send (msg : Message)
  | recv
  | close (party : Party)
  | proceed (party : Party)

namespace Gapped

def new (id : ChannelId) (terms : ChannelTerms) (lists : LaneLists) : Gapped :=
  ⟨.new id terms, lists, fun _ => []⟩

def decided (g : Gapped) (party : Party) (channel : ChannelInner) (followups : List Followup) : Gapped :=
  ⟨channel, g.kernel, update g.pending party followups⟩

def proceeded (g : Gapped) (party : Party) (f : Followup) (rest : List Followup) : Gapped :=
  ⟨g.channel, f.perform g.kernel, update g.pending party rest⟩

end Gapped

open Gapped

/-- The steps in which the sending lane sends, the receiving lane receives and anyone closes. A party
starts an operation when its last one is complete. -/
def gapStep (sender receiver : LaneId) (move : Move) (g : Gapped) : Option (Unit × Gapped) :=
  match move with
  | .send msg =>
    if g.pending .sender = [] then
      let r := g.channel.sendSection sender msg
      some ((), g.decided .sender r.2 (sendFollowups r.2.id sender r.1))
    else none
  | .recv =>
    if g.pending .receiver = [] then
      let r := g.channel.recvSection receiver
      some ((), g.decided .receiver r.2 (recvFollowups r.2.id receiver r.1))
    else none
  | .close party =>
    if g.pending party = [] then
      let r := g.channel.closeSection
      some ((), g.decided party r.2 (closeFollowups r.1))
    else none
  | .proceed party =>
    match g.pending party with
    | f :: rest => some ((), g.proceeded party f rest)
    | [] => none

inductive Moved (sender receiver : LaneId) (g : Gapped) : Move → Gapped → Prop
  | unsent {msg : Message} (idle : g.pending .sender = []) :
      Moved sender receiver g (.send msg) (g.decided .sender g.channel [])
  | sent {msg : Message} (idle : g.pending .sender = [])
      (room : g.channel.state.messages.length < g.channel.capacity) :
      Moved sender receiver g (.send msg)
        (g.decided .sender (g.channel.push msg) (signals g.channel.state.receiverWaiter))
  | full {msg : Message} (idle : g.pending .sender = []) (isOpen : g.channel.state.closed = false)
      (full : g.channel.capacity ≤ g.channel.state.messages.length) :
      Moved sender receiver g (.send msg)
        (g.decided .sender (g.channel.parkSender sender) [.register sender (.channelBuffer g.channel.id)])
  | drained (idle : g.pending .receiver = []) :
      Moved sender receiver g .recv (g.decided .receiver g.channel [])
  | got (idle : g.pending .receiver = []) (some : g.channel.state.messages ≠ []) :
      Moved sender receiver g .recv
        (g.decided .receiver g.channel.pop (signals g.channel.state.senderWaiter))
  | empty (idle : g.pending .receiver = []) (isOpen : g.channel.state.closed = false)
      (none : g.channel.state.messages = []) :
      Moved sender receiver g .recv (g.decided .receiver (g.channel.parkReceiver receiver)
          [.register receiver (.channelData g.channel.id)])
  | close {party : Party} (idle : g.pending party = []) :
      Moved sender receiver g (.close party) (g.decided party g.channel.shut
          (signals g.channel.state.receiverWaiter ++ signals g.channel.state.senderWaiter))
  | proceed {party : Party} {f : Followup} {rest : List Followup} (next : g.pending party = f :: rest) :
      Moved sender receiver g (.proceed party) (g.proceeded party f rest)

theorem moved_of_gapStep {sender receiver : LaneId} {move : Move} {g g' : Gapped} {u : Unit}
    (h : gapStep sender receiver move g = some (u, g')) : Moved sender receiver g move g' := by
  cases move with
  | send msg =>
    rw [gapStep] at h
    split at h
    · rename_i hidle
      cases h
      rw [ChannelInner.sendSection]
      split
      · exact .unsent hidle
      · rename_i hopen
        split
        · exact .unsent hidle
        · split
          · rename_i hroom
            exact .sent hidle hroom
          · rename_i hfull
            exact .full hidle (Bool.eq_false_of_not_eq_true hopen) (not_lt.mp hfull)
    · cases h
  | recv =>
    rw [gapStep] at h
    split at h
    · rename_i hidle
      cases h
      rw [ChannelInner.recvSection]
      rcases hmessages : g.channel.state.messages with _ | ⟨msg, rest⟩
      · by_cases hclosed : g.channel.state.closed
        · simp only [if_pos hclosed]
          exact .drained hidle
        · simp only [if_neg hclosed]
          exact .empty hidle (Bool.eq_false_of_not_eq_true hclosed) hmessages
      · exact .got hidle (by rw [hmessages]; exact cons_ne_nil msg rest)
    · cases h
  | close party =>
    rw [gapStep] at h
    split at h
    · rename_i hidle
      cases h
      exact .close hidle
    · cases h
  | proceed party =>
    rw [gapStep] at h
    split at h
    · rename_i f rest hnext
      cases h
      exact .proceed hnext
    · cases h

namespace Gapped

def Coming (g : Gapped) (f : Followup) : Prop := ∃ party, f ∈ g.pending party

def Waits (g : Gapped) (lane : LaneId) (resource : WaitResource) : Prop :=
  g.kernel.StalledOn lane resource ∨ g.Coming (.register lane resource)

variable {g : Gapped} {party : Party} {channel : ChannelInner} {followups rest : List Followup}
  {f f' : Followup} {lane : LaneId} {resource : WaitResource}

theorem decided_pending : (g.decided party channel followups).pending =
    update g.pending party followups := rfl

theorem proceeded_pending : (g.proceeded party f rest).pending = update g.pending party rest := rfl

theorem coming_decided (idle : g.pending party = []) :
    (g.decided party channel followups).Coming f ↔ g.Coming f ∨ f ∈ followups := by
  constructor
  · rintro ⟨p, hp⟩
    by_cases hsame : p = party
    · subst hsame
      rw [decided_pending, update_self] at hp
      exact .inr hp
    · rw [decided_pending, update_of_ne hsame] at hp
      exact .inl ⟨p, hp⟩
  · rintro (⟨p, hp⟩ | hnew)
    · refine ⟨p, ?_⟩
      have hother : p ≠ party := by
        rintro rfl
        rw [idle] at hp
        cases hp
      rw [decided_pending, update_of_ne hother]
      exact hp
    · refine ⟨party, ?_⟩
      rw [decided_pending, update_self]
      exact hnew

theorem coming_proceeded (next : g.pending party = f :: rest)
    (h : (g.proceeded party f rest).Coming f') : g.Coming f' := by
  obtain ⟨p, hp⟩ := h
  refine ⟨p, ?_⟩
  by_cases hsame : p = party
  · subst hsame
    rw [proceeded_pending, update_self] at hp
    rw [next]
    exact mem_cons_of_mem f hp
  · rw [proceeded_pending, update_of_ne hsame] at hp
    exact hp

theorem Coming.proceeded (next : g.pending party = f :: rest) (h : g.Coming f') (other : f' ≠ f) :
    (g.proceeded party f rest).Coming f' := by
  obtain ⟨p, hp⟩ := h
  refine ⟨p, ?_⟩
  by_cases hsame : p = party
  · subst hsame
    rw [proceeded_pending, update_self]
    rw [next] at hp
    exact (mem_cons.mp hp).resolve_left other
  · rw [proceeded_pending, update_of_ne hsame]
    exact hp

theorem waits_decided (idle : g.pending party = [])
    (h : (g.decided party channel followups).Waits lane resource) :
    g.Waits lane resource ∨ .register lane resource ∈ followups := by
  rcases h with hstalled | hcoming
  · exact .inl (.inl hstalled)
  · exact ((coming_decided idle).mp hcoming).imp_left .inr

end Gapped

variable {resource : WaitResource}

theorem register_notMem_signals {waiter : Option LaneId} {lane : LaneId} :
    .register lane resource ∉ signals waiter := by
  intro h
  obtain ⟨other, -, hother⟩ := mem_map.mp h
  cases hother

theorem signal_mem_signals {waiter : Option LaneId} {lane : LaneId} (h : waiter = some lane) :
    .signal lane ∈ signals waiter := by
  subst h
  exact mem_singleton_self _

/-- A waiting lane has a reason to wait and stands in its slot, or a signal for it is on its way. -/
structure Watched (sender receiver : LaneId) (g : Gapped) : Prop where
  data : g.Waits receiver (.channelData g.channel.id) →
    (g.channel.state.messages = [] ∧ g.channel.state.closed = false ∧
      g.channel.state.receiverWaiter = some receiver) ∨ g.Coming (.signal receiver)
  buffer : g.Waits sender (.channelBuffer g.channel.id) →
    (g.channel.capacity ≤ g.channel.state.messages.length ∧ g.channel.state.closed = false ∧
      g.channel.state.senderWaiter = some sender) ∨ g.Coming (.signal sender)

def InOrder (g : Gapped) : Move → Prop
  | .proceed party => ∀ lane rest, g.pending party = .signal lane :: rest →
      ∀ resource, ¬ g.Coming (.register lane resource)
  | _ => True

def NotStuck (sender receiver : LaneId) (g : Gapped) : Prop :=
  (g.kernel.StalledOn receiver (.channelData g.channel.id) →
    g.channel.state.messages = [] ∧ g.channel.state.closed = false) ∧
  (g.kernel.StalledOn sender (.channelBuffer g.channel.id) →
    g.channel.capacity ≤ g.channel.state.messages.length ∧ g.channel.state.closed = false)

section

variable {sender receiver : LaneId} {g g' : Gapped} {move : Move}

variable {party : Party} {lane : LaneId}

private theorem Watched.signal {rest : List Followup} (h : Watched sender receiver g)
    (next : g.pending party = .signal lane :: rest) (inOrder : ∀ resource, ¬ g.Coming (.register lane resource)) :
    Watched sender receiver (g.proceeded party (.signal lane) rest) := by
  -- a lane that still waits afterwards is not the one that was signalled
  have hwaits : ∀ other resource, (g.proceeded party (.signal lane) rest).Waits other resource →
      other ≠ lane ∧ g.Waits other resource := by
    rintro other resource (hstalled | hcoming)
    · obtain ⟨hne, hstalled⟩ := stalledOn_signalReady.mp hstalled
      exact ⟨hne, .inl hstalled⟩
    · have hbefore := coming_proceeded next hcoming
      refine ⟨?_, .inr hbefore⟩
      rintro rfl
      exact inOrder resource hbefore
  have hsignal : ∀ other, other ≠ lane → g.Coming (.signal other) →
      (g.proceeded party (.signal lane) rest).Coming (.signal other) := by
    intro other hne hcoming
    refine hcoming.proceeded next ?_
    rintro hsame
    cases hsame
    exact hne rfl
  constructor
  · intro hwait
    obtain ⟨hne, hwait⟩ := hwaits _ _ hwait
    exact (h.data hwait).imp_right (hsignal _ hne)
  · intro hwait
    obtain ⟨hne, hwait⟩ := hwaits _ _ hwait
    exact (h.buffer hwait).imp_right (hsignal _ hne)

private theorem Watched.register {rest : List Followup}
    (h : Watched sender receiver g) (next : g.pending party = .register lane resource :: rest) :
    Watched sender receiver (g.proceeded party (.register lane resource) rest) := by
  have hwaits : ∀ other resource', (g.proceeded party (.register lane resource) rest).Waits other resource' →
      g.Waits other resource' := by
    rintro other resource' (hstalled | hcoming)
    · have hregistered := stalledOn_registerWait.mp hstalled
      split at hregistered
      · rename_i hsame
        subst hsame hregistered
        refine .inr ⟨party, ?_⟩
        rw [next]
        exact mem_cons_self
      · exact .inl hregistered
    · exact .inr (coming_proceeded next hcoming)
  have hsignal : ∀ other, g.Coming (.signal other) →
      (g.proceeded party (.register lane resource) rest).Coming (.signal other) := by
    intro other hcoming
    exact hcoming.proceeded next nofun
  exact ⟨fun hwait => (h.data (hwaits _ _ hwait)).imp_right (hsignal _),
    fun hwait => (h.buffer (hwaits _ _ hwait)).imp_right (hsignal _)⟩

private theorem watch_decided {channel : ChannelInner} {followups : List Followup}
    {reason reason' : Prop} (idle : g.pending party = [])
    (watch : g.Waits lane resource → reason ∨ g.Coming (.signal lane))
    (unregistered : .register lane resource ∉ followups) (next : reason → reason' ∨ .signal lane ∈ followups) :
    (g.decided party channel followups).Waits lane resource →
      reason' ∨ (g.decided party channel followups).Coming (.signal lane) := by
  intro hwait
  have hwait := (waits_decided idle hwait).resolve_right unregistered
  rw [coming_decided idle]
  rcases watch hwait with hreason | hcoming
  · exact (next hreason).imp_right .inr
  · exact .inr (.inl hcoming)

theorem Watched.step (h : Watched sender receiver g) (inOrder : InOrder g move)
    (moved : Moved sender receiver g move g') : Watched sender receiver g' := by
  cases moved with
  | unsent idle =>
    exact ⟨watch_decided idle h.data not_mem_nil .inl, watch_decided idle h.buffer not_mem_nil .inl⟩
  | sent idle room =>
    refine ⟨watch_decided idle h.data register_notMem_signals ?_,
      watch_decided idle h.buffer register_notMem_signals ?_⟩
    · exact fun hdata => .inr (signal_mem_signals hdata.2.2)
    · exact fun hbuffer => absurd hbuffer.1 (not_le.mpr room)
  | full idle isOpen full =>
    refine ⟨watch_decided idle h.data ?_ .inl, fun _ => .inl ⟨full, isOpen, rfl⟩⟩
    exact fun hmem => nomatch mem_singleton.mp hmem
  | drained idle =>
    exact ⟨watch_decided idle h.data not_mem_nil .inl, watch_decided idle h.buffer not_mem_nil .inl⟩
  | got idle some =>
    refine ⟨watch_decided idle h.data register_notMem_signals ?_,
      watch_decided idle h.buffer register_notMem_signals ?_⟩
    · exact fun hdata => absurd hdata.1 some
    · exact fun hbuffer => .inr (signal_mem_signals hbuffer.2.2)
  | empty idle isOpen none =>
    refine ⟨fun _ => .inl ⟨none, isOpen, rfl⟩, watch_decided idle h.buffer ?_ .inl⟩
    exact fun hmem => nomatch mem_singleton.mp hmem
  | close idle =>
    have hnew : ∀ {lane resource}, .register lane resource ∉
        signals g.channel.state.receiverWaiter ++ signals g.channel.state.senderWaiter := by
      intro lane resource hmem
      exact (mem_append.mp hmem).elim register_notMem_signals register_notMem_signals
    refine ⟨watch_decided idle h.data hnew ?_, watch_decided idle h.buffer hnew ?_⟩
    · exact fun hdata => .inr (mem_append_left _ (signal_mem_signals hdata.2.2))
    · exact fun hbuffer => .inr (mem_append_right _ (signal_mem_signals hbuffer.2.2))
  | @proceed party f rest next =>
    cases f with
    | signal lane => exact h.signal next (inOrder lane rest next)
    | register lane resource => exact h.register next

theorem watched_of_run {id : ChannelId} {terms : ChannelTerms} {lists : LaneLists}
    {events : List (Move × Unit)} (data : ¬ lists.StalledOn receiver (.channelData id))
    (buffer : ¬ lists.StalledOn sender (.channelBuffer id))
    (h : Run (gapStep sender receiver) (.new id terms lists) events g)
    (ordered : Meets (gapStep sender receiver) (.new id terms lists) (fun _ g move => InOrder g move) events) :
    Watched sender receiver g := by
  induction h with
  | start =>
    have hnone : ∀ f, ¬ (Gapped.new id terms lists).Coming f := by
      rintro f ⟨party, hmem⟩
      cases hmem
    exact ⟨fun hwait => (hwait.elim data (hnone _)).elim, fun hwait => (hwait.elim buffer (hnone _)).elim⟩
  | @next events g g' move u before taken ih =>
    have hnow := ordered events move u [] g rfl before
    exact (ih ordered.init).step hnow (moved_of_gapStep taken)

/-- If no signal overtakes a registration of the lane it is for, then in every interleaving no lane is
left stalled once all operations are complete. -/
theorem notStuck_of_inOrder (id : ChannelId) (terms : ChannelTerms) (lists : LaneLists)
    (sender receiver : LaneId) (data : ¬ lists.StalledOn receiver (.channelData id))
    (buffer : ¬ lists.StalledOn sender (.channelBuffer id)) {events : List (Move × Unit)}
    (h : Run (gapStep sender receiver) (.new id terms lists) events g)
    (ordered : Meets (gapStep sender receiver) (.new id terms lists) (fun _ g move => InOrder g move) events)
    (settled : ∀ party, g.pending party = []) : NotStuck sender receiver g := by
  have hwatched := watched_of_run data buffer h ordered
  have hnone : ∀ f, ¬ g.Coming f := by
    rintro f ⟨party, hmem⟩
    rw [settled party] at hmem
    cases hmem
  constructor
  · intro hstalled
    obtain ⟨hempty, hopen, -⟩ := (hwatched.data (.inl hstalled)).resolve_right (hnone _)
    exact ⟨hempty, hopen⟩
  · intro hstalled
    obtain ⟨hfull, hopen, -⟩ := (hwatched.buffer (.inl hstalled)).resolve_right (hnone _)
    exact ⟨hfull, hopen⟩

/-- The receiver finds the channel empty and registers, then a message comes and it is signalled. -/
theorem notStuck_of_inOrder_woken : ∃ g : Gapped,
    Run (gapStep 2 1) (.new 9 ⟨⟨[], by decide⟩, .bidirectional, 8, 1⟩ .empty)
      [(.recv, ()), (.proceed .receiver, ()), (.send [7], ()), (.proceed .sender, ())] g ∧
    g.channel.state.messages = [[7]] ∧ NotStuck 2 1 g := by
  let g0 : Gapped := .new 9 ⟨⟨[], by decide⟩, .bidirectional, 8, 1⟩ .empty
  have hrecv : Run (gapStep 2 1) g0 [(.recv, ())] _ := Run.start.next rfl
  have hregister : Run (gapStep 2 1) g0 [(.recv, ()), (.proceed .receiver, ())] _ := hrecv.next rfl
  have hsend : Run (gapStep 2 1) g0 [(.recv, ()), (.proceed .receiver, ()), (.send [7], ())] _ :=
    hregister.next rfl
  have hsignal : Run (gapStep 2 1) g0
    [(.recv, ()), (.proceed .receiver, ()), (.send [7], ()), (.proceed .sender, ())] _ := hsend.next rfl
  have hordered : Meets (gapStep 2 1) g0 (fun _ g move => InOrder g move)
      [(.recv, ()), (.proceed .receiver, ()), (.send [7], ()), (.proceed .sender, ())] := by
    refine (((meets_nil.next .start ?_).next hrecv ?_).next hregister ?_).next hsend ?_
    · trivial
    · intro lane rest hnext
      cases hnext
    · trivial
    · rintro lane rest - resource ⟨party, hmem⟩
      cases party with
      | sender => cases mem_singleton.mp hmem
      | receiver | other n => cases hmem
  refine ⟨_, hsignal, rfl, notStuck_of_inOrder 9 _ .empty 2 1 stalledOn_empty
    stalledOn_empty hsignal hordered ?_⟩
  intro party
  cases party with
  | sender | receiver | other n => rfl

/-- The receiver finds the channel empty; before it has registered, a message comes and signals it.
Then it registers, and is stalled beside the message. -/
theorem signal_overtakes_registration : ∃ g : Gapped,
    Run (gapStep 2 1) (.new 9 ⟨⟨[], by decide⟩, .bidirectional, 8, 1⟩ .empty)
      [(.recv, ()), (.send [7], ()), (.proceed .sender, ()), (.proceed .receiver, ())] g ∧
    (∀ party, g.pending party = []) ∧ g.kernel.StalledOn 1 (.channelData 9) ∧
    g.channel.state.messages = [[7]] ∧ ¬ NotStuck 2 1 g := by
  have hrecv : Run (gapStep 2 1) (.new 9 ⟨⟨[], by decide⟩, .bidirectional, 8, 1⟩ .empty) [(.recv, ())] _ :=
    Run.start.next rfl
  have hrun := ((hrecv.next (a := .send [7]) rfl).next (a := .proceed .sender) rfl).next
    (a := .proceed .receiver) rfl
  refine ⟨_, hrun, ?_, rfl, rfl, fun h => ?_⟩
  · intro party
    cases party with
    | sender | receiver | other n => rfl
  · cases (h.1 rfl).1

end

end CibosPlatform.Kernel.Channel.Gap

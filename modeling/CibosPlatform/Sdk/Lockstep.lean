/- source: cibos-sdk/src/channel.rs, cibos-kernel/src/channel.rs
   digest: The messages of a typed channel and the tokens of its signal, over every order of polls. -/

import CibosPlatform.Sdk.Task
import Mathlib.Data.List.Nodup

/-! One state stands for all clones of a channel, and what lanes do is a sequence of polls in any order. A
send has a number, which tells its message from an equal one. -/

namespace CibosPlatform.Sdk.Lockstep

open Core Events Interaction LittleEndian Maps List Option
open Kernel.Channel.Queue (ChannelInner SendStep)
open Kernel.Loop (schedulerEnv)
open Kernel.Scheduler.State (SchedulerState)
open Channel
open Sdk.Task (trySendResult tryReceiveResult)
open Shared.Ipc

inductive Way where
  | send
  | resume (call : Nat)
  | trySend

/-- What happens to a channel: a message is offered, a suspended send is dropped, a message is
looked for, a clone is closed; other code may leave the scheduler in any state. -/
inductive Op (V : Type) where
  | offer (way : Way) (lane : LaneId) (message : V)
  | cancel (call : Nat)
  | take (lane : LaneId)
  | close
  | elsewhere (scheduler : SchedulerState)

inductive Reply (V : Type) where
  | offered (call : Nat) (step : SendStep)
  | taken (found : TypedChannel.Received V)
  | done

def sendPoll : SendStep → Option (Except ChannelError Unit)
  | .sent => some (.ok ())
  | .full => none
  | .closed => some (.error .channelClosed)
  | .tooLarge => some (.error .messageTooLarge)

def receivePoll {V : Type} : TypedChannel.Received V → Option (Option V)
  | .message payload => some payload
  | .empty => none
  | .closed => some none

structure Clones (V : Type) where
  channel : TypedChannel V
  calls : Nat
  suspended : SortedMap Nat V

section

variable {V : Type} [DecidableEq V]

def perform {α : Type} (program : Call α) (s : SchedulerState) : Option (α × SchedulerState) :=
  (program.run schedulerEnv s).bind fun r =>
    match r.outcome with
    | .ok a => some (a, r.state)
    | .err _ | .panic => none

def callOf (c : Clones V) (way : Way) (message : V) : Option Nat :=
  match way with
  | .send | .trySend => some c.calls
  | .resume call => if c.suspended.get? call = some message then some call else none

def suspendedAfter (c : Clones V) (way : Way) (message : V) (r : SendStep) : SortedMap Nat V :=
  match way with
  | .trySend => c.suspended
  | .send => if sendPoll r = none then c.suspended.insert c.calls message else c.suspended
  | .resume call => if sendPoll r = none then c.suspended else c.suspended.erase call

def step (op : Op V) (w : Clones V × SchedulerState) :
    Option (Reply V × Clones V × SchedulerState) :=
  let c := w.1
  match op with
  | .offer way lane message =>
    (callOf c way message).bind fun call =>
      (perform (c.channel.trySend lane message) w.2).map fun r =>
        (.offered call r.1.1, ⟨r.1.2, max c.calls (call + 1), suspendedAfter c way message r.1.1⟩,
          r.2)
  | .cancel call => some (.done, { c with suspended := c.suspended.erase call }, w.2)
  | .take lane =>
    (perform (c.channel.tryReceive lane) w.2).map fun r =>
    (.taken r.1.1, { c with channel := r.1.2 }, r.2)
  | .close => (perform c.channel.close w.2).map fun r => (.done, { c with channel := r.1 }, r.2)
  | .elsewhere scheduler => some (.done, c, scheduler)

end

section

variable {V : Type} {lane : LaneId} {message : V} {c : TypedChannel V}

inductive Offers (message : V) (c : TypedChannel V) : SendStep → TypedChannel V → Prop
  | sent (isOpen : c.signal.state.closed = false)
      (room : c.signal.state.messages.length < c.signal.capacity) :
      Offers message c .sent ⟨c.queue ++ [message], c.signal.push token⟩
  | full {lane : LaneId} : Offers message c .full ⟨c.queue, c.signal.parkSender lane⟩
  | closed : Offers message c .closed c
  | tooLarge : Offers message c .tooLarge c

inductive Takes (c : TypedChannel V) : TypedChannel.Received V → TypedChannel V → Prop
  | message {first : Message} {rest : List Message}
      (some : c.signal.state.messages = first :: rest) :
      Takes c (.message c.queue.head?) ⟨c.queue.tail, c.signal.pop⟩
  | empty {lane : LaneId} : Takes c .empty ⟨c.queue, c.signal.parkReceiver lane⟩
  | closed (none : c.signal.state.messages = []) (shut : c.signal.state.closed = true) :
      Takes c .closed c

theorem ensures_trySend : Ask.Ensures (c.trySend lane message) fun r =>
    Offers message c r.1 r.2 := by
  unfold TypedChannel.trySend Signal.trySend ChannelInner.sendSection
  by_cases hclosed : c.signal.state.closed
  · rw [if_pos hclosed]
    exact .done .closed
  · rw [if_neg hclosed]
    by_cases hlarge : c.signal.maxMessageBytes < token.length
    · rw [if_pos hlarge]
      exact .done .tooLarge
    · rw [if_neg hlarge]
      by_cases hroom : c.signal.state.messages.length < c.signal.capacity
      · rw [if_pos hroom]
        refine .bind ((Ask.Ensures.any _).bind fun _ _ => .done rfl) fun r hr => ?_
        rw [← hr]
        exact .done (.sent (Bool.eq_false_of_not_eq_true hclosed) hroom)
      · rw [if_neg hroom]
        exact .ask fun _ => .done .full

theorem ensures_tryReceive : Ask.Ensures (c.tryReceive lane) fun r => Takes c r.1 r.2 := by
  unfold TypedChannel.tryReceive Signal.tryRecv ChannelInner.recvSection
  rcases hmessages : c.signal.state.messages with _ | ⟨first, rest⟩
  · by_cases hclosed : c.signal.state.closed
    · simp only [if_pos hclosed]
      exact .done (.closed hmessages hclosed)
    · simp only [if_neg hclosed]
      exact .ask fun _ => .done .empty
  · refine .bind ((Ask.Ensures.any _).bind fun _ _ => .done rfl) fun r hr => ?_
    rw [← hr]
    exact .done (.message hmessages)

theorem ensures_close : Ask.Ensures c.close fun r => r = ⟨c.queue, c.signal.shut⟩ := by
  refine .bind ((Ask.Ensures.any _).bind fun _ _ => (Ask.Ensures.any _).bind fun _ _ => .done rfl)
    ?_
  rintro signal rfl
  exact .done rfl

theorem perform_ensures {α : Type} {program : Call α} {R : α → Prop} {s : SchedulerState}
    {r : α × SchedulerState}
    (ensures : Ask.Ensures program R) (h : perform program s = some r) : R r.1 := by
  obtain ⟨ended, hran, hend⟩ := bind_eq_some_iff.mp h
  split at hend
  · rename_i a houtcome
    cases hend
    exact ensures.sound hran houtcome
  all_goals cases hend

end

section

variable {V : Type} (events : List (Op V × Reply V))

def accepted : List (Nat × V) := events.filterMap fun
  | (.offer _ _ message, .offered call .sent) => some (call, message)
  | _ => none

def handedBack : List (Nat × V) := events.filterMap fun
  | (.offer .trySend _ message, .offered call r) =>
    match trySendResult message r with
    | .error (.full back) | .error (.closed back) => some (call, back)
    | .ok _ => none
  | _ => none

def received : List V := events.filterMap fun
  | (_, .taken (.message payload)) => payload
  | _ => none

def AtEnd : Reply V → Prop
  | .taken found => receivePoll found = some none ∨ tryReceiveResult found = .error .closed
  | _ => False

variable (first second : List (Op V × Reply V))

theorem accepted_append :
    accepted (first ++ second) = accepted first ++ accepted second := filterMap_append

theorem handedBack_append :
    handedBack (first ++ second) = handedBack first ++ handedBack second := filterMap_append

theorem received_append :
    received (first ++ second) = received first ++ received second := filterMap_append

end

section

variable {V : Type} {accepted received : List V} {shut : Prop} {c c' : TypedChannel V}
  {capacity : Nat}

/-- A token for each message, within the capacity; the messages accepted are those received and then the queue. -/
structure InStep (capacity : Nat) (accepted received : List V) (shut : Prop) (c : TypedChannel V) :
    Prop where
  tokens : c.queue.length = c.signal.state.messages.length
  bounded : c.queue.length ≤ capacity
  capacity : c.signal.capacity = capacity
  order : accepted = received ++ c.queue
  closed : c.signal.state.closed = true → shut

variable (h : InStep capacity accepted received shut c)

include h

theorem InStep.offers {message : V} {r : SendStep} (offers : Offers message c r c') :
    InStep capacity (accepted ++ if r = .sent then [message] else []) received shut c' := by
  obtain ⟨htokens, hbounded, hcapacity, horder, hclosed⟩ := h
  cases offers with
  | sent isOpen room =>
    refine ⟨by simp [ChannelInner.push, htokens], ?_, hcapacity, by simp [horder], hclosed⟩
    simp only [length_append, length_singleton]
    omega
  | full | closed | tooLarge => exact ⟨htokens, hbounded, hcapacity, by simp [horder], hclosed⟩

theorem InStep.takes {found : TypedChannel.Received V} (takes : Takes c found c') :
    InStep capacity accepted
      (received ++ match found with | .message payload => payload.toList | _ => []) shut c' := by
  obtain ⟨htokens, hbounded, hcapacity, horder, hclosed⟩ := h
  cases takes with
  | message some =>
    obtain ⟨first, left, hqueue⟩ := exists_cons_of_length_eq_add_one
      (htokens.trans (by rw [some]; rfl))
    refine ⟨by simp [ChannelInner.pop, htokens], ?_, hcapacity, by simp [horder, hqueue], hclosed⟩
    simp only [length_tail]
    omega
  | empty | closed => exact ⟨htokens, hbounded, hcapacity, by simp [horder], hclosed⟩

theorem InStep.imp {shut' : Prop} (later : shut → shut') :
    InStep capacity accepted received shut' c :=
  ⟨h.tokens, h.bounded, h.capacity, h.order, fun closed => later (h.closed closed)⟩

end

section

variable {V : Type} {A B a b : List Nat} {c c' : Clones V} {call : Nat}

structure Numbered (accepted handedBack : List Nat) (c : Clones V) : Prop where
  once : (accepted ++ handedBack).Nodup
  below : ∀ call ∈ accepted ++ handedBack, call < c.calls
  suspended : ∀ call message, c.suspended.get? call = some message → call < c.calls ∧
    call ∉ accepted ++ handedBack

theorem Numbered.add (h : Numbered A B c) (free : call ∉ A ++ B) (now : call < c'.calls)
    (calls : c.calls ≤ c'.calls)
    (ends : a ++ b = [call] ∨ a ++ b = [])
    (suspended : ∀ other message, c'.suspended.get? other = some message →
      (other = call ∧ a ++ b = []) ∨ (other ≠ call ∧ c.suspended.get? other = some message)) :
    Numbered (A ++ a) (B ++ b) c' := by
  obtain ⟨honce, hbelow, hsuspended⟩ := h
  have hperm : ((A ++ a) ++ (B ++ b)).Perm ((A ++ B) ++ (a ++ b)) := by
    simpa using (perm_append_comm_assoc a B b).append_left A
  have hmem : ∀ other, other ∈ (A ++ a) ++ (B ++ b) ↔ other ∈ A ++ B ∨ other ∈ a ++ b := by
    intro other
    rw [hperm.mem_iff, mem_append]
  refine ⟨?_, fun other hother => ?_, fun other message hheld => ?_⟩
  · rw [hperm.nodup_iff]
    rcases ends with hend | hend
    · rw [hend, ← concat_eq_append]
      exact honce.concat free
    · rwa [hend, append_nil]
  · grind
  · grind

theorem Numbered.kept (h : Numbered A B c) (calls : c'.calls = c.calls)
    (suspended : ∀ call message, c'.suspended.get? call = some message →
      c.suspended.get? call = some message) :
    Numbered (A ++ []) (B ++ []) c' := by
  rw [append_nil, append_nil]
  refine ⟨h.once, fun call hcall => ?_, fun call message hheld => ?_⟩
  · rw [calls]
    exact h.below call hcall
  · rw [calls]
    exact h.suspended call message (suspended call message hheld)

end

section

variable {V : Type} [DecidableEq V] {events : List (Op V × Reply V)} {c : TypedChannel V}
  {w w' : Clones V × SchedulerState} {s : SchedulerState} {capacity : Nat} {op : Op V}
    {reply : Reply V}

theorem callOf_free {A B : List Nat} {c : Clones V} {way : Way} {message : V} {call : Nat}
    (h : Numbered A B c) (hcall : callOf c way message = some call) : call ∉ A ++ B ∧
      ∀ r other held, (suspendedAfter c way message r).get? other = some held →
        (other = call ∧ r = .full ∧ way ≠ .trySend) ∨
        (other ≠ call ∧ c.suspended.get? other = some held) := by
  have hnew : c.calls ∉ A ++ B := fun hold => absurd (h.below c.calls hold) (lt_irrefl _)
  have hlower := fun other held hheld => (h.suspended other held hheld).1
  cases way with
  | send | trySend =>
    cases hcall
    refine ⟨hnew, fun r other held hheld => ?_⟩
    cases r <;> grind [suspendedAfter, sendPoll, SortedMap.get?_insert]
  | resume number =>
    obtain ⟨hheld, heq⟩ := ite_none_right_eq_some.mp hcall
    cases heq
    refine ⟨(h.suspended _ _ hheld).2, fun r other held hother => ?_⟩
    cases r <;> grind [suspendedAfter, sendPoll, SortedMap.get?_erase]

structure Tracked (capacity : Nat) (events : List (Op V × Reply V)) (c : Clones V) : Prop where
  content : InStep capacity ((accepted events).map Prod.snd) (received events)
    (.close ∈ events.map Prod.fst) c.channel
  calls : Numbered ((accepted events).map Prod.fst) ((handedBack events).map Prod.fst) c

omit [DecidableEq V] in
theorem tracked_of_made {id : ChannelId} {purpose : List Byte} {inUse maxChannels : Nat}
    (made : (openSignal id purpose capacity inUse maxChannels).map
      (fun signal => (⟨[], signal⟩ : TypedChannel V)) = .ok c) :
    Tracked capacity [] ⟨c, 0, .empty⟩ := by
  cases hopen : openSignal id purpose capacity inUse maxChannels with
  | error e =>
    rw [hopen] at made
    cases made
  | ok signal =>
    rw [hopen] at made
    cases made
    obtain ⟨-, -, short, rfl⟩ := openSignal_eq_ok.mp hopen
    refine ⟨⟨rfl, Nat.zero_le _, rfl, rfl, fun h => ?_⟩, nodup_nil, fun call h =>
      ?_, fun call message h => ?_⟩ <;> cases h

variable (h : Tracked capacity events w.1) (taken : Lockstep.step op w = some (reply, w'))

include h taken

theorem Tracked.step : Tracked capacity (events ++ [(op, reply)]) w'.1 := by
  have hcontent := h.content.imp (mem_append_left ([(op, reply)].map Prod.fst))
  have hcalls := h.calls
  rw [← map_append] at hcontent
  refine ⟨?_, ?_⟩ <;> rw [accepted_append, map_append]
  · rw [received_append]
    cases op with
    | offer way lane message =>
      obtain ⟨call, -, hrest⟩ := bind_eq_some_iff.mp taken
      obtain ⟨⟨⟨r, channel⟩, s⟩, hr, heq⟩ := map_eq_some_iff.mp hrest
      cases heq
      have hoffers := perform_ensures ensures_trySend hr
      have hafter := hcontent.offers hoffers
      rw [show received [(.offer way lane message, .offered call r)] = [] from rfl, append_nil]
      cases r <;> exact hafter
    | take lane =>
      obtain ⟨⟨⟨found, channel⟩, s⟩, hr, heq⟩ := map_eq_some_iff.mp taken
      cases heq
      have htakes : Takes w.1.channel found channel := perform_ensures ensures_tryReceive hr
      have hafter := hcontent.takes htakes
      rw [show accepted [(.take lane, .taken found)] = [] from rfl, map_nil, append_nil]
      rcases found with (_ | payload) | _ | _ <;> exact hafter
    | close =>
      obtain ⟨r, hr, heq⟩ := map_eq_some_iff.mp taken
      cases heq
      rw [perform_ensures ensures_close hr]
      exact ⟨hcontent.tokens, hcontent.bounded,
        hcontent.capacity, by simpa [accepted, received] using hcontent.order,
        by simp⟩
    | cancel call | elsewhere scheduler =>
      cases taken
      simpa [accepted, received] using hcontent
  · rw [handedBack_append, map_append]
    cases op with
    | offer way lane message =>
      obtain ⟨call, hcall, hrest⟩ := bind_eq_some_iff.mp taken
      obtain ⟨⟨⟨r, channel⟩, s⟩, hr, heq⟩ := map_eq_some_iff.mp hrest
      cases heq
      obtain ⟨hfree, hheld⟩ := callOf_free hcalls hcall
      refine hcalls.add hfree (by simp) (by simp) ?_ fun other held hother =>
        (hheld _ other held hother).imp_left ?_
      · cases way <;> cases r <;> first | exact .inl rfl | exact .inr rfl
      · rintro ⟨hself, rfl, hway⟩
        cases way with
        | send | resume => exact ⟨hself, rfl⟩
        | trySend => exact absurd rfl hway
    | take lane | close =>
      obtain ⟨r, hr, heq⟩ := map_eq_some_iff.mp taken
      cases heq
      exact hcalls.kept rfl fun _ _ held => held
    | cancel call =>
      cases taken
      exact hcalls.kept rfl fun other held hheld => by grind [SortedMap.get?_erase]
    | elsewhere scheduler =>
      cases taken
      exact hcalls.kept rfl fun _ _ held => held

theorem Tracked.atEnd (ended : AtEnd reply) :
    .close ∈ events.map Prod.fst ∧ received events = (accepted events).map Prod.snd := by
  obtain ⟨htokens, -, -, horder, hclosed⟩ := h.content
  cases op with
  | take lane =>
    obtain ⟨⟨⟨found, channel⟩, s⟩, hr, heq⟩ := map_eq_some_iff.mp taken
    cases heq
    have htakes : Takes w.1.channel found channel := perform_ensures ensures_tryReceive hr
    cases htakes with
    | message some =>
      -- where there is a token there is a message
      obtain ⟨first, left, hqueue⟩ := exists_cons_of_length_eq_add_one
        (htokens.trans (by rw [some]; rfl))
      simp [AtEnd, receivePoll, tryReceiveResult, hqueue] at ended
    | empty => simp [AtEnd, receivePoll, tryReceiveResult] at ended
    | closed none shut =>
      rw [none, length_nil] at htokens
      exact ⟨hclosed shut, by rw [horder, eq_nil_of_length_eq_zero htokens, append_nil]⟩
  | offer way lane message =>
    obtain ⟨call, -, hrest⟩ := bind_eq_some_iff.mp taken
    obtain ⟨r, -, heq⟩ := map_eq_some_iff.mp hrest
    cases heq
    exact ended.elim
  | close =>
    obtain ⟨r, -, heq⟩ := map_eq_some_iff.mp taken
    cases heq
    exact ended.elim
  | cancel call | elsewhere scheduler =>
    cases taken
    exact ended.elim

omit h taken

/-- However the polls on the clones of a channel interleave, its queue has a message for every token
and respects the capacity; messages come out in the order of acceptance; the end is reported only
after a close, when all accepted messages are received; and a call has its message accepted or
returned, once. -/
theorem typed_channel_in_step {id : ChannelId} {inUse maxChannels : Nat}
    (made : TypedChannel.newLocal id capacity inUse maxChannels = .ok c ∨
      ∃ purpose, TypedChannel.requested id purpose capacity inUse maxChannels = .ok c)
    (h : Run step (⟨c, 0, .empty⟩, s) events w) :
    w.1.channel.queue.length = w.1.channel.signal.state.messages.length ∧
    received events <+: (accepted events).map Prod.snd ∧
    w.1.channel.queue.length ≤ capacity ∧
    Always (fun pre _ reply => AtEnd reply →
      .close ∈ pre.map Prod.fst ∧ received pre = (accepted pre).map Prod.snd) events ∧
    ((accepted events ++ handedBack events).map Prod.fst).Nodup := by
  have hstart : Tracked capacity [] (⟨c, 0, .empty⟩ : Clones V) := by
    rcases made with made | ⟨purpose, made⟩ <;> exact tracked_of_made made
  have hrun : Tracked capacity events w.1 ∧ Always (fun pre _ reply => AtEnd reply →
      .close ∈ pre.map Prod.fst ∧ received pre = (accepted pre).map Prod.snd) events := by
    induction h with
    | start => exact ⟨hstart, always_nil _⟩
    | next _ taken ih => exact ⟨ih.1.step taken, always_snoc.mpr ⟨ih.2, ih.1.atEnd taken⟩⟩
  obtain ⟨⟨hcontent, hcalls⟩, hends⟩ := hrun
  refine ⟨hcontent.tokens, ⟨_, hcontent.order.symm⟩, hcontent.bounded, hends, ?_⟩
  rw [map_append]
  exact hcalls.once

def oneAtATime : List (Op Nat × Reply Nat) :=
  [(.offer .send 1 5, .offered 0 .sent), (.offer .trySend 2 6, .offered 1 .full),
    (.offer .send 2 7, .offered 2 .full),
    (.take 3, .taken (.message (some 5))), (.offer (.resume 2) 2 7, .offered 2 .sent),
    (.close, .done),
    (.take 1, .taken (.message (some 7))), (.take 3, .taken .closed)]

theorem typed_channel_in_step_one_at_a_time :
    ((accepted oneAtATime = [(0, 5), (2, 7)] ∧ received oneAtATime = [5, 7]) ∧
      handedBack oneAtATime = [(1, 6)]) ∧
    ∃ (c : TypedChannel Nat) (s : SchedulerState) (w : Clones Nat × SchedulerState),
      TypedChannel.newLocal 1 1 0 16 = .ok c ∧ Run step (⟨c, 0, .empty⟩, s) oneAtATime w ∧
      w.1.channel.queue.length = w.1.channel.signal.state.messages.length := by
  obtain ⟨c, s, w, hmade, hrun⟩ :
    ∃ (c : TypedChannel Nat) (s : SchedulerState) (w : Clones Nat × SchedulerState),
      TypedChannel.newLocal 1 1 0 16 = .ok c ∧ Run step (⟨c, 0, .empty⟩, s) oneAtATime w :=
    ⟨_, .new (fun _ => Vector.replicate 32 0) 2 (Vector.replicate 32 0) .balanced, _, rfl,
      .eval rfl⟩
  exact ⟨⟨⟨rfl, rfl⟩, rfl⟩, c, s, w, hmade, hrun, (typed_channel_in_step (.inl hmade) hrun).1⟩

end

end CibosPlatform.Sdk.Lockstep

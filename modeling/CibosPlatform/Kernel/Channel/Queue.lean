/- source: cibos-kernel/src/channel.rs
   digest: One channel: sends, receives and close, and the order of its messages; channels shared by several holders. -/

import CibosPlatform.Core.Events
import CibosPlatform.Kernel.Scheduler.Lists
import Mathlib.Logic.Function.Basic

/-! What an operation decides under the lock is one function and the scheduler calls that follow another, so
that they can be run at once or with steps of other lanes in between. -/

namespace CibosPlatform.Kernel.Channel.Queue

open Core.Events Scheduler.Lists Shared.Ipc List KernelInterface

structure ChannelState where
  messages : List Message
  receiverWaiter : Option LaneId
  senderWaiter : Option LaneId
  closed : Bool

structure ChannelInner where
  id : ChannelId
  capacity : Nat
  maxMessageBytes : Nat
  state : ChannelState

inductive SendStep where
  | sent
  | full
  | closed
  | tooLarge
  deriving DecidableEq

inductive RecvStep where
  | message (msg : Message)
  | empty
  | closed

inductive SendAction where
  | sentWake (waiter : Option LaneId)
  | registerFull
  | closed
  | tooLarge

inductive RecvAction where
  | gotWake (msg : Message) (waiter : Option LaneId)
  | registerEmpty
  | closed

namespace ChannelInner

def new (id : ChannelId) (terms : ChannelTerms) : ChannelInner where
  id := id
  capacity := terms.bufferCapacity
  maxMessageBytes := terms.maxMessageBytes
  state := ⟨[], none, none, false⟩

variable (c : ChannelInner)

def push (msg : Message) : ChannelInner :=
  { c with state := { c.state with messages := c.state.messages ++ [msg], receiverWaiter := none } }

def pop : ChannelInner :=
  { c with state := { c.state with messages := c.state.messages.tail, senderWaiter := none } }

variable (lane : LaneId)

def parkSender : ChannelInner :=
  { c with state := { c.state with senderWaiter := some lane } }

def parkReceiver : ChannelInner :=
  { c with state := { c.state with receiverWaiter := some lane } }

def shut : ChannelInner :=
  { c with state := { c.state with receiverWaiter := none, senderWaiter := none, closed := true } }

def sendSection (msg : Message) : SendAction × ChannelInner :=
  if c.state.closed then (.closed, c)
  else if c.maxMessageBytes < msg.length then (.tooLarge, c)
  else if c.state.messages.length < c.capacity then (.sentWake c.state.receiverWaiter, c.push msg)
  else (.registerFull, c.parkSender lane)

def recvSection : RecvAction × ChannelInner :=
  match c.state.messages with
  | msg :: _ => (.gotWake msg c.state.senderWaiter, c.pop)
  | [] => if c.state.closed then (.closed, c) else (.registerEmpty, c.parkReceiver lane)

def closeSection : (Option LaneId × Option LaneId) × ChannelInner :=
  ((c.state.receiverWaiter, c.state.senderWaiter), c.shut)

end ChannelInner

section

variable {K : Type} [KernelInterface K]

def wake (waiter : Option LaneId) (kernel : K) : K :=
  match waiter with
  | some lane => signalReady lane kernel
  | none => kernel

structure Wired (K : Type) where
  channel : ChannelInner
  kernel : K

def trySend (lane : LaneId) (msg : Message) (w : Wired K) : SendStep × Wired K :=
  match w.channel.sendSection lane msg with
  | (.sentWake waiter, c) => (.sent, ⟨c, wake waiter w.kernel⟩)
  | (.registerFull, c) => (.full, ⟨c, registerWait lane (.channelBuffer c.id) w.kernel⟩)
  | (.closed, c) => (.closed, ⟨c, w.kernel⟩)
  | (.tooLarge, c) => (.tooLarge, ⟨c, w.kernel⟩)

def tryRecv (lane : LaneId) (w : Wired K) : RecvStep × Wired K :=
  match w.channel.recvSection lane with
  | (.gotWake msg waiter, c) => (.message msg, ⟨c, wake waiter w.kernel⟩)
  | (.registerEmpty, c) => (.empty, ⟨c, registerWait lane (.channelData c.id) w.kernel⟩)
  | (.closed, c) => (.closed, ⟨c, w.kernel⟩)

def close (w : Wired K) : Wired K :=
  let taken := w.channel.closeSection
  ⟨taken.2, wake taken.1.2 (wake taken.1.1 w.kernel)⟩

inductive Sends (lane : LaneId) (msg : Message) (w : Wired K) : SendStep × Wired K → Prop
  | closed (shut : w.channel.state.closed = true) : Sends lane msg w (.closed, w)
  | tooLarge (isOpen : w.channel.state.closed = false) (large : w.channel.maxMessageBytes < msg.length) :
      Sends lane msg w (.tooLarge, w)
  | sent (isOpen : w.channel.state.closed = false) (small : msg.length ≤ w.channel.maxMessageBytes)
      (room : w.channel.state.messages.length < w.channel.capacity) :
      Sends lane msg w (.sent, ⟨w.channel.push msg, wake w.channel.state.receiverWaiter w.kernel⟩)
  | full (isOpen : w.channel.state.closed = false) (small : msg.length ≤ w.channel.maxMessageBytes)
      (full : w.channel.capacity ≤ w.channel.state.messages.length) :
      Sends lane msg w (.full, ⟨w.channel.parkSender lane,
        registerWait lane (.channelBuffer w.channel.id) w.kernel⟩)

inductive Receives (lane : LaneId) (w : Wired K) : RecvStep × Wired K → Prop
  | message {msg : Message} {rest : List Message} (some : w.channel.state.messages = msg :: rest) :
      Receives lane w (.message msg, ⟨w.channel.pop, wake w.channel.state.senderWaiter w.kernel⟩)
  | empty (none : w.channel.state.messages = []) (isOpen : w.channel.state.closed = false) :
      Receives lane w (.empty, ⟨w.channel.parkReceiver lane,
        registerWait lane (.channelData w.channel.id) w.kernel⟩)
  | closed (none : w.channel.state.messages = []) (shut : w.channel.state.closed = true) :
      Receives lane w (.closed, w)

theorem trySend_sends (lane : LaneId) (msg : Message) (w : Wired K) :
    Sends lane msg w (trySend lane msg w) := by
  rw [trySend, ChannelInner.sendSection]
  by_cases hclosed : w.channel.state.closed
  · rw [if_pos hclosed]
    exact .closed hclosed
  · have hopen := Bool.eq_false_of_not_eq_true hclosed
    rw [if_neg hclosed]
    by_cases hlarge : w.channel.maxMessageBytes < msg.length
    · rw [if_pos hlarge]
      exact .tooLarge hopen hlarge
    · rw [if_neg hlarge]
      by_cases hroom : w.channel.state.messages.length < w.channel.capacity
      · rw [if_pos hroom]
        exact .sent hopen (not_lt.mp hlarge) hroom
      · rw [if_neg hroom]
        exact .full hopen (not_lt.mp hlarge) (not_lt.mp hroom)

theorem tryRecv_receives (lane : LaneId) (w : Wired K) : Receives lane w (tryRecv lane w) := by
  rw [tryRecv, ChannelInner.recvSection]
  rcases hmessages : w.channel.state.messages with _ | ⟨msg, rest⟩
  · by_cases hclosed : w.channel.state.closed
    · simp only [if_pos hclosed]
      exact .closed hmessages hclosed
    · simp only [if_neg hclosed]
      exact .empty hmessages (Bool.eq_false_of_not_eq_true hclosed)
  · exact .message hmessages

end

inductive Op where
  | send (lane : LaneId) (msg : Message)
  | recv (lane : LaneId)
  | close

inductive Reply where
  | send (step : SendStep)
  | recv (step : RecvStep)
  | done

def step {K : Type} [KernelInterface K] (op : Op) (w : Wired K) : Option (Reply × Wired K) :=
  match op with
  | .send lane msg =>
    let r := trySend lane msg w
    some (.send r.1, r.2)
  | .recv lane =>
    let r := tryRecv lane w
    some (.recv r.1, r.2)
  | .close => some (.done, close w)

inductive Stepped {K : Type} [KernelInterface K] (w : Wired K) : Op → Reply → Wired K → Prop
  | send {lane : LaneId} {msg : Message} {r : SendStep} {w' : Wired K} (sends : Sends lane msg w (r, w')) :
      Stepped w (.send lane msg) (.send r) w'
  | recv {lane : LaneId} {r : RecvStep} {w' : Wired K} (receives : Receives lane w (r, w')) :
      Stepped w (.recv lane) (.recv r) w'
  | close : Stepped w .close .done (close w)

theorem stepped_of_step {K : Type} [KernelInterface K] {w w' : Wired K} {op : Op} {reply : Reply}
    (h : step op w = some (reply, w')) : Stepped w op reply w' := by
  cases op with
  | send lane msg =>
    cases h
    exact .send (trySend_sends lane msg w)
  | recv lane =>
    cases h
    exact .recv (tryRecv_receives lane w)
  | close =>
    cases h
    exact .close

section

variable (events : List (Op × Reply))

def accepted : List Message := events.filterMap fun
  | (.send _ msg, .send .sent) => some msg
  | _ => none

def sendSteps : List SendStep := events.filterMap fun
  | (_, .send r) => some r
  | _ => none

def recvSteps : List RecvStep := events.filterMap fun
  | (_, .recv r) => some r
  | _ => none

def received : List Message := (recvSteps events).filterMap fun
  | .message msg => some msg
  | _ => none

def drained (rest : List Message) (i : Nat) : RecvStep :=
  match rest[i]? with
  | some msg => .message msg
  | none => .closed

end

section

variable {K : Type} [KernelInterface K] {w w' : Wired K} {events : List (Op × Reply)}

variable (first second : List (Op × Reply))

theorem accepted_append :
    accepted (first ++ second) = accepted first ++ accepted second := filterMap_append

theorem sendSteps_append :
    sendSteps (first ++ second) = sendSteps first ++ sendSteps second := filterMap_append

theorem recvSteps_append :
    recvSteps (first ++ second) = recvSteps first ++ recvSteps second := filterMap_append

theorem received_append : received (first ++ second) = received first ++ received second := by
  rw [received, recvSteps_append, filterMap_append, received, received]

structure Queued (terms : ChannelTerms) (events : List (Op × Reply)) (c : ChannelInner) : Prop where
  capacity : c.capacity = terms.bufferCapacity
  maxMessageBytes : c.maxMessageBytes = terms.maxMessageBytes
  order : accepted events = received events ++ c.state.messages
  bounded : c.state.messages.length ≤ terms.bufferCapacity
  small : ∀ msg ∈ accepted events, msg.length ≤ terms.maxMessageBytes

variable {terms : ChannelTerms} {c c' : ChannelInner} {reply : Reply} {lane : LaneId} {rest : List Message}

variable (h : Queued terms events c)

include h

private theorem Queued.unmoved {op : Op} (capacity : c'.capacity = c.capacity)
    (maxMessageBytes : c'.maxMessageBytes = c.maxMessageBytes) (messages : c'.state.messages = c.state.messages)
    (sent : accepted [(op, reply)] = []) (got : received [(op, reply)] = []) :
    Queued terms (events ++ [(op, reply)]) c' where
  capacity := capacity.trans h.capacity
  maxMessageBytes := maxMessageBytes.trans h.maxMessageBytes
  order := by rw [accepted_append, received_append, sent, got, append_nil, append_nil,
    messages, h.order]
  bounded := by
    rw [messages]
    exact h.bounded
  small := by
    rw [accepted_append, sent, append_nil]
    exact h.small

private theorem Queued.pushed {msg : Message} (small : msg.length ≤ c.maxMessageBytes)
    (room : c.state.messages.length < c.capacity) :
    Queued terms (events ++ [(.send lane msg, .send .sent)]) (c.push msg) := by
  have hsent : accepted [(.send lane msg, .send .sent)] = [msg] := rfl
  have hgot : received [(.send lane msg, .send .sent)] = [] := rfl
  refine ⟨h.capacity, h.maxMessageBytes, ?_, ?_, ?_⟩
  · rw [accepted_append, received_append, hsent, hgot, append_nil, h.order, append_assoc]
    rfl
  · change (c.state.messages ++ [msg]).length ≤ _
    rw [h.capacity] at room
    rw [length_append, length_singleton]
    exact room
  · rw [accepted_append, hsent]
    intro m hm
    rcases mem_append.mp hm with hm | hm
    · exact h.small m hm
    · rw [mem_singleton.mp hm, ← h.maxMessageBytes]
      exact small

private theorem Queued.popped {msg : Message} (some : c.state.messages = msg :: rest) :
    Queued terms (events ++ [(.recv lane, .recv (.message msg))]) c.pop := by
  have hsent : accepted [(.recv lane, .recv (.message msg))] = [] := rfl
  have hgot : received [(.recv lane, .recv (.message msg))] = [msg] := rfl
  have hrest : c.pop.state.messages = rest := by
    change c.state.messages.tail = rest
    rw [some, tail_cons]
  have hbounded := h.bounded
  rw [some, length_cons] at hbounded
  refine ⟨h.capacity, h.maxMessageBytes, ?_, ?_, ?_⟩
  · rw [accepted_append, received_append, hsent, hgot, append_nil, h.order, some, hrest,
      append_assoc, singleton_append]
  · rw [hrest]
    exact (Nat.le_succ _).trans hbounded
  · rw [accepted_append, hsent, append_nil]
    exact h.small

omit h

theorem Queued.step {op : Op} {w' : Wired K} (h : Queued terms events w.channel)
    (stepped : Stepped w op reply w') :
    Queued terms (events ++ [(op, reply)]) w'.channel := by
  cases stepped with
  | send sends =>
    cases sends with
    | closed | tooLarge | full => exact h.unmoved rfl rfl rfl rfl rfl
    | sent isOpen small room => exact h.pushed small room
  | recv receives =>
    cases receives with
    | closed | empty => exact h.unmoved rfl rfl rfl rfl rfl
    | message some => exact h.popped some
  | close => exact h.unmoved rfl rfl rfl rfl rfl

theorem queued_of_run {id : ChannelId} {kernel : K} (h : Run step ⟨.new id terms, kernel⟩ events w) :
    Queued terms events w.channel := by
  induction h with
  | start => exact ⟨rfl, rfl, rfl, Nat.zero_le _, nofun⟩
  | next _ taken ih => exact ih.step (stepped_of_step taken)

structure Draining (rest : List Message) (events : List (Op × Reply)) (c : ChannelInner) : Prop where
  shut : c.state.closed = true
  sends : ∀ r ∈ sendSteps events, r = .closed
  left : c.state.messages = rest.drop (recvSteps events).length
  replies : recvSteps events = (List.range (recvSteps events).length).map (drained rest)

private theorem Draining.unmoved {op : Op} (h : Draining rest events c) (shut : c'.state.closed = true)
    (messages : c'.state.messages = c.state.messages) (sends : ∀ r ∈ sendSteps [(op, reply)], r = .closed)
    (recvs : recvSteps [(op, reply)] = []) : Draining rest (events ++ [(op, reply)]) c' := by
  have hrecvs : recvSteps (events ++ [(op, reply)]) = recvSteps events := by
    rw [recvSteps_append, recvs, append_nil]
  refine ⟨shut, fun r hr => ?_, ?_, ?_⟩
  · rw [sendSteps_append] at hr
    exact (mem_append.mp hr).elim (h.sends r) (sends r)
  · rw [hrecvs, messages, h.left]
  · rw [hrecvs]
    exact h.replies

private theorem Draining.recv {r : RecvStep} (h : Draining rest events c) (shut : c'.state.closed = true)
    (messages : c'.state.messages = c.state.messages.tail) (next : r = drained rest (recvSteps events).length) :
    Draining rest (events ++ [(.recv lane, .recv r)]) c' := by
  have hsends : sendSteps (events ++ [(.recv lane, .recv r)]) = sendSteps events := by
    rw [sendSteps_append]
    exact append_nil _
  have hrecvs : recvSteps (events ++ [(.recv lane, .recv r)]) = recvSteps events ++ [r] :=
    recvSteps_append _ _
  refine ⟨shut, ?_, ?_, ?_⟩
  · rw [hsends]
    exact h.sends
  · rw [hrecvs, length_append, length_singleton, messages, h.left, tail_drop]
  · rw [hrecvs, length_append, length_singleton, range_succ, map_append, ← h.replies,
      map_singleton, next]

theorem draining_of_run (shut : w.channel.state.closed = true) (h : Run step w events w') :
    Draining w.channel.state.messages events w'.channel := by
  induction h with
  | start => exact ⟨shut, nofun, rfl, rfl⟩
  | @next events w1 w' op reply _ taken ih =>
    have hclosed := ih.shut
    cases stepped_of_step taken with
    | send sends =>
      cases sends with
      | closed => exact ih.unmoved hclosed rfl (fun r hr => mem_singleton.mp hr) rfl
      | tooLarge isOpen | sent isOpen | full isOpen => simp [hclosed] at isOpen
    | recv receives =>
      have hleft := ih.left
      cases receives with
      | message some =>
        refine ih.recv hclosed rfl ?_
        rw [some] at hleft
        rw [drained, ← head?_drop, ← hleft, head?_cons]
      | closed none =>
        refine ih.recv hclosed (by rw [none, tail_nil]) ?_
        rw [none] at hleft
        rw [drained, ← head?_drop, ← hleft, head?_nil]
      | empty none isOpen => simp [hclosed] at isOpen
    | close => exact ih.unmoved rfl rfl nofun rfl

/-- A channel is a queue: messages come out once each, in order, within its bounds; once it is
closed nothing goes in, and what is left comes out. -/
theorem channel_fifo (id : ChannelId) (terms : ChannelTerms) (kernel : K)
    (h : Run step ⟨.new id terms, kernel⟩ events w) :
    received events <+: accepted events ∧
      w.channel.state.messages.length = (accepted events).length - (received events).length ∧
      w.channel.state.messages.length ≤ terms.bufferCapacity ∧
      (∀ msg ∈ accepted events, msg.length ≤ terms.maxMessageBytes) ∧
      ∀ pre post, events = pre ++ (.close, .done) :: post → ∃ rest,
        accepted pre = received pre ++ rest ∧ (∀ r ∈ sendSteps post, r = .closed) ∧
        recvSteps post = (List.range (recvSteps post).length).map (drained rest) := by
  obtain ⟨-, -, horder, hbounded, hsmall⟩ := queued_of_run h
  refine ⟨⟨_, horder.symm⟩, ?_, hbounded, hsmall, ?_⟩
  · rw [horder, length_append, Nat.add_sub_cancel_left]
  · rintro pre post rfl
    obtain ⟨w1, w2, hpre, hclose, hpost⟩ := h.event
    cases hclose
    obtain ⟨-, hsends, -, hreplies⟩ := draining_of_run rfl hpost
    exact ⟨w1.channel.state.messages, (queued_of_run hpre).order, hsends, hreplies⟩

/-- Two messages of which one is received before the close and one after it. -/
theorem channel_fifo_two_messages : ∃ w : Wired LaneLists,
    Run step ⟨.new 1 ⟨⟨[], by decide⟩, .bidirectional, 8, 2⟩, .empty⟩
      [(.send 1 [1], .send .sent), (.send 1 [2], .send .sent), (.recv 2, .recv (.message [1])),
        (.close, .done), (.recv 2, .recv (.message [2])), (.recv 2, .recv .closed)] w ∧
    w.channel.state.messages.length = 0 := by
  exact exists_run_eval ⟨_, rfl, fun hrun => (channel_fifo 1 _ _ hrun).2.1⟩

end

end CibosPlatform.Kernel.Channel.Queue

/-! A `Channel` is a counted reference whose clones share one state. Forgetting the scheduler, the calls on
one channel are the run of a channel of its own. -/

namespace CibosPlatform.Kernel.Channel.Sharing

open Queue Shared.Ipc

/-- A `Channel` of the source; equal references are clones. -/
abbrev ChannelRef := Nat

/-- The states behind the references, the first reference not yet in use, and the scheduler. -/
structure Channels (K : Type) where
  inner : ChannelRef → ChannelInner
  fresh : ChannelRef
  kernel : K

instance : KernelInterface Unit := ⟨fun _ _ _ => (), fun _ _ => ()⟩

namespace Channels

variable {K : Type}

def empty (kernel : K) : Channels K := ⟨fun _ => ⟨0, 0, 0, ⟨[], none, none, true⟩⟩, 0, kernel⟩

def create (c : ChannelInner) (cs : Channels K) : Channels K :=
  ⟨Function.update cs.inner cs.fresh c, cs.fresh + 1, cs.kernel⟩

def act {α : Type} (ch : ChannelRef) (f : Wired K → α × Wired K) (cs : Channels K) : α × Channels K :=
  let r := f ⟨cs.inner ch, cs.kernel⟩
  (r.1, ⟨Function.update cs.inner ch r.2.channel, cs.fresh, r.2.kernel⟩)

variable [KernelInterface K]

variable (ch : ChannelRef)

def trySend (lane : LaneId) (msg : Message) (cs : Channels K) : SendStep × Channels K :=
  cs.act ch (Queue.trySend lane msg)

def tryRecv (lane : LaneId) (cs : Channels K) : RecvStep × Channels K :=
  cs.act ch (Queue.tryRecv lane)

def close (cs : Channels K) : Channels K := (cs.act ch fun w => ((), Queue.close w)).2

def perform (op : Op) (cs : Channels K) : Reply × Channels K :=
  match op with
  | .send lane msg => ((cs.trySend ch lane msg).map .send id)
  | .recv lane => ((cs.tryRecv ch lane).map .recv id)
  | .close => (.done, cs.close ch)

theorem perform_spec (op : Op) (cs : Channels K) : ∃ w : Wired K,
    Queue.step op ⟨cs.inner ch, cs.kernel⟩ = some ((cs.perform ch op).1, w) ∧
      (cs.perform ch op).2 = ⟨Function.update cs.inner ch w.channel, cs.fresh, w.kernel⟩ := by
  cases op with
  | send lane msg | recv lane | close => exact ⟨_, rfl, rfl⟩

@[simp] theorem perform_fresh (op : Op) (cs : Channels K) :
    (cs.perform ch op).2.fresh = cs.fresh := by
  cases op with
  | send lane msg | recv lane | close => rfl

end Channels

theorem step_forget {K : Type} [KernelInterface K] {op : Op} {w w' : Wired K} {reply : Reply}
    (h : Queue.step op w = some (reply, w')) :
    Queue.step op (⟨w.channel, ()⟩ : Wired Unit) = some (reply, ⟨w'.channel, ()⟩) := by
  cases op with
  | send lane msg =>
    cases h
    rw [Queue.step, Queue.trySend, Queue.trySend]
    rcases w.channel.sendSection lane msg with ⟨_ | _ | _ | _, c⟩ <;> rfl
  | recv lane =>
    cases h
    rw [Queue.step, Queue.tryRecv, Queue.tryRecv]
    rcases w.channel.recvSection lane with ⟨_ | _ | _, c⟩ <;> rfl
  | close =>
    cases h
    rfl

end CibosPlatform.Kernel.Channel.Sharing

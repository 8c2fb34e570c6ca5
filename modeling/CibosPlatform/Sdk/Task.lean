/- source: cibos-sdk/src/time.rs, cibos-sdk/src/channel.rs, cibos-sdk/src/system.rs,
     cibos-async-runtime/src/future.rs
   digest: What a poll of a lane does: its code up to the next await that is not ready. -/

import CibosPlatform.Sdk.Channel

/-! A future that is not done is a control point or an await it is suspended in. A poll goes on until an await
is not ready; it counts the sleeps and the timeouts that ended in it. -/

namespace CibosPlatform.Sdk.Task

open Core.Interaction List
open Kernel.Channel.Queue (ChannelInner SendStep)
open Kernel.Loop Channel Shared.Ipc

/-- What code does at a control point of `S`; values are of the type `V`. -/
inductive Instruction (S V : Type) where
  | finish (value : V)
  | sleep (duration : Nat) (next : S)
  | send (channel : Nat) (message : V) (next : Except ChannelError Unit → S)
  | receive (channel : Nat) (next : Option V → S)
  | trySend (channel : Nat) (message : V) (next : Except (TrySendError V) Unit → S)
  | tryReceive (channel : Nat) (next : Except TryReceiveError V → S)
  | close (channel : Nat) (next : S)
  | yieldNow (next : S)
  | withTimeout (duration : Nat) (body : S) (next : Except Unit V → S)

/-- A future that is not done. A sleep, and the timer of a timeout, have been polled at `since`. -/
inductive Future (S V : Type) where
  | running (point : S)
  | sleeping (since duration : Nat) (next : S)
  | sending (channel : Nat) (message : V) (next : Except ChannelError Unit → S)
  | receiving (channel : Nat) (next : Option V → S)
  | yielding (next : S)
  | timing (body : Future S V) (since duration : Nat) (next : Except Unit V → S)

/-- A sleep first polled at `since` has completed; a timeout whose timer was first polled at `since` has
returned, with `Ok` or with `Err`. -/
inductive Ending where
  | slept (since duration : Nat)
  | returned (since duration : Nat) (ok : Bool)
  deriving DecidableEq

inductive Progress (S V : Type) where
  | ready (value : V)
  | pending (future : Future S V)

structure Turn (S V : Type) where
  progress : Progress S V
  channels : Channels V
  endings : List Ending

section

variable {S V : Type}

def startTimer {α : Type} (lane : LaneId) (duration : Nat) (next : Nat → Call α) : Call α :=
  .ask .now fun since =>
    .ask (.registerWait lane (.timer (Monotonic.saturatingAdd since duration))) fun _ => next since

def after (endings : List Ending) (rest : Call (Turn S V)) : Call (Turn S V) :=
  rest >>= fun turn => .done { turn with endings := endings ++ turn.endings }

def trySendResult (message : V) : SendStep → Except (TrySendError V) Unit
  | .sent => .ok ()
  | .full => .error (.full message)
  | .closed => .error (.closed message)
  | .tooLarge => .error (.closed message)

def tryReceiveResult : TypedChannel.Received V → Except TryReceiveError V
  | .message (some payload) => .ok payload
  | .message none => .error .empty
  | .empty => .error .empty
  | .closed => .error .closed

/-- A poll of a future, for at most `fuel` of its points and awaits; code that does not come to an await
is not waited for. -/
def pollFuture (code : S → Instruction S V) (lane : LaneId) (fuel : Nat) (future : Future S V)
    (channels : Channels V) : Call (Turn S V) :=
  match fuel, future with
  | 0, _ => .panic
  | fuel + 1, .running point =>
    match code point with
    | .finish value => .done ⟨.ready value, channels, []⟩
    | .sleep duration next =>
      startTimer lane duration fun since => .done ⟨.pending (.sleeping since duration next), channels, []⟩
    | .send channel message next => pollFuture code lane fuel (.sending channel message next) channels
    | .receive channel next => pollFuture code lane fuel (.receiving channel next) channels
    | .trySend channel message next =>
      channels.on channel (TypedChannel.trySend lane message) >>= fun r =>
        pollFuture code lane fuel (.running (next (trySendResult message r.1))) r.2
    | .tryReceive channel next =>
      channels.on channel (TypedChannel.tryReceive lane) >>= fun r =>
        pollFuture code lane fuel (.running (next (tryReceiveResult r.1))) r.2
    | .close channel next =>
      channels.on channel (fun c => c.close >>= fun c => .done ((), c)) >>= fun r =>
        pollFuture code lane fuel (.running next) r.2
    | .yieldNow next => .ask (.signalReady lane) fun _ => .done ⟨.pending (.yielding next), channels, []⟩
    | .withTimeout duration body next =>
      pollFuture code lane fuel (.running body) channels >>= fun turn =>
        match turn.progress with
        | .ready value =>
          after turn.endings (pollFuture code lane fuel (.running (next (.ok value))) turn.channels)
        | .pending body => startTimer lane duration fun since =>
          .done ⟨.pending (.timing body since duration next), turn.channels, turn.endings⟩
  | fuel + 1, .sleeping since duration next =>
    -- a wait that was registered is over when it is polled again, whatever the clock says
    after [.slept since duration] (pollFuture code lane fuel (.running next) channels)
  | fuel + 1, .sending channel message next =>
    channels.on channel (TypedChannel.trySend lane message) >>= fun r =>
      match r.1 with
      | .sent => pollFuture code lane fuel (.running (next (.ok ()))) r.2
      | .full => .done ⟨.pending (.sending channel message next), r.2, []⟩
      | .closed => pollFuture code lane fuel (.running (next (.error .channelClosed))) r.2
      | .tooLarge => pollFuture code lane fuel (.running (next (.error .messageTooLarge))) r.2
  | fuel + 1, .receiving channel next =>
    channels.on channel (TypedChannel.tryReceive lane) >>= fun r =>
      match r.1 with
      | .message payload => pollFuture code lane fuel (.running (next payload)) r.2
      | .empty => .done ⟨.pending (.receiving channel next), r.2, []⟩
      | .closed => pollFuture code lane fuel (.running (next none)) r.2
  | fuel + 1, .yielding next => pollFuture code lane fuel (.running next) channels
  | fuel + 1, .timing body since duration next =>
    pollFuture code lane fuel body channels >>= fun turn =>
      match turn.progress with
      | .ready value => after (turn.endings ++ [.returned since duration true])
          (pollFuture code lane fuel (.running (next (.ok value))) turn.channels)
      | .pending _ => after (turn.endings ++ [.slept since duration, .returned since duration false])
          (pollFuture code lane fuel (.running (next (.error ()))) turn.channels)

structure Host (V : Type) where
  channels : Channels V
  endings : List Ending

def behaviour (code : S → Instruction S V) (fuel : Nat) : Behaviour (Future S V) (Host V) :=
  fun lane future host => pollFuture code lane fuel future host.channels >>= fun turn =>
    match turn.progress with
    | .ready _ => .done (.ready, ⟨turn.channels, turn.endings⟩)
    | .pending future => .done (.pending future, ⟨turn.channels, turn.endings⟩)

end

namespace Future

variable {S V : Type}

def untimed : Future S V → Bool
  | running _ => true
  | sleeping .. => false
  | sending .. => true
  | receiving .. => true
  | yielding _ => true
  | timing .. => false

def sleep : Future S V → Option (Nat × Nat)
  | running _ => none
  | sleeping since duration _ => some (since, duration)
  | sending .. => none
  | receiving .. => none
  | yielding _ => none
  | timing body .. => body.sleep

/-- The future waits in its last await, and what it waits for is there. A wait for time, once it is
polled again, does not depend on the clock. -/
def AboutToFinish (code : S → Instruction S V) (channels : Channels V) : Future S V → Prop
  | running point => ∃ value, code point = .finish value
  | sleeping _ _ next => ∃ value, code next = .finish value
  | sending channel _ next =>
    ((channels channel).signal.state.closed = true ∨ (channels channel).signal.maxMessageBytes < token.length ∨
      (channels channel).signal.state.messages.length < (channels channel).signal.capacity) ∧
    ∀ r, ∃ value, code (next r) = .finish value
  | receiving channel next =>
    ((channels channel).signal.state.messages ≠ [] ∨ (channels channel).signal.state.closed = true) ∧
    ∀ r, ∃ value, code (next r) = .finish value
  | yielding next => ∃ value, code next = .finish value
  | timing _ _ _ next => ∀ r, ∃ value, code (next r) = .finish value

/-- The timeouts the future is in are due at `now`, except where the body is about to finish. -/
def Kept (code : S → Instruction S V) (channels : Channels V) (now : Nat) : Future S V → Prop
  | running _ => True
  | sleeping .. => True
  | sending .. => True
  | receiving .. => True
  | yielding _ => True
  | timing body since duration _ =>
    body.Kept code channels now ∧ (since + duration ≤ now ∨ body.AboutToFinish code channels)

end Future

def Ending.Fair (sleep : Option (Nat × Nat)) (now : Nat) : Ending → Prop
  | slept since duration => sleep = some (since, duration) ∨ since + duration ≤ now
  | returned since duration ok => ok = true ∨ since + duration ≤ now

/-- What the endings of a poll say about the future that was polled: what was not due did not end, except
for the sleep that was under way, and this did end. -/
structure Accounts {S V : Type} (code : S → Instruction S V) (channels : Channels V) (future : Future S V)
    (endings : List Ending) : Prop where
  fair : ∀ now, future.Kept code channels now → ∀ ending ∈ endings, ending.Fair future.sleep now
  woken : ∀ since duration, future.sleep = some (since, duration) → .slept since duration ∈ endings

section

variable {S V : Type} {code : S → Instruction S V} {lane : LaneId}

theorem ensures_after {endings : List Ending} {rest : Call (Turn S V)} {R : Turn S V → Prop}
    (h : Ask.Ensures rest fun turn => R { turn with endings := endings ++ turn.endings }) :
    Ask.Ensures (after endings rest) R :=
  h.bind fun _ hturn => .done hturn

theorem ensures_startTimer {α : Type} {duration : Nat} {next : Nat → Call α} {R : α → Prop}
    (h : ∀ since, Ask.Ensures (next since) R) : Ask.Ensures (startTimer lane duration next) R :=
  .ask fun since => .ask fun _ => h since

theorem pollFuture_quiet (fuel : Nat) (future : Future S V) (channels : Channels V)
    (untimed : future.untimed = true) :
    Ask.Ensures (pollFuture code lane fuel future channels) fun turn => turn.endings = [] := by
  induction fuel generalizing future channels with
  | zero => exact .panic
  | succ fuel ih =>
    have hrest : ∀ point channels, Ask.Ensures (pollFuture code lane fuel (.running point) channels)
        fun turn => turn.endings = [] := fun point channels => ih (.running point) channels rfl
    cases future with
    | running point =>
      rw [pollFuture]
      cases code point with
      | finish value => exact .done rfl
      | sleep duration next => exact ensures_startTimer fun since => .done rfl
      | send channel message next | receive channel next => exact ih _ channels rfl
      | trySend channel message next | tryReceive channel next => exact (Ask.Ensures.any _).bind fun r _ => hrest _ _
      | close channel next => exact (Ask.Ensures.any _).bind fun r _ => hrest _ _
      | yieldNow next => exact .ask fun _ => .done rfl
      | withTimeout duration body next =>
        refine (hrest body channels).bind fun turn hbody => ?_
        cases turn.progress with
        | ready value =>
          refine ensures_after ((hrest _ _).imp fun later hlater => ?_)
          simp [hbody, hlater]
        | pending suspended => exact ensures_startTimer fun since => .done hbody
    | sleeping since duration next => cases untimed
    | sending channel message next =>
      rw [pollFuture]
      refine (Ask.Ensures.any _).bind fun r _ => ?_
      cases r.1 with
      | sent | closed | tooLarge => exact hrest _ _
      | full => exact .done rfl
    | receiving channel next =>
      rw [pollFuture]
      refine (Ask.Ensures.any _).bind fun r _ => ?_
      cases r.1 with
      | message payload => exact hrest _ _
      | empty => exact .done rfl
      | closed => exact hrest _ _
    | yielding next =>
      rw [pollFuture]
      exact hrest _ _
    | timing body since duration next => cases untimed

variable {channels : Channels V}

theorem ensures_trySend {channel : Nat} {message : V}
    (room : (channels channel).signal.state.closed = true ∨ (channels channel).signal.maxMessageBytes < token.length ∨
      (channels channel).signal.state.messages.length < (channels channel).signal.capacity) :
    Ask.Ensures (channels.on channel (TypedChannel.trySend lane message)) fun r => r.1 ≠ .full := by
  have hsignal : Ask.Ensures (Signal.trySend lane token (channels channel).signal) fun r => r.1 ≠ .full := by
    unfold Signal.trySend ChannelInner.sendSection
    by_cases hclosed : (channels channel).signal.state.closed
    · rw [if_pos hclosed]
      exact .done (by simp)
    · rw [if_neg hclosed]
      by_cases hlarge : (channels channel).signal.maxMessageBytes < token.length
      · rw [if_pos hlarge]
        exact .done (by simp)
      · rw [if_neg hlarge, if_pos ((room.resolve_left hclosed).resolve_left hlarge)]
        exact (Ask.Ensures.any _).bind fun _ _ => .done (by simp)
  have htyped : Ask.Ensures (TypedChannel.trySend lane message (channels channel)) fun r => r.1 ≠ .full :=
    hsignal.bind fun r hr => .done hr
  exact htyped.bind fun r hr => .done hr

theorem ensures_tryReceive {channel : Nat}
    (there : (channels channel).signal.state.messages ≠ [] ∨ (channels channel).signal.state.closed = true) :
    Ask.Ensures (channels.on channel (TypedChannel.tryReceive lane)) fun r => r.1 ≠ .empty := by
  have hsignal : Ask.Ensures (Signal.tryRecv lane (channels channel).signal) fun r => r.1 ≠ .empty := by
    unfold Signal.tryRecv ChannelInner.recvSection
    rcases hmessages : (channels channel).signal.state.messages with _ | ⟨msg, rest⟩
    · rw [if_pos (there.resolve_left fun hsome => hsome hmessages)]
      exact .done (by simp)
    · exact (Ask.Ensures.any _).bind fun _ _ => .done (by simp)
  have htyped : Ask.Ensures (TypedChannel.tryReceive lane (channels channel)) fun r => r.1 ≠ .empty := by
    refine hsignal.bind fun r hr => ?_
    rcases r with ⟨found, c⟩
    cases found with
    | message msg => exact .done (by simp)
    | empty => exact absurd rfl hr
    | closed => exact .done (by simp)
  exact htyped.bind fun r hr => .done hr

theorem ready_of_finish {point : S} (finishes : ∃ value, code point = .finish value) (fuel : Nat)
    (channels : Channels V) : Ask.Ensures (pollFuture code lane fuel (.running point) channels)
      fun turn => ∃ value, turn.progress = .ready value := by
  obtain ⟨value, hvalue⟩ := finishes
  cases fuel with
  | zero => exact .panic
  | succ fuel =>
    rw [pollFuture, hvalue]
    exact .done ⟨value, rfl⟩

variable (fuel : Nat)

theorem pollFuture_ready {future : Future S V}
    (last : future.AboutToFinish code channels) : Ask.Ensures (pollFuture code lane fuel future channels)
      fun turn => ∃ value, turn.progress = .ready value := by
  cases fuel with
  | zero => exact .panic
  | succ fuel =>
    cases future with
    | running point => exact ready_of_finish last _ _
    | sleeping since duration next =>
      rw [pollFuture]
      exact ensures_after (ready_of_finish last _ _)
    | sending channel message next =>
      rw [pollFuture]
      refine (ensures_trySend last.1).bind fun r hr => ?_
      rcases r with ⟨found, later⟩
      cases found with
      | sent | closed | tooLarge => exact ready_of_finish (last.2 _) _ _
      | full => exact absurd rfl hr
    | receiving channel next =>
      rw [pollFuture]
      refine (ensures_tryReceive last.1).bind fun r hr => ?_
      rcases r with ⟨found, later⟩
      cases found with
      | message payload => exact ready_of_finish (last.2 _) _ _
      | empty => exact absurd rfl hr
      | closed => exact ready_of_finish (last.2 _) _ _
    | yielding next =>
      rw [pollFuture]
      exact ready_of_finish last _ _
    | timing body since duration next =>
      rw [pollFuture]
      refine (Ask.Ensures.any _).bind fun turn _ => ?_
      cases turn.progress with
      | ready value | pending suspended => exact ensures_after (ready_of_finish (last _) _ _)

theorem pollFuture_untimed {future : Future S V} (channels : Channels V) (awake : future.sleep = none)
    (untimed : future.untimed = true) : Ask.Ensures (pollFuture code lane fuel future channels)
      fun turn => Accounts code channels future turn.endings := by
  refine (pollFuture_quiet fuel future channels untimed).imp fun turn hquiet => ⟨?_, ?_⟩
  · simp [hquiet]
  · simp [awake]

theorem Accounts.timing {body : Future S V} {since duration : Nat}
    {next : Except Unit V → S} {inner own : List Ending} (h : Accounts code channels body inner)
    (fair : ∀ now, (Future.timing body since duration next).Kept code channels now →
      ∀ ending ∈ own, ending.Fair none now) : Accounts code channels (.timing body since duration next) (inner ++ own) where
  fair := by
    intro now hkept ending hmem
    rcases mem_append.mp hmem with hinner | hown
    · exact h.fair now hkept.1 ending hinner
    · have hfair := fair now hkept ending hown
      cases ending with
      | slept since' duration' => exact .inr (hfair.resolve_left (by simp))
      | returned since' duration' ok => exact hfair
  woken := fun since' duration' hsleep => mem_append_left _ (h.woken since' duration' hsleep)

variable (future : Future S V)

theorem pollFuture_accounts (channels : Channels V) :
    Ask.Ensures (pollFuture code lane fuel future channels)
      fun turn => Accounts code channels future turn.endings := by
  induction fuel generalizing future channels with
  | zero => exact .panic
  | succ fuel ih =>
    cases future with
    | running point | sending channel message next => exact pollFuture_untimed _ channels rfl rfl
    | receiving channel next | yielding next => exact pollFuture_untimed _ channels rfl rfl
    | sleeping since duration next =>
      rw [pollFuture]
      refine ensures_after ((pollFuture_quiet _ _ _ rfl).imp fun later hlater => ⟨?_, ?_⟩)
      · simp [hlater, Ending.Fair, Future.sleep]
      · simp [hlater, Future.sleep]
    | timing body since duration next =>
      rw [pollFuture]
      have hbody : Ask.Ensures (pollFuture code lane fuel body channels) fun turn =>
          Accounts code channels body turn.endings ∧
            (body.AboutToFinish code channels → ∃ value, turn.progress = .ready value) := by
        by_cases hlast : body.AboutToFinish code channels
        · refine ((ih body channels).and (pollFuture_ready fuel hlast)).imp fun turn hturn => ?_
          exact ⟨hturn.1, fun _ => hturn.2⟩
        · exact (ih body channels).imp fun turn hturn => ⟨hturn, fun h => absurd h hlast⟩
      refine hbody.bind fun turn hturn => ?_
      rcases turn with ⟨progress, channels', endings⟩
      cases progress with
      | ready value =>
        refine ensures_after ((pollFuture_quiet _ _ _ rfl).imp fun later hlater => ?_)
        rw [hlater, append_nil]
        refine hturn.1.timing fun now hkept => ?_
        simp [Ending.Fair]
      | pending suspended =>
        refine ensures_after ((pollFuture_quiet _ _ _ rfl).imp fun later hlater => ?_)
        rw [hlater, append_nil]
        refine hturn.1.timing fun now hkept => ?_
        -- the body was not about to finish, so the timeout is due
        have hdue : since + duration ≤ now := by
          refine hkept.2.resolve_right fun hlast => ?_
          obtain ⟨value, hvalue⟩ := hturn.2 hlast
          cases hvalue
        simp [Ending.Fair, hdue]

theorem behaviour_accounts (host : Host V) :
    Ask.Ensures (behaviour code fuel lane future host) fun r => Accounts code host.channels future r.2.endings := by
  refine (pollFuture_accounts fuel future host.channels).bind fun turn hturn => ?_
  cases turn.progress with
  | ready value | pending next => exact .done hturn

end

end CibosPlatform.Sdk.Task

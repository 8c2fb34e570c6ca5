/- source: cibos-kernel/src/syscall.rs, shared/src/protocols/syscall.rs
   digest: A system call acts for its caller only, its return value tells errors from results, and its buffers are small. -/

import CibosPlatform.Kernel.Syscall.Dispatch

namespace CibosPlatform.Kernel.Syscall.Caller

open Core Interaction Core.Interaction.Ask LittleEndian List
open Core.Program (Outcome)
open Dispatch Shared Error Ipc SyscallAbi

/-- The boundary a method acts for; the target of a request is not one. -/
def acting : EnvCall → Option BoundaryId
  | .copyFromUser caller _ _ | .copyToUser caller _ _ | .openChannel caller _ _
  | .channelSend caller _ _ | .channelRecv caller _ | .spawn caller _ _ | .requestChannel caller _ _
  | .pollChannelRequest caller | .acceptChannel caller _ | .rejectChannel caller _
  | .pollChannelOutcome caller _ | .gateBind caller _ | .gateConnect caller _ | .gateAccept caller _
  | .linkSend caller _ _ | .linkRecv caller _ | .linkClose caller _ | .wardenSet caller _ _
  | .gateProbe caller _ => some caller
  | .alloc _ | .consoleWrite _ | .nowNanos | .fsRead _ | .fsWrite .. | .fsMkdir _ | .fsExists _
  | .fsList _ | .fsDelete _ | .sleepNanos _ | .readKey _ | .fillRandom _ => none

def failure {α : Type} : Except SyscallError α → Option SyscallError
  | .ok _ => none
  | .error e => some e

def errorOf : (q : EnvCall) → Answer q → Option SyscallError
  | .alloc _, _ | .consoleWrite _, _ | .nowNanos, _ | .readKey _, _ => none
  | .copyFromUser .., r | .copyToUser .., r | .fsRead _, r | .fsWrite .., r | .fsMkdir _, r
  | .fsExists _, r | .fsList _, r | .fsDelete _, r | .sleepNanos _, r | .fillRandom _, r
  | .openChannel .., r | .channelSend .., r | .channelRecv .., r | .spawn .., r
  | .requestChannel .., r | .pollChannelRequest _, r | .acceptChannel .., r | .rejectChannel .., r
  | .pollChannelOutcome .., r | .gateBind .., r | .gateConnect .., r | .gateAccept .., r
  | .linkSend .., r | .linkRecv .., r | .linkClose .., r | .wardenSet .., r | .gateProbe .., r =>
    failure r

def ActsFor (boundary : BoundaryId) (q : EnvCall) : Prop :=
  ∀ other, acting q = some other → other = boundary

/-- An error of a method is the error of the whole call, so that a result means that all methods
succeeded; and the result is one of those allowed. -/
def Honest {α : Type} (allowed : α → Prop) (events : List Event) (o : Outcome SyscallError α) :
    Prop :=
  (∀ event ∈ events, ∀ e, errorOf event.1 event.2 = some e → o = .err e) ∧
    ∀ a, o = .ok a → allowed a

def Genuine {α : Type} (boundary : BoundaryId) (allowed : α → Prop) (p : Sys α) : Prop :=
  Upholds (ActsFor boundary) p (Honest allowed)

def NotNegative (outcome : SyscallOutcome) : Prop := ∀ value, outcome = .ret value → 0 ≤ value

def Answers {α : Type} (good : α → Prop) (q : EnvCall) (next : Answer q → Sys α) : Prop :=
  ∀ r, (∃ e, errorOf q r = some e ∧ next r = Ask.fail e) ∨
    errorOf q r = none ∧ ∃ a, good a ∧ next r = Ask.done a

def Informed (p : Sys SyscallOutcome) : Prop := Upholds (fun _ => True) p fun events o =>
  ∀ value, o = .ok (.ret value) → ∃ event ∈ events, ∀ len, event.1 ≠ .alloc len

/-- How a call is followed from method to method, whatever is to hold of its parts and of the whole of it.
Buffers are of the sizes in `limit`, and the outcomes are in `ok`. -/
structure Rules (boundary : BoundaryId) (limit : Nat → Prop) (ok : SyscallOutcome → Prop)
    (Part : {α : Type} → Sys α → Prop) (Whole : Sys SyscallOutcome → Prop) : Prop where
  done : ∀ {α : Type} (a : α), Part (Ask.done a)
  fail : ∀ {α : Type} e, Part (Ask.fail e : Sys α)
  next : ∀ {α β : Type} {p : Sys α} {f : α → Sys β}, Part p → (∀ a, Part (f a)) → Part (p >>= f)
  small : ∀ len ≤ maxFsIoLen, limit len
  positive : ∀ outcome, NotNegative outcome → ok outcome
  allocate : ∀ {len}, limit len → Part (Dispatch.allocate len)
  method : ∀ {α : Type} {q} {k : Answer q → Sys α}, (∀ len, q ≠ .alloc len) → ActsFor boundary q →
    Answers (fun _ => True) q k → Part (ask q k)
  stop : ∀ outcome, (∀ value, outcome ≠ .ret value) → Whole (Ask.done outcome)
  refuse : ∀ e, Whole (Ask.fail e)
  bind : ∀ {α : Type} {p : Sys α} {f : α → Sys SyscallOutcome}, Part p → (∀ a, Whole (f a)) →
    Whole (p >>= f)
  last : ∀ {q} {k : Answer q → Sys SyscallOutcome}, (∀ len, q ≠ .alloc len) → ActsFor boundary q →
    Answers ok q k → Whole (ask q k)

section

variable {α γ : Type} {good : α → Prop}

theorem orFail_map_answers {g : γ → α} (ok : ∀ c, good (g c)) (r : Except SyscallError γ) :
    (∃ e, failure r = some e ∧ (orFail (r.map g) : Sys α) = Ask.fail e) ∨
      failure r = none ∧ ∃ a, good a ∧ (orFail (r.map g) : Sys α) = Ask.done a := by
  cases r with
  | ok c => exact .inr ⟨rfl, g c, ok c, rfl⟩
  | error e => exact .inl ⟨e, rfl, rfl⟩

theorem orFail_answers (r : Except SyscallError α) :
    (∃ e, failure r = some e ∧ (orFail r : Sys α) = Ask.fail e) ∨
      failure r = none ∧ ∃ a, True ∧ (orFail r : Sys α) = Ask.done a := by
  cases r with
  | ok a => exact .inr ⟨rfl, a, trivial, rfl⟩
  | error e => exact .inl ⟨e, rfl, rfl⟩

end

theorem notNegative_length {n : Nat} (small : n ≤ maxFsIoLen) :
    NotNegative (.ret (lengthReturn n)) := by
  rintro _ ⟨⟩
  rw [lengthReturn_eq (lt_of_le_of_lt small (by decide))]
  exact Int.natCast_nonneg n

theorem notNegative_masked (w : Word) : NotNegative (.ret (maskedReturn w)) := by
  rintro _ ⟨⟩
  exact maskedReturn_nonneg w

theorem notNegative_zero : NotNegative (.ret 0) := by
  rintro _ ⟨⟩
  exact le_refl 0

section

variable {limit : Nat → Prop} {ok : SyscallOutcome → Prop} {Part : {α : Type} → Sys α → Prop}
  {Whole : Sys SyscallOutcome → Prop} {req : SyscallRequest}

variable {q : EnvCall}

theorem acts_of_acting {boundary : BoundaryId} (h : acting q = some boundary) :
    (∀ len, q ≠ .alloc len) ∧ ActsFor boundary q := by
  refine ⟨?_, fun other hother => Option.some.inj (hother.symm.trans h)⟩
  rintro len rfl
  cases h

variable (R : Rules req.boundary limit ok Part Whole)

include R

theorem Rules.methodFor {α : Type} {k : Answer q → Sys α} (h : acting q = some req.boundary)
    (answers : Answers (fun _ => True) q k) : Part (ask q k) :=
  R.method (acts_of_acting h).1 (acts_of_acting h).2 answers

theorem Rules.lastFor {k : Answer q → Sys SyscallOutcome} (h : acting q = some req.boundary)
    (answers : Answers ok q k) : Whole (ask q k) :=
  R.last (acts_of_acting h).1 (acts_of_acting h).2 answers

theorem Rules.reject {cond : Prop} [Decidable cond] {e : SyscallError} {p : Sys SyscallOutcome}
    (passed : ¬ cond → Whole p) : Whole (rejectIf cond e >>= fun _ => p) := by
  unfold rejectIf
  split
  · exact R.refuse e
  · rename_i hpassed
    exact passed hpassed

theorem Rules.copyFromUser (ptr : Word) (len : Nat) : Part (copyFromUser req.boundary ptr len) :=
  R.methodFor rfl (orFail_map_answers fun _ => trivial)

theorem Rules.readPath (ptr : Word) (len : Nat) : Part (readPath req.boundary ptr len) := by
  rw [Dispatch.readPath, rejectIf]
  split
  · exact R.fail _
  · rename_i hlen
    have hshort : len ≤ maxPathLen := not_lt.mp fun h => hlen (.inr h)
    have hread :
      Part (Dispatch.allocate len >>= fun _ => Dispatch.copyFromUser req.boundary ptr len) :=
      R.next (R.allocate (R.small len (hshort.trans (by decide)))) fun _ => R.copyFromUser ptr len
    exact hread

theorem Rules.asGate (w : Word) : Part (asGate w) := by
  unfold Dispatch.asGate
  split
  · exact R.done _
  · exact R.fail _

theorem Rules.onArgs {f : FsRwArgs → List Byte → Sys SyscallOutcome}
    (each : ∀ args path, args.bufLen.toNat ≤ maxFsIoLen → Whole (f args path)) :
    Whole (readRwArgs req.boundary req.arg0 >>= fun args =>
      rejectIf (maxFsIoLen < args.bufLen.toNat) .invalidArgument >>= fun _ =>
        Dispatch.readPath req.boundary args.pathPtr args.pathLen.toNat >>= fun path =>
          f args path) := by
  refine R.bind (R.next (R.copyFromUser _ _) fun _ => R.done _) fun args => R.reject fun hlen => ?_
  exact R.bind (R.readPath _ _) fun path => each args path (not_lt.mp hlen)

/-- Every call but `LinkSend` checks the size of a buffer before it makes it, and every call but the
key read returns what is not negative or an error. -/
theorem Rules.handle {call : Syscall} (link : call = .linkSend → limit req.arg2.toNat)
    (key : call = .readKey → ∀ outcome, ok outcome) :
    Whole (handle req call) := by
  have hlast : ∀ {γ : Type} {g : γ → SyscallOutcome}, (∀ c, NotNegative (g c)) →
    ∀ r : Except SyscallError γ,
      (∃ e, failure r = some e ∧ (orFail (r.map g) : Sys SyscallOutcome) = Ask.fail e) ∨
        failure r = none ∧ ∃ a, ok a ∧ (orFail (r.map g) : Sys SyscallOutcome) = Ask.done a :=
    fun hg => orFail_map_answers fun c => R.positive _ (hg c)
  have hzero := hlast (γ := Unit) fun _ => notNegative_zero
  have hmasked := hlast notNegative_masked
  have hcopyOut : ∀ (args : FsRwArgs) data, args.bufLen.toNat ≤ maxFsIoLen →
    Whole (copyOut req args data) :=
    fun _ _ hlen => R.lastFor rfl
      (hlast fun _ => notNegative_length ((min_le_right _ _).trans hlen))
  cases call with
  | log =>
    refine R.reject fun _ => R.bind (R.copyFromUser _ _) fun buf => ?_
    exact R.last nofun nofun fun _ => .inr ⟨rfl, _, R.positive _ notNegative_zero, rfl⟩
  | exit | yield => exact R.stop _ nofun
  | now =>
    exact R.last nofun nofun fun ns => .inr ⟨rfl, _, R.positive _ (notNegative_masked ns), rfl⟩
  | readKey => exact R.last nofun nofun fun _ => .inr ⟨rfl, _, key rfl _, rfl⟩
  | fsRead | fsList =>
    refine R.onArgs fun args path hlen => ?_
    refine R.bind (R.method nofun nofun orFail_answers) fun found => ?_
    cases found with
    | none => exact R.refuse _
    | some data => exact hcopyOut args _ hlen
  | fsWrite =>
    refine R.onArgs fun args path hlen => R.bind (R.allocate (R.small _ hlen)) fun _ =>
      R.bind ?_ fun data => ?_
    · split
      · exact R.copyFromUser _ _
      · exact R.done _
    · exact R.last nofun nofun (hlast fun _ => notNegative_length hlen)
  | fsMkdir | fsDelete => exact R.bind (R.readPath _ _) fun _ => R.last nofun nofun hzero
  | fsExists =>
    refine R.bind (R.readPath _ _) fun _ => R.last nofun nofun (hlast fun found => ?_)
    rintro _ ⟨⟩
    split
    · decide
    · decide
  | getRandom =>
    refine R.reject fun hlen => ?_
    have hsmall : req.arg1.toNat ≤ maxFsIoLen := not_lt.mp fun h => hlen (.inr h)
    refine R.bind (R.allocate (R.small _ hsmall)) fun _ => ?_
    refine R.bind (R.method nofun nofun orFail_answers) fun buf => ?_
    exact R.lastFor rfl (hlast fun _ => notNegative_length hsmall)
  | sleep => exact R.last nofun nofun hzero
  | openChannel => exact R.reject fun _ => R.lastFor rfl hmasked
  | channelSend =>
    refine R.reject fun hlen => R.bind (R.allocate (R.small _ (not_lt.mp hlen))) fun _ => ?_
    exact R.bind (R.copyFromUser _ _) fun buf => R.lastFor rfl hzero
  | channelRecv =>
    refine R.reject fun hcap => R.bind (R.methodFor rfl orFail_answers) fun msg => ?_
    refine R.lastFor rfl (hlast fun _ => notNegative_length ?_)
    exact (min_le_right _ _).trans (not_lt.mp hcap)
  | requestChannel =>
    refine R.reject fun _ => R.bind (R.copyFromUser _ _) fun buf => ?_
    cases (ChannelTermsWire.fromBytes buf).toTerms with
    | none => exact R.refuse _
    | some terms => exact R.reject fun _ => R.lastFor rfl hmasked
  | pollChannelRequest =>
    refine R.reject fun _ => R.bind (R.methodFor rfl orFail_answers) fun polled => ?_
    exact R.lastFor rfl (hlast fun _ => notNegative_masked polled.1)
  | spawn | acceptChannel | pollChannelOutcome => exact R.lastFor rfl hmasked
  | rejectChannel | linkClose => exact R.lastFor rfl hzero
  | gateBind | gateConnect | gateAccept | gateProbe =>
    exact R.bind (R.asGate _) fun _ => R.lastFor rfl hmasked
  | wardenSet => exact R.bind (R.asGate _) fun _ => R.lastFor rfl hzero
  | linkSend =>
    refine R.bind (R.allocate (link rfl)) fun _ => R.bind (R.copyFromUser _ _) fun buf => ?_
    exact R.lastFor rfl hzero
  | linkRecv =>
    refine R.bind (R.methodFor rfl orFail_answers) fun bytes => R.reject fun _ => ?_
    exact R.lastFor rfl (hlast fun _ => notNegative_masked _)

theorem Rules.dispatch (link : Syscall.fromNumber req.number = some .linkSend →
    limit req.arg2.toNat)
    (key : Syscall.fromNumber req.number = some .readKey → ∀ outcome, ok outcome) :
    Whole (dispatch req) := by
  unfold Dispatch.dispatch
  rcases hcall : Syscall.fromNumber req.number with _ | call
  · exact R.refuse _
  · exact R.handle (fun h => link (h ▸ hcall)) fun h => key (h ▸ hcall)

end

variable (req : SyscallRequest)

section

variable {α β : Type} {boundary : BoundaryId} {allowed : α → Prop} {allowed' : β → Prop}

theorem honest_nil {o : Outcome SyscallError α} (good : ∀ a, o = .ok a → allowed a) :
    Honest allowed [] o :=
  ⟨fun _ hmem => absurd hmem not_mem_nil, good⟩

theorem Genuine.bind {p : Sys α} {f : α → Sys β} (first : Genuine boundary allowed p)
    (next : ∀ a, allowed a → Genuine boundary allowed' (f a)) :
    Genuine boundary allowed' (p >>= f) := by
  refine Upholds.bind (.imp first fun events o hend => ?_)
  cases o with
  | ok a =>
    refine .imp (next a (hend.2 a rfl)) fun later o' hlater =>
      ⟨fun event hmem e herror => ?_, hlater.2⟩
    rcases mem_append.mp hmem with hmem | hmem
    · exact absurd (hend.1 event hmem e herror) nofun
    · exact hlater.1 event hmem e herror
  | err e =>
    refine ⟨fun event hmem e' herror => ?_, nofun⟩
    obtain ⟨⟩ := hend.1 event hmem e' herror
    rfl
  | panic =>
    refine ⟨fun event hmem e' herror => ?_, nofun⟩
    exact absurd (hend.1 event hmem e' herror) nofun

theorem Genuine.ask {q : EnvCall} {next : Answer q → Sys α} (acts : ActsFor boundary q)
    (answers : Answers allowed q next) : Genuine boundary allowed (ask q next) := by
  refine ⟨acts, fun r => ?_⟩
  rcases answers r with ⟨e, herror, hnext⟩ | ⟨herror, a, hgood, hnext⟩
  · rw [hnext]
    refine ⟨fun event hmem e' he => ?_, nofun⟩
    rw [mem_singleton.mp hmem, herror] at he
    cases he
    rfl
  · rw [hnext]
    refine ⟨fun event hmem e' he => ?_, ?_⟩
    · rw [mem_singleton.mp hmem, herror] at he
      cases he
    · rintro _ ⟨⟩
      exact hgood

theorem genuine_allocate (len : Nat) : Genuine boundary (fun _ => True) (allocate len) := by
  refine ⟨nofun, fun _ => ?_⟩
  have hsilent : ∀ o : Outcome SyscallError Unit, Honest (fun _ => True) [⟨.alloc len, ()⟩] o := by
    refine fun o => ⟨fun event hmem e he => ?_, fun _ _ => trivial⟩
    rw [mem_singleton.mp hmem] at he
    cases he
  split
  · exact hsilent (.ok ())
  · exact hsilent .panic

theorem genuine_rules (boundary : BoundaryId) : Rules boundary (fun _ => True) NotNegative
    (fun {_} p => Genuine boundary (fun _ => True) p) (Genuine boundary NotNegative) where
  done _ := honest_nil fun _ _ => trivial
  fail _ := honest_nil fun _ _ => trivial
  next first rest := first.bind fun a _ => rest a
  small _ _ := trivial
  positive _ h := h
  allocate _ := genuine_allocate _
  method _ acts answers := .ask acts answers
  stop _ hret := honest_nil (by
    rintro _ ⟨⟩ value h
    exact absurd h (hret value))
  refuse _ := honest_nil nofun
  bind first rest := first.bind fun a _ => rest a
  last _ acts answers := .ask acts answers

theorem genuine_dispatch : Genuine req.boundary
    (fun outcome => Syscall.fromNumber req.number ≠ some .readKey → NotNegative outcome)
    (dispatch req) := by
  by_cases hkey : Syscall.fromNumber req.number = some .readKey
  · rw [dispatch, hkey]
    exact .ask nofun fun _ => .inr ⟨rfl, _, fun h => absurd rfl h, rfl⟩
  · have hhonest := (genuine_rules req.boundary).dispatch (fun _ => trivial) fun h => absurd h hkey
    exact .imp hhonest fun events o hend => ⟨hend.1, fun outcome ho _ => hend.2 outcome ho⟩

end

theorem Informed.bind {α : Type} {f : α → Sys SyscallOutcome} (p : Sys α)
    (next : ∀ a, Informed (f a)) :
    Informed (p >>= f) := by
  refine Upholds.bind (.imp (.nothing p) fun events o _ => ?_)
  cases o with
  | ok a =>
    refine .imp (next a) fun later o' hlater value hvalue => ?_
    obtain ⟨event, hmem, hmethod⟩ := hlater value hvalue
    exact ⟨event, mem_append_right _ hmem, hmethod⟩
  | err e | panic => rintro _ ⟨⟩

theorem informed_rules (boundary : BoundaryId) :
    Rules boundary (fun _ => True) (fun _ => True) (fun {_} _ => True) Informed where
  done _ := trivial
  fail _ := trivial
  next _ _ := trivial
  small _ _ := trivial
  positive _ _ := trivial
  allocate _ := trivial
  method _ _ _ := trivial
  stop _ hret := by
    intro value hvalue
    exact absurd (Outcome.ok.inj hvalue) (hret value)
  refuse _ := nofun
  bind _ next := .bind _ next
  last method _ _ := ⟨trivial, fun r => .imp (.nothing _) fun _ _ _ _ _ =>
    ⟨⟨_, r⟩, mem_cons_self, method⟩⟩

theorem informed_dispatch : Informed (dispatch req) :=
  (informed_rules req.boundary).dispatch (fun _ => trivial) fun _ _ => trivial

/-- In every environment, a call acts for its own boundary only. Unless it reads a key, a negative
value is an error code, and any other value means that a method was called and none failed. -/
theorem dispatch_acts_as_caller {σ : Type} {env : Env EnvCall Answer σ} {req : SyscallRequest}
    {s : σ} {r : Ended EnvCall Answer SyscallError SyscallOutcome σ}
    (ran : (dispatch req).run env s = some r) :
    (∀ event ∈ r.events, ∀ boundary, acting event.1 = some boundary → boundary = req.boundary) ∧
    (Syscall.fromNumber req.number ≠ some .readKey →
      ∀ value, returned r.outcome = some (.ret value) →
      (value < 0 → ∃ e, value = asReturn e) ∧
      (0 ≤ value → (∃ event ∈ r.events, ∀ len, event.1 ≠ .alloc len) ∧
        ∀ event ∈ r.events, errorOf event.1 event.2 = none)) := by
  obtain ⟨hacts, hhonest⟩ := Upholds.sound (genuine_dispatch req) ran
  refine ⟨hacts, fun hkey value hvalue => ?_⟩
  cases houtcome : r.outcome with
  | ok outcome =>
    rw [houtcome] at hvalue hhonest
    cases hvalue
    have hnonneg : 0 ≤ value := hhonest.2 _ rfl hkey value rfl
    refine ⟨fun hneg => absurd hnonneg (not_le_of_gt hneg), fun _ => ⟨?_, fun event hmem => ?_⟩⟩
    · exact (Upholds.sound (informed_dispatch req) ran).2 value houtcome
    · rcases herror : errorOf event.1 event.2 with _ | e
      · rfl
      · exact absurd (hhonest.1 event hmem e herror) nofun
  | err e =>
    rw [houtcome] at hvalue
    cases hvalue
    exact ⟨fun _ => ⟨e, rfl⟩, fun hnonneg => absurd hnonneg (not_le_of_gt (asReturn_neg e))⟩
  | panic =>
    rw [houtcome] at hvalue
    cases hvalue

/-- An environment that gives out the handle 3 for every channel. -/
def opening : Env EnvCall Answer Unit := fun q s =>
  some (match q with | .openChannel .. => .ok 3 | q => defaultAnswer q, s)

theorem dispatch_acts_as_caller_open : ∃ r, (dispatch ⟨14, 4, 16, 0, 7⟩).run opening () = some r ∧
    returned r.outcome = some (.ret 3) ∧ r.events.map (fun event => acting event.1) = [some 7] ∧
    (∀ event ∈ r.events, ∀ boundary, acting event.1 = some boundary → boundary = 7) ∧
    (∃ event ∈ r.events, ∀ len, event.1 ≠ .alloc len) ∧ ∀ event ∈ r.events,
    errorOf event.1 event.2 = none := by
  have hran : (dispatch ⟨14, 4, 16, 0, 7⟩).run opening () = some _ := rfl
  obtain ⟨hacts, hvalues⟩ := dispatch_acts_as_caller hran
  exact ⟨_, hran, rfl, rfl, hacts, (hvalues (by decide) 3 rfl).2 (by decide)⟩

end CibosPlatform.Kernel.Syscall.Caller

namespace CibosPlatform.Kernel.Syscall.Bounds

open Core.Interaction Core.Interaction.Ask
open Core.Program (Outcome)
open Caller Dispatch Shared Error Ipc SyscallAbi

def SmallBuffer (q : EnvCall) : Prop := ∀ len, q = .alloc len → len ≤ maxFsIoLen

def Bounded {α : Type} (p : Sys α) : Prop := Upholds SmallBuffer p fun _ o => o ≠ .panic

theorem Bounded.bind {α β : Type} {p : Sys α} {f : α → Sys β} (first : Bounded p)
    (next : ∀ a, Bounded (f a)) :
    Bounded (p >>= f) := by
  refine Upholds.bind (first.imp fun events o hend => ?_)
  cases o with
  | ok a => exact next a
  | err e => rintro ⟨⟩
  | panic => exact absurd rfl hend

theorem Bounded.ask {α : Type} {good : α → Prop} {q : EnvCall} {k : Answer q → Sys α}
    (method : ∀ len, q ≠ .alloc len) (answers : Answers good q k) : Bounded (ask q k) := by
  refine ⟨fun len h => absurd h (method len), fun r => ?_⟩
  rcases answers r with ⟨e, -, hk⟩ | ⟨-, a, -, hk⟩
  · rw [hk]
    rintro ⟨⟩
  · rw [hk]
    rintro ⟨⟩

theorem bounded_rules (boundary : BoundaryId) :
    Rules boundary (· ≤ maxFsIoLen) (fun _ => True) @Bounded Bounded where
  done _ := nofun
  fail _ := nofun
  next := .bind
  small _ h := h
  positive _ _ := trivial
  allocate small := by
    refine ⟨fun len h => EnvCall.alloc.inj h ▸ small, fun _ => ?_⟩
    rw [if_pos (small.trans (by decide))]
    rintro ⟨⟩
  method method _ answers := .ask method answers
  stop _ _ := nofun
  refuse _ := nofun
  bind := .bind
  last method _ answers := .ask method answers

variable {req : SyscallRequest}

theorem linkSend_allocates {σ : Type} {env : Env EnvCall Answer σ} {s : σ}
    {r : Ended EnvCall Answer SyscallError SyscallOutcome σ}
    (call : Syscall.fromNumber req.number = some .linkSend)
    (ran : (dispatch req).run env s = some r) :
    ∃ event ∈ r.events, event.1 = .alloc req.arg2.toNat := by
  rw [dispatch, call] at ran
  obtain ⟨answer, -, hrest⟩ := Option.bind_eq_some_iff.mp ran
  obtain ⟨rest, -, rfl⟩ := Option.map_eq_some_iff.mp hrest
  exact ⟨_, List.mem_cons_self, rfl⟩

/-- In every environment that answers, a call ends; its buffers are small and it does not panic
exactly if it is not a `LinkSend` of more than `MAX_FS_IO_LEN` bytes. -/
theorem dispatch_bounded_iff {σ : Type} (env : (q : EnvCall) → σ → Answer q × σ) (s : σ)
    (req : SyscallRequest) :
    ∃ r, (dispatch req).run (fun q s => some (env q s)) s = some r ∧
      (((∀ event ∈ r.events, ∀ len, event.1 = .alloc len → len ≤ maxFsIoLen) ∧
        returned r.outcome ≠ none) ↔
        (Syscall.fromNumber req.number = some .linkSend → req.arg2.toNat ≤ maxFsIoLen)) := by
  obtain ⟨r, hran⟩ := (dispatch req).run_total env s
  refine ⟨r, hran, ?_, fun small => ?_⟩
  · rintro ⟨hsmall, -⟩ hlink
    obtain ⟨event, hmem, hevent⟩ := linkSend_allocates hlink hran
    exact hsmall event hmem _ hevent
  · obtain ⟨hsmall, hend⟩ := ((bounded_rules req.boundary).dispatch small fun _ _ => trivial).sound
      hran
    refine ⟨hsmall, ?_⟩
    cases houtcome : r.outcome with
    | ok outcome | err e => simp [returned]
    | panic => exact absurd houtcome hend

/-- A `LinkSend` of `u64::MAX` bytes asks for a buffer of that size and panics. -/
theorem linkSend_unbounded : ((dispatch ⟨26, 0, 4096, 0xFFFFFFFFFFFFFFFF, 1⟩).run
    (fun q (s : Unit) => some (defaultAnswer q, s)) ()).map
    (fun r => (r.events.map Sigma.fst, returned r.outcome)) =
      some ([.alloc (2 ^ 64 - 1)], none) := by
  rfl

end CibosPlatform.Kernel.Syscall.Bounds

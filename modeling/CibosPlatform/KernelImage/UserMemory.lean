/- source: kernel-image/src/boot.rs, cibos-kernel/src/syscall.rs, kernel-image/src/arch/paging.rs
   digest: Which user memory a system call touches, against what the caller has mapped. -/

import CibosPlatform.Kernel.AddressSpace.Manager
import CibosPlatform.Kernel.Paging.X86
import CibosPlatform.Kernel.Syscall.Caller
import CibosPlatform.KernelImage.Environment

namespace CibosPlatform.KernelImage.UserMemory

open Core Interaction Core.Interaction.Ask LittleEndian MachineWord List Option Nat
open Kernel.AddressSpace.Manager (AddressSpaceManager)
open Kernel.Frame.Allocator (PhysFrame)
open Kernel.Paging.Tables (Entry index indices levels translateFrom)
open Kernel.Paging.X86 Kernel.Syscall.Caller Kernel.Syscall.Dispatch Environment
open Shared Error Ipc SyscallAbi

inductive Access where
  | read
  | write
  deriving DecidableEq

def grants (access : Access) (entry : Entry) : Bool :=
  x86PageTable.isPresent entry && entry &&& userBit != 0 &&
    (access == .read || entry &&& writable != 0)

/-- The walk of the processor for an access by user code: every level has to grant it. -/
def userWalk (mem : PhysFrame → Nat → Entry) (access : Access) (virt : Nat) :
    List (Nat × Nat) → PhysFrame → Bool
  | [], table => grants access (mem table (index virt (levels - 1)))
  | (level, i) :: rest, table =>
    let entry := mem table i
    grants access entry &&
      (x86PageTable.isBlockLeaf entry level || userWalk mem access virt rest
        (x86PageTable.entryFrame entry))

def Canonical (virt : Nat) : Prop := virt < 2 ^ 47 ∨ 2 ^ 64 - 2 ^ 47 ≤ virt ∧ virt < 2 ^ 64

def UserByte (m : AddressSpaceManager) (boundary : BoundaryId) (access : Access) (virt : Nat) :
    Prop :=
  Canonical virt ∧ ∃ space, m.spaces ⟨UInt64.ofNat boundary⟩ = some space ∧
    userWalk m.machine.mem access virt (indices virt (levels - 1)) space.root = true

theorem translateFrom_of_userWalk {mem : PhysFrame → Nat → Entry} {access : Access} {virt : Nat}
    {way : List (Nat × Nat)} {table : PhysFrame} (h : userWalk mem access virt way table = true) :
    (translateFrom x86PageTable mem virt way table).isSome := by
  have hpresent : ∀ entry, grants access entry = true → x86PageTable.isPresent entry = true := by
    intro entry hgrants
    exact (Bool.and_eq_true_iff.mp (Bool.and_eq_true_iff.mp hgrants).1).1
  induction way generalizing table with
  | nil =>
    rw [translateFrom, if_pos (hpresent _ h)]
    rfl
  | cons step rest ih =>
    obtain ⟨hgrants, hrest⟩ := Bool.and_eq_true_iff.mp h
    rw [translateFrom, if_pos (hpresent _ hgrants)]
    split
    · rfl
    · rename_i hblock
      exact ih ((Bool.or_eq_true_iff.mp hrest).resolve_left hblock)

structure UserRange where
  access : Access
  ptr : Word
  len : Nat

def UserRange.Mapped (m : AddressSpaceManager) (boundary : BoundaryId) (range : UserRange) : Prop :=
  ∀ i < range.len, UserByte m boundary range.access (range.ptr.toNat + i)

def rangeOf : EnvCall → Option UserRange
  | .copyFromUser _ ptr len => some ⟨.read, ptr, len⟩
  | .copyToUser _ ptr bytes => some ⟨.write, ptr, bytes.length⟩
  | _ => none

section

variable {ρ : Type}

def readThen (ram : Ram) (ptr : Word) (len : Nat) (rest : List Byte → List UserRange) :
    List UserRange :=
  ⟨.read, ptr, len⟩ :: if refusal ptr len = none then rest (readRam ram ptr len).toList else []

def onOk {α : Type} (r : Except SyscallError α) (rest : α → List UserRange) : List UserRange :=
  match r with
  | .ok a => rest a
  | .error _ => []

variable (services : Env EnvCall Answer ρ)

def answered (s : ρ) (q : EnvCall) (rest : Answer q → List UserRange) : List UserRange :=
  match services q s with
  | some (a, _) => rest a
  | none => []

def pathThen (ram : Ram) (ptr : Word) (len : Nat) (rest : List Byte → List UserRange) :
    List UserRange :=
  if len = 0 ∨ maxPathLen < len then [] else readThen ram ptr len rest

def argsThen (ram : Ram) (req : SyscallRequest) (rest : FsRwArgs → List Byte → List UserRange) :
    List UserRange :=
  readThen ram req.arg0 fsRwArgsLen fun raw =>
    let args := FsRwArgs.fromBytes raw
    if maxFsIoLen < args.bufLen.toNat then []
    else pathThen ram args.pathPtr args.pathLen.toNat (rest args)

def outOf (args : FsRwArgs) (size : Nat) : List UserRange :=
  [⟨.write, args.bufPtr, min size args.bufLen.toNat⟩]

/-- The buffers a call names, in its registers or in the memory they point to. How many bytes go
back depends on the services. -/
def named (ram : Ram) (s : ρ) (req : SyscallRequest) : Syscall → List UserRange
  | .log => if maxLogLen < req.arg1.toNat then [] else [⟨.read, req.arg0, req.arg1.toNat⟩]
  | .fsRead => argsThen ram req fun args path =>
    answered services s (.fsRead path) fun r => onOk r fun
      | some data => outOf args data.length
      | none => []
  | .fsList => argsThen ram req fun args path =>
    answered services s (.fsList path) fun r => onOk r fun
      | some names => outOf args (joinNames names).length
      | none => []
  | .fsWrite => argsThen ram req fun args _ =>
    if 0 < args.bufLen.toNat then [⟨.read, args.bufPtr, args.bufLen.toNat⟩] else []
  | .fsMkdir | .fsExists | .fsDelete => pathThen ram req.arg0 req.arg1.toNat fun _ => []
  | .getRandom =>
    if req.arg1.toNat = 0 ∨ maxFsIoLen < req.arg1.toNat then []
    else answered services s (.fillRandom req.arg1.toNat) fun r => onOk r fun _ =>
      [⟨.write, req.arg0, req.arg1.toNat⟩]
  | .channelSend => if maxFsIoLen < req.arg2.toNat then [] else [⟨.read, req.arg1, req.arg2.toNat⟩]
  | .channelRecv =>
    if maxFsIoLen < req.arg2.toNat then []
    else answered services s (.channelRecv req.boundary req.arg0) fun r => onOk r fun msg =>
      [⟨.write, req.arg1, min msg.length req.arg2.toNat⟩]
  | .requestChannel =>
    if req.arg2.toNat < channelTermsWireLen then [] else [⟨.read, req.arg1, channelTermsWireLen⟩]
  | .pollChannelRequest =>
    if req.arg1.toNat < channelRequestWireLen then []
    else answered services s (.pollChannelRequest req.boundary) fun r => onOk r fun _ =>
      [⟨.write, req.arg0, channelRequestWireLen⟩]
  | .linkSend => if req.arg2.toNat ≤ isizeMax then [⟨.read, req.arg1, req.arg2.toNat⟩] else []
  | .linkRecv => answered services s (.linkRecv req.boundary req.arg0) fun r => onOk r fun bytes =>
    if req.arg2.toNat < bytes.length then [] else [⟨.write, req.arg1, bytes.length⟩]
  | _ => []

end

def Makes {ρ α : Type} (services : Env EnvCall Answer ρ) (ram : Ram) (s : ρ) (p : Sys α)
    (ranges : List UserRange) : Prop :=
  ∀ r, p.run (withUserCopies services) (ram, s) = some r →
    r.events.filterMap (fun event => rangeOf event.1) = ranges

variable {len : Nat} {rest : List Byte → List UserRange}

section

variable {ρ α β : Type} {services : Env EnvCall Answer ρ} {ram : Ram} {s : ρ}
  {p : Sys α} {f : α → Sys β}
  {ranges : List UserRange}

theorem Makes.done (a : α) : Makes services ram s (.done a) [] := by
  rintro _ ⟨⟩
  rfl

theorem Makes.fail (e : SyscallError) : Makes services ram s (.fail e : Sys α) [] := by
  rintro _ ⟨⟩
  rfl

variable (r : Except SyscallError α)

theorem Makes.orFail : Makes services ram s (orFail r) [] := by
  cases r with
  | ok a => exact .done a
  | error e => exact .fail e

theorem Makes.orFail_bind {rest : α → List UserRange}
    (next : ∀ a, Makes services ram s (f a) (rest a)) :
    Makes services ram s (.orFail r >>= f) (onOk r rest) := by
  cases r with
  | ok a => exact next a
  | error e => exact .fail e

theorem Makes.reject {cond : Prop} [Decidable cond] {e : SyscallError}
    (next : ¬ cond → Makes services ram s p ranges) :
    Makes services ram s (rejectIf cond e >>= fun _ => p) (if cond then [] else ranges) := by
  unfold rejectIf
  split
  · exact .fail e
  · rename_i hpassed
    exact next hpassed

variable {q : EnvCall} {next : Answer q → Sys α} {boundary : BoundaryId} {ptr : Word}

theorem Makes.ask (each : ∀ a st, withUserCopies services q (ram, s) = some (a, st) →
      Makes services st.1 st.2 (next a) ranges) :
    Makes services ram s (ask q next) ((rangeOf q).toList ++ ranges) := by
  intro r ran
  obtain ⟨answer, rest, hanswer, hran, rfl⟩ := run_ask ran
  have htail := each answer.1 answer.2 hanswer rest hran
  rw [filterMap_cons, htail]
  cases rangeOf q with
  | none | some range => rfl

theorem Makes.read {f : List Byte → Sys β}
    (next : ∀ bytes, Makes services ram s (f bytes) (rest bytes)) :
    Makes services ram s (Kernel.Syscall.Dispatch.copyFromUser boundary ptr len >>= f)
      (readThen ram ptr len rest) := by
  refine .ask (q := .copyFromUser boundary ptr len) fun a st hanswer => ?_
  cases hanswer
  rw [Environment.copyFromUser]
  cases hrefusal : refusal ptr len with
  | none => exact next _
  | some e => exact .fail e

theorem Makes.write {bytes : List Byte} {n : Nat} {g : Unit → α} (size : bytes.length = n) :
    Makes services ram s (.ask (.copyToUser boundary ptr bytes) fun r => .orFail (r.map g))
      [⟨.write, ptr, n⟩] := by
  subst size
  exact .ask (q := .copyToUser boundary ptr bytes) fun _ _ _ => .orFail _

theorem Makes.allocate {f : Unit → Sys β} (small : len ≤ isizeMax)
    (next : Makes services ram s (f ()) ranges) :
    Makes services ram s (allocate len >>= f) ranges := by
  refine .ask (q := .alloc len) fun a st hanswer => ?_
  cases hanswer
  rw [if_pos small]
  exact next

theorem Makes.service {rest : Answer q → List UserRange}
    (plain : ∀ st : Ram × ρ, withUserCopies services q st = (services q st.2).map
      fun r => (r.1, st.1, r.2))
    (none : rangeOf q = none) (each : ∀ a s', Makes services ram s' (next a) (rest a)) :
    Makes services ram s (.ask q next) (answered services s q rest) := by
  intro r ran
  have hstart := ran
  obtain ⟨answer, hanswer, -⟩ := bind_eq_some_iff.mp hstart
  rw [plain] at hanswer
  obtain ⟨⟨a, s'⟩, hservice, rfl⟩ := map_eq_some_iff.mp hanswer
  have hmakes : Makes services ram s (.ask q next) ((rangeOf q).toList ++ rest a) := by
    refine .ask fun a' st hanswer' => ?_
    rw [plain, hservice] at hanswer'
    cases hanswer'
    exact each a s'
  rw [none] at hmakes
  rw [answered, hservice]
  exact hmakes r ran

theorem Makes.last (none : rangeOf q = none) (each : ∀ a ram s, Makes services ram s (next a) []) :
    Makes services ram s (.ask q next) [] := by
  have hmakes : Makes services ram s (.ask q next) ((rangeOf q).toList ++ []) :=
    Makes.ask fun a st _ => each a st.1 st.2
  rwa [none] at hmakes

theorem Makes.rejectLast {cond : Prop} [Decidable cond] {e : SyscallError}
    (next : ¬ cond → Makes services ram s p []) :
    Makes services ram s (rejectIf cond e >>= fun _ => p) [] := by
  have hmakes := Makes.reject (e := e) next
  rwa [ite_self] at hmakes

theorem Makes.readLast {f : List Byte → Sys β} (next : ∀ bytes, Makes services ram s (f bytes) []) :
    Makes services ram s (Kernel.Syscall.Dispatch.copyFromUser boundary ptr len >>= f)
      [⟨.read, ptr, len⟩] := by
  have hmakes : Makes services ram s (Kernel.Syscall.Dispatch.copyFromUser boundary ptr len >>= f)
      (readThen ram ptr len fun _ => []) := .read next
  rwa [readThen, ite_self] at hmakes

end

section

variable {ρ : Type} {services : Env EnvCall Answer ρ} {ram : Ram} {s : ρ}

theorem makes_readPath {boundary : BoundaryId} {ptr : Word} {f : List Byte → Sys SyscallOutcome}
    (next : ∀ path, Makes services ram s (f path) (rest path)) :
    Makes services ram s (readPath boundary ptr len >>= f) (pathThen ram ptr len rest) := by
  simp only [readPath, Ask.bind_assoc]
  refine .reject fun hlen => .allocate ?_ (.read next)
  exact (not_lt.mp fun h => hlen (.inr h)).trans (by decide)

variable (req : SyscallRequest)

theorem makes_args {f : FsRwArgs → List Byte → Sys SyscallOutcome}
    {rest : FsRwArgs → List Byte → List UserRange}
    (next : ∀ args path, args.bufLen.toNat ≤ maxFsIoLen →
      Makes services ram s (f args path) (rest args path)) :
    Makes services ram s (readRwArgs req.boundary req.arg0 >>= fun args =>
        rejectIf (maxFsIoLen < args.bufLen.toNat) .invalidArgument >>= fun _ =>
          readPath req.boundary args.pathPtr args.pathLen.toNat >>= f args)
      (argsThen ram req rest) := by
  simp only [readRwArgs, Ask.bind_assoc]
  refine .read fun raw => .reject fun hlen => makes_readPath fun path => ?_
  exact next _ path (not_lt.mp hlen)

theorem length_take_min (bytes : List Byte) (n : Nat) :
    (bytes.take (min bytes.length n)).length = min bytes.length n := by
  rw [length_take, min_assoc, min_comm n, ← min_assoc, min_self]

theorem makes_copyOut (args : FsRwArgs) (data : List Byte) :
    Makes services ram s (copyOut req args data) (outOf args data.length) :=
      .write (length_take_min data _)

theorem makes_fsWrite : Makes services ram s (fsWrite req) (named services ram s req .fsWrite) := by
  rw [fsWrite, named]
  refine makes_args req fun args path hlen => .allocate (hlen.trans (by decide)) ?_
  have hlast : ∀ data, Makes services ram s
      (.ask (.fsWrite path data) fun r =>
        .orFail (r.map fun _ => SyscallOutcome.ret (lengthReturn args.bufLen.toNat))) [] :=
    fun data => .last rfl fun r _ _ => .orFail _
  split
  · exact .readLast hlast
  · exact hlast []

theorem makes_linkSend : Makes services ram s (linkSend req)
    (named services ram s req .linkSend) := by
  by_cases hsmall : req.arg2.toNat ≤ isizeMax
  · rw [named, if_pos hsmall]
    exact .allocate hsmall (.readLast fun buf => .last rfl fun r _ _ => .orFail _)
  · rw [named, if_neg hsmall]
    refine .ask (q := .alloc req.arg2.toNat) fun a st _ => ?_
    rw [if_neg hsmall]
    rintro _ ⟨⟩
    rfl

theorem makes_handle (call : Syscall) : Makes services ram s (handle req call)
    (named services ram s req call) := by
  have hgate : ∀ {q : Nat → EnvCall} {next : (gate : Nat) → Answer (q gate) → Sys SyscallOutcome},
      (∀ gate, Makes services ram s (.ask (q gate) (next gate)) []) →
        Makes services ram s (asGate req.arg0 >>= fun gate => .ask (q gate) (next gate)) [] := by
    intro q next each
    unfold asGate
    split
    · exact each _
    · exact .fail _
  cases call with
  | log => exact .reject fun _ => .readLast fun buf => .last rfl fun _ _ _ => .done _
  | exit | yield => exact .done _
  | now | readKey => exact .last rfl fun _ _ _ => .done _
  | fsRead | fsList =>
    simp only [handle, fsRead, fsList, named]
    refine makes_args req fun args path _ => .service (fun _ => rfl) rfl fun r s' => ?_
    refine .orFail_bind r fun found => ?_
    cases found with
    | none => exact .fail _
    | some data => exact makes_copyOut req args _
  | fsWrite => exact makes_fsWrite req
  | fsMkdir | fsExists | fsDelete => exact makes_readPath fun _ => .last rfl fun _ _ _ => .orFail _
  | getRandom =>
    refine .reject fun hlen => .allocate ?_ (.service (fun _ => rfl) rfl fun r s' => ?_)
    · exact (not_lt.mp fun h => hlen (.inr h)).trans (by decide)
    · exact .orFail_bind r fun buf => .write buf.size_toArray
  | sleep | spawn | acceptChannel | rejectChannel | pollChannelOutcome | linkClose =>
    exact .last rfl fun _ _ _ => .orFail _
  | openChannel => exact .rejectLast fun _ => .last rfl fun _ _ _ => .orFail _
  | channelSend =>
    refine .reject fun hlen => .allocate ?_ (.readLast fun buf => .last rfl fun r _ _ => .orFail _)
    exact (not_lt.mp hlen).trans (by decide)
  | channelRecv =>
    refine .reject fun _ => .service (fun _ => rfl) rfl fun r s' => ?_
    exact .orFail_bind r fun msg => .write (length_take_min msg _)
  | requestChannel =>
    refine .reject fun _ => .readLast fun buf => ?_
    cases (ChannelTermsWire.fromBytes buf).toTerms with
    | none => exact .fail _
    | some terms => exact .rejectLast fun _ => .last rfl fun r _ _ => .orFail _
  | pollChannelRequest =>
    refine .reject fun _ => .service (fun _ => rfl) rfl fun r s' => ?_
    exact .orFail_bind r fun polled => .write polled.2.size_toArray
  | gateBind | gateConnect | gateAccept | wardenSet | gateProbe => exact hgate fun _ => .last rfl fun _ _ _ => .orFail _
  | linkSend => exact makes_linkSend req
  | linkRecv =>
    refine .service (fun _ => rfl) rfl fun r s' => .orFail_bind r fun bytes => ?_
    exact .reject fun _ => .write rfl

end

section

variable {ρ : Type} {services : Env EnvCall Answer ρ} {ram : Ram} {s : ρ} {req : SyscallRequest}
  {r : Ended EnvCall Answer SyscallError SyscallOutcome (Ram × ρ)}

def buffers (services : Env EnvCall Answer ρ) (ram : Ram) (s : ρ) (req : SyscallRequest) :
    List UserRange :=
  (Syscall.fromNumber req.number).elim [] (named services ram s req)

theorem makes_dispatch (req : SyscallRequest) :
    Makes services ram s (dispatch req) (buffers services ram s req) := by
  unfold dispatch buffers
  cases Syscall.fromNumber req.number with
  | none => exact .fail _
  | some call => exact makes_handle req call

theorem mem_buffers_iff (ran : (dispatch req).run (withUserCopies services) (ram, s) = some r)
    {range : UserRange} :
    range ∈ buffers services ram s req ↔ ∃ event ∈ r.events, rangeOf event.1 = some range := by
  rw [← makes_dispatch req r ran, mem_filterMap]

theorem failure_copyFromUser (ram : Ram) (ptr : Word) (len : Nat) :
    failure (Environment.copyFromUser ram ptr len) = refusal ptr len := by
  unfold Environment.copyFromUser
  cases refusal ptr len with
  | none | some e => rfl

theorem failure_copyToUser (ram : Ram) (ptr : Word) (bytes : List Byte) :
    failure (copyToUser ram ptr bytes).1 = refusal ptr bytes.length := by
  unfold copyToUser
  cases refusal ptr bytes.length with
  | none | some e => rfl

theorem errorOf_copy (ran : (dispatch req).run (withUserCopies services) (ram, s) = some r)
    {event : Event}
    (mem : event ∈ r.events) {range : UserRange} (copies : rangeOf event.1 = some range) :
    errorOf event.1 event.2 = refusal range.ptr range.len := by
  obtain ⟨q, a⟩ := event
  obtain ⟨s1, s2, hanswer⟩ := run_answered ran _ mem
  cases q with
  | copyFromUser boundary ptr len =>
    cases copies
    cases hanswer
    exact failure_copyFromUser s1.1 ptr len
  | copyToUser boundary ptr bytes =>
    cases copies
    cases hanswer
    exact failure_copyToUser s1.1 ptr bytes
  | _ => cases copies

/-- What a copy keeps to: its range is mapped for the user, or it is refused before a byte of it is
touched and the call returns the error. -/
def Keeps (m : AddressSpaceManager) (req : SyscallRequest)
    (r : Ended EnvCall Answer SyscallError SyscallOutcome (Ram × ρ)) (event : Event)
    (range : UserRange) : Prop :=
  range.Mapped m req.boundary ∨ ∃ e, (e = .badAddress ∨ e = .invalidArgument) ∧
    errorOf event.1 event.2 = some e ∧ returned r.outcome = some (.ret (asReturn e))

/-- A call keeps to its caller's memory exactly if the caller has mapped every buffer it names that
is neither null nor too long for the address space. -/
theorem dispatch_confined_iff (m : AddressSpaceManager)
    (ran : (dispatch req).run (withUserCopies services) (ram, s) = some r) :
    (∀ event ∈ r.events, ∀ range, rangeOf event.1 = some range → Keeps m req r event range) ↔
      ∀ range ∈ buffers services ram s req, range.ptr ≠ 0 →
        range.ptr.toNat + range.len < wordBound →
        range.Mapped m req.boundary := by
  constructor
  · intro hkeeps range hrange hnull hlong
    obtain ⟨event, hmem, hcopies⟩ := (mem_buffers_iff ran).mp hrange
    rcases hkeeps event hmem range hcopies with hmapped | ⟨e, -, herror, -⟩
    · exact hmapped
    · rw [errorOf_copy ran hmem hcopies, refusal_eq_none.mpr ⟨hnull, hlong⟩] at herror
      cases herror
  · intro hmapped event hmem range hcopies
    rcases hrefusal : refusal range.ptr range.len with _ | e
    · obtain ⟨hnull, hlong⟩ := refusal_eq_none.mp hrefusal
      exact .inl (hmapped range ((mem_buffers_iff ran).mpr ⟨event, hmem, hcopies⟩) hnull hlong)
    · have herror := (errorOf_copy ran hmem hcopies).trans hrefusal
      have houtcome := (Upholds.sound (genuine_dispatch req) ran).2.1 event hmem e herror
      exact .inr ⟨e, refusal_error hrefusal, herror, by rw [houtcome]; rfl⟩

def uniformSpace (entry : Entry) : AddressSpaceManager where
  machine := { blankMachine with mem := fun _ _ => entry }
  spaces boundary := if boundary = ⟨1⟩ then some
    ⟨⟨0, Nat.two_pow_pos 64, Nat.zero_mod _⟩, []⟩ else none

def noServices : Env EnvCall Answer Unit := fun q s => some (defaultAnswer q, s)

def logByte : SyscallRequest := ⟨1, 4096, 1, 0, 1⟩

/-- Where every entry is present, writable and open to user code, the call keeps to its caller's memory. -/
theorem dispatch_confined_mapped : ∃ r, (dispatch logByte).run (withUserCopies noServices)
    (fun _ => 65, ()) = some r ∧
    returned r.outcome = some (.ret 0) ∧ ∀ event ∈ r.events, ∀ range, rangeOf event.1 = some range →
      Keeps (uniformSpace (present ||| writable ||| userBit)) logByte r event range := by
  obtain ⟨r, hran⟩ : ∃ r, (dispatch logByte).run (withUserCopies noServices)
    (fun _ => 65, ()) = some r := ⟨_, rfl⟩
  refine ⟨r, hran, ?_, (dispatch_confined_iff _ hran).mpr ?_⟩
  · cases hran
    rfl
  · intro range hrange _ _ i hi
    obtain rfl : range = ⟨.read, 4096, 1⟩ := mem_singleton.mp hrange
    obtain rfl : i = 0 := lt_one_iff.mp hi
    exact ⟨.inl (by decide), _, rfl, by decide⟩

/-- A caller that has nothing mapped gets the byte at 4096 written to the console all the same. -/
theorem log_unmapped : ∃ r, (dispatch logByte).run (withUserCopies noServices)
    (fun _ => 65, ()) = some r ∧
    returned r.outcome = some (.ret 0) ∧ (∃ event ∈ r.events, event.1 = .consoleWrite [65]) ∧
    ∃ event ∈ r.events, rangeOf event.1 = some ⟨.read, 4096, 1⟩ ∧
      ¬ Keeps (uniformSpace 0) logByte r event ⟨.read, 4096, 1⟩ := by
  refine ⟨_, rfl, rfl, ⟨_, mem_cons_of_mem _ mem_cons_self, rfl⟩, _, mem_cons_self, rfl, ?_⟩
  rintro (hmapped | ⟨e, -, herror, -⟩)
  · obtain ⟨-, space, hspace, hwalk⟩ := hmapped 0 (by decide)
    cases hspace
    exact absurd hwalk (by decide)
  · cases herror

end

end CibosPlatform.KernelImage.UserMemory

/- source: cibos-sdk/src/channel.rs, cibos-sdk/src/system.rs, shared/src/types/isolation.rs
   digest: The channels a container counts as open, and the limit they are checked against. -/

import CibosPlatform.Sdk.Channel

namespace CibosPlatform.Sdk.Ceiling

open Core Events LittleEndian List Option
open Kernel.Channel.Queue (ChannelInner)
open Channel Shared.Ipc Function

inductive ChannelRole where
  | localPair
  | outbound
  | inbound
  deriving DecidableEq

structure SideGuard where
  role : ChannelRole
  handles : Nat
  released : Bool

structure Account where
  sides : List SideGuard
  count : ChannelRole → Nat

inductive HandleCall where
  | clone
  | close
  | drop
  deriving DecidableEq

inductive Op where
  | newLocal (id : ChannelId) (capacity : Nat)
  | request (id : ChannelId) (purpose : List Byte) (capacity : Nat)
  | accept
  | handle (side : Nat) (call : HandleCall)
  deriving DecidableEq

inductive Reply where
  | refused (error : ChannelError)
  | opened (side : Nat)
  | done

namespace Account

def empty : Account := ⟨[], fun _ => 0⟩

def endpoint (role : ChannelRole) (handles : Nat) (a : Account) : Reply × Account :=
  (.opened a.sides.length,
    ⟨a.sides ++ [⟨role, handles, false⟩], update a.count role (a.count role + 1)⟩)

/-- A handle of the side goes; `release` is the guard's call of that name, which counts once. -/
def giveBack (i : Nat) (side : SideGuard) (release : Bool) (a : Account) : Account where
  sides := a.sides.set i ⟨side.role, side.handles - 1, side.released || release⟩
  count := if release ∧ side.released = false then update a.count side.role (a.count side.role - 1)
    else a.count

/-- A call on one of the handles of a side: closing releases the side at once, dropping when the handle was
the last one. -/
def onHandle (i : Nat) (side : SideGuard) (a : Account) : HandleCall → Account
  | .clone => { a with sides := a.sides.set i { side with handles := side.handles + 1 } }
  | .close => a.giveBack i side true
  | .drop => a.giveBack i side (side.handles = 1)

def total (a : Account) : Nat := a.count .localPair + a.count .outbound + a.count .inbound

end Account

def opening (role : ChannelRole) (handles : Nat) (a : Account) : Except ChannelError ChannelInner → Reply × Account
  | .error error => (.refused error, a)
  | .ok _ => a.endpoint role handles

/-- Only `new_local` and `request` look at the limit, each at its own counter. -/
def step (maxChannels : Nat) (op : Op) (a : Account) : Option (Reply × Account) :=
  match op with
  | .newLocal id capacity =>
    some (opening .localPair 2 a (openSignal id localPurpose capacity (a.count .localPair) maxChannels))
  | .request id purpose capacity =>
    some (opening .outbound 1 a (openSignal id purpose capacity (a.count .outbound) maxChannels))
  | .accept => some (a.endpoint .inbound 1)
  | .handle i call => do
    let side ← a.sides[i]?
    if 0 < side.handles then some (.done, a.onHandle i side call) else none

def openSides (role : ChannelRole) (events : List (Op × Reply)) (a : Account) : Nat :=
  a.sides.zipIdx.countP fun e =>
    e.1.role = role ∧ 0 < e.1.handles ∧ .handle e.2 .close ∉ events.map Prod.fst

structure WithinCeiling (maxChannels : Nat) (events : List (Op × Reply)) (a : Account) : Prop where
  counted : ∀ role, a.count role = openSides role events a
  bounded : a.total ≤ maxChannels

def HasRoom (maxChannels : Nat) (a : Account) : Op → Prop
  | .newLocal _ capacity => 1 ≤ capacity ∧ capacity ≤ maxLocalBuffer → a.count .localPair < maxChannels →
      a.total < maxChannels
  | .request _ purpose capacity => 1 ≤ capacity ∧ capacity ≤ maxLocalBuffer →
      purpose.length ≤ maxChannelPurpose → a.count .outbound < maxChannels → a.total < maxChannels
  | .accept => a.total < maxChannels
  | .handle _ _ => True

section

variable {maxChannels : Nat} {events : List (Op × Reply)} {a a' : Account} {op : Op} {reply : Reply}

inductive Stepped (maxChannels : Nat) (a : Account) (op : Op) : Reply → Account → Prop
  | refused {error : ChannelError} (room : HasRoom maxChannels a op) (opens : ∀ i call, op ≠ .handle i call) :
      Stepped maxChannels a op (.refused error) a
  | opened {role : ChannelRole} {handles : Nat} (room : HasRoom maxChannels a op ↔ a.total < maxChannels)
      (live : 0 < handles) (opens : ∀ i call, op ≠ .handle i call) :
      Stepped maxChannels a op (.opened a.sides.length) (a.endpoint role handles).2
  | handle {i : Nat} {side : SideGuard} {call : HandleCall} (made : op = .handle i call)
      (present : a.sides[i]? = some side) (live : 0 < side.handles) :
      Stepped maxChannels a op .done (a.onHandle i side call)

private theorem stepped_opening {id : ChannelId} {purpose : List Byte} {capacity inUse : Nat} {role : ChannelRole}
    {handles : Nat} (live : 0 < handles) (opens : ∀ i call, op ≠ .handle i call)
    (room : HasRoom maxChannels a op ↔ ((1 ≤ capacity ∧ capacity ≤ maxLocalBuffer) ∧
      purpose.length ≤ maxChannelPurpose ∧ inUse < maxChannels → a.total < maxChannels))
    (h : some (opening role handles a (openSignal id purpose capacity inUse maxChannels)) = some (reply, a')) :
    Stepped maxChannels a op reply a' := by
  rcases hsignal : openSignal id purpose capacity inUse maxChannels with error | signal
  · rw [hsignal] at h
    cases h
    refine .refused (room.mpr ?_) opens
    rintro ⟨hcapacity, hshort, hcount⟩
    have hopened : openSignal id purpose capacity inUse maxChannels = .ok _ :=
      openSignal_eq_ok.mpr ⟨hcapacity, hcount, hshort, rfl⟩
    cases hsignal.symm.trans hopened
  · rw [hsignal] at h
    cases h
    obtain ⟨hcapacity, hcount, hshort, -⟩ := openSignal_eq_ok.mp hsignal
    exact .opened (room.trans ⟨fun all => all ⟨hcapacity, hshort, hcount⟩, fun total _ => total⟩) live opens

theorem stepped_of_step (h : step maxChannels op a = some (reply, a')) : Stepped maxChannels a op reply a' := by
  cases op with
  | newLocal id capacity =>
    have hshort : localPurpose.length ≤ maxChannelPurpose := by decide
    exact stepped_opening (by decide) (by simp) (by simp [HasRoom, hshort]) h
  | request id purpose capacity => exact stepped_opening (by decide) (by simp) (by simp [HasRoom]) h
  | accept =>
    cases h
    exact .opened Iff.rfl (by decide) (by simp)
  | handle i call =>
    simp only [step, bind_eq_bind, bind_eq_some_iff, ite_none_right_eq_some] at h
    obtain ⟨side, hside, hlive, heq⟩ := h
    cases heq
    exact .handle rfl hside hlive

/-- A side is released exactly when it is no longer open, and the counters count those that are not. -/
structure Kept (events : List (Op × Reply)) (a : Account) : Prop where
  released : ∀ i side, a.sides[i]? = some side →
    (side.released = false ↔ 0 < side.handles ∧ .handle i .close ∉ events.map Prod.fst)
  counted : ∀ role, a.count role = a.sides.countP fun side => side.role = role ∧ side.released = false
  closes : ∀ i, .handle i .close ∈ events.map Prod.fst → i < a.sides.length

variable (h : Kept events a)

include h

theorem Kept.openSides_eq (role : ChannelRole) : openSides role events a = a.count role := by
  rw [h.counted, openSides, ← zipIdx_map_fst 0 a.sides, countP_map, zipIdx_map_fst]
  refine countP_congr fun e he => ?_
  have hside := h.released e.2 e.1 (by simpa using mk_mem_zipIdx_iff_getElem?.mp he)
  simp [hside]

private theorem Kept.change {i : Nat} {side : SideGuard} {call : HandleCall} (present : a.sides[i]? = some side)
    (live : 0 < side.handles) (handles : Nat) (released : Bool)
    (exact : released = false ↔ side.released = false ∧ 0 < handles ∧ call ≠ .close)
    (changed : a' = ⟨a.sides.set i ⟨side.role, handles, released⟩,
      if released = true ∧ side.released = false then update a.count side.role (a.count side.role - 1)
      else a.count⟩) :
    Kept (events ++ [(.handle i call, reply)]) a' := by
  subst changed
  obtain ⟨hreleased, hcounted, hcloses⟩ := h
  obtain ⟨hlt, hside⟩ := List.getElem?_eq_some_iff.mp present
  refine ⟨?_, ?_, by grind⟩
  · intro j other hother
    grind
  · intro role
    rw [countP_set hlt, hside]
    have hpos : side.released = false → 0 < a.sides.countP fun s => s.role = side.role ∧ s.released = false :=
      fun hopen => countP_pos_iff.mpr ⟨side, mem_of_getElem? present, by simp [hopen]⟩
    rw [← hcounted role]
    grind

theorem Kept.step (stepped : Stepped maxChannels a op reply a') :
    Kept (events ++ [(op, reply)]) a' := by
  cases stepped with
  | refused room opens =>
    obtain ⟨hreleased, hcounted, hcloses⟩ := h
    exact ⟨by grind, hcounted, by grind⟩
  | @opened role handles room live opens =>
    obtain ⟨hreleased, hcounted, hcloses⟩ := h
    refine ⟨?_, ?_, ?_⟩
    · intro i side hside
      have hclosed : .handle a.sides.length .close ∉ events.map Prod.fst := fun hmem => lt_irrefl _ (hcloses _ hmem)
      simp only [Account.endpoint] at hside
      grind
    · intro other
      have hold := hcounted other
      by_cases hrole : role = other
      · simp [Account.endpoint, hrole, hold]
      · simp [Account.endpoint, hrole, hold, update_of_ne (Ne.symm hrole)]
    · simp only [Account.endpoint]
      grind
  | @handle i side call made present live =>
    subst made
    cases call with
    | clone => exact h.change present live (side.handles + 1) side.released (by simp) (by simp [Account.onHandle])
    | close => exact h.change present live (side.handles - 1) true (by simp) (by simp [Account.onHandle, Account.giveBack])
    | drop =>
      refine h.change present live (side.handles - 1) (side.released || decide (side.handles = 1)) ?_ ?_
      · simp
        omega
      · simp [Account.onHandle, Account.giveBack]
        grind

theorem Kept.withinCeiling_iff : WithinCeiling maxChannels events a ↔ a.total ≤ maxChannels :=
  ⟨WithinCeiling.bounded, fun bounded => ⟨fun role => (h.openSides_eq role).symm, bounded⟩⟩

omit h

theorem kept_empty : Kept [] .empty := ⟨by simp [Account.empty], by simp [Account.empty], by simp⟩

theorem kept_of_run (h : Run (step maxChannels) .empty events a) : Kept events a := by
  induction h with
  | start => exact kept_empty
  | next _ taken ih => exact ih.step (stepped_of_step taken)

theorem total_le_iff (stepped : Stepped maxChannels a op reply a') (before : a.total ≤ maxChannels) :
    a'.total ≤ maxChannels ↔ HasRoom maxChannels a op := by
  cases stepped with
  | refused room opens => exact ⟨fun _ => room, fun _ => before⟩
  | @opened role handles room live opens =>
    rw [room]
    cases role <;> simp [Account.endpoint, Account.total] <;> omega
  | @handle i side call made present live =>
    subst made
    refine ⟨fun _ => trivial, fun _ => le_trans ?_ before⟩
    have hle : ∀ role, (a.onHandle i side call).count role ≤ a.count role := by
      intro role
      cases call <;> simp only [Account.onHandle, Account.giveBack] <;> grind
    exact Nat.add_le_add (Nat.add_le_add (hle _) (hle _)) (hle _)

/-- The counters are the numbers of open channels. Their sum stays within the limit exactly as long
as every channel is opened while it is below the limit. -/
theorem channel_ceiling_iff (h : Run (step maxChannels) .empty events a) :
    Through (step maxChannels) .empty (WithinCeiling maxChannels) events ↔
      Meets (step maxChannels) .empty (fun _ => HasRoom maxChannels) events := by
  refine h.through_iff_meets (kept_empty.withinCeiling_iff.mpr (Nat.zero_le _)) ?_
  intro pre a op reply a' hrun hbefore taken
  rw [(kept_of_run (hrun.next taken)).withinCeiling_iff]
  exact total_le_iff (stepped_of_step taken) hbefore.bounded

end

/-- Two channels at a time in a container that may have two. -/
theorem channel_ceiling_iff_two : ∃ events a, Run (step 2) .empty events a ∧ events.length = 6 ∧
    Through (step 2) .empty (WithinCeiling 2) events := by
  have hrun : Run (step 2) .empty
    [(.newLocal 1 4, .opened 0), (.request 2 [] 8, .opened 1), (.handle 0 .drop, .done), (.handle 0 .close, .done),
      (.accept, .opened 2), (.handle 1 .drop, .done)] _ := .eval rfl
  refine ⟨_, _, hrun, rfl, (channel_ceiling_iff hrun).mpr ?_⟩
  exact (((((meets_nil.next .start fun _ _ => by decide).next (.eval rfl) fun _ _ _ => by decide).next
    (.eval rfl) trivial).next (.eval rfl) trivial).next (.eval rfl)
      (show Account.total _ < 2 by decide)).next (.eval rfl) trivial

/-- A container that may have one channel has one of each kind. -/
theorem three_channels_where_one_is_allowed : ∃ events a, Run (step 1) .empty events a ∧
    events = [(.newLocal 1 4, .opened 0), (.request 2 [] 8, .opened 1), (.accept, .opened 2)] ∧
    a.total = 3 ∧ ¬ WithinCeiling 1 events a := by
  exact ⟨_, _, .eval rfl, rfl, rfl, fun within => absurd within.bounded (by decide)⟩

end CibosPlatform.Sdk.Ceiling

/- source: cibos-kernel/src/sync.rs, cibos-sync/src/lib.rs
   digest: The spin lock: in every interleaving the parts under it run one after the other. -/

import Mathlib.Data.List.Basic
import Mathlib.Logic.Function.Basic

namespace CibosPlatform.Kernel.Sync

open Function

structure SpinLock (T : Type) where
  locked : Bool
  value : T

namespace SpinLock

variable {T : Type}

def new (value : T) : SpinLock T := ⟨false, value⟩

/-- `compare_exchange_weak(false, true)`, which may fail although the flag is `false`. -/
def compareExchangeWeak (spurious : Bool) (lock : SpinLock T) : Bool × SpinLock T :=
  if lock.locked || spurious then (false, lock) else (true, { lock with locked := true })

def release (lock : SpinLock T) : SpinLock T := { lock with locked := false }

end SpinLock

abbrev Access (L T : Type) := L → T → L × T

abbrev Part (L T : Type) := List (Access L T)

/-- Contexts that share a lock: the parts each has still to run under it, and what is left of the one it is in. -/
structure Contexts (ι L T : Type) where
  lock : SpinLock T
  locals : ι → L
  waiting : ι → List (Part L T)
  guard : ι → Option (Part L T)

inductive Move (ι : Type) where
  | exchange (i : ι) (spurious : Bool)
  | access (i : ι)
  | drop (i : ι)

variable {ι L T : Type} [DecidableEq ι]

def step (s : Contexts ι L T) : Move ι → Contexts ι L T
  | .exchange i spurious =>
    match s.guard i, s.waiting i with
    | none, part :: later =>
      match s.lock.compareExchangeWeak spurious with
      | (true, lock) => ⟨lock, s.locals, update s.waiting i later, update s.guard i (some part)⟩
      | (false, _) => s
    | _, _ => s
  | .access i =>
    match s.guard i with
    | some (access :: rest) =>
      let r := access (s.locals i) s.lock.value
      ⟨{ s.lock with value := r.2 }, update s.locals i r.1, s.waiting, update s.guard i (some rest)⟩
    | _ => s
  | .drop i =>
    match s.guard i with
    | some [] => { s with lock := s.lock.release, guard := update s.guard i none }
    | _ => s

def start (parts : ι → List (Part L T)) (value : T) (locals : ι → L) : Contexts ι L T :=
  ⟨.new value, locals, parts, fun _ => none⟩

def perform (m : T × (ι → L)) (part : ι × Part L T) : T × (ι → L) :=
  part.2.foldl (fun m access =>
    let r := access (m.2 part.1) m.1
    (r.2, update m.2 part.1 r.1)) m

/-- The lock is free and all is as in `m`, or one context holds it and what is left of its part leads to `m`. -/
inductive Leads (m : T × (ι → L)) (s : Contexts ι L T) : Prop
  | free (unlocked : s.lock.locked = false) (guards : s.guard = fun _ =>
    none) (done : (s.lock.value, s.locals) = m)
  | held (i : ι) (rest : Part L T) (locked : s.lock.locked = true)
      (guards : s.guard = update (fun _ => none) i (some rest))
      (todo : perform (s.lock.value, s.locals) (i, rest) = m)

/-- The parts were entered one after the other, each context's own in their order and none twice. -/
def Serial (parts : ι → List (Part L T)) (m0 : T × (ι → L)) (s : Contexts ι L T) : Prop :=
  ∃ entered : List (ι × Part L T),
    (∀ i, parts i = (entered.filter (·.1 = i)).map Prod.snd ++ s.waiting i) ∧
    Leads (entered.foldl perform m0) s

variable {parts : ι → List (Part L T)} {m m0 : T × (ι → L)} {s : Contexts ι L T}

theorem Leads.of_guard {i : ι} {rest : Part L T} (h : Leads m s) (guard : s.guard i = some rest) :
    s.lock.locked = true ∧ s.guard = update (fun _ => none) i (some rest) ∧
      perform (s.lock.value, s.locals) (i, rest) = m := by
  cases h with
  | free unlocked guards done =>
    rw [guards] at guard
    cases guard
  | held j rest' locked guards todo =>
    obtain rfl : i = j := by
      by_contra hother
      rw [guards, update_of_ne hother] at guard
      cases guard
    rw [guards, update_self, Option.some.injEq] at guard
    subst guard
    exact ⟨locked, guards, todo⟩

theorem Serial.step (h : Serial parts m0 s) (move : Move ι) : Serial parts m0 (step s move) := by
  obtain ⟨entered, hparts, hleads⟩ := h
  have hsame : Serial parts m0 s := ⟨entered, hparts, hleads⟩
  cases move with
  | exchange i spurious =>
    simp only [Sync.step, SpinLock.compareExchangeWeak]
    split
    · rename_i part later hguard hwaiting
      by_cases htaken : s.lock.locked || spurious
      · rwa [if_pos htaken]
      rw [if_neg htaken]
      cases hleads with
      | held j rest locked => simp [locked] at htaken
      | free unlocked guards done =>
        -- The part is entered here, though all its accesses are still to come.
        refine ⟨entered ++ [(i, part)], fun j => ?_, .held i part rfl (by rw [guards]) ?_⟩
        · rw [hparts j, List.filter_append, List.map_append, List.append_assoc]
          by_cases hself : i = j
          · subst hself
            simp [hwaiting]
          · simp [hself, update_of_ne (Ne.symm hself)]
        · rw [List.foldl_append, ← done]
          rfl
    · exact hsame
  | access i =>
    simp only [Sync.step]
    split
    · rename_i access rest hguard
      obtain ⟨locked, guards, todo⟩ := hleads.of_guard hguard
      exact ⟨entered, hparts, .held i rest locked (by rw [guards, update_idem]) todo⟩
    · exact hsame
  | drop i =>
    simp only [Sync.step]
    split
    · rename_i hguard
      obtain ⟨-, guards, todo⟩ := hleads.of_guard hguard
      exact ⟨entered, hparts, .free rfl (by rw [guards, update_idem, update_eq_self]) todo⟩
    · exact hsame

/-- However the accesses interleave, one context at most is in a part under the lock, the flag tells
whether one is, and the value and the locals are what parts run one by one lead to. -/
theorem spinLock_serial (parts : ι → List (Part L T)) (value : T) (locals : ι → L)
    (schedule : List (Move ι)) :
    Serial parts (value, locals) (schedule.foldl step (start parts value locals)) := by
  have hrun : ∀ s : Contexts ι L T, Serial parts (value, locals) s →
      Serial parts (value, locals) (schedule.foldl step s) := by
    induction schedule with
    | nil => exact fun s => id
    | cons move schedule ih => exact fun s h => ih _ (h.step move)
  exact hrun _ ⟨[], fun _ => rfl, .free rfl rfl rfl⟩

end CibosPlatform.Kernel.Sync

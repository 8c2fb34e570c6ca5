/- source: cibos-kernel/src/entropy.rs, cibos-kernel/src/selector.rs
   digest: The hash-counter generator, and weighted sampling of the ready lanes without replacement. -/

import CibosPlatform.Shared.Ipc
import Mathlib.Data.List.Perm.Basic

/-! Rejection sampling has no bound on the words it draws, so a draw is taken with a number of tries; one that
has not returned within them is `none`. -/

namespace CibosPlatform.Kernel.Scheduler.Entropy

open Core LittleEndian MachineWord

abbrev Digest256 := Vector Byte 32

abbrev Hash := List Byte → Digest256

abbrev zeros : Hash := fun _ => Vector.replicate 32 0

structure Csprng where
  key : Vector Byte 32
  counter : Nat
  block : Digest256
  blockPos : Nat

namespace Csprng

variable (hash : Hash)

def refill (rng : Csprng) : Csprng :=
  { rng with
    block := hash (rng.key.toList ++ toLE 8 rng.counter)
    counter := (rng.counter + 1) % wordBound
    blockPos := 0 }

def fromSeed (seed : Vector Byte 32) : Csprng := refill hash ⟨seed, 0, Vector.replicate 32 0, 32⟩

def nextU8 (rng : Csprng) : Byte × Csprng :=
  if h : rng.blockPos < 32 then (rng.block[rng.blockPos], { rng with blockPos := rng.blockPos + 1 })
  else ((rng.refill hash).block[0], { rng.refill hash with blockPos := 1 })

def fillBytes : Nat → Csprng → List Byte × Csprng
  | 0, rng => ([], rng)
  | count + 1, rng =>
    let first := rng.nextU8 hash
    let rest := fillBytes count first.2
    (first.1 :: rest.1, rest.2)

def nextU64 (rng : Csprng) : Nat × Csprng :=
  let bytes := fillBytes hash 8 rng
  (ofLE bytes.1, bytes.2)

/-- Words from here on are drawn again, so that the others are a multiple of `bound`. -/
def zone (bound : Nat) : Nat := wordBound - 1 - (wordBound - 1) % bound

def drawBounded (bound : Nat) : Nat → Csprng → Option (Nat × Csprng)
  | 0, _ => none
  | tries + 1, rng =>
    let word := rng.nextU64 hash
    if word.1 < zone bound then some (word.1 % bound, word.2) else drawBounded bound tries word.2

def nextBounded (tries bound : Nat) (rng : Csprng) : Option (Nat × Csprng) :=
  if bound = 0 then none else drawBounded hash bound tries rng

end Csprng

end CibosPlatform.Kernel.Scheduler.Entropy

namespace CibosPlatform.Kernel.Scheduler.Selector

open Core.MachineWord Entropy Shared.Ipc
open List hiding Vector

structure WeightedLane where
  lane : LaneId
  weight : Nat

/-- `Vec::swap_remove`: the last element takes the place of the removed one. -/
def swapRemove {α : Type} (pool : List α) (i : Nat) : List α :=
  match pool.getLast? with
  | none => []
  | some last => if i + 1 = pool.length then pool.dropLast else pool.dropLast.set i last

def ticketIndex : Nat → List (LaneId × Nat) → Option Nat
  | _, [] => none
  | ticket, (_, weight) :: rest =>
    if ticket < weight then some 0 else (ticketIndex (ticket - weight) rest).map (· + 1)

def totalWeight (build : BuildProfile) (pool : List (LaneId × Nat)) : Option Nat :=
  pool.foldlM (fun sum entry => addWord build sum entry.2) 0

def sample (hash : Hash) (build : BuildProfile) (tries : Nat) :
    Nat → List (LaneId × Nat) → Csprng → Option (List LaneId × Csprng)
  | 0, _, rng => some ([], rng)
  | _ + 1, [], rng => some ([], rng)
  | count + 1, first :: others, rng => do
    let pool := first :: others
    let total ← totalWeight build pool
    let (ticket, rng) ← rng.nextBounded hash tries total
    let picked := (ticketIndex ticket pool).getD 0
    let (lane, _) ← pool[picked]?
    let (chosen, rng) ← sample hash build tries count (swapRemove pool picked) rng
    some (lane :: chosen, rng)

def select (hash : Hash) (build : BuildProfile) (tries : Nat) (ready : List WeightedLane)
    (contexts : Nat) (rng : Csprng) : Option (List LaneId × Csprng) :=
  if contexts = 0 ∨ ready = [] then some ([], rng)
  else if ready.length ≤ contexts then some (ready.map (·.lane), rng)
  else sample hash build tries contexts (ready.map fun w => (w.lane, max w.weight 1)) rng

theorem swapRemove_perm {α : Type} {pool : List α} {i : Nat} {a : α} (h : pool[i]? = some a) :
    (a :: swapRemove pool i).Perm pool := by
  obtain ⟨hi, rfl⟩ := List.getElem?_eq_some_iff.mp h
  rcases eq_nil_or_concat pool with rfl | ⟨init, last, rfl⟩
  · simp at hi
  · simp only [concat_eq_append] at hi ⊢
    rw [swapRemove, getLast?_concat]
    simp only [length_append, length_singleton, Nat.add_right_cancel_iff, dropLast_concat]
    by_cases hlast : i = init.length
    · subst hlast
      rw [if_pos rfl, getElem_concat_length rfl]
      exact (perm_append_singleton last init).symm
    · have hinit : i < init.length := by
        rw [length_append, length_singleton] at hi
        omega
      rw [if_neg hlast, getElem_append_left hinit]
      -- the removed element and the last one change places
      have hset : (init[i] :: init.set i last).Perm (last :: init) := by
        have hplace := set_perm_cons_eraseIdx hinit last
        have herased := getElem_cons_eraseIdx_perm hinit
        exact ((hplace.cons _).trans (.swap ..)).trans (herased.cons _)
      exact hset.trans (perm_append_singleton last init).symm

theorem sample_perm {hash : Hash} {build : BuildProfile} {tries count : Nat}
    {pool : List (LaneId × Nat)} {rng rng' : Csprng} {chosen : List LaneId}
    (h : sample hash build tries count pool rng = some (chosen, rng')) :
    ∃ rest, (chosen ++ rest).Perm (pool.map Prod.fst) ∧ rest.length = pool.length - count := by
  induction count generalizing pool rng chosen with
  | zero =>
    cases h
    exact ⟨_, .refl _, length_map _⟩
  | succ count ih =>
    cases pool with
    | nil =>
      cases h
      exact ⟨[], .refl _, (Nat.zero_sub _).symm⟩
    | cons first others =>
      simp only [sample, Option.bind_eq_bind, Option.bind_eq_some_iff] at h
      obtain ⟨total, -, ⟨ticket, rng1⟩, -, ⟨lane, weight⟩, hlane, ⟨tail, rng2⟩, htail, hchosen⟩ := h
      cases hchosen
      obtain ⟨rest, hrest, hlength⟩ := ih htail
      have hpool := swapRemove_perm hlane
      refine ⟨rest, (hrest.cons lane).trans (hpool.map Prod.fst), ?_⟩
      rw [hlength, ← hpool.length_eq, length_cons, Nat.add_sub_add_right]

theorem select_perm {hash : Hash} {build : BuildProfile} {tries contexts : Nat}
    {ready : List WeightedLane} {rng rng' : Csprng} {chosen : List LaneId}
    (h : select hash build tries ready contexts rng = some (chosen, rng')) :
    ∃ rest, (chosen ++ rest).Perm (ready.map (·.lane)) := by
  rw [select] at h
  split at h
  · cases h
    exact ⟨_, .refl _⟩
  · split at h
    · cases h
      exact ⟨[], by rw [append_nil]⟩
    · obtain ⟨rest, hrest, -⟩ := sample_perm h
      refine ⟨rest, ?_⟩
      rwa [map_map] at hrest

end CibosPlatform.Kernel.Scheduler.Selector

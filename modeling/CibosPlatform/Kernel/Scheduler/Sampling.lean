/- source: cibos-kernel/src/selector.rs, cibos-kernel/src/entropy.rs
   digest: The shares of the lanes among the words a draw accepts. -/

import CibosPlatform.Kernel.Scheduler.Selector
import Mathlib.Data.Nat.Count
import Mathlib.Algebra.Order.BigOperators.Group.List

namespace CibosPlatform.Kernel.Scheduler.Sampling

open Core.MachineWord Entropy Selector Shared.Ipc List Option Csprng Nat

def clamped (ready : List WeightedLane) : List (LaneId × Nat) := ready.map fun w => (w.lane, max w.weight 1)

inductive Remaining (pool0 : List (LaneId × Nat)) : List (LaneId × Nat) → Prop
  | start : Remaining pool0 pool0
  | drawn {pool : List (LaneId × Nat)} {i : Nat} (before : Remaining pool0 pool) (inside : i < pool.length) :
      Remaining pool0 (swapRemove pool i)

def pick (total : Nat) (pool : List (LaneId × Nat)) (word : Nat) : Nat := (ticketIndex (word % total) pool).getD 0

/-- How many of the accepted words, which are those below `zone`, pick an index. -/
def picking (total : Nat) (pool : List (LaneId × Nat)) (i : Nat) : Nat :=
  count (fun word => pick total pool word = i) (zone total)

def weights (pool : List (LaneId × Nat)) : Nat := (pool.map Prod.snd).sum

variable {pool pool0 : List (LaneId × Nat)} {i total : Nat} {lane : LaneId} {weight : Nat}

theorem totalWeight_of_lt (build : BuildProfile) (fits : weights pool < wordBound) :
    totalWeight build pool = some (weights pool) := by
  have hfold : ∀ (pool : List (LaneId × Nat)) sum, sum + weights pool < wordBound →
      pool.foldlM (addWord build · ·.2) sum = some (sum + weights pool) := by
    intro pool
    induction pool with
    | nil => exact fun sum _ => rfl
    | cons entry rest ih =>
      intro sum hsum
      rw [weights, map_cons, sum_cons, ← add_assoc] at hsum ⊢
      rw [foldlM_cons, addWord_of_lt build (lt_of_le_of_lt (le_add_right _ _) hsum)]
      exact ih _ hsum
  rw [totalWeight, hfold pool 0 (by rwa [zero_add]), zero_add]

theorem totalWeight_release (pool : List (LaneId × Nat)) :
    totalWeight .release pool = some (weights pool % wordBound) := by
  have hfold : ∀ (pool : List (LaneId × Nat)) sum, sum < wordBound →
      pool.foldlM (addWord .release · ·.2) sum = some ((sum + weights pool) % wordBound) := by
    intro pool
    induction pool with
    | nil => exact fun sum hsum => by rw [weights, map_nil, sum_nil, add_zero, mod_eq_of_lt hsum]; rfl
    | cons entry rest ih =>
      intro sum _
      rw [weights, map_cons, sum_cons, foldlM_cons, addWord_release, ← add_assoc]
      refine (ih _ (mod_lt _ (by decide))).trans ?_
      rw [mod_add_mod]
      rfl
  rw [totalWeight, hfold pool 0 (by decide), zero_add]

theorem Remaining.perm (h : Remaining pool0 pool) : ∃ gone, (gone ++ pool).Perm pool0 := by
  induction h with
  | start => exact ⟨[], .refl _⟩
  | @drawn pool i before inside ih =>
    obtain ⟨gone, hgone⟩ := ih
    refine ⟨gone ++ [pool[i]], .trans ?_ hgone⟩
    rw [append_assoc]
    exact (swapRemove_perm (getElem?_eq_getElem inside)).append_left gone

theorem Remaining.weights_le (h : Remaining pool0 pool) : weights pool ≤ weights pool0 := by
  obtain ⟨gone, hgone⟩ := h.perm
  rw [weights, weights, ← (hgone.map Prod.snd).sum_eq, map_append, sum_append]
  exact le_add_left _ _

theorem exists_ticketIndex {ticket : Nat} (h : ticket < weights pool) :
    ∃ j < pool.length, ticketIndex ticket pool = some j := by
  induction pool generalizing ticket with
  | nil => simp [weights] at h
  | cons entry rest ih =>
    rw [ticketIndex]
    split
    · exact ⟨0, zero_lt_succ _, rfl⟩
    · rw [weights, map_cons, sum_cons] at h
      obtain ⟨j, hlt, hj⟩ := ih (show ticket - entry.2 < weights rest by rw [weights]; omega)
      exact ⟨j + 1, succ_lt_succ hlt, by rw [hj]; rfl⟩

theorem count_ticketIndex (entry : pool[i]? = some (lane, weight)) :
    count (ticketIndex · pool = some i) (weights pool) = weight := by
  induction pool generalizing i with
  | nil => simp at entry
  | cons first rest ih =>
    have hshift : ∀ k, ticketIndex (first.2 + k) (first :: rest) = (ticketIndex k rest).map (· + 1) := by
      intro k
      rw [ticketIndex, if_neg (not_lt.mpr (Nat.le_add_right _ _)), Nat.add_sub_cancel_left]
    rw [weights, map_cons, sum_cons, count_add]
    simp only [hshift]
    cases i with
    | zero =>
      obtain rfl : first = (lane, weight) := by simpa using entry
      have hall : count (fun ticket => ticketIndex ticket ((lane, weight) :: rest) = some 0) weight = weight :=
        count_iff_forall.mpr fun ticket hlt => by rw [ticketIndex, if_pos hlt]
      simp [hall]
    | succ i =>
      have hnone : count (fun ticket => ticketIndex ticket (first :: rest) = some (i + 1)) first.2 = 0 := by
        rw [count_iff_forall_not]
        intro ticket hlt
        simp [ticketIndex, hlt]
      rw [hnone, zero_add]
      simpa [map_eq_some_iff, weights] using ih (i := i) (by simpa using entry)

theorem count_mod (p : Nat → Prop) [DecidablePred p] (total n : Nat) :
    count (fun word => p (word % total)) (n * total) = n * count (fun word => p (word % total)) total := by
  induction n with
  | zero => simp
  | succ n ih =>
    rw [add_mul, one_mul, count_add, ih, add_mul, one_mul]
    simp only [mul_add_mod']

theorem zone_eq (total : Nat) : zone total = (wordBound - 1) / total * total := by
  rw [zone, Nat.sub_eq_of_eq_add]
  rw [mul_comm, div_add_mod]

theorem exists_word {hash : Hash} {tries ticket : Nat} {rng rng' : Csprng}
    (h : rng.nextBounded hash tries total = some (ticket, rng')) : ∃ word < zone total, ticket = word % total := by
  rw [nextBounded, ite_none_left_eq_some] at h
  obtain ⟨-, h⟩ := h
  induction tries generalizing rng with
  | zero => cases h
  | succ tries ih =>
    rw [drawBounded] at h
    split at h
    · rename_i hlt
      exact ⟨_, hlt, (congrArg Prod.fst (some.inj h)).symm⟩
    · exact ih h

theorem picking_mul (h : pool[i]? = some (lane, weight)) (positive : 0 < weights pool) :
    picking (weights pool) pool i * weights pool = zone (weights pool) * weight := by
  have hpick : ∀ word, pick (weights pool) pool word = i ↔ ticketIndex (word % weights pool) pool = some i := by
    intro word
    obtain ⟨j, -, hj⟩ := exists_ticketIndex (mod_lt word positive)
    rw [pick, hj, getD_some, some.injEq]
  have hcount : count (fun word => ticketIndex (word % weights pool) pool = some i) (weights pool) = weight := by
    rw [← count_ticketIndex h, count_eq_card_filter_range, count_eq_card_filter_range]
    congr 1
    refine Finset.filter_congr fun word hword => ?_
    rw [mod_eq_of_lt (Finset.mem_range.mp hword)]
  simp only [picking, hpick]
  rw [zone_eq, count_mod (ticketIndex · pool = some i), hcount]
  ring

/-- In every draw over a pool whose weights add up to a word, the accepted words are shared out in proportion
to the weights. -/
theorem draw_unbiased (build : BuildProfile) {ready : List WeightedLane} (fits : weights (clamped ready) < wordBound)
    (remaining : Remaining (clamped ready) pool) (entry : pool[i]? = some (lane, weight)) :
    totalWeight build pool = some (weights pool) ∧ zone (weights pool) < wordBound ∧
    (∃ w ∈ ready, w.lane = lane ∧ weight = max w.weight 1) ∧
    (∀ hash tries rng ticket rng', nextBounded hash tries (weights pool) rng = some (ticket, rng') →
      ∃ word < zone (weights pool), ticket = word % weights pool) ∧
    picking (weights pool) pool i * weights pool = zone (weights pool) * weight := by
  obtain ⟨gone, hgone⟩ := remaining.perm
  have hmem := hgone.mem_iff.mp (mem_append_right _ (mem_of_getElem? entry))
  obtain ⟨w, hw, heq⟩ := mem_map.mp hmem
  obtain ⟨rfl, rfl⟩ := Prod.mk.inj heq
  have hpositive : 0 < weights pool :=
    lt_of_lt_of_le (by simp) (single_le_sum (by simp) _ (mem_map_of_mem (mem_of_getElem? entry)))
  refine ⟨totalWeight_of_lt build (remaining.weights_le.trans_lt fits), ?_, ⟨w, hw, rfl, rfl⟩,
    fun _ _ _ _ _ => exists_word, picking_mul entry hpositive⟩
  have hword : 0 < wordBound := by decide
  rw [zone]
  omega

theorem draw_unbiased_two :
    picking (weights (clamped [⟨1, 0⟩, ⟨2, 2⟩])) (clamped [⟨1, 0⟩, ⟨2, 2⟩]) 1 * weights (clamped [⟨1, 0⟩, ⟨2, 2⟩]) =
      zone (weights (clamped [⟨1, 0⟩, ⟨2, 2⟩])) * 2 := by
  have hfits : weights (clamped [⟨1, 0⟩, ⟨2, 2⟩]) < wordBound := by decide
  obtain ⟨-, -, -, -, hshare⟩ := draw_unbiased .dev hfits .start
    (show (clamped [⟨1, 0⟩, ⟨2, 2⟩])[1]? = some (2, 2) from rfl)
  exact hshare

def crowd : List WeightedLane :=
  ⟨0, 2 ^ 32 - 1⟩ :: ⟨1, 2 ^ 32 - 1⟩ :: (List.range' 2 (2 ^ 32)).map fun i => ⟨i, 2 ^ 32 - 1⟩

/-- The total wraps around to less than one weight, and only the first lane can be picked. -/
theorem wrapped_total_biased : totalWeight .release (clamped crowd) = some (2 ^ 32 - 2) ∧
    (clamped crowd)[1]? = some (1, 2 ^ 32 - 1) ∧
    picking (2 ^ 32 - 2) (clamped crowd) 1 * (2 ^ 32 - 2) ≠ zone (2 ^ 32 - 2) * (2 ^ 32 - 1) := by
  have hweights : ∀ l : List Nat, weights (clamped (⟨0, 2 ^ 32 - 1⟩ :: ⟨1, 2 ^ 32 - 1⟩ ::
      l.map fun i => ⟨i, 2 ^ 32 - 1⟩)) = 2 ^ 32 - 1 + (2 ^ 32 - 1 + l.length * (2 ^ 32 - 1)) := by
    intro l
    simp [weights, clamped, Function.comp_def]
  refine ⟨?_, rfl, ?_⟩
  · rw [totalWeight_release, crowd, hweights, length_range']
    rfl
  · have hnone : picking (2 ^ 32 - 2) (clamped crowd) 1 = 0 := by
      refine count_iff_forall_not.mpr fun word _ => ?_
      have hlt : word % (2 ^ 32 - 2) < 2 ^ 32 - 1 := (mod_lt word (by decide)).trans (by decide)
      change ¬ (ticketIndex _ ((0, 2 ^ 32 - 1) :: _)).getD 0 = 1
      rw [ticketIndex, if_pos hlt]
      decide
    rw [hnone]
    decide

end CibosPlatform.Kernel.Scheduler.Sampling

/- source: cibos-kernel/src/selector.rs, cibos-kernel/src/scheduler.rs, cibos-kernel/src/entropy.rs
   digest: A batch has as many ready lanes as there are contexts for, and any ready lane can be in it. -/

import CibosPlatform.Kernel.Scheduler.Discipline
import CibosPlatform.Kernel.Scheduler.Sampling

namespace CibosPlatform.Kernel.Scheduler.Batches

open Core Events LittleEndian MachineWord Maps Entropy Lists Sampling Selector State SchedulerState
open Shared Config Ipc Option Csprng
open List hiding Vector

def after (hash : Hash) (n : Nat) (rng : Csprng) : Csprng := (fun r => (r.nextU64 hash).2)^[n] rng

/-- Words of the lower half, which no draw rejects, keep coming. -/
def Yields (hash : Hash) (rng : Csprng) : Prop :=
  ∀ n, ∃ k ≥ n, ((after hash k rng).nextU64 hash).1 < 2 ^ 63

structure ExactBatch (s : SchedulerState) (chosen : List LaneId) (s' : SchedulerState) : Prop where
  count : chosen.length = min s.ready.length s.executionContexts
  distinct : chosen.Nodup
  ready : ∀ lane ∈ chosen, lane ∈ s.ready
  rest : s'.ready = s.ready.filter fun lane => lane ∉ chosen

variable {hash : Hash} {build : BuildProfile} {rng rng' : Csprng} {pool : List (LaneId × Nat)}
  {total count n : Nat}

theorem Yields.next (h : Yields hash rng) : Yields hash (rng.nextU64 hash).2 := by
  intro n
  obtain ⟨k, hk, hword⟩ := h (n + 1)
  obtain ⟨k, rfl⟩ := Nat.exists_eq_add_of_le' (Nat.one_le_of_lt hk)
  exact ⟨k, Nat.le_of_succ_le_succ hk, hword⟩

theorem zone_ge (positive : 0 < total) (fits : total < wordBound) :
    total ≤ zone total ∧ 2 ^ 63 ≤ zone total := by
  have hlt := Nat.mod_lt (wordBound - 1) positive
  have hle := Nat.div_add_mod (wordBound - 1) total
  have hpos : 0 < (wordBound - 1) / total := Nat.div_pos (Nat.le_sub_one_of_lt fits) positive
  have hmul : total * 1 ≤ total * ((wordBound - 1) / total) := Nat.mul_le_mul_left _ hpos
  simp only [zone, wordBound] at *
  omega

theorem drawn_at_once (positive : 0 < total) (hword : (rng.nextU64 hash).1 < zone total) :
    ∀ tries ≥ 1, rng.nextBounded hash tries total = some
      ((rng.nextU64 hash).1 % total, (rng.nextU64 hash).2) := by
  intro tries htries
  obtain ⟨tries, rfl⟩ := Nat.exists_eq_add_of_le' htries
  rw [nextBounded, if_neg (ne_of_gt positive), drawBounded, if_pos hword]

theorem draw_returns (positive : 0 < total) (fits : total < wordBound) (h : Yields hash rng) :
    ∃ n ticket rng', ticket < total ∧ Yields hash rng' ∧
      ∀ tries ≥ n, rng.nextBounded hash tries total = some (ticket, rng') := by
  obtain ⟨k, -, hk⟩ := h 0
  induction k generalizing rng with
  | zero =>
    exact ⟨1, _, _, Nat.mod_lt _ positive, h.next,
      drawn_at_once positive (hk.trans_le (zone_ge positive fits).2)⟩
  | succ k ih =>
    by_cases hword : (rng.nextU64 hash).1 < zone total
    · exact ⟨1, _, _, Nat.mod_lt _ positive, h.next, drawn_at_once positive hword⟩
    · obtain ⟨n, ticket, rng', hticket, hyields, hdraw⟩ := ih h.next hk
      refine ⟨n + 1, ticket, rng', hticket, hyields, fun tries htries => ?_⟩
      obtain ⟨tries, rfl⟩ := Nat.exists_eq_add_of_le' (le_trans (Nat.le_add_left 1 n) htries)
      have hrest := hdraw tries (by omega)
      rw [nextBounded, if_neg (ne_of_gt positive)] at hrest ⊢
      rw [drawBounded, if_neg hword, hrest]

theorem sample_drawn {n' ticket j : Nat} {r : List LaneId × Csprng}
    (fits : weights pool < wordBound)
    (draw : ∀ tries ≥ n, rng.nextBounded hash tries (weights pool) = some (ticket, rng'))
    (index : ticketIndex ticket pool = some j) (inside : j < pool.length)
    (rest : ∀ tries ≥ n', sample hash build tries count (swapRemove pool j) rng' = some r) :
    ∀ tries ≥ max n n', sample hash build tries (count + 1) pool rng = some
      (pool[j].1 :: r.1, r.2) := by
  intro tries htries
  cases pool with
  | nil => simp at inside
  | cons first others =>
    rw [sample]
    simp only [totalWeight_of_lt build fits,
      draw tries (le_of_max_le_left htries), index, getD_some,
      getElem?_eq_getElem inside, rest tries (le_of_max_le_right htries), bind_eq_bind, bind_some]

theorem weights_pos (positive : ∀ e ∈ pool, 0 < e.2) (some : pool ≠ []) : 0 < weights pool := by
  obtain ⟨e, he⟩ := exists_mem_of_ne_nil pool some
  exact (positive e he).trans_le (single_le_sum (by simp) _ (mem_map_of_mem he))

theorem sample_returns (build : BuildProfile) (count : Nat) (fits : weights pool < wordBound)
    (positive : ∀ e ∈ pool, 0 < e.2)
    (h : Yields hash rng) : ∃ n r, ∀ tries ≥ n,
    sample hash build tries count pool rng = some r := by
  induction count generalizing pool rng with
  | zero => exact ⟨0, _, fun _ _ => rfl⟩
  | succ count ih =>
    rcases eq_nil_or_concat' pool with rfl | ⟨_, _, hsome⟩
    · exact ⟨0, _, fun _ _ => rfl⟩
    · obtain ⟨n, ticket, rng', hticket, hyields, hdraw⟩ :=
        draw_returns (weights_pos positive (by simp [hsome])) fits h
      obtain ⟨j, hinside, hj⟩ := exists_ticketIndex hticket
      have hperm := swapRemove_perm (getElem?_eq_getElem hinside)
      obtain ⟨n', r, hrest⟩ := ih ((Remaining.start.drawn hinside).weights_le.trans_lt fits)
        (fun e he => positive e (hperm.mem_iff.mp (mem_cons_of_mem _ he))) hyields
      exact ⟨_, _, sample_drawn fits hdraw hj hinside hrest⟩

theorem sample_length {tries : Nat} {chosen : List LaneId}
    (h : sample hash build tries count pool rng = some (chosen, rng')) :
    chosen.length = min pool.length count := by
  obtain ⟨rest, hperm, hrest⟩ := sample_perm h
  have hlength := hperm.length_eq
  rw [length_append, length_map] at hlength
  omega

def Silent (rng : Csprng) : Prop := rng.blockPos < 32 → rng.block = Vector.replicate 32 0

theorem Silent.fillBytes (h : Silent rng) (n : Nat) :
    (fillBytes zeros n rng).1 = replicate n 0 ∧ Silent (fillBytes zeros n rng).2 := by
  induction n generalizing rng with
  | zero => exact ⟨rfl, h⟩
  | succ n ih =>
    have hbyte : (rng.nextU8 zeros).1 = 0 ∧ Silent (rng.nextU8 zeros).2 := by
      rw [nextU8]
      split
      · rename_i hinside
        exact ⟨by simp [h hinside], fun _ => h hinside⟩
      · exact ⟨rfl, fun _ => rfl⟩
    obtain ⟨hrest, hsilent⟩ := ih hbyte.2
    exact ⟨by rw [fillBytes, hbyte.1, hrest, replicate_succ], hsilent⟩

theorem Silent.nextU64 (h : Silent rng) :
    (rng.nextU64 zeros).1 = 0 ∧ Silent (rng.nextU64 zeros).2 := by
  have hword : rng.nextU64 zeros = (ofLE (Csprng.fillBytes zeros 8 rng).1,
    (Csprng.fillBytes zeros 8 rng).2) := rfl
  obtain ⟨hbytes, hsilent⟩ := h.fillBytes 8
  rw [hword, hbytes]
  generalize (Csprng.fillBytes zeros 8 rng).2 = rest at hsilent
  exact ⟨rfl, hsilent⟩

theorem Silent.yields (h : Silent rng) : Yields zeros rng := by
  have hafter : ∀ n, Silent (after zeros n rng) := by
    intro n
    induction n generalizing rng with
    | zero => exact h
    | succ n ih => exact ih h.nextU64.2
  intro n
  refine ⟨n, le_rfl, ?_⟩
  rw [(hafter n).nextU64.1]
  decide

def primed (word : Nat) : Csprng :=
  ⟨.replicate 32 0, 0, ⟨(List.replicate 24 0 ++ toLE 8 word).toArray, by simp⟩, 24⟩

theorem nextU64_primed {word : Nat} (h : word < wordBound) :
    ((primed word).nextU64 zeros).1 = word := by
  have hbytes : (fillBytes zeros 8 (primed word)).1 = toLE 8 word := rfl
  rw [nextU64, hbytes, ofLE_toLE h]

theorem sample_reaches (build : BuildProfile) {i : Nat} (count : Nat)
    (fits : weights pool < wordBound) (positive : ∀ e ∈ pool, 0 < e.2)
    (inside : i < pool.length) : ∃ rng tries r,
    sample zeros build tries (count + 1) pool rng = some r ∧ pool[i].1 ∈ r.1 := by
  have hpositive := weights_pos positive (ne_nil_of_length_pos (Nat.zero_lt_of_lt inside))
  obtain ⟨ticket, hticket, hindex⟩ : ∃ ticket < weights pool, ticketIndex ticket pool = some i := by
    by_contra hnone
    have hcount := count_ticketIndex (getElem?_eq_getElem inside)
    rw [Nat.count_iff_forall_not.mpr fun ticket hlt hindex => hnone ⟨ticket, hlt, hindex⟩] at hcount
    exact absurd hcount (ne_of_lt (positive _ (getElem_mem inside)))
  have hword := nextU64_primed (hticket.trans fits)
  have hdraw :=
    drawn_at_once hpositive (hword.trans_lt (hticket.trans_le (zone_ge hpositive fits).1))
  rw [hword, Nat.mod_eq_of_lt hticket] at hdraw
  have hend : ((primed ticket).nextU64 zeros).2.blockPos = 32 := rfl
  have hsilent : Silent ((primed ticket).nextU64 zeros).2 :=
    fun hlt => absurd (hend ▸ hlt) (lt_irrefl 32)
  have hperm := swapRemove_perm (getElem?_eq_getElem inside)
  obtain ⟨n', r, hrest⟩ := sample_returns build count
    ((Remaining.start.drawn inside).weights_le.trans_lt fits)
    (fun e he => positive e (hperm.mem_iff.mp (mem_cons_of_mem _ he))) hsilent.yields
  exact ⟨_, _, _, sample_drawn fits hdraw hindex inside hrest _ le_rfl, mem_cons_self⟩

section

variable {ready : List WeightedLane} {contexts : Nat}

theorem clamped_pos : ∀ e ∈ clamped ready, 0 < e.2 := by simp [clamped]

theorem select_length {tries : Nat} {chosen : List LaneId}
    (h : select hash build tries ready contexts rng = some (chosen, rng')) :
    chosen.length = min ready.length contexts := by
  rw [select] at h
  split at h
  · rename_i hnone
    cases h
    rcases hnone with rfl | rfl <;> simp
  · split at h
    · rename_i hall
      cases h
      simp [hall]
    · rw [sample_length h, length_map]

variable (build : BuildProfile)

theorem select_returns (contexts : Nat) (fits : weights (clamped ready) < wordBound)
    (h : Yields hash rng) :
    ∃ n r, ∀ tries ≥ n, select hash build tries ready contexts rng = some r := by
  simp only [select]
  split
  · exact ⟨0, _, fun _ _ => rfl⟩
  · split
    · exact ⟨0, _, fun _ _ => rfl⟩
    · exact sample_returns build contexts fits clamped_pos h

theorem select_reaches (fits : weights (clamped ready) < wordBound) (positive : 0 < contexts)
    {w : WeightedLane}
    (hw : w ∈ ready) : ∃ rng tries r, select zeros build tries ready contexts rng = some r ∧
    w.lane ∈ r.1 := by
  obtain ⟨i, hi, rfl⟩ := getElem_of_mem hw
  obtain ⟨count, rfl⟩ := Nat.exists_eq_add_of_le' positive
  obtain ⟨rng, tries, r, hsample, hmem⟩ := sample_reaches build count (i := i) fits clamped_pos
    (by rwa [clamped, length_map])
  refine ⟨rng, tries, ?_⟩
  rw [select, if_neg (by simpa using ne_nil_of_mem hw)]
  split
  · exact ⟨_, rfl, mem_map_of_mem hw⟩
  · exact ⟨r, hsample, by simpa [clamped] using hmem⟩

end

variable {tries : Nat} {s s' : SchedulerState}

theorem step_contexts {op : Op} {reply : Reply}
    (h : step hash build tries op s = some (reply, s')) :
    s'.executionContexts = s.executionContexts := by
  cases stepped h with
  | batch taken =>
    obtain ⟨-, csprng, rfl⟩ := takeDispatchBatch_spec taken
    rfl
  | _ => rfl

/-- If the weights of the ready lanes add up to a word: a batch is exact; it is returned if the
generator keeps yielding accepted words; and every ready lane is in it for some words. -/
theorem batch_exact {contexts : Nat} {seed : Vector Byte 32} {profile : CibosProfile}
    {events : List (Op × Reply)}
    (run : Run (step hash build tries) (.new hash contexts seed profile) events s)
    (fits : weights (clamped (s.ready.map fun lane => ⟨lane, s.weightFor lane⟩)) < wordBound) :
    (∀ tries chosen s', s.takeDispatchBatch hash build tries = some (chosen, s') →
      ExactBatch s chosen s') ∧
    (Yields hash s.csprng → ∃ n r, ∀ tries ≥ n, s.takeDispatchBatch hash build tries = some r) ∧
    ∀ lane ∈ s.ready, ∃ hash rng tries chosen s',
      takeDispatchBatch hash build tries { s with csprng := rng } = some (chosen, s') ∧
      lane ∈ chosen := by
  obtain ⟨hlists, hcontexts⟩ := run.invariant
    (P := fun s => s.toLaneLists.Disciplined ∧ 0 < s.executionContexts)
    ⟨.empty, lt_of_lt_of_le Nat.zero_lt_one (le_max_right _ _)⟩ fun _ _ _ _ kept taken =>
      ⟨Discipline.step_disciplined kept.1 taken, (step_contexts taken).symm ▸ kept.2⟩
  refine ⟨?_, ?_, ?_⟩
  · intro tries chosen s' htaken
    obtain ⟨⟨rest, hperm⟩, csprng, rfl⟩ := takeDispatchBatch_spec htaken
    obtain ⟨⟨chosen', rng'⟩, hselect, heq⟩ := map_eq_some_iff.mp htaken
    obtain rfl : chosen' = chosen := congrArg Prod.fst heq
    have hcount := select_length hselect
    rw [length_map] at hcount
    exact ⟨hcount, ((hperm.nodup_iff.mpr hlists.nodup).sublist (sublist_append_left _ _)),
      fun lane hlane => hperm.mem_iff.mp (mem_append_left _ hlane), rfl⟩
  · intro hyields
    obtain ⟨n, r, hselect⟩ := select_returns build s.executionContexts fits hyields
    exact ⟨n, _, fun tries htries => map_eq_some_iff.mpr ⟨r, hselect tries htries, rfl⟩⟩
  · intro lane hlane
    obtain ⟨rng, tries, r, hselect, hmem⟩ :=
      select_reaches build fits hcontexts (mem_map_of_mem hlane)
    exact ⟨zeros, rng, tries, r.1, _, map_eq_some_iff.mpr ⟨r, hselect, rfl⟩, hmem⟩

/-- One of two ready lanes is dispatched, and it may be the second. -/
theorem batch_exact_two : ∃ s, Run (step zeros .dev 1) (.new zeros 1 (.replicate 32 0) .balanced)
      [(.signalReady 1, .done), (.signalReady 2, .done)] s ∧ s.ready = [1, 2] ∧
    (∃ tries chosen s', s.takeDispatchBatch zeros .dev tries = some (chosen, s') ∧
      ExactBatch s chosen s') ∧
    ∃ hash rng tries chosen s',
      takeDispatchBatch hash .dev tries { s with csprng := rng } = some (chosen, s') ∧
      2 ∈ chosen := by
  refine exists_run_eval ⟨_, rfl, fun run => ⟨rfl, ?_, ?_⟩⟩
  · obtain ⟨hexact, hreturns, -⟩ := batch_exact run (by decide)
    obtain ⟨n, r, hr⟩ := hreturns (Silent.yields fun _ => rfl)
    exact ⟨n, r.1, r.2, hr n le_rfl, hexact n r.1 r.2 (hr n le_rfl)⟩
  · exact (batch_exact run (by decide)).2.2 2 (by decide)

theorem sample_overflow (h : wordBound ≤ weights pool) :
    sample hash .dev tries (count + 1) pool rng = none := by
  have hfold : ∀ (pool : List (LaneId × Nat)) sum total, sum < wordBound →
      pool.foldlM (addWord .dev · ·.2) sum = some total → sum + weights pool < wordBound := by
    intro pool
    induction pool with
    | nil => exact fun sum _ hsum _ => hsum
    | cons entry rest ih =>
      intro sum total _ hfold
      obtain ⟨next, hnext, hrest⟩ := bind_eq_some_iff.mp hfold
      obtain ⟨rfl, hlt⟩ := addWord_dev hnext
      rw [weights, map_cons, sum_cons, ← add_assoc]
      exact ih _ total hlt hrest
  cases pool with
  | nil => exact absurd h (by decide)
  | cons first others =>
    have htotal : totalWeight .dev (first :: others) = none := by
      rw [eq_none_iff_forall_ne_some]
      intro total htotal
      exact absurd (hfold _ 0 total (by decide) htotal) (by rw [zero_add]; exact not_lt.mpr h)
    rw [sample, htotal]
    rfl

def crowded (n : Nat) : SchedulerState :=
  { SchedulerState.new zeros 1 (.replicate 32 0) .compute with
    toLaneLists := ⟨List.range n, .empty⟩
    overrides :=
      ⟨(List.range n).map fun i => (i, 2 ^ 32 - 1), List.pairwise_lt_range.map _ fun _ _ => id⟩ }

theorem crowded_none (many : 1 < n) (beyond : wordBound ≤ n * (2 ^ 32 - 1)) (tries : Nat) :
    (crowded n).takeDispatchBatch zeros .dev tries = none := by
  have hready :
    (crowded n).ready.map (fun lane => (⟨lane, (crowded n).weightFor lane⟩ : WeightedLane)) =
      (range n).map fun lane => ⟨lane, 2 ^ 32 - 1⟩ := by
    refine map_congr_left fun lane hlane => ?_
    have hget : (crowded n).overrides.get? lane = some (2 ^ 32 - 1) :=
      SortedMap.mem_entries.mp (mem_map_of_mem hlane)
    have hsupports : (crowded n).supportsWeightOverrides := rfl
    rw [weightFor, hsupports, if_pos rfl, hget]
    rfl
  have hweights : weights (clamped ((range n).map fun lane => ⟨lane, 2 ^ 32 - 1⟩)) = n *
    (2 ^ 32 - 1) := by
    simp [weights, clamped, Function.comp_def]
  rw [takeDispatchBatch, hready, select, if_neg, if_neg, map_eq_none_iff]
  · exact sample_overflow (hweights.symm ▸ beyond)
  · simpa [crowded, SchedulerState.new] using many
  · simp [crowded, SchedulerState.new, ne_of_gt (Nat.zero_lt_of_lt many)]

/-- The sum of the weights overflows, and a debug build panics. -/
theorem crowded_batch_panics : (crowded (2 ^ 32 + 2)).takeDispatchBatch zeros .dev = fun _ =>
    none :=
  funext (crowded_none (by decide) (by decide))

end CibosPlatform.Kernel.Scheduler.Batches

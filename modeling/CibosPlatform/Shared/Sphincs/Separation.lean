/- source: shared/src/crypto/backends/sphincs_portable.rs
   digest: No signed message has all its chains at or above those of another one. -/

import CibosPlatform.Shared.Sphincs.Selection
import Mathlib.Data.List.Forall2
import Mathlib.Data.List.GetD

namespace CibosPlatform.Shared.Sphincs.Separation

open Core LittleEndian List Selection Verifier Nat

theorem nibbles_injective {m m' : List Byte} (same : m.flatMap nibbles = m'.flatMap nibbles) :
    m = m' := by
  induction m generalizing m' with
  | nil => cases m' with
    | nil => rfl
    | cons b m' => cases same
  | cons b m ih => cases m' with
    | nil => cases same
    | cons b' m' =>
      injection same with hhigh hrest
      injection hrest with hlow hrest
      rw [ih hrest, BitVec.eq_of_toNat_eq (show b.toNat = b'.toNat by omega)]

theorem eq_of_sum_le {a b : List Nat} (below : List.Forall₂ (· ≤ ·) a b) :
    a.sum ≤ b.sum ∧ (b.sum ≤ a.sum → a = b) := by
  induction below with
  | nil => exact ⟨le_rfl, fun _ => rfl⟩
  | @cons x y a b hxy _ ih =>
    rw [sum_cons, sum_cons]
    refine ⟨by omega, fun h => ?_⟩
    rw [ih.2 (by omega), show x = y by omega]

theorem chainLengths_parts {msg : List Byte} (block : msg.length = hashLen) :
    ∃ a b c, chainLengths msg = msg.flatMap nibbles ++ [a, b, c] ∧
      (msg.flatMap nibbles).length = wotsLen1 ∧
      256 * a + 16 * b + c + (msg.flatMap nibbles).sum = 15 * wotsLen1 := by
  obtain ⟨hlength, hsum⟩ := digits_spec block
  have hfits : 15 * wotsLen1 < 4096 := by decide
  refine ⟨_, _, _, chainLengths_eq block, hlength, ?_⟩
  omega

theorem eq_of_dominated {m m' : List Byte} (block : m.length = hashLen)
    (block' : m'.length = hashLen)
    (below : ∀ i < wotsLen, (chainLengths m).getD i 0 ≤ (chainLengths m').getD i 0) : m = m' := by
  obtain ⟨a, b, c, hm, hlength, hsum⟩ := chainLengths_parts block
  obtain ⟨a', b', c', hm', hlength', hsum'⟩ := chainLengths_parts block'
  rw [hm, hm'] at below
  have hmessage : List.Forall₂ (· ≤ ·) (m.flatMap nibbles) (m'.flatMap nibbles) := by
    refine forall₂_iff_get.mpr ⟨hlength.trans hlength'.symm, fun i hi hi' => ?_⟩
    have h := below i (lt_of_lt_of_le (hlength ▸ hi) (by decide))
    rwa [getD_append _ _ _ _ hi, getD_append _ _ _ _ hi', getD_eq_getElem _ _ hi,
      getD_eq_getElem _ _ hi'] at h
  have hcheck (k : Nat) (hk : k < 3) : [a, b, c].getD k 0 ≤ [a', b', c'].getD k 0 := by
    have h := below (wotsLen1 + k) (Nat.add_lt_add_left hk _)
    rwa [getD_append_right _ _ _ _ (by omega), getD_append_right _ _ _ _ (by omega), hlength,
      hlength', Nat.add_sub_cancel_left] at h
  have ha : a ≤ a' := hcheck 0 (by decide)
  have hb : b ≤ b' := hcheck 1 (by decide)
  have hc : c ≤ c' := hcheck 2 (by decide)
  exact nibbles_injective ((eq_of_sum_le hmessage).2 (by omega))

/-- Of two messages, each has a chain that the other one signs less far. -/
theorem chain_lengths_incomparable (m m' : List Byte) (block : m.length = hashLen)
    (block' : m'.length = hashLen) (different : m ≠ m') :
    (∃ i < wotsLen, (chainLengths m').getD i 0 < (chainLengths m).getD i 0) ∧
      ∃ i < wotsLen, (chainLengths m).getD i 0 < (chainLengths m').getD i 0 := by
  refine ⟨not_forall_not.mp fun hnone => ?_, not_forall_not.mp fun hnone => ?_⟩
  · refine different (eq_of_dominated block block' fun i hi => not_lt.mp fun hlt =>
      hnone i ⟨hi, hlt⟩)
  · refine different.symm (eq_of_dominated block' block fun i hi => not_lt.mp fun hlt =>
      hnone i ⟨hi, hlt⟩)

theorem zero_and_one_incomparable :
    (∃ i < wotsLen, (chainLengths (List.replicate 15 0 ++ [1])).getD i 0 <
        (chainLengths (List.replicate 16 0)).getD i 0) ∧
      ∃ i < wotsLen, (chainLengths (List.replicate 16 0)).getD i 0 <
        (chainLengths (List.replicate 15 0 ++ [1])).getD i 0 :=
  chain_lengths_incomparable _ _ rfl rfl (by decide)

end CibosPlatform.Shared.Sphincs.Separation

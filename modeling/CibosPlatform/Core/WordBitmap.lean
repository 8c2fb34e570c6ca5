/- digest: A bitmap packed into fixed-width words behaves as a map from indices to bits. -/

import Mathlib.Data.List.Basic
import Mathlib.Tactic.Ring

namespace CibosPlatform.Core.WordBitmap

open Option Nat

variable {w : Nat}

def mask (w k : Nat) : BitVec w := 1#w <<< k

variable (m : List (BitVec w))

def test (i : Nat) : Option Bool :=
  m[i / w]?.map fun word => word &&& mask w (i % w) != 0#w

def mark (i : Nat) : Option (List (BitVec w)) :=
  m[i / w]?.map fun word => m.set (i / w) (word ||| mask w (i % w))

def clear (i : Nat) : Option (List (BitVec w)) :=
  m[i / w]?.map fun word => m.set (i / w) (word &&& ~~~mask w (i % w))

private theorem mask_getLsbD (k j : Nat) : (mask w k).getLsbD j = (decide (j < w) && decide (j = k)) := by
  by_cases hj : j < w
  · by_cases hk : j < k
    · have hne : j ≠ k := by omega
      simp [mask, hj, hk, hne]
    · by_cases he : j = k
      · subst he
        simp [mask, hj]
      · have hpos : j - k ≠ 0 := by omega
        simp [mask, hj, hk, he, hpos]
  · simp [mask, hj]

private theorem and_mask_ne_zero (word : BitVec w) {k : Nat} (hk : k < w) :
    (word &&& mask w k != 0#w) = word.getLsbD k := by
  cases hb : word.getLsbD k with
  | true =>
    rw [bne_iff_ne]
    intro hz
    have hbit := congrArg (fun v : BitVec w => v.getLsbD k) hz
    simp only [BitVec.getLsbD_and, mask_getLsbD, hb, hk] at hbit
    simp at hbit
  | false =>
    rw [bne_eq_false_iff_eq]
    apply BitVec.eq_of_getLsbD_eq
    intro j hj
    by_cases he : j = k
    · subst he
      simp [hb]
    · simp [mask_getLsbD, he]

theorem test_eq (hw : 0 < w) (m : List (BitVec w)) (i : Nat) :
    test m i = m[i / w]?.map fun word => word.getLsbD (i % w) := by
  unfold test
  congr 1
  funext word
  exact and_mask_ne_zero word (mod_lt i hw)

theorem test_isSome_iff (hw : 0 < w) (m : List (BitVec w)) (i : Nat) :
    (test m i).isSome ↔ i < m.length * w := by
  simp only [test, isSome_map, isSome_getElem?]
  exact div_lt_iff_lt_mul hw

variable {m : List (BitVec w)} {i : Nat}

theorem exists_test (hw : 0 < w) (hi : i < m.length * w) : ∃ b, test m i = some b :=
  isSome_iff_exists.mp ((test_isSome_iff hw m i).mpr hi)

private theorem same_index {j : Nat} (hq : i / w = j / w) (hr : i % w = j % w) : i = j := by
  rw [← div_add_mod i w, ← div_add_mod j w, hq, hr]

variable (hw : 0 < w)

include hw

private theorem test_set_word {word word' : BitVec w} {b : Bool} (hword : m[i / w]? = some word)
    (hbits : ∀ k, k < w → word'.getLsbD k = if k = i % w then b else word.getLsbD k) (j : Nat) :
    test (m.set (i / w) word') j = if j = i then some b else test m j := by
  have hlt : i / w < m.length := (List.getElem?_eq_some_iff.mp hword).1
  rw [test_eq hw, test_eq hw]
  by_cases hq : i / w = j / w
  · rw [hq] at hlt hword
    rw [hq, List.getElem?_set_self hlt, hword]
    simp only [map_some]
    rw [hbits _ (mod_lt j hw)]
    by_cases hr : j % w = i % w
    · have he : j = i := same_index hq.symm hr
      simp [he]
    · have hne : j ≠ i := fun he => hr (by rw [he])
      simp [hr, hne]
  · have hne : j ≠ i := fun he => hq (by rw [he])
    rw [List.getElem?_set_ne hq, if_neg hne]

theorem exists_mark (hi : i < m.length * w) : ∃ m', mark m i = some m' ∧ m'.length = m.length ∧
      ∀ j, test m' j = if j = i then some true else test m j := by
  have hlt : i / w < m.length := (div_lt_iff_lt_mul hw).mpr hi
  have hword := List.getElem?_eq_getElem hlt
  refine ⟨m.set (i / w) (m[i / w] ||| mask w (i % w)), by simp [mark, hword], by simp, ?_⟩
  intro j
  refine test_set_word hw hword ?_ j
  intro k hk
  by_cases he : k = i % w
  · simp [mask_getLsbD, he, mod_lt i hw]
  · simp [mask_getLsbD, he]

theorem exists_clear (hi : i < m.length * w) : ∃ m', clear m i = some m' ∧ m'.length = m.length ∧
      ∀ j, test m' j = if j = i then some false else test m j := by
  have hlt : i / w < m.length := (div_lt_iff_lt_mul hw).mpr hi
  have hword := List.getElem?_eq_getElem hlt
  refine ⟨m.set (i / w) (m[i / w] &&& ~~~mask w (i % w)), by simp [clear, hword], by simp, ?_⟩
  intro j
  refine test_set_word hw hword ?_ j
  intro k hk
  by_cases he : k = i % w
  · simp [mask_getLsbD, he, mod_lt i hw]
  · simp only [BitVec.getLsbD_and, BitVec.getLsbD_not, mask_getLsbD]
    simp [he, hk]

theorem exists_markAll (l : List Nat) (inside : ∀ i ∈ l, i < m.length * w) :
    ∃ m', l.foldlM mark m = some m' ∧ m'.length = m.length ∧
      ∀ j, test m' j = if j ∈ l then some true else test m j := by
  induction l generalizing m with
  | nil => exact ⟨m, rfl, rfl, by simp⟩
  | cons i rest ih =>
    obtain ⟨m1, hmark, hlen, hbits⟩ := exists_mark hw (inside i List.mem_cons_self)
    obtain ⟨m2, hrest, hlen2, hbits2⟩ := ih (m := m1) fun j hj => by
      rw [hlen]
      exact inside j (List.mem_cons_of_mem i hj)
    refine ⟨m2, by simpa [hmark] using hrest, hlen2.trans hlen, ?_⟩
    intro j
    rw [hbits2, hbits]
    by_cases hj : j ∈ rest
    · simp [hj]
    · by_cases he : j = i <;> simp [hj, he]

theorem test_replicate_allOnes {n : Nat} (hi : i < n * w) :
    test (List.replicate n (BitVec.allOnes w)) i = some true := by
  have hlt : i / w < n := (div_lt_iff_lt_mul hw).mpr hi
  rw [test_eq hw, List.getElem?_replicate_of_lt hlt]
  simp [mod_lt i hw]

theorem test_replicate_zero {n : Nat} (hi : i < n * w) :
    test (List.replicate n 0#w) i = some false := by
  have hlt : i / w < n := (div_lt_iff_lt_mul hw).mpr hi
  rw [test_eq hw, List.getElem?_replicate_of_lt hlt]
  simp

end CibosPlatform.Core.WordBitmap

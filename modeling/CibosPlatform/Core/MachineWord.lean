/- digest: Unsigned 64-bit arithmetic under the two build profiles. -/

import Mathlib.Order.Lattice
import Mathlib.Tactic.Ring

/-! An addition that leaves the range panics when overflow checks are compiled in (`none`) and wraps when they
are not. -/

namespace CibosPlatform.Core.MachineWord

/-- A `dev` build checks arithmetic for overflow, a `release` build wraps. -/
inductive BuildProfile where
  | dev
  | release
  deriving DecidableEq

abbrev wordBound : Nat := 2 ^ 64

variable (profile : BuildProfile)

variable (a b : Nat)

def addWord : Option Nat :=
  if a + b < wordBound then some (a + b)
  else match profile with
    | .dev => none
    | .release => some ((a + b) % wordBound)

def subWord : Option Nat :=
  if b ≤ a then some (a - b)
  else match profile with
    | .dev => none
    | .release => some ((a + wordBound - b) % wordBound)

def mulWord : Option Nat :=
  if a * b < wordBound then some (a * b)
  else match profile with
    | .dev => none
    | .release => some (a * b % wordBound)

def checkedAdd : Option Nat := if a + b < wordBound then some (a + b) else none

def checkedMul : Option Nat := if a * b < wordBound then some (a * b) else none

def saturatingAdd : Nat := min (a + b) (wordBound - 1)

def divCeil : Nat := (a + b - 1) / b

variable {a b c : Nat} {profile : BuildProfile}

theorem saturatingAdd_pos (positive : 0 < a + b) : 0 < saturatingAdd a b :=
  lt_min positive (by decide)

theorem checkedAdd_eq_some : checkedAdd a b = some c ↔ a + b < wordBound ∧ a + b = c := by
  rw [checkedAdd, Option.ite_none_right_eq_some, Option.some.injEq]

theorem checkedMul_eq_some : checkedMul a b = some c ↔ a * b < wordBound ∧ a * b = c := by
  rw [checkedMul, Option.ite_none_right_eq_some, Option.some.injEq]

theorem addWord_of_lt (profile : BuildProfile) (h : a + b < wordBound) :
    addWord profile a b = some (a + b) := if_pos h

theorem subWord_of_le (profile : BuildProfile) (h : b ≤ a) :
    subWord profile a b = some (a - b) := if_pos h

theorem mulWord_of_lt (profile : BuildProfile) (h : a * b < wordBound) :
    mulWord profile a b = some (a * b) := if_pos h

theorem addWord_eq (h : addWord profile a b = some c) : c = (a + b) % wordBound := by
  unfold addWord at h
  split at h
  · rename_i hlt
    rw [Nat.mod_eq_of_lt hlt]
    exact (Option.some.inj h).symm
  · cases profile with
    | dev => cases h
    | release => exact (Option.some.inj h).symm

theorem addWord_dev (h : addWord .dev a b = some c) : c = a + b ∧ a + b < wordBound := by
  unfold addWord at h
  split at h
  · rename_i hlt
    exact ⟨(Option.some.inj h).symm, hlt⟩
  · cases h

theorem addWord_release (a b : Nat) : addWord .release a b = some ((a + b) % wordBound) := by
  unfold addWord
  split
  · rename_i hlt
    rw [Nat.mod_eq_of_lt hlt]
  · rfl

theorem mulWord_eq (h : mulWord profile a b = some c) : c = a * b % wordBound := by
  have hsum : addWord profile (a * b) 0 = some c := h
  exact addWord_eq hsum

theorem addWord_lt (h : addWord profile a b = some c) : c < wordBound := by
  rw [addWord_eq h]
  exact Nat.mod_lt _ (by norm_num)

theorem and_not_mask {x k : Nat} (hx : x < wordBound) (hk : k ≤ 64) :
    x &&& (wordBound - 1 - (2 ^ k - 1)) = x / 2 ^ k * 2 ^ k := by
  have hpos : 0 < 2 ^ k := Nat.two_pow_pos k
  have hle : 2 ^ k ≤ 2 ^ 64 := Nat.pow_le_pow_right (by decide) hk
  have hmask : wordBound - 1 - (2 ^ k - 1) = 2 ^ 64 - (2 ^ k - 1 + 1) := by
    show 2 ^ 64 - 1 - (2 ^ k - 1) = 2 ^ 64 - (2 ^ k - 1 + 1)
    omega
  rw [hmask, ← Nat.shiftRight_eq_div_pow, ← Nat.shiftLeft_eq]
  apply Nat.eq_of_testBit_eq
  intro i
  rw [Nat.testBit_and, Nat.testBit_two_pow_sub_succ (by omega), Nat.testBit_two_pow_sub_one,
    Nat.testBit_shiftLeft, Nat.testBit_shiftRight]
  by_cases hi : k ≤ i
  · have hback : k + (i - k) = i := by omega
    have hnot : decide (i < k) = false := decide_eq_false (by omega)
    rw [hback, hnot, decide_eq_true hi]
    by_cases hword : i < 64
    · simp [hword]
    · have hzero : x.testBit i = false :=
        Nat.testBit_lt_two_pow (hx.trans_le (Nat.pow_le_pow_right (by decide) (by omega)))
      simp [hzero]
  · have hnot : decide (i < k) = true := decide_eq_true (by omega)
    simp [hi, hnot]

theorem lt_divCeil_iff (hb : 0 < b) (c : Nat) : c < divCeil a b ↔ c * b < a := by
  unfold divCeil
  rw [Nat.lt_iff_add_one_le, Nat.le_div_iff_mul_le hb, Nat.succ_mul]
  omega

theorem divCeil_le_iff (hb : 0 < b) (c : Nat) : divCeil a b ≤ c ↔ a ≤ c * b := by
  rw [← not_lt, lt_divCeil_iff hb, not_lt]

end CibosPlatform.Core.MachineWord

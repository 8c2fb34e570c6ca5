/- digest: Hash chains and binary hash trees with authentication paths, over any hash. -/

import Mathlib.Algebra.GroupWithZero.Nat

namespace CibosPlatform.Core.HashTree

open List

variable {α : Type}

section

variable (step : Nat → α → α)

def chainFrom (start : Nat) : Nat → α → α
  | 0, x => x
  | count + 1, x => step (start + count) (chainFrom start count x)

theorem chainFrom_add (start first second : Nat) (x : α) : chainFrom step start (first + second) x =
      chainFrom step (start + first) second (chainFrom step start first x) := by
  induction second with
  | zero => rfl
  | succ second ih => rw [← add_assoc, chainFrom, chainFrom, ih, add_assoc]

end

section

variable (combine : Nat → Nat → α → α → α) (leaf : Nat → α)

def node : Nat → Nat → α
  | 0, index => leaf index
  | level + 1, index =>
    combine (level + 1) index (node level (2 * index)) (node level (2 * index + 1))

def sibling (index : Nat) : Nat := if index % 2 = 1 then index - 1 else index + 1

def siblingsFrom : Nat → Nat → Nat → List α
  | _, _, 0 => []
  | level, index, height + 1 =>
    node combine leaf level (sibling index) :: siblingsFrom (level + 1) (index / 2) height

def authPath (height index : Nat) : List α := siblingsFrom combine leaf 0 index height

def inOrder {β : Type} (f : α → α → β) (index : Nat) (value other : α) : β :=
  if index % 2 = 1 then f other value else f value other

def climb : Nat → Nat → α → List α → α
  | _, _, value, [] => value
  | level, index, value, other :: path =>
    climb (level + 1) (index / 2) (inOrder (combine (level + 1) (index / 2)) index value other) path

theorem siblingsFrom_length (level index height : Nat) :
    (siblingsFrom combine leaf level index height).length = height := by
  induction height generalizing level index with
  | zero => rfl
  | succ height ih => rw [siblingsFrom, length_cons, ih]

theorem authPath_length (height index : Nat) :
    (authPath combine leaf height index).length = height :=
  siblingsFrom_length combine leaf 0 index height

section

variable {combine leaf} {P : α → Prop} (hashes : ∀ h i l r, P (combine h i l r))
  (leaves : ∀ i, P (leaf i))

include hashes leaves

theorem node_holds (level index : Nat) : P (node combine leaf level index) := by
  cases level with
  | zero => exact leaves index
  | succ level => exact hashes ..

theorem authPath_holds (height index : Nat) : ∀ p ∈ authPath combine leaf height index, P p := by
  unfold authPath
  generalize 0 = level
  induction height generalizing level index with
  | zero => exact fun p hp => absurd hp not_mem_nil
  | succ height ih =>
    intro p hp
    rcases mem_cons.mp hp with rfl | hrest
    · exact node_holds hashes leaves _ _
    · exact ih _ _ p hrest

end

theorem inOrder_node (level index : Nat) :
    inOrder (combine (level + 1) (index / 2)) index (node combine leaf level index)
      (node combine leaf level (sibling index)) = node combine leaf (level + 1) (index / 2) := by
  unfold inOrder sibling
  split
  · rw [node, show 2 * (index / 2) = index - 1 by omega, show index - 1 + 1 = index by omega]
  · rw [node, show 2 * (index / 2) = index by omega]

theorem climb_siblingsFrom (level index height : Nat) :
    climb combine level index (node combine leaf level index)
      (siblingsFrom combine leaf level index height) =
        node combine leaf (level + height) (index / 2 ^ height) := by
  induction height generalizing level index with
  | zero => rw [siblingsFrom, climb, pow_zero, Nat.div_one, add_zero]
  | succ height ih =>
    rw [siblingsFrom, climb, inOrder_node, ih, Nat.div_div_eq_div_mul, Nat.pow_succ',
      Nat.add_right_comm, add_assoc]

theorem climb_authPath {height index : Nat} (inside : index < 2 ^ height) :
    climb combine 0 index (leaf index) (authPath combine leaf height index) =
      node combine leaf height 0 := by
  have h := climb_siblingsFrom combine leaf 0 index height
  rwa [Nat.div_eq_of_lt inside, zero_add] at h

end

end CibosPlatform.Core.HashTree

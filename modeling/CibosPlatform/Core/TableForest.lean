/- digest: Forests of tables in a flat memory, addressed by a root and a path of indices. -/

import Mathlib.Data.List.Induction
import Mathlib.Data.Option.Basic
import Mathlib.Logic.Basic

namespace CibosPlatform.Core.TableForest

open List Option Function

universe u

variable {κ F I W : Type u} (child : Nat → W → Option F)

def follow (mem : F → I → W) : Nat → F → List I → Option F
  | _, table, [] => some table
  | depth, table, i :: rest => (child depth (mem table i)).bind fun c => follow mem (depth + 1) c rest

variable (mem : F → I → W) (roots : κ → Option F)

def node (k : κ) (path : List I) : Option F :=
  (roots k).bind fun root => follow child mem 0 root path

def slot (k : κ) (path : List I) (i : I) : Option W :=
  (node child mem roots k path).map fun table => mem table i

def Separated : Prop :=
  ∀ k k' path path' table, node child mem roots k path = some table →
    node child mem roots k' path' = some table → k = k' ∧ path = path'

def Fresh (table : F) : Prop := ∀ k path, node child mem roots k path ≠ some table

variable {child} {mem mem' : F → I → W} {roots roots' : κ → Option F} {k : κ} {path : List I}

private theorem follow_append (depth : Nat) (table : F) (p q : List I) :
    follow child mem depth table (p ++ q) =
      (follow child mem depth table p).bind fun t => follow child mem (depth + p.length) t q := by
  induction p generalizing depth table with
  | nil => rfl
  | cons i p ih =>
    rw [cons_append, follow, follow, bind_assoc]
    congr 1
    funext c
    rw [ih, length_cons, Nat.add_right_comm, Nat.add_assoc]

@[simp] theorem node_nil : node child mem roots k [] = roots k := by
  unfold node
  cases roots k <;> rfl

theorem node_snoc (i : I) : node child mem roots k (path ++ [i]) =
      (slot child mem roots k path i).bind fun w => child path.length w := by
  unfold slot node
  rcases roots k with _ | root
  · rfl
  · rw [bind_some, bind_some, follow_append, Nat.zero_add]
    rcases follow child mem 0 root path with _ | table
    · rfl
    · simp [follow]

theorem slot_eq_some {i : I} {w : W} : slot child mem roots k path i = some w ↔
      ∃ table, node child mem roots k path = some table ∧ mem table i = w := by
  simp [slot]

theorem node_snoc_eq_some {i : I} {table : F} : node child mem roots k (path ++ [i]) = some table ↔
      ∃ parent, node child mem roots k path = some parent ∧
        child path.length (mem parent i) = some table := by
  rw [node_snoc]
  simp only [slot, bind_map, bind_eq_some_iff]
  rfl

theorem node_frame (same : ∀ q table i, node child mem roots k q = some table →
      mem' table i = mem table i) (root : roots' k = roots k) (path : List I) :
    node child mem' roots' k path = node child mem roots k path := by
  induction path using reverseRecOn with
  | nil => rw [node_nil, node_nil, root]
  | append_singleton path i ih =>
    rw [node_snoc, node_snoc, slot, slot, ih]
    rcases hnode : node child mem roots k path with _ | table
    · rfl
    · simp only [map_some, bind_some]
      rw [same path table i hnode]

section

variable [DecidableEq κ] [DecidableEq I] {table : F} {i : I}

variable (separated : Separated child mem roots) (reached : node child mem roots k path = some table)
  (blank : child path.length (mem table i) = none)
  (others : ∀ k' q t j, node child mem roots k' q = some t → ¬ (t = table ∧ j = i) → mem' t j = mem t j)
  (leaf : ∀ c, child path.length (mem' table i) = some c → ∀ j, child (path.length + 1) (mem' c j) = none)

include separated reached blank others leaf

/-- A write to one slot that named no child adds the table it names now, if any; no other name
changes. The new table is fresh and names no children itself. -/
theorem node_update (k' : κ) (q : List I) : node child mem' roots k' q =
      if k' = k ∧ q = path ++ [i] then child path.length (mem' table i)
      else node child mem roots k' q := by
  have hunnamed : ∀ j, node child mem roots k (path ++ [i] ++ [j]) = none := by
    intro j
    have hnone : node child mem roots k (path ++ [i]) = none := by
      rw [node_snoc, slot, reached]
      exact blank
    rw [node_snoc, slot, hnone]
    rfl
  induction q using reverseRecOn with
  | nil => simp
  | append_singleton q j ih =>
    rw [node_snoc, slot, ih]
    by_cases hnew : k' = k ∧ q = path ++ [i]
    · obtain ⟨rfl, rfl⟩ := hnew
      rw [if_pos ⟨rfl, rfl⟩, if_neg (by simp), hunnamed]
      rcases hchild : child path.length (mem' table i) with _ | c
      · rfl
      · simpa using leaf c hchild j
    · rw [if_neg hnew]
      rcases hnode : node child mem roots k' q with _ | t
      · have hne : ¬ (k' = k ∧ q ++ [j] = path ++ [i]) := by
          rintro ⟨rfl, heq⟩
          obtain ⟨rfl, -⟩ := append_inj' heq rfl
          rw [reached] at hnode
          cases hnode
        rw [if_neg hne, node_snoc, slot, hnode]
        rfl
      · by_cases hslot : t = table ∧ j = i
        · obtain ⟨rfl, rfl⟩ := hslot
          obtain ⟨rfl, rfl⟩ := separated _ _ _ _ _ hnode reached
          rw [if_pos ⟨rfl, rfl⟩]
          rfl
        · have hne : ¬ (k' = k ∧ q ++ [j] = path ++ [i]) := by
            rintro ⟨rfl, heq⟩
            obtain ⟨rfl, hj⟩ := append_inj' heq rfl
            rw [reached] at hnode
            exact hslot ⟨(some.inj hnode).symm, by simpa using hj⟩
          rw [if_neg hne, node_snoc, slot, hnode, map_some, map_some, others k' q t j hnode hslot]

theorem slot_update (k' : κ) (q : List I) (j : I) : slot child mem' roots k' q j =
      if k' = k ∧ q = path ++ [i] then (child path.length (mem' table i)).map fun c => mem' c j
      else if k' = k ∧ q = path ∧ j = i then some (mem' table i)
      else slot child mem roots k' q j := by
  rw [slot, node_update separated reached blank others leaf]
  by_cases hnew : k' = k ∧ q = path ++ [i]
  · rw [if_pos hnew, if_pos hnew]
  · rw [if_neg hnew, if_neg hnew]
    by_cases hhere : k' = k ∧ q = path ∧ j = i
    · obtain ⟨rfl, rfl, rfl⟩ := hhere
      rw [if_pos ⟨rfl, rfl, rfl⟩, reached]
      rfl
    · rw [if_neg hhere, slot]
      rcases hnode : node child mem roots k' q with _ | t
      · rfl
      · rw [map_some, map_some, others k' q t j hnode]
        rintro ⟨rfl, rfl⟩
        obtain ⟨rfl, rfl⟩ := separated _ _ _ _ _ hnode reached
        exact hhere ⟨rfl, rfl, rfl⟩

theorem Separated.update (fresh : ∀ c, child path.length (mem' table i) = some c → Fresh child mem roots c) :
    Separated child mem' roots := by
  intro k1 k2 q1 q2 t h1 h2
  rw [node_update separated reached blank others leaf] at h1 h2
  split_ifs at h1 h2 with hnew1 hnew2 hnew2
  · exact ⟨hnew1.1.trans hnew2.1.symm, hnew1.2.trans hnew2.2.symm⟩
  · exact absurd h2 (fresh t h1 k2 q2)
  · exact absurd h1 (fresh t h2 k1 q1)
  · exact separated _ _ _ _ _ h1 h2

end

section

variable [DecidableEq κ] {root : F}

section

variable (others : ∀ k' q t j, k' ≠ k → node child mem roots k' q = some t → mem' t j = mem t j)
  (leaf : ∀ j, child 0 (mem' root j) = none)

include others leaf

theorem node_addRoot (k' : κ) (q : List I) : node child mem' (update roots k (some root)) k' q =
      if k' = k then if q = [] then some root else none else node child mem roots k' q := by
  by_cases hk : k' = k
  · subst hk
    rw [if_pos rfl]
    cases q with
    | nil => simp
    | cons j q =>
      rw [if_neg (by simp), node, update_self, bind_some, follow, leaf]
      rfl
  · rw [if_neg hk]
    refine node_frame (others k' · · · hk ·) ?_ q
    rw [update_of_ne hk]

theorem Separated.addRoot (separated : Separated child mem roots) (fresh : Fresh child mem roots root) :
    Separated child mem' (Function.update roots k (some root)) := by
  intro k1 k2 q1 q2 t h1 h2
  rw [node_addRoot others leaf] at h1 h2
  split_ifs at h1 h2 with hk1 hq1 hk2 hq2 hk2 hk2
  · exact ⟨hk1.trans hk2.symm, hq1.trans hq2.symm⟩
  · exact absurd (h2.trans h1.symm) (fresh k2 q2)
  · exact absurd (h1.trans h2.symm) (fresh k1 q1)
  · exact separated _ _ _ _ _ h1 h2

end

theorem node_dropRoot (k' : κ) (q : List I) : node child mem (update roots k none) k' q =
      if k' = k then none else node child mem roots k' q := by
  by_cases hk : k' = k
  · subst hk
    rw [if_pos rfl, node, update_self]
    rfl
  · rw [if_neg hk]
    refine node_frame (fun _ _ _ _ => rfl) ?_ q
    rw [update_of_ne hk]

theorem Separated.dropRoot (separated : Separated child mem roots) :
    Separated child mem (Function.update roots k none) := by
  intro k1 k2 q1 q2 t h1 h2
  rw [node_dropRoot] at h1 h2
  split_ifs at h1 h2
  exact separated _ _ _ _ _ h1 h2

end

end CibosPlatform.Core.TableForest

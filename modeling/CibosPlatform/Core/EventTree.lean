/- digest: Trees as streams of events, and visitors that see them in document order. -/

import Mathlib.Data.List.Basic

namespace CibosPlatform.Core.EventTree

open List

variable {ν π σ ρ : Type}

inductive Tree (ν π : Type) where
  | node (name : ν) (items : List π) (children : List (Tree ν π))

inductive Event (ν π : Type) where
  | enter (name : ν)
  | item (content : π)
  | leave
  deriving DecidableEq

mutual

def Tree.events : Tree ν π → List (Event ν π)
  | .node name items children =>
    .enter name :: (items.map .item ++ (eventsAll children ++ [.leave]))

def eventsAll : List (Tree ν π) → List (Event ν π)
  | [] => []
  | t :: ts => t.events ++ eventsAll ts

end

mutual

def Tree.nodes : Tree ν π → List (ν × List π)
  | .node name items children => (name, items) :: nodesAll children

def nodesAll : List (Tree ν π) → List (ν × List π)
  | [] => []
  | t :: ts => t.nodes ++ nodesAll ts

end

theorem nodesAll_eq (ts : List (Tree ν π)) : nodesAll ts = ts.flatMap Tree.nodes := by
  induction ts with
  | nil => rfl
  | cons t ts ih => rw [nodesAll, ih, flatMap_cons]

@[elab_as_elim]
theorem Tree.induct {motive : Tree ν π → Prop} (t : Tree ν π)
    (node : ∀ name items children, (∀ c ∈ children, motive c) → motive (.node name items children)) :
    motive t := by
  match t with
  | .node name items children => exact node name items children fun c _ => c.induct node

/-- A reader of events with a state, which may stop at an item with a result. -/
structure Visitor (ν π σ ρ : Type) where
  enter : σ → ν → σ
  item : σ → π → Except ρ σ
  leave : σ → σ
  finish : σ → ρ

namespace Visitor

variable (v : Visitor ν π σ ρ)

def run : σ → List (Event ν π) → ρ
  | s, [] => v.finish s
  | s, .enter name :: events => run (v.enter s name) events
  | s, .item content :: events =>
    match v.item s content with
    | .error r => r
    | .ok s' => run s' events
  | s, .leave :: events => run (v.leave s) events

def visit (s : σ) (node : ν × List π) : Except ρ σ := node.2.foldlM v.item (v.enter s node.1)

def resume : Except ρ σ → List (Event ν π) → ρ
  | .error r, _ => r
  | .ok s, events => v.run s events

def settle : Except ρ σ → ρ
  | .error r => r
  | .ok s => v.finish s

structure Forgets : Prop where
  enter_leave : ∀ s name, v.enter (v.leave s) name = v.enter s name
  finish_leave : ∀ s, v.finish (v.leave s) = v.finish s

def Fresh (events : List (Event ν π)) : Prop := ∀ s, v.run (v.leave s) events = v.run s events

theorem run_items (items : List π) (events : List (Event ν π)) (s : σ) :
    v.run s (items.map .item ++ events) = v.resume (items.foldlM v.item s) events := by
  induction items generalizing s with
  | nil => rfl
  | cons content items ih =>
    rw [map_cons, cons_append, run, foldlM_cons]
    cases v.item s content with
    | error r => rfl
    | ok s' => exact ih s'

theorem resume_bind (first : Except ρ σ) (next : σ → Except ρ σ) (events : List (Event ν π)) :
    v.resume (first >>= next) events = match first with
      | .error r => r
      | .ok s => v.resume (next s) events := by
  cases first with
  | error r | ok s => rfl

variable {v}

theorem Fresh.leave {events : List (Event ν π)} (fresh : v.Fresh events) :
    v.Fresh (.leave :: events) := fun s => fresh (v.leave s)

theorem Fresh.tree (forgets : v.Forgets) (t : Tree ν π) (events : List (Event ν π)) :
    v.Fresh (t.events ++ events) := by
  intro s
  cases t with
  | node name items children => rw [Tree.events, cons_append, run, run, forgets.enter_leave]

theorem Fresh.trees (forgets : v.Forgets) (ts : List (Tree ν π)) {events : List (Event ν π)}
    (fresh : v.Fresh events) : v.Fresh (eventsAll ts ++ events) := by
  cases ts with
  | nil => exact fresh
  | cons t ts =>
    rw [eventsAll, append_assoc]
    exact Fresh.tree forgets t _

mutual

theorem run_tree (forgets : v.Forgets) (t : Tree ν π) {events : List (Event ν π)}
    (fresh : v.Fresh events) (s : σ) :
    v.run s (t.events ++ events) = v.resume (t.nodes.foldlM v.visit s) events := by
  match t with
  | .node name items children =>
    have hinner (s' : σ) : v.run s' (eventsAll children ++ .leave :: events) =
        v.resume ((nodesAll children).foldlM v.visit s') events := by
      rw [run_trees forgets children fresh.leave]
      cases (nodesAll children).foldlM v.visit s' with
      | error r => rfl
      | ok s'' => exact fresh s''
    rw [Tree.events, cons_append, run, append_assoc, append_assoc, run_items,
      Tree.nodes, foldlM_cons, resume_bind, visit]
    cases items.foldlM v.item (v.enter s name) with
    | error r => rfl
    | ok s' => exact hinner s'

theorem run_trees (forgets : v.Forgets) (ts : List (Tree ν π)) {events : List (Event ν π)}
    (fresh : v.Fresh events) (s : σ) :
    v.run s (eventsAll ts ++ events) = v.resume ((nodesAll ts).foldlM v.visit s) events := by
  match ts with
  | [] => rfl
  | t :: rest =>
    rw [eventsAll, nodesAll, append_assoc, run_tree forgets t (.trees forgets rest fresh),
      foldlM_append, resume_bind]
    cases t.nodes.foldlM v.visit s with
    | error r => rfl
    | ok s' => exact run_trees forgets rest fresh s'

end

theorem run_events (forgets : v.Forgets) (t : Tree ν π) (s : σ) :
    v.run s t.events = v.settle (t.nodes.foldlM v.visit s) := by
  have hend : v.Fresh [] := forgets.finish_leave
  have h := run_tree forgets t hend s
  rw [append_nil] at h
  rw [h]
  cases t.nodes.foldlM v.visit s with
  | error r | ok s' => rfl

section

variable {wanted : ν → Bool} {test : π → Bool} {found : π → ρ} {default : ρ} {live : σ → Bool}

/-- A visitor that looks at the items of some nodes and stops at the first one that passes a test. -/
structure Seeks (v : Visitor ν π σ ρ) (wanted : ν → Bool) (test : π → Bool) (found : π → ρ)
    (default : ρ) (live : σ → Bool) : Prop where
  enter : ∀ s name, live (v.enter s name) = wanted name
  item : ∀ s content, v.item s content =
    if live s ∧ test content then .error (found content) else .ok s
  finish : ∀ s, v.finish s = default

variable (seeks : v.Seeks wanted test found default live)

include seeks

theorem Seeks.dead {s : σ} (quiet : live s = false) (items : List π) : items.foldlM v.item s = .ok s := by
  induction items with
  | nil => rfl
  | cons content items ih =>
    rw [foldlM_cons, seeks.item, quiet, if_neg (Bool.false_ne_true ·.1)]
    exact ih

theorem Seeks.alive {s : σ} (looking : live s = true) (items : List π) :
    items.foldlM v.item s = (items.find? test).elim (.ok s) fun c => .error (found c) := by
  induction items with
  | nil => rfl
  | cons content items ih =>
    rw [foldlM_cons, seeks.item]
    by_cases htest : test content
    · rw [if_pos ⟨looking, htest⟩, find?_cons_of_pos htest]
      rfl
    · rw [if_neg fun h => htest h.2, find?_cons_of_neg htest]
      exact ih

theorem Seeks.nodes (nodes : List (ν × List π)) (s : σ) : v.settle (nodes.foldlM v.visit s) =
      ((nodes.filter fun node => wanted node.1).findSome? fun node => node.2.find? test).elim default
        found := by
  induction nodes generalizing s with
  | nil => exact seeks.finish s
  | cons node nodes ih =>
    have hlive := seeks.enter s node.1
    rw [foldlM_cons, visit, filter_cons]
    by_cases hwanted : wanted node.1
    · rw [seeks.alive (hlive.trans hwanted), if_pos hwanted, findSome?_cons]
      cases node.2.find? test with
      | some content => rfl
      | none => exact ih _
    · rw [seeks.dead (hlive.trans (Bool.eq_false_iff.mpr hwanted)), if_neg hwanted]
      exact ih _

end

end Visitor

end CibosPlatform.Core.EventTree

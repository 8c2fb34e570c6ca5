/- digest: Trees whose children carry names, changes at the end of a path, and what they leave alone. -/

import Mathlib.Data.Multiset.Bind
import Mathlib.Tactic.Abel

namespace CibosPlatform.Core.NamedTree

open List Function

variable {ν ι δ : Type}

inductive Tree (ν ι δ : Type) where
  | leaf (label : ι) (payload : δ)
  | branch (label : ι) (children : List (ν × Tree ν ι δ))

/-- A node without what is below it: children are listed by name, label and sort. -/
inductive Face (ν ι δ : Type) where
  | leaf (payload : δ)
  | branch (listing : List (ν × ι × Bool))

def Face.names : Face ν ι δ → List ν
  | leaf _ => []
  | branch listing => listing.map Prod.fst

def Face.below : Face ν ι δ → List ι
  | leaf _ => []
  | branch listing => listing.map fun e => e.2.1

inductive Miss where
  | blocked
  | absent

namespace Tree

def label : Tree ν ι δ → ι
  | leaf i _ => i
  | branch i _ => i

def isBranch : Tree ν ι δ → Bool
  | leaf _ _ => false
  | branch _ _ => true

def listing (children : List (ν × Tree ν ι δ)) : List (ν × ι × Bool) :=
  children.map fun e => (e.1, e.2.label, e.2.isBranch)

def face : Tree ν ι δ → Face ν ι δ
  | leaf _ d => .leaf d
  | branch _ children => .branch (listing children)

mutual

def nodes : Tree ν ι δ → Multiset (ι × Face ν ι δ)
  | leaf i d => {(i, .leaf d)}
  | branch i children => (i, .branch (listing children)) ::ₘ nodesOf children

def nodesOf : List (ν × Tree ν ι δ) → Multiset (ι × Face ν ι δ)
  | [] => 0
  | (_, t) :: rest => nodes t + nodesOf rest

end

variable (t : Tree ν ι δ)

def labels : Multiset ι := t.nodes.map Prod.fst

def Distinct : Prop := ∀ x ∈ t.nodes, x.2.names.Nodup

@[simp] theorem nodesOf_nil : nodesOf ([] : List (ν × Tree ν ι δ)) = 0 := by rw [nodesOf]

@[simp] theorem nodesOf_cons (e : ν × Tree ν ι δ) (rest : List (ν × Tree ν ι δ)) :
    nodesOf (e :: rest) = nodes e.2 + nodesOf rest := by
  obtain ⟨name, t⟩ := e
  rw [nodesOf]

@[simp] theorem nodesOf_append (first second : List (ν × Tree ν ι δ)) :
    nodesOf (first ++ second) = nodesOf first + nodesOf second := by
  induction first with
  | nil => simp
  | cons e first ih => simp [ih, add_assoc]

@[simp] theorem nodes_leaf (i : ι) (d : δ) : nodes (leaf i d : Tree ν ι δ) = {(i, .leaf d)} := by
  rw [nodes]

@[simp] theorem nodes_branch (i : ι) (children : List (ν × Tree ν ι δ)) :
    nodes (branch i children) = (i, .branch (listing children)) ::ₘ nodesOf children := by
  rw [nodes]

theorem face_mem_nodes : (t.label, t.face) ∈ t.nodes := by
  cases t with
  | leaf i d | branch i children => simp [label, face]

theorem label_mem : t.label ∈ t.labels :=
  Multiset.mem_map_of_mem Prod.fst t.face_mem_nodes

mutual

private theorem labels_root_below : ∀ t : Tree ν ι δ,
    t.nodes.map Prod.fst = t.label ::ₘ t.nodes.bind fun x => (x.2.below : Multiset ι)
  | leaf i d => by simp [label, Face.below]
  | branch i children => by
    rw [nodes_branch, Multiset.map_cons, labelsOf_below children, Multiset.cons_bind]
    simp [label, Face.below, listing, comp_def]

private theorem labelsOf_below : ∀ children : List (ν × Tree ν ι δ),
    (nodesOf children).map Prod.fst =
      (children.map fun e => e.2.label : List ι) + (nodesOf children).bind fun x => (x.2.below : Multiset ι)
  | [] => by simp
  | (name, t) :: rest => by
    rw [nodesOf_cons, Multiset.map_add, labels_root_below t, labelsOf_below rest, Multiset.add_bind,
      map_cons, ← Multiset.cons_coe, Multiset.cons_add, Multiset.cons_add]
    congr 1
    exact add_left_comm ..

end

theorem labels_eq (t : Tree ν ι δ) :
    t.labels = t.label ::ₘ t.nodes.bind fun x => (x.2.below : Multiset ι) := labels_root_below t

mutual

private theorem label_of_descent {P : ι → Prop} : ∀ t : Tree ν ι δ, P t.label →
    (∀ x ∈ t.nodes, P x.1 → ∀ i ∈ x.2.below, P i) → ∀ x ∈ t.nodes, P x.1
  | leaf i d, hroot, _, x, hx => by
    rw [nodes_leaf, Multiset.mem_singleton] at hx
    rw [hx]
    exact hroot
  | branch i children, hroot, hstep, x, hx => by
    rw [nodes_branch, Multiset.mem_cons] at hx
    rcases hx with rfl | hx
    · exact hroot
    · refine labelsOf_of_descent children (fun e he => ?_) (fun y hy => ?_) x hx
      · refine hstep _ (face_mem_nodes (branch i children)) hroot _ ?_
        simp only [face, Face.below, listing, map_map]
        exact mem_map.mpr ⟨e, he, rfl⟩
      · exact hstep y (by rw [nodes_branch]; exact Multiset.mem_cons_of_mem hy)

private theorem labelsOf_of_descent {P : ι → Prop} : ∀ children : List (ν × Tree ν ι δ),
    (∀ e ∈ children, P e.2.label) → (∀ x ∈ nodesOf children, P x.1 → ∀ i ∈ x.2.below, P i) →
    ∀ x ∈ nodesOf children, P x.1
  | [], _, _, x, hx => by simp at hx
  | (name, t) :: rest, hroots, hstep, x, hx => by
    rw [nodesOf_cons, Multiset.mem_add] at hx
    rcases hx with hx | hx
    · refine label_of_descent t (hroots _ mem_cons_self) (fun y hy => hstep y ?_) x hx
      rw [nodesOf_cons]
      exact Multiset.mem_add.mpr (.inl hy)
    · refine labelsOf_of_descent rest (fun e he => hroots e (mem_cons_of_mem _ he))
        (fun y hy => hstep y ?_) x hx
      rw [nodesOf_cons]
      exact Multiset.mem_add.mpr (.inr hy)

end

theorem labels_descent {P : ι → Prop} {t : Tree ν ι δ} (root : P t.label)
    (step : ∀ x ∈ t.nodes, P x.1 → ∀ i ∈ x.2.below, P i) : ∀ i ∈ t.labels, P i := by
  intro i hi
  obtain ⟨x, hx, rfl⟩ := Multiset.mem_map.mp hi
  exact label_of_descent t root step x hx

variable {pre post : List (ν × Tree ν ι δ)}

theorem other_names {name : ν} {s : Tree ν ι δ}
    (distinct : ((pre ++ (name, s) :: post).map Prod.fst).Nodup) :
    (∀ e ∈ pre, e.1 ≠ name) ∧ ∀ e ∈ post, e.1 ≠ name := by
  rw [map_append, map_cons, nodup_append] at distinct
  obtain ⟨-, hpost, hpre⟩ := distinct
  refine ⟨fun e he => hpre e.1 (mem_map_of_mem he) name mem_cons_self, ?_⟩
  intro e he hname
  have hmem : e.1 ∈ post.map Prod.fst := mem_map_of_mem he
  exact (nodup_cons.mp hpost).1 (hname ▸ hmem)

private theorem listing_names (children : List (ν × Tree ν ι δ)) :
    (listing children).map Prod.fst = children.map Prod.fst := by
  simp [listing, comp_def]

theorem Distinct.children {i : ι} {children : List (ν × Tree ν ι δ)}
    (h : (branch i children).Distinct) : (children.map Prod.fst).Nodup := by
  have hroot := h _ (face_mem_nodes _)
  rwa [face, Face.names, listing_names] at hroot

theorem Distinct.below {i : ι} {name : ν} {s : Tree ν ι δ}
    (h : (branch i (pre ++ (name, s) :: post)).Distinct) : s.Distinct := fun x hx =>
  h x (by simp [hx])

def addChild (name : ν) (c : Tree ν ι δ) : Tree ν ι δ → Tree ν ι δ
  | leaf i d => leaf i d
  | branch i children => branch i (children ++ [(name, c)])

def setPayload (d : δ) : Tree ν ι δ → Tree ν ι δ
  | leaf i _ => leaf i d
  | branch i children => branch i children

structure Rooted (f : Tree ν ι δ → Tree ν ι δ) : Prop where
  label : ∀ t, (f t).label = t.label
  isBranch : ∀ t, (f t).isBranch = t.isBranch

theorem Rooted.addChild (name : ν) (c : Tree ν ι δ) : Rooted (addChild name c) where
  label t := by cases t <;> rfl
  isBranch t := by cases t <;> rfl

theorem Rooted.setPayload (d : δ) : Rooted (setPayload d : Tree ν ι δ → _) where
  label t := by cases t <;> rfl
  isBranch t := by cases t <;> rfl

section

variable [DecidableEq ν]

def child : Tree ν ι δ → ν → Except Miss (Tree ν ι δ)
  | leaf _ _, _ => .error .blocked
  | branch _ children, name =>
    match children.find? fun e => e.1 = name with
    | some e => .ok e.2
    | none => .error .absent

def lookup : List ν → Tree ν ι δ → Except Miss (Tree ν ι δ)
  | [], t => .ok t
  | name :: path, t =>
    match t.child name with
    | .ok s => lookup path s
    | .error e => .error e

def alter (f : Tree ν ι δ → Tree ν ι δ) : List ν → Tree ν ι δ → Tree ν ι δ
  | [], t => f t
  | _ :: _, leaf i d => leaf i d
  | name :: path, branch i children =>
    branch i (children.map fun e => if e.1 = name then (e.1, alter f path e.2) else e)

def dropChild (name : ν) : Tree ν ι δ → Tree ν ι δ
  | leaf i d => leaf i d
  | branch i children => branch i (children.filter fun e => e.1 ≠ name)

theorem Rooted.dropChild (name : ν) : Rooted (dropChild name : Tree ν ι δ → _) where
  label t := by cases t <;> rfl
  isBranch t := by cases t <;> rfl

theorem Rooted.alter {f : Tree ν ι δ → Tree ν ι δ} (h : Rooted f) (path : List ν) :
    Rooted (alter f path) := by
  cases path with
  | nil => exact h
  | cons name path => exact ⟨fun t => by cases t <;> rfl, fun t => by cases t <;> rfl⟩

variable {t s c : Tree ν ι δ} {name : ν} {i : ι} {children pre post : List (ν × Tree ν ι δ)} {path : List ν}

theorem child_eq_ok (h : t.child name = .ok s) :
    ∃ i pre post, t = branch i (pre ++ (name, s) :: post) ∧ ∀ e ∈ pre, e.1 ≠ name := by
  cases t with
  | leaf i d => cases h
  | branch i children =>
    rw [child] at h
    rcases hfind : children.find? fun e => e.1 = name with _ | ⟨found, c⟩
    · simp [hfind] at h
    · simp only [hfind, Except.ok.injEq] at h
      obtain ⟨hname, pre, post, rfl, hpre⟩ := find?_eq_some_iff_append.mp hfind
      simp only [decide_eq_true_eq] at hname
      subst hname h
      exact ⟨i, pre, post, rfl, fun e he => by simpa using hpre e he⟩

theorem child_branch_eq_error {m : Miss} (h : (branch i children).child name = .error m) :
    m = .absent ∧ name ∉ children.map Prod.fst := by
  rw [child] at h
  rcases hfind : children.find? fun e => e.1 = name with _ | e
  · simp only [hfind, Except.error.injEq] at h
    refine ⟨h.symm, fun hmem => ?_⟩
    obtain ⟨e, he, hname⟩ := mem_map.mp hmem
    have hmiss := find?_eq_none.mp hfind e he
    simp [hname] at hmiss
  · simp [hfind] at h

theorem child_addChild (hnew : name ∉ children.map Prod.fst) :
    (addChild name c (branch i children)).child name = .ok c := by
  have hmiss : children.find? (fun e => decide (e.1 = name)) = none := by
    rw [find?_eq_none]
    intro e he hname
    exact hnew (mem_map.mpr ⟨e, he, by simpa using hname⟩)
  rw [addChild, child, find?_append, hmiss]
  simp

variable (first second : List ν)

theorem lookup_append (t : Tree ν ι δ) : lookup (first ++ second) t = match lookup first t with
      | .ok s => lookup second s
      | .error e => .error e := by
  induction first generalizing t with
  | nil => rfl
  | cons name first ih =>
    rw [cons_append, lookup, lookup]
    cases t.child name with
    | ok s => exact ih s
    | error e => rfl

theorem lookup_snoc (parent : lookup path t = .ok s) (found : s.child name = .ok c) :
    lookup (path ++ [name]) t = .ok c := by
  rw [lookup_append, parent]
  simp [lookup, found]

variable (g : Tree ν ι δ → Tree ν ι δ)

private theorem map_alter_of_distinct (distinct : ((pre ++ (name, s) :: post).map Prod.fst).Nodup) :
    ((pre ++ (name, s) :: post).map fun e => if e.1 = name then (e.1, g e.2) else e) =
      pre ++ (name, g s) :: post := by
  obtain ⟨hpre, hpost⟩ := other_names distinct
  have hkeep : ∀ l : List (ν × Tree ν ι δ), (∀ e ∈ l, e.1 ≠ name) →
      (l.map fun e => if e.1 = name then (e.1, g e.2) else e) = l := by
    intro l hl
    conv_rhs => rw [← map_id l]
    exact map_congr_left fun e he => if_neg (hl e he)
  rw [map_append, map_cons, if_pos rfl, hkeep pre hpre, hkeep post hpost]

theorem alter_congr {f g : Tree ν ι δ → Tree ν ι δ} (distinct : t.Distinct) (found : lookup path t = .ok s)
    (same : f s = g s) :
    alter f path t = alter g path t := by
  induction path generalizing t with
  | nil =>
    cases found
    exact same
  | cons name path ih =>
    rw [lookup] at found
    rcases hchild : t.child name with e | c
    · simp [hchild] at found
    · simp only [hchild] at found
      obtain ⟨i, pre, post, rfl, -⟩ := child_eq_ok hchild
      rw [alter, alter, map_alter_of_distinct (alter f path) distinct.children,
        map_alter_of_distinct (alter g path) distinct.children, ih distinct.below found]

theorem nodes_focus (distinct : t.Distinct) (found : lookup path t = .ok s) :
    ∃ rest, t.nodes = s.nodes + rest ∧
      ∀ f, Rooted f → (alter f path t).nodes = (f s).nodes + rest := by
  induction path generalizing t with
  | nil =>
    cases found
    exact ⟨0, (add_zero _).symm, fun f _ => (add_zero _).symm⟩
  | cons name path ih =>
    rw [lookup] at found
    rcases hchild : t.child name with e | c
    · simp [hchild] at found
    · simp only [hchild] at found
      obtain ⟨i, pre, post, rfl, -⟩ := child_eq_ok hchild
      obtain ⟨rest, hbefore, hafter⟩ := ih distinct.below found
      refine ⟨(i, .branch (listing (pre ++ (name, c) :: post))) ::ₘ (nodesOf pre + nodesOf post + rest),
        ?_, ?_⟩
      · rw [nodes_branch, nodesOf_append, nodesOf_cons, hbefore, Multiset.add_cons]
        congr 1
        abel
      · intro f hf
        -- the parent lists the same names, labels and sorts, so its face stays
        have hface : listing (pre ++ (name, alter f path c) :: post) =
            listing (pre ++ (name, c) :: post) := by
          simp only [listing, map_append, map_cons, (hf.alter path).label, (hf.alter path).isBranch]
        rw [alter, map_alter_of_distinct (alter f path) distinct.children, nodes_branch, hface,
          nodesOf_append, nodesOf_cons, hafter f hf, Multiset.add_cons]
        congr 1
        abel

theorem labels_addChild (distinct : t.Distinct) (found : lookup path t = .ok (branch i children)) (name : ν)
    (c : Tree ν ι δ) : (alter (addChild name c) path t).labels = c.labels + t.labels := by
  obtain ⟨rest, hbefore, hafter⟩ := nodes_focus distinct found
  rw [labels, labels, labels, hafter _ (.addChild name c), hbefore, addChild, nodes_branch, nodes_branch,
    nodesOf_append, nodesOf_cons, nodesOf_nil]
  simp only [Multiset.map_add, Multiset.map_cons, Multiset.cons_add, Multiset.add_cons, Multiset.map_zero]
  congr 1
  abel

theorem dropChild_middle (distinct : ((pre ++ (name, c) :: post).map Prod.fst).Nodup) :
    dropChild name (branch i (pre ++ (name, c) :: post)) = branch i (pre ++ post) := by
  obtain ⟨hpre, hpost⟩ := other_names distinct
  have hkeep : ∀ l : List (ν × Tree ν ι δ), (∀ e ∈ l, e.1 ≠ name) →
      (l.filter fun e => e.1 ≠ name) = l := by
    intro l hl
    exact filter_eq_self.mpr fun e he => by simpa using hl e he
  rw [dropChild, filter_append, filter_cons_of_neg (by simp), hkeep pre hpre, hkeep post hpost]

theorem labels_dropChild (distinct : t.Distinct) (names : ((pre ++ (name, c) :: post).map Prod.fst).Nodup)
    (found : lookup path t = .ok (branch i (pre ++ (name, c) :: post))) :
    t.labels = c.labels + (alter (dropChild name) path t).labels := by
  obtain ⟨rest, hbefore, hafter⟩ := nodes_focus distinct found
  rw [labels, labels, labels, hafter _ (.dropChild name), hbefore, dropChild_middle names, nodes_branch,
    nodes_branch, nodesOf_append, nodesOf_append, nodesOf_cons]
  simp only [Multiset.map_add, Multiset.map_cons, Multiset.cons_add, Multiset.add_cons]
  congr 1
  abel

theorem labels_setPayload {d : δ} (distinct : t.Distinct) (found : lookup path t = .ok (leaf i d)) (d' : δ) :
    (alter (setPayload d') path t).labels = t.labels := by
  obtain ⟨rest, hbefore, hafter⟩ := nodes_focus distinct found
  rw [labels, labels, hafter _ (.setPayload d'), hbefore, setPayload, nodes_leaf, nodes_leaf]
  simp only [Multiset.map_add, Multiset.map_singleton]

variable (f : Tree ν ι δ → Tree ν ι δ)

theorem lookup_alter (found : lookup path t = .ok s) :
    lookup path (alter f path t) = .ok (f s) := by
  induction path generalizing t with
  | nil =>
    cases found
    rfl
  | cons name path ih =>
    rw [lookup] at found
    rcases hchild : t.child name with e | c
    · simp [hchild] at found
    · simp only [hchild] at found
      obtain ⟨i, pre, post, rfl, hpre⟩ := child_eq_ok hchild
      have hskip : (pre.map fun e => if e.1 = name then (e.1, alter f path e.2) else e).find?
          (fun e => decide (e.1 = name)) = none := by
        rw [find?_eq_none]
        intro e he
        obtain ⟨e', he', rfl⟩ := mem_map.mp he
        simp [hpre e' he']
      have hnext : (alter f (name :: path) (branch i (pre ++ (name, c) :: post))).child name =
          .ok (alter f path c) := by
        rw [alter, child, map_append, find?_append, hskip]
        simp
      rw [lookup, hnext]
      exact ih found

theorem alter_alter (path : List ν) (t : Tree ν ι δ) :
    alter f path (alter g path t) = alter (fun s => f (g s)) path t := by
  induction path generalizing t with
  | nil => rfl
  | cons name path ih =>
    cases t with
    | leaf i d => rfl
    | branch i children =>
      rw [alter, alter, alter, map_map]
      congr 1
      refine map_congr_left fun e _ => ?_
      by_cases hname : e.1 = name
      · simp [hname, ih]
      · simp [hname]

theorem setPayload_addChild {j : ι} {d d' : δ} (hnew : name ∉ children.map Prod.fst) :
    alter (setPayload d') [name] (addChild name (leaf j d) (branch i children)) =
      addChild name (leaf j d') (branch i children) := by
  have hkeep : (children.map fun e => if e.1 = name then (e.1, alter (setPayload d') [] e.2) else e) =
      children := by
    conv_rhs => rw [← map_id children]
    refine map_congr_left fun e he => if_neg fun hname => hnew ?_
    exact mem_map.mpr ⟨e, he, hname⟩
  rw [addChild, addChild, alter, map_append, hkeep, map_singleton, if_pos rfl, alter, setPayload]

theorem alter_append (t : Tree ν ι δ) :
    alter f (first ++ second) t = alter (alter f second) first t := by
  induction first generalizing t with
  | nil => rfl
  | cons name first ih =>
    cases t with
    | leaf i d => rfl
    | branch i children =>
      rw [cons_append, alter, alter]
      congr 1
      refine map_congr_left fun e _ => ?_
      rw [ih]

end

end Tree

end CibosPlatform.Core.NamedTree

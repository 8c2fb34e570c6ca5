/- source: cibos-kernel/src/paging.rs
   digest: What a walk, a page mapping and a block mapping do to every address space. -/

import CibosPlatform.Kernel.Paging.Space
import Mathlib.Logic.Relation

namespace CibosPlatform.Kernel.Paging.Walk

open Core Program TableForest Frame.Accounting Frame.Allocator List Option Finset Prog
open Space Tables Function

variable {κ : Type} {E : PageTableEncoder} {dom : PhysFrame → Prop}
  {roots : κ → Option PhysFrame} {m m' m'' : Machine} {k : κ} {page n : Nat}

section

theorem pagingInv_empty (wf : Wf m.frames)
    (covers : ∀ f : PhysFrame, f.index < m.frames.frameCount → dom f) :
    PagingInv E dom (fun _ : κ => none) m := by
  refine ⟨wf, covers, ?_, ?_, ?_⟩
  · intro k1 k2 p1 p2 t h
    cases h
  · intro k p t h
    cases h
  · intro k p i entry h
    cases h

theorem pagingInv_gave {f : PhysFrame} {frames : AllocState} (inv : PagingInv E dom roots m)
    (fresh : Fresh (child E) m.mem roots f) (gave : Gave m.frames frames f.index) :
    PagingInv E dom roots { m with frames } where
  wf := gave.wf inv.wf
  covers := by
    intro g hg
    apply inv.covers g
    rw [← gave.frameCount_eq]
    exact hg
  separated := inv.separated
  held := by
    intro k p t hnode
    obtain ⟨hcovered, htaken⟩ := inv.held k p t hnode
    constructor
    · rw [gave.frameCount_eq]
      exact hcovered
    · rw [gave.freeSet_eq, mem_insert, not_or]
      refine ⟨?_, htaken⟩
      intro hindex
      have hsame : t = f := by rw [← fromIndex_index t, ← fromIndex_index f, hindex]
      exact fresh k p (hsame ▸ hnode)
  shape := inv.shape

structure Grown (E : PageTableEncoder) (dom : PhysFrame → Prop) (roots : κ → Option PhysFrame)
    (m m' : Machine) : Prop where
  inv : PagingInv E dom roots m'
  took : ∃ F, Took m.frames m'.frames F ∧ ∀ k p t, node (child E) m'.mem roots k p = some t →
    node (child E) m.mem roots k p = some t ∨ t.index ∈ F
  target : ∀ k page, pageTarget E roots m'.mem k page = pageTarget E roots m.mem k page

theorem Grown.refl (inv : PagingInv E dom roots m) : Grown E dom roots m m :=
  ⟨inv, ⟨∅, Took.refl _, fun _ _ _ h => .inl h⟩, fun _ _ => rfl⟩

theorem Grown.trans (first : Grown E dom roots m m') (second : Grown E dom roots m' m'') :
    Grown E dom roots m m'' := by
  obtain ⟨F, tookF, hF⟩ := first.took
  obtain ⟨G, tookG, hG⟩ := second.took
  refine ⟨second.inv, ⟨F ∪ G, tookF.trans tookG, ?_⟩, ?_⟩
  · intro k p t ht
    rcases hG k p t ht with ht | hnew
    · rcases hF k p t ht with ht | hnew
      · exact .inl ht
      · exact .inr (mem_union_left _ hnew)
    · exact .inr (mem_union_right _ hnew)
  · intro k page
    rw [second.target, first.target]

def missing (E : PageTableEncoder) (roots : κ → Option PhysFrame) (mem : PhysFrame → Nat → Entry)
    (k : κ) (page : Nat) : Nat :=
  (List.range 3).countP fun l => (node (child E) mem roots k (path page (l + 1))).isNone

variable {t c : PhysFrame} {q : List Nat}

theorem missing_eq_zero (h : node (child E) m.mem roots k (path page 3) = some t) :
    missing E roots m.mem k page = 0 := by
  rw [missing, countP_eq_zero]
  intro l hl
  have hl := List.mem_range.mp hl
  obtain ⟨t', ht'⟩ := node_above (l := l + 1) (by omega) h
  simp [ht']

theorem missing_pos (h : node (child E) m.mem roots k (path page 3) = none) :
    0 < missing E roots m.mem k page := by
  rw [missing, countP_pos_iff]
  exact ⟨2, by simp, by simp [h]⟩

variable [DecidableEq κ]

theorem grown_of_linked {p : List Nat} {i : Nat} (faithful : Faithful E dom)
    (h : Linked E dom roots k p i c m m') : Grown E dom roots m m' := by
  refine ⟨h.inv, ⟨{c.index}, h.took, ?_⟩, h.pageTarget_eq faithful⟩
  intro k' q t ht
  rw [h.node_eq] at ht
  split at ht
  · obtain rfl := some.inj ht
    exact .inr (Finset.mem_singleton_self _)
  · exact .inl ht

def Built (E : PageTableEncoder) (dom : PhysFrame → Prop) (roots : κ → Option PhysFrame) (k : κ)
    (page n : Nat) : Machine → Machine → Prop :=
  Relation.ReflTransGen fun a b =>
    ∃ l < n, ∃ c, Linked E dom roots k (path page l) (digit page l) c a b

theorem Built.mono {n' : Nat} (h : Built E dom roots k page n m m') (hn : n ≤ n') :
    Built E dom roots k page n' m m' :=
  Relation.ReflTransGen.mono (fun _ _ ⟨l, hl, c, hlinked⟩ => ⟨l, hl.trans_le hn, c, hlinked⟩) _ _ h

theorem Built.grown (faithful : Faithful E dom) (inv : PagingInv E dom roots m)
    (h : Built E dom roots k page n m m') : Grown E dom roots m m' := by
  induction h with
  | refl => exact .refl inv
  | tail _ step ih =>
    obtain ⟨l, -, c, hlinked⟩ := step
    exact ih.trans (grown_of_linked faithful hlinked)

theorem linked_absent {l : Nat} (h : Linked E dom roots k (path page l) (digit page l) c m m') :
    node (child E) m.mem roots k (path page (l + 1)) = none := by
  obtain ⟨parent, reached, absent⟩ := h.parent
  rw [node_path_succ reached, child_of_absent absent]

theorem linked_node {l : Nat} (h : Linked E dom roots k (path page l) (digit page l) c m m') {k' : κ} :
    node (child E) m'.mem roots k' q = some t ↔
      node (child E) m.mem roots k' q = some t ∨ (k' = k ∧ q = path page (l + 1) ∧ c = t) := by
  rw [h.node_eq, ← path_succ]
  split
  · rename_i hhere
    obtain ⟨rfl, rfl⟩ := hhere
    simp [linked_absent h]
  · rename_i hother
    constructor
    · exact .inl
    · rintro (hold | ⟨hk, hq, -⟩)
      · exact hold
      · exact absurd ⟨hk, hq⟩ hother

theorem Built.node_mono (h : Built E dom roots k page n m m') {k' : κ}
    (hnode : node (child E) m.mem roots k' q = some t) : node (child E) m'.mem roots k' q = some t := by
  induction h with
  | refl => exact hnode
  | tail _ step ih =>
    obtain ⟨l, -, c, hlinked⟩ := step
    exact (linked_node hlinked).mpr (.inl ih)

theorem Built.node_new (h : Built E dom roots k page n m m') {k' : κ}
    (hnode : node (child E) m'.mem roots k' q = some t) :
    node (child E) m.mem roots k' q = some t ∨ (k' = k ∧ ∃ l < n, q = path page (l + 1)) := by
  induction h with
  | refl => exact .inl hnode
  | tail _ step ih =>
    obtain ⟨l, hl, c, hlinked⟩ := step
    rcases (linked_node hlinked).mp hnode with hold | ⟨hk, hq, -⟩
    · exact ih hold
    · exact .inr ⟨hk, l, hl, hq⟩

theorem missing_linked {l : Nat} (h : Linked E dom roots k (path page l) (digit page l) c m m') :
    missing E roots m'.mem k page + 1 = missing E roots m.mem k page := by
  have hdepth := h.depth
  rw [path_length] at hdepth
  have hnone := linked_absent h
  have hsame : ∀ j, path page (j + 1) = path page l ++ [digit page l] ↔ j = l := by
    intro j
    rw [← path_succ]
    constructor
    · intro heq
      have hlength := congrArg length heq
      simpa using hlength
    · rintro rfl
      rfl
  simp only [missing, h.node_eq, true_and, hsame, range_succ, List.range_zero, nil_append,
    countP_append, countP_singleton]
  interval_cases l <;> simp [hnone] <;> omega

theorem Built.card_free (h : Built E dom roots k page n m m') :
    (freeSet m'.frames).card + missing E roots m.mem k page =
      (freeSet m.frames).card + missing E roots m'.mem k page := by
  induction h with
  | refl => rfl
  | tail _ step ih =>
    obtain ⟨l, -, c, hlinked⟩ := step
    have hcard := hlinked.took.card_free
    have hmissing := missing_linked hlinked
    rw [card_singleton] at hcard
    omega

end

section

variable {c : PhysFrame} {frames : AllocState} {refuseBlocks : Bool}

private theorem allocateZeroed_ok (call : allocate m.frames = (.ok c, frames)) :
    allocateZeroed m = (.ok c, ({ m with frames } : Machine).zero c) := by
  simp [allocateZeroed, Machine.onFrames, bind_run, call]

variable (inv : PagingInv E dom roots m)

include inv

private theorem allocateZeroed_err {e : KernelError} (call : allocate m.frames = (.err e, frames)) :
    allocateZeroed m = (.err e, m) ∧ e = .limitExceeded "physical frames" ∧ freeSet m.frames = ∅ := by
  obtain ⟨rfl, hfree, rfl⟩ := allocate_err inv.wf call
  exact ⟨by simp [allocateZeroed, Machine.onFrames, bind_run, call], rfl, hfree⟩

private theorem allocateZeroed_panic (call : allocate m.frames = (.panic, frames)) :
    allocateZeroed m = (.panic, m) ∧ freeSet m.frames = ∅ := by
  obtain ⟨rfl, hfree⟩ := allocate_panic inv.wf call
  exact ⟨by simp [allocateZeroed, Machine.onFrames, bind_run, call], hfree⟩

theorem allocateZeroed_cases : (∃ c frames, allocate m.frames = (.ok c, frames) ∧
      allocateZeroed m = (.ok c, ({ m with frames } : Machine).zero c)) ∨
    (allocateZeroed m = (.err (.limitExceeded "physical frames"), m) ∧ freeSet m.frames = ∅) ∨
    (allocateZeroed m = (.panic, m) ∧ freeSet m.frames = ∅) := by
  rcases hcall : allocate m.frames with ⟨c | e | _, frames⟩
  · exact .inl ⟨c, frames, rfl, allocateZeroed_ok hcall⟩
  · obtain ⟨hrun, rfl, hfree⟩ := allocateZeroed_err inv hcall
    exact .inr (.inl ⟨hrun, hfree⟩)
  · exact .inr (.inr (allocateZeroed_panic inv hcall))

omit inv

structure Reserved (E : PageTableEncoder) (dom : PhysFrame → Prop) (roots : κ → Option PhysFrame)
    (c : PhysFrame) (m m' : Machine) : Prop where
  inv : PagingInv E dom roots m'
  took : Took m.frames m'.frames {c.index}
  fresh : Fresh (child E) m.mem roots c
  zeroed : ∀ i, m'.mem c i = 0
  node_eq : ∀ k p, node (child E) m'.mem roots k p = node (child E) m.mem roots k p
  slot_eq : ∀ k p i, slot (child E) m'.mem roots k p i = slot (child E) m.mem roots k p i

theorem Reserved.pageTarget_eq (h : Reserved E dom roots c m m') (k : κ) (page : Nat) :
    pageTarget E roots m'.mem k page = pageTarget E roots m.mem k page := by
  rw [pageTarget, pageTarget, h.slot_eq, h.slot_eq]

theorem reserved (inv : PagingInv E dom roots m) (h : allocateZeroed m = (.ok c, m')) :
    Reserved E dom roots c m m' := by
  rcases allocateZeroed_cases inv with ⟨c', frames, hcall, hrun⟩ | ⟨hrun, -⟩ | ⟨hrun, -⟩
  · rw [hrun] at h
    obtain ⟨hc, rfl⟩ := Prod.mk.inj h
    obtain rfl := Outcome.ok.inj hc
    obtain ⟨hfree, took, -⟩ := allocate_ok inv.wf hcall
    have hfresh : Fresh (child E) m.mem roots c' := fun k p hnode => (inv.held k p c' hnode).2 hfree
    have hmem : ∀ k p t i, node (child E) m.mem roots k p = some t →
        (({ m with frames } : Machine).zero c').mem t i = m.mem t i := by
      intro k p t i hnode
      have hne : t ≠ c' := by
        rintro rfl
        exact hfresh k p hnode
      simp [Machine.zero, hne]
    have hnode : ∀ k p, node (child E) (({ m with frames } : Machine).zero c').mem roots k p =
        node (child E) m.mem roots k p :=
      fun k p => node_frame (hmem k) rfl p
    have hslot : ∀ k p i, slot (child E) (({ m with frames } : Machine).zero c').mem roots k p i =
        slot (child E) m.mem roots k p i := by
      intro k p i
      rw [slot, slot, hnode]
      rcases hn : node (child E) m.mem roots k p with _ | t
      · rfl
      · rw [map_some, map_some, hmem k p t i hn]
    refine ⟨⟨took.wf inv.wf, ?_, ?_, ?_, ?_⟩, took, hfresh, by simp [Machine.zero], hnode, hslot⟩
    · intro f hf
      exact inv.covers f (took.frameCount_eq ▸ hf)
    · intro k1 k2 p1 p2 t h1 h2
      rw [hnode] at h1 h2
      exact inv.separated _ _ _ _ _ h1 h2
    · intro k p t ht
      rw [hnode] at ht
      obtain ⟨hlt, hheld⟩ := inv.held k p t ht
      change t.index < frames.frameCount ∧ t.index ∉ freeSet frames
      rw [took.frameCount_eq, took.freeSet_eq]
      exact ⟨hlt, fun hmem => hheld (mem_sdiff.mp hmem).1⟩
    · intro k p i entry hentry
      rw [hslot] at hentry
      exact inv.shape k p i entry hentry
  · rw [hrun] at h
    cases h
  · rw [hrun] at h
    cases h

variable [DecidableEq κ]

/-- How a walk to depth `n` ends: at the table, at a block that maps the page, or without a frame
for a missing table. On failure the table at depth `n` was not linked in. -/
def WalkPost (E : PageTableEncoder) (dom : PhysFrame → Prop) (roots : κ → Option PhysFrame)
    (refuseBlocks : Bool) (k : κ) (page n : Nat) (m : Machine) : Outcome KernelError PhysFrame → Machine → Prop
  | .ok t, m' => Built E dom roots k page n m m' ∧
      node (child E) m'.mem roots k (path page n) = some t
  | .err e, m' => Built E dom roots k page (n - 1) m m' ∧
      ((refuseBlocks = true ∧ e = .invalidState "address covered by an existing large-page block" ∧
          pageTarget E roots m'.mem k page ≠ none) ∨
        (e = .limitExceeded "physical frames" ∧ freeSet m'.frames = ∅ ∧
          node (child E) m'.mem roots k (path page n) = none))
  | .panic, m' => Built E dom roots k page (n - 1) m m' ∧ freeSet m'.frames = ∅ ∧
      allocateZeroed m' = (.panic, m') ∧ node (child E) m'.mem roots k (path page n) = none

private theorem WalkPost.after_link {l : Nat} {o : Outcome KernelError PhysFrame}
    (h : Linked E dom roots k (path page l) (digit page l) c m m')
    (rest : WalkPost E dom roots refuseBlocks k page n m' o m'') (hl : l < n)
    (hfail : (∀ t, o ≠ .ok t) → l < n - 1) : WalkPost E dom roots refuseBlocks k page n m o m'' := by
  cases o with
  | ok t => exact ⟨.head ⟨l, hl, c, h⟩ rest.1, rest.2⟩
  | err e | panic => exact ⟨.head ⟨l, hfail (by simp), c, h⟩ rest.1, rest.2⟩

variable (faithful : Faithful E dom) (hn : n ≤ 3) (hblocks : refuseBlocks = false → n ≤ 2)

include faithful hn hblocks

theorem descend_spec (r : Nat) :
    ∀ (l : Nat) (m : Machine) (t : PhysFrame), l + r = n → PagingInv E dom roots m →
      node (child E) m.mem roots k (path page l) = some t →
      WalkPost E dom roots refuseBlocks k page n m
        (descend E refuseBlocks ((range' l r).map fun j => (j, digit page j)) t m).1
        (descend E refuseBlocks ((range' l r).map fun j => (j, digit page j)) t m).2 := by
  induction r with
  | zero =>
    intro l m t hsum inv reached
    obtain rfl : l = n := by omega
    exact ⟨.refl, reached⟩
  | succ r ih =>
    intro l m t hsum inv reached
    rw [range'_succ, List.map_cons, descend, bind_ok (gets_run _ _)]
    have hnext := node_path_succ reached
    by_cases hpresent : E.isPresent (m.mem t (digit page l))
    · rw [if_pos hpresent]
      rcases (shape_at inv reached).child_or_block faithful (by omega) hpresent with
        ⟨hblock, hchild⟩ | ⟨rfl, hblock⟩
      · rw [bind_ok (rejectIf_neg (by simp [hblock]) _ _)]
        exact ih (l + 1) m _ (by omega) inv (hnext.trans hchild)
      · obtain rfl : refuseBlocks = true := by
          cases refuseBlocks with
          | true => rfl
          | false =>
            have hle := hblocks rfl
            omega
        rw [bind_err (rejectIf_pos (by simp [hblock]) _ _)]
        refine ⟨.refl, .inl ⟨rfl, rfl, ?_⟩⟩
        rw [pageTarget_block (hnext.trans (child_of_block hblock)) reached, hpresent, hblock]
        simp
    · have habsent : E.isPresent (m.mem t (digit page l)) = false := by simpa using hpresent
      have hgone : node (child E) m.mem roots k (path page n) = none :=
        node_below (l := l + 1) (by omega) (hnext.trans (child_of_absent habsent))
      rw [if_neg hpresent]
      rcases hcall : allocate m.frames with ⟨c | e | _, frames⟩
      · have hlinked := linked faithful inv reached (by rw [path_length]; omega) habsent hcall
        have hchild : node (child E) (linkTable E m frames t (digit page l) c).mem roots k
            (path page (l + 1)) = some c := by
          rw [hlinked.node_eq, if_pos ⟨rfl, path_succ page l⟩]
        rw [bind_ok (allocateZeroed_ok hcall), bind_ok (update_run _ _)]
        refine WalkPost.after_link hlinked (ih (l + 1) _ c (by omega) hlinked.inv hchild) (by omega) ?_
        intro hfail
        rcases r with _ | r
        · exact absurd rfl (hfail c)
        · omega
      · obtain ⟨hrun, rfl, hfree⟩ := allocateZeroed_err inv hcall
        rw [bind_err hrun]
        exact ⟨.refl, .inr ⟨rfl, hfree, hgone⟩⟩
      · obtain ⟨hrun, hfree⟩ := allocateZeroed_panic inv hcall
        rw [bind_panic hrun]
        exact ⟨.refl, hfree, hrun, hgone⟩

theorem descend_root (inv : PagingInv E dom roots m) {root : PhysFrame} (hroot : roots k = some root) (virt : Nat) :
    WalkPost E dom roots refuseBlocks k (pageOf virt) n m (descend E refuseBlocks (indices virt n) root m).1
      (descend E refuseBlocks (indices virt n) root m).2 := by
  rw [indices_eq virt (by omega), range_eq_range']
  exact descend_spec faithful hn hblocks n 0 m root (by omega) inv (node_root hroot)

end

section

variable [DecidableEq κ] {root : PhysFrame}

structure Opened (E : PageTableEncoder) (dom : PhysFrame → Prop) (roots : κ → Option PhysFrame)
    (k : κ) (root : PhysFrame) (m m' : Machine) : Prop where
  inv : PagingInv E dom (update roots k (some root)) m'
  took : Took m.frames m'.frames {root.index}
  node_eq : ∀ k' p, node (child E) m'.mem (update roots k (some root)) k' p =
    if k' = k then if p = [] then some root else none else node (child E) m.mem roots k' p
  target : ∀ k' page, pageTarget E (update roots k (some root)) m'.mem k' page =
    if k' = k then none else pageTarget E roots m.mem k' page

theorem newRoot_ok (faithful : Faithful E dom) (inv : PagingInv E dom roots m) (k : κ)
    (h : newRoot m = (.ok root, m')) : Opened E dom roots k root m m' := by
  have hreserved := reserved inv h
  have hleaf : ∀ depth j, child E depth (m'.mem root j) = none := by
    intro depth j
    rw [hreserved.zeroed]
    exact child_of_absent faithful.zero_absent
  have hfresh : Fresh (child E) m'.mem roots root := by
    intro k' p hnode
    rw [hreserved.node_eq] at hnode
    exact hreserved.fresh k' p hnode
  have hnode : ∀ k' q, node (child E) m'.mem (update roots k (some root)) k' q =
      if k' = k then if q = [] then some root else none else node (child E) m'.mem roots k' q :=
    node_addRoot (fun _ _ _ _ _ _ => rfl) (hleaf 0)
  have hslot : ∀ k' p i, slot (child E) m'.mem (update roots k (some root)) k' p i =
      if k' = k then if p = [] then some 0 else none else slot (child E) m.mem roots k' p i := by
    intro k' p i
    rw [slot, hnode]
    by_cases hk : k' = k
    · rw [if_pos hk, if_pos hk]
      by_cases hp : p = []
      · rw [if_pos hp, if_pos hp, map_some, hreserved.zeroed]
      · rw [if_neg hp, if_neg hp, map_none]
    · rw [if_neg hk, if_neg hk, ← hreserved.slot_eq, slot]
  refine ⟨⟨hreserved.inv.wf, hreserved.inv.covers, ?_, ?_, ?_⟩, hreserved.took, ?_, ?_⟩
  · exact hreserved.inv.separated.addRoot (fun _ _ _ _ _ _ => rfl) (hleaf 0) hfresh
  · intro k' p t ht
    rw [hnode] at ht
    split_ifs at ht with hk hp
    · obtain rfl := some.inj ht
      have hfree := hreserved.took.subset (Finset.mem_singleton_self _)
      rw [hreserved.took.frameCount_eq, hreserved.took.freeSet_eq]
      exact ⟨(mem_freeSet.mp hfree).1, by simp⟩
    · exact hreserved.inv.held k' p t ht
  · intro k' p i entry hentry
    rw [hslot] at hentry
    split_ifs at hentry with hk hp
    · obtain rfl := some.inj hentry
      exact .absent faithful.zero_absent
    · exact inv.shape k' p i entry hentry
  · intro k' p
    rw [hnode, hreserved.node_eq]
  · intro k' page
    rw [pageTarget, hslot, hslot]
    by_cases hk : k' = k
    · have hne : ∀ n, path page (n + 1) ≠ [] := by
        intro n
        rw [path_succ]
        simp
      rw [if_pos hk, if_pos hk, if_pos hk, if_neg (hne 2), if_neg (hne 1)]
      rfl
    · rw [if_neg hk, if_neg hk, if_neg hk, pageTarget]

variable (mem : PhysFrame → Nat → Entry)

theorem slot_dropRoot (k k' : κ) (p : List Nat) (i : Nat) :
    slot (child E) mem (update roots k none) k' p i =
      if k' = k then none else slot (child E) mem roots k' p i := by
  rw [slot, node_dropRoot, slot]
  split <;> rfl

theorem pagingInv_dropRoot (inv : PagingInv E dom roots m) (k : κ) :
    PagingInv E dom (update roots k none) m where
  wf := inv.wf
  covers := inv.covers
  separated := inv.separated.dropRoot
  held := by
    intro k' p t hnode
    rw [node_dropRoot] at hnode
    split at hnode
    · cases hnode
    · exact inv.held k' p t hnode
  shape := by
    intro k' p i entry hslot
    rw [slot_dropRoot] at hslot
    split at hslot
    · cases hslot
    · exact inv.shape k' p i entry hslot

theorem pageTarget_dropRoot (k k' : κ) (page : Nat) :
    pageTarget E (update roots k none) mem k' page =
      if k' = k then none else pageTarget E roots mem k' page := by
  rw [pageTarget, slot_dropRoot, slot_dropRoot, pageTarget]
  split <;> rfl

end

section

variable [DecidableEq κ] {root frame : PhysFrame} {virt : Nat} {perms : Permissions}
  {refuseBlocks : Bool} {reason : String} {entry : Entry}

def place (E : PageTableEncoder) (root : PhysFrame) (refuseBlocks : Bool) (virt n : Nat)
    (reason : String) (entry : Entry) : OnMachine Unit := do
  let table ← descend E refuseBlocks (indices virt n) root
  let old ← gets fun m => m.mem table (digit (pageOf virt) n)
  rejectIf (E.isPresent old) (.invalidState reason)
  update fun m => m.write table (digit (pageOf virt) n) entry

theorem map_eq_place : map E root virt frame perms = (do
      rejectIf (virt % frameSize ≠ 0) (.invalidState "unaligned virtual address")
      place E root true virt 3 "page already mapped" (E.encodeLeaf frame perms)) := by
  rw [place, ← index_eq_digit virt (by omega)]
  rfl

theorem mapBlock2m_eq_place : mapBlock2m E root virt frame perms = (do
      rejectIf (virt % blockSize ≠ 0 ∨ frame.addr % blockSize ≠ 0)
        (.invalidState "unaligned 2 MiB block")
      place E root false virt 2 "2 MiB slot already mapped" (E.encodeBlockLeaf frame perms 2)) := by
  rw [place, ← index_eq_digit virt (by omega)]
  rfl

variable (faithful : Faithful E dom) (inv : PagingInv E dom roots m) (hroot : roots k = some root) (hn : n ≤ 3)
  (hblocks : refuseBlocks = false → n ≤ 2)

include faithful inv hroot hn hblocks

theorem place_ok (shape : EntryShape E dom n entry) (leads : child E n entry = none)
    (h : place E root refuseBlocks virt n reason entry m = (.ok (), m')) :
    ∃ m1, Built E dom roots k (pageOf virt) n m m1 ∧
      Stored E dom roots k (path (pageOf virt) n) (digit (pageOf virt) n) entry m1 m' := by
  obtain ⟨t, m1, hwalk, h⟩ := of_bind_ok h
  obtain ⟨habsent, h⟩ := of_rejectIf_bind_ok h
  have hpost := descend_root faithful hn hblocks inv hroot virt
  rw [hwalk] at hpost
  obtain ⟨hbuilt, hreached⟩ := hpost
  rw [← (Prod.mk.inj h).2]
  exact ⟨m1, hbuilt, stored (hbuilt.grown faithful inv).inv hreached (by simpa using habsent)
    (by rwa [path_length]) (by rwa [path_length])⟩

variable {e : KernelError}

theorem place_err (h : place E root refuseBlocks virt n reason entry m = (.err e, m')) :
    WalkPost E dom roots refuseBlocks k (pageOf virt) n m (.err e) m' ∨
      (Built E dom roots k (pageOf virt) n m m' ∧ e = .invalidState reason ∧
        ∃ t, node (child E) m'.mem roots k (path (pageOf virt) n) = some t ∧
          E.isPresent (m'.mem t (digit (pageOf virt) n)) = true) := by
  have hpost := descend_root faithful hn hblocks inv hroot virt
  rcases of_bind_err h with hwalk | ⟨t, m1, hwalk, h⟩
  · rw [hwalk] at hpost
    exact .inl hpost
  · rw [hwalk] at hpost
    obtain ⟨hbuilt, hreached⟩ := hpost
    rw [bind_ok (gets_run _ _)] at h
    by_cases hpresent : E.isPresent (m1.mem t (digit (pageOf virt) n))
    · rw [bind_err (rejectIf_pos hpresent _ _)] at h
      obtain ⟨he, rfl⟩ := Prod.mk.inj h
      exact .inr ⟨hbuilt, (Outcome.err.inj he).symm, t, hreached, hpresent⟩
    · rw [bind_ok (rejectIf_neg hpresent _ _)] at h
      cases h

theorem place_panic (h : place E root refuseBlocks virt n reason entry m = (.panic, m')) :
    WalkPost E dom roots refuseBlocks k (pageOf virt) n m .panic m' := by
  have hpost := descend_root faithful hn hblocks inv hroot virt
  rcases hwalk : descend E refuseBlocks (indices virt n) root m with ⟨t | e | _, m1⟩
  · rw [place, bind_ok hwalk, bind_ok (gets_run _ _)] at h
    by_cases hpresent : E.isPresent (m1.mem t (digit (pageOf virt) n))
    · rw [bind_err (rejectIf_pos hpresent _ _)] at h
      cases h
    · rw [bind_ok (rejectIf_neg hpresent _ _)] at h
      cases h
  · rw [place, bind_err hwalk] at h
    cases h
  · rw [place, bind_panic hwalk] at h
    obtain ⟨-, rfl⟩ := Prod.mk.inj h
    rwa [hwalk] at hpost

omit faithful inv hroot hn hblocks

theorem Built.short_of_frames (h : Built E dom roots k page n m m') (hfree : freeSet m'.frames = ∅)
    (hgone : node (child E) m'.mem roots k (path page 3) = none) :
    (freeSet m.frames).card < missing E roots m.mem k page := by
  have hcard := h.card_free
  have hpos := missing_pos hgone
  rw [hfree, card_empty] at hcard
  omega

variable (faithful : Faithful E dom) (inv : PagingInv E dom roots m) (hroot : roots k = some root)

include faithful inv hroot

theorem map_ok (hdom : dom frame) (h : map E root virt frame perms m = (.ok (), m')) :
    virt % frameSize = 0 ∧ missing E roots m.mem k (pageOf virt) ≤ (freeSet m.frames).card ∧
      ∃ m1, Built E dom roots k (pageOf virt) 3 m m1 ∧
        Stored E dom roots k (path (pageOf virt) 3) (digit (pageOf virt) 3)
          (E.encodeLeaf frame perms) m1 m' := by
  rw [map_eq_place] at h
  obtain ⟨haligned, h⟩ := of_rejectIf_bind_ok h
  obtain ⟨m1, hbuilt, hstored⟩ := place_ok faithful inv hroot (by omega) (by simp) (.leaf hdom)
    (if_neg (by omega)) h
  refine ⟨by simpa using haligned, ?_, m1, hbuilt, hstored⟩
  obtain ⟨t, hreached, -⟩ := hstored.reached
  have hcard := hbuilt.card_free
  rw [missing_eq_zero hreached] at hcard
  omega

/-- Where a `map` that found the page taken stopped: at a block above it, or at its present leaf. -/
def Occupied (E : PageTableEncoder) (dom : PhysFrame → Prop) (roots : κ → Option PhysFrame) (k : κ)
    (page : Nat) (m m' : Machine) : Prop :=
  Built E dom roots k page 2 m m' ∨
    (Built E dom roots k page 3 m m' ∧ ∃ t, node (child E) m'.mem roots k (path page 3) = some t ∧
      E.isPresent (m'.mem t (digit page 3)) = true)

theorem map_err (h : map E root virt frame perms m = (.err e, m')) :
    (virt % frameSize ≠ 0 ∧ m' = m ∧ e = .invalidState "unaligned virtual address") ∨
    (virt % frameSize = 0 ∧ pageTarget E roots m.mem k (pageOf virt) ≠ none ∧
      (∃ reason, e = .invalidState reason) ∧ Occupied E dom roots k (pageOf virt) m m') ∨
    (virt % frameSize = 0 ∧ e = .limitExceeded "physical frames" ∧
      (freeSet m.frames).card < missing E roots m.mem k (pageOf virt) ∧
      Built E dom roots k (pageOf virt) 2 m m') := by
  rw [map_eq_place] at h
  by_cases haligned : virt % frameSize = 0
  · right
    rw [bind_ok (rejectIf_neg (by simpa using haligned) _ _)] at h
    rcases place_err faithful inv hroot (by omega) (by simp) h with
      ⟨hbuilt, ⟨-, rfl, hmapped⟩ | ⟨rfl, hfree, hgone⟩⟩ | ⟨hbuilt, rfl, t, hreached, hpresent⟩
    · rw [(hbuilt.grown faithful inv).target] at hmapped
      exact .inl ⟨haligned, hmapped, ⟨_, rfl⟩, .inl hbuilt⟩
    · exact .inr ⟨haligned, rfl, hbuilt.short_of_frames hfree hgone, hbuilt⟩
    · have hmapped : pageTarget E roots m'.mem k (pageOf virt) ≠ none := by
        rw [pageTarget_leaf hreached, if_pos hpresent]
        simp
      rw [(hbuilt.grown faithful inv).target] at hmapped
      exact .inl ⟨haligned, hmapped, ⟨_, rfl⟩, .inr ⟨hbuilt, t, hreached, hpresent⟩⟩
  · rw [bind_err (rejectIf_pos haligned _ _)] at h
    obtain ⟨he, rfl⟩ := Prod.mk.inj h
    exact .inl ⟨haligned, rfl, (Outcome.err.inj he).symm⟩

theorem map_err_grown (h : map E root virt frame perms m = (.err e, m')) : Grown E dom roots m m' := by
  rcases map_err faithful inv hroot h with
    ⟨-, rfl, -⟩ | ⟨-, -, -, hbuilt | ⟨hbuilt, -⟩⟩ | ⟨-, -, -, hbuilt⟩
  · exact .refl inv
  · exact hbuilt.grown faithful inv
  · exact hbuilt.grown faithful inv
  · exact hbuilt.grown faithful inv

theorem map_panic (h : map E root virt frame perms m = (.panic, m')) :
    (freeSet m.frames).card < missing E roots m.mem k (pageOf virt) ∧
      Built E dom roots k (pageOf virt) 2 m m' := by
  rw [map_eq_place] at h
  by_cases haligned : virt % frameSize = 0
  · rw [bind_ok (rejectIf_neg (by simpa using haligned) _ _)] at h
    obtain ⟨hbuilt, hfree, -, hgone⟩ := place_panic faithful inv hroot (by omega) (by simp) h
    exact ⟨hbuilt.short_of_frames hfree hgone, hbuilt⟩
  · rw [bind_err (rejectIf_pos haligned _ _)] at h
    cases h

theorem mapBlock2m_ok (hdom : dom frame) (h : mapBlock2m E root virt frame perms m = (.ok (), m')) :
    virt % blockSize = 0 ∧ ∃ m1, Built E dom roots k (pageOf virt) 2 m m1 ∧
      Stored E dom roots k (path (pageOf virt) 2) (digit (pageOf virt) 2)
        (E.encodeBlockLeaf frame perms 2) m1 m' := by
  rw [mapBlock2m_eq_place] at h
  obtain ⟨haligned, h⟩ := of_rejectIf_bind_ok h
  rw [not_or, not_not, not_not] at haligned
  have hleads := child_of_block (faithful.block_is_block frame perms 2 hdom)
  exact ⟨haligned.1, place_ok faithful inv hroot (by omega) (by simp) (.block hdom haligned.2) hleads h⟩

theorem mapBlock2m_err (h : mapBlock2m E root virt frame perms m = (.err e, m')) :
    ((virt % blockSize ≠ 0 ∨ frame.addr % blockSize ≠ 0) ∧ m' = m) ∨
    (Built E dom roots k (pageOf virt) 2 m m' ∧ e = .invalidState "2 MiB slot already mapped" ∧
      ∃ t, node (child E) m'.mem roots k (path (pageOf virt) 2) = some t ∧
        E.isPresent (m'.mem t (digit (pageOf virt) 2)) = true) ∨
    (Built E dom roots k (pageOf virt) 2 m m' ∧ e = .limitExceeded "physical frames" ∧
      freeSet m'.frames = ∅) := by
  rw [mapBlock2m_eq_place] at h
  by_cases haligned : virt % blockSize ≠ 0 ∨ frame.addr % blockSize ≠ 0
  · rw [bind_err (rejectIf_pos haligned _ _)] at h
    exact .inl ⟨haligned, (Prod.mk.inj h).2.symm⟩
  · right
    rw [bind_ok (rejectIf_neg haligned _ _)] at h
    rcases place_err faithful inv hroot (by omega) (by simp) h with
      ⟨hbuilt, ⟨hrefuse, -⟩ | ⟨rfl, hfree, -⟩⟩ | ⟨hbuilt, rfl, t, hreached, hpresent⟩
    · cases hrefuse
    · exact .inr ⟨hbuilt.mono (by omega), rfl, hfree⟩
    · exact .inl ⟨hbuilt, rfl, t, hreached, hpresent⟩

theorem mapBlock2m_err_grown (h : mapBlock2m E root virt frame perms m = (.err e, m')) :
    Grown E dom roots m m' := by
  rcases mapBlock2m_err faithful inv hroot h with ⟨-, rfl⟩ | ⟨hbuilt, -⟩ | ⟨hbuilt, -⟩
  · exact .refl inv
  · exact hbuilt.grown faithful inv
  · exact hbuilt.grown faithful inv

theorem mapBlock2m_panic (h : mapBlock2m E root virt frame perms m = (.panic, m')) :
    freeSet m'.frames = ∅ ∧ Built E dom roots k (pageOf virt) 2 m m' := by
  rw [mapBlock2m_eq_place] at h
  by_cases haligned : virt % blockSize ≠ 0 ∨ frame.addr % blockSize ≠ 0
  · rw [bind_err (rejectIf_pos haligned _ _)] at h
    cases h
  · rw [bind_ok (rejectIf_neg haligned _ _)] at h
    obtain ⟨hbuilt, hfree, -⟩ := place_panic faithful inv hroot (by omega) (by simp) h
    exact ⟨hfree, hbuilt.mono (by omega)⟩

end

end CibosPlatform.Kernel.Paging.Walk

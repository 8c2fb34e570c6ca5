/- source: cibos-kernel/src/paging.rs, cibos-kernel/src/frame.rs
   digest: What page-table calls leave alone: frames in use that are no tables. -/

import CibosPlatform.Kernel.Paging.Walk

namespace CibosPlatform.Kernel.Paging.DataFrames

open Core Program TableForest Frame.Accounting Frame.Allocator Finset
open Space Tables Walk

variable {κ : Type} {E : PageTableEncoder} {dom : PhysFrame → Prop}
  {roots : κ → Option PhysFrame} {m m' m'' : Machine} {k : κ} {page n : Nat} {f : PhysFrame}

structure DataFrame (E : PageTableEncoder) (roots : κ → Option PhysFrame) (m : Machine) (f : PhysFrame) :
    Prop where
  taken : f.index ∉ freeSet m.frames
  no_table : Fresh (child E) m.mem roots f

/-- The search of the allocator starts inside its bitmap or right behind it. -/
def HintInside (s : AllocState) : Prop := s.nextHint ≤ s.bitmap.length * 64

instance (s : AllocState) : Decidable (HintInside s) := inferInstanceAs (Decidable (_ ≤ _))

theorem allocate_hint {s s' : AllocState} (wf : Wf s) (call : allocate s = (.ok f, s')) : HintInside s' := by
  obtain ⟨hfree, took, hnext⟩ := allocate_ok wf call
  have hlt := (mem_freeSet.mp hfree).1
  have hle := wf.frameCount_le
  rw [HintInside, hnext, took.length_eq]
  omega

theorem allocate_ne_panic {s : AllocState} (wf : Wf s) (hint : HintInside s) : (allocate s).1 ≠ .panic := by
  unfold HintInside at hint
  rcases allocate_cases wf with ⟨g, s', -, hrun, -⟩ | ⟨-, -, hrun⟩ | ⟨-, hbehind, -⟩
  · simp [hrun]
  · simp [hrun]
  · omega

theorem allocateZeroed_ne_panic (wf : Wf m.frames) (hint : HintInside m.frames) :
    (allocateZeroed m).1 ≠ .panic := by
  have hcall := allocate_ne_panic wf hint
  rcases hrun : allocate m.frames with ⟨c | e | _, frames⟩
  · simp [allocateZeroed, Machine.onFrames, Prog.bind_run, hrun]
  · simp [allocateZeroed, Machine.onFrames, Prog.bind_run, hrun]
  · exact absurd (congrArg Prod.fst hrun) hcall

structure Kept (E : PageTableEncoder) (roots : κ → Option PhysFrame) (m m' : Machine) : Prop where
  hint : HintInside m.frames → HintInside m'.frames
  data : ∀ f, DataFrame E roots m f → DataFrame E roots m' f
  contents : ∀ f, DataFrame E roots m f → m'.mem f = m.mem f

theorem Kept.refl (m : Machine) : Kept E roots m m := ⟨id, fun _ h => h, fun _ _ => rfl⟩

theorem Kept.trans (first : Kept E roots m m') (second : Kept E roots m' m'') : Kept E roots m m'' :=
  ⟨fun h => second.hint (first.hint h), fun f h => second.data f (first.data f h),
    fun f h => (second.contents f (first.data f h)).trans (first.contents f h)⟩

theorem kept_reserved (inv : PagingInv E dom roots m) (call : allocateZeroed m = (.ok f, m')) :
    Kept E roots m m' ∧ DataFrame E roots m' f := by
  have hreserved := reserved inv call
  rcases allocateZeroed_cases inv with ⟨c, frames, hcall, hrun⟩ | ⟨hrun, -⟩ | ⟨hrun, -⟩
  · obtain ⟨hc, rfl⟩ := Prod.mk.inj (hrun.symm.trans call)
    obtain rfl := Outcome.ok.inj hc
    have hfree := (allocate_ok inv.wf hcall).1
    have hnode : ∀ g, Fresh (child E) m.mem roots g →
        Fresh (child E) (({ m with frames } : Machine).zero c).mem roots g := by
      intro g hg k p
      rw [hreserved.node_eq]
      exact hg k p
    refine ⟨⟨fun _ => allocate_hint inv.wf hcall, ?_, ?_⟩, ?_, hnode c hreserved.fresh⟩
    · intro g hg
      refine ⟨?_, hnode g hg.no_table⟩
      rw [hreserved.took.freeSet_eq]
      exact fun h => hg.taken (mem_sdiff.mp h).1
    · intro g hg
      have hne : g ≠ c := by
        rintro rfl
        exact hg.taken hfree
      funext i
      simp [Machine.zero, hne]
    · rw [hreserved.took.freeSet_eq]
      exact fun h => (mem_sdiff.mp h).2 (mem_singleton_self _)
  · rw [hrun] at call
    cases call
  · rw [hrun] at call
    cases call

section

def setFrame (m : Machine) (f : PhysFrame) (words : Nat → Entry) : Machine :=
  { m with mem := fun g => if g = f then words else m.mem g }

variable {words : Nat → Entry}

theorem setFrame_mem (m : Machine) (f : PhysFrame) (words : Nat → Entry) :
    (setFrame m f words).mem f = words := if_pos rfl

theorem setFrame_mem_of_ne {g : PhysFrame} (h : g ≠ f) : (setFrame m f words).mem g = m.mem g := if_neg h

variable (free : Fresh (child E) m.mem roots f)

include free

theorem node_setFrame (k : κ) (p : List Nat) :
    node (child E) (setFrame m f words).mem roots k p = node (child E) m.mem roots k p := by
  refine node_frame ?_ rfl p
  intro q table i hnode
  have hne : table ≠ f := by
    rintro rfl
    exact free k q hnode
  rw [setFrame_mem_of_ne hne]

theorem slot_setFrame (k : κ) (p : List Nat) (i : Nat) :
    slot (child E) (setFrame m f words).mem roots k p i = slot (child E) m.mem roots k p i := by
  rw [slot, slot, node_setFrame free]
  rcases hnode : node (child E) m.mem roots k p with _ | table
  · rfl
  · have hne : table ≠ f := by
      rintro rfl
      exact free k p hnode
    rw [Option.map_some, Option.map_some, setFrame_mem_of_ne hne]

theorem pagingInv_setFrame (inv : PagingInv E dom roots m) :
    PagingInv E dom roots (setFrame m f words) where
  wf := inv.wf
  covers := inv.covers
  separated := by
    intro k1 k2 p1 p2 t h1 h2
    rw [node_setFrame free] at h1 h2
    exact inv.separated _ _ _ _ _ h1 h2
  held := by
    intro k p t ht
    rw [node_setFrame free] at ht
    exact inv.held k p t ht
  shape := by
    intro k p i entry hentry
    rw [slot_setFrame free] at hentry
    exact inv.shape k p i entry hentry

theorem pageTarget_setFrame (k : κ) (page : Nat) :
    pageTarget E roots (setFrame m f words).mem k page = pageTarget E roots m.mem k page := by
  rw [pageTarget, pageTarget, slot_setFrame free, slot_setFrame free]

theorem dataFrame_setFrame {g : PhysFrame} (h : DataFrame E roots m g) :
    DataFrame E roots (setFrame m f words) g := by
  refine ⟨h.taken, ?_⟩
  intro k p hnode
  rw [node_setFrame free] at hnode
  exact h.no_table k p hnode

end

variable [DecidableEq κ]

section

variable {k' : κ} {p q : List Nat} {i j : Nat} {entry : Entry}
  (at_slot : slot (child E) m.mem roots k' q j = some entry) (present : E.isPresent entry = true)

include at_slot present

theorem slot_of_linked {c : PhysFrame} (h : Linked E dom roots k p i c m m') :
    slot (child E) m'.mem roots k' q j = some entry := by
  obtain ⟨t, reached, absent⟩ := h.parent
  rw [h.slot_eq, if_neg, if_neg, at_slot]
  · rintro ⟨rfl, rfl, rfl⟩
    obtain ⟨t', hnode, hentry⟩ := slot_eq_some.mp at_slot
    obtain rfl := Option.some.inj (reached.symm.trans hnode)
    rw [← hentry, absent] at present
    cases present
  · rintro ⟨rfl, rfl⟩
    obtain ⟨t', hnode, -⟩ := slot_eq_some.mp at_slot
    rw [node_snoc, slot, reached] at hnode
    change child E p.length (m.mem t i) = some t' at hnode
    rw [child_of_absent absent] at hnode
    cases hnode

theorem slot_of_built (h : Built E dom roots k page n m m') :
    slot (child E) m'.mem roots k' q j = some entry := by
  induction h with
  | refl => exact at_slot
  | tail _ step ih =>
    obtain ⟨l, -, c, hlinked⟩ := step
    exact slot_of_linked ih present hlinked

theorem slot_of_stored {new : Entry} (h : Stored E dom roots k p i new m m') :
    slot (child E) m'.mem roots k' q j = some entry := by
  obtain ⟨t, reached, absent⟩ := h.reached
  rw [h.slot_eq, if_neg, at_slot]
  rintro ⟨rfl, rfl, rfl⟩
  obtain ⟨t', hnode, hentry⟩ := slot_eq_some.mp at_slot
  obtain rfl := Option.some.inj (reached.symm.trans hnode)
  rw [← hentry, absent] at present
  cases present

end

theorem kept_linked (inv : PagingInv E dom roots m) {p : List Nat} {c : PhysFrame} {i : Nat}
    (h : Linked E dom roots k p i c m m') : Kept E roots m m' := by
  obtain ⟨t, frames, reached, -, call, rfl⟩ := h.made
  have hfree := (allocate_ok inv.wf call).1
  have hne : ∀ g, DataFrame E roots m g → g ≠ c := by
    rintro g hg rfl
    exact hg.taken hfree
  refine ⟨fun _ => allocate_hint inv.wf call, ?_, ?_⟩
  · intro g hg
    constructor
    · rw [h.took.freeSet_eq]
      exact fun h => hg.taken (mem_sdiff.mp h).1
    · intro k' q hnode
      rw [h.node_eq] at hnode
      split at hnode
      · exact hne g hg (Option.some.inj hnode).symm
      · exact hg.no_table k' q hnode
  · intro g hg
    have htable : g ≠ t := by
      rintro rfl
      exact hg.no_table k p reached
    funext j
    simp [linkTable, Machine.write, Machine.zero, htable, hne g hg]

theorem kept_stored {p : List Nat} {i : Nat} {entry : Entry} (h : Stored E dom roots k p i entry m m') :
    Kept E roots m m' := by
  obtain ⟨t, reached, rfl⟩ := h.made
  refine ⟨id, ?_, ?_⟩
  · intro g hg
    refine ⟨hg.taken, ?_⟩
    intro k' q hnode
    rw [h.node_eq] at hnode
    exact hg.no_table k' q hnode
  · intro g hg
    have htable : g ≠ t := by
      rintro rfl
      exact hg.no_table k p reached
    funext j
    simp [Machine.write, htable]

variable {refuseBlocks : Bool} {root : PhysFrame} (faithful : Faithful E dom) (inv : PagingInv E dom roots m)

include faithful inv

theorem kept_built (h : Built E dom roots k page n m m') : Kept E roots m m' := by
  induction h with
  | refl => exact .refl m
  | tail walked step ih =>
    obtain ⟨l, -, c, hlinked⟩ := step
    exact ih.trans (kept_linked (Built.grown faithful inv walked).inv hlinked)

theorem place_kept (hroot : roots k = some root) (hn : n ≤ 3) (hblocks : refuseBlocks = false → n ≤ 2)
    (virt : Nat) (reason : String) {entry : Entry} (shape : EntryShape E dom n entry) (leads : child E n entry = none) :
    Kept E roots m (place E root refuseBlocks virt n reason entry m).2 ∧
      (HintInside m.frames → (place E root refuseBlocks virt n reason entry m).1 ≠ .panic) := by
  rcases hrun : place E root refuseBlocks virt n reason entry m with ⟨_ | e | _, m'⟩
  · obtain ⟨m1, hbuilt, hstored⟩ := place_ok faithful inv hroot hn hblocks shape leads hrun
    exact ⟨(kept_built faithful inv hbuilt).trans (kept_stored hstored), fun _ => by simp⟩
  · rcases place_err faithful inv hroot hn hblocks hrun with ⟨hbuilt, -⟩ | ⟨hbuilt, -⟩
    · exact ⟨kept_built faithful inv hbuilt, fun _ => by simp⟩
    · exact ⟨kept_built faithful inv hbuilt, fun _ => by simp⟩
  · obtain ⟨hbuilt, -, hpanic, -⟩ := place_panic faithful inv hroot hn hblocks hrun
    have hkept := kept_built faithful inv hbuilt
    have hwf := (Built.grown faithful inv hbuilt).inv.wf
    exact ⟨hkept, fun hhint => absurd (congrArg Prod.fst hpanic) (allocateZeroed_ne_panic hwf (hkept.hint hhint))⟩

theorem map_kept (hroot : roots k = some root) (virt : Nat) {frame : PhysFrame}
    (hdom : dom frame) (perms : Permissions) :
    Kept E roots m (map E root virt frame perms m).2 ∧
      (HintInside m.frames → (map E root virt frame perms m).1 ≠ .panic) := by
  rw [map_eq_place]
  by_cases haligned : virt % frameSize = 0
  · rw [Prog.bind_ok (Prog.rejectIf_neg (by simpa using haligned) _ _)]
    have hleads : child E 3 (E.encodeLeaf frame perms) = none := by rw [child, if_neg (by simp)]
    exact place_kept faithful inv hroot (by omega) (by simp) virt _ (.leaf hdom) hleads
  · rw [Prog.bind_err (Prog.rejectIf_pos haligned _ _)]
    exact ⟨.refl m, fun _ => by simp⟩

end CibosPlatform.Kernel.Paging.DataFrames

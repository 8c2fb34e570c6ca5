/- source: cibos-kernel/src/address_space.rs, cibos-kernel/src/paging.rs
   digest: When the data frames taken by map_new_pages are all recorded, and when one is lost. -/

import CibosPlatform.Kernel.AddressSpace.Isolation

namespace CibosPlatform.Kernel.AddressSpace.Conservation

open List Option Function Finset
open Core MachineWord Program TableForest Isolation
open Manager Frame.Accounting Frame.Allocator Paging.Space
open Paging.Tables Paging.Walk Paging.X86 Shared.Hardware Prog

def dataFrames (profile : BuildProfile) (E : PageTableEncoder) (boundary : BoundaryId)
    (root : PhysFrame) (virt : Nat) (perms : Permissions) :
    List Nat → AddressSpaceManager → List PhysFrame
  | [], _ => []
  | i :: rest, s =>
    match AddressSpaceManager.onMachine allocateZeroed s with
    | (.ok frame, _) =>
      frame :: match mapNewPage profile E boundary root virt perms i s with
        | (.ok _, s') => dataFrames profile E boundary root virt perms rest s'
        | _ => []
    | _ => []

def takenBy (profile : BuildProfile) (E : PageTableEncoder) (boundary : BoundaryId) (virt count : Nat)
    (perms : Permissions) (s : AddressSpaceManager) : List PhysFrame :=
  match s.spaces boundary with
  | none => []
  | some b => dataFrames profile E boundary b.root virt perms (upTo 0 count) s

def Accounted (s : AddressSpaceManager) (boundary : BoundaryId) (f : PhysFrame) : Prop :=
  f.index ∈ freeSet s.machine.frames ∨ f ∈ mapped s boundary

def pageAt (virt i : Nat) : Nat := pageOf (virt + i * frameSize)

def tablePaths (page : Nat) : Finset (List Nat) := (Finset.range 3).image fun l => path page (l + 1)

def tablesFor (virt n : Nat) : Finset (List Nat) :=
  (Finset.range n).biUnion fun i => tablePaths (pageAt virt i)

def framesFor (E : PageTableEncoder) (s : AddressSpaceManager) (boundary : BoundaryId)
    (virt n : Nat) : Nat :=
  n + ((tablesFor virt n).filter fun p =>
    node (child E) s.machine.mem (roots s) boundary p = none).card

/-- The `i`th page of a call can be mapped: it is aligned and not taken, before the call or by an
earlier page of it, and the frames last until it is mapped. -/
structure Mappable (E : PageTableEncoder) (s : AddressSpaceManager) (boundary : BoundaryId)
    (virt i : Nat) : Prop where
  aligned : virt % frameSize = 0
  unmapped : reach E s boundary (pageAt virt i) = none
  distinct : ∀ j < i, pageAt virt j ≠ pageAt virt i
  lasts : framesFor E s boundary virt (i + 1) ≤ (freeSet s.machine.frames).card

/-- The boundary has no space, or every page whose turn comes while frames are left can be mapped. -/
def Unbroken (E : PageTableEncoder) (s : AddressSpaceManager) (boundary : BoundaryId)
    (virt count : Nat) : Prop :=
  s.spaces boundary = none ∨
    ∀ i < count, framesFor E s boundary virt i < (freeSet s.machine.frames).card →
      Mappable E s boundary virt i

section

variable {E : PageTableEncoder} {s : AddressSpaceManager} {b : BoundaryId} {virt : Nat}

theorem tablesFor_succ (virt n : Nat) :
    tablesFor virt (n + 1) = tablesFor virt n ∪ tablePaths (pageAt virt n) := by
  rw [tablesFor, range_add_one, biUnion_insert, union_comm]
  rfl

theorem framesFor_zero : framesFor E s b virt 0 = 0 := by simp [framesFor, tablesFor]

theorem framesFor_mono (E : PageTableEncoder) (s : AddressSpaceManager) (b : BoundaryId) (virt : Nat)
    {n n' : Nat} (h : n ≤ n') : framesFor E s b virt n ≤ framesFor E s b virt n' := by
  refine Nat.add_le_add h (card_le_card (filter_subset_filter _ ?_))
  exact biUnion_subset_biUnion_of_subset_left _ (range_subset_range.mpr h)

theorem mem_tablePaths {page : Nat} {p : List Nat} :
    p ∈ tablePaths page ↔ ∃ l < 3, path page (l + 1) = p := by
  simp [tablePaths]

theorem missing_eq_card {κ : Type} (roots : κ → Option PhysFrame) (mem : PhysFrame → Nat → Entry)
    (k : κ) (page : Nat) :
    missing E roots mem k page =
      ((tablePaths page).filter fun p => node (child E) mem roots k p = none).card := by
  have hinj : Set.InjOn (fun l => path page (l + 1)) (range 3 : Set Nat) := by
    intro l _ l' _ h
    have hlength := congrArg length h
    simpa using hlength
  rw [tablePaths, filter_image, card_image_of_injOn]
  · change _ = Multiset.card (Multiset.filter _ (range 3 : Multiset Nat))
    rw [← Multiset.countP_eq_card_filter, Multiset.coe_countP, missing]
    congr 1
    funext l
    rw [Bool.eq_iff_iff, isNone_iff_eq_none, decide_eq_true_iff]
  · refine hinj.mono fun l hl => ?_
    exact (Finset.mem_filter.mp hl).1

end

section

variable {E : PageTableEncoder} {dom : PhysFrame → Prop} {profile : BuildProfile} {b : BoundaryId}
  {root : PhysFrame} {virt i : Nat} {perms : Permissions} {s0 s s' : AddressSpaceManager}

variable {v : Nat} {c : PhysFrame} {m1 m' : Machine}

theorem pageAddr_page (h : pageAddr profile virt i = some v) :
    pageOf v = pageAt virt i ∧ v % frameSize = virt % frameSize := by
  obtain ⟨offset, hmul, hadd⟩ := bind_eq_some_iff.mp h
  have hoffset := mulWord_eq hmul
  have hv := addWord_eq hadd
  subst hv hoffset
  simp only [pageAt, pageOf, frameSize, wordBound]
  omega

structure Progress (E : PageTableEncoder) (dom : PhysFrame → Prop) (b : BoundaryId) (root : PhysFrame)
    (virt i : Nat) (s0 s : AddressSpaceManager) : Prop where
  inv : ManagerInv E dom s
  live : roots s b = some root
  free : (freeSet s.machine.frames).card + framesFor E s0 b virt i =
    (freeSet s0.machine.frames).card
  tables : ∀ p, node (child E) s.machine.mem (roots s) b p = none ↔
    node (child E) s0.machine.mem (roots s0) b p = none ∧ p ∉ tablesFor virt i
  pages : ∀ page < 2 ^ 36, reach E s b page = none ↔
    reach E s0 b page = none ∧ ∀ j < i, pageAt virt j ≠ page

theorem Progress.initial (inv : ManagerInv E dom s) (live : roots s b = some root) :
    Progress E dom b root virt 0 s s where
  inv := inv
  live := live
  free := by rw [framesFor_zero, add_zero]
  tables := by simp [tablesFor]
  pages := by simp

theorem Progress.framesFor_succ (h : Progress E dom b root virt i s0 s) :
    framesFor E s0 b virt (i + 1) = framesFor E s0 b virt i + 1 +
      missing E (roots s) s.machine.mem b (pageAt virt i) := by
  have hsplit : (tablesFor virt (i + 1)).filter (fun p =>
        node (child E) s0.machine.mem (roots s0) b p = none) =
      (tablesFor virt i).filter (fun p => node (child E) s0.machine.mem (roots s0) b p = none) ∪
        (tablePaths (pageAt virt i)).filter (fun p =>
          node (child E) s.machine.mem (roots s) b p = none) := by
    ext p
    simp only [tablesFor_succ, Finset.mem_filter, mem_union, h.tables]
    tauto
  have hdisjoint : Disjoint
      ((tablesFor virt i).filter fun p => node (child E) s0.machine.mem (roots s0) b p = none)
      ((tablePaths (pageAt virt i)).filter fun p =>
        node (child E) s.machine.mem (roots s) b p = none) := by
    rw [Finset.disjoint_left]
    intro p hp hp'
    exact ((h.tables p).mp (Finset.mem_filter.mp hp').2).2 (mem_filter.mp hp).1
  rw [framesFor, hsplit, card_union_of_disjoint hdisjoint, missing_eq_card, framesFor]
  omega

private theorem missing_reserved {page : Nat} (h : Reserved E dom (roots s) c s.machine m1) :
    missing E (roots s) m1.mem b page = missing E (roots s) s.machine.mem b page := by
  simp only [missing, h.node_eq]

theorem Progress.framesFor_lt (h : Progress E dom b root virt i s0 s)
    (hreserved : Reserved E dom (roots s) c s.machine m1) :
    framesFor E s0 b virt i < (freeSet s0.machine.frames).card := by
  have htook := hreserved.took.card_free
  have hfree := h.free
  rw [card_singleton] at htook
  omega

private theorem node_none_iff {m m2 : Machine} {page : Nat} {entry : Entry}
    (hbuilt : Built E dom (roots s) b page 3 m m2)
    (hstored : Stored E dom (roots s) b (path page 3) (digit page 3) entry m2 m') (p : List Nat) :
    node (child E) m'.mem (roots s) b p = none ↔
      node (child E) m.mem (roots s) b p = none ∧ p ∉ tablePaths page := by
  rw [hstored.node_eq, mem_tablePaths]
  constructor
  · intro hnone
    constructor
    · by_contra hsome
      obtain ⟨t, ht⟩ := ne_none_iff_exists'.mp hsome
      rw [hbuilt.node_mono ht] at hnone
      cases hnone
    · rintro ⟨l, hl, rfl⟩
      obtain ⟨t, hreached, -⟩ := hstored.reached
      obtain ⟨t', ht'⟩ := node_above (l := l + 1) (by omega) hreached
      rw [hnone] at ht'
      cases ht'
  · rintro ⟨hnone, hoff⟩
    by_contra hsome
    obtain ⟨t, ht⟩ := ne_none_iff_exists'.mp hsome
    rcases hbuilt.node_new ht with hold | ⟨-, l, hl, hp⟩
    · rw [hnone] at hold
      cases hold
    · exact hoff ⟨l, hl, hp.symm⟩

section

variable (faithful : Faithful E dom) (h : Progress E dom b root virt i s0 s) (hv : pageAddr profile virt i = some v)

include faithful h hv

theorem Progress.mapped (htake : allocateZeroed s.machine = (.ok c, m1))
    (hmap : map E root v c perms m1 = (.ok (), m')) :
    Progress E dom b root virt (i + 1) s0
        (({ s with machine := m' } : AddressSpaceManager).pushFrame b c) ∧
      Mappable E s0 b virt i := by
  have hreserved := reserved h.inv.paging htake
  obtain ⟨hpage, halign⟩ := pageAddr_page hv
  have hdom : dom c := hreserved.inv.covers c (held_of_reserved hreserved).covered
  obtain ⟨hzero, -, m2, hbuilt, hstored⟩ := map_ok faithful hreserved.inv h.live hdom hmap
  obtain ⟨hbefore, hafter⟩ := hstored.pageTarget_leaf faithful hdom (pageOf_lt v)
  have htarget : ∀ b' page, pageTarget E (roots s) m2.mem b' page = reach E s b' page := by
    intro b' page
    rw [(hbuilt.grown faithful hreserved.inv).target, hreserved.pageTarget_eq]
  obtain ⟨t, hreached, -⟩ := hstored.reached
  have hcard := hbuilt.card_free
  have htook := hreserved.took.card_free
  have hsucc := h.framesFor_succ
  have hfree := h.free
  rw [missing_eq_zero hreached, missing_reserved hreserved, hpage] at hcard
  rw [card_singleton] at htook
  rw [hpage] at hbefore hafter hbuilt hstored
  obtain ⟨hunmapped, hdistinct⟩ := (h.pages _ (pageOf_lt _)).mp ((htarget b _).symm.trans hbefore)
  obtain ⟨hinv, hroots⟩ := h.inv.round faithful h.live (.mapped (i := i) htake hv hmap)
  refine ⟨⟨hinv, ?_, ?_, ?_, ?_⟩, ?_, hunmapped, hdistinct, by omega⟩
  · rw [hroots]
    exact h.live
  · change (freeSet m'.frames).card + _ = _
    rw [hstored.frames_eq]
    omega
  · intro p
    rw [hroots, tablesFor_succ, notMem_union, ← and_assoc, ← h.tables, ← hreserved.node_eq]
    exact node_none_iff hbuilt hstored p
  · intro page hlt
    have hread : reach E (({ s with machine := m' } : AddressSpaceManager).pushFrame b c) b page =
        if b = b ∧ page = pageAt virt i then some c.addr else reach E s b page := by
      rw [reach, hroots, ← htarget]
      exact hafter b page hlt
    rw [hread]
    by_cases hhere : page = pageAt virt i
    · rw [if_pos ⟨rfl, hhere⟩]
      refine ⟨fun hnone => ?_, fun hall => ?_⟩
      · cases hnone
      · exact absurd hhere.symm (hall.2 i (Nat.lt_succ_self i))
    · rw [if_neg (by simp [hhere]), h.pages page hlt]
      refine and_congr_right fun _ => ⟨fun hall j hj => ?_, fun hall j hj => hall j (by omega)⟩
      rcases Nat.lt_succ_iff_lt_or_eq.mp hj with hj | rfl
      · exact hall j hj
      · exact fun heq => hhere heq.symm
  · rw [← halign]
    exact hzero

theorem Progress.refused {e : KernelError} (hreserved : Reserved E dom (roots s) c s.machine m1)
    (hmap : map E root v c perms m1 = (.err e, m')) : ¬ Mappable E s0 b virt i := by
  intro hmappable
  obtain ⟨hpage, halign⟩ := pageAddr_page hv
  have htook := hreserved.took.card_free
  rw [card_singleton] at htook
  rcases map_err faithful hreserved.inv h.live hmap with
    ⟨hunaligned, -⟩ | ⟨-, hmapped, -⟩ | ⟨-, -, hshort, -⟩
  · rw [halign] at hunaligned
    exact hunaligned hmappable.aligned
  · rw [hreserved.pageTarget_eq, hpage] at hmapped
    exact hmapped ((h.pages _ (pageOf_lt _)).mpr ⟨hmappable.unmapped, hmappable.distinct⟩)
  · have hlasts := hmappable.lasts
    have hfree := h.free
    rw [h.framesFor_succ] at hlasts
    rw [missing_reserved hreserved, hpage] at hshort
    omega

end

theorem dataFrames_taken (rest : List Nat) (htake : allocateZeroed s.machine = (.ok c, m1)) :
    dataFrames profile E b root virt perms (i :: rest) s =
      c :: match mapNewPage profile E b root virt perms i s with
        | (.ok _, s') => dataFrames profile E b root virt perms rest s'
        | _ => [] := by
  rw [dataFrames, onMachine_run _ _ htake]

theorem dataFrames_exhausted (rest : List Nat) (paging : PagingInv E dom (roots s) s.machine)
    (hempty : freeSet s.machine.frames = ∅) :
    dataFrames profile E b root virt perms (i :: rest) s = [] := by
  rcases htake : allocateZeroed s.machine with ⟨c | e | _, m1⟩
  · have hfree := (reserved paging htake).took.subset (Finset.mem_singleton_self _)
    rw [hempty] at hfree
    exact absurd hfree (notMem_empty _)
  · rw [dataFrames, onMachine_run _ _ htake]
  · rw [dataFrames, onMachine_run _ _ htake]

variable (faithful : Faithful E dom)

include faithful

theorem loop_recorded {l : List Nat} {f : PhysFrame} {b' : BoundaryId} {o : Outcome KernelError Unit}
    (inv : ManagerInv E dom s) (live : roots s b = some root) (hf : f ∈ mapped s b')
    (hrun : forEach l (mapNewPage profile E b root virt perms) s = (o, s')) : f ∈ mapped s' b' := by
  have hkeeps : Prog.Keeps (fun s => (ManagerInv E dom s ∧ roots s b = some root) ∧ f ∈ mapped s b')
      (forEach l (mapNewPage profile E b root virt perms)) := by
    refine .forEach fun i _ => ?_
    rintro s ⟨⟨inv, live⟩, hf⟩
    have hround := mapNewPage_round profile b root virt perms i inv.paging
    obtain ⟨hinv, hroots⟩ := inv.round faithful live hround
    refine ⟨⟨hinv, by rw [hroots]; exact live⟩, ?_⟩
    generalize (mapNewPage profile E b root virt perms i s).1 = o at hround
    generalize (mapNewPage profile E b root virt perms i s).2 = s' at hround
    cases hround with
    | exhausted _ _ | overflow _ _ | refused _ _ _ _ => exact hf
    | @mapped c m1 m' v _ _ _ =>
      rw [mapped_pushFrame (s := { s with machine := m' }) live]
      split
      · rename_i hb
        exact mem_append_left _ (hb ▸ hf)
      · exact hf
  have hkept := hkeeps s ⟨⟨inv, live⟩, hf⟩
  rw [hrun] at hkept
  exact hkept.2

theorem not_accounted {e : KernelError} (inv : ManagerInv E dom s) (live : roots s b = some root)
    (htake : allocateZeroed s.machine = (.ok c, m1)) (hmap : map E root v c perms m1 = (.err e, m')) :
    ¬ Accounted { s with machine := m' } b c := by
  have hreserved := reserved inv.paging htake
  have hgrown := map_err_grown faithful hreserved.inv live hmap
  rintro (hfree | hrecorded)
  · exact ((held_of_reserved hreserved).grown hgrown).taken hfree
  · exact inv.new_frame hreserved b hrecorded

theorem loop_accounted {count : Nat} (n : Nat) :
    ∀ i s o s', i + n = count → Progress E dom b root virt i s0 s →
      forEach (upTo i count) (mapNewPage profile E b root virt perms) s = (o, s') → o ≠ .panic →
      ((∀ f ∈ dataFrames profile E b root virt perms (upTo i count) s, Accounted s' b f) →
        ∀ j, i ≤ j → j < count → framesFor E s0 b virt j < (freeSet s0.machine.frames).card →
          Mappable E s0 b virt j) ∧
      ((∀ j, i ≤ j → j < count → framesFor E s0 b virt j < (freeSet s0.machine.frames).card →
          Mappable E s0 b virt j) →
        ∀ f ∈ dataFrames profile E b root virt perms (upTo i count) s, f ∈ mapped s' b) := by
  induction n with
  | zero =>
    intro i s o s' hn h hrun _
    rw [upTo_nil (by omega)]
    refine ⟨fun _ j hj hlt => by omega, fun _ f hf => ?_⟩
    cases hf
  | succ n ih =>
    intro i s o s' hn h hrun hreturned
    have hi : i < count := by omega
    have hround := mapNewPage_round profile b root virt perms i h.inv.paging
    rw [upTo_cons hi] at hrun ⊢
    rcases hbody : mapNewPage profile E b root virt perms i s with ⟨o1, s1⟩
    rw [hbody] at hround
    rw [forEach] at hrun
    cases hround with
    | exhausted hempty hfailed =>
      have hfree := h.free
      rw [hempty, card_empty, zero_add] at hfree
      rw [dataFrames_exhausted _ h.inv.paging hempty]
      refine ⟨fun _ j hj _ hlt => ?_, fun _ f hf => ?_⟩
      · have hmono := framesFor_mono E s0 b virt hj
        omega
      · cases hf
    | overflow _ _ =>
      rw [bind_panic hbody] at hrun
      exact absurd (Prod.mk.inj hrun).1.symm hreturned
    | @refused c m1 m' v o1 htake hv hmap hfailed =>
      rcases o1 with u | e | _
      · exact absurd rfl hfailed
      · rw [bind_err hbody] at hrun
        obtain ⟨-, rfl⟩ := Prod.mk.inj hrun
        rw [dataFrames_taken _ htake, hbody]
        refine ⟨fun hall => ?_, fun hall => ?_⟩
        · exact absurd (hall c mem_cons_self) (not_accounted faithful h.inv h.live htake hmap)
        · have hreserved := reserved h.inv.paging htake
          exact absurd (hall i le_rfl hi (h.framesFor_lt hreserved))
            (h.refused faithful hv hreserved hmap)
      · rw [bind_panic hbody] at hrun
        exact absurd (Prod.mk.inj hrun).1.symm hreturned
    | @mapped c m1 m' v htake hv hmap =>
      rw [bind_ok hbody] at hrun
      obtain ⟨hnext, hmappable⟩ := h.mapped faithful hv htake hmap
      obtain ⟨hcond, hrest⟩ := ih (i + 1) _ o s' (by omega) hnext hrun hreturned
      have hrecorded : c ∈ mapped s' b := by
        refine loop_recorded faithful hnext.inv hnext.live ?_ hrun
        rw [mapped_pushFrame (s := { s with machine := m' }) h.live, if_pos rfl]
        exact mem_append_right _ mem_cons_self
      rw [dataFrames_taken _ htake, hbody, List.forall_mem_cons, List.forall_mem_cons]
      constructor
      · rintro ⟨-, hall⟩ j hj
        rcases Nat.eq_or_lt_of_le hj with rfl | hj
        · exact fun _ _ => hmappable
        · exact hcond hall j hj
      · intro hall
        exact ⟨hrecorded, hrest fun j hj => hall j (by omega)⟩

end

section

variable {E : PageTableEncoder} {dom : PhysFrame → Prop} {profile : BuildProfile} {b : BoundaryId}
  {virt count : Nat} {perms : Permissions} {s s' : AddressSpaceManager}

private theorem returns_loop {space : BoundarySpace} (live : s.spaces b = some space)
    (h : Returns (mapNewPages profile E b virt count perms) s s') :
    ∃ o, forEach (upTo 0 count) (mapNewPage profile E b space.root virt perms) s = (o, s') ∧
      o ≠ .panic := by
  rw [Returns, mapNewPages, bind_ok (gets_run _ _), live] at h
  rcases h with hrun | ⟨e, hrun⟩
  · exact ⟨_, hrun, by simp⟩
  · exact ⟨_, hrun, by simp⟩

theorem mapNewPages_mapped (faithful : Faithful E dom) (inv : ManagerInv E dom s)
    (h : Returns (mapNewPages profile E b virt count perms) s s') {b' : BoundaryId} {f : PhysFrame}
    (hf : f ∈ mapped s b') : f ∈ mapped s' b' := by
  rcases hspace : s.spaces b with _ | space
  · rw [Returns, mapNewPages, bind_ok (gets_run _ _), hspace] at h
    rcases h with hrun | ⟨e, hrun⟩
    · cases hrun
    · rwa [← (Prod.mk.inj hrun).2]
  · have live := roots_of_space hspace
    obtain ⟨o, hrun, -⟩ := returns_loop hspace h
    exact loop_recorded faithful inv live hf hrun

theorem destroySpace_mapped (inv : ManagerInv E dom s) (h : Returns (destroySpace b) s s') :
    (∀ b', b' ≠ b → mapped s' b' = mapped s b') ∧
      ∀ f ∈ mapped s b, f.index ∈ freeSet s'.machine.frames := by
  rcases hspace : s.spaces b with _ | space
  · rw [Returns, destroySpace, bind_ok (gets_run _ _), hspace] at h
    rcases h with hrun | ⟨e, hrun⟩
    · cases hrun
    · refine ⟨fun b' _ => by rw [← (Prod.mk.inj hrun).2], ?_⟩
      rw [mapped, hspace]
      intro f hf
      cases hf
  · obtain ⟨frames, hrun, -, hfree⟩ := destroySpace_run inv hspace
    rw [Returns, hrun] at h
    rcases h with hrun | ⟨e, hrun⟩
    · rw [← (Prod.mk.inj hrun).2]
      refine ⟨fun b' hb => by rw [mapped_update s _ b rfl, if_neg hb], fun f hf => ?_⟩
      rw [mapped, hspace] at hf
      rw [hfree]
      exact Finset.mem_union_right _ (mem_toFinset.mpr (mem_map_of_mem hf))
    · cases hrun

variable (faithful : Faithful E dom) (inv : ManagerInv E dom s)
  (h : Returns (mapNewPages profile E b virt count perms) s s')

include faithful inv h

theorem recorded_of_unbroken (unbroken : Unbroken E s b virt count) :
    ∀ f ∈ takenBy profile E b virt count perms s, f ∈ mapped s' b := by
  rcases hspace : s.spaces b with _ | space
  · rw [takenBy, hspace]
    intro f hf
    cases hf
  · have live := roots_of_space hspace
    obtain ⟨o, hrun, hreturned⟩ := returns_loop hspace h
    rw [takenBy, hspace]
    refine (loop_accounted faithful count 0 s o s' (zero_add _) (.initial inv live) hrun
      hreturned).2 fun j _ => ?_
    rcases unbroken with hnone | hpages
    · rw [hspace] at hnone
      cases hnone
    · exact hpages j

theorem accounted_iff_unbroken :
    (∀ f ∈ takenBy profile E b virt count perms s, Accounted s' b f) ↔ Unbroken E s b virt count := by
  constructor
  · intro hall
    rcases hspace : s.spaces b with _ | space
    · exact .inl hspace
    · have live := roots_of_space hspace
      obtain ⟨o, hrun, hreturned⟩ := returns_loop hspace h
      rw [takenBy, hspace] at hall
      exact .inr fun j => (loop_accounted faithful count 0 s o s' (zero_add _) (.initial inv live)
        hrun hreturned).1 hall j (Nat.zero_le j)
  · intro unbroken f hf
    exact .inr (recorded_of_unbroken faithful inv h unbroken f hf)

omit faithful inv h

structure Ledger where
  manager : AddressSpaceManager
  taken : BoundaryId → List PhysFrame

def account (E : PageTableEncoder) (taken : BoundaryId → List PhysFrame) (s : AddressSpaceManager) :
    Call → BoundaryId → List PhysFrame
  | .createSpace _ => taken
  | .mapNewPages profile b virt count perms =>
    Function.update taken b (taken b ++ takenBy profile E b virt count perms s)
  | .destroySpace b => Function.update taken b []

def Meets (E : PageTableEncoder) (s : AddressSpaceManager) : Call → Prop
  | .mapNewPages _ b virt count _ => Unbroken E s b virt count
  | _ => True

def UnbrokenStep (E : PageTableEncoder) (L L' : Ledger) : Prop :=
  ∃ call : Call, Meets E L.manager call ∧ Returns (call.exec E) L.manager L'.manager ∧
    L'.taken = account E L.taken L.manager call

structure LedgerInv (E : PageTableEncoder) (dom : PhysFrame → Prop) (L : Ledger) : Prop where
  inv : ManagerInv E dom L.manager
  recorded : ∀ b, ∀ f ∈ L.taken b, f ∈ mapped L.manager b

theorem LedgerInv.step (faithful : Faithful E dom) {L L' : Ledger} (h : LedgerInv E dom L)
    (step : UnbrokenStep E L L') : LedgerInv E dom L' := by
  obtain ⟨call, hmeets, hreturns, htaken⟩ := step
  refine ⟨keeps_returns (ManagerInv.call faithful call) h.inv hreturns, ?_⟩
  cases call with
  | createSpace b =>
    have hmapped := (keeps_returns (createSpace_keeps faithful _) ⟨h.inv, rfl⟩ hreturns).2
    rw [htaken, hmapped]
    exact h.recorded
  | mapNewPages profile b virt count perms =>
    intro b' f hf
    have hold : f ∈ L.taken b' → f ∈ mapped L'.manager b' := fun hf =>
      mapNewPages_mapped faithful h.inv hreturns (h.recorded b' f hf)
    rw [htaken, account] at hf
    by_cases hb : b' = b
    · subst hb
      rw [update_self] at hf
      rcases mem_append.mp hf with hf | hf
      · exact hold hf
      · exact recorded_of_unbroken faithful h.inv hreturns hmeets f hf
    · rw [update_of_ne hb] at hf
      exact hold hf
  | destroySpace b =>
    intro b' f hf
    rw [htaken, account] at hf
    by_cases hb : b' = b
    · subst hb
      rw [update_self] at hf
      cases hf
    · rw [update_of_ne hb] at hf
      rw [(destroySpace_mapped h.inv hreturns).1 b' hb]
      exact h.recorded b' f hf

theorem LedgerInv.run (faithful : Faithful E dom) {L L' : Ledger} (h : LedgerInv E dom L)
    (run : Relation.ReflTransGen (UnbrokenStep E) L L') : LedgerInv E dom L' := by
  induction run with
  | refl => exact h
  | tail _ step ih => exact ih.step faithful step

end

/-- Data frames are conserved by exactly the unbroken calls: a call of `map_new_pages` that returns
accounts for every frame it took exactly when it is unbroken, and in a run of such calls every frame
taken for a boundary is recorded until destroying it frees it. -/
theorem data_frames_conserved_iff (E : PageTableEncoder) (dom : PhysFrame → Prop)
    (faithful : Faithful E dom) (profile : BuildProfile) (regions : List MemoryRegion)
    (reservedBelow : Nat) (frames : AllocState)
    (built : fromRegions profile regions reservedBelow = some frames)
    (covers : ∀ f : PhysFrame, f.index < frames.frameCount → dom f) (mem : PhysFrame → Nat → Entry) :
    (∀ s, Relation.ReflTransGen (Step E) (.new ⟨mem, frames⟩) s →
      ∀ profile b virt count perms s', Returns (mapNewPages profile E b virt count perms) s s' →
        ((∀ f ∈ takenBy profile E b virt count perms s, Accounted s' b f) ↔
          Unbroken E s b virt count)) ∧
    (∀ L, Relation.ReflTransGen (UnbrokenStep E) ⟨.new ⟨mem, frames⟩, fun _ => []⟩ L →
      (∀ b, ∀ f ∈ L.taken b, Accounted L.manager b f) ∧
        ∀ b s', Returns (destroySpace b) L.manager s' →
          ∀ f ∈ L.taken b, f.index ∈ freeSet s'.machine.frames) := by
  have hnew : ManagerInv E dom (.new ⟨mem, frames⟩) := managerInv_new (fromRegions_wf built) covers
  constructor
  · intro s hrun profile b virt count perms s' hreturns
    exact accounted_iff_unbroken faithful (hnew.run faithful hrun) hreturns
  · intro L hrun
    have hempty : LedgerInv E dom ⟨.new ⟨mem, frames⟩, fun _ => []⟩ :=
      ⟨hnew, fun b f hf => by cases hf⟩
    have hinv := hempty.run faithful hrun
    refine ⟨fun b f hf => .inr (hinv.recorded b f hf), ?_⟩
    intro b s' hreturns f hf
    exact (destroySpace_mapped hinv.inv hreturns).2 f (hinv.recorded b f hf)

theorem data_frames_conserved_one_page :
    Unbroken x86PageTable (createSpace ⟨7⟩ (.new blankMachine)).2 ⟨7⟩ 0x1000 1 := by
  have h := (data_frames_conserved_iff x86PageTable Addressable x86_faithful .dev _ 0 _
    blankMachine_built blankMachine_addressable blankMachine.mem).1
    (createSpace ⟨7⟩ (.new blankMachine)).2
    (.single ⟨.createSpace ⟨7⟩, .inl (Prod.ext (by decide +kernel) rfl)⟩)
    .dev ⟨7⟩ 0x1000 1 ⟨true, true, false, true, false⟩ onePage
    (.inl (Prod.ext (by decide +kernel) rfl))
  have hframes : takenBy .dev x86PageTable ⟨7⟩ 0x1000 1 ⟨true, true, false, true, false⟩
      (createSpace ⟨7⟩ (.new blankMachine)).2 = [PhysFrame.fromIndex 1] := by decide +kernel
  refine h.mp ?_
  rw [hframes]
  intro f hf
  rw [List.mem_singleton.mp hf]
  exact .inr (by decide +kernel)

/-- Mapping a page that is mapped already takes a frame, fails, and loses it. -/
theorem mapped_page_loses_frame :
    Relation.ReflTransGen (Step x86PageTable) (.new blankMachine) onePage ∧
    ¬ ∀ s', Returns (mapNewPages .dev x86PageTable ⟨7⟩ 0x1000 1 ⟨true, true, false, true, false⟩)
        onePage s' →
      ∀ f ∈ takenBy .dev x86PageTable ⟨7⟩ 0x1000 1 ⟨true, true, false, true, false⟩ onePage,
        Accounted s' ⟨7⟩ f := by
  refine ⟨onePage_run, fun hall => ?_⟩
  have hframe : PhysFrame.fromIndex 5 ∈
      takenBy .dev x86PageTable ⟨7⟩ 0x1000 1 ⟨true, true, false, true, false⟩ onePage := by
    decide +kernel
  have hreturns : Returns (mapNewPages .dev x86PageTable ⟨7⟩ 0x1000 1
      ⟨true, true, false, true, false⟩) onePage (mapNewPages .dev x86PageTable ⟨7⟩ 0x1000 1
      ⟨true, true, false, true, false⟩ onePage).2 :=
    .inr ⟨.invalidState "page already mapped", Prod.ext (by decide +kernel) rfl⟩
  rcases hall _ hreturns _ hframe with hfree | hrecorded
  · exact absurd hfree (by decide +kernel)
  · exact absurd hrecorded (by decide +kernel)

end CibosPlatform.Kernel.AddressSpace.Conservation

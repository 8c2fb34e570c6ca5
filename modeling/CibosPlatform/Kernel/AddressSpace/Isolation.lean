/- source: cibos-kernel/src/address_space.rs, cibos-kernel/src/paging.rs
   digest: No frame is reachable from two boundaries, and no reachable frame is a table or free. -/

import CibosPlatform.Kernel.AddressSpace.Manager
import CibosPlatform.Kernel.Paging.Walk
import CibosPlatform.Kernel.Paging.X86

namespace CibosPlatform.Kernel.AddressSpace.Isolation

open Core MachineWord Program TableForest Manager List Option AddressSpaceManager Function
open Frame.Accounting Frame.Allocator Paging Paging.Space Prog
open Paging.Tables Paging.Walk Paging.X86 Shared.Hardware Machine

section

variable {κ : Type} {E : PageTableEncoder} {dom : PhysFrame → Prop}
  {roots roots' : κ → Option PhysFrame} {m m' : Machine} {f c : PhysFrame}

structure Held (E : PageTableEncoder) (roots : κ → Option PhysFrame) (m : Machine) (f : PhysFrame) :
    Prop where
  covered : f.index < m.frames.frameCount
  taken : f.index ∉ freeSet m.frames
  fresh : Fresh (child E) m.mem roots f

theorem Held.of_took {F : Finset Nat} (held : Held E roots m f) (took : Took m.frames m'.frames F)
    (tables : ∀ k p, node (child E) m'.mem roots' k p = some f →
      node (child E) m.mem roots k p = some f ∨ f.index ∈ F) : Held E roots' m' f := by
  refine ⟨?_, ?_, ?_⟩
  · rw [took.frameCount_eq]
    exact held.covered
  · rw [took.freeSet_eq]
    exact fun hf => held.taken (Finset.mem_sdiff.mp hf).1
  · intro k p hf
    rcases tables k p hf with hold | hnew
    · exact held.fresh k p hold
    · exact held.taken (took.subset hnew)

theorem Held.grown (held : Held E roots m f) (h : Grown E dom roots m m') : Held E roots m' f := by
  obtain ⟨F, took, hnode⟩ := h.took
  exact held.of_took took fun k p hf => hnode k p f hf

theorem Held.reserved (held : Held E roots m f) (h : Reserved E dom roots c m m') :
    Held E roots m' f :=
  held.of_took h.took fun k p hf => .inl ((h.node_eq k p).symm.trans hf)

theorem held_of_reserved (h : Reserved E dom roots c m m') : Held E roots m' c := by
  have hfree := h.took.subset (Finset.mem_singleton_self c.index)
  refine ⟨?_, ?_, ?_⟩
  · rw [h.took.frameCount_eq]
    exact (mem_freeSet.mp hfree).1
  · rw [h.took.freeSet_eq]
    exact fun hf => (Finset.mem_sdiff.mp hf).2 (Finset.mem_singleton_self _)
  · intro k p hf
    rw [h.node_eq] at hf
    exact h.fresh k p hf

variable [DecidableEq κ]

theorem Held.stored {k : κ} {p : List Nat} {i : Nat} {entry : Entry} (held : Held E roots m f)
    (h : Stored E dom roots k p i entry m m') : Held E roots m' f := by
  have htook : Took m.frames m'.frames ∅ := by
    rw [h.frames_eq]
    exact .refl _
  exact held.of_took htook fun k' q hf => .inl ((h.node_eq k' q).symm.trans hf)

theorem Held.opened {k : κ} {root : PhysFrame} (held : Held E roots m f)
    (h : Opened E dom roots k root m m') : Held E (update roots k (some root)) m' f := by
  refine held.of_took h.took fun k' p hf => ?_
  rw [h.node_eq] at hf
  split_ifs at hf
  · obtain rfl := some.inj hf
    exact .inr (Finset.mem_singleton_self _)
  · exact .inl hf

end

section

def roots (s : AddressSpaceManager) (b : BoundaryId) : Option PhysFrame := (s.spaces b).map (·.root)

variable {b : BoundaryId}

theorem roots_of_space {s : AddressSpaceManager} {space : BoundarySpace}
    (h : s.spaces b = some space) : roots s b = some space.root := by
  rw [roots, h, map_some]

def mapped (s : AddressSpaceManager) (b : BoundaryId) : List PhysFrame :=
  ((s.spaces b).map (·.mappedFrames)).getD []

abbrev reach (E : PageTableEncoder) (s : AddressSpaceManager) (b : BoundaryId) (page : Nat) :
    Option Nat :=
  pageTarget E (roots s) s.machine.mem b page

structure ManagerInv (E : PageTableEncoder) (dom : PhysFrame → Prop) (s : AddressSpaceManager) :
    Prop where
  paging : PagingInv E dom (roots s) s.machine
  recorded : ∀ b page a, page < 2 ^ 36 → reach E s b page = some a → ∃ f ∈ mapped s b, f.addr = a
  held : ∀ b, ∀ f ∈ mapped s b, Held E (roots s) s.machine f
  apart : ∀ b b' f, f ∈ mapped s b → f ∈ mapped s b' → b = b'
  once : ∀ b page page' a, page < 2 ^ 36 → page' < 2 ^ 36 → reach E s b page = some a →
    reach E s b page' = some a → page = page'

variable {E : PageTableEncoder} {dom : PhysFrame → Prop} {s : AddressSpaceManager} {m' : Machine}
  {c : PhysFrame}

theorem managerInv_new {m : Machine} (wf : Wf m.frames)
    (covers : ∀ f : PhysFrame, f.index < m.frames.frameCount → dom f) :
    ManagerInv E dom (.new m) where
  paging := pagingInv_empty wf covers
  recorded := by
    intro b page a _ hreach
    cases hreach
  held := by
    intro b f hf
    cases hf
  apart := by
    intro b b' f hf
    cases hf
  once := by
    intro b page page' a _ _ hreach
    cases hreach

theorem ManagerInv.of_same_maps (inv : ManagerInv E dom s) (paging : PagingInv E dom (roots s) m')
    (target : ∀ b page, pageTarget E (roots s) m'.mem b page = reach E s b page)
    (held : ∀ f, Held E (roots s) s.machine f → Held E (roots s) m' f) :
    ManagerInv E dom { s with machine := m' } where
  paging := paging
  recorded := by
    intro b page a hpage hreach
    exact inv.recorded b page a hpage ((target b page).symm.trans hreach)
  held := fun b f hf => held f (inv.held b f hf)
  apart := inv.apart
  once := by
    intro b page page' a hpage hpage' hreach hreach'
    exact inv.once b page page' a hpage hpage' ((target b page).symm.trans hreach)
      ((target b page').symm.trans hreach')

theorem ManagerInv.grown (inv : ManagerInv E dom s) (h : Grown E dom (roots s) s.machine m') :
    ManagerInv E dom { s with machine := m' } :=
  inv.of_same_maps h.inv h.target fun _ held => held.grown h

theorem ManagerInv.reserved (inv : ManagerInv E dom s)
    (h : Reserved E dom (roots s) c s.machine m') : ManagerInv E dom { s with machine := m' } :=
  inv.of_same_maps h.inv h.pageTarget_eq fun _ held => held.reserved h

@[simp] theorem roots_pushFrame (s : AddressSpaceManager) (b : BoundaryId) (c : PhysFrame) :
    roots (s.pushFrame b c) = roots s := by
  funext b'
  by_cases hb : b' = b
  · subst hb
    simp only [roots, pushFrame, update_self, Option.map_map]
    rfl
  · simp only [roots, pushFrame, update_of_ne hb]

theorem mapped_pushFrame {root : PhysFrame} (live : roots s b = some root) (b' : BoundaryId) :
    mapped (s.pushFrame b c) b' = if b' = b then mapped s b ++ [c] else mapped s b' := by
  by_cases hb : b' = b
  · subst hb
    obtain ⟨space, hspace, -⟩ := map_eq_some_iff.mp live
    simp only [mapped, pushFrame, update_self, hspace, map_some, getD_some, if_true]
  · simp only [mapped, pushFrame, update_of_ne hb, if_neg hb]

theorem ManagerInv.page {root : PhysFrame} {page : Nat} {perms : Permissions}
    (faithful : Faithful E dom) (inv : ManagerInv E dom s) (live : roots s b = some root)
    (held : Held E (roots s) s.machine c) (new : ∀ b', c ∉ mapped s b') (hdom : dom c)
    (hpage : page < 2 ^ 36)
    (h : Stored E dom (roots s) b (path page 3) (digit page 3) (E.encodeLeaf c perms) s.machine m') :
    ManagerInv E dom (({ s with machine := m' } : AddressSpaceManager).pushFrame b c) := by
  obtain ⟨-, hafter⟩ := h.pageTarget_leaf faithful hdom hpage
  set s' := ({ s with machine := m' } : AddressSpaceManager).pushFrame b c
  have hmapped : ∀ b', mapped s' b' = if b' = b then mapped s b ++ [c] else mapped s b' :=
    mapped_pushFrame (s := { s with machine := m' }) live
  have hgrows : ∀ b' f, f ∈ mapped s b' → f ∈ mapped s' b' := by
    intro b' f hf
    rw [hmapped]
    split
    · rename_i hb
      exact mem_append_left _ (hb ▸ hf)
    · exact hf
  have hmem : ∀ b' f, f ∈ mapped s' b' → f ∈ mapped s b' ∨ (b' = b ∧ f = c) := by
    intro b' f hf
    rw [hmapped] at hf
    split at hf
    · rename_i hb
      rcases mem_append.mp hf with hold | hnew
      · exact .inl (hb ▸ hold)
      · exact .inr ⟨hb, mem_singleton.mp hnew⟩
    · exact .inl hf
  have hreach : ∀ b' page' a, page' < 2 ^ 36 → reach E s' b' page' = some a →
      (b' = b ∧ page' = page ∧ a = c.addr) ∨ reach E s b' page' = some a := by
    intro b' page' a hlt hread
    rw [reach, roots_pushFrame] at hread
    have hread := (hafter b' page' hlt).symm.trans hread
    split at hread
    · rename_i hhere
      exact .inl ⟨hhere.1, hhere.2, (some.inj hread).symm⟩
    · exact .inr hread
  have hother : ∀ b' page', page' < 2 ^ 36 → reach E s b' page' ≠ some c.addr := by
    intro b' page' hlt hread
    obtain ⟨f, hf, haddr⟩ := inv.recorded b' page' c.addr hlt hread
    obtain rfl := PhysFrame.ext haddr
    exact new b' hf
  refine ⟨?_, ?_, ?_, ?_, ?_⟩
  · rw [roots_pushFrame]
    exact h.inv
  · intro b' page' a hlt hread
    rcases hreach b' page' a hlt hread with ⟨rfl, -, rfl⟩ | hold
    · exact ⟨c, by rw [hmapped, if_pos rfl]; simp, rfl⟩
    · obtain ⟨f, hf, haddr⟩ := inv.recorded b' page' a hlt hold
      exact ⟨f, hgrows b' f hf, haddr⟩
  · intro b' f hf
    rw [roots_pushFrame]
    rcases hmem b' f hf with hold | ⟨-, rfl⟩
    · exact (inv.held b' f hold).stored h
    · exact held.stored h
  · intro b1 b2 f hf1 hf2
    rcases hmem b1 f hf1 with hold1 | ⟨hb1, hc1⟩ <;> rcases hmem b2 f hf2 with hold2 | ⟨hb2, hc2⟩
    · exact inv.apart b1 b2 f hold1 hold2
    · exact absurd (hc2 ▸ hold1) (new b1)
    · exact absurd (hc1 ▸ hold2) (new b2)
    · exact hb1.trans hb2.symm
  · intro b' page1 page2 a hlt1 hlt2 hread1 hread2
    rcases hreach b' page1 a hlt1 hread1 with ⟨-, hp1, ha1⟩ | hold1 <;>
      rcases hreach b' page2 a hlt2 hread2 with ⟨-, hp2, ha2⟩ | hold2
    · exact hp1.trans hp2.symm
    · exact absurd (ha1 ▸ hold2) (hother b' page2 hlt2)
    · exact absurd (ha2 ▸ hold1) (hother b' page1 hlt1)
    · exact inv.once b' page1 page2 a hlt1 hlt2 hold1 hold2

end

section

variable {E : PageTableEncoder} {dom : PhysFrame → Prop} {profile : BuildProfile} {b : BoundaryId}
  {root : PhysFrame} {virt i : Nat} {perms : Permissions} {s s' : AddressSpaceManager}

/-- How a round of `map_new_pages` ends: the pool is empty, the address overflows, the page cannot be
mapped, or the page is mapped and its frame recorded. -/
inductive Round (E : PageTableEncoder) (profile : BuildProfile) (b : BoundaryId) (root : PhysFrame)
    (virt : Nat) (perms : Permissions) (i : Nat) (s : AddressSpaceManager) :
    Outcome KernelError Unit → AddressSpaceManager → Prop
  | exhausted {o : Outcome KernelError Unit} : freeSet s.machine.frames = ∅ →
      o = .err (.limitExceeded "physical frames") ∨ o = .panic →
      Round E profile b root virt perms i s o s
  | overflow {c : PhysFrame} {m1 : Machine} : allocateZeroed s.machine = (.ok c, m1) →
      pageAddr profile virt i = none →
      Round E profile b root virt perms i s .panic { s with machine := m1 }
  | refused {c : PhysFrame} {m1 m' : Machine} {v : Nat} {o : Outcome KernelError Unit} :
      allocateZeroed s.machine = (.ok c, m1) → pageAddr profile virt i = some v →
      map E root v c perms m1 = (o, m') → o ≠ .ok () →
      Round E profile b root virt perms i s o { s with machine := m' }
  | mapped {c : PhysFrame} {m1 m' : Machine} {v : Nat} :
      allocateZeroed s.machine = (.ok c, m1) → pageAddr profile virt i = some v →
      map E root v c perms m1 = (.ok (), m') →
      Round E profile b root virt perms i s (.ok ())
        (({ s with machine := m' } : AddressSpaceManager).pushFrame b c)

theorem onMachine_run {α : Type} (call : OnMachine α)
    (s : AddressSpaceManager) {o : Outcome KernelError α} {m' : Machine}
    (h : call s.machine = (o, m')) :
    onMachine call s = (o, { s with machine := m' }) := by
  rw [onMachine, h]

theorem mapNewPage_round (profile : BuildProfile) (b : BoundaryId) (root : PhysFrame) (virt : Nat)
    (perms : Permissions) (i : Nat) (paging : PagingInv E dom (roots s) s.machine) :
    Round E profile b root virt perms i s (mapNewPage profile E b root virt perms i s).1
      (mapNewPage profile E b root virt perms i s).2 := by
  rcases allocateZeroed_cases paging with ⟨c, frames, -, hrun⟩ | ⟨hrun, hempty⟩ | ⟨hrun, hempty⟩
  · rw [mapNewPage, bind_ok (onMachine_run _ _ hrun)]
    rcases hv : pageAddr profile virt i with _ | v
    · exact .overflow hrun hv
    · rw [orPanic_some, bind_ok (pure_run _ _)]
      rcases hmap : map E root v c perms _ with ⟨u | e | _, m'⟩
      · rw [bind_ok (onMachine_run _ _ hmap)]
        exact .mapped hrun hv hmap
      · rw [bind_err (onMachine_run _ _ hmap)]
        exact .refused hrun hv hmap (by simp)
      · rw [bind_panic (onMachine_run _ _ hmap)]
        exact .refused hrun hv hmap (by simp)
  · rw [mapNewPage, bind_err (onMachine_run _ _ hrun)]
    exact .exhausted hempty (.inl rfl)
  · rw [mapNewPage, bind_panic (onMachine_run _ _ hrun)]
    exact .exhausted hempty (.inr rfl)

theorem ManagerInv.new_frame {c : PhysFrame} {m1 : Machine} (inv : ManagerInv E dom s)
    (h : Reserved E dom (roots s) c s.machine m1) (b' : BoundaryId) : c ∉ mapped s b' := by
  intro hc
  exact (inv.held b' c hc).taken (h.took.subset (Finset.mem_singleton_self _))

theorem ManagerInv.round (faithful : Faithful E dom) {o : Outcome KernelError Unit}
    (inv : ManagerInv E dom s) (live : roots s b = some root)
    (h : Round E profile b root virt perms i s o s') : ManagerInv E dom s' ∧ roots s' = roots s := by
  cases h with
  | exhausted _ _ => exact ⟨inv, rfl⟩
  | overflow htake _ => exact ⟨inv.reserved (Walk.reserved inv.paging htake), rfl⟩
  | @refused c m1 m' v o htake _ hmap hfailed =>
    refine ⟨?_, rfl⟩
    have hreserved := Walk.reserved inv.paging htake
    have inv1 := inv.reserved hreserved
    rcases o with u | e | _
    · exact absurd rfl hfailed
    · exact inv1.grown (map_err_grown faithful hreserved.inv live hmap)
    · exact inv1.grown ((map_panic faithful hreserved.inv live hmap).2.grown faithful hreserved.inv)
  | @mapped c m1 m' v htake _ hmap =>
    have hreserved := Walk.reserved inv.paging htake
    have hheld := held_of_reserved hreserved
    have hdom : dom c := inv.paging.covers c (by
      rw [← hreserved.took.frameCount_eq]
      exact hheld.covered)
    obtain ⟨-, -, m2, hbuilt, hstored⟩ := map_ok faithful hreserved.inv live hdom hmap
    have hgrown := hbuilt.grown faithful hreserved.inv
    have inv2 := (inv.reserved hreserved).grown hgrown
    have hpage := ManagerInv.page (s := { s with machine := m2 }) faithful inv2 live
      (hheld.grown hgrown) (inv.new_frame hreserved) hdom (pageOf_lt v) hstored
    exact ⟨hpage, roots_pushFrame ..⟩

end

section

variable {E : PageTableEncoder} {dom : PhysFrame → Prop} {b : BoundaryId} {s s' : AddressSpaceManager}

theorem roots_update (s : AddressSpaceManager) (m : Machine) (b : BoundaryId)
    (space : Option BoundarySpace) :
    roots ⟨m, update s.spaces b space⟩ = update (roots s) b (space.map (·.root)) := by
  funext b'
  by_cases hb : b' = b
  · subst hb
    simp only [roots, update_self]
  · simp only [roots, update_of_ne hb]

theorem mapped_update (s : AddressSpaceManager) (m : Machine) (b : BoundaryId)
    {space : Option BoundarySpace} (empty : (space.map (·.mappedFrames)).getD [] = [])
    (b' : BoundaryId) :
    mapped ⟨m, update s.spaces b space⟩ b' = if b' = b then [] else mapped s b' := by
  by_cases hb : b' = b
  · subst hb
    simp only [mapped, update_self, empty, if_true]
  · simp only [mapped, update_of_ne hb, if_neg hb]

theorem mapped_opened (absent : s.spaces b = none) (m' : Machine) (root : PhysFrame) :
    mapped ⟨m', update s.spaces b (some ⟨root, []⟩)⟩ = mapped s := by
  funext b'
  rw [mapped_update s m' b rfl]
  split
  · rename_i hb
    rw [hb, mapped, absent]
    rfl
  · rfl

theorem ManagerInv.opened {root : PhysFrame} {m' : Machine} (inv : ManagerInv E dom s)
    (absent : s.spaces b = none) (h : Opened E dom (roots s) b root s.machine m') :
    ManagerInv E dom ⟨m', update s.spaces b (some ⟨root, []⟩)⟩ := by
  have hroots := roots_update s m' b (some ⟨root, []⟩)
  have hmapped := mapped_opened absent m' root
  have hreach : ∀ b' page a, reach E ⟨m', update s.spaces b (some ⟨root, []⟩)⟩ b' page = some a →
        reach E s b' page = some a := by
    intro b' page a hread
    rw [reach, hroots] at hread
    have hread := (h.target b' page).symm.trans hread
    split at hread
    · cases hread
    · exact hread
  refine ⟨?_, ?_, ?_, ?_, ?_⟩
  · rw [hroots]
    exact h.inv
  · intro b' page a hpage hread
    rw [hmapped]
    exact inv.recorded b' page a hpage (hreach b' page a hread)
  · intro b' f hf
    rw [hmapped] at hf
    rw [hroots]
    exact (inv.held b' f hf).opened h
  · intro b1 b2 f hf1 hf2
    rw [hmapped] at hf1 hf2
    exact inv.apart b1 b2 f hf1 hf2
  · intro b' page page' a hpage hpage' hread hread'
    exact inv.once b' page page' a hpage hpage' (hreach b' page a hread) (hreach b' page' a hread')

theorem ManagerInv.closed (inv : ManagerInv E dom s) :
    ManagerInv E dom ⟨s.machine, update s.spaces b none⟩ := by
  have hroots : roots ⟨s.machine, update s.spaces b none⟩ = update (roots s) b none :=
    roots_update s s.machine b none
  have hmem : ∀ b' f, f ∈ mapped ⟨s.machine, update s.spaces b none⟩ b' → f ∈ mapped s b' := by
    intro b' f hf
    rw [mapped_update s s.machine b rfl] at hf
    split at hf
    · cases hf
    · exact hf
  have hreach : ∀ b' page a, reach E ⟨s.machine, update s.spaces b none⟩ b' page = some a →
      b' ≠ b ∧ reach E s b' page = some a := by
    intro b' page a hread
    rw [reach, hroots, pageTarget_dropRoot] at hread
    split at hread
    · cases hread
    · rename_i hb
      exact ⟨hb, hread⟩
  refine ⟨?_, ?_, ?_, ?_, ?_⟩
  · rw [hroots]
    exact pagingInv_dropRoot inv.paging b
  · intro b' page a hpage hread
    obtain ⟨hb, hread⟩ := hreach b' page a hread
    rw [mapped_update s s.machine b rfl, if_neg hb]
    exact inv.recorded b' page a hpage hread
  · intro b' f hf
    have hheld := inv.held b' f (hmem b' f hf)
    refine ⟨hheld.covered, hheld.taken, ?_⟩
    intro k p hnode
    rw [hroots, node_dropRoot] at hnode
    split at hnode
    · cases hnode
    · exact hheld.fresh k p hnode
  · intro b1 b2 f hf1 hf2
    exact inv.apart b1 b2 f (hmem b1 f hf1) (hmem b2 f hf2)
  · intro b' page page' a hpage hpage' hread hread'
    exact inv.once b' page page' a hpage hpage' (hreach b' page a hread).2 (hreach b' page' a hread').2

theorem createSpace_keeps (faithful : Faithful E dom) (recorded : BoundaryId → List PhysFrame) :
    Prog.Keeps (fun s => ManagerInv E dom s ∧ mapped s = recorded) (createSpace b) := by
  rintro s ⟨inv, hmapped⟩
  rw [createSpace, bind_ok (gets_run _ _)]
  by_cases hexists : (s.spaces b).isSome
  · rw [bind_err (rejectIf_pos hexists _ _)]
    exact ⟨inv, hmapped⟩
  · rw [bind_ok (rejectIf_neg hexists _ _)]
    have habsent : s.spaces b = none := by simpa using hexists
    rcases allocateZeroed_cases inv.paging with ⟨root, frames, -, hrun⟩ | ⟨hrun, -⟩ | ⟨hrun, -⟩
    · rw [bind_ok (onMachine_run newRoot s hrun)]
      exact ⟨inv.opened habsent (newRoot_ok faithful inv.paging b hrun),
        (mapped_opened habsent _ root).trans hmapped⟩
    · rw [bind_err (onMachine_run newRoot s hrun)]
      exact ⟨inv, hmapped⟩
    · rw [bind_panic (onMachine_run newRoot s hrun)]
      exact ⟨inv, hmapped⟩

theorem mapNewPages_keeps (faithful : Faithful E dom) (profile : BuildProfile) (virt count : Nat)
    (perms : Permissions) :
    Prog.Keeps (ManagerInv E dom) (mapNewPages profile E b virt count perms) := by
  intro s inv
  rw [mapNewPages, bind_ok (gets_run _ _)]
  rcases hspace : s.spaces b with _ | space
  · exact inv
  · have hloop : Prog.Keeps (fun s => ManagerInv E dom s ∧ roots s b = some space.root)
        (forEach (upTo 0 count) (mapNewPage profile E b space.root virt perms)) := by
      refine .forEach fun i _ s ⟨inv, live⟩ => ?_
      obtain ⟨hinv, hroots⟩ := inv.round faithful live (mapNewPage_round _ _ _ _ _ i inv.paging)
      exact ⟨hinv, by rw [hroots]; exact live⟩
    exact (hloop s ⟨inv, roots_of_space hspace⟩).1

theorem ManagerInv.gave {f : PhysFrame} {frames : AllocState} (inv : ManagerInv E dom s)
    (fresh : Fresh (child E) s.machine.mem (roots s) f) (loose : ∀ b', f ∉ mapped s b')
    (gave : Gave s.machine.frames frames f.index) :
    ManagerInv E dom { s with machine := { s.machine with frames } } where
  paging := pagingInv_gave inv.paging fresh gave
  recorded := inv.recorded
  held := by
    intro b' g hg
    have hheld := inv.held b' g hg
    refine ⟨?_, ?_, hheld.fresh⟩
    · rw [gave.frameCount_eq]
      exact hheld.covered
    · rw [gave.freeSet_eq, Finset.mem_insert, not_or]
      refine ⟨fun hindex => loose b' ?_, hheld.taken⟩
      rw [← fromIndex_index f, ← hindex, fromIndex_index]
      exact hg
  apart := inv.apart
  once := inv.once

theorem freeAll_run (L : List PhysFrame) : ∀ s : AddressSpaceManager, ManagerInv E dom s →
    (∀ f ∈ L, f.index < s.machine.frames.frameCount ∧
      Fresh (child E) s.machine.mem (roots s) f ∧ ∀ b', f ∉ mapped s b') →
    ∃ frames, forEach L (fun frame => onMachine (onFrames (free frame))) s =
        (.ok (), { s with machine := { s.machine with frames } }) ∧
      ManagerInv E dom { s with machine := { s.machine with frames } } ∧
      freeSet frames = freeSet s.machine.frames ∪ (L.map PhysFrame.index).toFinset := by
  induction L with
  | nil =>
    intro s inv _
    exact ⟨s.machine.frames, rfl, inv, by simp⟩
  | cons f rest ih =>
    intro s inv hloose
    obtain ⟨⟨hcovered, hfresh, hout⟩, hrest⟩ := forall_mem_cons.mp hloose
    rcases free_cases inv.paging.wf f with ⟨frames1, hrun, gave, -⟩ | ⟨hfree, hrun⟩
    · have inv1 := inv.gave hfresh hout gave
      obtain ⟨frames, hloop, hinv, hset⟩ := ih _ inv1 (by
        intro g hg
        obtain ⟨hg, hfreshness⟩ := hrest g hg
        exact ⟨by rw [gave.frameCount_eq]; exact hg, hfreshness⟩)
      refine ⟨frames, ?_, hinv, ?_⟩
      · have hfirst : onMachine (onFrames (free f)) s =
            (.ok (), { s with machine := { s.machine with frames := frames1 } }) := by
          rw [onMachine, onFrames, hrun]
        rw [forEach, bind_ok hfirst, hloop]
      · rw [hset, gave.freeSet_eq, map_cons, toFinset_cons, Finset.insert_union,
          Finset.union_insert]
    · obtain ⟨frames, hloop, hinv, hset⟩ := ih s inv hrest
      refine ⟨frames, ?_, hinv, ?_⟩
      · have hfirst : onMachine (onFrames (free f)) s = (.ok (), s) := by
          rw [onMachine, onFrames, hrun]
        rw [forEach, bind_ok hfirst, hloop]
      · have hin : f.index ∈ freeSet s.machine.frames := by
          rcases hfree with hout | hin
          · exact absurd hcovered (not_lt.mpr hout)
          · exact hin
        rw [hset, map_cons, toFinset_cons, Finset.union_insert,
          Finset.insert_eq_of_mem (Finset.mem_union_left _ hin)]

theorem destroySpace_run {space : BoundarySpace} (inv : ManagerInv E dom s)
    (live : s.spaces b = some space) :
    ∃ frames, destroySpace b s = (.ok (), ⟨{ s.machine with frames }, update s.spaces b none⟩) ∧
      ManagerInv E dom ⟨{ s.machine with frames }, update s.spaces b none⟩ ∧
      freeSet frames = freeSet s.machine.frames ∪ (space.mappedFrames.map PhysFrame.index).toFinset := by
  have hlist : mapped s b = space.mappedFrames := by
    rw [mapped, live]
    rfl
  have hloose : ∀ f ∈ space.mappedFrames, f.index < s.machine.frames.frameCount ∧
      Fresh (child E) s.machine.mem (roots ⟨s.machine, update s.spaces b none⟩) f ∧
      ∀ b', f ∉ mapped ⟨s.machine, update s.spaces b none⟩ b' := by
    intro f hf
    rw [← hlist] at hf
    have hheld := inv.held b f hf
    refine ⟨hheld.covered, ?_, ?_⟩
    · intro k p hnode
      rw [roots_update s s.machine b none, map_none, node_dropRoot] at hnode
      split at hnode
      · cases hnode
      · exact hheld.fresh k p hnode
    · intro b' hf'
      rw [mapped_update s s.machine b rfl] at hf'
      split at hf'
      · cases hf'
      · rename_i hb
        exact hb (inv.apart b' b f hf' hf)
  obtain ⟨frames, hloop, hinv, hset⟩ := freeAll_run space.mappedFrames _ inv.closed hloose
  refine ⟨frames, ?_, hinv, hset⟩
  rw [destroySpace, bind_ok (gets_run _ _), live]
  exact hloop

theorem destroySpace_keeps : Prog.Keeps (ManagerInv E dom) (destroySpace b) := by
  intro s inv
  rcases hspace : s.spaces b with _ | space
  · rw [destroySpace, bind_ok (gets_run _ _), hspace]
    exact inv
  · obtain ⟨frames, hrun, hinv, -⟩ := destroySpace_run inv hspace
    rw [hrun]
    exact hinv

theorem ManagerInv.call (faithful : Faithful E dom) (call : Call) :
    Prog.Keeps (ManagerInv E dom) (call.exec E) := by
  cases call with
  | createSpace b => exact fun s inv => (createSpace_keeps faithful (mapped s) s ⟨inv, rfl⟩).1
  | mapNewPages profile b virt count perms => exact mapNewPages_keeps faithful profile virt count perms
  | destroySpace b => exact destroySpace_keeps

theorem keeps_returns {P : AddressSpaceManager → Prop}
    {call : Prog AddressSpaceManager KernelError Unit} (keeps : Prog.Keeps P call) (hs : P s)
    (h : Returns call s s') : P s' := by
  have hkept := keeps s hs
  rcases h with hrun | ⟨e, hrun⟩
  · rwa [hrun] at hkept
  · rwa [hrun] at hkept

theorem ManagerInv.run (faithful : Faithful E dom) (inv : ManagerInv E dom s)
    (run : Relation.ReflTransGen (Step E) s s') : ManagerInv E dom s' := by
  induction run with
  | refl => exact inv
  | tail _ step ih =>
    obtain ⟨call, hreturns⟩ := step
    exact keeps_returns (ManagerInv.call faithful call) ih hreturns

end

/-- What the boundaries of a state can reach. Two addresses are on the same page when they agree in
the bits that `translate` looks at, the low 48. -/
structure Isolated (E : PageTableEncoder) (s : AddressSpaceManager) : Prop where
  boundaries : ∀ b b' v v' a a', translate E s b v = some a → translate E s b' v' = some a' →
    a / frameSize = a' / frameSize → b = b'
  pages : ∀ b v v' a a', translate E s b v = some a → translate E s b v' = some a' →
    a / frameSize = a' / frameSize → v % 2 ^ 48 / frameSize = v' % 2 ^ 48 / frameSize
  tables : ∀ b v a, translate E s b v = some a → ∀ b' p t,
    node (child E) s.machine.mem (roots s) b' p = some t → t.index ≠ a / frameSize
  allocated : ∀ b v a, translate E s b v = some a → a / frameSize ∉ freeSet s.machine.frames

section

variable {E : PageTableEncoder} {dom : PhysFrame → Prop} {s : AddressSpaceManager}

theorem translate_reach (faithful : Faithful E dom) (inv : ManagerInv E dom s) (b : BoundaryId)
    (virt : Nat) :
    translate E s b virt = (reach E s b (pageOf virt)).map fun base => base + virt % frameSize := by
  rcases hspace : s.spaces b with _ | space
  · have hroot : roots s b = none := by rw [roots, hspace, map_none]
    rw [Manager.translate, hspace, bind_none, reach, pageTarget, slot, slot, node, node, hroot]
    rfl
  · rw [Manager.translate, hspace, bind_some, translate_eq faithful inv.paging (roots_of_space hspace)]

theorem translate_frame (faithful : Faithful E dom) (inv : ManagerInv E dom s) {b : BoundaryId}
    {virt a : Nat} (h : translate E s b virt = some a) :
    ∃ f ∈ mapped s b, f.index = a / frameSize ∧ reach E s b (pageOf virt) = some f.addr := by
  rw [translate_reach faithful inv] at h
  obtain ⟨base, hbase, rfl⟩ := map_eq_some_iff.mp h
  obtain ⟨f, hf, rfl⟩ := inv.recorded b _ base (pageOf_lt virt) hbase
  have haligned := f.aligned
  refine ⟨f, hf, ?_, hbase⟩
  simp only [PhysFrame.index, frameSize] at *
  omega

private theorem frame_of_index {f g : PhysFrame} (h : f.index = g.index) : f = g := by
  rw [← fromIndex_index f, h, fromIndex_index]

theorem ManagerInv.isolated (faithful : Faithful E dom) (inv : ManagerInv E dom s) : Isolated E s where
  boundaries := by
    intro b b' v v' a a' h h' hsame
    obtain ⟨f, hf, hindex, -⟩ := translate_frame faithful inv h
    obtain ⟨g, hg, hindex', -⟩ := translate_frame faithful inv h'
    obtain rfl : f = g := frame_of_index (by rw [hindex, hindex', hsame])
    exact inv.apart b b' f hf hg
  pages := by
    intro b v v' a a' h h' hsame
    obtain ⟨f, -, hindex, hreach⟩ := translate_frame faithful inv h
    obtain ⟨g, -, hindex', hreach'⟩ := translate_frame faithful inv h'
    obtain rfl : f = g := frame_of_index (by rw [hindex, hindex', hsame])
    exact inv.once b _ _ f.addr (pageOf_lt v) (pageOf_lt v') hreach hreach'
  tables := by
    intro b v a h b' p t hnode hsame
    obtain ⟨f, hf, hindex, -⟩ := translate_frame faithful inv h
    obtain rfl : t = f := frame_of_index (by rw [hsame, hindex])
    exact (inv.held b t hf).fresh b' p hnode
  allocated := by
    intro b v a h
    obtain ⟨f, hf, hindex, -⟩ := translate_frame faithful inv h
    rw [← hindex]
    exact (inv.held b f hf).taken

end

/-- Boundaries are isolated in every state that calls on a fresh manager reach, whatever the memory
held before. -/
theorem boundaries_isolated (E : PageTableEncoder) (dom : PhysFrame → Prop) (faithful : Faithful E dom)
    (profile : BuildProfile) (regions : List MemoryRegion) (reservedBelow : Nat) (frames : AllocState)
    (built : fromRegions profile regions reservedBelow = some frames)
    (covers : ∀ f : PhysFrame, f.index < frames.frameCount → dom f)
    (mem : PhysFrame → Nat → Entry) (s : AddressSpaceManager)
    (run : Relation.ReflTransGen (Step E) (.new ⟨mem, frames⟩) s) : Isolated E s :=
  ((managerInv_new (m := ⟨mem, frames⟩) (fromRegions_wf built) covers).run faithful run).isolated
    faithful

def onePage : AddressSpaceManager :=
  (mapNewPages .dev x86PageTable ⟨7⟩ 0x1000 1 ⟨true, true, false, true, false⟩
    (createSpace ⟨7⟩ (.new blankMachine)).2).2

theorem onePage_run : Relation.ReflTransGen (Step x86PageTable) (.new blankMachine) onePage := by
  have hcreate : Step x86PageTable (.new blankMachine) (createSpace ⟨7⟩ (.new blankMachine)).2 :=
    ⟨.createSpace ⟨7⟩, .inl (Prod.ext (by decide +kernel) rfl)⟩
  have hmap : Step x86PageTable (createSpace ⟨7⟩ (.new blankMachine)).2 onePage :=
    ⟨.mapNewPages .dev ⟨7⟩ 0x1000 1 ⟨true, true, false, true, false⟩,
      .inl (Prod.ext (by decide +kernel) rfl)⟩
  exact .head hcreate (.single hmap)

/-- A second boundary, with a page at the same address. -/
def twoSpaces : AddressSpaceManager :=
  (mapNewPages .dev x86PageTable ⟨8⟩ 0x1000 1 ⟨true, true, false, true, false⟩
    (createSpace ⟨8⟩ onePage).2).2

theorem boundaries_isolated_two_spaces : translate x86PageTable twoSpaces ⟨7⟩ 0x1234 = some 0x1234 ∧
    translate x86PageTable twoSpaces ⟨8⟩ 0x1234 = some 0x6234 ∧ Isolated x86PageTable twoSpaces := by
  have hcreate : Step x86PageTable onePage (createSpace ⟨8⟩ onePage).2 :=
    ⟨.createSpace ⟨8⟩, .inl (Prod.ext (by decide +kernel) rfl)⟩
  have hmap : Step x86PageTable (createSpace ⟨8⟩ onePage).2 twoSpaces :=
    ⟨.mapNewPages .dev ⟨8⟩ 0x1000 1 ⟨true, true, false, true, false⟩, .inl (Prod.ext (by decide +kernel) rfl)⟩
  exact ⟨by decide +kernel, by decide +kernel, boundaries_isolated x86PageTable Addressable x86_faithful .dev _ 0 _
    blankMachine_built blankMachine_addressable _ twoSpaces ((onePage_run.tail hcreate).tail hmap)⟩

/-- The page at 0x1000 is also reached at 2^48 + 0x1000. -/
theorem high_bits_alias : ¬ ∀ s, Relation.ReflTransGen (Step x86PageTable) (.new blankMachine) s →
      ∀ b v v' a a', v < wordBound → v' < wordBound →
        translate x86PageTable s b v = some a → translate x86PageTable s b v' = some a' →
        a / frameSize = a' / frameSize → v / frameSize = v' / frameSize := by
  intro hall
  have hlow : translate x86PageTable onePage ⟨7⟩ 0x1000 = some 0x1000 := by decide +kernel
  have hhigh : translate x86PageTable onePage ⟨7⟩ (2 ^ 48 + 0x1000) = some 0x1000 := by decide +kernel
  have hsame := hall onePage onePage_run ⟨7⟩ 0x1000 (2 ^ 48 + 0x1000) _ _ (by decide) (by decide)
    hlow hhigh rfl
  exact absurd hsame (by decide)

end CibosPlatform.Kernel.AddressSpace.Isolation

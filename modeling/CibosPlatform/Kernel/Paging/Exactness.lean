/- source: cibos-kernel/src/paging.rs
   digest: Over any run of mapping calls, translation is the set of mappings that succeeded. -/

import CibosPlatform.Kernel.Paging.Walk
import CibosPlatform.Kernel.Paging.X86

/-! The log holds the 4 KiB and 2 MiB mappings that succeeded, those made inside `map_range` included. It
never influences the calls. -/

namespace CibosPlatform.Kernel.Paging.Exactness

open Core MachineWord Program TableForest Frame.Accounting Frame.Allocator PhysFrame
open Space Tables Walk X86 List

structure Mapping where
  virt : Nat
  size : Nat
  phys : Nat
  deriving DecidableEq

namespace Mapping

def Covers (mapping : Mapping) (addr : Nat) : Prop :=
  mapping.virt ≤ addr ∧ addr < mapping.virt + mapping.size

instance (mapping : Mapping) (addr : Nat) : Decidable (mapping.Covers addr) :=
  inferInstanceAs (Decidable (_ ∧ _))

def Apart (a b : Mapping) : Prop := ∀ addr, ¬ (a.Covers addr ∧ b.Covers addr)

end Mapping

structure Traced where
  machine : Machine
  log : List Mapping

def traced (mapping : Mapping) (call : OnMachine Unit) : Prog Traced KernelError Unit :=
  fun s => ((call s.machine).1,
    { machine := (call s.machine).2
      log := match (call s.machine).1 with
        | .ok _ => mapping :: s.log
        | _ => s.log })

inductive Call where
  | map (virt : Nat) (frame : PhysFrame) (perms : Permissions)
  | mapBlock2m (virt : Nat) (frame : PhysFrame) (perms : Permissions)
  | mapRange (profile : BuildProfile) (virt phys count : Nat) (perms : Permissions)

variable (E : PageTableEncoder)

namespace Call

variable (root : PhysFrame)

def exec : Call → OnMachine Unit
  | .map virt frame perms => Tables.map E root virt frame perms
  | .mapBlock2m virt frame perms => Tables.mapBlock2m E root virt frame perms
  | .mapRange profile virt phys count perms => Tables.mapRange profile E root virt phys count perms

def mapTraced (perms : Permissions) (virt : Nat)
    (frame : PhysFrame) : Prog Traced KernelError Unit :=
  traced ⟨virt % 2 ^ 48, frameSize, frame.addr⟩ (Tables.map E root virt frame perms)

def blockTraced (perms : Permissions) (virt : Nat)
    (frame : PhysFrame) : Prog Traced KernelError Unit :=
  traced ⟨virt % 2 ^ 48, blockSize, frame.addr⟩ (Tables.mapBlock2m E root virt frame perms)

def run : Call → Prog Traced KernelError Unit
  | .map virt frame perms => mapTraced E root perms virt frame
  | .mapBlock2m virt frame perms => blockTraced E root perms virt frame
  | .mapRange profile virt phys count perms =>
    rangeLoop profile (mapTraced E root perms) (blockTraced E root perms) virt phys count count 0

def Uses (dom : PhysFrame → Prop) : Call → Prop
  | .map _ frame _ => dom frame
  | .mapBlock2m _ frame _ => dom frame
  | .mapRange profile _ phys count _ =>
    ∀ i < count, ∀ p, pageAddr profile phys i = some p → dom (containing p)

end Call

def Step (dom : PhysFrame → Prop) (root : PhysFrame) (s s' : Traced) : Prop :=
  ∃ call : Call, call.Uses dom ∧
    (call.run E root s = (.ok (), s') ∨ ∃ e, call.run E root s = (.err e, s'))

section

variable {E : PageTableEncoder} {root : PhysFrame}

def Projects (t : Prog Traced KernelError Unit) (c : OnMachine Unit) : Prop :=
  ∀ s, (t s).1 = (c s.machine).1 ∧ (t s).2.machine = (c s.machine).2

private theorem projects_traced (mapping : Mapping) (call : OnMachine Unit) :
    Projects (traced mapping call) call := fun _ => ⟨rfl, rfl⟩

private theorem Projects.bind {t : Prog Traced KernelError Unit} {c : OnMachine Unit}
    {t' : Unit → Prog Traced KernelError Unit} {c' : Unit → OnMachine Unit}
    (first : Projects t c) (next : ∀ u, Projects (t' u) (c' u)) :
    Projects (t >>= t') (c >>= c') := by
  intro s
  obtain ⟨houtcome, hmachine⟩ := first s
  rw [Prog.bind_run, Prog.bind_run]
  rcases ht : t s with ⟨u | e | _, s'⟩ <;> rcases hc : c s.machine with ⟨u' | e' | _, m'⟩ <;>
    simp only [ht, hc, reduceCtorEq] at houtcome hmachine ⊢
  · rw [← hmachine]
    exact next u s'
  · exact ⟨by rw [Outcome.err.inj houtcome], hmachine⟩
  · exact ⟨trivial, hmachine⟩

private theorem projects_rangeLoop {profile : BuildProfile} {virt phys count : Nat}
    {mapPage mapBlock : Nat → PhysFrame → Prog Traced KernelError Unit}
    {mapPage' mapBlock' : Nat → PhysFrame → OnMachine Unit}
    (pages : ∀ v f, Projects (mapPage v f) (mapPage' v f))
    (blocks : ∀ v f, Projects (mapBlock v f) (mapBlock' v f)) (fuel : Nat) :
    ∀ i, Projects (rangeLoop profile mapPage mapBlock virt phys count fuel i)
      (rangeLoop profile mapPage' mapBlock' virt phys count fuel i) := by
  induction fuel with
  | zero =>
    intro i s
    simp only [rangeLoop]
    split <;> exact ⟨rfl, rfl⟩
  | succ fuel ih =>
    intro i
    simp only [rangeLoop]
    split
    · rcases pageAddr profile virt i with _ | v
      · exact fun _ => ⟨rfl, rfl⟩
      · rcases pageAddr profile phys i with _ | p
        · exact fun _ => ⟨rfl, rfl⟩
        · change Projects (if _ then _ else _) (if _ then _ else _)
          split
          · exact (blocks v _).bind fun _ => ih _
          · exact (pages v _).bind fun _ => ih _
    · exact fun _ => ⟨rfl, rfl⟩

theorem run_eq_exec (call : Call) : Projects (call.run E root) (call.exec E root) := by
  cases call with
  | map virt frame perms | mapBlock2m virt frame perms => exact projects_traced _ _
  | mapRange profile virt phys count perms =>
    exact projects_rangeLoop (fun _ _ => projects_traced _ _) (fun _ _ => projects_traced _ _) _ _

end

theorem rangeLoop_keeps {σ : Type} {P : σ → Prop} {Q : PhysFrame → Prop} {profile : BuildProfile}
    {virt phys count : Nat} {mapPage mapBlock : Nat → PhysFrame → Prog σ KernelError Unit}
    (pages : ∀ v f, Q f → Prog.Keeps P (mapPage v f))
    (blocks : ∀ v f, Q f → Prog.Keeps P (mapBlock v f))
    (frames : ∀ i < count, ∀ p, pageAddr profile phys i = some p → Q (containing p))
    (fuel : Nat) :
    ∀ i, Prog.Keeps P (rangeLoop profile mapPage mapBlock virt phys count fuel i) := by
  induction fuel with
  | zero =>
    intro i
    simp only [rangeLoop]
    split
    · exact .trap
    · exact .pure ()
  | succ fuel ih =>
    intro i
    simp only [rangeLoop]
    split
    · rename_i hi
      refine .bind (.orPanic _) fun v => ?_
      rcases hp : pageAddr profile phys i with _ | p
      · exact .trap
      · have hframe := frames i hi p hp
        change Prog.Keeps P (if _ then _ else _)
        split
        · exact (blocks v _ hframe).bind fun _ => ih _
        · exact (pages v _ hframe).bind fun _ => ih _
    · exact .pure ()

theorem run_keeps {E : PageTableEncoder} {dom : PhysFrame → Prop} {root : PhysFrame} {P : Traced → Prop}
    (pages : ∀ perms v f, dom f → Prog.Keeps P (Call.mapTraced E root perms v f))
    (blocks : ∀ perms v f, dom f → Prog.Keeps P (Call.blockTraced E root perms v f)) {s s' : Traced} (start : P s)
    (run : Relation.ReflTransGen (Step E dom root) s s') : P s' := by
  have hcall : ∀ call : Call, call.Uses dom → Prog.Keeps P (call.run E root) := by
    intro call uses
    cases call with
    | map virt frame perms => exact pages perms virt frame uses
    | mapBlock2m virt frame perms => exact blocks perms virt frame uses
    | mapRange profile virt phys count perms => exact rangeLoop_keeps (pages perms) (blocks perms) uses _ _
  induction run with
  | refl => exact start
  | tail _ step ih =>
    obtain ⟨call, uses, hrun | ⟨e, hrun⟩⟩ := step
    · have h := hcall call uses _ ih
      rwa [hrun] at h
    · have h := hcall call uses _ ih
      rwa [hrun] at h

section

variable {E : PageTableEncoder} {dom : PhysFrame → Prop} {root : PhysFrame}

abbrev target (E : PageTableEncoder) (root : PhysFrame) (m : Machine) (page : Nat) : Option Nat :=
  pageTarget E (fun _ : Unit => some root) m.mem () page

theorem translate_target {m : Machine} (faithful : Faithful E dom)
    (paging : PagingInv E dom (fun _ : Unit => some root) m) (virt : Nat) :
    translate E m.mem root virt =
      (target E root m (pageOf virt)).map fun base => base + virt % frameSize :=
  translate_eq (k := ()) faithful paging rfl virt

structure TraceInv (E : PageTableEncoder) (dom : PhysFrame → Prop) (root : PhysFrame) (s : Traced) :
    Prop where
  paging : PagingInv E dom (fun _ : Unit => some root) s.machine
  aligned : ∀ a ∈ s.log, a.virt % frameSize = 0 ∧ a.size % frameSize = 0
  one : s.log.Pairwise Mapping.Apart
  mapped : ∀ a ∈ s.log, ∀ page < 2 ^ 36, a.Covers (page * frameSize) →
    target E root s.machine page = some (a.phys + (page * frameSize - a.virt))
  unmapped : ∀ page < 2 ^ 36, (∀ a ∈ s.log, ¬ a.Covers (page * frameSize)) →
    target E root s.machine page = none
  inside : ∀ a ∈ s.log, a.virt + a.size ≤ 2 ^ 48

theorem TraceInv.grown {s : Traced} {m' : Machine} (inv : TraceInv E dom root s)
    (h : Grown E dom (fun _ : Unit => some root) s.machine m') :
    TraceInv E dom root ⟨m', s.log⟩ where
  paging := h.inv
  aligned := inv.aligned
  one := inv.one
  mapped := by
    intro a ha page hpage hcovers
    rw [target, h.target]
    exact inv.mapped a ha page hpage hcovers
  unmapped := by
    intro page hpage hnone
    rw [target, h.target]
    exact inv.unmapped page hpage hnone
  inside := inv.inside

structure Mapped (E : PageTableEncoder) (root : PhysFrame) (first n base : Nat) (m m' : Machine) : Prop where
  before : ∀ page, first ≤ page → page < first + n → target E root m page = none
  after : ∀ page < 2 ^ 36, target E root m' page =
    if first ≤ page ∧ page < first + n then some (base + (page - first) * frameSize) else target E root m page

variable {m m' : Machine} {first n base : Nat}

theorem Mapped.keeps (h : Mapped E root first n base m m') {page : Nat} (hpage : page < 2 ^ 36)
    (mapped : target E root m page ≠ none) : target E root m' page ≠ none := by
  rw [h.after page hpage]
  split
  · simp
  · exact mapped

theorem TraceInv.record {s : Traced} (inv : TraceInv E dom root s)
    (paging : PagingInv E dom (fun _ : Unit => some root) m') (fits : first + n ≤ 2 ^ 36)
    (mapped : Mapped E root first n base s.machine m') :
    TraceInv E dom root ⟨m', ⟨first * frameSize, n * frameSize, base⟩ :: s.log⟩ := by
  have hcovers : ∀ page, (⟨first * frameSize, n * frameSize, base⟩ : Mapping).Covers (page * frameSize) ↔
      first ≤ page ∧ page < first + n := by
    intro page
    simp only [Mapping.Covers, frameSize]
    omega
  refine ⟨paging, forall_mem_cons.mpr ⟨by simp, inv.aligned⟩, pairwise_cons.mpr ⟨?_, inv.one⟩, ?_, ?_,
    forall_mem_cons.mpr ⟨?_, inv.inside⟩⟩
  · rintro b hb addr ⟨ha, hb'⟩
    obtain ⟨halign, hsize⟩ := inv.aligned b hb
    have hcovered : b.Covers (addr / frameSize * frameSize) := by
      simp only [Mapping.Covers, frameSize] at *
      omega
    have hhere : first ≤ addr / frameSize ∧ addr / frameSize < first + n := by
      simp only [Mapping.Covers, frameSize] at *
      omega
    have hfree := mapped.before _ hhere.1 hhere.2
    rw [inv.mapped b hb _ (by omega) hcovered] at hfree
    cases hfree
  · intro b hb page hpage hcovered
    rw [mapped.after page hpage]
    rcases mem_cons.mp hb with rfl | hb
    · rw [if_pos ((hcovers page).mp hcovered), Nat.sub_mul]
    · have hold := inv.mapped b hb page hpage hcovered
      rw [if_neg, hold]
      rintro ⟨hle, hlt⟩
      rw [mapped.before page hle hlt] at hold
      cases hold
  · intro page hpage hnone
    obtain ⟨hhead, htail⟩ := forall_mem_cons.mp hnone
    rw [mapped.after page hpage, if_neg (fun h => hhead ((hcovers page).mpr h))]
    exact inv.unmapped page hpage htail
  · simp only [frameSize]
    omega

variable (faithful : Faithful E dom)

include faithful

section

variable {virt : Nat} {frame : PhysFrame} {perms : Permissions} (hdom : dom frame)
  (inv : PagingInv E dom (fun _ : Unit => some root) m)

include hdom inv

theorem mapped_of_map (h : Tables.map E root virt frame perms m = (.ok (), m')) :
    Mapped E root (pageOf virt) 1 frame.addr m m' := by
  obtain ⟨-, -, m1, hbuilt, hstored⟩ := map_ok (k := ()) faithful inv rfl hdom h
  obtain ⟨hbefore, hafter⟩ := hstored.pageTarget_leaf faithful hdom (pageOf_lt virt)
  have htarget := (hbuilt.grown faithful inv).target
  refine ⟨fun page hle hlt => ?_, fun page hpage => ?_⟩
  · obtain rfl : page = pageOf virt := by omega
    exact (htarget _ _).symm.trans hbefore
  · rw [target, hafter () page hpage, htarget]
    by_cases hhere : page = pageOf virt
    · rw [if_pos ⟨rfl, hhere⟩, if_pos (by omega), hhere, Nat.sub_self, zero_mul, add_zero]
    · rw [if_neg (by simp [hhere]), if_neg (by omega)]

theorem mapped_of_mapBlock2m (h : Tables.mapBlock2m E root virt frame perms m = (.ok (), m')) :
    Mapped E root (pageOf virt / 512 * 512) 512 frame.addr m m' := by
  obtain ⟨-, m1, hbuilt, hstored⟩ := mapBlock2m_ok (k := ()) faithful inv rfl hdom h
  obtain ⟨hbefore, hafter⟩ := hstored.pageTarget_block faithful hdom (pageOf_lt virt)
  have htarget := (hbuilt.grown faithful inv).target
  have hlt := pageOf_lt virt
  refine ⟨fun page hle hlt => ?_, fun page hpage => ?_⟩
  · exact (htarget _ _).symm.trans (hbefore page (by omega) (by omega))
  · rw [target, hafter () page hpage, htarget]
    by_cases hhere : page / 512 = pageOf virt / 512
    · rw [if_pos ⟨rfl, hhere⟩, if_pos (by omega), show page % 512 = page - pageOf virt / 512 * 512 by omega]
    · rw [if_neg (by simp [hhere]), if_neg (by omega)]

end

variable (perms : Permissions) (virt : Nat) (frame : PhysFrame)

theorem mapTraced_keeps (hdom : dom frame) :
    Prog.Keeps (TraceInv E dom root) (Call.mapTraced E root perms virt frame) := by
  intro s inv
  rcases hcall : Tables.map E root virt frame perms s.machine with ⟨u | e | _, m'⟩ <;>
    simp only [Call.mapTraced, traced, hcall]
  · obtain ⟨haligned, -, m1, hbuilt, hstored⟩ := map_ok (k := ()) faithful inv.paging rfl hdom hcall
    have hrecord := inv.record hstored.inv (pageOf_lt virt) (mapped_of_map faithful hdom inv.paging hcall)
    have hvirt : pageOf virt * frameSize = virt % 2 ^ 48 := by
      simp only [pageOf, frameSize] at *
      omega
    rwa [hvirt, one_mul] at hrecord
  · exact inv.grown (map_err_grown (k := ()) faithful inv.paging rfl hcall)
  · exact inv.grown ((map_panic (k := ()) faithful inv.paging rfl hcall).2.grown faithful inv.paging)

theorem blockTraced_keeps (hdom : dom frame) :
    Prog.Keeps (TraceInv E dom root) (Call.blockTraced E root perms virt frame) := by
  intro s inv
  rcases hcall : Tables.mapBlock2m E root virt frame perms s.machine with ⟨u | e | _, m'⟩ <;>
    simp only [Call.blockTraced, traced, hcall]
  · obtain ⟨haligned, m1, hbuilt, hstored⟩ := mapBlock2m_ok (k := ()) faithful inv.paging rfl hdom hcall
    have hlt := pageOf_lt virt
    have hrecord := inv.record hstored.inv (by omega) (mapped_of_mapBlock2m faithful hdom inv.paging hcall)
    have hvirt : pageOf virt / 512 * 512 * frameSize = virt % 2 ^ 48 := by
      simp only [pageOf, blockSize, frameSize, entries] at *
      omega
    rwa [hvirt] at hrecord
  · exact inv.grown (mapBlock2m_err_grown (k := ()) faithful inv.paging rfl hcall)
  · exact inv.grown ((mapBlock2m_panic (k := ()) faithful inv.paging rfl hcall).2.grown faithful inv.paging)

theorem TraceInv.run {s s' : Traced} (inv : TraceInv E dom root s)
    (run : Relation.ReflTransGen (Step E dom root) s s') : TraceInv E dom root s' :=
  run_keeps (mapTraced_keeps faithful) (blockTraced_keeps faithful) inv run

variable {m0 m : Machine} (wf : Wf m0.frames) (covers : ∀ f : PhysFrame, f.index < m0.frames.frameCount → dom f)
  (fresh : newRoot m0 = (.ok root, m))

include wf covers fresh

theorem newRoot_only :
    PagingInv E dom (fun _ : Unit => some root) m ∧
      (∀ p, node (child E) m.mem (fun _ : Unit => some root) () p =
        if p = [] then some root else none) ∧ ∀ page, target E root m page = none := by
  have hopened := newRoot_ok faithful (pagingInv_empty (κ := Unit) wf covers) () fresh
  have hroots : Function.update (fun _ : Unit => (none : Option PhysFrame)) () (some root) =
      fun _ => some root := by
    funext u
    exact Function.update_self ..
  obtain ⟨hinv, -, hnode, htarget⟩ := hopened
  exact ⟨hinv, fun p => (hnode () p).trans (if_pos rfl), fun page => (htarget () page).trans (if_pos rfl)⟩

theorem TraceInv.initial :
    TraceInv E dom root ⟨m, []⟩ := by
  obtain ⟨hinv, -, htarget⟩ := newRoot_only faithful wf covers fresh
  exact ⟨hinv, by simp, .nil, by simp, fun page _ _ => htarget page, by simp⟩

end

/-- Translation is exactly the set of successful mappings: they are disjoint, an address in one
keeps its offset, no other address is mapped, and a failed call changes nothing. -/
structure Exact (E : PageTableEncoder) (root : PhysFrame) (s : Traced) : Prop where
  one : s.log.Pairwise Mapping.Apart
  mapped : ∀ a ∈ s.log, ∀ virt, a.Covers (virt % 2 ^ 48) →
    translate E s.machine.mem root virt = some (a.phys + (virt % 2 ^ 48 - a.virt))
  unmapped : ∀ virt, (∀ a ∈ s.log, ¬ a.Covers (virt % 2 ^ 48)) →
    translate E s.machine.mem root virt = none
  failed : ∀ virt frame perms e m', Tables.map E root virt frame perms s.machine = (.err e, m') ∨
      Tables.mapBlock2m E root virt frame perms s.machine = (.err e, m') →
    ∀ v, translate E m'.mem root v = translate E s.machine.mem root v

private theorem TraceInv.exact {E : PageTableEncoder} {dom : PhysFrame → Prop} {root : PhysFrame}
    {s : Traced} (faithful : Faithful E dom) (inv : TraceInv E dom root s) : Exact E root s where
  one := inv.one
  mapped := by
    intro a ha virt hcovers
    obtain ⟨halign, hsize⟩ := inv.aligned a ha
    have hpage : a.Covers (pageOf virt * frameSize) := by
      simp only [Mapping.Covers, pageOf, frameSize] at *
      omega
    rw [translate_target faithful inv.paging,
      inv.mapped a ha (pageOf virt) (pageOf_lt virt) hpage, Option.map_some]
    congr 1
    simp only [Mapping.Covers, pageOf, frameSize] at *
    omega
  unmapped := by
    intro virt hnone
    rw [translate_target faithful inv.paging, inv.unmapped (pageOf virt) (pageOf_lt virt)]
    · rfl
    · intro a ha hcovers
      obtain ⟨halign, hsize⟩ := inv.aligned a ha
      refine hnone a ha ?_
      simp only [Mapping.Covers, pageOf, frameSize] at *
      omega
  failed := by
    intro virt frame perms e m' hcall v
    have hgrown : Grown E dom (fun _ : Unit => some root) s.machine m' := by
      rcases hcall with hcall | hcall
      · exact map_err_grown (k := ()) faithful inv.paging rfl hcall
      · exact mapBlock2m_err_grown (k := ()) faithful inv.paging rfl hcall
    rw [translate_target faithful hgrown.inv, translate_target faithful inv.paging, target,
      hgrown.target]

/-- Page-table mapping is exact over every run on a fresh address space. -/
theorem translation_exact (E : PageTableEncoder) (dom : PhysFrame → Prop) (faithful : Faithful E dom)
    (m0 m : Machine) (root : PhysFrame) (wf : Wf m0.frames)
    (covers : ∀ f : PhysFrame, f.index < m0.frames.frameCount → dom f)
    (fresh : newRoot m0 = (.ok root, m)) (s : Traced)
    (run : Relation.ReflTransGen (Step E dom root) ⟨m, []⟩ s) : Exact E root s :=
  ((TraceInv.initial faithful wf covers fresh).run faithful run).exact faithful

theorem translation_exact_one_page : ∃ root m s, newRoot blankMachine = (.ok root, m) ∧
      s.log = [⟨0x200000, frameSize, 0x3000⟩] ∧ Exact x86PageTable root s := by
  have hnew : newRoot blankMachine = (.ok (fromIndex 0), (newRoot blankMachine).2) :=
    Prod.ext (by decide +kernel) rfl
  set m := (newRoot blankMachine).2 with hm
  set s := (Call.run x86PageTable (fromIndex 0)
    (.map 0x200000 (fromIndex 3) ⟨true, true, false, true, false⟩) ⟨m, []⟩).2 with hs
  have hstep : Step x86PageTable Addressable (fromIndex 0) ⟨m, []⟩ s :=
    ⟨.map 0x200000 (fromIndex 3) ⟨true, true, false, true, false⟩,
      (by decide : Addressable (fromIndex 3)),
      .inl (Prod.ext (by rw [hm]; decide +kernel) rfl)⟩
  exact ⟨_, m, s, hnew, by rw [hs, hm]; decide +kernel,
    translation_exact x86PageTable Addressable x86_faithful blankMachine m _ blankMachine_wf
      blankMachine_addressable hnew s (.single hstep)⟩

end CibosPlatform.Kernel.Paging.Exactness

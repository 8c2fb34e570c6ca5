/- source: cibos-kernel/src/paging.rs
   digest: Page tables as a separated forest, and the page map it stands for. -/

import CibosPlatform.Core.TableForest
import CibosPlatform.Kernel.Frame.Accounting
import CibosPlatform.Kernel.Paging.Tables
import Mathlib.Tactic.IntervalCases

/-! The tables of all spaces form a forest. A call changes it by two kinds of steps only: a missing table is
linked in, which maps nothing, and a leaf or block entry is stored into an absent slot. -/

namespace CibosPlatform.Kernel.Paging.Space

open List Option Nat
open Core.TableForest Frame.Accounting Frame.Allocator Tables

variable {n : Nat} (virt : Nat)

section

def pageOf (virt : Nat) : Nat := virt % 2 ^ 48 / frameSize

def digit (page level : Nat) : Nat := page / 512 ^ (3 - level) % 512

def path (page n : Nat) : List Nat := (List.range n).map (digit page)

@[simp] theorem path_length (page n : Nat) : (path page n).length = n := by simp [path]

theorem path_succ (page n : Nat) : path page (n + 1) = path page n ++ [digit page n] := by
  simp [path, range_succ]

variable {page page' : Nat}

theorem path_inj : path page n = path page' n ↔ ∀ l < n, digit page l = digit page' l := by
  simp [path, map_inj_left]

theorem index_eq_digit {level : Nat} (h : level < 4) :
    index virt level = digit (pageOf virt) level := by
  have hmask : entries - 1 = 2 ^ 9 - 1 := rfl
  rw [index, hmask, and_two_pow_sub_one_eq_mod, shiftRight_eq_div_pow, digit, pageOf]
  interval_cases level <;> norm_num [frameSize, indexBits, levels] <;> omega

theorem indices_eq (h : n ≤ 4) :
    indices virt n = (range n).map fun l => (l, digit (pageOf virt) l) := by
  refine map_congr_left fun l hl => ?_
  have hl := mem_range.mp hl
  rw [index_eq_digit virt (by omega)]

theorem indices_upper : indices virt (levels - 1) =
    [(0, digit (pageOf virt) 0), (1, digit (pageOf virt) 1), (2, digit (pageOf virt) 2)] :=
  indices_eq virt (by decide)

theorem pageOf_mul (h : page < 2 ^ 36) : pageOf (page * frameSize) = page := by
  simp only [pageOf, frameSize]
  omega

theorem pageOf_lt : pageOf virt < 2 ^ 36 := by
  simp only [pageOf, frameSize]
  omega

theorem page_eq_iff (hp : page < 2 ^ 36) (hp' : page' < 2 ^ 36) :
    page = page' ↔ path page 3 = path page' 3 ∧ digit page 3 = digit page' 3 := by
  constructor
  · rintro rfl
    exact ⟨rfl, rfl⟩
  · rintro ⟨hpath, hlast⟩
    rw [path_inj] at hpath
    have h0 := hpath 0 (by omega)
    have h1 := hpath 1 (by omega)
    have h2 := hpath 2 (by omega)
    simp only [digit] at h0 h1 h2 hlast
    norm_num at h0 h1 h2 hlast
    omega

theorem block_eq_iff (hp : page < 2 ^ 36) (hp' : page' < 2 ^ 36) :
    page / 512 = page' / 512 ↔ path page 2 = path page' 2 ∧ digit page 2 = digit page' 2 := by
  rw [path_inj]
  constructor
  · intro h
    constructor
    · intro l hl
      interval_cases l <;> simp only [digit] <;> norm_num <;> omega
    · simp only [digit]
      norm_num
      omega
  · rintro ⟨hpath, hlast⟩
    have h0 := hpath 0 (by omega)
    have h1 := hpath 1 (by omega)
    simp only [digit] at h0 h1 hlast
    norm_num at h0 h1 hlast
    omega

end

/-- The contract of an entry format on the frames used: entries decode to their frame and are
present, zero is not, and block leaves are told from tables. -/
structure Faithful (E : PageTableEncoder) (dom : PhysFrame → Prop) : Prop where
  zero_absent : E.isPresent 0 = false
  table_present : ∀ f, dom f → E.isPresent (E.encodeTable f) = true
  table_frame : ∀ f, dom f → E.entryFrame (E.encodeTable f) = f
  table_not_block : ∀ f level, dom f → E.isBlockLeaf (E.encodeTable f) level = false
  leaf_present : ∀ f perms, dom f → E.isPresent (E.encodeLeaf f perms) = true
  leaf_frame : ∀ f perms, dom f → E.entryFrame (E.encodeLeaf f perms) = f
  block_present : ∀ f perms level, dom f → E.isPresent (E.encodeBlockLeaf f perms level) = true
  block_frame : ∀ f perms level, dom f → E.entryFrame (E.encodeBlockLeaf f perms level) = f
  block_is_block : ∀ f perms level, dom f →
    E.isBlockLeaf (E.encodeBlockLeaf f perms level) level = true

def child (E : PageTableEncoder) (level : Nat) (entry : Entry) : Option PhysFrame :=
  if level < 3 ∧ E.isPresent entry = true ∧ E.isBlockLeaf entry level = false then
    some (E.entryFrame entry)
  else none

inductive EntryShape (E : PageTableEncoder) (dom : PhysFrame → Prop) : Nat → Entry → Prop
  | absent {level : Nat} {entry : Entry} : E.isPresent entry = false → EntryShape E dom level entry
  | table {level : Nat} {frame : PhysFrame} : level < 3 → dom frame →
      EntryShape E dom level (E.encodeTable frame)
  | block {frame : PhysFrame} {perms : Permissions} : dom frame → frame.addr % blockSize = 0 →
      EntryShape E dom 2 (E.encodeBlockLeaf frame perms 2)
  | leaf {frame : PhysFrame} {perms : Permissions} : dom frame →
      EntryShape E dom 3 (E.encodeLeaf frame perms)

variable {frame : PhysFrame}

section

variable {κ : Type} (E : PageTableEncoder) (dom : PhysFrame → Prop) (roots : κ → Option PhysFrame)

/-- The invariant of the spaces that share the machine: a separated forest of tables whose frames
are all taken, with well-shaped entries. -/
structure PagingInv (m : Machine) : Prop where
  wf : Wf m.frames
  covers : ∀ f : PhysFrame, f.index < m.frames.frameCount → dom f
  separated : Separated (child E) m.mem roots
  held : ∀ k p t, node (child E) m.mem roots k p = some t →
    t.index < m.frames.frameCount ∧ t.index ∉ freeSet m.frames
  shape : ∀ k p i entry, slot (child E) m.mem roots k p i = some entry →
    EntryShape E dom p.length entry

/-- The physical address of a page, from its slot in a leaf table if there is one, else from the
slot a 2 MiB block would have. -/
def readPage (E : PageTableEncoder) (page : Nat) : Option Entry → Option Entry → Option Nat
  | some leaf, _ => if E.isPresent leaf then some (E.entryFrame leaf).addr else none
  | none, some block =>
    if E.isPresent block && E.isBlockLeaf block 2 then
      some ((E.entryFrame block).addr + page % 512 * frameSize)
    else none
  | none, none => none

def pageTarget (mem : PhysFrame → Nat → Entry) (k : κ) (page : Nat) : Option Nat :=
  readPage E page (slot (child E) mem roots k (path page 3) (digit page 3))
    (slot (child E) mem roots k (path page 2) (digit page 2))

variable {E dom roots} {m m' : Machine} {k : κ}

variable {level page l : Nat} {entry : Entry} {t : PhysFrame}

theorem child_of_absent (h : E.isPresent entry = false) : child E level entry = none := by
  rw [child, if_neg (by simp [h])]

theorem child_of_block (h : E.isBlockLeaf entry level = true) : child E level entry = none := by
  rw [child, if_neg (by simp [h])]

theorem child_table (faithful : Faithful E dom) (h : level < 3) (hdom : dom frame) :
    child E level (E.encodeTable frame) = some frame := by
  rw [child, if_pos ⟨h, faithful.table_present frame hdom, faithful.table_not_block frame level hdom⟩,
    faithful.table_frame frame hdom]

theorem EntryShape.child_or_block (shape : EntryShape E dom level entry) (faithful : Faithful E dom)
    (h : level < 3) (present : E.isPresent entry = true) :
    (E.isBlockLeaf entry level = false ∧ child E level entry = some (E.entryFrame entry)) ∨
      (level = 2 ∧ E.isBlockLeaf entry level = true) := by
  cases shape with
  | absent habsent =>
    rw [habsent] at present
    cases present
  | table _ hdom =>
    refine .inl ⟨faithful.table_not_block _ level hdom, ?_⟩
    rw [child_table faithful h hdom, faithful.table_frame _ hdom]
  | block hdom _ => exact .inr ⟨rfl, faithful.block_is_block _ _ 2 hdom⟩
  | leaf _ => omega

theorem node_root (hroot : roots k = some t) : node (child E) m.mem roots k (path page 0) = some t := by
  rw [path, range_zero, map_nil, node_nil, hroot]

theorem node_above (hl : l ≤ n) (h : node (child E) m.mem roots k (path page n) = some t) :
    ∃ t', node (child E) m.mem roots k (path page l) = some t' := by
  induction n generalizing t with
  | zero =>
    obtain rfl : l = 0 := by omega
    exact ⟨t, h⟩
  | succ n ih =>
    by_cases heq : l = n + 1
    · exact ⟨t, heq ▸ h⟩
    · rw [path_succ, node_snoc_eq_some] at h
      obtain ⟨parent, hparent, -⟩ := h
      exact ih (by omega) hparent

theorem node_below (hl : l ≤ n) (h : node (child E) m.mem roots k (path page l) = none) :
    node (child E) m.mem roots k (path page n) = none := by
  by_contra hsome
  obtain ⟨t, ht⟩ := ne_none_iff_exists'.mp hsome
  obtain ⟨t', ht'⟩ := node_above hl ht
  rw [h] at ht'
  cases ht'

theorem node_path_succ (h : node (child E) m.mem roots k (path page l) = some t) :
    node (child E) m.mem roots k (path page (l + 1)) = child E l (m.mem t (digit page l)) := by
  rw [path_succ, node_snoc, slot, h, path_length]
  rfl

section

variable {page : Nat} {t : PhysFrame}

theorem pageTarget_leaf (h : node (child E) m.mem roots k (path page 3) = some t) :
    pageTarget E roots m.mem k page =
      if E.isPresent (m.mem t (digit page 3)) then some (E.entryFrame (m.mem t (digit page 3))).addr
      else none := by
  rw [pageTarget, slot, h]
  rfl

theorem pageTarget_block (hleaf : node (child E) m.mem roots k (path page 3) = none)
    (h : node (child E) m.mem roots k (path page 2) = some t) :
    pageTarget E roots m.mem k page =
      if E.isPresent (m.mem t (digit page 2)) && E.isBlockLeaf (m.mem t (digit page 2)) 2 then
        some ((E.entryFrame (m.mem t (digit page 2))).addr + page % 512 * frameSize)
      else none := by
  rw [pageTarget, slot, hleaf, slot, h]
  rfl

theorem pageTarget_none (h : node (child E) m.mem roots k (path page 2) = none) :
    pageTarget E roots m.mem k page = none := by
  rw [pageTarget, slot, node_below (by omega) h, slot, h]
  rfl

theorem pageTarget_absent (h : node (child E) m.mem roots k (path page 2) = some t)
    (absent : E.isPresent (m.mem t (digit page 2)) = false) :
    pageTarget E roots m.mem k page = none := by
  have hleaf := node_path_succ h
  rw [child_of_absent absent] at hleaf
  rw [pageTarget_block hleaf h]
  simp [absent]

end

private theorem or_offset {base : Nat} (n : Nat) (aligned : base % 2 ^ n = 0) (virt : Nat) :
    base ||| (virt &&& (2 ^ n - 1)) = base + virt % 2 ^ n := by
  obtain ⟨a, rfl⟩ := dvd_of_mod_eq_zero aligned
  rw [and_two_pow_sub_one_eq_mod, two_pow_add_eq_or_of_lt (mod_lt _ (by positivity))]

private theorem block_offset (faithful : Faithful E dom) (shape : EntryShape E dom 2 entry)
    (present : E.isPresent entry = true) (block : E.isBlockLeaf entry 2 = true) (virt : Nat) :
    (E.entryFrame entry).addr ||| (virt &&& (1 <<< (12 + indexBits * (levels - 1 - 2)) - 1)) =
      (E.entryFrame entry).addr + pageOf virt % 512 * frameSize + virt % frameSize := by
  have haligned : (E.entryFrame entry).addr % 2 ^ 21 = 0 := by
    cases shape with
    | absent habsent =>
      rw [habsent] at present
      cases present
    | table _ hdom =>
      rw [faithful.table_not_block _ 2 hdom] at block
      cases block
    | block hdom haligned =>
      rw [faithful.block_frame _ _ 2 hdom]
      exact haligned
  have hspan : 1 <<< (12 + indexBits * (levels - 1 - 2)) = 2 ^ 21 := rfl
  rw [hspan, or_offset 21 haligned]
  simp only [pageOf, frameSize]
  omega

theorem shape_at (inv : PagingInv E dom roots m) (h : node (child E) m.mem roots k (path page l) = some t) :
    EntryShape E dom l (m.mem t (digit page l)) := by
  have hshape := inv.shape k (path page l) (digit page l) _ (slot_eq_some.mpr ⟨t, h, rfl⟩)
  rwa [path_length] at hshape

variable (faithful : Faithful E dom) (inv : PagingInv E dom roots m)

include faithful inv

private theorem translateFrom_step {virt : Nat} (rest : List (Nat × Nat)) (hl : l < 2)
    (h : node (child E) m.mem roots k (path page l) = some t) :
    translateFrom E m.mem virt ((l, digit page l) :: rest) t =
      (node (child E) m.mem roots k (path page (l + 1))).bind (translateFrom E m.mem virt rest) := by
  rw [node_path_succ h, translateFrom]
  by_cases hpresent : E.isPresent (m.mem t (digit page l))
  · rcases (shape_at inv h).child_or_block faithful (by omega) hpresent with ⟨hblock, hchild⟩ | ⟨hlevel, -⟩
    · rw [if_pos hpresent, hblock, if_neg (by simp), hchild]
      rfl
    · omega
  · rw [if_neg hpresent, child_of_absent (by simpa using hpresent)]
    rfl

theorem translate_eq {root : PhysFrame} (hroot : roots k = some root) (virt : Nat) :
    translate E m.mem root virt =
      (pageTarget E roots m.mem k (pageOf virt)).map fun base => base + virt % frameSize := by
  rw [Tables.translate, indices_upper, translateFrom_step faithful inv _ (by omega) (node_root hroot)]
  rcases h1 : node (child E) m.mem roots k (path (pageOf virt) 1) with _ | t1
  · rw [pageTarget_none (node_below (by omega) h1)]
    rfl
  rw [bind_some, translateFrom_step faithful inv _ (by omega) h1]
  rcases h2 : node (child E) m.mem roots k (path (pageOf virt) 2) with _ | t2
  · rw [pageTarget_none h2]
    rfl
  rw [bind_some, translateFrom]
  have hnext := node_path_succ h2
  by_cases hpresent : E.isPresent (m.mem t2 (digit (pageOf virt) 2))
  · rw [if_pos hpresent]
    rcases (shape_at inv h2).child_or_block faithful (by omega) hpresent with
      ⟨hblock, hchild⟩ | ⟨-, hblock⟩
    · rw [hchild] at hnext
      rw [hblock, if_neg (by simp), translateFrom, pageTarget_leaf hnext,
        show index virt (levels - 1) = digit (pageOf virt) 3 from index_eq_digit virt (by decide)]
      split
      · exact congrArg some (or_offset 12 (E.entryFrame _).aligned virt)
      · rfl
    · rw [child_of_block hblock] at hnext
      rw [hblock, if_pos rfl, pageTarget_block hnext h2, hpresent, hblock]
      exact congrArg some (block_offset faithful (shape_at inv h2) hpresent hblock virt)
  · rw [child_of_absent (by simpa using hpresent)] at hnext
    rw [if_neg hpresent, pageTarget_block hnext h2]
    simp [hpresent]

end

variable {c : PhysFrame}

section

variable {κ : Type} [DecidableEq κ] {E : PageTableEncoder} {dom : PhysFrame → Prop}
  {roots : κ → Option PhysFrame} {m m' : Machine} {k : κ} {p : List Nat} {i : Nat} {t : PhysFrame}

def linkTable (E : PageTableEncoder) (m : Machine) (frames : AllocState) (t : PhysFrame) (i : Nat)
    (c : PhysFrame) : Machine :=
  (({ m with frames } : Machine).zero c).write t i (E.encodeTable c)

structure Linked (E : PageTableEncoder) (dom : PhysFrame → Prop) (roots : κ → Option PhysFrame)
    (k : κ) (p : List Nat) (i : Nat) (c : PhysFrame) (m m' : Machine) : Prop where
  inv : PagingInv E dom roots m'
  took : Took m.frames m'.frames {c.index}
  depth : p.length < 3
  made : ∃ t frames, node (child E) m.mem roots k p = some t ∧ E.isPresent (m.mem t i) = false ∧
    allocate m.frames = (.ok c, frames) ∧ m' = linkTable E m frames t i c
  node_eq : ∀ k' q, node (child E) m'.mem roots k' q =
    if k' = k ∧ q = p ++ [i] then some c else node (child E) m.mem roots k' q
  slot_eq : ∀ k' q j, slot (child E) m'.mem roots k' q j = if k' = k ∧ q = p ++ [i] then some 0
    else if k' = k ∧ q = p ∧ j = i then some (E.encodeTable c)
    else slot (child E) m.mem roots k' q j

theorem linked (faithful : Faithful E dom) (inv : PagingInv E dom roots m)
    (reached : node (child E) m.mem roots k p = some t) (depth : p.length < 3)
    (absent : E.isPresent (m.mem t i) = false) {frames : AllocState}
    (call : allocate m.frames = (.ok c, frames)) :
    Linked E dom roots k p i c m (linkTable E m frames t i c) := by
  obtain ⟨hfree, took, -⟩ := allocate_ok inv.wf call
  have hdom : dom c := inv.covers c (mem_freeSet.mp hfree).1
  have hfresh : Fresh (child E) m.mem roots c := by
    intro k' q hnode
    exact (inv.held k' q c hnode).2 hfree
  have hne : ∀ k' q f, node (child E) m.mem roots k' q = some f → f ≠ c := by
    rintro k' q f hnode rfl
    exact hfresh k' q hnode
  have hentry : (linkTable E m frames t i c).mem t i = E.encodeTable c := by
    simp [linkTable, Machine.write]
  have hzero : ∀ j, (linkTable E m frames t i c).mem c j = 0 := by
    intro j
    simp [linkTable, Machine.write, Machine.zero, (hne k p t reached).symm]
  have hothers : ∀ k' q f j, node (child E) m.mem roots k' q = some f → ¬ (f = t ∧ j = i) →
      (linkTable E m frames t i c).mem f j = m.mem f j := by
    intro k' q f j hnode hslot
    simp [linkTable, Machine.write, Machine.zero, hslot, hne k' q f hnode]
  have hchild : child E p.length ((linkTable E m frames t i c).mem t i) = some c := by
    rw [hentry, child_table faithful depth hdom]
  have hblank : child E p.length (m.mem t i) = none := child_of_absent absent
  have hleaf : ∀ c', child E p.length ((linkTable E m frames t i c).mem t i) = some c' →
      ∀ j, child E (p.length + 1) ((linkTable E m frames t i c).mem c' j) = none := by
    intro c' hc' j
    obtain rfl := some.inj (hchild.symm.trans hc')
    rw [hzero]
    exact child_of_absent faithful.zero_absent
  have hnode := node_update inv.separated reached hblank hothers hleaf
  have hslot := slot_update inv.separated reached hblank hothers hleaf
  rw [hchild] at hnode
  rw [hchild, hentry] at hslot
  have hslot' : ∀ k' q j, slot (child E) (linkTable E m frames t i c).mem roots k' q j =
      if k' = k ∧ q = p ++ [i] then some 0
      else if k' = k ∧ q = p ∧ j = i then some (E.encodeTable c)
      else slot (child E) m.mem roots k' q j := by
    intro k' q j
    rw [hslot, map_some, hzero]
  refine ⟨⟨took.wf inv.wf, ?_, ?_, ?_, ?_⟩, took, depth, ⟨t, frames, reached, absent, call, rfl⟩, hnode, hslot'⟩
  · intro f hf
    exact inv.covers f (took.frameCount_eq ▸ hf)
  · refine inv.separated.update reached hblank hothers hleaf ?_
    intro c' hc'
    obtain rfl := some.inj (hchild.symm.trans hc')
    exact hfresh
  · intro k' q f hf
    rw [hnode] at hf
    change f.index < frames.frameCount ∧ f.index ∉ freeSet frames
    rw [took.frameCount_eq, took.freeSet_eq]
    split at hf
    · obtain rfl := some.inj hf
      exact ⟨(mem_freeSet.mp hfree).1, by simp⟩
    · obtain ⟨hlt, hheld⟩ := inv.held k' q f hf
      exact ⟨hlt, fun h => hheld (Finset.mem_sdiff.mp h).1⟩
  · intro k' q j entry hentry'
    rw [hslot'] at hentry'
    split_ifs at hentry' with hnew hhere
    · obtain rfl := some.inj hentry'
      exact .absent faithful.zero_absent
    · obtain rfl := some.inj hentry'
      rw [hhere.2.1]
      exact .table depth hdom
    · exact inv.shape k' q j entry hentry'

theorem Linked.parent (h : Linked E dom roots k p i c m m') :
    ∃ t, node (child E) m.mem roots k p = some t ∧ E.isPresent (m.mem t i) = false := by
  obtain ⟨t, -, reached, absent, -⟩ := h.made
  exact ⟨t, reached, absent⟩

theorem Linked.pageTarget_eq (faithful : Faithful E dom)
    (h : Linked E dom roots k p i c m m') (k' : κ) (page : Nat) :
    pageTarget E roots m'.mem k' page = pageTarget E roots m.mem k' page := by
  obtain ⟨t, reached, absent⟩ := h.parent
  have hdepth := h.depth
  have hnone : node (child E) m.mem roots k (p ++ [i]) = none := by
    rw [node_snoc, slot, reached]
    exact child_of_absent absent
  by_cases hnew : k' = k ∧ path page 3 = p ++ [i]
  · obtain ⟨rfl, hpath⟩ := hnew
    have hpath' := hpath
    rw [path_succ] at hpath
    obtain ⟨rfl, hi⟩ := append_inj' hpath rfl
    obtain rfl : digit page 2 = i := by simpa using hi
    rw [pageTarget_absent reached absent, pageTarget, h.slot_eq, if_pos ⟨rfl, hpath'⟩]
    simp only [readPage, faithful.zero_absent, Bool.false_eq_true, if_false]
  · have hleaf : ¬ (k' = k ∧ path page 3 = p ∧ digit page 3 = i) := by
      rintro ⟨-, hpath, -⟩
      rw [← hpath, path_length] at hdepth
      omega
    have hblock : ¬ (k' = k ∧ path page 2 = p ∧ digit page 2 = i) := by
      rintro ⟨hk, rfl, rfl⟩
      exact hnew ⟨hk, path_succ page 2⟩
    rw [pageTarget, pageTarget, h.slot_eq, if_neg hnew, if_neg hleaf, h.slot_eq, if_neg hblock]
    by_cases habove : k' = k ∧ path page 2 = p ++ [i]
    · obtain ⟨rfl, hpath⟩ := habove
      have hgone := hpath ▸ hnone
      rw [if_pos ⟨rfl, hpath⟩, slot, node_below (by omega) hgone, slot, hgone]
      simp only [map_none, readPage, faithful.zero_absent, Bool.false_and, Bool.false_eq_true,
        if_false]
    · rw [if_neg habove]

structure Stored (E : PageTableEncoder) (dom : PhysFrame → Prop) (roots : κ → Option PhysFrame)
    (k : κ) (p : List Nat) (i : Nat) (entry : Entry) (m m' : Machine) : Prop where
  inv : PagingInv E dom roots m'
  frames_eq : m'.frames = m.frames
  reached : ∃ t, node (child E) m.mem roots k p = some t ∧ E.isPresent (m.mem t i) = false
  made : ∃ t, node (child E) m.mem roots k p = some t ∧ m' = m.write t i entry
  node_eq : ∀ k' q, node (child E) m'.mem roots k' q = node (child E) m.mem roots k' q
  slot_eq : ∀ k' q j, slot (child E) m'.mem roots k' q j =
    if k' = k ∧ q = p ∧ j = i then some entry else slot (child E) m.mem roots k' q j

theorem stored (inv : PagingInv E dom roots m)
    (reached : node (child E) m.mem roots k p = some t) (absent : E.isPresent (m.mem t i) = false)
    {entry : Entry} (shape : EntryShape E dom p.length entry) (leads : child E p.length entry = none) :
    Stored E dom roots k p i entry m (m.write t i entry) := by
  have hentry : (m.write t i entry).mem t i = entry := by simp [Machine.write]
  have hothers : ∀ k' q f j, node (child E) m.mem roots k' q = some f → ¬ (f = t ∧ j = i) →
      (m.write t i entry).mem f j = m.mem f j := by
    intro k' q f j _ hslot
    simp [Machine.write, hslot]
  have hblank : child E p.length (m.mem t i) = none := child_of_absent absent
  have hleaf : ∀ c', child E p.length ((m.write t i entry).mem t i) = some c' →
      ∀ j, child E (p.length + 1) ((m.write t i entry).mem c' j) = none := by
    intro c' hc'
    rw [hentry, leads] at hc'
    cases hc'
  have hnone : node (child E) m.mem roots k (p ++ [i]) = none := by
    rw [node_snoc, slot, reached]
    exact hblank
  have hnode : ∀ k' q, node (child E) (m.write t i entry).mem roots k' q =
      node (child E) m.mem roots k' q := by
    intro k' q
    rw [node_update inv.separated reached hblank hothers hleaf, hentry, leads]
    split
    · rename_i hnew
      rw [hnew.1, hnew.2, hnone]
    · rfl
  have hslot : ∀ k' q j, slot (child E) (m.write t i entry).mem roots k' q j =
      if k' = k ∧ q = p ∧ j = i then some entry else slot (child E) m.mem roots k' q j := by
    intro k' q j
    rw [slot_update inv.separated reached hblank hothers hleaf, hentry, leads]
    split
    · rename_i hnew
      rw [if_neg (by simp [hnew.2]), slot, hnew.1, hnew.2, hnone]
      rfl
    · rfl
  refine ⟨⟨inv.wf, inv.covers, ?_, ?_, ?_⟩, rfl, ⟨t, reached, absent⟩, ⟨t, reached, rfl⟩, hnode, hslot⟩
  · refine inv.separated.update reached hblank hothers hleaf ?_
    intro c' hc'
    rw [hentry, leads] at hc'
    cases hc'
  · intro k' q f hf
    rw [hnode] at hf
    exact inv.held k' q f hf
  · intro k' q j entry' hentry'
    rw [hslot] at hentry'
    split_ifs at hentry' with hhere
    · obtain rfl := some.inj hentry'
      rwa [hhere.2.1]
    · exact inv.shape k' q j entry' hentry'

theorem Stored.pageTarget_leaf {page : Nat} {perms : Permissions}
    (faithful : Faithful E dom) (hdom : dom frame)
    (h : Stored E dom roots k (path page 3) (digit page 3) (E.encodeLeaf frame perms) m m')
    (hpage : page < 2 ^ 36) :
    pageTarget E roots m.mem k page = none ∧
      ∀ k' page', page' < 2 ^ 36 → pageTarget E roots m'.mem k' page' =
        if k' = k ∧ page' = page then some frame.addr else pageTarget E roots m.mem k' page' := by
  obtain ⟨t, reached, absent⟩ := h.reached
  refine ⟨by rw [Space.pageTarget_leaf reached, absent, if_neg (by simp)], ?_⟩
  intro k' page' hpage'
  have hblock : ¬ (k' = k ∧ path page' 2 = path page 3 ∧ digit page' 2 = digit page 3) := by
    rintro ⟨-, hpath, -⟩
    have hlength := congrArg length hpath
    simp at hlength
  rw [pageTarget, h.slot_eq, h.slot_eq, if_neg hblock]
  by_cases hhere : k' = k ∧ page' = page
  · obtain ⟨rfl, rfl⟩ := hhere
    rw [if_pos ⟨rfl, rfl, rfl⟩, if_pos ⟨rfl, rfl⟩, readPage, faithful.leaf_present frame perms hdom,
      if_pos rfl, faithful.leaf_frame frame perms hdom]
  · rw [if_neg hhere, if_neg, pageTarget]
    rintro ⟨hk, hpath, hlast⟩
    exact hhere ⟨hk, (page_eq_iff hpage' hpage).mpr ⟨hpath, hlast⟩⟩

theorem Stored.pageTarget_block {page : Nat} {perms : Permissions}
    (faithful : Faithful E dom) (hdom : dom frame)
    (h : Stored E dom roots k (path page 2) (digit page 2) (E.encodeBlockLeaf frame perms 2) m m')
    (hpage : page < 2 ^ 36) :
    (∀ page', page' < 2 ^ 36 → page' / 512 = page / 512 → pageTarget E roots m.mem k page' = none) ∧
      ∀ k' page', page' < 2 ^ 36 → pageTarget E roots m'.mem k' page' =
        if k' = k ∧ page' / 512 = page / 512 then some (frame.addr + page' % 512 * frameSize)
        else pageTarget E roots m.mem k' page' := by
  obtain ⟨t, reached, absent⟩ := h.reached
  constructor
  · intro page' hpage' hsame
    obtain ⟨hpath, hlast⟩ := (block_eq_iff hpage' hpage).mp hsame
    exact pageTarget_absent (hpath ▸ reached) (hlast ▸ absent)
  · intro k' page' hpage'
    have hleaf : ¬ (k' = k ∧ path page' 3 = path page 2 ∧ digit page' 3 = digit page 2) := by
      rintro ⟨-, hpath, -⟩
      have hlength := congrArg length hpath
      simp at hlength
    rw [pageTarget, h.slot_eq, h.slot_eq, if_neg hleaf]
    by_cases hhere : k' = k ∧ page' / 512 = page / 512
    · obtain ⟨rfl, hsame⟩ := hhere
      obtain ⟨hpath, hlast⟩ := (block_eq_iff hpage' hpage).mp hsame
      have hgone : node (child E) m.mem roots k' (path page' 3) = none := by
        rw [node_path_succ (hpath ▸ reached), hlast]
        exact child_of_absent absent
      rw [if_pos ⟨rfl, hpath, hlast⟩, if_pos ⟨rfl, hsame⟩, slot, hgone, map_none, readPage,
        faithful.block_present frame perms 2 hdom, faithful.block_is_block frame perms 2 hdom,
        faithful.block_frame frame perms 2 hdom]
      rfl
    · rw [if_neg hhere, if_neg, pageTarget]
      rintro ⟨hk, hpath, hlast⟩
      exact hhere ⟨hk, (block_eq_iff hpage' hpage).mpr ⟨hpath, hlast⟩⟩

end

end CibosPlatform.Kernel.Paging.Space

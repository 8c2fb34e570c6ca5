/- source: cibos-kernel/src/paging.rs
   digest: map_range with 2 MiB blocks maps what page-by-page mapping maps. -/

import CibosPlatform.Kernel.Paging.Exactness

namespace CibosPlatform.Kernel.Paging.Ranges

open Core MachineWord Program TableForest Frame.Accounting Frame.Allocator
open Exactness Space Tables Walk PhysFrame
open X86 List Option Finset Prog

def mapEach (E : PageTableEncoder) (root : PhysFrame) (virt phys count : Nat) (perms : Permissions) :
    OnMachine Unit :=
  forEach (upTo 0 count) fun i =>
    map E root (virt + i * frameSize) (containing (phys + i * frameSize)) perms

section

variable {E : PageTableEncoder} {dom : PhysFrame → Prop} {root : PhysFrame} {m m' : Machine}
  {page n : Nat}

abbrev only (root : PhysFrame) : Unit → Option PhysFrame := fun _ => some root

def Populated (E : PageTableEncoder) (root : PhysFrame) (m : Machine) : Prop :=
  ∀ page < 2 ^ 36, node (child E) m.mem (only root) () (path page 3) ≠ none →
    ∃ page' < 2 ^ 36, page' / 512 = page / 512 ∧ target E root m page' ≠ none

theorem path_three_eq_iff {page' : Nat} (hp : page < 2 ^ 36) (hp' : page' < 2 ^ 36) :
    path page 3 = path page' 3 ↔ page / 512 = page' / 512 := by
  rw [block_eq_iff hp hp', path_succ page 2, path_succ page' 2]
  constructor
  · intro h
    obtain ⟨hpath, hlast⟩ := append_inj' h rfl
    exact ⟨hpath, singleton_inj.mp hlast⟩
  · rintro ⟨hpath, hlast⟩
    rw [hpath, hlast]

theorem built_leaf_table (h : Built E dom (only root) () page n m m') {page' : Nat}
    (hnode : node (child E) m'.mem (only root) () (path page' 3) ≠ none) :
    node (child E) m.mem (only root) () (path page' 3) ≠ none ∨
      (2 < n ∧ path page' 3 = path page 3) := by
  obtain ⟨t, ht⟩ := ne_none_iff_exists'.mp hnode
  rcases h.node_new ht with hold | ⟨-, l, hl, hpath⟩
  · rw [hold]
    exact .inl (some_ne_none t)
  · have hlength := congrArg length hpath
    rw [path_length, path_length] at hlength
    obtain rfl : l = 2 := by omega
    exact .inr ⟨hl, hpath⟩

theorem Populated.of_step (pop : Populated E root m)
    (keeps : ∀ page < 2 ^ 36, target E root m page ≠ none → target E root m' page ≠ none)
    (new : ∀ page' < 2 ^ 36, node (child E) m'.mem (only root) () (path page' 3) ≠ none →
      node (child E) m.mem (only root) () (path page' 3) ≠ none ∨
        ∃ page < 2 ^ 36, page / 512 = page' / 512 ∧ target E root m' page ≠ none) :
    Populated E root m' := by
  intro page' hpage' hnode
  rcases new page' hpage' hnode with hold | hnew
  · obtain ⟨page, hpage, hblock, hmapped⟩ := pop page' hpage' hold
    exact ⟨page, hpage, hblock, keeps page hpage hmapped⟩
  · exact hnew

theorem Populated.built_three {m1 : Machine} (pop : Populated E root m) (h : Built E dom (only root) () page 3 m m1)
    (hpage : page < 2 ^ 36)
    (nodes : ∀ q, node (child E) m'.mem (only root) () q = node (child E) m1.mem (only root) () q)
    (keeps : ∀ page' < 2 ^ 36, target E root m page' ≠ none → target E root m' page' ≠ none)
    (mapped : target E root m' page ≠ none) : Populated E root m' := by
  refine pop.of_step keeps ?_
  intro page' hpage' hnode
  rw [nodes] at hnode
  rcases built_leaf_table h hnode with hold | ⟨-, hpath⟩
  · exact .inl hold
  · exact .inr ⟨page, hpage, ((path_three_eq_iff hpage' hpage).mp hpath).symm, mapped⟩

variable (faithful : Faithful E dom) (inv : PagingInv E dom (only root) m) (pop : Populated E root m)

include faithful inv pop

theorem Populated.built_two (h : Built E dom (only root) () page 2 m m') : Populated E root m' := by
  refine pop.of_step ?_ ?_
  · intro page' _ hmapped
    rwa [target, (h.grown faithful inv).target]
  · intro page' _ hnode
    rcases built_leaf_table h hnode with hold | ⟨hlt, -⟩
    · exact .inl hold
    · exact absurd hlt (lt_irrefl 2)

theorem Populated.mapped_below {t : PhysFrame} (hpage : page < 2 ^ 36)
    (reached : node (child E) m.mem (only root) () (path page 2) = some t)
    (present : E.isPresent (m.mem t (digit page 2)) = true) :
    ∃ page' < 2 ^ 36, page' / 512 = page / 512 ∧ target E root m page' ≠ none := by
  have hnext := node_path_succ reached
  rcases (shape_at inv reached).child_or_block faithful (by omega) present with
    ⟨-, hchild⟩ | ⟨-, hblock⟩
  · apply pop page hpage
    rw [hnext, hchild]
    simp
  · refine ⟨page, hpage, rfl, ?_⟩
    rw [target, pageTarget_block (hnext.trans (child_of_block hblock)) reached, present, hblock]
    simp

end

variable {page : Nat}

section

variable {E : PageTableEncoder} {dom : PhysFrame → Prop} {root frame : PhysFrame} {m m' : Machine}
  {virt : Nat} {perms : Permissions}

structure RangeInv (E : PageTableEncoder) (dom : PhysFrame → Prop) (root : PhysFrame) (m : Machine) :
    Prop where
  paging : PagingInv E dom (only root) m
  populated : Populated E root m

variable (faithful : Faithful E dom)

include faithful

private theorem RangeInv.built_two (inv : RangeInv E dom root m)
    (h : Built E dom (only root) () page 2 m m') :
    RangeInv E dom root m' :=
  ⟨(h.grown faithful inv.paging).inv, inv.populated.built_two faithful inv.paging h⟩

theorem map_keeps (hdom : dom frame) :
    Prog.Keeps (RangeInv E dom root) (map E root virt frame perms) := by
  intro m inv
  rcases hcall : map E root virt frame perms m with ⟨u | e | _, m'⟩
  · obtain ⟨-, -, m1, hbuilt, hstored⟩ := map_ok (k := ()) faithful inv.paging rfl hdom hcall
    have hmapped := mapped_of_map faithful hdom inv.paging hcall
    refine ⟨hstored.inv, inv.populated.built_three hbuilt (pageOf_lt virt) (hstored.node_eq ())
      (fun _ => hmapped.keeps) ?_⟩
    rw [hmapped.after _ (pageOf_lt virt), if_pos (by omega)]
    simp
  · rcases map_err (k := ()) faithful inv.paging rfl hcall with
      ⟨-, rfl, -⟩ | ⟨-, hmapped, -, hbuilt | ⟨hbuilt, -⟩⟩ | ⟨-, -, -, hbuilt⟩
    · exact inv
    · exact inv.built_two faithful hbuilt
    · have hgrown := hbuilt.grown faithful inv.paging
      refine ⟨hgrown.inv, inv.populated.built_three hbuilt (pageOf_lt virt) (fun _ => rfl) ?_ ?_⟩
      · intro page _ hmapped
        rwa [target, hgrown.target]
      · rwa [target, hgrown.target]
    · exact inv.built_two faithful hbuilt
  · exact inv.built_two faithful (map_panic (k := ()) faithful inv.paging rfl hcall).2

theorem mapBlock2m_keeps (hdom : dom frame) :
    Prog.Keeps (RangeInv E dom root) (mapBlock2m E root virt frame perms) := by
  intro m inv
  rcases hcall : mapBlock2m E root virt frame perms m with ⟨u | e | _, m'⟩
  · obtain ⟨-, m1, hbuilt, hstored⟩ := mapBlock2m_ok (k := ()) faithful inv.paging rfl hdom hcall
    refine ⟨hstored.inv, inv.populated.of_step
      (fun _ => (mapped_of_mapBlock2m faithful hdom inv.paging hcall).keeps) fun page _ hnode => ?_⟩
    rw [hstored.node_eq] at hnode
    rcases built_leaf_table hbuilt hnode with hold | ⟨hlt, -⟩
    · exact .inl hold
    · exact absurd hlt (lt_irrefl 2)
  · rcases mapBlock2m_err (k := ()) faithful inv.paging rfl hcall with
      ⟨-, rfl⟩ | ⟨hbuilt, -⟩ | ⟨hbuilt, -⟩
    · exact inv
    · exact inv.built_two faithful hbuilt
    · exact inv.built_two faithful hbuilt
  · exact inv.built_two faithful (mapBlock2m_panic (k := ()) faithful inv.paging rfl hcall).2

theorem RangeInv.run {s s' : Traced} (inv : RangeInv E dom root s.machine)
    (run : Relation.ReflTransGen (Step E dom root) s s') : RangeInv E dom root s'.machine := by
  refine run_keeps (P := fun s => RangeInv E dom root s.machine) (fun perms v f hf s h => ?_)
    (fun perms v f hf s h => ?_) inv run
  · exact map_keeps faithful hf s.machine h
  · exact mapBlock2m_keeps faithful hf s.machine h

theorem RangeInv.initial {m0 : Machine} (wf : Wf m0.frames)
    (covers : ∀ f : PhysFrame, f.index < m0.frames.frameCount → dom f) (fresh : newRoot m0 = (.ok root, m)) :
    RangeInv E dom root m := by
  obtain ⟨hinv, hnode, -⟩ := newRoot_only faithful wf covers fresh
  refine ⟨hinv, ?_⟩
  intro page _ hleaf
  have hdeep : path page 3 ≠ [] := by simp [path]
  exact absurd ((hnode _).trans (if_neg hdeep)) hleaf

end

variable {base first : Nat} {o : Outcome KernelError Unit}

section

variable {E : PageTableEncoder} {dom : PhysFrame → Prop} {root frame : PhysFrame} {m m' : Machine}

/-- Mapping the `n` pages from `first` to frames from `base`: success maps exactly them, and none
was mapped; failure is a mapped page or fewer than `3 * n` free frames. -/
def Filled (E : PageTableEncoder) (root : PhysFrame) (first base n : Nat) (m : Machine) :
    Outcome KernelError Unit → Machine → Prop
  | .ok _, m' =>
    (∀ page, first ≤ page → page < first + n → target E root m page = none) ∧
    (∀ page < 2 ^ 36, target E root m' page =
      if first ≤ page ∧ page < first + n then some (base + (page - first) * frameSize)
      else target E root m page) ∧
    (freeSet m.frames).card ≤ (freeSet m'.frames).card + 3 * n
  | .err e, _ =>
    (e = .limitExceeded "physical frames" ∧ (freeSet m.frames).card < 3 * n) ∨
    ((∃ reason, e = .invalidState reason) ∧
      ∃ page, first ≤ page ∧ page < first + n ∧ target E root m page ≠ none)
  | .panic, _ => (freeSet m.frames).card < 3 * n

private theorem missing_le (E : PageTableEncoder) (root : PhysFrame) (m : Machine) (page : Nat) :
    missing E (only root) m.mem () page ≤ 3 :=
  (countP_le_length).trans (by simp)

theorem filled_none (first base : Nat) : Filled E root first base 0 m (.ok ()) m := by
  refine ⟨by omega, ?_, by omega⟩
  intro page _
  rw [if_neg (by omega)]

theorem Filled.append {a b : Nat} {m1 : Machine}
    (fits : first + a + b ≤ 2 ^ 36) (head : Filled E root first base a m (.ok ()) m1)
    (tail : Filled E root (first + a) (base + a * frameSize) b m1 o m') :
    Filled E root first base (a + b) m o m' := by
  obtain ⟨hfree, hafter, hsupply⟩ := head
  have hrest : ∀ page, first + a ≤ page → page < 2 ^ 36 →
      target E root m1 page = target E root m page := by
    intro page hle hlt
    rw [hafter page hlt, if_neg (by omega)]
  cases o with
  | ok u =>
    obtain ⟨hfree', hafter', hsupply'⟩ := tail
    refine ⟨?_, ?_, by omega⟩
    · intro page hle hlt
      by_cases hhead : page < first + a
      · exact hfree page hle hhead
      · rw [← hrest page (by omega) (by omega)]
        exact hfree' page (by omega) (by omega)
    · intro page hpage
      rw [hafter' page hpage, hafter page hpage]
      by_cases htail : first + a ≤ page ∧ page < first + a + b
      · rw [if_pos htail, if_pos (by omega)]
        congr 1
        simp only [frameSize]
        omega
      · rw [if_neg htail]
        by_cases hhead : first ≤ page ∧ page < first + a
        · rw [if_pos hhead, if_pos (by omega)]
        · rw [if_neg hhead, if_neg (by omega)]
  | err e =>
    rcases tail with ⟨he, hshort⟩ | ⟨he, page, hle, hlt, hmapped⟩
    · exact .inl ⟨he, by omega⟩
    · rw [hrest page hle (by omega)] at hmapped
      exact .inr ⟨he, page, by omega, by omega, hmapped⟩
  | panic =>
    change _ < _ at tail ⊢
    omega

section

variable (perms : Permissions) (faithful : Faithful E dom) (inv : RangeInv E dom root m) (hdom : dom frame)
  (hpage : page < 2 ^ 36)

include faithful inv hdom hpage

theorem map_filled :
    Filled E root page frame.addr 1 m (map E root (page * frameSize) frame perms m).1
      (map E root (page * frameSize) frame perms m).2 := by
  have hof := pageOf_mul hpage
  rcases hcall : map E root (page * frameSize) frame perms m with ⟨u | e | _, m'⟩
  · obtain ⟨-, hfree, m1, hbuilt, hstored⟩ := map_ok (k := ()) faithful inv.paging rfl hdom hcall
    have hmapped := mapped_of_map faithful hdom inv.paging hcall
    have hcard := hbuilt.card_free
    have hmissing := missing_le E root m page
    rw [hof] at hmapped hcard
    refine ⟨hmapped.before, hmapped.after, ?_⟩
    rw [hstored.frames_eq]
    omega
  · rcases map_err (k := ()) faithful inv.paging rfl hcall with
      ⟨hunaligned, -⟩ | ⟨-, hmapped, he, -⟩ | ⟨-, he, hshort, -⟩
    · exact absurd (Nat.mul_mod_left page frameSize) hunaligned
    · rw [hof] at hmapped
      exact .inr ⟨he, page, le_rfl, by omega, hmapped⟩
    · exact .inl ⟨he, hshort.trans_le (missing_le ..)⟩
  · exact (map_panic (k := ()) faithful inv.paging rfl hcall).1.trans_le (missing_le ..)

theorem mapBlock2m_filled (aligned : frame.addr % blockSize = 0) (first : page % 512 = 0) :
    Filled E root page frame.addr 512 m (mapBlock2m E root (page * frameSize) frame perms m).1
      (mapBlock2m E root (page * frameSize) frame perms m).2 := by
  have hof := pageOf_mul hpage
  have hmissing := missing_le E root m page
  rcases hcall : mapBlock2m E root (page * frameSize) frame perms m with ⟨u | e | _, m'⟩
  · obtain ⟨-, m1, hbuilt, hstored⟩ := mapBlock2m_ok (k := ()) faithful inv.paging rfl hdom hcall
    have hmapped := mapped_of_mapBlock2m faithful hdom inv.paging hcall
    have hcard := hbuilt.card_free
    rw [hof] at hmapped hcard
    rw [show page / 512 * 512 = page by omega] at hmapped
    refine ⟨hmapped.before, hmapped.after, ?_⟩
    rw [hstored.frames_eq]
    omega
  · rcases mapBlock2m_err (k := ()) faithful inv.paging rfl hcall with
      ⟨hunaligned, -⟩ | ⟨hbuilt, he, t, hreached, hpresent⟩ | ⟨hbuilt, he, hempty⟩
    · have hvirt : page * frameSize % blockSize = 0 := by
        simp only [blockSize, frameSize, entries]
        omega
      rcases hunaligned with hunaligned | hunaligned
      · exact absurd hvirt hunaligned
      · exact absurd aligned hunaligned
    · have hafter := inv.built_two faithful hbuilt
      rw [hof] at hreached hpresent
      obtain ⟨page', hlt, hblock, hmapped⟩ :=
        hafter.populated.mapped_below faithful hafter.paging hpage hreached hpresent
      rw [target, (hbuilt.grown faithful inv.paging).target] at hmapped
      exact .inr ⟨⟨_, he⟩, page', by omega, by omega, hmapped⟩
    · have hcard := hbuilt.card_free
      rw [hof, hempty, card_empty] at hcard
      exact .inl ⟨he, by omega⟩
  · obtain ⟨hempty, hbuilt⟩ := mapBlock2m_panic (k := ()) faithful inv.paging rfl hcall
    have hcard := hbuilt.card_free
    rw [hof, hempty, card_empty] at hcard
    change _ < _
    omega

end

theorem Filled.ok_iff {n : Nat} (h : Filled E root first base n m o m')
    (supply : 3 * n ≤ (freeSet m.frames).card) :
    o = .ok () ↔ ∀ page, first ≤ page → page < first + n → target E root m page = none := by
  cases o with
  | ok u => exact ⟨fun _ => h.1, fun _ => rfl⟩
  | err e =>
    rcases h with ⟨-, hshort⟩ | ⟨-, page, hle, hlt, hmapped⟩
    · exact absurd hshort (not_lt.mpr supply)
    · refine ⟨fun hok => ?_, fun hnone => absurd (hnone page hle hlt) hmapped⟩
      cases hok
  | panic => exact absurd h (not_lt.mpr supply)

end

section

variable {E : PageTableEncoder} {dom : PhysFrame → Prop} {root : PhysFrame}
  {virt phys count : Nat}

private theorem filled_bind {a b : Nat} {call : OnMachine Unit}
    {rest : Unit → OnMachine Unit} {m : Machine} (fits : first + a + b ≤ 2 ^ 36)
    (inv : RangeInv E dom root m) (keeps : Prog.Keeps (RangeInv E dom root) call)
    (head : Filled E root first base a m (call m).1 (call m).2)
    (tail : ∀ m1, RangeInv E dom root m1 →
      Filled E root (first + a) (base + a * frameSize) b m1 (rest () m1).1 (rest () m1).2) :
    Filled E root first base (a + b) m ((call >>= rest) m).1 ((call >>= rest) m).2 := by
  have hinv := keeps m inv
  rw [bind_run]
  rcases hcall : call m with ⟨u | e | _, m1⟩ <;> rw [hcall] at head hinv
  · exact head.append fits (tail m1 hinv)
  · rcases head with ⟨he, hshort⟩ | ⟨he, page, hle, hlt, hmapped⟩
    · exact .inl ⟨he, by omega⟩
    · exact .inr ⟨he, page, hle, by omega, hmapped⟩
  · change _ < _ at head ⊢
    omega

/-- A page-aligned range below 2^48 whose arithmetic does not overflow, onto frames the entry format
is faithful on. -/
structure Admissible (dom : PhysFrame → Prop) (virt phys count : Nat) : Prop where
  virt_aligned : virt % frameSize = 0
  phys_aligned : phys % frameSize = 0
  below : virt + count * frameSize ≤ 2 ^ 48
  fits : phys + count * frameSize ≤ wordBound
  faithful_on : ∀ i < count, dom (containing (phys + i * frameSize))

namespace Admissible

variable (args : Admissible dom virt phys count)
include args

theorem range_le : virt / frameSize + count ≤ 2 ^ 36 := by
  have hbelow := args.below
  simp only [frameSize] at *
  omega

theorem virt_eq (i : Nat) : virt + i * frameSize = (virt / frameSize + i) * frameSize := by
  have haligned := args.virt_aligned
  simp only [frameSize] at *
  omega

variable {i : Nat} (hi : i < count)
include hi

theorem phys_addr : (containing (phys + i * frameSize)).addr = phys + i * frameSize := by
  have haligned := args.phys_aligned
  have hfits := args.fits
  simp only [containing, frameSize, wordBound] at *
  omega

variable (profile : BuildProfile)

theorem virt_word : pageAddr profile virt i = some (virt + i * frameSize) := by
  have hbelow := args.below
  have hbound : (2 : Nat) ^ 48 < wordBound := by decide
  have hmul : i * frameSize < count * frameSize := Nat.mul_lt_mul_of_pos_right hi (by decide)
  rw [pageAddr, mulWord_of_lt profile (by omega), bind_some, addWord_of_lt profile (by omega)]

theorem phys_word : pageAddr profile phys i = some (phys + i * frameSize) := by
  have hfits := args.fits
  have hmul : i * frameSize < count * frameSize := Nat.mul_lt_mul_of_pos_right hi (by decide)
  rw [pageAddr, mulWord_of_lt profile (by omega), bind_some, addWord_of_lt profile (by omega)]

theorem page_lt : virt / frameSize + i < 2 ^ 36 := by
  have hbelow := args.below
  simp only [frameSize] at *
  omega

end Admissible

section

variable (perms : Permissions) (faithful : Faithful E dom) (args : Admissible dom virt phys count)

include faithful args

theorem mapEach_filled (n : Nat) : ∀ i m, i + n = count → RangeInv E dom root m →
      Filled E root (virt / frameSize + i) (phys + i * frameSize) n m
        (forEach (upTo i count) (fun i => map E root (virt + i * frameSize)
          (containing (phys + i * frameSize)) perms) m).1
        (forEach (upTo i count) (fun i => map E root (virt + i * frameSize)
          (containing (phys + i * frameSize)) perms) m).2 := by
  induction n with
  | zero =>
    intro i m hn _
    rw [upTo_nil (by omega)]
    exact filled_none _ _
  | succ n ih =>
    intro i m hn inv
    have hi : i < count := by omega
    have hrange := args.range_le
    have hdom := args.faithful_on i hi
    have hhead := map_filled perms faithful inv hdom (args.page_lt hi)
    rw [args.phys_addr hi, ← args.virt_eq i] at hhead
    rw [upTo_cons hi, add_comm n 1]
    refine filled_bind (by omega) inv (map_keeps faithful hdom) hhead fun m1 inv1 => ?_
    have htail := ih (i + 1) m1 (by omega) inv1
    rwa [← add_assoc, add_mul, ← add_assoc] at htail

variable (profile : BuildProfile)

theorem rangeLoop_filled (fuel : Nat) : ∀ i n m, i + n = count → n ≤ fuel → RangeInv E dom root m →
      Filled E root (virt / frameSize + i) (phys + i * frameSize) n m
        (rangeLoop profile (fun v f => map E root v f perms) (fun v f => mapBlock2m E root v f perms)
          virt phys count fuel i m).1
        (rangeLoop profile (fun v f => map E root v f perms) (fun v f => mapBlock2m E root v f perms)
          virt phys count fuel i m).2 := by
  induction fuel with
  | zero =>
    intro i n m hn hfuel _
    obtain rfl : n = 0 := by omega
    rw [rangeLoop, if_neg (by omega)]
    exact filled_none _ _
  | succ fuel ih =>
    intro i n m hn hfuel inv
    rw [rangeLoop]
    by_cases hi : i < count
    · have hrange := args.range_le
      have hdom := args.faithful_on i hi
      simp only [if_pos hi, args.virt_word hi, args.phys_word hi, orPanic_some,
        bind_ok (pure_run _ _)]
      split
      · rename_i hblock
        obtain ⟨hvirt, hphys, hleft⟩ := hblock
        change 512 ≤ count - i at hleft
        have hfirst : (virt / frameSize + i) % 512 = 0 := by
          simp only [blockSize, frameSize, entries] at hvirt ⊢
          omega
        have hhead := mapBlock2m_filled perms faithful inv hdom (args.page_lt hi)
          (by rwa [args.phys_addr hi]) hfirst
        rw [args.phys_addr hi, ← args.virt_eq i] at hhead
        obtain ⟨n, rfl⟩ : ∃ n', n = 512 + n' := ⟨n - 512, by omega⟩
        refine filled_bind (by omega) inv (mapBlock2m_keeps faithful hdom) hhead fun m1 inv1 => ?_
        have htail := ih (i + 512) n m1 (by omega) (by omega) inv1
        rwa [← add_assoc, add_mul, ← add_assoc] at htail
      · have hhead := map_filled perms faithful inv hdom (args.page_lt hi)
        rw [args.phys_addr hi, ← args.virt_eq i] at hhead
        obtain ⟨n, rfl⟩ : ∃ n', n = 1 + n' := ⟨n - 1, by omega⟩
        refine filled_bind (by omega) inv (map_keeps faithful hdom) hhead fun m1 inv1 => ?_
        have htail := ih (i + 1) n m1 (by omega) (by omega) inv1
        rwa [← add_assoc, add_mul, ← add_assoc] at htail
    · obtain rfl : n = 0 := by omega
      rw [if_neg hi]
      exact filled_none _ _

theorem mapEach_keeps : Prog.Keeps (RangeInv E dom root) (mapEach E root virt phys count perms) :=
  .forEach fun i hi => map_keeps faithful (args.faithful_on i (mem_upTo.mp hi).2)

theorem mapRange_keeps :
    Prog.Keeps (RangeInv E dom root) (mapRange profile E root virt phys count perms) := by
  refine rangeLoop_keeps (Q := dom) (fun v f hf => map_keeps faithful hf)
    (fun v f hf => mapBlock2m_keeps faithful hf) ?_ _ _
  intro i hi p hp
  rw [args.phys_word hi] at hp
  rw [← some.inj hp]
  exact args.faithful_on i hi

end

private theorem unmapped_iff {m : Machine} (faithful : Faithful E dom) (inv : RangeInv E dom root m)
    (args : Admissible dom virt phys count) :
    (∀ page, virt / frameSize ≤ page → page < virt / frameSize + count →
      target E root m page = none) ↔
    ∀ i < count, translate E m.mem root (virt + i * frameSize) = none := by
  have hpage : ∀ i < count, pageOf (virt + i * frameSize) = virt / frameSize + i := by
    intro i hi
    have hlt := args.page_lt hi
    rw [args.virt_eq i]
    simp only [pageOf, frameSize] at *
    omega
  constructor
  · intro hnone i hi
    rw [translate_target faithful inv.paging, hpage i hi, hnone _ (by omega) (by omega), map_none]
  · intro hnone page hle hlt
    obtain ⟨i, rfl⟩ := Nat.exists_eq_add_of_le hle
    have htranslate := hnone i (by omega)
    rw [translate_target faithful inv.paging, hpage i (by omega), map_eq_none_iff] at htranslate
    exact htranslate

end

/-- With three free frames a page, `map_range` maps a range exactly when mapping its pages in turn
does, which is when none of them translates yet, and with the same translation. -/
theorem range_as_pages (E : PageTableEncoder) (dom : PhysFrame → Prop) (faithful : Faithful E dom)
    (m0 m : Machine) (root : PhysFrame) (wf : Wf m0.frames)
    (covers : ∀ f : PhysFrame, f.index < m0.frames.frameCount → dom f)
    (fresh : newRoot m0 = (.ok root, m)) (s : Traced)
    (run : Relation.ReflTransGen (Step E dom root) ⟨m, []⟩ s) (profile : BuildProfile)
    (virt phys count : Nat) (perms : Permissions) (args : Admissible dom virt phys count)
    (enough : 3 * count ≤ (freeSet s.machine.frames).card) :
    ((mapRange profile E root virt phys count perms s.machine).1 = .ok () ↔
      (mapEach E root virt phys count perms s.machine).1 = .ok ()) ∧
    ((mapEach E root virt phys count perms s.machine).1 = .ok () ↔
      ∀ i < count, translate E s.machine.mem root (virt + i * frameSize) = none) ∧
    ((mapRange profile E root virt phys count perms s.machine).1 = .ok () → ∀ v,
      translate E (mapRange profile E root virt phys count perms s.machine).2.mem root v =
        translate E (mapEach E root virt phys count perms s.machine).2.mem root v) := by
  have inv : RangeInv E dom root s.machine :=
    RangeInv.run (s := ⟨m, []⟩) faithful (RangeInv.initial faithful wf covers fresh) run
  have hrange := rangeLoop_filled perms faithful args profile count 0 count s.machine
    (zero_add _) le_rfl inv
  have heach := mapEach_filled perms faithful args count 0 s.machine (zero_add _) inv
  have hrangeOk := hrange.ok_iff enough
  have heachOk := heach.ok_iff enough
  refine ⟨hrangeOk.trans heachOk.symm, heachOk.trans ?_, ?_⟩
  · exact unmapped_iff faithful inv args
  · intro hok v
    have hok' := (hrangeOk.trans heachOk.symm).mp hok
    have hrangeInv := (mapRange_keeps perms faithful args profile) s.machine inv
    have heachInv := (mapEach_keeps perms faithful args) s.machine inv
    rw [translate_target faithful hrangeInv.paging, translate_target faithful heachInv.paging]
    rw [mapRange] at hok
    rw [hok] at hrange
    rw [hok'] at heach
    congr 1
    exact (hrange.2.1 _ (pageOf_lt v)).trans (heach.2.1 _ (pageOf_lt v)).symm

/-- A 2 MiB block and the page after it, in a fresh space over 8 MiB. -/
theorem range_as_pages_block_and_page : ∃ m0 root m, newRoot m0 = (.ok root, m) ∧
      (mapRange .dev x86PageTable root 0x200000 0x400000 513 ⟨true, true, false, true, false⟩ m).1 =
        .ok () ∧
      (mapEach x86PageTable root 0x200000 0x400000 513 ⟨true, true, false, true, false⟩ m).1 =
        .ok () := by
  obtain ⟨frames, -, wf, hcount, -, hfree⟩ := fromRegions_spec .dev
    [⟨0, 2048 * frameSize, .usable, by decide, by decide⟩] 0 (by decide)
  have hall : freeSet frames = Finset.range 2048 := by
    ext f
    have hzero : divCeil 0 4096 = 0 := by decide
    rw [hfree, Finset.mem_range]
    simp only [Available, FrameInside, frameSize, List.mem_singleton, exists_eq_left, hzero, true_and]
    omega
  have hcovers : ∀ f : PhysFrame, f.index < frames.frameCount → Addressable f := by
    intro f hf
    rw [hcount, show maxUsableEnd [⟨0, 2048 * frameSize, .usable, by decide, by decide⟩] / frameSize =
      2048 by decide] at hf
    change f.addr / 4096 < 2048 at hf
    change f.addr < 2 ^ 52
    omega
  have hempty : PagingInv x86PageTable Addressable (fun _ : Unit => none) ⟨fun _ _ => 0, frames⟩ :=
    pagingInv_empty wf hcovers
  rcases allocateZeroed_cases hempty with ⟨root, next, -, hnew⟩ | ⟨-, hnone⟩ | ⟨-, hnone⟩
  · have htook := (newRoot_ok x86_faithful hempty () hnew).took.card_free
    rw [card_singleton, hall, card_range] at htook
    change (freeSet next).card + 1 = 2048 at htook
    have args : Admissible Addressable 0x200000 0x400000 513 := by
      refine ⟨by decide, by decide, by decide, by decide, ?_⟩
      intro i hi
      simp only [Addressable, containing, frameSize, wordBound]
      omega
    have hsupply : 3 * 513 ≤ (freeSet next).card := by omega
    obtain ⟨hpaging, -, hfresh⟩ := newRoot_only x86_faithful wf hcovers hnew
    obtain ⟨hsame, heach, -⟩ := range_as_pages x86PageTable Addressable x86_faithful _ _ root wf
      hcovers hnew _ .refl .dev _ _ _ ⟨true, true, false, true, false⟩ args hsupply
    have hok := heach.mpr fun i _ => by rw [translate_target x86_faithful hpaging, hfresh, map_none]
    exact ⟨_, root, _, hnew, hsame.mpr hok, hok⟩
  · rw [hall, range_eq_empty_iff] at hnone
    cases hnone
  · rw [hall, range_eq_empty_iff] at hnone
    cases hnone

end CibosPlatform.Kernel.Paging.Ranges

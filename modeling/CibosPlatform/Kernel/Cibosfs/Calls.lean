/- source: cibos-kernel/src/fs.rs
   digest: What mkdir, write_file and remove_file do to the tree a volume holds, in every case. -/

import CibosPlatform.Kernel.Cibosfs.Changes

namespace CibosPlatform.Kernel.Cibosfs.Calls

open Core LittleEndian MachineWord NamedTree Program Core.Program.Prog List Tree
open Blocks Changes Directories Layout
open Operations Rewrite View Volume

inductive Call where
  | mkdir (path : List Byte)
  | writeFile (path data : List Byte)
  | removeFile (path : List Byte)

def exec {σ : Type} (M : Medium σ) : Call → Prog σ FsError (Option Nat)
  | .mkdir path => do
    let ino ← mkdir M path
    pure (some ino)
  | .writeFile path data => do
    let ino ← writeFile M path data
    pure (some ino)
  | .removeFile path => do
    removeFile M path
    pure none

inductive Does : Call → Option Nat → DirTree → DirTree → Prop
  | mkdir {path : List Byte} {parents : List Name} {name : Name} {t : DirTree} {dir ino : Nat}
      {children : List (Name × DirTree)} (hpath : components path = parents ++ [name])
      (found : t.lookup parents = .ok (.branch dir children)) (hnew : name ∉ children.map Prod.fst)
      (unused : ino ∉ t.labels) :
      Does (.mkdir path) (some ino) t (t.alter (addChild name (.branch ino [])) parents)
  | create {path data : List Byte} {parents : List Name} {name : Name} {t : DirTree} {dir ino : Nat}
      {children : List (Name × DirTree)} (hpath : components path = parents ++ [name])
      (found : t.lookup parents = .ok (.branch dir children)) (hnew : name ∉ children.map Prod.fst)
      (unused : ino ∉ t.labels) :
      Does (.writeFile path data) (some ino) t (t.alter (addChild name (.leaf ino data)) parents)
  | overwrite {path data old : List Byte} {t : DirTree} {ino : Nat}
      (found : t.lookup (components path) = .ok (.leaf ino old)) :
      Does (.writeFile path data) (some ino) t (t.alter (setPayload data) (components path))
  | remove {path old : List Byte} {parents : List Name} {name : Name} {t : DirTree} {ino : Nat}
      (hpath : components path = parents ++ [name])
      (found : t.lookup (components path) = .ok (.leaf ino old)) :
      Does (.removeFile path) none t (t.alter (dropChild name) parents)

def entryBlocks : DirTree → Nat
  | .leaf _ _ => 0
  | .branch _ children => if children.length % entriesPerBlock = 0 then 1 else 0

/-- When a call does all or nothing, with so many inodes and blocks free: a new entry finds room in
its parent, and the data of a new file fit; new contents of a file find all their blocks, or none.
-/
def Atomic (inodes blocks : Nat) (t : DirTree) : Call → Prop
  | .mkdir path => ∀ parents name dir, components path = parents ++ [name] →
      t.lookup parents = .ok dir → (dir.child name).isOk = false → 0 < inodes → Room blocks name dir
  | .writeFile path data => ∀ parents name dir, components path = parents ++ [name] →
      t.lookup parents = .ok dir →
      match dir.child name with
      | .ok (.leaf _ old) =>
        data.length ≤ maxFileSize → blocksFor data - blocksFor old ≤ blocks ∨ blocks = 0
      | .ok (.branch _ _) => True
      | .error .blocked => True
      | .error .absent => 0 < inodes → Room blocks name dir ∧ data.length ≤ maxFileSize ∧
          blocksFor data + entryBlocks dir ≤ blocks
  | .removeFile _ => True

def vacant (v : Volume) : List Nat := (upTo 1 v.sb.inodeCount).filter fun ino => (v.inodes ino).kind = kindFree

structure Exact (v : Volume) (t : DirTree) : Prop where
  noLeak : NoLeak v
  listed : ∀ ino, ino < v.sb.inodeCount → (v.inodes ino).kind ≠ kindFree → ino ∈ t.labels

inductive Effect (v : Volume) (t : DirTree) (call : Call) : Outcome FsError (Option Nat) × Volume → Prop
  | done {reply : Option Nat} {v' : Volume} {t' : DirTree} (does : Does call reply t t')
      (holds : Holds v' t') (exact : Exact v t → Exact v' t')
      (atomic : Atomic (vacant v).length (free v).length t call) : Effect v t call (.ok reply, v')
  | refused {e : FsError} (atomic : Atomic (vacant v).length (free v).length t call) :
      Effect v t call (.err e, v)
  | torn {e : FsError} {v' : Volume} {t' : DirTree} (holds : Holds v' t')
      (changed : vacant v' ≠ vacant v ∨ free v' ≠ free v)
      (torn : ¬ Atomic (vacant v).length (free v).length t call) : Effect v t call (.err e, v')

theorem Effect.covered {v : Volume} {t : DirTree} {call : Call}
    {r : Outcome FsError (Option Nat) × Volume} (h : Effect v t call r) : r.1 ≠ .panic := by
  cases h with
  | done | refused | torn => exact nofun

section

variable {v v' : Volume} {t : DirTree} {ino : Nat}

theorem mem_vacant : ino ∈ vacant v ↔ 0 < ino ∧ ino < v.sb.inodeCount ∧ (v.inodes ino).kind = kindFree := by
  rw [vacant, mem_filter, mem_upTo, decide_eq_true_eq, and_assoc]
  rfl

theorem kind_of_label (shown : Shown v t) (h : ino ∈ t.labels) : (v.inodes ino).kind ≠ kindFree := by
  obtain ⟨x, hx, rfl⟩ := Multiset.mem_map.mp h
  have hshows := shown x hx
  rcases x with ⟨ino, face⟩
  cases face with
  | leaf data | branch listing =>
    rw [hshows.2.1]
    decide

theorem vacant_outside (holds : Holds v t) (h : ino ∈ vacant v) : ino ∉ t.labels := fun hlabel =>
  kind_of_label holds.shown hlabel (mem_vacant.mp h).2.2

theorem vacant_ne (h : ino ∈ vacant v) (taken : (v'.inodes ino).kind ≠ kindFree) :
    vacant v' ≠ vacant v := by
  intro hsame
  rw [← hsame] at h
  exact taken (mem_vacant.mp h).2.2

end

def create {σ : Type} (M : Medium σ) (isDir : Bool) (parent : Nat) (name : Name) : Prog σ FsError Nat := do
  let ino ← allocInode M
  M.writeInode ino (.empty (kindOf isDir))
  dirAdd M parent ino name
  pure ino

def fill {σ : Type} (M : Medium σ) (ino : Nat) (data : List Byte) : Prog σ FsError Nat := do
  let node ← M.readInode ino
  Prog.rejectIf (node.kind ≠ kindFile) .wrongKind
  writeInodeData M ino node data
  pure ino

variable {children : List (Name × DirTree)}

section

variable (profile : BuildProfile) {v : Volume} {t dir : DirTree} {parents : List Name} {name : Name}
  (isDir : Bool)

theorem create_none (h : vacant v = []) (parent : Nat) :
    create (medium profile) isDir parent name v = (.err .noSpace, v) := by
  refine bind_err (allocInode_none fun ino hlow hhigh hkind => ?_)
  have hmem : ino ∈ vacant v := mem_vacant.mpr ⟨hlow, hhigh, hkind⟩
  rw [h] at hmem
  cases hmem

private theorem kindOf_lt : kindOf isDir < 2 ^ 32 := by cases isDir <;> decide

private theorem kindOf_ne_free : kindOf isDir ≠ kindFree := by cases isDir <;> decide

private theorem plant_run (name : Name) (holds : Holds v t) (h : vacant v ≠ []) : ∃ ino, ino ∈ vacant v ∧
    Holds (v.setInode ino (.empty (kindOf isDir))) t ∧
    Rewritten v (v.setInode ino (.empty (kindOf isDir))) ino (kindOf isDir) [] ∧
    ∀ parent, create (medium profile) isDir parent name v =
      (do dirAdd (medium profile) parent ino name; pure ino) (v.setInode ino (.empty (kindOf isDir))) := by
  obtain ⟨some, hsome⟩ := exists_mem_of_ne_nil _ h
  obtain ⟨hlow, hhigh, hkind⟩ := mem_vacant.mp hsome
  obtain ⟨ino, hlow, hhigh, hkind, halloc⟩ := allocInode_some hlow hhigh hkind
  have hmem : ino ∈ vacant v := mem_vacant.mpr ⟨hlow, hhigh, hkind⟩
  have houtside := vacant_outside holds hmem
  have hsmall := kindOf_lt isDir
  have hplant := rewritten_plant holds.sound hhigh (holds.stray ino hhigh houtside) hsmall
  refine ⟨ino, hmem, holds_outside holds hhigh houtside hplant, hplant, fun parent => ?_⟩
  rw [create, bind_ok halloc, bind_ok (writeInode_run profile hhigh (.empty hsmall))]

theorem create_fail (holds : Holds v t) (found : t.lookup parents = .ok dir) (h : vacant v ≠ [])
    (full : ¬ Room (free v).length name dir) : ∃ e v', create (medium profile) isDir dir.label name v =
      (.err e, v') ∧ Holds v' t ∧ vacant v' ≠ vacant v := by
  obtain ⟨ino, hmem, hholds, hplant, hrun⟩ := plant_run profile isDir name holds h
  obtain ⟨e, hfail⟩ := dirAdd_fail profile ino hholds.sound (hholds.shown.lookup found) full
  refine ⟨e, _, (hrun dir.label).trans (bind_err hfail), hholds, vacant_ne hmem ?_⟩
  rw [hplant.kind]
  exact kindOf_ne_free isDir

structure Created (v v' : Volume) (t : DirTree) (parents : List Name) (name : Name) (isDir : Bool) (need ino : Nat) :
    Prop where
  vacant : ino ∈ vacant v
  sb : v'.sb = v.sb
  holds : Holds v' (t.alter (addChild name (bareNode isDir ino)) parents)
  kind : (v'.inodes ino).kind = kindOf isDir
  others : ∀ other, other ≠ ino → (v'.inodes other).kind = (v.inodes other).kind
  free : free v' = (free v).drop need
  noLeak : NoLeak v → NoLeak v'

theorem create_run (holds : Holds v t) {i : Nat}
    (found : t.lookup parents = .ok (.branch i children)) (hnew : name ∉ children.map Prod.fst) (hname : name ≠ [])
    (h : vacant v ≠ []) (room : Room (free v).length name (.branch i children)) :
    ∃ ino v', create (medium profile) isDir i name v = (.ok ino, v') ∧
      Created v v' t parents name isDir (entryBlocks (.branch i children)) ino := by
  obtain ⟨ino, hmem, hholds, hplant, hrun⟩ := plant_run profile isDir name holds h
  obtain ⟨hlow, hhigh, -⟩ := mem_vacant.mp hmem
  have hshown := hholds.shown.lookup found
  have hself : Shows _ i (.branch (listing children)) := hshown.self
  obtain ⟨v', hadd, hstep⟩ := dirAdd_run profile ino hholds.sound hshown room
  obtain ⟨hshort, hmany, -⟩ := room
  have hsmall := (grownBytes_fits_iff ino hself hshort).mpr hmany
  obtain ⟨hmore, hblocks⟩ := grownBytes_blocks ino hself hshort hholds.sound
  have hne : ino ≠ i := by
    intro hsame
    have hlabel := (labels_nodup_of_lookup holds found).2 i (label_mem _)
    exact vacant_outside holds hmem (hsame ▸ hlabel)
  refine ⟨ino, v', (hrun i).trans (bind_ok hadd), hmem, hstep.sb.trans hplant.sb, ?_, ?_, ?_, ?_, ?_⟩
  · exact holds_addChild hholds found hnew ⟨hname, hshort⟩ (Nat.pos_iff_ne_zero.mp hlow)
      (vacant_outside holds hmem) hhigh (Function.update_self ..) hstep hsmall
  · rw [hstep.others ino hne, hplant.kind]
  · intro other hother
    by_cases hdir : other = i
    · rw [hdir, hstep.kind, ← hplant.others i hne.symm]
      exact hself.2.1.symm
    · rw [hstep.others other hdir, hplant.others other hother]
  · rw [hstep.grown hmore, hblocks]
    rfl
  · intro hleak
    exact hstep.noLeak hself.1 (hplant.noLeak hhigh hleak)

end

section

variable (profile : BuildProfile) {v : Volume} {t : DirTree} {path : List Name} {ino : Nat} {data : List Byte}

variable {old : List Byte}

theorem blocksUsed_leaf (sound : Sound v) (shows : Shows v ino (.leaf old)) :
    (v.inodes ino).blocksUsed = blocksFor old := by
  rw [Inode.blocksUsed, ← contents_length sound shows.1, shows.2.2, blocksFor]

theorem fill_dir (shown : Shown v (.branch ino children)) :
    fill (medium profile) ino data v = (.err .wrongKind, v) := by
  have hkind : (v.inodes ino).kind = kindDir := shown.kind
  have hread : (medium profile).readInode ino v = (.ok (v.inodes ino), v) :=
    readInode_label profile shown
  rw [fill, bind_ok hread]
  exact bind_err (rejectIf_pos (by rw [hkind]; decide) _ v)

private theorem fill_eq (shows : Shows v ino (.leaf old)) : fill (medium profile) ino data v =
      (do writeInodeData (medium profile) ino (v.inodes ino) data; pure ino) v := by
  have hkind : (v.inodes ino).kind = kindFile := shows.2.1
  rw [fill, bind_ok (readInode_run profile shows.1),
    bind_ok (rejectIf_neg (by rw [hkind]; decide) _ v)]

theorem fill_large (shows : Shows v ino (.leaf old)) (large : maxFileSize < data.length) :
    fill (medium profile) ino data v = (.err .tooLarge, v) :=
  (fill_eq profile shows).trans (bind_err (writeInodeData_large profile large))

theorem fill_short (sound : Sound v) (shows : Shows v ino (.leaf old)) (small : data.length ≤ maxFileSize)
    (short : (free v).length < blocksFor data - blocksFor old) :
    fill (medium profile) ino data v = (.err .noSpace, claim v (free v)) := by
  rw [← blocksUsed_leaf sound shows] at short
  exact (fill_eq profile shows).trans (bind_err (writeInodeData_fail profile sound small short))

theorem fill_run (holds : Holds v t) (found : t.lookup path = .ok (.leaf ino old))
    (small : data.length ≤ maxFileSize) (room : blocksFor data - blocksFor old ≤ (free v).length) :
    ∃ v', fill (medium profile) ino data v = (.ok ino, v') ∧
      Holds v' (t.alter (setPayload data) path) ∧ Rewritten v v' ino kindFile data := by
  have hshows : Shows v ino (.leaf old) := (holds.shown.lookup found).self
  rw [← blocksUsed_leaf holds.sound hshows] at room
  obtain ⟨v', hwrite, hstep⟩ := writeInodeData_run profile holds.sound hshows.1 small room
  rw [hshows.2.1] at hstep
  exact ⟨v', (fill_eq profile hshows).trans (bind_ok hwrite), holds_setPayload holds found hstep small, hstep⟩

theorem free_claim_free (v : Volume) : free (claim v (free v)) = [] := by
  have h := free_claim_take v (free v).length
  rwa [take_length, drop_length] at h

end

variable {old : List Byte}

section

variable (profile : BuildProfile) {v : Volume} {t : DirTree} {parents : List Name} {name : Name} {i ino : Nat}

theorem unlink_run (holds : Holds v t) {pre post : List (Name × DirTree)}
    (found : t.lookup parents = .ok (.branch i (pre ++ (name, .leaf ino old) :: post))) :
    ∃ v', (do
        Prog.forEach ((v.inodes ino).direct.take (v.inodes ino).blocksUsed) fun blk =>
          if blk ≠ 0 then freeBlock (medium profile) blk else pure ()
        (medium profile).writeInode ino (.empty kindFree)
        dirRemove (medium profile) i name : Prog Volume FsError Unit) v = (.ok (), v') ∧
      Holds v' (t.alter (dropChild name) parents) ∧
      (Exact v t → Exact v' (t.alter (dropChild name) parents)) := by
  have hshown := holds.shown.lookup found
  have hself : Shows v i (.branch (listing (pre ++ (name, .leaf ino old) :: post))) := hshown.self
  have hfile : Shows v ino (.leaf old) := (hshown.below (mem_append_right pre mem_cons_self)).self
  have hne : i ≠ ino := by
    intro hsame
    have hkind := hself.2.1
    rw [hsame, hfile.2.1] at hkind
    cases hkind
  obtain ⟨v0, v1, hfree, hwrite, herase⟩ := erase_run profile holds.sound hfile.1
  have hsound := herase.sound holds.sound hfile.1 (Nat.zero_le _)
  have hshows := shows_rewritten holds.sound hfile.1 herase hne hself
  have hlisted : name ∈ (listing (pre ++ (name, .leaf ino old) :: post)).map Prod.fst := by
    simp [listing]
  obtain ⟨hsmall, v', hremove, hstep⟩ := dirRemove_run profile hsound hshows
    (by rw [herase.sb]; exact hshown.listing_inRange) hlisted
  refine ⟨v', ?_, holds_dropChild holds found herase hstep hsmall, fun hexact => ⟨?_, ?_⟩⟩
  · exact (bind_ok hfree).trans ((bind_ok hwrite).trans hremove)
  · exact hstep.noLeak hshows.1 (herase.noLeak hfile.1 hexact.noLeak)
  · intro other hother hkind
    have hlabels := labels_dropChild holds.shown.distinct hshown.distinct.children found
    have hleaf : (Tree.leaf ino old : DirTree).labels = {ino} := by
      rw [labels, nodes_leaf, Multiset.map_singleton]
    have hused : (v.inodes other).kind ≠ kindFree ∧ other ≠ ino := by
      by_cases hdir : other = i
      · rw [hdir, hself.2.1]
        exact ⟨by decide, hne⟩
      · rw [hstep.others other hdir] at hkind
        by_cases hsame : other = ino
        · rw [hsame, herase.kind] at hkind
          exact absurd rfl hkind
        · rw [herase.others other hsame] at hkind
          exact ⟨hkind, hsame⟩
    rw [hstep.sb, herase.sb] at hother
    have hmem := hexact.listed other hother hused.1
    rw [hlabels, hleaf, Multiset.singleton_add, Multiset.mem_cons] at hmem
    exact hmem.resolve_left hused.2

end

variable {data : List Byte}

section

variable {v v' : Volume} {t : DirTree} {parents path : List Name} {name : Name} {ino : Nat}

theorem Exact.setPayload (h : Exact v t) (holds : Holds v t)
    (found : t.lookup path = .ok (.leaf ino old)) (step : Rewritten v v' ino kindFile data) :
    Exact v' (t.alter (setPayload data) path) where
  noLeak := step.noLeak (holds.shown.lookup found).self.inRange h.noLeak
  listed := by
    intro other hother hkind
    rw [labels_setPayload holds.shown.distinct found data]
    rw [step.sb] at hother
    by_cases hsame : other = ino
    · rw [hsame]
      exact (labels_nodup_of_lookup holds found).2 ino (label_mem _)
    · rw [step.others other hsame] at hkind
      exact h.listed other hother hkind

theorem Exact.addChild {i need : Nat} {isDir : Bool} (h : Exact v t)
    (holds : Holds v t) (found : t.lookup parents = .ok (.branch i children))
    (created : Created v v' t parents name isDir need ino) :
    Exact v' (t.alter (addChild name (bareNode isDir ino)) parents) where
  noLeak := created.noLeak h.noLeak
  listed := by
    intro other hother hkind
    rw [labels_addChild holds.shown.distinct found, bareNode_labels, Multiset.singleton_add,
      Multiset.mem_cons]
    by_cases hsame : other = ino
    · exact .inl hsame
    · rw [created.others other hsame] at hkind
      rw [created.sb] at hother
      exact .inr (h.listed other hother hkind)

end

variable {path : List Byte}

section

variable (profile : BuildProfile) {v : Volume} {t : DirTree}

private theorem name_ne_nil {parents : List Name} {name : Name}
    (hpath : components path = parents ++ [name]) : name ≠ [] := by
  have hmem : name ∈ components path := by simp [hpath]
  rw [components, mem_filter] at hmem
  simpa using hmem.2

private theorem parent_cases (holds : Holds v t) (path : List Byte) :
    (∃ e, resolveParent (medium profile) path v = (.err e, v) ∧
      ∀ parents name dir, components path = parents ++ [name] → t.lookup parents ≠ .ok dir) ∨
    ∃ parents name dir, components path = parents ++ [name] ∧ t.lookup parents = .ok dir ∧
      resolveParent (medium profile) path v = (.ok (dir.label, name), v) ∧
      ∀ parents' name' dir', components path = parents' ++ [name'] → t.lookup parents' = .ok dir' →
        parents' = parents ∧ name' = name ∧ dir' = dir := by
  rcases eq_nil_or_concat (components path) with hnil | ⟨parents, name, hpath⟩
  · refine .inl ⟨.notFound, by rw [resolveParent, hnil]; rfl, fun parents name dir h => ?_⟩
    simp [hnil] at h
  · rw [concat_eq_append] at hpath
    have hunique : ∀ parents' name', components path = parents' ++ [name'] →
        parents' = parents ∧ name' = name := by
      intro parents' name' h
      rw [hpath] at h
      obtain ⟨hparents, hname⟩ := append_inj' h rfl
      exact ⟨hparents.symm, by simpa using hname.symm⟩
    have hparent := resolveParent_run profile holds hpath
    rcases hfound : t.lookup parents with m | dir
    · rw [hfound] at hparent
      refine .inl ⟨errorOf m, hparent, fun parents' name' dir h => ?_⟩
      obtain ⟨rfl, rfl⟩ := hunique parents' name' h
      simp [hfound]
    · rw [hfound] at hparent
      refine .inr ⟨parents, name, dir, hpath, hfound, hparent, fun parents' name' dir' h hdir => ?_⟩
      obtain ⟨rfl, rfl⟩ := hunique parents' name' h
      rw [hfound, Except.ok.injEq] at hdir
      exact ⟨rfl, rfl, hdir.symm⟩

private theorem attempt_lookup {dir : DirTree} (sound : Sound v) (shown : Shown v dir) (name : Name) :
    (Prog.attempt (dirLookup (medium profile) dir.label name) :
      Prog Volume FsError (Except FsError Nat)) v =
      (.ok (match dir.child name with
        | .ok s => .ok s.label
        | .error m => .error (errorOf m)), v) := by
  rw [Prog.attempt, dirLookup_run profile sound shown name]
  cases dir.child name with
  | ok s | error m => rfl

variable (holds : Holds v t)

include holds

theorem mkdir_effect (path : List Byte) :
    Effect v t (.mkdir path) (exec (medium profile) (.mkdir path) v) := by
  rcases parent_cases profile holds path with
    ⟨e, hparent, hnone⟩ | ⟨parents, name, dir, hpath, hfound, hparent, hunique⟩
  · have hrun : mkdir (medium profile) path v = (.err e, v) := bind_err hparent
    rw [exec, bind_err hrun]
    exact .refused fun parents name dir h hdir => absurd hdir (hnone parents name dir h)
  · have hatomic : ∀ {inodes blocks : Nat}, ((dir.child name).isOk = false → 0 < inodes →
        Room blocks name dir) → Atomic inodes blocks t (.mkdir path) := by
      intro inodes blocks hroom parents' name' dir' h hdir
      obtain ⟨rfl, rfl, rfl⟩ := hunique parents' name' dir' h hdir
      exact hroom
    have hlookup := attempt_lookup profile holds.sound (holds.shown.lookup hfound) name
    rcases hchild : dir.child name with m | c
    · rw [hchild] at hlookup
      have hrun : mkdir (medium profile) path v =
          create (medium profile) true dir.label name v := by
        rw [mkdir, bind_ok hparent, bind_ok hlookup]
        exact bind_ok (rejectIf_neg nofun _ v)
      by_cases hvacant : vacant v = []
      · rw [exec, bind_err (hrun.trans (create_none profile true hvacant _))]
        refine .refused (hatomic fun _ hpos => ?_)
        simp [hvacant] at hpos
      · by_cases hroom : Room (free v).length name dir
        · cases dir with
          | leaf i old => exact hroom.elim
          | branch i children =>
            have hnew := (child_branch_eq_error hchild).2
            obtain ⟨ino, v', hcreate, hcreated⟩ := create_run profile true holds hfound hnew
              (name_ne_nil hpath) hvacant hroom
            rw [exec, bind_ok (hrun.trans hcreate)]
            exact .done (.mkdir hpath hfound hnew (vacant_outside holds hcreated.vacant)) hcreated.holds
              (·.addChild holds hfound hcreated) (hatomic fun _ _ => hroom)
        · obtain ⟨e, v', hcreate, hholds, hne⟩ := create_fail profile true holds hfound hvacant hroom
          rw [exec, bind_err (hrun.trans hcreate)]
          refine .torn hholds (.inl hne) fun h => hroom (h parents name dir hpath hfound ?_ ?_)
          · rw [hchild]
            rfl
          · exact length_pos_iff.mpr hvacant
    · rw [hchild] at hlookup
      have hrun : mkdir (medium profile) path v = (.err .nameExists, v) := by
        rw [mkdir, bind_ok hparent, bind_ok hlookup]
        exact bind_err (rejectIf_pos rfl _ v)
      rw [exec, bind_err hrun]
      refine .refused (hatomic fun hmiss => ?_)
      simp [hchild, Except.isOk, Except.toBool] at hmiss

private theorem overwrite_effect {ino : Nat}
    (found : t.lookup (components path) = .ok (.leaf ino old))
    (hatomic : ∀ {inodes blocks : Nat}, Atomic inodes blocks t (.writeFile path data) ↔
      (data.length ≤ maxFileSize → blocksFor data - blocksFor old ≤ blocks ∨ blocks = 0))
    (hrun : writeFile (medium profile) path data v = fill (medium profile) ino data v) :
    Effect v t (.writeFile path data) (exec (medium profile) (.writeFile path data) v) := by
  have hshows : Shows v ino (.leaf old) := (holds.shown.lookup found).self
  by_cases hlarge : maxFileSize < data.length
  · rw [exec, bind_err (hrun.trans (fill_large profile hshows hlarge))]
    exact .refused (hatomic.mpr fun hsmall => absurd hsmall (not_le.mpr hlarge))
  · have hsmall := not_lt.mp hlarge
    by_cases hroom : blocksFor data - blocksFor old ≤ (free v).length
    · obtain ⟨v', hfill, hholds, hstep⟩ := fill_run profile holds found hsmall hroom
      rw [exec, bind_ok (hrun.trans hfill)]
      exact .done (.overwrite found) hholds (·.setPayload holds found hstep)
        (hatomic.mpr fun _ => .inl hroom)
    · rw [exec, bind_err (hrun.trans (fill_short profile holds.sound hshows hsmall (not_le.mp hroom)))]
      by_cases hfree : free v = []
      · rw [hfree, claim_nil]
        refine .refused (hatomic.mpr fun _ => .inr ?_)
        rw [hfree, length_nil]
      · refine .torn (holds_claim holds (free v)) (.inr ?_) fun h => ?_
        · rw [free_claim_free]
          exact Ne.symm hfree
        · rcases hatomic.mp h hsmall with h | h
          · exact hroom h
          · exact hfree (length_eq_zero_iff.mp h)

private theorem create_effect {parents : List Name} {name : Name} {i : Nat}
    (hpath : components path = parents ++ [name])
    (found : t.lookup parents = .ok (.branch i children)) (hnew : name ∉ children.map Prod.fst)
    (hatomic : ∀ {inodes blocks : Nat}, Atomic inodes blocks t (.writeFile path data) ↔
      (0 < inodes → Room blocks name (.branch i children) ∧ data.length ≤ maxFileSize ∧
        blocksFor data + entryBlocks (.branch i children) ≤ blocks))
    (hrun : writeFile (medium profile) path data v = (do
      let ino ← create (medium profile) false i name
      fill (medium profile) ino data : Prog Volume FsError Nat) v) :
    Effect v t (.writeFile path data) (exec (medium profile) (.writeFile path data) v) := by
  by_cases hvacant : vacant v = []
  · rw [exec, bind_err (hrun.trans (bind_err (create_none profile false hvacant _)))]
    refine .refused (hatomic.mpr fun hpos => ?_)
    simp [hvacant] at hpos
  have hpos : 0 < (vacant v).length := length_pos_iff.mpr hvacant
  by_cases hroom : Room (free v).length name (.branch i children)
  · obtain ⟨ino, v1, hcreate, hcreated⟩ := create_run profile false holds found hnew (name_ne_nil hpath)
      hvacant hroom
    have hthere : (t.alter (addChild name (.leaf ino [])) parents).lookup (parents ++ [name]) =
        .ok (.leaf ino []) := lookup_snoc (lookup_alter _ found) (child_addChild hnew)
    have hshows : Shows v1 ino (.leaf []) := (hcreated.holds.shown.lookup hthere).self
    have htaken : (v1.inodes ino).kind ≠ kindFree := by
      rw [hcreated.kind]
      decide
    have hfree : (free v1).length = (free v).length - entryBlocks (.branch i children) := by
      rw [hcreated.free, length_drop]
    have hentry : entryBlocks (.branch i children) ≤ (free v).length := by
      rw [entryBlocks]
      split
      · exact hroom.2.2 ‹_›
      · exact Nat.zero_le _
    have hempty : blocksFor [] = 0 := by decide
    by_cases hlarge : maxFileSize < data.length
    · rw [exec, bind_err (hrun.trans ((bind_ok hcreate).trans (fill_large profile hshows hlarge)))]
      refine .torn hcreated.holds (.inl (vacant_ne hcreated.vacant htaken)) fun h => ?_
      exact not_le.mpr hlarge (hatomic.mp h hpos).2.1
    have hsmall := not_lt.mp hlarge
    by_cases hfit : blocksFor data + entryBlocks (.branch i children) ≤ (free v).length
    · obtain ⟨v2, hfill, hholds, hstep⟩ := fill_run profile hcreated.holds hthere hsmall
        (by rw [hempty, hfree]; omega)
      have hsame : (t.alter (addChild name (.leaf ino [])) parents).alter (setPayload data)
          (parents ++ [name]) = t.alter (addChild name (.leaf ino data)) parents := by
        rw [alter_append, alter_alter]
        refine alter_congr holds.shown.distinct found ?_
        exact setPayload_addChild hnew
      have hexact := fun h : Exact v t => (h.addChild holds found hcreated).setPayload hcreated.holds hthere hstep
      rw [bareNode, hsame] at hholds hexact
      rw [exec, bind_ok (hrun.trans ((bind_ok hcreate).trans hfill))]
      exact .done (.create hpath found hnew (vacant_outside holds hcreated.vacant)) hholds hexact
        (hatomic.mpr fun _ => ⟨hroom, hsmall, hfit⟩)
    · rw [exec, bind_err (hrun.trans ((bind_ok hcreate).trans (fill_short profile hcreated.holds.sound hshows
        hsmall (by rw [hempty, hfree]; omega))))]
      refine .torn (holds_claim hcreated.holds _) (.inl (vacant_ne hcreated.vacant htaken)) fun h => ?_
      exact hfit (hatomic.mp h hpos).2.2
  · obtain ⟨e, v', hcreate, hholds, hne⟩ := create_fail profile false holds found hvacant hroom
    rw [exec, bind_err (hrun.trans (bind_err hcreate))]
    exact .torn hholds (.inl hne) fun h => hroom (hatomic.mp h hpos).1

theorem writeFile_effect (path data : List Byte) :
    Effect v t (.writeFile path data) (exec (medium profile) (.writeFile path data) v) := by
  rcases parent_cases profile holds path with
    ⟨e, hparent, hnone⟩ | ⟨parents, name, dir, hpath, hfound, hparent, hunique⟩
  · have hrun : writeFile (medium profile) path data v = (.err e, v) := bind_err hparent
    rw [exec, bind_err hrun]
    exact .refused fun parents name dir h hdir => absurd hdir (hnone parents name dir h)
  · have hatomic : ∀ {inodes blocks : Nat} {P : Prop}, ((match dir.child name with
          | .ok (.leaf _ old) =>
            data.length ≤ maxFileSize → blocksFor data - blocksFor old ≤ blocks ∨ blocks = 0
          | .ok (.branch _ _) | .error .blocked => True
          | .error .absent => 0 < inodes → Room blocks name dir ∧ data.length ≤ maxFileSize ∧
              blocksFor data + entryBlocks dir ≤ blocks) ↔ P) →
        (Atomic inodes blocks t (.writeFile path data) ↔ P) := by
      intro inodes blocks P hP
      refine ⟨fun h => hP.mp (h parents name dir hpath hfound), fun h parents' name' dir' hpath' hdir => ?_⟩
      obtain ⟨rfl, rfl, rfl⟩ := hunique parents' name' dir' hpath' hdir
      exact hP.mpr h
    have hshown := holds.shown.lookup hfound
    have hlookup := attempt_lookup profile holds.sound hshown name
    rcases hchild : dir.child name with m | c
    · rw [hchild] at hlookup
      cases dir with
      | leaf i old =>
        cases hchild
        have hrun : writeFile (medium profile) path data v = (.err .wrongKind, v) := by
          rw [writeFile, bind_ok hparent]
          exact bind_err (bind_ok hlookup)
        rw [exec, bind_err hrun]
        exact .refused ((hatomic Iff.rfl).mpr trivial)
      | branch i children =>
        obtain ⟨rfl, hnew⟩ := child_branch_eq_error hchild
        have hopen : openFile (medium profile) i name v =
            create (medium profile) false i name v := bind_ok hlookup
        refine create_effect profile holds hpath hfound hnew (hatomic (by rw [hchild])) ?_
        exact (bind_ok hparent).trans (bind_congr_run hopen)
    · rw [hchild] at hlookup
      have hthere : t.lookup (components path) = .ok c := by
        rw [hpath]
        exact lookup_snoc hfound hchild
      have hopen : openFile (medium profile) dir.label name v = (.ok c.label, v) := bind_ok hlookup
      have hrun : writeFile (medium profile) path data v =
          fill (medium profile) c.label data v := by
        rw [writeFile, bind_ok hparent]
        exact bind_ok hopen
      cases c with
      | leaf ino old => exact overwrite_effect profile holds hthere (hatomic (by rw [hchild])) hrun
      | branch ino children =>
        rw [exec, bind_err (hrun.trans (fill_dir profile (holds.shown.lookup hthere)))]
        exact .refused ((hatomic (by rw [hchild])).mpr trivial)

theorem removeFile_effect (path : List Byte) :
    Effect v t (.removeFile path) (exec (medium profile) (.removeFile path) v) := by
  rcases parent_cases profile holds path with
    ⟨e, hparent, -⟩ | ⟨parents, name, dir, hpath, hfound, hparent, -⟩
  · have hrun : removeFile (medium profile) path v = (.err e, v) := bind_err hparent
    rw [exec, bind_err hrun]
    exact .refused trivial
  · have hshown := holds.shown.lookup hfound
    have hlookup := dirLookup_run profile holds.sound hshown name
    rcases hchild : dir.child name with m | c
    · rw [hchild] at hlookup
      have hrun : removeFile (medium profile) path v = (.err (errorOf m), v) := by
        rw [removeFile, bind_ok hparent]
        exact bind_err hlookup
      rw [exec, bind_err hrun]
      exact .refused trivial
    · rw [hchild] at hlookup
      have hthere : t.lookup (components path) = .ok c := by
        rw [hpath]
        exact lookup_snoc hfound hchild
      have hread := readInode_label profile (holds.shown.lookup hthere)
      have hkind := (holds.shown.lookup hthere).kind
      cases c with
      | branch ino children =>
        have hdir : (v.inodes (branch ino children : DirTree).label).kind = kindDir := hkind
        have hrun : removeFile (medium profile) path v = (.err .wrongKind, v) := by
          rw [removeFile, bind_ok hparent]
          refine (bind_ok hlookup).trans ((bind_ok hread).trans (bind_err (rejectIf_pos ?_ _ v)))
          rw [hdir]
          decide
        rw [exec, bind_err hrun]
        exact .refused trivial
      | leaf ino old =>
        have hfile : (v.inodes (Tree.leaf ino old : DirTree).label).kind = kindFile := hkind
        obtain ⟨i, pre, post, rfl, -⟩ := child_eq_ok hchild
        obtain ⟨v', hunlink, hholds, hexact⟩ := unlink_run profile holds hfound
        have hrun : removeFile (medium profile) path v = (.ok (), v') := by
          rw [removeFile, bind_ok hparent]
          refine (bind_ok hlookup).trans ((bind_ok hread).trans ?_)
          rw [bind_ok (rejectIf_neg (by rw [hfile]; decide) _ v)]
          exact hunlink
        rw [exec, bind_ok hrun]
        exact .done (.remove hpath hthere) hholds hexact trivial

theorem exec_effect (call : Call) : Effect v t call (exec (medium profile) call v) := by
  cases call with
  | mkdir path => exact mkdir_effect profile holds path
  | writeFile path data => exact writeFile_effect profile holds path data
  | removeFile path => exact removeFile_effect profile holds path

end

end CibosPlatform.Kernel.Cibosfs.Calls

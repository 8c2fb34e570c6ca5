/- source: cibos-kernel/src/fs.rs
   digest: The directory tree a volume holds, and what the lookups of the file system find in it. -/

import CibosPlatform.Core.NamedTree
import CibosPlatform.Kernel.Cibosfs.Rewrite

namespace CibosPlatform.Kernel.Cibosfs.Directories

open Core LittleEndian MachineWord NamedTree Program Core.Program.Prog List
open Blocks Layout Operations Rewrite
open View Volume Prog

abbrev DirTree := Tree Name Nat (List Byte)

def errorOf : Miss → FsError
  | .blocked => .wrongKind
  | .absent => .notFound

def answer {α : Type} (f : DirTree → Outcome FsError α) : Except Miss DirTree → Outcome FsError α
  | .ok t => f t
  | .error m => .err (errorOf m)

def entryOf (e : Name × DirTree) : DirEntry := ⟨e.2.label, e.2.isBranch, e.1⟩

def fileData : DirTree → Outcome FsError (List Byte)
  | .leaf _ data => .ok data
  | .branch _ _ => .err .wrongKind

def dirEntries : DirTree → Outcome FsError (List DirEntry)
  | .leaf _ _ => .err .wrongKind
  | .branch _ children => .ok (children.map entryOf)

abbrev Listing := List (Name × Nat × Bool)

def listingBytes (listing : Listing) : List Byte := dirBytes (listing.map fun e => (e.2.1, e.1))

def Shows (v : Volume) (ino : Nat) : Face Name Nat (List Byte) → Prop
  | .leaf data => ino < v.sb.inodeCount ∧ (v.inodes ino).kind = kindFile ∧
      contents v (v.inodes ino) = data
  | .branch listing => ino < v.sb.inodeCount ∧ (v.inodes ino).kind = kindDir ∧
      contents v (v.inodes ino) = listingBytes listing ∧
      (listing.map Prod.fst).Nodup ∧
      ∀ e ∈ listing, e.2.1 ≠ rootInode ∧ e.1 ≠ [] ∧ e.1.length ≤ nameMax

def Shown (v : Volume) (t : DirTree) : Prop := ∀ x ∈ t.nodes, Shows v x.1 x.2

/-- The volume holds the tree. Inodes outside the tree have no contents. -/
structure Holds (v : Volume) (t : DirTree) : Prop where
  sound : Sound v
  root : t.label = rootInode
  isDir : t.isBranch = true
  shown : Shown v t
  nodup : t.labels.Nodup
  stray : ∀ ino, ino < v.sb.inodeCount → ino ∉ t.labels → (v.inodes ino).size = 0

variable {children : List (Name × DirTree)} {face : Face Name Nat (List Byte)}

section

variable {v : Volume} {t s : DirTree}

variable {ino : Nat}

theorem Shows.inRange (h : Shows v ino face) : ino < v.sb.inodeCount := by
  cases face with
  | leaf data | branch listing => exact h.1

theorem Shows.names_nodup (h : Shows v ino face) : face.names.Nodup := by
  cases face with
  | leaf data => exact nodup_nil
  | branch listing => exact h.2.2.2.1

theorem Shown.distinct (h : Shown v t) : t.Distinct := fun x hx => (h x hx).names_nodup

theorem Shown.self (h : Shown v t) : Shows v t.label t.face := h _ t.face_mem_nodes

theorem Shown.below (h : Shown v (.branch ino children))
    {e : Name × DirTree} (he : e ∈ children) : Shown v e.2 := by
  obtain ⟨pre, post, rfl⟩ := append_of_mem he
  intro x hx
  exact h x (by simp [hx])

theorem Shown.child (h : Shown v t) {name : Name} (found : t.child name = .ok s) : Shown v s := by
  obtain ⟨ino, pre, post, rfl, -⟩ := Tree.child_eq_ok found
  exact h.below (mem_append_right pre mem_cons_self)

theorem Shown.lookup {path : List Name} (h : Shown v t) (found : t.lookup path = .ok s) : Shown v s := by
  obtain ⟨rest, hnodes, -⟩ := Tree.nodes_focus h.distinct found
  intro x hx
  exact h x (by rw [hnodes]; exact Multiset.mem_add.mpr (.inl hx))

theorem Shown.kind (h : Shown v t) :
    (v.inodes t.label).kind = if t.isBranch then kindDir else kindFile := by
  have hself := h.self
  cases t with
  | leaf ino data | branch ino children => exact hself.2.1

end

section

variable (profile : BuildProfile) {v : Volume} {t s : DirTree}

theorem readInode_label (shown : Shown v t) :
    (medium profile).readInode t.label v = (.ok (v.inodes t.label), v) :=
  readInode_run profile shown.self.inRange

def readListing (v : Volume) (listing : Listing) : List DirEntry :=
  listing.map fun e => ⟨e.2.1, (v.inodes e.2.1).kind = kindDir, e.1⟩

variable {ino : Nat} {listing : Listing}

private theorem entryLoop_run (g : Geometry v.sb) (shows : Shows v ino (.branch listing))
    (inRange : ∀ e ∈ listing, e.2.1 < v.sb.inodeCount) (pre post : Listing) (hsplit : listing = pre ++ post)
    (out : List DirEntry) :
    foldEach (upTo pre.length listing.length) out (fun out i => do
      let entry ← decode readEntry (slice (listingBytes listing) (i * dirEntrySize) dirEntrySize)
      if entry.1 ≠ 0 ∧ entry.2.1 ≤ nameMax then do
        let child ← (medium profile).readInode entry.1
        pure (out ++ [⟨entry.1, child.kind = kindDir, entry.2.2.take entry.2.1⟩])
      else pure out) v = (.ok (out ++ readListing v post), v) := by
  induction post generalizing pre out with
  | nil =>
    rw [append_nil] at hsplit
    rw [hsplit, upTo_nil le_rfl, foldEach, pure_run, readListing, map_nil, append_nil]
  | cons e post ih =>
    have hmem : e ∈ listing := by
      rw [hsplit]
      exact mem_append_right pre mem_cons_self
    obtain ⟨hroot, -, hshort⟩ := shows.2.2.2.2 e hmem
    have hsmall : e.2.1 < 2 ^ 32 := (inRange e hmem).trans g.count_lt
    have hpre : ∀ x ∈ pre.map fun e => (e.2.1, e.1), x.2.length ≤ nameMax := by
      intro x hx
      obtain ⟨e', he', rfl⟩ := mem_map.mp hx
      exact (shows.2.2.2.2 e' (by rw [hsplit]; exact mem_append_left _ he')).2.2
    have hslice : slice (listingBytes listing) (pre.length * dirEntrySize) dirEntrySize =
        entryBytes (e.2.1, e.1) := by
      have hlength : pre.length = (pre.map fun e => (e.2.1, e.1)).length := by rw [length_map]
      rw [hsplit, listingBytes, map_append, map_cons, hlength]
      exact slice_dirBytes hpre hshort
    have hstep : (do
        let entry ← decode readEntry (slice (listingBytes listing) (pre.length * dirEntrySize) dirEntrySize)
        if entry.1 ≠ 0 ∧ entry.2.1 ≤ nameMax then do
          let child ← (medium profile).readInode entry.1
          pure (out ++ [⟨entry.1, child.kind = kindDir, entry.2.2.take entry.2.1⟩])
        else pure out : Prog Volume FsError (List DirEntry)) v =
        (.ok (out ++ readListing v [e]), v) := by
      rw [hslice, readEntry_entryBytes hsmall hshort, bind_ok (pure_run _ v), if_pos ⟨hroot, hshort⟩]
      refine (bind_ok (readInode_run profile (inRange e hmem))).trans ?_
      rw [pure_run, take_left]
      rfl
    have hlength : pre.length < listing.length := by
      rw [hsplit, length_append, length_cons]
      omega
    have hrest := ih (pre ++ [e]) (by rw [hsplit, append_assoc]; rfl) (out ++ readListing v [e])
    rw [length_append, length_singleton] at hrest
    rw [upTo_cons hlength, foldEach, bind_ok hstep, hrest, append_assoc]
    rfl

theorem listingBytes_length (shows : Shows v ino (.branch listing)) :
    (listingBytes listing).length = listing.length * dirEntrySize := by
  rw [listingBytes, dirBytes_length, length_map]
  intro x hx
  obtain ⟨e, he, rfl⟩ := mem_map.mp hx
  exact (shows.2.2.2.2 e he).2.2

theorem readDirEntries_branch (sound : Sound v) (shows : Shows v ino (.branch listing))
    (inRange : ∀ e ∈ listing, e.2.1 < v.sb.inodeCount) :
    readDirEntries (medium profile) ino v = (.ok (readListing v listing), v) := by
  have hino := shows.1
  have hkind : (v.inodes ino).kind = kindDir := shows.2.1
  have hdata := readInodeData_run profile (sound.size _ hino) (sound.readable hino)
  rw [readDirEntries, bind_ok (readInode_run profile hino),
    bind_ok (rejectIf_neg (by rw [hkind]; decide) _ v), bind_ok hdata, shows.2.2.1,
    listingBytes_length shows, Nat.mul_div_cancel _ (by decide)]
  exact entryLoop_run profile sound.geometry shows inRange [] listing rfl []

theorem readDirEntries_leaf {data : List Byte} (shows : Shows v ino (.leaf data)) :
    readDirEntries (medium profile) ino v = (.err .wrongKind, v) := by
  have hkind : (v.inodes ino).kind = kindFile := shows.2.1
  rw [readDirEntries, bind_ok (readInode_run profile shows.1),
    bind_err (rejectIf_pos (by rw [hkind]; decide) _ v)]

theorem Shown.listing_inRange (shown : Shown v (.branch ino children)) :
    ∀ e ∈ Tree.listing children, e.2.1 < v.sb.inodeCount := by
  intro e he
  obtain ⟨c, hc, rfl⟩ := mem_map.mp he
  exact (shown.below hc).self.inRange

theorem Shown.readListing (shown : Shown v (.branch ino children)) :
    readListing v (Tree.listing children) = children.map entryOf := by
  rw [Directories.readListing, Tree.listing, map_map]
  refine map_congr_left fun e he => ?_
  have hkind : decide ((v.inodes e.2.label).kind = kindDir) = e.2.isBranch := by
    rw [(shown.below he).kind]
    cases e.2.isBranch <;> rfl
  simp only [Function.comp_apply, hkind]
  rfl

variable (sound : Sound v) (shown : Shown v t)

include sound shown

theorem readDirEntries_run : readDirEntries (medium profile) t.label v = (dirEntries t, v) := by
  cases t with
  | leaf ino data => exact readDirEntries_leaf profile shown.self
  | branch ino children =>
    rw [dirEntries, ← shown.readListing]
    exact readDirEntries_branch profile sound shown.self shown.listing_inRange

theorem dirLookup_run (name : Name) : dirLookup (medium profile) t.label name v =
      (answer (.ok ·.label) (t.child name), v) := by
  have hentries := readDirEntries_run profile sound shown
  cases t with
  | leaf ino data => exact bind_err hentries
  | branch ino children =>
    rw [dirLookup, bind_ok hentries, find?_map]
    have hsame : (fun e : DirEntry => decide (e.name = name)) ∘ entryOf =
        fun e => decide (e.1 = name) := rfl
    rw [hsame, Tree.child]
    cases children.find? fun e => decide (e.1 = name) with
    | none | some e => rfl

theorem walk_run (path : List Name) : foldEach path t.label (dirLookup (medium profile)) v =
      (answer (.ok ·.label) (t.lookup path), v) := by
  induction path generalizing t with
  | nil => rfl
  | cons name path ih =>
    have hstep := dirLookup_run profile sound shown name
    rw [foldEach, Tree.lookup]
    cases hchild : t.child name with
    | error m =>
      rw [hchild] at hstep
      exact bind_err hstep
    | ok s =>
      rw [hchild] at hstep
      exact (bind_ok hstep).trans (ih (shown.child hchild))

omit sound shown

variable (holds : Holds v t) (path : List Byte)

include holds

theorem resolve_run : resolve (medium profile) path v =
      (answer (.ok ·.label) (t.lookup (components path)), v) := by
  have hwalk := walk_run profile holds.sound holds.shown (components path)
  rwa [holds.root] at hwalk

theorem readFile_run :
    readFile (medium profile) path v = (answer fileData (t.lookup (components path)), v) := by
  have hresolve := resolve_run profile holds path
  cases hfound : t.lookup (components path) with
  | error m =>
    rw [hfound] at hresolve
    exact bind_err hresolve
  | ok s =>
    rw [hfound] at hresolve
    have hshown := holds.shown.lookup hfound
    refine (bind_ok hresolve).trans ((bind_ok (readInode_label profile hshown)).trans ?_)
    have hkind := hshown.kind
    have hself := hshown.self
    cases s with
    | branch ino children =>
      have hdir : (v.inodes (Tree.branch ino children : DirTree).label).kind = kindDir := hkind
      exact bind_err (rejectIf_pos (by rw [hdir]; decide) _ v)
    | leaf ino data =>
      have hfile : (v.inodes (Tree.leaf ino data : DirTree).label).kind = kindFile := hkind
      rw [bind_ok (rejectIf_neg (by rw [hfile]; decide) _ v),
        readInodeData_run profile (holds.sound.size _ hself.1) (holds.sound.readable hself.1)]
      exact congrArg (fun bytes => (Outcome.ok bytes, v)) hself.2.2

theorem listDir_run :
    listDir (medium profile) path v = (answer dirEntries (t.lookup (components path)), v) := by
  have hresolve := resolve_run profile holds path
  cases hfound : t.lookup (components path) with
  | error m =>
    rw [hfound] at hresolve
    exact bind_err hresolve
  | ok s =>
    rw [hfound] at hresolve
    exact (bind_ok hresolve).trans
      (readDirEntries_run profile holds.sound (holds.shown.lookup hfound))

theorem pathExists_run :
    pathExists (medium profile) path v = (.ok (t.lookup (components path)).isOk, v) := by
  have hresolve := resolve_run profile holds path
  rw [pathExists, bind_run, attempt, hresolve]
  cases t.lookup (components path) with
  | error m | ok s => rfl

omit holds path

theorem resolveParent_run (holds : Holds v t) {path : List Byte} {parents : List Name} {name : Name}
    (hpath : components path = parents ++ [name]) :
    resolveParent (medium profile) path v =
      (answer (fun s => .ok (s.label, name)) (t.lookup parents), v) := by
  have hwalk := walk_run profile holds.sound holds.shown parents
  rw [holds.root] at hwalk
  rw [resolveParent, hpath, getLast?_concat, dropLast_concat]
  cases hfound : t.lookup parents with
  | error m =>
    rw [hfound] at hwalk
    exact bind_err hwalk
  | ok s =>
    rw [hfound] at hwalk
    exact bind_ok hwalk

end

structure Answers {σ : Type} (M : Medium σ) (s : σ) (t : DirTree) : Prop where
  readFile : ∀ path, (readFile M path s).1 = answer fileData (t.lookup (components path))
  listDir : ∀ path, (listDir M path s).1 = answer dirEntries (t.lookup (components path))
  pathExists : ∀ path, (pathExists M path s).1 = .ok (t.lookup (components path)).isOk

end CibosPlatform.Kernel.Cibosfs.Directories

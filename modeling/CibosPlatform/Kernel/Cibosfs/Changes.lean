/- source: cibos-kernel/src/fs.rs
   digest: How the tree a volume holds changes with the contents of one inode. -/

import CibosPlatform.Kernel.Cibosfs.Directories

namespace CibosPlatform.Kernel.Cibosfs.Changes

open Core LittleEndian MachineWord NamedTree Core.Program.Prog Blocks List
open Device Directories Layout
open Operations Rewrite View Volume

variable {x : Nat × Face Name Nat (List Byte)}

section

variable {v v' : Volume} {t s : DirTree} {ino kind : Nat} {data : List Byte}

theorem shows_rewritten (sound : Sound v) (hino : ino < v.sb.inodeCount)
    (step : Rewritten v v' ino kind data) {other : Nat} {face : Face Name Nat (List Byte)}
    (hne : other ≠ ino) (shows : Shows v other face) : Shows v' other face := by
  have hcontents := step.contents_other sound hino shows.inRange hne
  have hinode := step.others other hne
  cases face with
  | leaf bytes =>
    obtain ⟨hrange, hkind, hbytes⟩ := shows
    refine ⟨by rwa [step.sb], by rwa [hinode], hcontents.trans hbytes⟩
  | branch listing =>
    obtain ⟨hrange, hkind, hbytes, hnames⟩ := shows
    exact ⟨by rwa [step.sb], by rwa [hinode], hcontents.trans hbytes, hnames⟩

theorem label_ne_of_rest {rest : Multiset (Nat × Face Name Nat (List Byte))}
    (nodup : t.labels.Nodup) (hnodes : t.nodes = s.nodes + rest)
    (hx : x ∈ rest) : x.1 ≠ s.label := by
  intro hsame
  rw [Tree.labels, hnodes, Multiset.map_add, Multiset.nodup_add] at nodup
  exact Multiset.disjoint_left.mp nodup.2.2 s.label_mem (hsame ▸ Multiset.mem_map_of_mem Prod.fst hx)

theorem holds_alter (holds : Holds v t) {path : List Name} (found : t.lookup path = .ok s)
    {f : DirTree → DirTree} (rooted : Tree.Rooted f) (step : Rewritten v v' s.label kind data)
    (small : data.length ≤ maxFileSize) (shown : Shown v' (f s)) (nodup : (t.alter f path).labels.Nodup)
    (stray : ∀ ino, ino < v.sb.inodeCount → ino ∉ (t.alter f path).labels → (v'.inodes ino).size = 0) :
    Holds v' (t.alter f path) := by
  have hlabel := (holds.shown.lookup found).self.inRange
  obtain ⟨rest, hnodes, hafter⟩ := Tree.nodes_focus holds.shown.distinct found
  refine ⟨step.sound holds.sound hlabel small, ?_, ?_, ?_, nodup, ?_⟩
  · rw [(rooted.alter path).label]
    exact holds.root
  · rw [(rooted.alter path).isBranch]
    exact holds.isDir
  · intro x hx
    rw [hafter f rooted, Multiset.mem_add] at hx
    rcases hx with hx | hx
    · exact shown x hx
    · have hold : x ∈ t.nodes := by
        rw [hnodes]
        exact Multiset.mem_add.mpr (.inr hx)
      exact shows_rewritten holds.sound hlabel step (label_ne_of_rest holds.nodup hnodes hx)
        (holds.shown x hold)
  · rw [step.sb]
    exact stray

theorem holds_outside (holds : Holds v t) (hino : ino < v.sb.inodeCount) (houtside : ino ∉ t.labels)
    (step : Rewritten v v' ino kind []) : Holds v' t where
  sound := step.sound holds.sound hino (Nat.zero_le _)
  root := holds.root
  isDir := holds.isDir
  shown := by
    intro x hx
    refine shows_rewritten holds.sound hino step (fun hsame => houtside ?_) (holds.shown x hx)
    exact hsame ▸ Multiset.mem_map_of_mem Prod.fst hx
  nodup := holds.nodup
  stray := by
    intro other hother hout
    rw [step.sb] at hother
    by_cases hne : other = ino
    · rw [hne]
      exact step.size
    · rw [step.others other hne]
      exact holds.stray other hother hout

theorem holds_claim (holds : Holds v t) (indices : List Nat) : Holds (claim v indices) t where
  sound := holds.sound.claim indices
  root := holds.root
  isDir := holds.isDir
  shown := by
    intro x hx
    have hshows := holds.shown x hx
    rcases x with ⟨ino, face⟩
    cases face with
    | leaf data | branch listing => exact hshows
  nodup := holds.nodup
  stray := holds.stray

end

/-- How many entries a directory can have, and how many of them one block has. -/
abbrev entriesMax : Nat := maxFileSize / dirEntrySize

abbrev entriesPerBlock : Nat := blockBytes / dirEntrySize

/-- A directory has room for a name: the name is short, the directory is not full, and a block is
free if its blocks are. -/
def Room (blocks : Nat) (name : Name) : DirTree → Prop
  | .leaf _ _ => False
  | .branch _ children => name.length ≤ nameMax ∧ children.length < entriesMax ∧
      (children.length % entriesPerBlock = 0 → 0 < blocks)

variable {children : List (Name × DirTree)}

section

variable (profile : BuildProfile) {v : Volume} {dir : Nat} (ino : Nat) {listing : Listing} {name : Name}

theorem contents_length {ino : Nat} (sound : Sound v) (hino : ino < v.sb.inodeCount) :
    (contents v (v.inodes ino)).length = (v.inodes ino).size := by
  have hblocks : ((used (v.inodes ino)).flatMap v.data).length =
      (v.inodes ino).blocksUsed * blockBytes := by
    rw [length_flatMap, map_congr_left fun p hp => (sound.readable hino p hp).2,
      map_const', sum_replicate_nat, sound.used_length hino]
  rw [contents, length_take, hblocks, min_eq_left]
  exact (divCeil_le_iff (by decide) _).mp le_rfl

theorem size_of_shows (sound : Sound v) (shows : Shows v dir (.branch listing)) :
    (v.inodes dir).size = listing.length * dirEntrySize := by
  rw [← contents_length sound shows.1, shows.2.2.1, listingBytes_length shows]

private theorem slots_short (shows : Shows v dir (.branch listing)) :
    ∀ x ∈ listing.map fun e => (e.2.1, e.1), x.2.length ≤ nameMax := by
  intro x hx
  obtain ⟨e, he, rfl⟩ := mem_map.mp hx
  exact (shows.2.2.2.2 e he).2.2

private theorem readListing_slots :
    (readListing v listing).map (fun e => (e.inode, e.name)) = listing.map fun e => (e.2.1, e.1) := by
  rw [readListing, map_map]
  rfl

def grownBytes (listing : Listing) (ino : Nat) (name : Name) : List Byte :=
  dirBytes ((listing.map fun e => (e.2.1, e.1)) ++ [(ino, name)])

theorem grownBytes_length (shows : Shows v dir (.branch listing)) (short : name.length ≤ nameMax) :
    (grownBytes listing ino name).length = (listing.length + 1) * dirEntrySize := by
  rw [grownBytes, dirBytes_length, length_append, length_map, length_singleton]
  intro x hx
  rcases mem_append.mp hx with hx | hx
  · exact slots_short shows x hx
  · rw [mem_singleton.mp hx]
    exact short

section

variable (shows : Shows v dir (.branch (Tree.listing children))) (short : name.length ≤ nameMax)

include shows short

theorem grownBytes_blocks (sound : Sound v) :
    (v.inodes dir).blocksUsed ≤ blocksFor (grownBytes (Tree.listing children) ino name) ∧
      blocksFor (grownBytes (Tree.listing children) ino name) - (v.inodes dir).blocksUsed =
        if children.length % entriesPerBlock = 0 then 1 else 0 := by
  rw [blocksFor, grownBytes_length ino shows short, Inode.blocksUsed, size_of_shows sound shows, Tree.listing,
    length_map]
  simp only [divCeil, dirEntrySize, blockBytes, entriesPerBlock]
  split <;> omega

theorem grownBytes_fits_iff :
    (grownBytes (Tree.listing children) ino name).length ≤ maxFileSize ↔ children.length < entriesMax := by
  rw [grownBytes_length ino shows short, Tree.listing, length_map]
  simp only [entriesMax, maxFileSize, dirEntrySize]
  omega

end

theorem dirAdd_long (long : nameMax < name.length) :
    dirAdd (medium profile) dir ino name v = (.err .tooLarge, v) := by
  rw [dirAdd, bind_err (rejectIf_pos long _ v)]

theorem dirAdd_eq (sound : Sound v) (shows : Shows v dir (.branch listing))
    (inRange : ∀ e ∈ listing, e.2.1 < v.sb.inodeCount) (short : name.length ≤ nameMax) :
    dirAdd (medium profile) dir ino name v =
      writeInodeData (medium profile) dir (v.inodes dir) (grownBytes listing ino name) v := by
  have hshort : ∀ x ∈ (listing.map fun e => (e.2.1, e.1)) ++ [(ino, name)], x.2.length ≤ nameMax := by
    intro x hx
    rcases mem_append.mp hx with hx | hx
    · exact slots_short shows x hx
    · rw [mem_singleton.mp hx]
      exact short
  rw [dirAdd, bind_ok (rejectIf_neg (not_lt.mpr short) _ v),
    bind_ok (readDirEntries_branch profile sound shows inRange), readListing_slots, encodeDir_eq hshort,
    bind_ok (pure_run _ v), bind_ok (readInode_run profile shows.1)]
  rfl

theorem dirAdd_fail {s : DirTree} (sound : Sound v) (shown : Shown v s)
    (full : ¬ Room (free v).length name s) :
    ∃ e, dirAdd (medium profile) s.label ino name v = (.err e, v) := by
  by_cases hlong : nameMax < name.length
  · exact ⟨_, dirAdd_long profile ino hlong⟩
  have hshort := not_lt.mp hlong
  cases s with
  | leaf file data =>
    refine ⟨.wrongKind, ?_⟩
    rw [dirAdd, bind_ok (rejectIf_neg hlong _ v)]
    exact bind_err (readDirEntries_leaf profile shown.self)
  | branch dir children =>
    have hshows : Shows v dir (.branch (Tree.listing children)) := shown.self
    have hfits := grownBytes_fits_iff ino hshows hshort
    have heq := dirAdd_eq profile ino sound hshows shown.listing_inRange hshort
    by_cases hmany : children.length < entriesMax
    · -- the name is short and an entry is left, so a block is needed and none is free
      have hneeded : children.length % entriesPerBlock = 0 ∧ (free v).length = 0 := by
        by_contra hroom
        refine full ⟨hshort, hmany, fun hblock => ?_⟩
        by_contra hnone
        exact hroom ⟨hblock, by omega⟩
      have hblocks := (grownBytes_blocks ino hshows hshort sound).2
      rw [if_pos hneeded.1] at hblocks
      have hfail := writeInodeData_fail profile sound (hfits.mpr hmany)
        (by rw [hblocks, hneeded.2]; exact Nat.one_pos)
      rw [length_eq_zero_iff.mp hneeded.2, claim_nil] at hfail
      exact ⟨.noSpace, heq.trans hfail⟩
    · exact ⟨.tooLarge, heq.trans (writeInodeData_large profile (not_le.mp (mt hfits.mp hmany)))⟩

theorem dirAdd_run (sound : Sound v)
    (shown : Shown v (.branch dir children)) (room : Room (free v).length name (.branch dir children)) :
    ∃ v', dirAdd (medium profile) dir ino name v = (.ok (), v') ∧
      Rewritten v v' dir kindDir (grownBytes (Tree.listing children) ino name) := by
  obtain ⟨hshort, hmany, hblock⟩ := room
  have hshows : Shows v dir (.branch (Tree.listing children)) := shown.self
  have hblocks := (grownBytes_blocks ino hshows hshort sound).2
  have hsmall := (grownBytes_fits_iff ino hshows hshort).mpr hmany
  obtain ⟨v', hrun, hstep⟩ := writeInodeData_run profile sound hshows.1 hsmall (by
    rw [hblocks]
    split
    · exact hblock ‹_›
    · exact Nat.zero_le _)
  rw [hshows.2.1] at hstep
  exact ⟨v', (dirAdd_eq profile ino sound hshows shown.listing_inRange hshort).trans hrun, hstep⟩

private theorem readListing_filter : ((readListing v listing).filter fun e => e.name ≠ name) =
      readListing v (listing.filter fun e => e.1 ≠ name) := by
  rw [readListing, readListing, filter_map]
  rfl

theorem dirRemove_run (sound : Sound v) (shows : Shows v dir (.branch listing))
    (inRange : ∀ e ∈ listing, e.2.1 < v.sb.inodeCount)
    (hlisted : name ∈ listing.map Prod.fst) :
    (listingBytes (listing.filter fun e => e.1 ≠ name)).length ≤ maxFileSize ∧
    ∃ v', dirRemove (medium profile) dir name v = (.ok (), v') ∧
      Rewritten v v' dir kindDir (listingBytes (listing.filter fun e => e.1 ≠ name)) := by
  have hlength : (listing.filter fun e => e.1 ≠ name).length < listing.length := by
    obtain ⟨e, he, hname⟩ := mem_map.mp hlisted
    rw [length_filter_lt_length_iff_exists]
    exact ⟨e, he, by simp [hname]⟩
  have hshort : ∀ x ∈ (listing.filter fun e => e.1 ≠ name).map fun e => (e.2.1, e.1),
      x.2.length ≤ nameMax := by
    intro x hx
    obtain ⟨e, he, rfl⟩ := mem_map.mp hx
    exact (shows.2.2.2.2 e (mem_filter.mp he).1).2.2
  have hbytes : (listingBytes (listing.filter fun e => e.1 ≠ name)).length =
      (listing.filter fun e => e.1 ≠ name).length * dirEntrySize := by
    rw [listingBytes, dirBytes_length hshort, length_map]
  have hsize := size_of_shows sound shows
  have hmax := sound.size dir shows.1
  have hroom : blocksFor (listingBytes (listing.filter fun e => e.1 ≠ name)) -
      (v.inodes dir).blocksUsed ≤ (free v).length := by
    rw [blocksFor, hbytes, Inode.blocksUsed, hsize]
    simp only [divCeil, dirEntrySize, blockBytes]
    omega
  have hsmall : (listingBytes (listing.filter fun e => e.1 ≠ name)).length ≤ maxFileSize := by
    rw [hsize] at hmax
    rw [hbytes]
    exact (Nat.mul_le_mul_right _ hlength.le).trans hmax
  obtain ⟨v', hrun, hstep⟩ := writeInodeData_run profile sound shows.1 hsmall hroom
  rw [shows.2.1] at hstep
  refine ⟨hsmall, v', ?_, hstep⟩
  have hkept : ((readListing v listing).filter fun e => e.name ≠ name).map (fun e => (e.inode, e.name)) =
      (listing.filter fun e => e.1 ≠ name).map fun e => (e.2.1, e.1) := by
    rw [readListing_filter, readListing_slots]
  have hfewer : ¬ (((readListing v listing).filter fun e => e.name ≠ name).map
      fun e => (e.inode, e.name)).length = (readListing v listing).length := by
    rw [hkept, length_map, readListing, length_map]
    omega
  rw [dirRemove, bind_ok (readDirEntries_branch profile sound shows inRange),
    bind_ok (rejectIf_neg hfewer _ v), hkept, encodeDir_eq hshort, bind_ok (pure_run _ v),
    bind_ok (readInode_run profile shows.1)]
  exact hrun

end

def bareNode : Bool → Nat → DirTree
  | true, ino => .branch ino []
  | false, ino => .leaf ino []

def kindOf : Bool → Nat
  | true => kindDir
  | false => kindFile

variable (isDir : Bool)

section

variable {v v' : Volume} {t : DirTree} {path : List Name} {dir ino : Nat} {name : Name}

theorem bareNode_label (ino : Nat) : (bareNode isDir ino).label = ino := by cases isDir <;> rfl

theorem bareNode_nodes (ino : Nat) :
    (bareNode isDir ino).nodes = {(ino, (bareNode isDir ino).face)} := by
  cases isDir <;> simp [bareNode, Tree.face]

theorem bareNode_labels (ino : Nat) : (bareNode isDir ino).labels = {ino} := by
  rw [Tree.labels, bareNode_nodes, Multiset.map_singleton]

theorem bareNode_shows {isDir : Bool} (hino : ino < v.sb.inodeCount)
    (hinode : v.inodes ino = .empty (kindOf isDir)) : Shows v ino (bareNode isDir ino).face := by
  have hcontents : contents v (v.inodes ino) = [] := by
    rw [contents, hinode]
    exact take_zero
  cases isDir with
  | false => exact ⟨hino, by rw [hinode]; rfl, hcontents⟩
  | true => exact ⟨hino, by rw [hinode]; rfl, hcontents, nodup_nil, fun e he => absurd he not_mem_nil⟩

private theorem label_ne_of_below (nodup : (Tree.branch dir children : DirTree).labels.Nodup)
    (hx : x ∈ Tree.nodesOf children) : x.1 ≠ dir := by
  intro hsame
  rw [Tree.labels, Tree.nodes_branch, Multiset.map_cons, Multiset.nodup_cons] at nodup
  have hmem := Multiset.mem_map_of_mem Prod.fst hx
  rw [hsame] at hmem
  exact nodup.1 hmem

theorem labels_nodup_of_lookup {s : DirTree} (holds : Holds v t) (found : t.lookup path = .ok s) :
    s.labels.Nodup ∧ ∀ i ∈ s.labels, i ∈ t.labels := by
  obtain ⟨rest, hnodes, -⟩ := Tree.nodes_focus holds.shown.distinct found
  have hlabels : t.labels = s.labels + rest.map Prod.fst := by
    rw [Tree.labels, hnodes, Multiset.map_add, Tree.labels]
  have hnodup := holds.nodup
  rw [hlabels, Multiset.nodup_add] at hnodup
  refine ⟨hnodup.1, fun i hi => ?_⟩
  rw [hlabels]
  exact Multiset.mem_add.mpr (.inl hi)

theorem holds_addChild (holds : Holds v t)
    (found : t.lookup path = .ok (.branch dir children)) (hnew : name ∉ children.map Prod.fst)
    (hname : name ≠ [] ∧ name.length ≤ nameMax) {isDir : Bool} (hroot : ino ≠ rootInode)
    (houtside : ino ∉ t.labels) (hino : ino < v.sb.inodeCount)
    (hinode : v.inodes ino = .empty (kindOf isDir))
    (step : Rewritten v v' dir kindDir (grownBytes (Tree.listing children) ino name))
    (small : (grownBytes (Tree.listing children) ino name).length ≤ maxFileSize) :
    Holds v' (t.alter (Tree.addChild name (bareNode isDir ino)) path) := by
  have hshown := holds.shown.lookup found
  have hself := hshown.self
  obtain ⟨hnodup, hsub⟩ := labels_nodup_of_lookup holds found
  have hdir : dir ∈ t.labels := hsub _ (Tree.label_mem _)
  have hlabels := Tree.labels_addChild holds.shown.distinct found name (bareNode isDir ino)
  rw [bareNode_labels] at hlabels
  refine holds_alter holds found (.addChild name _) step small ?_ ?_ ?_
  · intro x hx
    rw [Tree.addChild, Tree.nodes_branch, Tree.nodesOf_append, Multiset.mem_cons, Multiset.mem_add] at hx
    rcases hx with rfl | hx | hx
    · have hlisting : Tree.listing (children ++ [(name, bareNode isDir ino)]) =
          Tree.listing children ++ [(name, ino, (bareNode isDir ino).isBranch)] := by
        rw [Tree.listing, map_append, ← Tree.listing, map_singleton, bareNode_label]
      have hnames : (Tree.listing children).map Prod.fst = children.map Prod.fst := by
        simp [Tree.listing, Function.comp_def]
      refine ⟨by rw [step.sb]; exact hself.1, step.kind, ?_, ?_, ?_⟩
      · rw [step.holds, hlisting, listingBytes, map_append, map_singleton, grownBytes]
      · rw [hlisting, map_append, map_singleton, nodup_append, hnames]
        refine ⟨hnames ▸ hself.2.2.2.1, nodup_singleton _, ?_⟩
        rintro a ha b hb rfl
        rw [mem_singleton.mp hb] at ha
        exact hnew ha
      · intro e he
        rw [hlisting] at he
        rcases mem_append.mp he with he | he
        · exact hself.2.2.2.2 e he
        · rw [mem_singleton.mp he]
          exact ⟨hroot, hname⟩
    · refine shows_rewritten holds.sound hself.1 step (label_ne_of_below hnodup hx) (hshown x ?_)
      rw [Tree.nodes_branch]
      exact Multiset.mem_cons_of_mem hx
    · rw [Tree.nodesOf_cons, Tree.nodesOf_nil, add_zero, bareNode_nodes, Multiset.mem_singleton] at hx
      rw [hx]
      have hne : ino ≠ dir := fun hsame => houtside (hsame ▸ hdir)
      exact shows_rewritten holds.sound hself.1 step hne (bareNode_shows hino hinode)
  · rw [hlabels, Multiset.singleton_add, Multiset.nodup_cons]
    exact ⟨houtside, holds.nodup⟩
  · intro other hother hout
    rw [hlabels, Multiset.singleton_add, Multiset.mem_cons, not_or] at hout
    have hne : other ≠ dir := fun hsame => hout.2 (hsame ▸ hdir)
    rw [step.others other hne]
    exact holds.stray other hother hout.2

theorem holds_setPayload (holds : Holds v t) {old data : List Byte}
    (found : t.lookup path = .ok (.leaf ino old)) (step : Rewritten v v' ino kindFile data)
    (small : data.length ≤ maxFileSize) : Holds v' (t.alter (Tree.setPayload data) path) := by
  have hshown := holds.shown.lookup found
  have hself : Shows v ino (.leaf old) := hshown.self
  have hmem : ino ∈ t.labels := (labels_nodup_of_lookup holds found).2 _ (Tree.label_mem _)
  have hlabels := Tree.labels_setPayload holds.shown.distinct found data
  refine holds_alter holds found (.setPayload data) step small ?_ ?_ ?_
  · intro x hx
    rw [Tree.setPayload, Tree.nodes_leaf, Multiset.mem_singleton] at hx
    rw [hx]
    exact ⟨by rw [step.sb]; exact hself.1, step.kind, step.holds⟩
  · rw [hlabels]
    exact holds.nodup
  · intro other hother hout
    rw [hlabels] at hout
    have hne : other ≠ ino := fun hsame => hout (hsame ▸ hmem)
    rw [step.others other hne]
    exact holds.stray other hother hout

variable {pre post : List (Name × DirTree)}

private theorem listing_dropChild {child : DirTree}
    (distinct : ((pre ++ (name, child) :: post).map Prod.fst).Nodup) :
    (Tree.listing (pre ++ (name, child) :: post)).filter (·.1 ≠ name) = Tree.listing (pre ++ post) := by
  have hdrop := Tree.dropChild_middle (i := 0) distinct
  rw [Tree.dropChild, Tree.branch.injEq] at hdrop
  rw [← hdrop.2, Tree.listing, filter_map]
  rfl

private theorem shows_filter {v1 : Volume} {listing : List (Name × Nat × Bool)} {keep : Name × Nat × Bool → Bool}
    (shows : Shows v dir (.branch listing)) (sb : v1.sb = v.sb)
    (step : Rewritten v1 v' dir kindDir (listingBytes (listing.filter keep))) :
    Shows v' dir (.branch (listing.filter keep)) := by
  refine ⟨by rw [step.sb, sb]; exact shows.1, step.kind, step.holds, ?_, fun e he => ?_⟩
  · exact (filter_sublist.map Prod.fst).nodup shows.2.2.2.1
  · exact shows.2.2.2.2 e (mem_filter.mp he).1

private theorem node_of_dropChild (holds : Holds v t) {child : DirTree}
    (found : t.lookup path = .ok (.branch dir (pre ++ (name, child) :: post)))
    (distinct : ((pre ++ (name, child) :: post).map Prod.fst).Nodup)
    (hx : x ∈ (t.alter (Tree.dropChild name) path).nodes) :
    x = (dir, .branch (Tree.listing (pre ++ post))) ∨ x ∈ t.nodes ∧ x.1 ≠ dir := by
  obtain ⟨hnodup, -⟩ := labels_nodup_of_lookup holds found
  obtain ⟨rest, hnodes, hafter⟩ := Tree.nodes_focus holds.shown.distinct found
  rw [hafter _ (.dropChild name), Tree.dropChild_middle distinct, Tree.nodes_branch, Tree.nodesOf_append,
    Multiset.cons_add, Multiset.mem_cons, Multiset.mem_add, Multiset.mem_add] at hx
  rcases hx with hself | hbelow | hrest
  · exact .inl hself
  · have hmem : x ∈ Tree.nodesOf (pre ++ (name, child) :: post) := by
      rw [Tree.nodesOf_append, Tree.nodesOf_cons, Multiset.mem_add, Multiset.mem_add]
      exact hbelow.imp_right .inr
    refine .inr ⟨?_, label_ne_of_below hnodup hmem⟩
    rw [hnodes, Tree.nodes_branch]
    exact Multiset.mem_add.mpr (.inl (Multiset.mem_cons_of_mem hmem))
  · refine .inr ⟨?_, label_ne_of_rest holds.nodup hnodes hrest⟩
    rw [hnodes]
    exact Multiset.mem_add.mpr (.inr hrest)

theorem holds_dropChild (holds : Holds v t) {data : List Byte} {v1 : Volume}
    (found : t.lookup path = .ok (.branch dir (pre ++ (name, .leaf ino data) :: post)))
    (erase : Rewritten v v1 ino kindFree [])
    (step : Rewritten v1 v' dir kindDir (listingBytes
      ((Tree.listing (pre ++ (name, .leaf ino data) :: post)).filter fun e => e.1 ≠ name)))
    (small : (listingBytes ((Tree.listing (pre ++ (name, .leaf ino data) :: post)).filter
      fun e => e.1 ≠ name)).length ≤ maxFileSize) :
    Holds v' (t.alter (Tree.dropChild name) path) := by
  have hshown := holds.shown.lookup found
  have hself := hshown.self
  obtain ⟨hnodup, hsub⟩ := labels_nodup_of_lookup holds found
  have hnames := hshown.distinct.children
  have hfile : Shows v ino (.leaf data) := (hshown.below (mem_append_right pre mem_cons_self)).self
  have hlabels := Tree.labels_dropChild holds.shown.distinct hnames found
  have hleaf : (Tree.leaf ino data : DirTree).labels = {ino} := by
    rw [Tree.labels, Tree.nodes_leaf, Multiset.map_singleton]
  rw [hleaf, Multiset.singleton_add] at hlabels
  have hall := holds.nodup
  rw [hlabels, Multiset.nodup_cons] at hall
  have hne : dir ≠ ino := by
    intro hsame
    have hbelow : (ino, Face.leaf data) ∈ Tree.nodesOf (pre ++ (name, .leaf ino data) :: post) := by
      simp
    exact label_ne_of_below hnodup hbelow hsame.symm
  have hsound1 := erase.sound holds.sound hfile.1 (Nat.zero_le _)
  have hdir1 : dir < v1.sb.inodeCount := by
    rw [erase.sb]
    exact hself.1
  have hself' := shows_filter hself erase.sb step
  rw [listing_dropChild hnames] at hself'
  refine ⟨step.sound hsound1 hdir1 small, ?_, ?_, ?_, hall.2, ?_⟩
  · rw [((Tree.Rooted.dropChild name).alter path).label]
    exact holds.root
  · rw [((Tree.Rooted.dropChild name).alter path).isBranch]
    exact holds.isDir
  · -- all nodes but the directory are as they were, and none of them is the removed file
    intro x hx
    rcases node_of_dropChild holds found hnames hx with rfl | ⟨hbefore, hdir⟩
    · exact hself'
    · have hino : x.1 ≠ ino := by
        intro hsame
        exact hall.1 (hsame ▸ Multiset.mem_map_of_mem Prod.fst hx)
      exact shows_rewritten hsound1 hdir1 step hdir
        (shows_rewritten holds.sound hfile.1 erase hino (holds.shown x hbefore))
  · intro other hother hout
    rw [step.sb, erase.sb] at hother
    have hdir : other ≠ dir := by
      rintro rfl
      refine hout ?_
      have hlabel : other ∈ t.labels := hsub _ (Tree.label_mem _)
      rw [hlabels, Multiset.mem_cons] at hlabel
      exact hlabel.resolve_left hne
    rw [step.others other hdir]
    by_cases hsame : other = ino
    · rw [hsame]
      exact erase.size
    · rw [erase.others other hsame]
      refine holds.stray other hother ?_
      rw [hlabels, Multiset.mem_cons, not_or]
      exact ⟨hsame, hout⟩

end

end CibosPlatform.Kernel.Cibosfs.Changes

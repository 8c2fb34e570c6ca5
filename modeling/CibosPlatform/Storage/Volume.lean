/- source: cibos-sdk/src/fs.rs, storage/src/lib.rs
   digest: The in-memory filesystem, volumes over a partition image, and what a reboot restores. -/

import CibosPlatform.Core.Maps
import CibosPlatform.Core.Utf8
import Mathlib.Data.String.Basic
import CibosPlatform.Shared.Serialization

/-! Texts are compared by their bytes in the source and by their characters here; UTF-8 keeps the order. -/

namespace CibosPlatform.Sdk.Filesystem

open Core LittleEndian Maps Utf8 SortedMap

abbrev Files := SortedMap String (List Byte)

def isQuote (c : Char) : Bool := c.toNat = 0x27 || c.toNat = 0x22

def isValidPath (path : String) : Bool :=
  !path.isEmpty && !path.toList.any isWhitespace && !path.toList.any isQuote

namespace Files

def new : Files := empty

variable (files : Files)

def write (path : String) (data : List Byte) : Bool × Files :=
  if isValidPath path then (true, files.insert path data) else (false, files)

def read (path : String) : Option (List Byte) := files.get? path

def delete (path : String) : Bool × Files :=
  ((files.get? path).isSome, files.erase path)

/-- The keys of the map come in order; sorting them again changes nothing. -/
def allKeys : List String := files.entries.map Prod.fst

theorem read_write (path other : String) (data : List Byte) : (files.write path data).2.read other =
      if isValidPath path ∧ other = path then some data else files.read other := by
  by_cases hvalid : isValidPath path
  · simp [write, read, hvalid, get?_insert]
  · simp [write, read, hvalid]

theorem read_delete (path other : String) :
    (files.delete path).2.read other = if other = path then none else files.read other :=
  get?_erase files path other

theorem mem_allKeys {files : Files} {path : String} :
    path ∈ files.allKeys ↔ ∃ data, files.read path = some data := by
  simp only [allKeys, List.mem_map, Prod.exists, exists_and_right, exists_eq_right, read,
    mem_entries]

end Files

end CibosPlatform.Sdk.Filesystem

/-! The partition holds one sequence of entries; a path length of zero ends it, and so does everything that
does not decode. -/

namespace CibosPlatform.Storage.Volume

open Core LittleEndian Maps Utf8 Sdk.Filesystem Shared.Serialization List

inductive PersistenceMode where
  | live
  | persistent
  deriving DecidableEq

abbrev Entry := String × List Byte

/-- Both lengths are cast to `u32`. -/
def entryBytes (entry : Entry) : List Byte :=
  toLE 4 (byteLen entry.1 % 2 ^ 32) ++ toBytes entry.1 ++ toLE 4 (entry.2.length % 2 ^ 32) ++ entry.2

def serializeEntries (entries : List Entry) : List Byte := entries.flatMap entryBytes

/-- One round of the loop of `deserialize_entries`: the entry at `i` and the position behind it, or
`none` where the loop is left. -/
def nextEntry (blob : List Byte) (i : Nat) : Option (Entry × Nat) :=
  if i + 4 ≤ blob.length then
    let plen := ofLE (slice blob i 4)
    let i := i + 4
    if plen = 0 ∨ blob.length < i + plen + 4 then none
    else
      match fromBytes (slice blob i plen) with
      | none => none
      | some path =>
        let i := i + plen
        let dlen := ofLE (slice blob i 4)
        let i := i + 4
        if blob.length < i + dlen then none else some ((path, slice blob i dlen), i + dlen)
  else none

variable {blob : List Byte}

variable {i j : Nat} {entry : Entry}

theorem nextEntry_eq_some (h : nextEntry blob i = some (entry, j)) :
    ∃ plen dlen, plen = ofLE (slice blob i 4) ∧ dlen = ofLE (slice blob (i + 4 + plen) 4) ∧
      fromBytes (slice blob (i + 4) plen) = some entry.1 ∧
      entry.2 = slice blob (i + 4 + plen + 4) dlen ∧ j = i + 4 + plen + 4 + dlen ∧
      j ≤ blob.length := by
  rw [nextEntry] at h
  split at h
  · dsimp only at h
    split at h
    · cases h
    · split at h
      · cases h
      · rename_i path hpath
        split at h
        · cases h
        · rename_i hdata
          obtain ⟨rfl, rfl⟩ := Prod.mk.inj (Option.some.inj h)
          exact ⟨_, _, rfl, rfl, hpath, rfl, rfl, not_lt.mp hdata⟩
  · cases h

theorem nextEntry_after (h : nextEntry blob i = some (entry, j)) : i < j ∧ j ≤ blob.length := by
  obtain ⟨plen, dlen, -, -, -, -, hj, hend⟩ := nextEntry_eq_some h
  omega

def entriesFrom (blob : List Byte) (i : Nat) : List Entry :=
  match _next : nextEntry blob i with
  | none => []
  | some (entry, j) => entry :: entriesFrom blob j
termination_by blob.length - i
decreasing_by
  have hafter := nextEntry_after _next
  omega

def deserializeEntries (blob : List Byte) : List Entry := entriesFrom blob 0

/-- A mounted volume. `store` tells whether it holds on to the partition of the machine. -/
structure MountedVolume where
  fs : Files
  mode : PersistenceMode
  store : Bool

structure Machine where
  volume : MountedVolume
  partition : List Byte

/-- In the live mode the partition is neither read nor retained. -/
def boot (mode : PersistenceMode) (partition : List Byte) : Machine :=
  match mode with
  | .persistent =>
    ⟨⟨(deserializeEntries partition).foldl (fun fs entry => (fs.write entry.1 entry.2).2) Files.new,
      mode, true⟩, partition⟩
  | .live => ⟨⟨Files.new, mode, false⟩, partition⟩

def snapshot (fs : Files) : List Entry :=
  fs.allKeys.filterMap fun path => (fs.read path).map fun data => (path, data)

variable (machine : Machine)

def sync : Machine :=
  if machine.volume.store then
    { machine with partition := serializeEntries (snapshot machine.volume.fs) }
  else machine

/-- Every file is overwritten with zeros before it is removed. -/
def wipeRam (fs : Files) : Files :=
  fs.allKeys.foldl (fun fs path =>
    let zeroed := match fs.read path with
      | some data => (fs.write path (List.replicate data.length 0)).2
      | none => fs
    (zeroed.delete path).2) fs

def shutdown : Machine :=
  let machine := if machine.volume.mode = .persistent then sync machine else machine
  { machine with volume := { machine.volume with fs := wipeRam machine.volume.fs } }

inductive Call where
  | write (path : String) (data : List Byte)
  | delete (path : String)
  | sync

def Call.run : Call → Machine
  | write path data =>
    { machine with volume := { machine.volume with fs := (machine.volume.fs.write path data).2 } }
  | delete path =>
    { machine with volume := { machine.volume with fs := (machine.volume.fs.delete path).2 } }
  | sync => Volume.sync machine

def session (mode : PersistenceMode) (partition : List Byte) (calls : List Call) : Machine :=
  calls.foldl Call.run (boot mode partition)

variable {entries : List Entry}

theorem entriesFrom_of_none (h : nextEntry blob i = none) : entriesFrom blob i = [] := by
  rw [entriesFrom]
  split
  · rfl
  · rename_i entry j hsome
    rw [h] at hsome
    cases hsome

theorem entriesFrom_of_some
    (h : nextEntry blob i = some (entry, j)) : entriesFrom blob i = entry :: entriesFrom blob j := by
  rw [entriesFrom]
  split
  · rename_i hnone
    rw [h] at hnone
    cases hnone
  · rename_i entry' j' hsome
    rw [h] at hsome
    obtain ⟨rfl, rfl⟩ := Prod.mk.inj (Option.some.inj hsome)
    rfl

structure Storable (entry : Entry) : Prop where
  named : entry.1 ≠ ""
  path : byteLen entry.1 < 2 ^ 32
  data : entry.2.length < 2 ^ 32

theorem nextEntry_entryBytes (storable : Storable entry) (pre rest : List Byte) :
    nextEntry (pre ++ entryBytes entry ++ rest) pre.length =
      some (entry, (pre ++ entryBytes entry).length) := by
  obtain ⟨path, data⟩ := entry
  obtain ⟨hnamed, hpath, hdata⟩ := storable
  dsimp only at hnamed hpath hdata
  have hlen : (pre ++ entryBytes (path, data)).length =
      pre.length + 4 + byteLen path + 4 + data.length := by
    simp only [entryBytes, length_append, toLE_length, toBytes_length]
    omega
  have hnonzero : byteLen path ≠ 0 := fun hzero => hnamed (String.utf8ByteSize_eq_zero_iff.mp hzero)
  have hparts : pre ++ entryBytes (path, data) ++ rest =
      pre ++ toLE 4 (byteLen path) ++ toBytes path ++ toLE 4 data.length ++ data ++ rest := by
    simp only [entryBytes, Nat.mod_eq_of_lt hpath, Nat.mod_eq_of_lt hdata, append_assoc]
  have htotal : (pre ++ entryBytes (path, data) ++ rest).length =
      pre.length + 4 + byteLen path + 4 + data.length + rest.length := by
    rw [length_append, hlen]
  rw [hlen]
  generalize pre ++ entryBytes (path, data) ++ rest = blob at hparts htotal ⊢
  -- the four fields, each at the end of the ones before it
  have hplen : slice blob pre.length 4 = toLE 4 (byteLen path) := by
    apply slice_eq_of_parts pre (toBytes path ++ toLE 4 data.length ++ data ++ rest)
    · simp only [hparts, append_assoc]
    · rfl
    · rw [toLE_length]
  have hpathBytes : slice blob (pre.length + 4) (byteLen path) = toBytes path := by
    apply slice_eq_of_parts (pre ++ toLE 4 (byteLen path)) (toLE 4 data.length ++ data ++ rest)
    · simp only [hparts, append_assoc]
    · rw [length_append, toLE_length]
    · rw [toBytes_length]
  have hdlen : slice blob (pre.length + 4 + byteLen path) 4 = toLE 4 data.length := by
    apply slice_eq_of_parts (pre ++ toLE 4 (byteLen path) ++ toBytes path) (data ++ rest)
    · simp only [hparts, append_assoc]
    · rw [length_append, length_append, toLE_length, toBytes_length]
    · rw [toLE_length]
  have hdataBytes : slice blob (pre.length + 4 + byteLen path + 4) data.length = data := by
    apply slice_eq_of_parts
      (pre ++ toLE 4 (byteLen path) ++ toBytes path ++ toLE 4 data.length) rest hparts
    · simp only [length_append, toLE_length, toBytes_length]
    · rfl
  rw [nextEntry, if_pos (by omega)]
  rw [hplen, ofLE_toLE (lt_u32_iff.mpr hpath), if_neg (by omega), hpathBytes, fromBytes_toBytes]
  dsimp only
  rw [hdlen, ofLE_toLE (lt_u32_iff.mpr hdata), if_neg (by omega), hdataBytes]

theorem entriesFrom_serializeEntries (storable : ∀ e ∈ entries, Storable e) (pre : List Byte) :
    entriesFrom (pre ++ serializeEntries entries) pre.length = entries := by
  induction entries generalizing pre with
  | nil =>
    apply entriesFrom_of_none
    rw [nextEntry, if_neg]
    simp [serializeEntries]
  | cons entry entries ih =>
    obtain ⟨hentry, hentries⟩ := forall_mem_cons.mp storable
    have hnext := nextEntry_entryBytes hentry pre (serializeEntries entries)
    have hrest := ih hentries (pre ++ entryBytes entry)
    have hblob : pre ++ serializeEntries (entry :: entries) =
        pre ++ entryBytes entry ++ serializeEntries entries := by
      rw [serializeEntries, flatMap_cons, append_assoc]
      rfl
    rw [hblob, entriesFrom_of_some hnext, hrest]

theorem deserializeEntries_serializeEntries (storable : ∀ e ∈ entries, Storable e) :
    deserializeEntries (serializeEntries entries) = entries := by
  have h := entriesFrom_serializeEntries storable []
  rwa [nil_append, length_nil] at h

theorem ofLE_slice_lt (blob : List Byte) (i : Nat) : ofLE (slice blob i 4) < 2 ^ 32 := by
  have hlen : (slice blob i 4).length ≤ 4 := length_take_le _ _
  have hlt := ofLE_lt (slice blob i 4)
  have hle := Nat.pow_le_pow_right (show 0 < 256 by decide) hlen
  exact lt_u32_iff.mp (lt_of_lt_of_le hlt hle)

theorem entriesFrom_short :
    ∀ e ∈ entriesFrom blob i, byteLen e.1 < 2 ^ 32 ∧ e.2.length < 2 ^ 32 := by
  induction i using entriesFrom.induct blob with
  | case1 i hnone =>
    rw [entriesFrom_of_none hnone]
    simp
  | case2 i entry j hsome ih =>
    rw [entriesFrom_of_some hsome, forall_mem_cons]
    refine ⟨?_, ih⟩
    obtain ⟨plen, dlen, hplen, hdlen, hpath, hdata, -, -⟩ := nextEntry_eq_some hsome
    constructor
    · rw [← toBytes_length, toBytes_of_fromBytes hpath]
      have hle : (slice blob (i + 4) plen).length ≤ plen := length_take_le _ _
      exact lt_of_le_of_lt hle (hplen ▸ ofLE_slice_lt blob i)
    · rw [hdata]
      have hle : (slice blob (i + 4 + plen + 4) dlen).length ≤ dlen := length_take_le _ _
      exact lt_of_le_of_lt hle (hdlen ▸ ofLE_slice_lt blob _)

variable (image : List Byte)

section

def Holds (P : String → List Byte → Prop) (fs : Files) : Prop :=
  ∀ path data, fs.read path = some data → P path data

variable {P : String → List Byte → Prop} {fs : Files}

theorem holds_new : Holds P Files.new := by
  intro path data h
  cases h

theorem Holds.write (holds : Holds P fs) {path : String} {data : List Byte}
    (allowed : isValidPath path = true → P path data) : Holds P (fs.write path data).2 := by
  intro other content h
  rw [Files.read_write] at h
  split at h
  · rename_i hsame
    obtain ⟨hvalid, rfl⟩ := hsame
    rw [← Option.some.inj h]
    exact allowed hvalid
  · exact holds other content h

theorem Holds.delete (holds : Holds P fs) (path : String) : Holds P (fs.delete path).2 := by
  intro other content h
  rw [Files.read_delete] at h
  split at h
  · cases h
  · exact holds other content h

theorem snapshot_eq (fs : Files) : snapshot fs = fs.entries := by
  have hread : ∀ e ∈ fs.entries, (fs.read e.1).map (fun data => (e.1, data)) = some e := by
    intro e he
    rw [show fs.read e.1 = some e.2 from SortedMap.mem_entries.mp he, Option.map_some]
  rw [snapshot, Files.allKeys, filterMap_map]
  calc fs.entries.filterMap _ = fs.entries.filterMap some := filterMap_congr hread
    _ = fs.entries := filterMap_some

theorem foldl_write_entries
    (sorted : entries.Pairwise fun a b => a.1 < b.1) (valid : ∀ e ∈ entries, isValidPath e.1 = true)
    (above : ∀ e ∈ fs.entries, ∀ e' ∈ entries, e.1 < e'.1) :
    (entries.foldl (fun fs entry => (fs.write entry.1 entry.2).2) fs).entries = fs.entries ++ entries := by
  induction entries generalizing fs with
  | nil => simp
  | cons entry entries ih =>
    obtain ⟨hfirst, hsorted⟩ := pairwise_cons.mp sorted
    obtain ⟨hvalid, hvalids⟩ := forall_mem_cons.mp valid
    have hwrite : (fs.write entry.1 entry.2).2.entries = fs.entries ++ [entry] := by
      rw [Files.write, if_pos hvalid]
      exact SortedMap.entries_insert_last (above · · entry mem_cons_self) entry.2
    rw [foldl_cons, ih hsorted hvalids, hwrite, append_assoc, singleton_append]
    intro e he e' he'
    rw [hwrite, mem_append, mem_singleton] at he
    rcases he with he | rfl
    · exact above e he e' (mem_cons_of_mem entry he')
    · exact hfirst e' he'

def Bounded (path : String) (data : List Byte) : Prop :=
  isValidPath path = true ∧ byteLen path < 2 ^ 32 ∧ data.length < 2 ^ 32

theorem foldl_write_holds
    (short : ∀ e ∈ entries, byteLen e.1 < 2 ^ 32 ∧ e.2.length < 2 ^ 32) (holds : Holds Bounded fs) :
    Holds Bounded (entries.foldl (fun fs entry => (fs.write entry.1 entry.2).2) fs) := by
  induction entries generalizing fs with
  | nil => exact holds
  | cons entry entries ih =>
    obtain ⟨hentry, hentries⟩ := forall_mem_cons.mp short
    exact ih hentries (holds.write fun hvalid => ⟨hvalid, hentry⟩)

theorem boot_holds : Holds Bounded (boot .persistent image).volume.fs :=
  foldl_write_holds entriesFrom_short holds_new

theorem call_holds (P : String → List Byte → Prop) {calls : List Call} {machine : Machine}
    (holds : Holds P machine.volume.fs)
    (allowed : ∀ path data, .write path data ∈ calls → isValidPath path = true → P path data) :
    Holds P (calls.foldl Call.run machine).volume.fs := by
  induction calls generalizing machine with
  | nil => exact holds
  | cons call calls ih =>
    apply ih
    · cases call with
      | write path data => exact holds.write (allowed path data mem_cons_self)
      | delete path => exact holds.delete path
      | sync =>
        rw [Call.run, sync]
        split
        · exact holds
        · exact holds
    · exact fun path data h => allowed path data (mem_cons_of_mem call h)

theorem read_eq_of_entries {fs' : Files} (h : fs.entries = fs'.entries) (path : String) :
    fs.read path = fs'.read path := by
  rw [Files.read, Files.read, SortedMap.get?, SortedMap.get?, h]

theorem boot_serialize (holds : Holds Bounded fs) (path : String) :
    (boot .persistent (serializeEntries (snapshot fs))).volume.fs.read path = fs.read path := by
  have hbounded : ∀ e ∈ fs.entries, Bounded e.1 e.2 := by
    intro e he
    exact holds e.1 e.2 (SortedMap.mem_entries.mp he)
  have hstorable : ∀ e ∈ fs.entries, Storable e := by
    intro e he
    obtain ⟨hvalid, hpath, hdata⟩ := hbounded e he
    refine ⟨?_, hpath, hdata⟩
    intro hempty
    rw [hempty] at hvalid
    cases hvalid
  apply read_eq_of_entries
  rw [boot, snapshot_eq, deserializeEntries_serializeEntries hstorable,
    foldl_write_entries fs.sorted (fun e he => (hbounded e he).1)]
  · rfl
  · intro e he
    cases he

end

variable (calls : List Call)

theorem calls_mode (machine : Machine) :
    (calls.foldl Call.run machine).volume.mode = machine.volume.mode ∧
      (calls.foldl Call.run machine).volume.store = machine.volume.store := by
  induction calls generalizing machine with
  | nil => exact ⟨rfl, rfl⟩
  | cons call calls ih =>
    obtain ⟨hmode, hstore⟩ := ih (call.run machine)
    rw [foldl_cons, hmode, hstore]
    cases call with
    | write path data | delete path => exact ⟨rfl, rfl⟩
    | sync =>
      rw [Call.run, sync]
      split
      · exact ⟨rfl, rfl⟩
      · exact ⟨rfl, rfl⟩

theorem calls_partition {machine : Machine} (free : machine.volume.store = false) :
    (calls.foldl Call.run machine).partition = machine.partition := by
  induction calls generalizing machine with
  | nil => rfl
  | cons call calls ih =>
    have hfree : (call.run machine).volume.store = false := (calls_mode [call] machine).2.trans free
    rw [foldl_cons, ih hfree]
    cases call with
    | write path data | delete path => rfl
    | sync => rw [Call.run, sync, if_neg (by rw [free]; decide)]

variable (partition : List Byte)

theorem live_partition (calls : List Call) :
    (shutdown (session .live partition calls)).partition = partition := by
  have hmode : (session .live partition calls).volume.mode = .live := (calls_mode calls _).1
  rw [shutdown, hmode, if_neg (by decide)]
  exact calls_partition calls rfl

theorem persistent_shutdown (calls : List Call) :
    (shutdown (session .persistent image calls)).partition =
      serializeEntries (snapshot (session .persistent image calls).volume.fs) := by
  obtain ⟨hmode, hstore⟩ := calls_mode calls (boot .persistent image)
  have hpersistent : (session .persistent image calls).volume.mode = .persistent := hmode
  have hholds : (session .persistent image calls).volume.store := hstore
  rw [shutdown, if_pos hpersistent, sync, if_pos hholds]

/-- After the shutdown and any live session, a persistent boot finds the files that were there. -/
def RestoredExactly (before : Machine) : Prop :=
  ∀ liveCalls : List Call,
    (shutdown (session .live (shutdown before).partition liveCalls)).partition =
      (shutdown before).partition ∧
    ∀ path, (boot .persistent (shutdown before).partition).volume.fs.read path =
      before.volume.fs.read path

theorem short_of_restored {before : Machine} (restored : RestoredExactly before) {path : String}
    (present : path ∈ before.volume.fs.allKeys) : byteLen path < 2 ^ 32 := by
  obtain ⟨data, hdata⟩ := Files.mem_allKeys.mp present
  rw [← (restored []).2 path] at hdata
  exact (boot_holds _ path data hdata).2.1

/-- A persistent volume survives a reboot exactly when no path present at the shutdown is 2 ^ 32
bytes long or longer, whatever image it was booted from. -/
theorem persistent_survives_iff (image : List Byte) (calls : List Call)
    (small : ∀ path data, Call.write path data ∈ calls → data.length < 2 ^ 32) :
    RestoredExactly (session .persistent image calls) ↔
      ∀ path ∈ (session .persistent image calls).volume.fs.allKeys, byteLen path < 2 ^ 32 := by
  constructor
  · intro restored path present
    exact short_of_restored restored present
  · intro short
    have hvalid : Holds (fun path data => isValidPath path = true ∧ data.length < 2 ^ 32)
        (session .persistent image calls).volume.fs := by
      apply call_holds
      · intro path data h
        obtain ⟨hpath, -, hdata⟩ := boot_holds image path data h
        exact ⟨hpath, hdata⟩
      · exact fun path data h hpath => ⟨hpath, small path data h⟩
    have hbounded : Holds Bounded (session .persistent image calls).volume.fs := by
      intro path data h
      obtain ⟨hpath, hdata⟩ := hvalid path data h
      exact ⟨hpath, short path (Files.mem_allKeys.mpr ⟨data, h⟩), hdata⟩
    intro liveCalls
    refine ⟨live_partition _ _, fun path => ?_⟩
    rw [persistent_shutdown]
    exact boot_serialize hbounded path

theorem persistent_survives_one_file :
    RestoredExactly (session .persistent [] [.write "/docs/note" [1, 2, 3], .delete "/none"]) := by
  apply (persistent_survives_iff [] [.write "/docs/note" [1, 2, 3], .delete "/none"] ?_).mpr
  · intro path present
    have hkeys : (session .persistent [] [.write "/docs/note" [1, 2, 3],
        .delete "/none"]).volume.fs.allKeys = ["/docs/note"] := by decide +kernel
    rw [hkeys, mem_singleton] at present
    rw [present]
    decide +kernel
  · intro path data h
    have hdata : data = [1, 2, 3] := by simpa using (show path = _ ∧ data = _ by simpa using h).2
    rw [hdata]
    decide

theorem long_path_length (n : Nat) : byteLen (String.ofList (replicate n 'a')) = n := by
  rw [byteLen, String.utf8ByteSize_ofList]
  induction n with
  | zero => rfl
  | succ n ih =>
    rw [replicate_succ, String.utf8Len_cons, ih]
    rfl

theorem long_path_valid {n : Nat} (positive : 0 < n) :
    isValidPath (String.ofList (replicate n 'a')) = true := by
  have hall : ∀ test : Char → Bool, test 'a' = false → (replicate n 'a').any test = false := by
    intro test htest
    rw [any_eq_false]
    intro c hc
    rw [eq_of_mem_replicate hc, htest]
    decide
  have hnonempty : (String.ofList (replicate n 'a')).isEmpty = false := by
    rw [Bool.eq_false_iff]
    intro hempty
    have hzero := String.isEmpty_iff_utf8ByteSize_eq_zero.mp hempty
    rw [show (String.ofList (replicate n 'a')).utf8ByteSize = n from long_path_length n] at hzero
    omega
  rw [isValidPath, String.toList_ofList, hall _ rfl, hall _ rfl, hnonempty]
  rfl

theorem exists_path {n : Nat} (positive : 0 < n) :
    ∃ path, isValidPath path = true ∧ byteLen path = n :=
  ⟨_, long_path_valid positive, long_path_length n⟩

/-- A file whose path is 2 ^ 32 bytes long is lost: its length is written as zero. -/
theorem long_path_lost : ∃ path, byteLen path = 2 ^ 32 ∧
      ¬ RestoredExactly (session .persistent [] [.write path []]) := by
  obtain ⟨path, hvalid, hlength⟩ := exists_path (Nat.two_pow_pos 32)
  refine ⟨path, hlength, fun restored => ?_⟩
  have hpresent : path ∈ (session .persistent [] [.write path []]).volume.fs.allKeys := by
    apply Files.mem_allKeys.mpr
    refine ⟨[], ?_⟩
    change ((boot .persistent []).volume.fs.write path []).2.read path = some []
    rw [Files.read_write, if_pos ⟨hvalid, rfl⟩]
  have hshort := short_of_restored restored hpresent
  omega

def history (sessions : List (PersistenceMode × List Call)) : List Byte :=
  sessions.foldl (fun partition s => (shutdown (session s.1 partition s.2)).partition) partition

theorem read_wipeRam (fs : Files) (path : String) : (wipeRam fs).read path = none := by
  have hgone : path ∈ fs.allKeys ∨ fs.read path = none := by
    cases hread : fs.read path with
    | none => exact .inr rfl
    | some data => exact .inl (Files.mem_allKeys.mpr ⟨data, hread⟩)
  unfold wipeRam
  generalize fs.allKeys = keys at hgone ⊢
  induction keys generalizing fs with
  | nil => exact hgone.resolve_left not_mem_nil
  | cons key keys ih =>
    apply ih
    rw [Files.read_delete]
    by_cases hkey : path = key
    · exact .inr (if_pos hkey)
    · rw [if_neg hkey]
      refine hgone.imp (fun hmem => (mem_cons.mp hmem).resolve_left hkey) fun hnone => ?_
      split
      · rw [Files.read_write, if_neg fun h => hkey h.2, hnone]
      · exact hnone

theorem calls_volume {machine other : Machine} (same : machine.volume = other.volume) :
    (calls.foldl Call.run machine).volume = (calls.foldl Call.run other).volume := by
  induction calls generalizing machine other with
  | nil => exact same
  | cons call calls ih =>
    refine ih ?_
    cases call with
    | write path data | delete path => simp only [Call.run, same]
    | sync =>
      simp only [Call.run, sync, same]
      split
      · rfl
      · exact same

/-- Live sessions leave no trace: the partition is as if they had not been, and they see nothing of
it. After a shutdown no file is left in memory. -/
theorem live_leaves_no_trace (sessions : List (PersistenceMode × List Call)) :
    history partition sessions = history partition (sessions.filter (·.1 = .persistent)) ∧
      (∀ other calls, (session .live partition calls).volume = (session .live other calls).volume) ∧
      ∀ mode calls path, (shutdown (session mode partition calls)).volume.fs.read path = none := by
  refine ⟨?_, fun other calls => calls_volume calls rfl, fun mode calls path => read_wipeRam _ path⟩
  induction sessions generalizing partition with
  | nil => rfl
  | cons s sessions ih =>
    obtain ⟨_ | _, calls⟩ := s
    · exact (congrArg (history · sessions) (live_partition partition calls)).trans (ih partition)
    · exact ih _

end CibosPlatform.Storage.Volume

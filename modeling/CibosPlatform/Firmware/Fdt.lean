/- source: cibios/src/fdt.rs
   digest: The firmware's device-tree parser, and that it agrees with the kernel's on where RAM is. -/

import CibosPlatform.Core.MachineWord
import CibosPlatform.Dtb.Tree
import CibosPlatform.Shared.Error

namespace CibosPlatform.Firmware.Fdt

open List Option Nat
open Core BigEndian EventTree LittleEndian MachineWord Dtb.Blob Dtb.Tree Shared.Error DeviceTree

structure DeviceTreeInfo where
  memoryBase : Nat
  totalMemory : Nat
  cpuCount : Nat
  initrdStart : Nat
  initrdEnd : Nat
  deriving DecidableEq

def DeviceTreeInfo.default : DeviceTreeInfo := ⟨0, 0, 0, 0, 0⟩

abbrev Result (α : Type) := Except FirmwareError α

def malformed {α : Type} (detail : String) : Result α := .error (.malformedImage detail)

def beU32 (bytes : List Byte) (offset : Nat) : Result Nat :=
  match checkedAdd offset 4 with
  | none => malformed "fdt offset overflow"
  | some stop =>
    if bytes.length < stop then malformed "fdt truncated" else .ok (ofBE (slice bytes offset 4))

variable (dtb : List Byte)

/-- Big-endian words as one 64-bit number; words that do not fit are shifted out. -/
def readCells (offset cells : Nat) : Result Nat :=
  (List.range cells).foldlM (fun value i => do
    let word ← beU32 dtb (offset + i * 4)
    pure ((value <<< 32) % 2 ^ 64 ||| word)) 0

structure RegState where
  total : Nat
  firstBase : Nat
  off : Nat

def regEntry (addressCells sizeCells : Nat) (s : RegState) (i : Nat) : Result RegState := do
  let base ← readCells dtb s.off addressCells
  let size ← readCells dtb (s.off + addressCells * 4) sizeCells
  pure
    { total := saturatingAdd s.total size
      firstBase := if i = 0 then base else s.firstBase
      off := s.off + addressCells * 4 + sizeCells * 4 }

def parseReg (start len addressCells sizeCells : Nat) : Result (Nat × Nat) :=
  let entryCells := addressCells + sizeCells
  if entryCells = 0 then .ok (0, 0)
  else if len % (entryCells * 4) ≠ 0 then
    malformed "fdt reg length not a multiple of entry size"
  else do
    let s ← (List.range (len / (entryCells * 4))).foldlM (regEntry dtb addressCells sizeCells)
      ⟨0, 0, start⟩
    pure (s.firstBase, s.total)

def readPropInt (start len : Nat) : Result Nat :=
  if len = 4 then beU32 dtb start
  else if len = 8 then readCells dtb start 2
  else malformed "unexpected initrd property length"

def cstrAt (bytes : List Byte) (offset : Nat) : Result (List Byte) :=
  if bytes.length ≤ offset then malformed "fdt string offset out of range" else .ok (cstr bytes offset)

def ascii (text : String) : List Byte := text.toList.map fun c => BitVec.ofNat 8 c.toNat

def addressCellsName : List Byte := ascii "#address-cells"
def sizeCellsName : List Byte := ascii "#size-cells"
def chosenName : List Byte := ascii "chosen"
def cpusName : List Byte := ascii "cpus"
def cpuPrefix : List Byte := ascii "cpu"
def initrdStartName : List Byte := ascii "linux,initrd-start"
def initrdEndName : List Byte := ascii "linux,initrd-end"

structure ParseState where
  info : DeviceTreeInfo
  rootAddressCells : Nat
  rootSizeCells : Nat
  depth : Int
  currentIsMemory : Bool
  currentIsChosen : Bool
  inCpus : Bool
  cpusDepth : Int

open ParseState

def ParseState.start : ParseState := ⟨.default, 2, 1, 0, false, false, false, -1⟩

variable (s : ParseState)

def ParseState.beginNode (name : List Byte) : ParseState :=
  let depth := s.depth + 1
  let entered :=
    { s with
      depth := depth
      currentIsMemory := startsWith name memoryPrefix
      currentIsChosen := name = chosenName }
  if name = cpusName then { entered with inCpus := true, cpusDepth := depth }
  else if s.inCpus ∧ depth = s.cpusDepth + 1 ∧ startsWith name cpuPrefix then
    { entered with info := { s.info with cpuCount := min (s.info.cpuCount + 1) (2 ^ 32 - 1) } }
  else entered

def ParseState.endNode : Result ParseState :=
  let closesCpus := s.inCpus ∧ s.depth = s.cpusDepth
  let left :=
    { s with
      inCpus := if closesCpus then false else s.inCpus
      cpusDepth := if closesCpus then -1 else s.cpusDepth
      depth := s.depth - 1
      currentIsMemory := false
      currentIsChosen := false }
  if left.depth < 0 then malformed "fdt unbalanced node end" else .ok left

def ParseState.addMemory (base size : Nat) : ParseState :=
  { s with
    info :=
      { s.info with
        memoryBase := if s.info.totalMemory = 0 then base else s.info.memoryBase
        totalMemory := saturatingAdd s.info.totalMemory size } }

def ParseState.prop (dtb pname : List Byte) (valStart len : Nat) : Result ParseState :=
  if s.depth = 1 ∧ pname = addressCellsName ∧ len = 4 then do
    let cells ← beU32 dtb valStart
    pure { s with rootAddressCells := cells }
  else if s.depth = 1 ∧ pname = sizeCellsName ∧ len = 4 then do
    let cells ← beU32 dtb valStart
    pure { s with rootSizeCells := cells }
  else if s.currentIsMemory ∧ pname = regName then do
    let found ← parseReg dtb valStart len s.rootAddressCells s.rootSizeCells
    pure (s.addMemory found.1 found.2)
  else if s.currentIsChosen ∧ pname = initrdStartName then do
    let value ← readPropInt dtb valStart len
    pure { s with info := { s.info with initrdStart := value } }
  else if s.currentIsChosen ∧ pname = initrdEndName then do
    let value ← readPropInt dtb valStart len
    pure { s with info := { s.info with initrdEnd := value } }
  else pure s

def propToken (structEnd offStrings cursor : Nat) : Result (List Byte × Nat × Nat) := do
  let len ← beU32 dtb cursor
  let nameoff ← beU32 dtb (cursor + 4)
  match checkedAdd (cursor + 8) len with
  | none => malformed "fdt prop len overflow"
  | some valEnd =>
    if structEnd < valEnd then malformed "fdt prop overran"
    else do
      let pname ← cstrAt dtb (offStrings + nameoff)
      pure (pname, cursor + 8, len)

def nodeName (structEnd nameStart : Nat) : Result (List Byte) :=
  let name := cstr (dtb.take structEnd) nameStart
  if structEnd ≤ nameStart + name.length then malformed "fdt node name unterminated" else .ok name

def parseLoop (dtb : List Byte) (structEnd offStrings cursor : Nat) (s : ParseState) :
    Result DeviceTreeInfo :=
  if cursor + 4 ≤ structEnd then
    match beU32 dtb cursor with
    | .error e => .error e
    | .ok token =>
      if token = fdtBeginNode then
        match nodeName dtb structEnd (cursor + 4) with
        | .error e => .error e
        | .ok name =>
          parseLoop dtb structEnd offStrings (align4 (cursor + 4 + name.length + 1))
            (s.beginNode name)
      else if token = fdtEndNode then
        match s.endNode with
        | .error e => .error e
        | .ok left => parseLoop dtb structEnd offStrings (cursor + 4) left
      else if token = fdtProp then
        match propToken dtb structEnd offStrings (cursor + 4) with
        | .error e => .error e
        | .ok (pname, valStart, len) =>
          match s.prop dtb pname valStart len with
          | .error e => .error e
          | .ok after => parseLoop dtb structEnd offStrings (align4 (cursor + 12 + len)) after
      else if token = fdtNop then parseLoop dtb structEnd offStrings (cursor + 4) s
      else if token = fdtEnd then .ok s.info
      else malformed "fdt unknown token"
  else malformed "fdt struct overran"
  termination_by structEnd - cursor
  decreasing_by
    · have := le_align4 (cursor + 4 + name.length + 1)
      omega
    · omega
    · have := le_align4 (cursor + 12 + len)
      omega
    · omega

def parse : Result DeviceTreeInfo := do
  let magic ← beU32 dtb 0
  if magic ≠ fdtMagic then malformed "bad fdt magic"
  else do
    let offStruct ← beU32 dtb 8
    let offStrings ← beU32 dtb 12
    let sizeStruct ← beU32 dtb 36
    match checkedAdd offStruct sizeStruct with
    | none => malformed "fdt struct size overflow"
    | some structEnd =>
      if dtb.length < structEnd ∨ dtb.length < offStrings then malformed "fdt block out of range"
      else parseLoop dtb structEnd offStrings offStruct .start

variable {name reg : List Byte} {entry : List (List Byte) × Attr}

def owned : List (List Byte) → List (Event (List Byte) Attr) → List (List (List Byte) × Attr)
  | _, [] => []
  | path, .enter name :: events => owned (name :: path) events
  | path, .item a :: events => (path, a) :: owned path events
  | path, .leave :: events => owned path.tail events

variable (events : List (Event (List Byte) Attr))

def RootProp (a : Attr) : Prop :=
  ∃ root, ([root], a) ∈ owned [] events

def MemoryReg (reg : List Byte) : Prop :=
  ∃ node path, startsWith node memoryPrefix ∧ (node :: path, ⟨regName, reg⟩) ∈ owned [] events

/-- No cell count but two at the root, where the size has one, and memory in whole entries whose first one is not empty. -/
structure WideCells (events : List (Event (List Byte) Attr)) : Prop where
  size : ∃ a, RootProp events a ∧ a.name = sizeCellsName
  two : ∀ a, RootProp events a → a.name = addressCellsName ∨ a.name = sizeCellsName →
    a.value = toBE 4 2
  regs : ∀ reg, MemoryReg events reg → 0 < reg.length ∧ reg.length % 16 = 0 ∧ be64 reg 8 ≠ some 0

mutual

def ownedIn (path : List (List Byte)) : Node → List (List (List Byte) × Attr)
  | .node name items children =>
    items.map (fun a => (name :: path, a)) ++ ownedInAll (name :: path) children

def ownedInAll (path : List (List Byte)) : List Node → List (List (List Byte) × Attr)
  | [] => []
  | t :: ts => ownedIn path t ++ ownedInAll path ts

end

theorem owned_items (path : List (List Byte)) (items : List Attr)
    (rest : List (Event (List Byte) Attr)) :
    owned path (items.map .item ++ rest) = items.map (fun a => (path, a)) ++ owned path rest := by
  induction items with
  | nil => rfl
  | cons a items ih => rw [map_cons, cons_append, owned, ih, map_cons, cons_append]

mutual

theorem owned_tree (path : List (List Byte)) (t : Node) (rest : List (Event (List Byte) Attr)) :
    owned path (t.events ++ rest) = ownedIn path t ++ owned path rest := by
  match t with
  | .node name items children =>
    rw [Tree.events, cons_append, owned, append_assoc, append_assoc, owned_items,
      owned_trees (name :: path) children, singleton_append, owned, ownedIn, append_assoc,
      tail_cons]

theorem owned_trees (path : List (List Byte)) (ts : List Node)
    (rest : List (Event (List Byte) Attr)) :
    owned path (eventsAll ts ++ rest) = ownedInAll path ts ++ owned path rest := by
  match ts with
  | [] => rfl
  | t :: ts =>
    rw [eventsAll, ownedInAll, append_assoc, owned_tree path t, owned_trees path ts, append_assoc]

end

theorem ownedInAll_eq (path : List (List Byte)) (ts : List Node) :
    ownedInAll path ts = ts.flatMap (ownedIn path) := by
  induction ts with
  | nil => rfl
  | cons t ts ih => rw [ownedInAll, ih, flatMap_cons]

variable (t : Node)

theorem mem_ownedIn : ∀ {path}, entry ∈ ownedIn path t →
    ∃ node ∈ t.nodes, ∃ above, entry.1 = node.1 :: above ∧ entry.2 ∈ node.2 ∧ path.length ≤ above.length := by
  induction t using Tree.induct with
  | node name items children ih =>
    intro path hentry
    rw [Tree.nodes, nodesAll_eq]
    rw [ownedIn, ownedInAll_eq] at hentry
    rcases mem_append.mp hentry with hown | hbelow
    · obtain ⟨a, ha, rfl⟩ := mem_map.mp hown
      exact ⟨(name, items), mem_cons_self, path, rfl, ha, le_rfl⟩
    · obtain ⟨c, hc, hin⟩ := mem_flatMap.mp hbelow
      obtain ⟨node, hnode, above, hpath, ha, hlong⟩ := ih c hc hin
      have hnodes := mem_flatMap.mpr ⟨c, hc, hnode⟩
      exact ⟨node, mem_cons_of_mem _ hnodes, above, hpath, ha, le_of_succ_le hlong⟩

theorem ownedIn_of_mem {node : List Byte × List Attr} {a : Attr} (ha : a ∈ node.2) :
    ∀ {path}, node ∈ t.nodes → ∃ above, (node.1 :: above, a) ∈ ownedIn path t := by
  induction t using Tree.induct with
  | node name items children ih =>
    intro path hnode
    rw [Tree.nodes, nodesAll_eq] at hnode
    rw [ownedIn, ownedInAll_eq]
    rcases mem_cons.mp hnode with rfl | hbelow
    · exact ⟨path, mem_append_left _ (mem_map_of_mem ha)⟩
    · obtain ⟨c, hc, hin⟩ := mem_flatMap.mp hbelow
      obtain ⟨above, howned⟩ := ih c hc hin
      exact ⟨above, mem_append_right _ (mem_flatMap.mpr ⟨c, hc, howned⟩)⟩

theorem owned_deep (name : List Byte) (children : List Node)
    (below : entry ∈ ownedInAll [name] children) : 1 < entry.1.length := by
  rw [ownedInAll_eq] at below
  obtain ⟨c, -, hin⟩ := mem_flatMap.mp below
  obtain ⟨node, -, above, hpath, -, hlong⟩ := mem_ownedIn c hin
  rw [hpath]
  exact succ_lt_succ hlong

theorem owned_events : owned [] t.events = ownedIn [] t := by
  have h := owned_tree [] t []
  rwa [append_nil, owned, append_nil] at h

theorem rootProp_iff {items : List Attr} {children : List Node} {a : Attr} :
    RootProp (Tree.events (.node name items children)) a ↔ a ∈ items := by
  unfold RootProp
  rw [owned_events, ownedIn]
  constructor
  · rintro ⟨root, hroot⟩
    rcases mem_append.mp hroot with hown | hbelow
    · obtain ⟨b, hb, heq⟩ := mem_map.mp hown
      cases heq
      exact hb
    · exact absurd (owned_deep name children hbelow) (lt_irrefl 1)
  · intro ha
    exact ⟨name, mem_append_left _ (mem_map_of_mem ha)⟩

theorem memoryReg_iff {tree : Node} : MemoryReg tree.events reg ↔
      ∃ node ∈ named tree memoryPrefix, (⟨regName, reg⟩ : Attr) ∈ node.2 := by
  unfold MemoryReg
  rw [owned_events]
  constructor
  · rintro ⟨name, path, hmemory, hin⟩
    obtain ⟨node, hnode, above, hpath, ha, -⟩ := mem_ownedIn tree hin
    cases hpath
    exact ⟨node, mem_filter.mpr ⟨hnode, hmemory⟩, ha⟩
  · rintro ⟨node, hnode, ha⟩
    obtain ⟨hin, hmemory⟩ := mem_filter.mp hnode
    obtain ⟨above, howned⟩ := ownedIn_of_mem tree ha hin
    exact ⟨node.1, above, hmemory, howned⟩

variable {len pos : Nat} {info : DeviceTreeInfo}

section

variable {dt : DeviceTree}

inductive Steps (dtb : List Byte) : ParseState → List (Event (List Byte) Attr) → ParseState → Prop
  | done (s : ParseState) : Steps dtb s [] s
  | enter {s t : ParseState} {name : List Byte} {events : List (Event (List Byte) Attr)}
      (rest : Steps dtb (s.beginNode name) events t) : Steps dtb s (.enter name :: events) t
  | item {s after t : ParseState} {a : Attr} {events : List (Event (List Byte) Attr)}
      (valStart : Nat) (fits : valStart + a.value.length ≤ dtb.length)
      (value : slice dtb valStart a.value.length = a.value)
      (step : s.prop dtb a.name valStart a.value.length = .ok after)
      (rest : Steps dtb after events t) : Steps dtb s (.item a :: events) t
  | leave {s after t : ParseState} {events : List (Event (List Byte) Attr)}
      (step : s.endNode = .ok after) (rest : Steps dtb after events t) :
      Steps dtb s (.leave :: events) t

variable {b : List Byte}

theorem be32_of_beU32 {word : Nat} (read : beU32 b pos = .ok word) : be32 b pos = some word := by
  unfold beU32 checkedAdd at read
  by_cases hroom : pos + 4 < wordBound
  · rw [if_pos hroom] at read
    dsimp only at read
    split at read
    · cases read
    · rename_i hlen
      cases read
      rw [be32, getBytes_of_fits (not_lt.mp hlen), map_some]
  · rw [if_neg hroom] at read
    cases read

theorem be32_lt {word : Nat} (read : be32 b pos = some word) : word < 2 ^ 32 := by
  obtain ⟨bytes, hbytes, rfl⟩ := map_eq_some_iff.mp read
  rw [getBytes] at hbytes
  split at hbytes
  · rename_i hinside
    cases hbytes
    have hlt := ofBE_lt (slice b pos 4)
    rwa [slice_length hinside] at hlt
  · cases hbytes

theorem be64_slice {start : Nat} (fits : start + len ≤ b.length) (inside : pos + 8 ≤ len) :
    be64 (slice b start len) pos = be64 b (start + pos) := by
  rw [be64, be64, be32_slice fits (by omega), be32_slice fits (by omega), add_assoc]

theorem takeWhile_take {l : List Byte} {p : Byte → Bool} {n : Nat}
    (short : ((l.take n).takeWhile p).length < n) : (l.take n).takeWhile p = l.takeWhile p := by
  induction l generalizing n with
  | nil => rw [take_nil]
  | cons b l ih =>
    cases n with
    | zero => exact absurd short (not_lt_zero _)
    | succ n =>
      rw [take_succ_cons, takeWhile_cons, takeWhile_cons] at *
      by_cases hb : p b
      · rw [if_pos hb] at short
        rw [if_pos hb, if_pos hb, ih (lt_of_succ_lt_succ short)]
      · rw [if_neg hb, if_neg hb]

theorem cstr_of_nodeName {dtb : List Byte} {structEnd nameStart : Nat}
    (read : nodeName dtb structEnd nameStart = .ok name) : cstr dtb nameStart = name := by
  unfold nodeName at read
  dsimp only at read
  split at read
  · cases read
  · rename_i hinside
    cases read
    have hdrop : (dtb.take structEnd).drop nameStart =
        (dtb.drop nameStart).take (structEnd - nameStart) := drop_take
    have hname : cstr (dtb.take structEnd) nameStart =
        ((dtb.drop nameStart).take (structEnd - nameStart)).takeWhile (· ≠ 0) := by
      rw [cstr, hdrop]
    rw [hname] at hinside ⊢
    exact (takeWhile_take (by omega)).symm

theorem of_bind_ok {α β : Type} {m : Result α} {f : α → Result β} {b : β}
    (read : (m >>= f) = .ok b) : ∃ a, m = .ok a ∧ f a = .ok b := by
  cases m with
  | error e => cases read
  | ok a => exact ⟨a, rfl, read⟩

theorem cstrAt_ok {offset : Nat} (read : cstrAt b offset = .ok name) :
    ¬ b.length ≤ offset ∧ name = cstr b offset := by
  unfold cstrAt at read
  split at read
  · cases read
  · rename_i hinside
    cases read
    exact ⟨hinside, rfl⟩

theorem propToken_ok {structEnd cursor valStart : Nat} {pname : List Byte}
    (read : propToken dt.blob structEnd dt.stringsOff cursor = .ok (pname, valStart, len)) :
    valStart = cursor + 8 ∧ cursor + 8 + len ≤ structEnd ∧ be32 dt.blob cursor = some len ∧
      ∃ nameoff, be32 dt.blob (cursor + 4) = some nameoff ∧ pname = dt.propName nameoff := by
  obtain ⟨len', hlen, hrest⟩ := of_bind_ok read
  obtain ⟨nameoff, hoff, hvalue⟩ := of_bind_ok hrest
  split at hvalue
  · cases hvalue
  · rename_i valEnd hend
    split at hvalue
    · cases hvalue
    · rename_i hfits
      obtain ⟨pname', hname, hresult⟩ := of_bind_ok hvalue
      cases hresult
      obtain ⟨hinside, rfl⟩ := cstrAt_ok hname
      obtain ⟨-, rfl⟩ := checkedAdd_eq_some.mp hend
      refine ⟨rfl, not_lt.mp hfits, be32_of_beU32 hlen, nameoff, be32_of_beU32 hoff, ?_⟩
      rw [propName, if_neg hinside]

theorem steps_of_accepted (inside : dt.structEnd ≤ dt.blob.length) {s : ParseState}
    (accepted : parseLoop dt.blob dt.structEnd dt.stringsOff pos s = .ok info) :
    ∃ events t, Stream dt pos events ∧ Steps dt.blob s events t ∧ t.info = info := by
  fun_induction parseLoop dt.blob dt.structEnd dt.stringsOff pos s
  case case3 pos s hpos name hname token ih =>
    obtain ⟨events, t, hstream, hsteps, hinfo⟩ := ih accepted
    have henter := Stream.enter name (by omega) (be32_of_beU32 token) (cstr_of_nodeName hname) hstream
    exact ⟨_, t, henter, .enter hsteps, hinfo⟩
  case case5 pos s hpos left hleft token other ih =>
    obtain ⟨events, t, hstream, hsteps, hinfo⟩ := ih accepted
    exact ⟨_, t, .leave (by omega) (be32_of_beU32 token) hstream, .leave hleft hsteps, hinfo⟩
  case case8 pos s hpos pname valStart len htoken after hafter token other other' ih =>
    obtain ⟨events, t, hstream, hsteps, hinfo⟩ := ih accepted
    obtain ⟨rfl, hend, hlen, nameoff, hoff, rfl⟩ := propToken_ok htoken
    have hfits : pos + 12 + len ≤ dt.blob.length := by omega
    have hsize := slice_length hfits
    refine ⟨_, t, .item (by omega) (be32_of_beU32 token) hlen hoff hfits hstream,
      .item (pos + 12) ?_ ?_ ?_ hsteps, hinfo⟩
    · rw [hsize]
      exact hfits
    · rw [hsize]
    · rw [hsize]
      exact hafter
  case case9 pos s hpos token other other' other'' ih =>
    obtain ⟨events, t, hstream, hsteps, hinfo⟩ := ih accepted
    exact ⟨events, t, .nop (by omega) (be32_of_beU32 token) hstream, hsteps, hinfo⟩
  case case10 pos s hpos token other other' other'' other''' =>
    exact ⟨[], s, .finish (by omega) (be32_of_beU32 token), .done s, Except.ok.inj accepted⟩
  all_goals cases accepted

end

section

variable {dtb : List Byte}

theorem be64_of_readCells {offset value : Nat} (read : readCells dtb offset 2 = .ok value) :
    be64 dtb offset = some value := by
  obtain ⟨first, hfirst, hrest⟩ := of_bind_ok read
  obtain ⟨hi, hhi, hshift⟩ := of_bind_ok hfirst
  cases hshift
  obtain ⟨second, hsecond, hlast⟩ := of_bind_ok hrest
  obtain ⟨lo, hlo, hvalue⟩ := of_bind_ok hsecond
  cases hvalue
  cases hlast
  rw [Nat.zero_mul, add_zero] at hhi
  have hhi' := be32_of_beU32 hhi
  have hsmall : hi < 2 ^ 32 := be32_lt hhi'
  have hshifted : (((0 <<< 32) % 2 ^ 64 ||| hi) <<< 32) % 2 ^ 64 = hi <<< 32 := by
    rw [zero_shiftLeft, zero_mod, zero_or, shiftLeft_eq, mod_eq_of_lt]
    omega
  rw [be64, hhi', be32_of_beU32 hlo, hshifted]
  rfl

theorem regEntries_later {addressCells sizeCells : Nat} (indices : List Nat)
    (later : ∀ i ∈ indices, i ≠ 0) {s t : RegState}
    (read : indices.foldlM (regEntry dtb addressCells sizeCells) s = .ok t) :
    t.firstBase = s.firstBase ∧ (0 < s.total → 0 < t.total) := by
  induction indices generalizing s with
  | nil =>
    cases read
    exact ⟨rfl, id⟩
  | cons i indices ih =>
    obtain ⟨after, hentry, hrest⟩ := of_bind_ok read
    obtain ⟨base, -, hentry'⟩ := of_bind_ok hentry
    obtain ⟨size, -, hafter⟩ := of_bind_ok hentry'
    cases hafter
    obtain ⟨hbase, htotal⟩ := ih (fun j hj => later j (mem_cons_of_mem _ hj)) hrest
    refine ⟨hbase.trans (if_neg (later i mem_cons_self)), fun hpos => htotal ?_⟩
    exact saturatingAdd_pos (Nat.add_pos_left hpos size)

theorem parseReg_wide {start base total : Nat} (whole : len % 16 = 0) (some' : 0 < len)
    (read : parseReg dtb start len 2 2 = .ok (base, total)) :
    be64 dtb start = some base ∧ (be64 dtb (start + 8) ≠ some 0 → 0 < total) := by
  unfold parseReg at read
  rw [if_neg (by decide), if_neg (by omega)] at read
  obtain ⟨t, hentries, hresult⟩ := of_bind_ok read
  cases hresult
  obtain ⟨k, hk⟩ : ∃ k, len / ((2 + 2) * 4) = k + 1 := ⟨len / 16 - 1, by omega⟩
  rw [hk, range_succ_eq_map, foldlM_cons] at hentries
  obtain ⟨after, hentry, hrest⟩ := of_bind_ok hentries
  obtain ⟨first, hfirst, hentry'⟩ := of_bind_ok hentry
  obtain ⟨size, hsize, hafter⟩ := of_bind_ok hentry'
  cases hafter
  have hlater : ∀ i ∈ (range k).map succ, i ≠ 0 := by
    intro i hi
    obtain ⟨j, -, rfl⟩ := mem_map.mp hi
    exact succ_ne_zero j
  obtain ⟨hbase, htotal⟩ := regEntries_later _ hlater hrest
  refine ⟨?_, fun hsome => htotal (saturatingAdd_pos ?_)⟩
  · rw [hbase, be64_of_readCells hfirst]
    rfl
  · rw [be64_of_readCells hsize] at hsome
    rw [zero_add]
    exact pos_of_ne_zero fun hzero => hsome (congrArg some hzero)

end

section

variable {dtb : List Byte} {s t after : ParseState}

theorem beginNode_frame (s : ParseState) (name : List Byte) :
    (s.beginNode name).info.memoryBase = s.info.memoryBase ∧
    (s.beginNode name).info.totalMemory = s.info.totalMemory ∧
    (s.beginNode name).rootAddressCells = s.rootAddressCells ∧
    (s.beginNode name).rootSizeCells = s.rootSizeCells ∧
    (s.beginNode name).depth = s.depth + 1 ∧
    (s.beginNode name).currentIsMemory = startsWith name memoryPrefix := by
  unfold beginNode
  dsimp only
  split
  · exact ⟨rfl, rfl, rfl, rfl, rfl, rfl⟩
  · split
    · exact ⟨rfl, rfl, rfl, rfl, rfl, rfl⟩
    · exact ⟨rfl, rfl, rfl, rfl, rfl, rfl⟩

theorem endNode_frame (left : s.endNode = .ok after) :
    after.info = s.info ∧ after.rootAddressCells = s.rootAddressCells ∧
    after.rootSizeCells = s.rootSizeCells ∧ after.depth = s.depth - 1 ∧
    after.currentIsMemory = false ∧ 0 ≤ s.depth - 1 := by
  unfold endNode at left
  dsimp only at left
  split at left
  · cases left
  · rename_i hdepth
    cases left
    exact ⟨rfl, rfl, rfl, rfl, rfl, Int.not_lt.mp hdepth⟩

inductive PropStep (dtb : List Byte) (s : ParseState) (pname : List Byte) (valStart len : Nat) :
    ParseState → Prop
  | addressCells (root : s.depth = 1) (named : pname = addressCellsName) (word : len = 4)
      {cells : Nat} (read : beU32 dtb valStart = .ok cells) :
      PropStep dtb s pname valStart len { s with rootAddressCells := cells }
  | sizeCells (root : s.depth = 1) (named : pname = sizeCellsName) (word : len = 4) {cells : Nat}
      (read : beU32 dtb valStart = .ok cells) :
      PropStep dtb s pname valStart len { s with rootSizeCells := cells }
  | memory (current : s.currentIsMemory = true) (named : pname = regName) {found : Nat × Nat}
      (read : parseReg dtb valStart len s.rootAddressCells s.rootSizeCells = .ok found) :
      PropStep dtb s pname valStart len (s.addMemory found.1 found.2)
  | other (notSize : ¬ (s.depth = 1 ∧ pname = sizeCellsName ∧ len = 4))
      (notMemory : ¬ (s.currentIsMemory = true ∧ pname = regName)) (initrdStart initrdEnd : Nat) :
      PropStep dtb s pname valStart len
        { s with info := { s.info with initrdStart := initrdStart, initrdEnd := initrdEnd } }

theorem propStep_of_ok {pname : List Byte} {valStart : Nat}
    (step : s.prop dtb pname valStart len = .ok after) :
    PropStep dtb s pname valStart len after := by
  unfold prop at step
  split at step
  · rename_i haddress
    obtain ⟨cells, hcells, hafter⟩ := of_bind_ok step
    cases hafter
    exact .addressCells haddress.1 haddress.2.1 haddress.2.2 hcells
  · split at step
    · rename_i hsize
      obtain ⟨cells, hcells, hafter⟩ := of_bind_ok step
      cases hafter
      exact .sizeCells hsize.1 hsize.2.1 hsize.2.2 hcells
    · rename_i hsize
      split at step
      · rename_i hreg
        obtain ⟨found, hfound, hafter⟩ := of_bind_ok step
        cases hafter
        exact .memory hreg.1 hreg.2 hfound
      · rename_i hreg
        split at step
        · obtain ⟨value, -, hafter⟩ := of_bind_ok step
          cases hafter
          exact .other hsize hreg value s.info.initrdEnd
        · split at step
          · obtain ⟨value, -, hafter⟩ := of_bind_ok step
            cases hafter
            exact .other hsize hreg s.info.initrdStart value
          · cases step
            exact .other hsize hreg s.info.initrdStart s.info.initrdEnd

variable {events : List (Event (List Byte) Attr)}

theorem base_settled (steps : Steps dtb s events t) (known : 0 < s.info.totalMemory) :
    t.info.memoryBase = s.info.memoryBase := by
  induction steps with
  | done s => rfl
  | @enter s t name events rest ih =>
    obtain ⟨hbase, htotal, -⟩ := beginNode_frame s name
    rw [ih (htotal ▸ known), hbase]
  | item valStart fits value step rest ih =>
    cases propStep_of_ok step with
    | addressCells root named word read | sizeCells root named word read => exact ih known
    | memory current named read =>
      refine (ih (saturatingAdd_pos (Nat.add_pos_left known _))).trans ?_
      exact if_neg (ne_of_gt known)
    | other notSize notMemory initrdStart initrdEnd => exact ih known
  | leave step rest ih =>
    obtain ⟨hinfo, -⟩ := endNode_frame step
    rw [ih (hinfo ▸ known), hinfo]

theorem base_of_first_reg (steps : Steps dtb s events t) {path : List (List Byte)}
    (deep : ∀ entry ∈ owned path events, 1 < entry.1.length) (level : s.depth = path.length) (cells : s.rootAddressCells = 2 ∧ s.rootSizeCells = 2)
    (none' : s.info.totalMemory = 0)
    (found : (nodeRegVisitor memoryPrefix).run s.currentIsMemory events = some reg)
    (whole : 0 < reg.length ∧ reg.length % 16 = 0 ∧ be64 reg 8 ≠ some 0) :
    be64 reg 0 = some t.info.memoryBase := by
  induction steps generalizing path with
  | done s => cases found
  | @enter s t name events rest ih =>
    obtain ⟨-, htotal, haddress, hsize, hdepth, hmemory⟩ := beginNode_frame s name
    refine ih deep ?_ ?_ ?_ ?_
    · rw [hdepth, level]
      rfl
    · rw [haddress, hsize]
      exact cells
    · rw [htotal, none']
    · rw [hmemory]
      exact found
  | @item s after t a events valStart fits value step rest ih =>
    obtain ⟨hdeep : 1 < path.length, hrest⟩ := forall_mem_cons.mp deep
    cases propStep_of_ok step with
    | addressCells root named word read | sizeCells root named word read => exact absurd root (by omega)
    | @memory current named found' read =>
      have hreg : some a.value = some reg := by
        rw [← found, Visitor.run, nodeRegVisitor]
        dsimp only
        rw [if_pos ⟨current, named⟩]
      cases hreg
      rw [cells.1, cells.2] at read
      obtain ⟨hbase, htotal⟩ := parseReg_wide whole.2.1 whole.1 read
      have hat (pos : Nat) (inside : pos + 8 ≤ a.value.length) :
          be64 a.value pos = be64 dtb (valStart + pos) := by
        have h := be64_slice fits inside
        rwa [value] at h
      have hpos : 0 < found'.2 := by
        refine htotal ?_
        rw [← hat 8 (by omega)]
        exact whole.2.2
      have hknown : 0 < (s.addMemory found'.1 found'.2).info.totalMemory :=
        saturatingAdd_pos (Nat.add_pos_right _ hpos)
      rw [base_settled rest hknown, hat 0 (by omega), add_zero, hbase]
      exact congrArg some (if_pos none').symm
    | other notSize notMemory initrdStart initrdEnd =>
      refine ih hrest level cells none' ?_
      rw [← found, Visitor.run]
      have hskip : (nodeRegVisitor memoryPrefix).item s.currentIsMemory a =
          .ok s.currentIsMemory := if_neg notMemory
      rw [hskip]
  | leave step rest ih =>
    obtain ⟨hinfo, haddress, hsize, hdepth, hmemory, hopen⟩ := endNode_frame step
    refine ih deep ?_ ?_ ?_ ?_
    · rw [hdepth, length_tail]
      omega
    · rw [haddress, hsize]
      exact cells
    · rw [hinfo, none']
    · rw [hmemory]
      exact found

theorem root_items {items : List Attr} (steps : Steps dtb s (items.map .item ++ events) t) (root : s.depth = 1)
    (plain : s.currentIsMemory = false) (none' : s.info.totalMemory = 0) (address : s.rootAddressCells = 2)
    (size : s.rootSizeCells = 2 ∨ ∃ a ∈ items, a.name = sizeCellsName)
    (two : ∀ a ∈ items, a.name = addressCellsName ∨ a.name = sizeCellsName → a.value = toBE 4 2) :
    ∃ after, Steps dtb after events t ∧ after.depth = 1 ∧ after.currentIsMemory = false ∧
      after.info.totalMemory = 0 ∧ after.rootAddressCells = 2 ∧ after.rootSizeCells = 2 := by
  induction items generalizing s with
  | nil =>
    rcases size with hsize | ⟨a, ha, -⟩
    · exact ⟨s, steps, root, plain, none', address, hsize⟩
    · exact absurd ha not_mem_nil
  | cons a items ih =>
    have htail : ∀ b ∈ items, b.name = addressCellsName ∨ b.name = sizeCellsName →
        b.value = toBE 4 2 := fun b hb => two b (mem_cons_of_mem _ hb)
    have hsize (notHere : a.name ≠ sizeCellsName) :
        s.rootSizeCells = 2 ∨ ∃ b ∈ items, b.name = sizeCellsName := by
      rcases size with hset | ⟨b, hb, hname⟩
      · exact .inl hset
      · rcases mem_cons.mp hb with rfl | hb
        · exact absurd hname notHere
        · exact .inr ⟨b, hb, hname⟩
    cases steps with
    | @item _ after _ _ _ valStart fits value step rest =>
      have htwo (named : a.name = addressCellsName ∨ a.name = sizeCellsName) {cells : Nat}
          (read : beU32 dtb valStart = .ok cells) : cells = 2 := by
        have hvalue := two a mem_cons_self named
        have hword : be32 a.value 0 = be32 dtb valStart := by
          have h := be32_slice fits (show 0 + 4 ≤ a.value.length by rw [hvalue]; decide)
          rwa [value] at h
        rw [hvalue, be32_of_beU32 read] at hword
        exact (some.inj hword).symm
      cases propStep_of_ok step with
      | addressCells _ named _ read =>
        have hother : a.name ≠ sizeCellsName := by
          rw [named]
          decide
        exact ih rest root plain none' (htwo (.inl named) read) (hsize hother) htail
      | sizeCells _ named _ read =>
        exact ih rest root plain none' address (.inl (htwo (.inr named) read)) htail
      | memory current _ _ =>
        rw [plain] at current
        cases current
      | other notSize _ _ _ =>
        refine ih rest root plain none' address (hsize fun hname => notSize ?_) htail
        refine ⟨root, hname, ?_⟩
        rw [two a mem_cons_self (.inr hname), toBE_length]

end

theorem nodeReg_of_memoryReg {dt : DeviceTree} {tree : Node}
    (stream : Stream dt dt.structOff tree.events) (memory : ∃ reg, MemoryReg tree.events reg) :
    ∃ reg, dt.nodeReg memoryPrefix = some reg ∧ MemoryReg tree.events reg := by
  obtain ⟨reg, hreg⟩ := memory
  obtain ⟨node, hnode, ha⟩ := memoryReg_iff.mp hreg
  have hfound : ((named tree memoryPrefix).findSome? fun node => regOf node.2).isSome := by
    refine findSome?_isSome_iff.mpr ⟨node, hnode, ?_⟩
    rw [regOf, isSome_map, find?_isSome]
    exact ⟨_, ha, decide_eq_true rfl⟩
  obtain ⟨first, hfirst⟩ := isSome_iff_exists.mp hfound
  refine ⟨first, (nodeReg_eq stream memoryPrefix).trans hfirst, memoryReg_iff.mpr ?_⟩
  obtain ⟨node, hnode, hregOf⟩ := exists_of_findSome?_eq_some hfirst
  obtain ⟨a, ha, rfl⟩ := map_eq_some_iff.mp hregOf
  have hname := find?_some ha
  rw [decide_eq_true_eq] at hname
  refine ⟨node, hnode, ?_⟩
  rw [← hname]
  exact mem_of_find?_eq_some ha

theorem ramRegion_of_reg {dt : DeviceTree} {base : Nat}
    (found : dt.nodeReg memoryPrefix = some reg) (address : be64 reg 0 = some base)
    (long : 16 ≤ reg.length) : ∃ size, dt.ramRegion = .ok (base, size) := by
  obtain ⟨size, hsize⟩ : ∃ size, be64 reg 8 = some size := by
    rw [be64, be32, be32, getBytes_of_fits (by omega), getBytes_of_fits (by omega)]
    exact ⟨_, rfl⟩
  refine ⟨size, ?_⟩
  rw [ramRegion, found]
  dsimp only
  rw [address, hsize]

/-- Where the parser accepts a blob, the kernel reads the same header and walks the block of the
    parser's loop. -/
theorem parse_ok {blob : List Byte} (accepted : parse blob = .ok info) :
    ∃ dt, DeviceTree.new blob = .ok dt ∧ dt.blob = blob ∧ dt.structEnd ≤ dt.blob.length ∧
      parseLoop dt.blob dt.structEnd dt.stringsOff dt.structOff .start = .ok info := by
  obtain ⟨magic, hmagic, hchecked⟩ := of_bind_ok accepted
  split at hchecked
  · cases hchecked
  · rename_i hvalid
    obtain ⟨offStruct, hoff, hrest⟩ := of_bind_ok hchecked
    obtain ⟨offStrings, hstrings, hrest'⟩ := of_bind_ok hrest
    obtain ⟨sizeStruct, hsize, hblock⟩ := of_bind_ok hrest'
    refine ⟨⟨blob, offStruct, sizeStruct, offStrings⟩, ?_, rfl, ?_⟩
    · rw [DeviceTree.new, be32_of_beU32 hmagic]
      dsimp only
      rw [if_neg hvalid, be32_of_beU32 hoff, be32_of_beU32 hstrings, be32_of_beU32 hsize]
    · split at hblock
      · cases hblock
      · rename_i structEnd hend
        obtain ⟨-, rfl⟩ := checkedAdd_eq_some.mp hend
        split at hblock
        · cases hblock
        · rename_i hinside
          rw [not_or] at hinside
          exact ⟨not_lt.mp hinside.1, hblock⟩

section

variable {dt : DeviceTree} {items : List Attr} {children : List Node}

theorem ram_base_of_steps {t : ParseState}
    (stream : Stream dt dt.structOff (Tree.events (.node [] items children)))
    (hsteps : Steps dt.blob .start (Tree.events (.node [] items children)) t)
    (cells : WideCells (Tree.events (.node [] items children)))
    (memory : ∃ reg, MemoryReg (Tree.events (.node [] items children)) reg) :
    ∃ size, dt.ramRegion = .ok (t.info.memoryBase, size) := by
  obtain ⟨reg, hfound, hreg⟩ := nodeReg_of_memoryReg stream memory
  have hwhole := cells.regs reg hreg
  have hvisit : (nodeRegVisitor memoryPrefix).run false
      (Tree.events (.node [] items children)) = some reg := by
    rw [← hfound, nodeReg, walker, walk_stream (nodeReg_follows dt memoryPrefix) stream]
  rw [Tree.events] at hsteps hvisit
  cases hsteps with
  | enter hitems =>
    obtain ⟨-, htotal, haddress, -, hdepth, hmemory⟩ := beginNode_frame .start []
    obtain ⟨a, ha, hname⟩ := cells.size
    obtain ⟨after, hbelow, hlevel, hplain, hnone, htwo⟩ := root_items hitems hdepth hmemory htotal
      haddress (.inr ⟨a, rootProp_iff.mp ha, hname⟩)
      (fun b hb => cells.two b (rootProp_iff.mpr hb))
    have hfirst : (nodeRegVisitor memoryPrefix).run after.currentIsMemory
        (eventsAll children ++ [.leave]) = some reg := by
      have henter : (nodeRegVisitor memoryPrefix).enter false [] = false := rfl
      rw [Visitor.run, henter, Visitor.run_items, (nodeReg_seeks memoryPrefix).dead rfl] at hvisit
      rw [hplain]
      exact hvisit
    have hdeep : ∀ entry ∈ owned [[]] (eventsAll children ++ [.leave]), 1 < entry.1.length := by
      rw [owned_trees]
      intro entry hentry
      rcases mem_append.mp hentry with hbelow | hnone
      · exact owned_deep [] children hbelow
      · cases hnone
    have hbase := base_of_first_reg hbelow hdeep hlevel htwo hnone hfirst hwhole
    exact ramRegion_of_reg hfound hbase (by omega)

end

/-- The kernel reads the header of every blob that the firmware accepts, and the events that the
firmware goes through. Where they are those of a tree with an unnamed root and properties before
child nodes, the two agree on the base of RAM. -/
theorem ram_base_agrees {blob : List Byte} {info : DeviceTreeInfo} (accepted : parse blob = .ok info) :
    ∃ dt, DeviceTree.new blob = .ok dt ∧
      (∃ events t, Stream dt dt.structOff events ∧ Steps dt.blob .start events t ∧ t.info = info) ∧
      ∀ items children, Stream dt dt.structOff (Tree.events (.node [] items children)) →
        WideCells (Tree.events (.node [] items children)) →
        (∃ reg, MemoryReg (Tree.events (.node [] items children)) reg) →
        ∃ size, dt.ramRegion = .ok (info.memoryBase, size) := by
  obtain ⟨dt, hheader, -, hinside, hloop⟩ := parse_ok accepted
  obtain ⟨events, t, hstream, hsteps, rfl⟩ := steps_of_accepted hinside hloop
  refine ⟨dt, hheader, ⟨events, t, hstream, hsteps, rfl⟩, ?_⟩
  intro items children htree hcells hmemory
  rw [hstream.unique htree] at hsteps
  exact ram_base_of_steps htree hsteps hcells hmemory

def boardStrings : List Byte := regName ++ [0] ++ addressCellsName ++ [0] ++ sizeCellsName ++ [0]

def cellProps : List Attr := [⟨addressCellsName, toBE 4 2⟩, ⟨sizeCellsName, toBE 4 2⟩]

def threeBanks (base : Nat) : List Byte :=
  toBE 8 base ++ toBE 8 0x08000000 ++ toBE 8 0x100000000 ++ toBE 8 0x08000000 ++
    toBE 8 0x20000000 ++ toBE 8 0x100000000

def lowName : List Byte := ascii "memory@0"
def highName : List Byte := ascii "memory@1"

def memoryNode (name : List Byte) (base : Nat) : Node := .node name [⟨regName, threeBanks base⟩] []

def boardOwned : List (List (List Byte) × Attr) :=
  [([[]], ⟨addressCellsName, toBE 4 2⟩), ([[]], ⟨sizeCellsName, toBE 4 2⟩),
    ([lowName, []], ⟨regName, threeBanks 0x40000000⟩),
    ([highName, []], ⟨regName, threeBanks 0x80000000⟩)]

theorem board_wide (events : List (Event (List Byte) Attr))
    (entries : (owned [] events).Perm boardOwned) :
    WideCells events ∧ ∃ reg, MemoryReg events reg := by
  have hmem : ∀ entry, entry ∈ owned [] events ↔ entry ∈ boardOwned := fun _ => entries.mem_iff
  refine ⟨⟨⟨⟨sizeCellsName, toBE 4 2⟩, ⟨[], ?_⟩, rfl⟩, ?_, ?_⟩, threeBanks 0x40000000, lowName, [[]], ?_, ?_⟩
  · rw [hmem]
    decide +kernel
  · rintro a ⟨root, ha⟩ -
    have hroot : ∀ entry ∈ boardOwned, entry.1.length = 1 → entry.2.value = toBE 4 2 := by
      decide +kernel
    exact hroot _ ((hmem _).mp ha) rfl
  · rintro reg ⟨node, path, -, hreg⟩
    have hmemory : ∀ entry ∈ boardOwned, entry.2.name = regName → 0 < entry.2.value.length ∧
        entry.2.value.length % 16 = 0 ∧ be64 entry.2.value 8 ≠ some 0 := by
      decide +kernel
    exact hmemory _ ((hmem _).mp hreg) rfl
  · decide +kernel
  · rw [hmem]
    decide +kernel

theorem ok_of_toOption {α : Type} {result : Result α} {a : α} (found : result.toOption = some a) :
    result = .ok a := by
  cases result with
  | error e => cases found
  | ok b => exact congrArg Except.ok (some.inj found)

def boardTree : Node := .node [] cellProps [memoryNode lowName 0x40000000, memoryNode highName 0x80000000]

def boardDt : DeviceTree := packed boardTree.events boardStrings

theorem boardDt_stream : Stream boardDt boardDt.structOff boardTree.events :=
  pack_stream (packed_spelled (by decide +kernel))

theorem ram_base_agrees_board : ∃ info, parse boardDt.blob = .ok info ∧
    WideCells boardTree.events ∧ (∃ reg, MemoryReg boardTree.events reg) ∧
      ∃ size, boardDt.ramRegion = .ok (info.memoryBase, size) := by
  have haccepted : parse boardDt.blob = .ok ⟨0x40000000, 0x220000000, 0, 0, 0⟩ :=
    ok_of_toOption (by decide +kernel)
  obtain ⟨hcells, hmemory⟩ := board_wide boardTree.events (by decide +kernel)
  obtain ⟨dt, hheader, -, hagree⟩ := ram_base_agrees haccepted
  cases Except.ok.inj (hheader.symm.trans (pack_new (by decide +kernel)))
  exact ⟨_, haccepted, hcells, hmemory, hagree _ _ boardDt_stream hcells hmemory⟩

def lateEvents : List (Event (List Byte) Attr) :=
  .enter [] :: ((memoryNode lowName 0x40000000).events ++ ((memoryNode highName 0x80000000).events ++
    (cellProps.map .item ++ [.leave])))

def lateDt : DeviceTree := packed lateEvents boardStrings

theorem ram_base_differs : ∃ blob info dt events, parse blob = .ok info ∧ DeviceTree.new blob = .ok dt ∧
    Stream dt dt.structOff events ∧ WideCells events ∧ (∃ reg, MemoryReg events reg) ∧
      ¬ ∃ size, dt.ramRegion = .ok (info.memoryBase, size) := by
  have haccepted : parse lateDt.blob = .ok ⟨0x80000000, 0, 0, 0, 0⟩ :=
    ok_of_toOption (by decide +kernel)
  have hregion : lateDt.ramRegion.toOption = some (0x40000000, 0x08000000) := by decide +kernel
  obtain ⟨hcells, hmemory⟩ := board_wide lateEvents (by decide +kernel)
  refine ⟨lateDt.blob, _, lateDt, lateEvents, haccepted, pack_new (by decide +kernel),
    pack_stream (packed_spelled (by decide +kernel)),
    hcells, hmemory, ?_⟩
  rintro ⟨size, hsame⟩
  rw [hsame] at hregion
  cases some.inj hregion

end CibosPlatform.Firmware.Fdt

/- source: cibos-kernel/src/paging.rs, cibos-kernel/src/frame.rs
   digest: Four-level page tables in physical memory, call by call. -/

import CibosPlatform.Kernel.Frame.Allocator

/-! The physical-to-pointer map of the source gives every frame its own 512 entries. -/

namespace CibosPlatform.Kernel.Paging.Tables

open Core MachineWord Program Frame.Allocator Prog

abbrev levels : Nat := 4

abbrev indexBits : Nat := 9

abbrev entries : Nat := 512

abbrev blockSize : Nat := frameSize * entries

abbrev Entry := BitVec 64

structure Permissions where
  read : Bool
  write : Bool
  execute : Bool
  user : Bool
  device : Bool

structure PageTableEncoder where
  encodeTable : PhysFrame → Entry
  encodeLeaf : PhysFrame → Permissions → Entry
  encodeBlockLeaf : PhysFrame → Permissions → Nat → Entry
  isPresent : Entry → Bool
  isBlockLeaf : Entry → Nat → Bool
  entryFrame : Entry → PhysFrame

structure Machine where
  mem : PhysFrame → Nat → Entry
  frames : AllocState

abbrev OnMachine := Prog Machine KernelError

namespace Machine

def write (m : Machine) (table : PhysFrame) (index : Nat) (entry : Entry) : Machine :=
  { m with mem := fun f i => if f = table ∧ i = index then entry else m.mem f i }

def zero (m : Machine) (frame : PhysFrame) : Machine :=
  { m with mem := fun f i => if f = frame then 0 else m.mem f i }

def onFrames {α : Type} (call : Prog AllocState KernelError α) : OnMachine α := fun m =>
  ((call m.frames).1, { m with frames := (call m.frames).2 })

end Machine

def allocateZeroed : OnMachine PhysFrame := do
  let frame ← Machine.onFrames allocate
  update fun m => m.zero frame
  pure frame

def index (virt level : Nat) : Nat := (virt >>> (12 + indexBits * (levels - 1 - level))) &&& (entries - 1)

def indices (virt n : Nat) : List (Nat × Nat) :=
  (List.range n).map fun level => (level, index virt level)

/-- Walk down from a table, allocating the tables that are missing. `map` refuses to walk through a
large block; `map_block_2m` walks levels that never hold one and does not look. -/
def descend (E : PageTableEncoder) (refuseBlocks : Bool) :
    List (Nat × Nat) → PhysFrame → OnMachine PhysFrame
  | [], table => pure table
  | (level, i) :: rest, table => do
    let entry ← gets fun m => m.mem table i
    if E.isPresent entry then do
      rejectIf (refuseBlocks && E.isBlockLeaf entry level)
        (.invalidState "address covered by an existing large-page block")
      descend E refuseBlocks rest (E.entryFrame entry)
    else do
      let child ← allocateZeroed
      update fun m => m.write table i (E.encodeTable child)
      descend E refuseBlocks rest child

def newRoot : OnMachine PhysFrame := allocateZeroed

def map (E : PageTableEncoder) (root : PhysFrame) (virt : Nat) (frame : PhysFrame)
    (perms : Permissions) : OnMachine Unit := do
  rejectIf (virt % frameSize ≠ 0) (.invalidState "unaligned virtual address")
  let table ← descend E true (indices virt (levels - 1)) root
  let leaf ← gets fun m => m.mem table (index virt (levels - 1))
  rejectIf (E.isPresent leaf) (.invalidState "page already mapped")
  update fun m => m.write table (index virt (levels - 1)) (E.encodeLeaf frame perms)

def mapBlock2m (E : PageTableEncoder) (root : PhysFrame) (virt : Nat) (frame : PhysFrame)
    (perms : Permissions) : OnMachine Unit := do
  rejectIf (virt % blockSize ≠ 0 ∨ frame.addr % blockSize ≠ 0)
    (.invalidState "unaligned 2 MiB block")
  let table ← descend E false (indices virt (levels - 2)) root
  let entry ← gets fun m => m.mem table (index virt (levels - 2))
  rejectIf (E.isPresent entry) (.invalidState "2 MiB slot already mapped")
  update fun m =>
    m.write table (index virt (levels - 2)) (E.encodeBlockLeaf frame perms (levels - 2))

def pageAddr (profile : BuildProfile) (base i : Nat) : Option Nat :=
  (mulWord profile i frameSize).bind fun offset => addWord profile base offset

section

variable {σ : Type} (profile : BuildProfile) (mapPage mapBlock : Nat → PhysFrame → Prog σ KernelError Unit)
  (virt phys count : Nat)

/-- The `while i < count` loop of `map_range`, over the two calls it makes. A round advances by at
least one page, so `count` rounds are enough. -/
def rangeLoop : Nat → Nat → Prog σ KernelError Unit
  | 0, i => if i < count then trap else pure ()
  | fuel + 1, i =>
    if i < count then do
      let v ← orPanic (pageAddr profile virt i)
      let p ← orPanic (pageAddr profile phys i)
      if v % blockSize = 0 ∧ p % blockSize = 0 ∧ entries ≤ count - i then do
        mapBlock v (PhysFrame.containing p)
        rangeLoop fuel (i + entries)
      else do
        mapPage v (PhysFrame.containing p)
        rangeLoop fuel (i + 1)
    else pure ()

end

def mapRange (profile : BuildProfile) (E : PageTableEncoder) (root : PhysFrame)
    (virt phys count : Nat) (perms : Permissions) : OnMachine Unit :=
  rangeLoop profile (fun v f => map E root v f perms) (fun v f => mapBlock2m E root v f perms)
    virt phys count count 0

def translateFrom (E : PageTableEncoder) (mem : PhysFrame → Nat → Entry) (virt : Nat) :
    List (Nat × Nat) → PhysFrame → Option Nat
  | [], table =>
    let leaf := mem table (index virt (levels - 1))
    if E.isPresent leaf then some ((E.entryFrame leaf).addr ||| (virt &&& (frameSize - 1))) else none
  | (level, i) :: rest, table =>
    let entry := mem table i
    if E.isPresent entry then
      if E.isBlockLeaf entry level then
        let span := 1 <<< (12 + indexBits * (levels - 1 - level))
        some ((E.entryFrame entry).addr ||| (virt &&& (span - 1)))
      else translateFrom E mem virt rest (E.entryFrame entry)
    else none

def translate (E : PageTableEncoder) (mem : PhysFrame → Nat → Entry) (root : PhysFrame) (virt : Nat) :
    Option Nat :=
  translateFrom E mem virt (indices virt (levels - 1)) root

end CibosPlatform.Kernel.Paging.Tables

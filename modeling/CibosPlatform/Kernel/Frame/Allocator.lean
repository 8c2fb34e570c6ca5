/- source: cibos-kernel/src/frame.rs, cibos-kernel/src/error.rs
   digest: The bitmap physical frame allocator, call by call. -/

import CibosPlatform.Core.WordBitmap
import CibosPlatform.Shared.Hardware

/-! A set bit is a frame that is allocated or was never available. Every method holds the lock for its whole
body, so it is one step on the state. -/

namespace CibosPlatform.Kernel.Frame.Allocator

open Core Program MachineWord Shared.Hardware WordBitmap Prog

inductive KernelError where
  | unknownContainer
  | limitExceeded (resource : String)
  | invalidState (reason : String)
  deriving DecidableEq

abbrev frameSize : Nat := 4096

structure PhysFrame where
  addr : Nat
  addr_lt : addr < wordBound
  aligned : addr % frameSize = 0

namespace PhysFrame

@[ext] theorem ext {f g : PhysFrame} (h : f.addr = g.addr) : f = g := by
  cases f
  cases g
  simpa using h

instance : DecidableEq PhysFrame := fun _ _ => decidable_of_iff' _ PhysFrame.ext_iff

def containing (addr : Nat) : PhysFrame where
  addr := (addr - addr % frameSize) % wordBound
  addr_lt := Nat.mod_lt _ (by decide)
  aligned := by
    simp only [frameSize, wordBound]
    omega

def fromIndex (index : Nat) : PhysFrame where
  addr := index * frameSize % wordBound
  addr_lt := Nat.mod_lt _ (by decide)
  aligned := by
    simp only [frameSize, wordBound]
    omega

def index (frame : PhysFrame) : Nat := frame.addr / frameSize

end PhysFrame

structure AllocState where
  bitmap : List (BitVec 64)
  frameCount : Nat
  allocated : Nat
  usable : Nat
  nextHint : Nat
  deriving DecidableEq

def releaseFrame (reservedFrame : Nat) (acc : List (BitVec 64) × Nat) (f : Nat) :
    Option (List (BitVec 64) × Nat) :=
  if f ≥ reservedFrame then
    (clear acc.1 f).map fun bitmap => (bitmap, acc.2 + 1)
  else
    some (acc.1, acc.2 + 1)

def releaseRegion (profile : BuildProfile) (reservedFrame : Nat)
    (acc : List (BitVec 64) × Nat) (region : MemoryRegion) : Option (List (BitVec 64) × Nat) := do
  let first := divCeil region.base frameSize
  let last := (← region.endAddr profile) / frameSize
  (upTo first last).foldlM (releaseFrame reservedFrame) acc

def countBits (bitmap : List (BitVec 64)) (value : Bool) (count : Nat) : Option Nat :=
  (upTo 0 count).foldlM (fun n f => (test bitmap f).map fun b => if b = value then n + 1 else n) 0

def fromRegions (profile : BuildProfile) (regions : List MemoryRegion) (reservedBelow : Nat) :
    Option AllocState := do
  let usableRegions := regions.filter fun r => r.kind = .usable
  let ends ← usableRegions.mapM fun r => r.endAddr profile
  let maxEnd := ends.foldl max 0
  let frameCount := maxEnd / frameSize
  let words := divCeil frameCount 64
  let reservedFrame := divCeil reservedBelow frameSize
  let (bitmap, usable) ← usableRegions.foldlM (releaseRegion profile reservedFrame)
    (List.replicate words (BitVec.allOnes 64), 0)
  let allocated ← countBits bitmap true frameCount
  some
    { bitmap := bitmap
      frameCount := frameCount
      allocated := allocated
      usable := usable
      nextHint := reservedFrame }

/-- The single-pass search for `n` consecutive clear bits, with the start and length of the current
run; it stops at the first that is long enough. -/
def runScan (bitmap : List (BitVec 64)) (n : Nat) : List Nat → Nat → Nat → Option (Option Nat)
  | [], _, _ => some none
  | f :: rest, runStart, runLen =>
    match test bitmap f with
    | none => none
    | some true => runScan bitmap n rest runStart 0
    | some false =>
      let runStart' := if runLen = 0 then f else runStart
      if runLen + 1 = n then some (some runStart')
      else runScan bitmap n rest runStart' (runLen + 1)

def allocateContiguous (n : Nat) : Prog AllocState KernelError PhysFrame := do
  let n := max n 1
  let s ← gets id
  let count := s.frameCount
  if n > count then
    fail (.limitExceeded "physical frames")
  else
    match ← orPanic (runScan s.bitmap n (upTo 0 count) 0 0) with
    | none => fail (.limitExceeded "contiguous physical frames")
    | some runStart =>
      let bitmap ← orPanic ((upTo runStart (runStart + n)).foldlM mark s.bitmap)
      update fun s => { s with bitmap := bitmap, allocated := s.allocated + n }
      pure (PhysFrame.fromIndex runStart)

def firstClear (bitmap : List (BitVec 64)) : List Nat → Option (Option Nat)
  | [] => some none
  | f :: rest =>
    match test bitmap f with
    | none => none
    | some true => firstClear bitmap rest
    | some false => some (some f)

def allocate : Prog AllocState KernelError PhysFrame := do
  let s ← gets id
  let count := s.frameCount
  let start := s.nextHint
  match ← orPanic (firstClear s.bitmap (upTo start count ++ upTo 0 start)) with
  | none => fail (.limitExceeded "physical frames")
  | some f =>
    let bitmap ← orPanic (mark s.bitmap f)
    update fun s => { s with bitmap := bitmap, allocated := s.allocated + 1, nextHint := f + 1 }
    pure (PhysFrame.fromIndex f)

def free (frame : PhysFrame) : Prog AllocState KernelError Unit := do
  let s ← gets id
  let f := frame.index
  if f ≥ s.frameCount then
    pure ()
  else if ← orPanic (test s.bitmap f) then
    let bitmap ← orPanic (clear s.bitmap f)
    update fun s =>
      { s with
        bitmap := bitmap
        allocated := s.allocated - 1
        nextHint := if f < s.nextHint then f else s.nextHint }
  else
    pure ()

def freeFrames (s : AllocState) : Option Nat := countBits s.bitmap false s.frameCount

end CibosPlatform.Kernel.Frame.Allocator

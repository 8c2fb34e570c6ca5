/- source: cibos-dtb/src/lib.rs
   digest: The kernel's walkers over a flattened device tree, and the events they read. -/

import CibosPlatform.Core.Endian
import CibosPlatform.Core.EventTree

/-! The five walkers of the source run one loop over the tokens and differ in what they do at a token. Offsets
are 32-bit numbers, so no sum of them overflows a 64-bit position. -/

namespace CibosPlatform.Dtb.Blob

open Core BigEndian EventTree LittleEndian

def fdtMagic : Nat := 0xd00dfeed

def fdtBeginNode : Nat := 1
def fdtEndNode : Nat := 2
def fdtProp : Nat := 3
def fdtNop : Nat := 4
def fdtEnd : Nat := 9

inductive DtbError where
  | badMagic
  | truncated
  | notFound

structure DeviceTree where
  blob : List Byte
  structOff : Nat
  structSize : Nat
  stringsOff : Nat

variable (b : List Byte)

def getBytes (start len : Nat) : Option (List Byte) :=
  if start + len ≤ b.length then some (slice b start len) else none

def be32 (pos : Nat) : Option Nat := (getBytes b pos 4).map ofBE

def be64 (pos : Nat) : Option Nat := do
  let hi ← be32 b pos
  let lo ← be32 b (pos + 4)
  pure (hi <<< 32 ||| lo)

/-- The bytes from a position up to the next zero byte or the end of the blob. -/
def cstr (start : Nat) : List Byte := (b.drop start).takeWhile (· ≠ 0)

def align4 (n : Nat) : Nat := (n + 3) / 4 * 4

def regName : List Byte := [0x72, 0x65, 0x67]

def memoryPrefix : List Byte := [0x6d, 0x65, 0x6d, 0x6f, 0x72, 0x79]

def startsWith (name start : List Byte) : Bool := start.isPrefixOf name

/-- What a walker does at a token. A property is given by its name offset, if that can be read, and by
    the position and length of its value. -/
structure Handler (σ ρ : Type) where
  truncated : σ → ρ
  unknown : σ → ρ
  onBegin : σ → List Byte → σ
  onProp : σ → Option Nat → Nat → Nat → Except ρ σ
  onEnd : σ → σ
  finish : σ → ρ

theorem le_align4 (n : Nat) : n ≤ align4 n := by
  rw [align4]
  omega

def walk {σ ρ : Type} (blob : List Byte) (h : Handler σ ρ) (stop pos : Nat) (s : σ) : ρ :=
  if pos < stop then
    match be32 blob pos with
    | none => h.truncated s
    | some token =>
      if token = fdtBeginNode then
        let name := cstr blob (pos + 4)
        walk blob h stop (align4 (pos + 4 + name.length + 1)) (h.onBegin s name)
      else if token = fdtProp then
        match be32 blob (pos + 4) with
        | none => h.truncated s
        | some len =>
          match h.onProp s (be32 blob (pos + 8)) (pos + 12) len with
          | .error r => r
          | .ok s' => walk blob h stop (align4 (pos + 12 + len)) s'
      else if token = fdtEndNode then walk blob h stop (pos + 4) (h.onEnd s)
      else if token = fdtNop then walk blob h stop (pos + 4) s
      else if token = fdtEnd then h.finish s
      else h.unknown s
  else h.finish s
  termination_by stop - pos
  decreasing_by
    · have := le_align4 (pos + 4 + (cstr blob (pos + 4)).length + 1)
      omega
    · have := le_align4 (pos + 12 + len)
      omega
    · omega
    · omega

namespace DeviceTree

def structEnd (dt : DeviceTree) : Nat := dt.structOff + dt.structSize

def new (blob : List Byte) : Except DtbError DeviceTree :=
  match be32 blob 0 with
  | none => .error .truncated
  | some magic =>
    if magic ≠ fdtMagic then .error .badMagic
    else
      match be32 blob 8, be32 blob 12, be32 blob 36 with
      | some structOff, some stringsOff, some structSize =>
        .ok ⟨blob, structOff, structSize, stringsOff⟩
      | _, _, _ => .error .truncated

variable (dt : DeviceTree)

/-- An offset out of range gives an empty name. -/
def propName (nameoff : Nat) : List Byte :=
  if dt.blob.length ≤ dt.stringsOff + nameoff then [] else cstr dt.blob (dt.stringsOff + nameoff)

def walker {σ ρ : Type} (h : Handler σ ρ) (s : σ) : ρ := walk dt.blob h dt.structEnd dt.structOff s

variable (pre : List Byte)

/-- Whether the node entered last has the prefix; leaving any node clears it. -/
def nodeRegHandler : Handler Bool (Option (List Byte)) where
  truncated _ := none
  unknown _ := none
  onBegin _ name := startsWith name pre
  onProp inTarget nameoff dataStart len :=
    match nameoff with
    | none => .error none
    | some off =>
      if inTarget ∧ dt.propName off = regName then .error (getBytes dt.blob dataStart len)
      else .ok inTarget
  onEnd _ := false
  finish _ := none

def nodeReg : Option (List Byte) := dt.walker (dt.nodeRegHandler pre) false

def ramRegion : Except DtbError (Nat × Nat) :=
  match dt.nodeReg memoryPrefix with
  | none => .error .notFound
  | some reg =>
    match be64 reg 0, be64 reg 8 with
    | some base, some size => .ok (base, size)
    | _, _ => .error .truncated

def window (reg : List Byte) : Option (Nat × Nat) :=
  (be64 reg 0).map fun base => (base, (be64 reg 8).getD 0x1000)

def lower (best : Option (Nat × Nat)) (found : Nat × Nat) : Option (Nat × Nat) :=
  match best with
  | none => some found
  | some (b, size) => if found.1 < b then some found else some (b, size)

def lowestHandler : Handler (Bool × Option (Nat × Nat)) (Except DtbError (Nat × Nat)) where
  truncated _ := .error .truncated
  unknown _ := .error .truncated
  onBegin s name := (startsWith name pre, s.2)
  onProp s nameoff dataStart len :=
    match nameoff with
    | none => .error (.error .truncated)
    | some off =>
      if s.1 ∧ dt.propName off = regName then
        match (getBytes dt.blob dataStart len).bind window with
        | some found => .ok (s.1, lower s.2 found)
        | none => .ok s
      else .ok s
  onEnd s := (false, s.2)
  finish s := s.2.elim (.error .notFound) .ok

def deviceRegLowest : Except DtbError (Nat × Nat) := dt.walker (dt.lowestHandler pre) (false, none)

/-- Counting does not read the name of a property, and stops where the others report. -/
def countHandler : Handler Nat Nat where
  truncated count := count
  unknown count := count
  onBegin count name := if startsWith name pre then count + 1 else count
  onProp count _ _ _ := .ok count
  onEnd count := count
  finish count := count

def countNodes : Nat := dt.walker (countHandler pre) 0

def findPropHandler (prop : List Byte) : Handler Unit (Option Nat) where
  truncated _ := none
  unknown _ := none
  onBegin _ _ := ()
  onProp _ nameoff dataStart len :=
    match nameoff with
    | none => .error none
    | some off =>
      if dt.propName off = prop ∧ 4 ≤ len then .error (be32 dt.blob dataStart) else .ok ()
  onEnd _ := ()
  finish _ := none

def findPropU32 (prop : List Byte) : Option Nat := dt.walker (dt.findPropHandler prop) ()

def hasPropHandler (pre prop : List Byte) : Handler Bool Bool where
  truncated _ := false
  unknown _ := false
  onBegin _ name := startsWith name pre
  onProp inTarget nameoff _ _ :=
    match nameoff with
    | none => .error false
    | some off => if inTarget ∧ dt.propName off = prop then .error true else .ok inTarget
  onEnd _ := false
  finish _ := false

def nodeHasProp (pre prop : List Byte) : Bool := dt.walker (dt.hasPropHandler pre prop) false

end DeviceTree

structure Attr where
  name : List Byte
  value : List Byte
  deriving DecidableEq

section

variable (dt : DeviceTree)

/-- The events that can be read from a position on, up to the end token. -/
inductive Stream : Nat → List (Event (List Byte) Attr) → Prop
  | finish {pos : Nat} (inside : pos < dt.structEnd) (token : be32 dt.blob pos = some fdtEnd) :
      Stream pos []
  | nop {pos : Nat} {events : List (Event (List Byte) Attr)} (inside : pos < dt.structEnd)
      (token : be32 dt.blob pos = some fdtNop) (rest : Stream (pos + 4) events) : Stream pos events
  | enter {pos : Nat} {events : List (Event (List Byte) Attr)} (name : List Byte)
      (inside : pos < dt.structEnd) (token : be32 dt.blob pos = some fdtBeginNode)
      (spelled : cstr dt.blob (pos + 4) = name)
      (rest : Stream (align4 (pos + 4 + name.length + 1)) events) : Stream pos (.enter name :: events)
  | item {pos len nameoff : Nat} {events : List (Event (List Byte) Attr)}
      (inside : pos < dt.structEnd) (token : be32 dt.blob pos = some fdtProp)
      (length : be32 dt.blob (pos + 4) = some len) (offset : be32 dt.blob (pos + 8) = some nameoff)
      (fits : pos + 12 + len ≤ dt.blob.length) (rest : Stream (align4 (pos + 12 + len)) events) :
      Stream pos (.item ⟨dt.propName nameoff, slice dt.blob (pos + 12) len⟩ :: events)
  | leave {pos : Nat} {events : List (Event (List Byte) Attr)} (inside : pos < dt.structEnd)
      (token : be32 dt.blob pos = some fdtEndNode) (rest : Stream (pos + 4) events) :
      Stream pos (.leave :: events)

/-- A handler that does at tokens what a visitor does at events. -/
structure Handler.Follows {σ ρ : Type} (h : Handler σ ρ) (v : Visitor (List Byte) Attr σ ρ) :
    Prop where
  enter : ∀ s name, h.onBegin s name = v.enter s name
  item : ∀ s nameoff dataStart len, dataStart + len ≤ dt.blob.length →
    h.onProp s (some nameoff) dataStart len =
      v.item s ⟨dt.propName nameoff, slice dt.blob dataStart len⟩
  leave : ∀ s, h.onEnd s = v.leave s
  finish : ∀ s, h.finish s = v.finish s

variable {dt}

theorem Stream.unique {pos : Nat} {events events' : List (Event (List Byte) Attr)}
    (first : Stream dt pos events) (second : Stream dt pos events') : events = events' := by
  induction first generalizing events' with
  | finish inside token =>
    cases second with
    | finish => rfl
    | nop _ other | enter _ _ other | item _ other | leave _ other =>
      cases token.symm.trans other
  | nop inside token rest ih =>
    cases second with
    | nop _ _ rest' => exact ih rest'
    | finish _ other | enter _ _ other | item _ other | leave _ other =>
      cases token.symm.trans other
  | enter name inside token spelled rest ih =>
    cases second with
    | enter name' _ _ spelled' rest' =>
      cases spelled.symm.trans spelled'
      rw [ih rest']
    | finish _ other | nop _ other | item _ other | leave _ other =>
      cases token.symm.trans other
  | item inside token length offset fits rest ih =>
    cases second with
    | item _ _ length' offset' _ rest' =>
      cases Option.some.inj (length.symm.trans length')
      cases Option.some.inj (offset.symm.trans offset')
      rw [ih rest']
    | finish _ other | nop _ other | enter _ _ other | leave _ other =>
      cases token.symm.trans other
  | leave inside token rest ih =>
    cases second with
    | leave _ _ rest' => rw [ih rest']
    | finish _ other | nop _ other | enter _ _ other | item _ other =>
      cases token.symm.trans other

theorem walk_stream {σ ρ : Type} {h : Handler σ ρ} {v : Visitor (List Byte) Attr σ ρ}
    (follows : h.Follows dt v) {pos : Nat} {events : List (Event (List Byte) Attr)}
    (stream : Stream dt pos events) (s : σ) :
    walk dt.blob h dt.structEnd pos s = v.run s events := by
  induction stream generalizing s with
  | finish inside token =>
    rw [walk, if_pos inside, token]
    exact follows.finish s
  | nop inside token rest ih =>
    rw [walk, if_pos inside, token]
    exact ih s
  | enter name inside token spelled rest ih =>
    rw [walk, if_pos inside, token]
    dsimp only
    rw [if_pos rfl, spelled, ih, follows.enter, Visitor.run]
  | item inside token length offset fits rest ih =>
    rw [walk, if_pos inside, token]
    dsimp only
    rw [if_neg (by decide), if_pos rfl, length, offset]
    dsimp only
    rw [follows.item s _ _ _ fits, Visitor.run]
    cases v.item s _ with
    | error r => rfl
    | ok s' => exact ih s'
  | leave inside token rest ih =>
    rw [walk, if_pos inside, token]
    dsimp only
    rw [if_neg (by decide), if_neg (by decide), if_pos rfl, ih, follows.leave, Visitor.run]

end

end CibosPlatform.Dtb.Blob

/- source: kernel-image/src/arch/ata.rs, cibos-kernel/src/block.rs
   digest: The writes of the ATA driver, and the status values it does not look at. -/

import Mathlib.Data.Stream.Init
import CibosPlatform.Core.Interaction
import CibosPlatform.Kernel.Cibosfs.Device

namespace CibosPlatform.KernelImage.Ata

open Core Interaction Ask LittleEndian MachineWord Program Kernel.Cibosfs.Device List

inductive Port where
  | outb (port val : Nat)
  | outw (word : Nat)
  | status

abbrev Reply : Port → Type
  | .outb _ _ | .outw _ => Unit
  | .status => Byte

abbrev Driver := Ask Port Reply BlockError

def statusCmd : Nat := 0x1f7

def srErr : Byte := 0x01
def srDrq : Byte := 0x08
def srDf : Byte := 0x20
def srBsy : Byte := 0x80

def cmdWriteSectors : Nat := 0x30
def cmdCacheFlush : Nat := 0xe7

def pollLimit : Nat := 10000000

structure AtaDisk where
  sectors : Nat
  select : Nat

def checkRange (total lba count len : Nat) : Except BlockError Unit :=
  if count = 0 ∨ len ≠ count * blockBytes then .error .badBuffer
  else if wordBound ≤ lba + count ∨ total < lba + count then .error .outOfRange
  else .ok ()

def outb (port val : Nat) : Driver Unit := ask (.outb port val) fun _ => done ()

def outw (word : Nat) : Driver Unit := ask (.outw word) fun _ => done ()

def AtaDisk.setup (disk : AtaDisk) (lba count : Nat) : Driver Unit := do
  outb 0x1f6 (disk.select ||| (lba >>> 24 &&& 0xf))
  outb 0x1f1 0
  outb 0x1f2 count
  outb 0x1f3 (lba &&& 0xff)
  outb 0x1f4 (lba >>> 8 &&& 0xff)
  outb 0x1f5 (lba >>> 16 &&& 0xff)

def poll (ready : Byte → Bool) : Nat → Driver Bool
  | 0 => done false
  | n + 1 => ask .status fun st => if ready st then done true else poll ready n

def waitClear (bits : Byte) : Driver Bool := poll (fun st => st &&& bits = 0) pollLimit

def drqOrErr (st : Byte) : Bool := st &&& srBsy = 0 ∧ st &&& (srDrq ||| srErr) ≠ 0

def waitDrqOrErr : Driver Bool := poll drqOrErr pollLimit

def checkStatus : Driver Unit :=
  ask .status fun (st : Byte) => rejectIf (st &&& (srErr ||| srDf) ≠ 0) .deviceError

def writeSector (buf : List Byte) (i : Nat) : Driver Unit := do
  rejectIf (¬ (← waitDrqOrErr)) .timeout
  checkStatus
  (upTo 0 256).forM fun w => outw (ofLE (slice buf (i * blockBytes + w * 2) 2))

def writeChunk (disk : AtaDisk) (lba : Nat) (buf : List Byte) (first chunk : Nat) :
    Driver Unit := do
  disk.setup (lba + first) chunk
  outb statusCmd cmdWriteSectors
  (upTo first (first + chunk)).forM (writeSector buf)
  outb statusCmd cmdCacheFlush
  rejectIf (¬ (← waitClear srBsy)) .timeout

def writeFrom (disk : AtaDisk) (lba count : Nat) (buf : List Byte) (first : Nat) : Driver Unit :=
  if _ : first < count then do
    writeChunk disk lba buf first (min (count - first) 255)
    writeFrom disk lba count buf (first + min (count - first) 255)
  else done ()
termination_by count - first

def AtaDisk.writeBlocks (disk : AtaDisk) (lba count : Nat) (buf : List Byte) : Driver Unit := do
  orFail (checkRange disk.sectors lba count buf.length)
  writeFrom disk lba count buf 0

def faulty (st : Byte) : Bool := st &&& srBsy = 0 ∧ st &&& (srErr ||| srDf) ≠ 0

def statusOf : Sigma Reply → Option Byte
  | ⟨.status, st⟩ => some st
  | _ => none

/-- A write that is reported as done read no status with a fault; it reads none before its first
command. -/
def Reported {σ : Type} (r : Ended Port Reply BlockError Unit σ) : Prop :=
  r.outcome = .ok () → ∀ st ∈ r.events.filterMap statusOf, faulty st = false

/-- A device presents a sequence of status values, one for each read of the register. -/
def presents : (q : Port) → Stream' Byte → Reply q × Stream' Byte
  | .status, values => (values.head, values.tail)
  | .outb _ _, values | .outw _, values => ((), values)

/-- The values of a wait that ends: the last is the first to pass the test. -/
def Waited (ready : Byte → Bool) (values : List Byte) : Prop :=
  ∃ before last, values = before ++ [last] ∧ before.length < pollLimit ∧
    (∀ st ∈ before, ready st = false) ∧ ready last = true

/-- The device takes this many sectors when it presents these values; `unchecked` are those that the
driver only waits with. -/
inductive Takes : Nat → List Byte → List Byte → Prop
  | none : Takes 0 [] []
  | sector {n : Nat} {wait values unchecked : List Byte} {checked : Byte}
      (ready : Waited drqOrErr wait) (clean : checked &&& (srErr ||| srDf) = 0)
      (rest : Takes n values unchecked) :
      Takes (n + 1) (wait ++ checked :: values) (wait ++ unchecked)

inductive Completes : Nat → List Byte → List Byte → Prop
  | none : Completes 0 [] []
  | chunk {count : Nat} {values unchecked flush later uncheckedLater : List Byte}
      (some_left : 0 < count) (sectors : Takes (min count 255) values unchecked)
      (flushed : Waited (fun st => st &&& srBsy = 0) flush)
      (rest : Completes (count - min count 255) later uncheckedLater) :
      Completes count (values ++ (flush ++ later)) (unchecked ++ (flush ++ uncheckedLater))

/-- The program ends with this result when it is presented with these values, and reads them all. -/
def Ends {α : Type} : Driver α → List Byte → α → Prop
  | .done a, values, b => a = b ∧ values = []
  | .fail _, _, _ | .panic, _, _ => False
  | .ask .status next, values, b => ∃ st rest, values = st :: rest ∧ Ends (next st) rest b
  | .ask (.outb _ _) next, values, b | .ask (.outw _) next, values, b => Ends (next ()) values b

section

variable {α β : Type} {p : Driver α} {values rest : List Byte}

private theorem ends_bind {f : α → Driver β} {b : β} : Ends (p >>= f) values b ↔
    ∃ first later a, values = first ++ later ∧ Ends p first a ∧ Ends (f a) later b := by
  induction p generalizing values with
  | done a =>
    constructor
    · exact fun h => ⟨[], values, a, rfl, ⟨rfl, rfl⟩, h⟩
    · rintro ⟨first, later, a, rfl, ⟨rfl, rfl⟩, h⟩
      exact h
  | fail e | panic =>
    constructor
    · exact False.elim
    · rintro ⟨_, _, _, _, h, _⟩
      exact h.elim
  | ask q next ih =>
    cases q with
    | outb port val => exact ih ()
    | outw word => exact ih ()
    | status =>
      constructor
      · rintro ⟨st, rest, rfl, h⟩
        obtain ⟨first, later, a, rfl, hfirst, hlater⟩ := (ih st).mp h
        exact ⟨st :: first, later, a, rfl, ⟨st, first, rfl, hfirst⟩, hlater⟩
      · rintro ⟨_, later, a, rfl, ⟨st, first, rfl, hfirst⟩, hlater⟩
        exact ⟨st, first ++ later, rfl, (ih st).mpr ⟨first, later, a, rfl, hfirst, hlater⟩⟩

private theorem ends_rejectIf {cond : Prop} [Decidable cond] {e : BlockError} :
    Ends (rejectIf cond e) values () ↔ ¬ cond ∧ values = [] := by
  unfold rejectIf
  split
  · rename_i h
    exact ⟨False.elim, fun hend => hend.1 h⟩
  · rename_i h
    exact ⟨fun hend => ⟨h, hend.2⟩, fun hend => ⟨rfl, hend.2⟩⟩

private theorem ends_poll {ready : Byte → Bool} {n : Nat} : Ends (poll ready n) values true ↔
    ∃ before last, values = before ++ [last] ∧ before.length < n ∧
      (∀ st ∈ before, ready st = false) ∧ ready last = true := by
  induction n generalizing values with
  | zero =>
    constructor
    · rintro ⟨h, -⟩
      cases h
    · rintro ⟨before, last, -, h, -⟩
      exact (not_lt_zero h).elim
  | succ n ih =>
    change (∃ st rest, values = st :: rest ∧
      Ends (if ready st then done true else poll ready n) rest true) ↔ _
    constructor
    · rintro ⟨st, rest, rfl, h⟩
      split at h
      · rename_i hready
        rw [h.2]
        exact ⟨[], st, rfl, Nat.succ_pos n, nofun, hready⟩
      · rename_i hready
        obtain ⟨before, last, rfl, hlen, hbefore, hlast⟩ := ih.mp h
        exact ⟨st :: before, last, rfl, Nat.succ_lt_succ hlen,
          forall_mem_cons.mpr ⟨Bool.eq_false_of_not_eq_true hready, hbefore⟩, hlast⟩
    · rintro ⟨before, last, rfl, hlen, hbefore, hlast⟩
      cases before with
      | nil =>
        refine ⟨last, [], rfl, ?_⟩
        rw [if_pos hlast]
        exact ⟨rfl, rfl⟩
      | cons st before =>
        obtain ⟨hst, hbefore⟩ := forall_mem_cons.mp hbefore
        refine ⟨st, before ++ [last], rfl, ?_⟩
        rw [if_neg (ne_true_of_eq_false hst)]
        exact ih.mpr ⟨before, last, rfl, Nat.lt_of_succ_lt_succ hlen, hbefore, hlast⟩

private theorem ends_wait {ready : Byte → Bool} :
    Ends (poll ready pollLimit >>= fun passed => rejectIf (¬ passed) .timeout) values () ↔
      Waited ready values := by
  refine ends_bind.trans ⟨?_, fun h => ?_⟩
  · rintro ⟨wait, _, passed, rfl, hwait, hreject⟩
    obtain ⟨hpassed, rfl⟩ := ends_rejectIf.mp hreject
    rw [not_not.mp hpassed] at hwait
    rw [append_nil]
    exact ends_poll.mp hwait
  · refine ⟨values, [], true, (append_nil _).symm, ends_poll.mpr h, ends_rejectIf.mpr ?_⟩
    exact ⟨not_not_intro rfl, rfl⟩

private theorem ends_forM_outw {f : Nat → Nat} {xs : List Nat} :
    Ends (xs.forM fun x => outw (f x)) values () ↔ values = [] := by
  induction xs with
  | nil => exact ⟨And.right, fun h => ⟨rfl, h⟩⟩
  | cons x xs ih => exact ih

variable {buf : List Byte}

private theorem ends_writeSector {i : Nat} : Ends (writeSector buf i) values () ↔
    ∃ wait checked, values = wait ++ [checked] ∧ Waited drqOrErr wait ∧
      checked &&& (srErr ||| srDf) = 0 := by
  unfold writeSector
  rw [← Ask.bind_assoc, ends_bind]
  constructor
  · rintro ⟨wait, later, ⟨⟩, rfl, hwait, hrest⟩
    obtain ⟨first, words, ⟨⟩, rfl, ⟨checked, rest, rfl, hreject⟩, hwords⟩ := ends_bind.mp hrest
    obtain ⟨hclean, rfl⟩ := ends_rejectIf.mp hreject
    rw [ends_forM_outw.mp hwords]
    exact ⟨wait, checked, rfl, ends_wait.mp hwait, not_not.mp hclean⟩
  · rintro ⟨wait, checked, rfl, hwait, hclean⟩
    refine ⟨wait, [checked], (), rfl, ends_wait.mpr hwait,
      ends_bind.mpr ⟨[checked], [], (), rfl, ?_, ?_⟩⟩
    · exact ⟨checked, [], rfl, ends_rejectIf.mpr ⟨not_not_intro hclean, rfl⟩⟩
    · exact ends_forM_outw.mpr rfl

private theorem ends_sectors {xs : List Nat} :
    Ends (xs.forM (writeSector buf)) values () ↔ ∃ unchecked, Takes xs.length values unchecked := by
  induction xs generalizing values with
  | nil =>
    constructor
    · rintro ⟨-, rfl⟩
      exact ⟨[], .none⟩
    · rintro ⟨_, ⟨⟩⟩
      exact ⟨rfl, rfl⟩
  | cons x xs ih =>
    refine ends_bind.trans ⟨?_, ?_⟩
    · rintro ⟨first, later, ⟨⟩, rfl, hsector, hrest⟩
      obtain ⟨wait, checked, rfl, hwait, hclean⟩ := ends_writeSector.mp hsector
      obtain ⟨unchecked, htakes⟩ := ih.mp hrest
      rw [append_assoc]
      exact ⟨wait ++ unchecked, .sector hwait hclean htakes⟩
    · rintro ⟨_, htakes⟩
      cases htakes with
      | @sector n wait later unchecked checked hwait hclean hrest =>
        refine ⟨wait ++ [checked], later, (), by rw [append_assoc]; rfl, ?_, ih.mpr ⟨_, hrest⟩⟩
        exact ends_writeSector.mpr ⟨wait, checked, rfl, hwait, hclean⟩

variable {disk : AtaDisk}

private theorem ends_writeChunk {lba first chunk : Nat} :
    Ends (writeChunk disk lba buf first chunk) values () ↔
      ∃ sectors unchecked flush, values = sectors ++ flush ∧ Takes chunk sectors unchecked ∧
        Waited (fun st => st &&& srBsy = 0) flush := by
  have hcount : (upTo first (first + chunk)).length = chunk := by
    rw [upTo, length_range', Nat.add_sub_cancel_left]
  -- the commands before the sectors read no status
  change Ends ((upTo first (first + chunk)).forM (writeSector buf) >>= fun _ =>
    outb statusCmd cmdCacheFlush >>= fun _ => do rejectIf (¬ (← waitClear srBsy)) .timeout)
    values () ↔ _
  refine ends_bind.trans ⟨?_, ?_⟩
  · rintro ⟨sectors, later, ⟨⟩, rfl, hsectors, hrest⟩
    obtain ⟨unchecked, htakes⟩ := ends_sectors.mp hsectors
    exact ⟨sectors, unchecked, later, rfl, hcount ▸ htakes, ends_wait.mp hrest⟩
  · rintro ⟨sectors, unchecked, flush, rfl, htakes, hflush⟩
    refine ⟨sectors, flush, (), rfl, ends_sectors.mpr ⟨unchecked, hcount.symm ▸ htakes⟩, ?_⟩
    exact ends_wait.mpr hflush

private theorem ends_writeFrom {lba count first : Nat} :
    Ends (writeFrom disk lba count buf first) values () ↔
      ∃ unchecked, Completes (count - first) values unchecked := by
  fun_induction writeFrom disk lba count buf first generalizing values with
  | case1 first inside ih =>
    have hleft : 0 < count - first := Nat.sub_pos_of_lt inside
    rw [Nat.sub_add_eq] at ih
    refine ends_bind.trans ⟨?_, ?_⟩
    · rintro ⟨_, later, ⟨⟩, rfl, hchunk, hrest⟩
      obtain ⟨sectors, unchecked, flush, rfl, htakes, hflush⟩ := ends_writeChunk.mp hchunk
      obtain ⟨uncheckedLater, hlater⟩ := ih.mp hrest
      rw [append_assoc]
      exact ⟨_, .chunk hleft htakes hflush hlater⟩
    · rintro ⟨_, hcompletes⟩
      generalize hn : count - first = n at hcompletes hleft
      cases hcompletes with
      | none => exact (lt_irrefl 0 hleft).elim
      | @chunk _ sectors unchecked flush later uncheckedLater _ htakes hflush hrest =>
        subst hn
        refine ⟨sectors ++ flush, later, (), (append_assoc ..).symm, ?_, ih.mpr ⟨_, hrest⟩⟩
        exact ends_writeChunk.mpr ⟨sectors, unchecked, flush, rfl, htakes, hflush⟩
  | case2 first beyond =>
    rw [Nat.sub_eq_zero_of_le (not_lt.mp beyond)]
    constructor
    · rintro ⟨-, rfl⟩
      exact ⟨[], .none⟩
    · rintro ⟨_, hcompletes⟩
      cases hcompletes with
      | none => exact ⟨rfl, rfl⟩
      | chunk some_left => exact (lt_irrefl 0 some_left).elim

private theorem ends_writeBlocks {lba count : Nat} :
    Ends (disk.writeBlocks lba count buf) values () ↔
      checkRange disk.sectors lba count buf.length = .ok () ∧
        ∃ unchecked, Completes count values unchecked := by
  unfold AtaDisk.writeBlocks
  cases checkRange disk.sectors lba count buf.length with
  | ok _ => exact ends_writeFrom.trans ⟨fun h => ⟨rfl, h⟩, And.right⟩
  | error e => exact ⟨False.elim, fun h => nomatch h.1⟩

private theorem ends_iff_of_run {presented rest : Stream' Byte} {a : α}
    {r : Ended Port Reply BlockError α (Stream' Byte)}
    (ran : p.run (fun q s => some (presents q s)) presented = some r) :
    Ends p values a ∧ presented = values ++ₛ rest ↔
      r.outcome = .ok a ∧ r.events.filterMap statusOf = values ∧ r.state = rest := by
  induction p generalizing presented values r with
  | done b =>
    cases ran
    constructor
    · rintro ⟨⟨rfl, rfl⟩, rfl⟩
      exact ⟨rfl, rfl, rfl⟩
    · rintro ⟨hout, rfl, rfl⟩
      cases hout
      exact ⟨⟨rfl, rfl⟩, rfl⟩
  | fail e | panic =>
    cases ran
    constructor
    · rintro ⟨h, -⟩
      exact h.elim
    · rintro ⟨h, -⟩
      cases h
  | ask q next ih =>
    obtain ⟨answer, later, hanswer, hran, rfl⟩ := run_ask ran
    cases hanswer
    cases q with
    | outb port val => exact (ih () hran :)
    | outw word => exact (ih () hran :)
    | status =>
      change (∃ st tail, values = st :: tail ∧ Ends (next st) tail a) ∧ _ ↔
        later.outcome = .ok a ∧ presented.head :: later.events.filterMap statusOf = values ∧ _
      constructor
      · rintro ⟨⟨st, tail, rfl, hend⟩, rfl⟩
        obtain ⟨hout, rfl, hstate⟩ := (ih st hran).mp ⟨hend, rfl⟩
        exact ⟨hout, rfl, hstate⟩
      · rintro ⟨hout, rfl, hstate⟩
        obtain ⟨hend, htail⟩ := (ih presented.head hran).mpr ⟨hout, rfl, hstate⟩
        refine ⟨⟨_, _, rfl, hend⟩, ?_⟩
        rw [Stream'.cons_append_stream, ← htail]
        exact (Stream'.eta presented).symm

variable {n : Nat} {unchecked : List Byte}

private theorem Takes.mem {st : Byte} (h : Takes n values unchecked) :
    (st ∈ unchecked → st ∈ values) ∧ (st ∈ values → st ∈ unchecked ∨ faulty st = false) := by
  induction h with
  | none => exact ⟨id, .inl⟩
  | @sector n wait values unchecked checked ready clean rest ih =>
    simp only [mem_append, mem_cons]
    refine ⟨Or.imp_right fun h => .inr (ih.1 h), ?_⟩
    rintro (hwait | rfl | hrest)
    · exact .inl (.inl hwait)
    · exact .inr (decide_eq_false fun hfault => hfault.2 clean)
    · exact (ih.2 hrest).imp_left .inr

private theorem Completes.mem {st : Byte} (h : Completes n values unchecked) :
    (st ∈ unchecked → st ∈ values) ∧ (st ∈ values → st ∈ unchecked ∨ faulty st = false) := by
  induction h with
  | none => exact ⟨id, .inl⟩
  | @chunk count values unchecked flush later uncheckedLater some_left sectors flushed rest ih =>
    simp only [mem_append]
    refine ⟨Or.imp sectors.mem.1 (Or.imp_right ih.1), ?_⟩
    rintro (hsectors | hflush | hrest)
    · exact (sectors.mem.2 hsectors).imp_left .inl
    · exact .inl (.inr (.inl hflush))
    · exact (ih.2 hrest).imp_left fun h => .inr (.inr h)

end

/-- For every sequence of status values: a write reported as done was done exactly if, whenever the
values let it through, none that the two waits read has a fault. -/
theorem write_reported_iff (disk : AtaDisk) (lba count : Nat) (buf : List Byte)
    (presented : Stream' Byte) :
    ∃ r, (disk.writeBlocks lba count buf).run (fun q s => some (presents q s)) presented = some r ∧
      (Reported r ↔ (checkRange disk.sectors lba count buf.length = .ok () →
        ∀ values unchecked rest, presented = values ++ₛ rest → Completes count values unchecked →
          ∀ st ∈ unchecked, faulty st = false)) := by
  obtain ⟨r, hran⟩ := run_total presents (disk.writeBlocks lba count buf) presented
  refine ⟨r, hran, fun h hrange values unchecked rest hvalues hcompletes st hst => ?_,
    fun h hok st hst => ?_⟩
  · have hend := ends_writeBlocks.mpr ⟨hrange, unchecked, hcompletes⟩
    obtain ⟨hok, hread, -⟩ := (ends_iff_of_run hran).mp ⟨hend, hvalues⟩
    rw [← hread] at hcompletes
    exact h hok st (hcompletes.mem.1 hst)
  · obtain ⟨hend, hvalues⟩ := (ends_iff_of_run hran).mpr ⟨hok, rfl, rfl⟩
    obtain ⟨hrange, unchecked, hcompletes⟩ := ends_writeBlocks.mp hend
    exact (hcompletes.mem.2 hst).elim (h hrange _ unchecked _ hvalues hcompletes st) id

/-- The sector is taken, and the flush ends with the error bit. -/
theorem flush_error_reported : ∃ r,
    (AtaDisk.writeBlocks ⟨1, 0xe0⟩ 0 1 (replicate 512 0)).run (fun q s => some (presents q s))
      ([srDrq, srDrq, srErr] ++ₛ Stream'.const srDrq) = some r ∧ r.outcome = .ok () ∧
      ¬ Reported r := by
  have hrun : Option.any (fun r => r.outcome = .ok () ∧ (r.events.filterMap statusOf).any faulty)
      ((AtaDisk.writeBlocks ⟨1, 0xe0⟩ 0 1 (replicate 512 0)).run (fun q s => some (presents q s))
        ([srDrq, srDrq, srErr] ++ₛ Stream'.const srDrq)) = true := by decide +kernel
  obtain ⟨r, hr, hend⟩ := (Option.any_eq_true _ _).mp hrun
  obtain ⟨hdone, hfaulty⟩ := of_decide_eq_true hend
  obtain ⟨st, hst, hfault⟩ := any_eq_true.mp hfaulty
  exact ⟨r, hr, hdone, fun h => Bool.false_ne_true ((h hdone st hst).symm.trans hfault)⟩

end CibosPlatform.KernelImage.Ata

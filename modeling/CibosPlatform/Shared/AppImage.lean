/- source: shared/src/protocols/app_image.rs
   digest: Application images: the parser, the builder, and that one reads back what the other wrote. -/

import CibosPlatform.Firmware.ImageBuild

namespace CibosPlatform.Shared.AppImage

open Core LittleEndian MachineWord Program List Outcome Nat
open Firmware.ImageBuild (writeAt copyAt writeAt_append copyAt_append)
open Serialization ByteWriter

def appMagic : Nat := 0x50504143

def appVersion : Nat := 1

def appHeaderLen : Nat := 32

def appSegmentLen : Nat := 32

def maxSegments : Nat := 16

def segFlagRead : Nat := 1

def segFlagWrite : Nat := 2

def segFlagExec : Nat := 4

inductive AppImageError where
  | truncated
  | badMagic
  | badVersion
  | tooManySegments
  | segmentOutOfBounds
  | segmentSizeInconsistent
deriving DecidableEq, Repr

structure AppImageHeader where
  magic : Nat
  version : Nat
  segmentCount : Nat
  reserved : Nat
  entry : Nat
  imageLen : Nat

structure AppSegment where
  vaddr : Nat
  fileOffset : Nat
  fileSize : Nat
  memSize : Nat
  flags : Nat
  reserved : Nat

structure Image where
  bytes : List Byte
  header : AppImageHeader

def readU32 : Prog ByteReader AppImageError Nat := Prog.mapErr .truncated ByteReader.getU32

def readU64 : Prog ByteReader AppImageError Nat := Prog.mapErr .truncated ByteReader.getU64

def AppImageHeader.read : Prog ByteReader AppImageError AppImageHeader := do
  let magic ← readU32
  let version ← readU32
  let segmentCount ← readU32
  let reserved ← readU32
  let entry ← readU64
  let imageLen ← readU64
  pure ⟨magic, version, segmentCount, reserved, entry, imageLen⟩

def AppImageHeader.parse (bytes : List Byte) : Outcome AppImageError AppImageHeader := do
  rejectIf (bytes.length < appHeaderLen) .truncated
  let header ← AppImageHeader.read.eval (.new (bytes.take appHeaderLen))
  rejectIf (header.magic ≠ appMagic) .badMagic
  rejectIf (header.version ≠ appVersion) .badVersion
  rejectIf (maxSegments < header.segmentCount) .tooManySegments
  pure header

namespace AppSegment

def read : Prog ByteReader AppImageError AppSegment := do
  let vaddr ← readU64
  let fileOffset ← readU64
  let fileSize ← readU32
  let memSize ← readU32
  let flags ← readU32
  let reserved ← readU32
  pure ⟨vaddr, fileOffset, fileSize, memSize, flags, reserved⟩

def parse (bytes : List Byte) : Outcome AppImageError AppSegment := do
  rejectIf (bytes.length < appSegmentLen) .truncated
  read.eval (.new (bytes.take appSegmentLen))

variable (seg : AppSegment)

def readable : Bool := seg.flags &&& segFlagRead != 0

def writable : Bool := seg.flags &&& segFlagWrite != 0

def executable : Bool := seg.flags &&& segFlagExec != 0

/-- `start..end` of a segment's bytes, when the sum does not overflow and stays within `len`. -/
def bodyRange (len : Nat) : Outcome AppImageError Unit := do
  let stop ← okOr (checkedAdd seg.fileOffset seg.fileSize) .segmentOutOfBounds
  rejectIf (len < stop) .segmentOutOfBounds

def check (len : Nat) : Outcome AppImageError Unit := do
  rejectIf (seg.memSize < seg.fileSize) .segmentSizeInconsistent
  if 0 < seg.fileSize then seg.bodyRange len else pure ()

end AppSegment

namespace Image

variable (image : Image)

/-- The slice `bytes[start..]` panics when `start` is behind the end. -/
def segment (index : Nat) : Outcome AppImageError AppSegment := do
  rejectIf (image.header.segmentCount ≤ index) .segmentOutOfBounds
  let start := appHeaderLen + index * appSegmentLen
  let rest ← orPanic (if start ≤ image.bytes.length then some (image.bytes.drop start) else none)
  AppSegment.parse rest

def segmentBody (seg : AppSegment) : Outcome AppImageError (List Byte) :=
  if seg.fileSize = 0 then pure []
  else do
    seg.bodyRange image.bytes.length
    pure (slice image.bytes seg.fileOffset seg.fileSize)

def parse (bytes : List Byte) : Outcome AppImageError Image := do
  let header ← AppImageHeader.parse bytes
  let descriptorsLen ← okOr (checkedMul header.segmentCount appSegmentLen) .truncated
  let descriptorsEnd ← okOr (checkedAdd appHeaderLen descriptorsLen) .truncated
  rejectIf (bytes.length < descriptorsEnd) .truncated
  let view : Image := ⟨bytes, header⟩
  forEach (List.range header.segmentCount) fun i => do
    let seg ← view.segment i
    seg.check bytes.length
  pure view

def entry : Nat := image.header.entry

def segmentCount : Nat := image.header.segmentCount

end Image

section

variable {bytes : List Byte} {image : Image} {seg : AppSegment}

structure AppSegment.Within (seg : AppSegment) (len : Nat) : Prop where
  sizes : seg.fileSize ≤ seg.memSize
  inside : 0 < seg.fileSize → seg.fileOffset + seg.fileSize ≤ len
  representable : 0 < seg.fileSize → seg.fileOffset + seg.fileSize < wordBound

theorem AppSegment.bodyRange_ok {len : Nat} : seg.bodyRange len = .ok () ↔
    seg.fileOffset + seg.fileSize ≤ len ∧ seg.fileOffset + seg.fileSize < wordBound := by
  constructor
  · intro h
    obtain ⟨stop, hstop, hlen⟩ := of_bind_ok h
    obtain ⟨hword, rfl⟩ := checkedAdd_eq_some.mp (okOr_eq_ok.mp hstop)
    exact ⟨not_lt.mp (rejectIf_ok_iff.mp hlen), hword⟩
  · rintro ⟨hlen, hword⟩
    rw [bodyRange, okOr_eq_ok.mpr (checkedAdd_eq_some.mpr ⟨hword, rfl⟩), ok_bind]
    exact rejectIf_ok_iff.mpr (not_lt.mpr hlen)

theorem AppSegment.check_ok {len : Nat} : seg.check len = .ok () ↔ seg.Within len := by
  constructor
  · intro h
    obtain ⟨hsizes, h⟩ := of_rejectIf_bind_ok h
    have hrange : 0 < seg.fileSize → seg.bodyRange len = .ok () := by
      intro hpos
      rwa [if_pos hpos] at h
    exact ⟨not_lt.mp hsizes, fun hpos => (bodyRange_ok.mp (hrange hpos)).1,
      fun hpos => (bodyRange_ok.mp (hrange hpos)).2⟩
  · rintro ⟨hsizes, hinside, hword⟩
    rw [check, rejectIf_bind (not_lt.mpr hsizes)]
    by_cases hpos : 0 < seg.fileSize
    · rw [if_pos hpos]
      exact bodyRange_ok.mpr ⟨hinside hpos, hword hpos⟩
    · rw [if_neg hpos]
      rfl

theorem AppImageHeader.parse_count {header : AppImageHeader}
    (h : AppImageHeader.parse bytes = .ok header) : header.segmentCount ≤ maxSegments := by
  obtain ⟨-, h⟩ := of_rejectIf_bind_ok h
  obtain ⟨read, -, h⟩ := of_bind_ok h
  obtain ⟨-, h⟩ := of_rejectIf_bind_ok h
  obtain ⟨-, h⟩ := of_rejectIf_bind_ok h
  obtain ⟨hcount, h⟩ := of_rejectIf_bind_ok h
  cases h
  exact not_lt.mp hcount

structure Accepted (bytes : List Byte) (image : Image) : Prop where
  whole : image.bytes = bytes
  header : AppImageHeader.parse bytes = .ok image.header
  table : appHeaderLen + image.header.segmentCount * appSegmentLen ≤ bytes.length
  segments : ∀ i < image.header.segmentCount, ∃ seg, image.segment i = .ok seg ∧ seg.Within bytes.length

theorem parse_ok : Image.parse bytes = .ok image ↔ Accepted bytes image := by
  constructor
  · intro h
    obtain ⟨header, hheader, h⟩ := of_bind_ok h
    obtain ⟨tableLen, hmul, h⟩ := of_bind_ok h
    obtain ⟨tableEnd, hadd, h⟩ := of_bind_ok h
    obtain ⟨htable, h⟩ := of_rejectIf_bind_ok h
    obtain ⟨_, hloop, h⟩ := of_bind_ok h
    cases h
    obtain ⟨-, rfl⟩ := checkedMul_eq_some.mp (okOr_eq_ok.mp hmul)
    obtain ⟨-, rfl⟩ := checkedAdd_eq_some.mp (okOr_eq_ok.mp hadd)
    refine ⟨rfl, hheader, not_lt.mp htable, ?_⟩
    intro i hi
    have hround := forEach_ok_iff.mp hloop i (mem_range.mpr hi)
    obtain ⟨seg, hseg, hcheck⟩ := of_bind_ok hround
    exact ⟨seg, hseg, AppSegment.check_ok.mp hcheck⟩
  · rintro ⟨rfl, hheader, htable, hsegments⟩
    have hcount := AppImageHeader.parse_count hheader
    unfold maxSegments at hcount
    have hfits : appHeaderLen + image.header.segmentCount * appSegmentLen < 2 ^ 64 := by
      unfold appHeaderLen appSegmentLen
      omega
    have hmul : checkedMul image.header.segmentCount appSegmentLen = some _ :=
      checkedMul_eq_some.mpr ⟨lt_of_le_of_lt (le_add_left _ _) hfits, rfl⟩
    have hadd : checkedAdd appHeaderLen (image.header.segmentCount * appSegmentLen) = some _ :=
      checkedAdd_eq_some.mpr ⟨hfits, rfl⟩
    have hloop : forEach (range image.header.segmentCount) (fun i => do
        let seg ← image.segment i
        seg.check image.bytes.length) = .ok () := by
      apply forEach_ok_iff.mpr
      intro i hi
      obtain ⟨seg, hseg, hwithin⟩ := hsegments i (mem_range.mp hi)
      rw [hseg, ok_bind]
      exact AppSegment.check_ok.mpr hwithin
    rw [Image.parse, hheader, ok_bind, hmul, okOr, ok_bind, hadd, okOr,
      ok_bind, rejectIf_bind (not_lt.mpr htable)]
    simp only [hloop, ok_bind]
    rfl

theorem segmentBody_of_within (within : seg.Within image.bytes.length) :
    image.segmentBody seg = .ok (slice image.bytes seg.fileOffset seg.fileSize) := by
  by_cases hempty : seg.fileSize = 0
  · rw [Image.segmentBody, if_pos hempty, hempty, slice, take_zero]
    rfl
  · have hpos := pos_of_ne_zero hempty
    rw [Image.segmentBody, if_neg hempty,
      AppSegment.bodyRange_ok.mpr ⟨within.inside hpos, within.representable hpos⟩, ok_bind]
    rfl

theorem segment_eq {index : Nat} (inTable : index < image.header.segmentCount)
    (table : appHeaderLen + image.header.segmentCount * appSegmentLen ≤ image.bytes.length) :
    image.segment index = AppSegment.read.eval
      (.new (slice image.bytes (appHeaderLen + index * appSegmentLen) appSegmentLen)) := by
  have hfits : appHeaderLen + index * appSegmentLen + appSegmentLen ≤ image.bytes.length := by
    unfold appHeaderLen appSegmentLen at *
    omega
  rw [Image.segment, rejectIf_bind (not_le.mpr inTable)]
  simp only [if_pos (le_of_add_right_le hfits), orPanic, ok_bind]
  rw [AppSegment.parse, rejectIf_bind (by rw [length_drop]; omega)]
  rfl

end

/-- One call of `AppImageBuilder::segment`; its assertion is part of the type. -/
structure SegmentInput where
  vaddr : Fin (2 ^ 64)
  memSize : Fin (2 ^ 32)
  flags : Fin (2 ^ 32)
  body : List Byte
  covers : body.length ≤ memSize

structure AppImageBuilder where
  entry : Fin (2 ^ 64)
  segments : List SegmentInput

def writeHeader (entry n total : Nat) : Writing := do
  putU32 appMagic
  putU32 appVersion
  putU32 (n % 2 ^ 32)
  putU32 0
  putU64 entry
  putU64 total

def writeSegment (input : SegmentInput) (bodyCursor : Nat) : Writing := do
  putU64 input.vaddr
  putU64 bodyCursor
  putU32 (input.body.length % 2 ^ 32)
  putU32 input.memSize
  putU32 input.flags
  putU32 0

def fillSegments : Nat → Nat → List SegmentInput → Prog (List Byte) Empty Unit
  | _, _, [] => pure ()
  | i, bodyCursor, input :: rest => do
    writeAt (appHeaderLen + i * appSegmentLen) appSegmentLen (writeSegment input bodyCursor)
    copyAt bodyCursor input.body
    fillSegments (i + 1) (bodyCursor + input.body.length) rest

def AppImageBuilder.build (builder : AppImageBuilder) : Outcome Empty (List Byte) :=
  let n := builder.segments.length
  let headerAndTable := appHeaderLen + n * appSegmentLen
  let bodiesLen := (builder.segments.map fun input => input.body.length).sum
  let total := headerAndTable + bodiesLen
  let fill : Prog (List Byte) Empty Unit := do
    writeAt 0 appHeaderLen (writeHeader builder.entry n total)
    fillSegments 0 headerAndTable builder.segments
  match fill (List.replicate total 0) with
  | (.ok (), buf) => .ok buf
  | (.err e, _) => .err e
  | (.panic, _) => .panic

section

def headerBytes (entry n total : Nat) : List Byte :=
  toLE 4 appMagic ++ (toLE 4 appVersion ++ (toLE 4 (n % 2 ^ 32) ++ (toLE 4 0 ++
    (toLE 8 entry ++ toLE 8 total))))

def segmentBytes (bodyCursor : Nat) (input : SegmentInput) : List Byte :=
  toLE 8 input.vaddr ++ (toLE 8 bodyCursor ++ (toLE 4 (input.body.length % 2 ^ 32) ++
    (toLE 4 input.memSize ++ (toLE 4 input.flags ++ toLE 4 0))))

def tableBytes : Nat → List SegmentInput → List Byte
  | _, [] => []
  | bodyCursor, input :: rest =>
    segmentBytes bodyCursor input ++ tableBytes (bodyCursor + input.body.length) rest

def bodyBytes (inputs : List SegmentInput) : List Byte := inputs.flatMap SegmentInput.body

def bodiesStart (n : Nat) : Nat := appHeaderLen + n * appSegmentLen

def imageBytes (builder : AppImageBuilder) : List Byte :=
  let start := bodiesStart builder.segments.length
  headerBytes builder.entry builder.segments.length (start + (bodyBytes builder.segments).length) ++
    tableBytes start builder.segments ++ bodyBytes builder.segments

variable {builder : AppImageBuilder} {inputs before after : List SegmentInput} {input : SegmentInput}

theorem headerBytes_length (entry n total : Nat) : (headerBytes entry n total).length = appHeaderLen := by
  simp [headerBytes, appHeaderLen]

variable (bodyCursor : Nat)

theorem segmentBytes_length (input : SegmentInput) :
    (segmentBytes bodyCursor input).length = appSegmentLen := by
  simp [segmentBytes, appSegmentLen]

variable (inputs : List SegmentInput)

theorem tableBytes_eq :
    tableBytes bodyCursor inputs = tableRows segmentBytes SegmentInput.body bodyCursor inputs := by
  induction inputs generalizing bodyCursor with
  | nil => rfl
  | cons input rest ih => rw [tableBytes, tableRows, ih]

theorem tableBytes_length :
    (tableBytes bodyCursor inputs).length = inputs.length * appSegmentLen := by
  rw [tableBytes_eq, tableRows_length segmentBytes_length]

theorem bodyBytes_cons (input : SegmentInput) (rest : List SegmentInput) :
    bodyBytes (input :: rest) = input.body ++ bodyBytes rest := flatMap_cons

theorem bodyBytes_length :
    (bodyBytes inputs).length = (inputs.map fun input => input.body.length).sum := length_flatMap

theorem imageBytes_length (builder : AppImageBuilder) : (imageBytes builder).length =
    bodiesStart builder.segments.length + (bodyBytes builder.segments).length := by
  simp only [imageBytes, length_append, headerBytes_length, tableBytes_length, bodiesStart]

variable (split : builder.segments = before ++ input :: after)

include split

theorem slice_descriptor :
    slice (imageBytes builder) (appHeaderLen + before.length * appSegmentLen) appSegmentLen =
      segmentBytes (bodiesStart builder.segments.length + (bodyBytes before).length) input := by
  rw [imageBytes, tableBytes_eq, split]
  exact slice_row segmentBytes_length (by rw [headerBytes_length])

theorem slice_body :
    slice (imageBytes builder) (bodiesStart builder.segments.length + (bodyBytes before).length)
      input.body.length = input.body := by
  rw [← append_nil (imageBytes builder), imageBytes, bodyBytes, split]
  refine slice_flatMap ?_
  simp only [length_append, headerBytes_length, tableBytes_length]
  rfl

theorem body_end_le :
    bodiesStart builder.segments.length + (bodyBytes before).length + input.body.length ≤
      (imageBytes builder).length := by
  rw [imageBytes_length, add_assoc, bodyBytes, bodyBytes, split]
  exact Nat.add_le_add_left flatMap_length_le _

end

section

variable {input : SegmentInput}

theorem writes_header (entry n total : Nat) :
    Writes (writeHeader entry n total) (headerBytes entry n total) :=
  .bind (.putU32 _) <| .bind (.putU32 _) <| .bind (.putU32 _) <| .bind (.putU32 _) <|
    .bind (.putU64 _) (.putU64 _)

theorem writes_segment (input : SegmentInput) (bodyCursor : Nat) :
    Writes (writeSegment input bodyCursor) (segmentBytes bodyCursor input) :=
  .bind (.putU64 _) <| .bind (.putU64 _) <| .bind (.putU32 _) <| .bind (.putU32 _) <|
    .bind (.putU32 _) (.putU32 _)

theorem fill_segments {rest : List SegmentInput} {i : Nat} {table tableRoom bodies bodyRoom : List Byte}
    (position : table.length = appHeaderLen + i * appSegmentLen)
    (tableFits : tableRoom.length = rest.length * appSegmentLen)
    (bodiesFit : bodyRoom.length = (bodyBytes rest).length) :
    fillSegments i (table ++ tableRoom ++ bodies).length rest (table ++ tableRoom ++ bodies ++ bodyRoom) =
      (.ok (), table ++ tableBytes (table ++ tableRoom ++ bodies).length rest ++ bodies ++
        bodyBytes rest) := by
  induction rest generalizing i table tableRoom bodies bodyRoom with
  | nil =>
    have htable : tableRoom = [] := length_eq_zero_iff.mp (by simpa using tableFits)
    have hbodies : bodyRoom = [] := length_eq_zero_iff.mp bodiesFit
    simp [fillSegments, tableBytes, bodyBytes, htable, hbodies]
  | cons input rest ih =>
    rw [length_cons, succ_mul] at tableFits
    rw [bodyBytes_cons, length_append] at bodiesFit
    set cursor := (table ++ tableRoom ++ bodies).length with hcursor
    have hlen := segmentBytes_length cursor input
    have hwrite : writeAt table.length appSegmentLen (writeSegment input cursor)
        (table ++ (tableRoom ++ bodies ++ bodyRoom)) = _ :=
      writeAt_append (writes_segment input cursor) hlen.le
        (by rw [length_append, length_append]; omega)
    have hroom : (tableRoom ++ bodies ++ bodyRoom).drop appSegmentLen =
        tableRoom.drop appSegmentLen ++ bodies ++ bodyRoom := by
      rw [append_assoc, drop_append_of_le_length (by omega), append_assoc]
    rw [hlen, hroom, position] at hwrite
    obtain ⟨front, hfront⟩ : ∃ l, table ++ segmentBytes cursor input ++ tableRoom.drop appSegmentLen = l := ⟨_, rfl⟩
    -- the cursor is where the bodies written so far end, also in the new buffer
    have hend : (front ++ bodies).length = cursor := by
      rw [hcursor, ← hfront]
      simp only [length_append, length_drop, segmentBytes_length]
      omega
    have hcopy : copyAt cursor input.body (front ++ bodies ++ bodyRoom) =
        (.ok (), front ++ bodies ++ input.body ++ bodyRoom.drop input.body.length) := by
      have hbodyFits : input.body.length ≤ bodyRoom.length := by omega
      have hat : copyAt (front ++ bodies).length input.body _ = _ := copyAt_append hbodyFits
      rwa [hend] at hat
    have hnext : (front ++ (bodies ++ input.body)).length = cursor + input.body.length := by
      rw [← append_assoc, length_append, hend]
    have hposition : (table ++ segmentBytes cursor input).length =
        appHeaderLen + (i + 1) * appSegmentLen := by
      rw [length_append, hlen, position, succ_mul, add_assoc]
    have htableFits : (tableRoom.drop appSegmentLen).length = rest.length * appSegmentLen := by
      rw [length_drop]
      omega
    have hbodiesFit : (bodyRoom.drop input.body.length).length = (bodyBytes rest).length := by
      rw [length_drop]
      omega
    have hloop : fillSegments (i + 1) _ rest (_ ++ (bodies ++ input.body) ++ _) = _ :=
      ih hposition htableFits hbodiesFit
    rw [hfront, hnext] at hloop
    subst hfront
    simp only [append_assoc] at hwrite hcopy hloop ⊢
    rw [fillSegments, Prog.bind_ok hwrite, Prog.bind_ok hcopy, hloop, tableBytes, bodyBytes_cons]
    simp only [append_assoc]

theorem build_eq (builder : AppImageBuilder) : builder.build = .ok (imageBytes builder) := by
  set n := builder.segments.length with hn
  set total := bodiesStart n + (bodyBytes builder.segments).length with htotal
  have hheader := headerBytes_length builder.entry n total
  have hzero : replicate total (0 : Byte) = replicate appHeaderLen 0 ++
      (replicate (n * appSegmentLen) 0 ++ replicate (bodyBytes builder.segments).length 0) := by
    rw [← replicate_add, ← replicate_add, ← add_assoc]
    rfl
  have hwrite : writeAt 0 appHeaderLen (writeHeader builder.entry n total) (replicate total 0) =
      (.ok (), headerBytes builder.entry n total ++ replicate (n * appSegmentLen) 0 ++
        [] ++ replicate (bodyBytes builder.segments).length 0) := by
    have happend : writeAt ([] : List Byte).length appHeaderLen (writeHeader builder.entry n total)
        ([] ++ replicate total 0) = _ :=
      writeAt_append (writes_header builder.entry n total) hheader.le
        (by rw [hzero, length_append, length_replicate]; omega)
    rw [hheader, hzero, drop_left' length_replicate] at happend
    rw [hzero]
    simpa using happend
  have hposition : (headerBytes builder.entry n total).length = appHeaderLen + 0 * appSegmentLen := by
    rw [hheader, zero_mul, add_zero]
  have hloop : fillSegments 0 _ builder.segments (_ ++ [] ++ replicate _ 0) = _ :=
    fill_segments hposition (length_replicate (a := 0)) length_replicate
  have hstart : (headerBytes builder.entry n total ++ replicate (n * appSegmentLen) 0 ++
      []).length = bodiesStart n := by
    rw [append_nil, length_append, hheader, length_replicate]
    rfl
  rw [hstart] at hloop
  rw [AppImageBuilder.build]
  simp only [← bodyBytes_length, ← hn]
  change (match (writeAt 0 appHeaderLen (writeHeader builder.entry n total) >>= fun _ =>
    fillSegments 0 (bodiesStart n) builder.segments) (replicate total 0) with
    | (.ok (), buf) => Outcome.ok buf
    | (.err e, _) => .err e
    | (.panic, _) => .panic) = _
  rw [Prog.bind_ok hwrite, hloop, append_nil]
  rfl

end

section

variable {builder : AppImageBuilder} {before after : List SegmentInput} {input : SegmentInput}

def headerOf (builder : AppImageBuilder) : AppImageHeader :=
  ⟨appMagic, appVersion, builder.segments.length, 0, builder.entry, (imageBytes builder).length⟩

def segmentOf (n : Nat) (before : List SegmentInput) (input : SegmentInput) : AppSegment :=
  ⟨input.vaddr, bodiesStart n + (bodyBytes before).length, input.body.length, input.memSize,
    input.flags, 0⟩

theorem reads_u32 {value : Nat} (small : value < 2 ^ 32) : Reads readU32 (toLE 4 value) value :=
  (Reads.getU32 small).mapErr _

theorem reads_u64 {value : Nat} (small : value < 2 ^ 64) : Reads readU64 (toLE 8 value) value :=
  (Reads.getU64 small).mapErr _

theorem reads_header {entry n total : Nat} (entrySmall : entry < 2 ^ 64) (few : n < 2 ^ 32)
    (fits : total < 2 ^ 64) : Reads AppImageHeader.read (headerBytes entry n total)
      ⟨appMagic, appVersion, n, 0, entry, total⟩ := by
  unfold headerBytes
  rw [mod_eq_of_lt few]
  refine .bind (reads_u32 (by decide)) <| .bind (reads_u32 (by decide)) <| .bind (reads_u32 few) <|
    .bind (reads_u32 (by decide)) <| .bind (reads_u64 entrySmall) ?_
  rw [← append_nil (toLE 8 total)]
  exact .bind (reads_u64 fits) (.pure _)

theorem reads_segment (n : Nat) (fits : bodiesStart n + (bodyBytes before).length < 2 ^ 64) :
    Reads AppSegment.read (segmentBytes (bodiesStart n + (bodyBytes before).length) input)
      (segmentOf n before input) := by
  have hbody : input.body.length < 2 ^ 32 := lt_of_le_of_lt input.covers input.memSize.isLt
  unfold segmentBytes
  rw [mod_eq_of_lt hbody]
  refine .bind (reads_u64 input.vaddr.isLt) <| .bind (reads_u64 fits) <| .bind (reads_u32 hbody) <|
    .bind (reads_u32 input.memSize.isLt) <| .bind (reads_u32 input.flags.isLt) ?_
  rw [← append_nil (toLE 4 0)]
  exact .bind (reads_u32 (by decide)) (.pure _)

theorem header_parse (few : builder.segments.length ≤ maxSegments)
    (fits : (imageBytes builder).length < wordBound) :
    AppImageHeader.parse (imageBytes builder) = .ok (headerOf builder) := by
  have htake : (imageBytes builder).take appHeaderLen =
      headerBytes builder.entry builder.segments.length (imageBytes builder).length := by
    rw [imageBytes_length]
    conv_lhs => rw [imageBytes, append_assoc]
    exact take_left' (headerBytes_length ..)
  have hlen : appHeaderLen ≤ (imageBytes builder).length := by
    rw [imageBytes_length, bodiesStart, add_assoc]
    exact le_add_right _ _
  have hreads : Reads AppImageHeader.read _ (headerOf builder) :=
    reads_header builder.entry.isLt (lt_of_le_of_lt few (by decide)) fits
  have hcount : ¬ maxSegments < (headerOf builder).segmentCount := not_lt.mpr few
  obtain ⟨r, hread, -⟩ := hreads.run []
  rw [append_nil] at hread
  rw [AppImageHeader.parse, rejectIf_bind (not_lt.mpr hlen), htake, Prog.eval, hread,
    ok_bind, rejectIf_bind (by simp [headerOf]),
    rejectIf_bind (by simp [headerOf]), rejectIf_bind hcount]
  rfl

theorem table_le (builder : AppImageBuilder) :
    appHeaderLen + builder.segments.length * appSegmentLen ≤ (imageBytes builder).length := by
  rw [imageBytes_length, bodiesStart]
  exact le_add_right _ _

variable (fits : (imageBytes builder).length < wordBound) (split : builder.segments = before ++ input :: after)

include fits split

theorem segment_parse : (Image.mk (imageBytes builder) (headerOf builder)).segment before.length =
      .ok (segmentOf builder.segments.length before input) := by
  have hindex : before.length < builder.segments.length := by
    rw [split, length_append, length_cons]
    omega
  have hend := body_end_le split
  have hstart : bodiesStart builder.segments.length + (bodyBytes before).length < 2 ^ 64 :=
    lt_of_le_of_lt (by omega) fits
  have hreads : Reads AppSegment.read _ (segmentOf builder.segments.length before input) :=
    reads_segment builder.segments.length hstart
  obtain ⟨r, hread, -⟩ := hreads.run []
  have hsegment : (Image.mk (imageBytes builder) (headerOf builder)).segment before.length = _ :=
    segment_eq hindex (table_le builder)
  rw [hsegment, slice_descriptor split, Prog.eval, ← append_nil (segmentBytes _ input), hread]

theorem segmentOf_within :
    (segmentOf builder.segments.length before input).Within (imageBytes builder).length :=
  ⟨input.covers, fun _ => body_end_le split, fun _ => lt_of_le_of_lt (body_end_le split) fits⟩

omit fits split

theorem split_at {index : Nat} (h : index < builder.segments.length) :
    builder.segments = builder.segments.take index ++
      builder.segments[index] :: builder.segments.drop (index + 1) := by
  rw [← drop_eq_getElem_cons h, take_append_drop]

theorem accepted_built (few : builder.segments.length ≤ maxSegments)
    (fits : (imageBytes builder).length < wordBound) :
    Accepted (imageBytes builder) ⟨imageBytes builder, headerOf builder⟩ := by
  refine ⟨rfl, header_parse few fits, table_le builder, ?_⟩
  intro index h
  change index < builder.segments.length at h
  have hsegment := segment_parse fits (split_at h)
  rw [length_take, min_eq_left h.le] at hsegment
  exact ⟨_, hsegment, segmentOf_within fits (split_at h)⟩

end

/-- Parsing a built image gives back what it was built from. -/
theorem app_image_round_trip (builder : AppImageBuilder) (few : builder.segments.length ≤ maxSegments)
    (fits : appHeaderLen + builder.segments.length * appSegmentLen +
      (builder.segments.map fun input => input.body.length).sum < wordBound) :
    ∃ bytes image, builder.build = .ok bytes ∧ Image.parse bytes = .ok image ∧
      image.entry = builder.entry ∧ image.segmentCount = builder.segments.length ∧
      ∀ index (h : index < builder.segments.length), ∃ seg, image.segment index = .ok seg ∧
        seg.vaddr = builder.segments[index].vaddr ∧ seg.memSize = builder.segments[index].memSize ∧
        seg.flags = builder.segments[index].flags ∧
        image.segmentBody seg = .ok builder.segments[index].body := by
  rw [← bodyBytes_length] at fits
  have hfits : (imageBytes builder).length < wordBound := by
    rw [imageBytes_length]
    exact fits
  refine ⟨imageBytes builder, ⟨imageBytes builder, headerOf builder⟩, build_eq builder,
    parse_ok.mpr (accepted_built few hfits), rfl, rfl, ?_⟩
  intro index h
  have hsegment := segment_parse hfits (split_at h)
  rw [length_take, min_eq_left h.le] at hsegment
  refine ⟨_, hsegment, rfl, rfl, rfl, ?_⟩
  rw [segmentBody_of_within (segmentOf_within hfits (split_at h))]
  exact congrArg _ (slice_body (split_at h))

theorem app_image_round_trip_code_and_bss :
    ∃ bytes image, AppImageBuilder.build ⟨0x400000, [⟨0x400000, 4096, 5, [0x90, 0xC3], by decide⟩,
        ⟨0x500010, 64, 3, [], by decide⟩]⟩ = .ok bytes ∧
      Image.parse bytes = .ok image ∧ image.entry = 0x400000 ∧ image.segmentCount = 2 := by
  obtain ⟨bytes, image, hbuild, hparse, hentry, hcount, -⟩ :=
    app_image_round_trip ⟨0x400000, [⟨0x400000, 4096, 5, [0x90, 0xC3], by decide⟩,
      ⟨0x500010, 64, 3, [], by decide⟩]⟩ (by decide) (by decide)
  exact ⟨bytes, image, hbuild, hparse, hentry, hcount⟩

end CibosPlatform.Shared.AppImage

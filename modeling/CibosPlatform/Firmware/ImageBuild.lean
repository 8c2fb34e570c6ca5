/- source: cibios/src/image.rs
   digest: Building an image, and that the parser reads back what was built. -/

import CibosPlatform.Firmware.Image

namespace CibosPlatform.Firmware.ImageBuild

open List hiding Vector
open Core LittleEndian MachineWord Program Firmware.Image Shared Hash Serialization ByteWriter Prog Nat

structure ComponentInput where
  kind : ComponentKind
  loadAddr : Fin (2 ^ 64)
  body : List Byte

structure ImageParams where
  architecture : Fin (2 ^ 32)
  cibosProfile : Fin (2 ^ 32)
  entryPoint : Fin (2 ^ 64)
  loadBase : Fin (2 ^ 64)
  signatureAlgorithm : Fin (2 ^ 32)
  signatureLen : Fin (2 ^ 32)

def placeBodies : Nat → List ComponentInput → List Nat × Nat
  | cursor, [] => ([], cursor)
  | cursor, c :: rest =>
    let (offsets, stop) := placeBodies (cursor + c.body.length) rest
    (cursor :: offsets, stop)

def writeHeader (params : ImageParams) (count signedRegionLen : Nat) : Writing := do
  putU32 imageMagic
  putU32 imageVersion
  putU32 params.architecture
  putU32 params.cibosProfile
  putU32 (count % 2 ^ 32)
  putU32 params.signatureAlgorithm
  putU64 params.entryPoint
  putU64 params.loadBase
  putU64 signedRegionLen
  putU32 params.signatureLen
  putU32 0

variable (sha256 : Sha256)

def writeDescriptor (c : ComponentInput) (offset : Nat) : Writing := do
  putU32 c.kind.asU32
  putU32 0
  putU64 offset
  putU64 c.body.length
  putU64 c.loadAddr
  putBytes (sha256 c.body).toList

def writeAt (start len : Nat) (write : Writing) : Prog (List Byte) Empty Unit := fun image =>
  if start + len ≤ image.length then
    match write (.new (slice image start len)) with
    | (.ok (), w) => (.ok (), splice image start w.buf)
    | (.err _, w) => (.panic, splice image start w.buf)
    | (.panic, w) => (.panic, splice image start w.buf)
  else (.panic, image)

def copyAt (start : Nat) (bytes : List Byte) : Prog (List Byte) Empty Unit := fun image =>
  if start + bytes.length ≤ image.length then (.ok (), splice image start bytes) else (.panic, image)

def fill (params : ImageParams) (components : List ComponentInput)
    (offsets : List Nat) (signedRegionLen : Nat) : Prog (List Byte) Empty Unit := do
  writeAt 0 headerLen (writeHeader params components.length signedRegionLen)
  forEach components.zipIdx fun (c, i) => do
    let offset ← orPanic offsets[i]?
    writeAt (headerLen + i * descriptorLen) descriptorLen (writeDescriptor sha256 c offset)
  forEach components.zipIdx fun (c, i) => do
    let offset ← orPanic offsets[i]?
    copyAt offset c.body

def buildUnsigned (params : ImageParams) (components : List ComponentInput) :
    Outcome Empty (List Byte) :=
  let bodiesOffset := headerLen + components.length * descriptorLen
  let (offsets, signedRegionLen) := placeBodies bodiesOffset components
  match fill sha256 params components offsets signedRegionLen (List.replicate signedRegionLen 0) with
  | (.ok (), image) => .ok image
  | (.err e, _) => .err e
  | (.panic, _) => .panic

def finalizeSigned (unsigned signature : List Byte) : List Byte := unsigned ++ signature

variable (cursor : Nat)

section

variable (sha256 : Sha256) (params : ImageParams)

def headerBytes (count signedRegionLen : Nat) : List Byte :=
  toLE 4 imageMagic ++ (toLE 4 imageVersion ++ (toLE 4 params.architecture ++
    (toLE 4 params.cibosProfile ++ (toLE 4 (count % 2 ^ 32) ++ (toLE 4 params.signatureAlgorithm ++
    (toLE 8 params.entryPoint ++ (toLE 8 params.loadBase ++ (toLE 8 signedRegionLen ++
    (toLE 4 params.signatureLen ++ toLE 4 0)))))))))

def descriptorBytes (offset : Nat) (c : ComponentInput) : List Byte :=
  toLE 4 c.kind.asU32 ++ (toLE 4 0 ++ (toLE 8 offset ++ (toLE 8 c.body.length ++
    (toLE 8 c.loadAddr ++ (sha256 c.body).toList))))

def tableBytes : Nat → List ComponentInput → List Byte
  | _, [] => []
  | cursor, c :: rest => descriptorBytes sha256 cursor c ++ tableBytes (cursor + c.body.length) rest

variable (components : List ComponentInput)

def bodyBytes : List Byte := components.flatMap ComponentInput.body

def headerSlot (count signedRegionLen : Nat) : List Byte :=
  headerBytes params count signedRegionLen ++ List.replicate 8 0

def imageBytes : List Byte :=
  let bodiesOffset := headerLen + components.length * descriptorLen
  headerSlot params components.length (bodiesOffset + (bodyBytes components).length) ++
    tableBytes sha256 bodiesOffset components ++ bodyBytes components

variable (count signedRegionLen : Nat)

theorem headerBytes_length : (headerBytes params count signedRegionLen).length = 56 := by
  simp [headerBytes]

theorem headerSlot_length : (headerSlot params count signedRegionLen).length = headerLen := by
  rw [headerSlot, length_append, headerBytes_length, length_replicate]
  rfl

theorem descriptorBytes_length (offset : Nat) (c : ComponentInput) :
    (descriptorBytes sha256 offset c).length = descriptorLen := by
  simp [descriptorBytes, descriptorLen]

variable (components : List ComponentInput)

theorem tableBytes_eq : tableBytes sha256 cursor components =
      tableRows (descriptorBytes sha256) ComponentInput.body cursor components := by
  induction components generalizing cursor with
  | nil => rfl
  | cons c rest ih => rw [tableBytes, tableRows, ih]

theorem tableBytes_length :
    (tableBytes sha256 cursor components).length = components.length * descriptorLen := by
  rw [tableBytes_eq, tableRows_length (descriptorBytes_length sha256)]

theorem bodyBytes_cons (c : ComponentInput) (rest : List ComponentInput) :
    bodyBytes (c :: rest) = c.body ++ bodyBytes rest := flatMap_cons

theorem imageBytes_length : (imageBytes sha256 params components).length =
      headerLen + components.length * descriptorLen + (bodyBytes components).length := by
  simp only [imageBytes, length_append, headerSlot_length, tableBytes_length]

end

section

variable {sha256 : Sha256} {params : ImageParams} (components : List ComponentInput)

theorem placeBodies_stop :
    (placeBodies cursor components).2 = cursor + (bodyBytes components).length := by
  induction components generalizing cursor with
  | nil => rfl
  | cons c rest ih => rw [placeBodies, bodyBytes_cons, length_append, ← add_assoc, ← ih]

theorem writes_header (count signedRegionLen : Nat) :
    Writes (writeHeader params count signedRegionLen) (headerBytes params count signedRegionLen) :=
  .bind (.putU32 _) <| .bind (.putU32 _) <| .bind (.putU32 _) <| .bind (.putU32 _) <|
    .bind (.putU32 _) <| .bind (.putU32 _) <| .bind (.putU64 _) <| .bind (.putU64 _) <|
    .bind (.putU64 _) <| .bind (.putU32 _) (.putU32 _)

theorem writes_descriptor (c : ComponentInput) (offset : Nat) :
    Writes (writeDescriptor sha256 c offset) (descriptorBytes sha256 offset c) :=
  .bind (.putU32 _) <| .bind (.putU32 _) <| .bind (.putU64 _) <| .bind (.putU64 _) <|
    .bind (.putU64 _) (.putBytes _)

theorem writeAt_append {write : Writing} {pre bytes rest : List Byte}
    {len : Nat} (writes : Writes write bytes) (short : bytes.length ≤ len) (room : len ≤ rest.length) :
    writeAt pre.length len write (pre ++ rest) =
      (.ok (), pre ++ bytes ++ rest.drop bytes.length) := by
  have hslice : slice (pre ++ rest) pre.length len = rest.take len := by rw [slice, drop_left]
  have hrun : write (.new (rest.take len)) = _ := writes.run (by rw [length_take]; omega)
  rw [writeAt, if_pos (by rw [length_append]; omega), hslice, hrun]
  simp only [splice_append]
  rw [length_append, length_drop, length_take, min_eq_left room,
    Nat.add_sub_cancel' short, ← append_assoc, append_assoc, drop_take,
    show rest.drop len = (rest.drop bytes.length).drop (len - bytes.length) by
      rw [drop_drop, Nat.add_sub_cancel' short], take_append_drop]

theorem copyAt_append {pre bytes rest : List Byte} (room : bytes.length ≤ rest.length) :
    copyAt pre.length bytes (pre ++ rest) = (.ok (), pre ++ bytes ++ rest.drop bytes.length) := by
  rw [copyAt, if_pos (by rw [length_append]; omega), splice_append]

variable {offsets : List Nat} {rest : List ComponentInput}

theorem offsets_cons {c : ComponentInput} {i cursor : Nat}
    (at_i : offsets.drop i = (placeBodies cursor (c :: rest)).1) : offsets[i]? = some cursor ∧
      offsets.drop (i + 1) = (placeBodies (cursor + c.body.length) rest).1 := by
  rw [← head?_drop, ← tail_drop, at_i]
  exact ⟨rfl, rfl⟩

theorem fill_table {i cursor : Nat}
    {pre room : List Byte} (at_i : offsets.drop i = (placeBodies cursor rest).1)
    (position : pre.length = headerLen + i * descriptorLen)
    (enough : rest.length * descriptorLen ≤ room.length) :
    (forEach (rest.zipIdx i) fun (c, i) => do
      let offset ← orPanic offsets[i]?
      writeAt (headerLen + i * descriptorLen) descriptorLen (writeDescriptor sha256 c offset))
      (pre ++ room) = (.ok (), pre ++ tableBytes sha256 cursor rest ++
        room.drop (rest.length * descriptorLen)) := by
  induction rest generalizing i cursor pre room with
  | nil => simp [forEach, tableBytes]
  | cons c rest ih =>
    obtain ⟨hoffset, hnext⟩ := offsets_cons at_i
    have hlen := descriptorBytes_length sha256 cursor c
    rw [length_cons, succ_mul] at enough
    have hwrite : writeAt pre.length descriptorLen (writeDescriptor sha256 c cursor)
        (pre ++ room) = _ := writeAt_append (writes_descriptor c cursor) hlen.le (by omega)
    rw [position, hlen] at hwrite
    have hposition : (pre ++ descriptorBytes sha256 cursor c).length =
        headerLen + (i + 1) * descriptorLen := by
      rw [length_append, position, hlen, succ_mul, add_assoc]
    have henough : rest.length * descriptorLen ≤ (room.drop descriptorLen).length := by
      rw [length_drop]
      omega
    have hloop := ih hnext hposition henough
    rw [zipIdx_cons, forEach]
    simp only [hoffset, orPanic_some]
    rw [bind_ok (m := pure cursor >>= _) hwrite, hloop, tableBytes, drop_drop,
      length_cons, succ_mul]
    simp only [append_assoc, add_comm]

theorem fill_bodies {i : Nat}
    {pre room : List Byte} (at_i : offsets.drop i = (placeBodies pre.length rest).1)
    (enough : (bodyBytes rest).length ≤ room.length) :
    (forEach (rest.zipIdx i) fun (c, i) => do
      let offset ← orPanic offsets[i]?
      copyAt offset c.body) (pre ++ room) =
      (.ok (), pre ++ bodyBytes rest ++ room.drop (bodyBytes rest).length) := by
  induction rest generalizing i pre room with
  | nil => simp [forEach, bodyBytes]
  | cons c rest ih =>
    obtain ⟨hoffset, hnext⟩ := offsets_cons at_i
    rw [← length_append] at hnext
    rw [bodyBytes_cons, length_append] at enough
    have hcopy : copyAt pre.length c.body (pre ++ room) = _ := copyAt_append (by omega)
    have henough : (bodyBytes rest).length ≤ (room.drop c.body.length).length := by
      rw [length_drop]
      omega
    have hloop := ih hnext henough
    rw [zipIdx_cons, forEach]
    simp only [hoffset, orPanic_some]
    rw [bind_ok (m := pure pre.length >>= _) hcopy, hloop, bodyBytes_cons, drop_drop, length_append]
    simp only [append_assoc]

theorem fill_header {count stop : Nat} (room : headerLen ≤ stop) :
    writeAt 0 headerLen (writeHeader params count stop) (replicate stop 0) =
      (.ok (), headerSlot params count stop ++ replicate (stop - headerLen) 0) := by
  have hlen := headerBytes_length params count stop
  have hwrite : writeAt ([] : List Byte).length headerLen (writeHeader params count stop)
      ([] ++ replicate stop 0) = _ :=
    writeAt_append (writes_header count stop) (by rw [hlen]; decide)
      (by rw [length_replicate]; exact room)
  have hsplit : stop - 56 = 8 + (stop - headerLen) := by
    unfold headerLen at room ⊢
    omega
  rw [hlen, drop_replicate, hsplit, replicate_add] at hwrite
  simpa [headerSlot] using hwrite

theorem buildUnsigned_eq :
    buildUnsigned sha256 params components = .ok (imageBytes sha256 params components) := by
  have hstop := placeBodies_stop (headerLen + components.length * descriptorLen) components
  unfold buildUnsigned
  rcases hplace : placeBodies (headerLen + components.length * descriptorLen) components with
    ⟨offsets, stop⟩
  rw [hplace] at hstop
  change stop = _ at hstop
  have hslot := headerSlot_length params components.length stop
  have htable : (forEach components.zipIdx fun (c, i) => do
      let offset ← orPanic offsets[i]?
      writeAt (headerLen + i * descriptorLen) descriptorLen (writeDescriptor sha256 c offset))
      (headerSlot params components.length stop ++ replicate (stop - headerLen) 0) = _ :=
    fill_table (by rw [hplace]; rfl) (by rw [hslot, zero_mul]; rfl)
      (by rw [length_replicate]; omega)
  have hposition : (headerSlot params components.length stop ++ tableBytes sha256
      (headerLen + components.length * descriptorLen) components).length =
        headerLen + components.length * descriptorLen := by
    rw [length_append, hslot, tableBytes_length]
  rw [drop_replicate, Nat.sub_sub] at htable
  have hbodies : (forEach components.zipIdx fun (c, i) => do
      let offset ← orPanic offsets[i]?
      copyAt offset c.body) (headerSlot params components.length stop ++ tableBytes sha256
        (headerLen + components.length * descriptorLen) components ++
        replicate (stop - (headerLen + components.length * descriptorLen)) 0) = _ :=
    fill_bodies (by rw [hposition, hplace]; rfl) (by rw [length_replicate]; omega)
  have hfill : fill sha256 params components offsets stop (replicate stop 0) =
      (.ok (), imageBytes sha256 params components) := by
    rw [fill, bind_ok (fill_header (by omega)), bind_ok htable, hbodies, drop_replicate,
      hstop, Nat.add_sub_cancel_left, Nat.sub_self, replicate_zero, append_nil]
    rfl
  simp only [hplace, hfill]

end

section

variable {sha256 : Sha256} {params : ImageParams}

def headerOf (params : ImageParams) (count signedRegionLen : Nat) : ImageHeader :=
  ⟨imageMagic, imageVersion, params.architecture, params.cibosProfile, count,
    params.signatureAlgorithm, params.entryPoint, params.loadBase, signedRegionLen,
    params.signatureLen, 0⟩

def descriptorOf (sha256 : Sha256) (offset : Nat) (c : ComponentInput) : ComponentDescriptor :=
  ⟨c.kind.asU32, offset, c.body.length, c.loadAddr, sha256 c.body⟩

theorem reads_u32 {value : Nat} (small : value < 2 ^ 32) : Reads readU32 (toLE 4 value) value :=
  (Reads.getU32 small).mapErr _

theorem reads_u64 {value : Nat} (small : value < 2 ^ 64) : Reads readU64 (toLE 8 value) value :=
  (Reads.getU64 small).mapErr _

theorem reads_digest (digest : Digest256) :
    Reads (mapErr (.malformedImage "descriptor hash truncated") (ByteReader.getInto 32) :
      Prog ByteReader Shared.Error.FirmwareError _) digest.toList digest.toList := by
  have hslice := Reads.getSlice digest.toList
  rw [Vector.length_toList] at hslice
  exact hslice.mapErr _

theorem reads_header {count signedRegionLen : Nat} (few : count < 2 ^ 32)
    (fits : signedRegionLen < 2 ^ 64) :
    Reads ImageHeader.read (headerBytes params count signedRegionLen)
      (headerOf params count signedRegionLen) := by
  unfold headerBytes
  rw [mod_eq_of_lt few]
  refine .bind (reads_u32 (by decide)) <| .bind (reads_u32 (by decide)) <|
    .bind (reads_u32 params.architecture.isLt) <| .bind (reads_u32 params.cibosProfile.isLt) <|
    .bind (reads_u32 few) <| .bind (reads_u32 params.signatureAlgorithm.isLt) <|
    .bind (reads_u64 params.entryPoint.isLt) <| .bind (reads_u64 params.loadBase.isLt) <|
    .bind (reads_u64 fits) <| .bind (reads_u32 params.signatureLen.isLt) ?_
  rw [← append_nil (toLE 4 0)]
  exact .bind (reads_u32 (by decide)) (.pure _)

theorem reads_descriptor {offset : Nat} {c : ComponentInput} (fits : offset + c.body.length < 2 ^ 64) :
    Reads ComponentDescriptor.read (descriptorBytes sha256 offset c) (descriptorOf sha256 offset c) := by
  have hkind : c.kind.asU32 < 2 ^ 32 := by cases c.kind <;> decide
  refine .bind (reads_u32 hkind) <| .bind (reads_u32 (by decide)) <|
    .bind (reads_u64 (by omega)) <| .bind (reads_u64 (by omega)) <|
    .bind (reads_u64 c.loadAddr.isLt) ?_
  rw [← append_nil (sha256 c.body).toList]
  refine .bind (reads_digest _) ?_
  rw [digestOf_toList]
  exact .pure _

def viewOf (sha256 : Sha256) (params : ImageParams) (components : List ComponentInput)
    (signature : List Byte) : ImageView :=
  ⟨imageBytes sha256 params components ++ signature,
    headerOf params components.length (imageBytes sha256 params components).length⟩

section

variable {components before after : List ComponentInput} {c : ComponentInput} {signature : List Byte}

def bodyOffset (count : Nat) (before : List ComponentInput) : Nat :=
  headerLen + count * descriptorLen + (bodyBytes before).length

variable (split : components = before ++ c :: after)

include split

theorem slice_table : slice (imageBytes sha256 params components ++ signature)
      (headerLen + before.length * descriptorLen) descriptorLen =
        descriptorBytes sha256 (bodyOffset components.length before) c := by
  subst split
  rw [imageBytes, tableBytes_eq, append_assoc]
  exact slice_row (descriptorBytes_length sha256) (by rw [headerSlot_length])

theorem slice_body :
    slice (imageBytes sha256 params components ++ signature) (bodyOffset components.length before)
      c.body.length = c.body := by
  subst split
  refine slice_flatMap ?_
  simp only [length_append, headerSlot_length, tableBytes_length]
  rfl

theorem bodyOffset_le : bodyOffset components.length before + c.body.length ≤
      (imageBytes sha256 params components).length := by
  subst split
  rw [imageBytes_length, bodyOffset, add_assoc]
  exact Nat.add_le_add_left flatMap_length_le _

end

section

variable {components : List ComponentInput} {signature : List Byte}

variable (few : components.length ≤ maxComponents) (declared : signature.length = params.signatureLen)
  (fits : (imageBytes sha256 params components).length + signature.length < wordBound)

include few declared fits

theorem laid_viewOf : Laid (imageBytes sha256 params components ++ signature)
      (viewOf sha256 params components signature) := by
  have hlen := imageBytes_length sha256 params components
  have htake : (imageBytes sha256 params components ++ signature).take headerLen =
      headerSlot params components.length (imageBytes sha256 params components).length := by
    conv_lhs => rw [imageBytes, append_assoc, append_assoc]
    rw [hlen]
    exact take_left' (headerSlot_length ..)
  have hcount : components.length < 2 ^ 32 := lt_of_le_of_lt few (by decide)
  have hreads : Reads ImageHeader.read _ (headerOf params components.length _) :=
    reads_header hcount (lt_of_le_of_lt (le_add_right _ _) fits)
  obtain ⟨r, hread, -⟩ := hreads.run (replicate 8 0)
  refine ⟨rfl, ?_, rfl, rfl, few, ?_, ?_, ?_⟩
  · rw [ImageHeader.parse, Outcome.rejectIf_bind (by rw [length_append]; omega), htake, headerSlot,
      eval, hread]
    rfl
  · rw [viewOf, headerOf, hlen]
    exact le_add_right _ _
  · rw [length_append, declared]
    exact le_rfl
  · rw [declared] at fits
    exact fits

theorem component_viewOf {before after : List ComponentInput} {c : ComponentInput}
    (split : components = before ++ c :: after) :
    (viewOf sha256 params components signature).component before.length =
      .ok (descriptorOf sha256 (bodyOffset components.length before) c, c.body) := by
  have hlaid := laid_viewOf few declared fits
  have hend : _ ≤ (imageBytes sha256 params components).length := bodyOffset_le split
  have hinside : before.length < (viewOf sha256 params components signature).header.componentCount := by
    change before.length < components.length
    rw [split, length_append, length_cons]
    omega
  apply component_ok.mpr
  refine ⟨?_, componentBody_ok.mpr ⟨?_, ?_, ?_⟩⟩
  · have hreads : Reads ComponentDescriptor.read _ (descriptorOf sha256 _ c) :=
      reads_descriptor (lt_of_le_of_lt (hend.trans (le_add_right _ _)) fits)
    obtain ⟨r, hread, -⟩ := hreads.run []
    rw [hlaid.descriptor hinside, slice_table split, eval, ← append_nil
      (descriptorBytes sha256 (bodyOffset components.length before) c), hread]
  · exact lt_of_le_of_lt (hend.trans (le_add_right _ _)) fits
  · change _ ≤ (imageBytes sha256 params components ++ signature).length
    rw [length_append]
    exact hend.trans (le_add_right _ _)
  · exact (slice_body split).symm

end

end

/-- Parsing a built and signed image gives back what it was built from. -/
theorem image_round_trip (sha256 : Sha256) (params : ImageParams) (components : List ComponentInput)
    (signature : List Byte) (few : components.length ≤ maxComponents)
    (declared : signature.length = params.signatureLen)
    (fits : headerLen + components.length * descriptorLen + (bodyBytes components).length +
      signature.length < wordBound) :
    ∃ unsigned view, buildUnsigned sha256 params components = .ok unsigned ∧
      ImageView.parse (finalizeSigned unsigned signature) = .ok view ∧
      view.header = headerOf params components.length unsigned.length ∧
      (∀ index (h : index < components.length), ∃ desc,
        desc = descriptorOf sha256 (bodyOffset components.length (components.take index))
          components[index] ∧
        view.descriptor index = .ok desc ∧ desc.componentKind = .ok components[index].kind ∧
        view.componentBody desc = .ok components[index].body) ∧
      view.verifyComponentHashes sha256 = .ok () ∧
      view.signedRegion = .ok unsigned ∧ view.signature = .ok signature := by
  rw [← imageBytes_length sha256 params] at fits
  have hlaid := laid_viewOf few declared fits
  have hcomponent : ∀ index (h : index < components.length),
      (viewOf sha256 params components signature).component index =
        .ok (descriptorOf sha256 (bodyOffset components.length (components.take index))
          components[index], components[index].body) := by
    intro index h
    have hsplit : components = components.take index ++ components[index] :: components.drop (index + 1) := by
      rw [← drop_eq_getElem_cons h, take_append_drop]
    have hat := component_viewOf few declared fits hsplit
    rwa [length_take, min_eq_left h.le] at hat
  refine ⟨_, _, buildUnsigned_eq components, hlaid.parse, rfl, ?_, ?_, ?_, ?_⟩
  · intro index h
    obtain ⟨hdesc, hbody⟩ := component_ok.mp (hcomponent index h)
    exact ⟨_, rfl, hdesc, ComponentKind.fromU32_asU32 _, hbody⟩
  · apply verifyComponentHashes_iff.mpr
    intro index h
    exact ⟨_, _, hcomponent index h, rfl⟩
  · rw [hlaid.signedRegion]
    exact congrArg _ take_left
  · rw [hlaid.signature]
    exact congrArg _ (slice_eq_of_parts _ [] (append_nil _).symm rfl declared.symm)

theorem image_round_trip_two_components :
    ∃ unsigned view, buildUnsigned digestOf ⟨1, 2, 0x100000, 0x100000, 2, 3⟩
        [⟨.kernel, 0x100000, [1, 2, 3]⟩, ⟨.config, 0x200000, []⟩] = .ok unsigned ∧
      ImageView.parse (finalizeSigned unsigned [7, 8, 9]) = .ok view ∧
      view.header.componentCount = 2 ∧ view.signature = .ok [7, 8, 9] := by
  obtain ⟨unsigned, view, hbuild, hparse, hheader, -, -, -, hsignature⟩ :=
    image_round_trip digestOf ⟨1, 2, 0x100000, 0x100000, 2, 3⟩
      [⟨.kernel, 0x100000, [1, 2, 3]⟩, ⟨.config, 0x200000, []⟩] [7, 8, 9] (by decide) rfl (by decide)
  exact ⟨unsigned, view, hbuild, hparse, by rw [hheader]; rfl, hsignature⟩

end CibosPlatform.Firmware.ImageBuild

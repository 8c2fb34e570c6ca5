/- source: shared/src/utils/serialization.rs
   digest: The bounds-checked byte cursors that every wire structure goes through. -/

import CibosPlatform.Core.Endian
import CibosPlatform.Core.Program

namespace CibosPlatform.Shared.Serialization

open Core LittleEndian Program List Prog

inductive SerializationError where
  | bufferTooSmall (required available : Nat)
  | unexpectedEnd
  | invalidValue (field : String)
  | badMagic
  deriving DecidableEq

structure ByteWriter where
  buf : List Byte
  pos : Nat

structure ByteReader where
  buf : List Byte
  pos : Nat

abbrev Writing := Prog ByteWriter SerializationError Unit

abbrev Reading (α : Type) := Prog ByteReader SerializationError α

namespace ByteWriter

def new (buf : List Byte) : ByteWriter := ⟨buf, 0⟩

def remaining (w : ByteWriter) : Nat := w.buf.length - w.pos

def ensure (need : Nat) : Writing := do
  let left ← gets remaining
  if left < need then fail (.bufferTooSmall need left) else pure ()

def putBytes (bytes : List Byte) : Writing := do
  ensure bytes.length
  update fun w => ⟨splice w.buf w.pos bytes, w.pos + bytes.length⟩

variable (value : Nat)

/-- A single byte is stored by index, the wider integers through `put_bytes`. -/
def putU8 : Writing := do
  ensure 1
  update fun w => ⟨w.buf.set w.pos (BitVec.ofNat 8 value), w.pos + 1⟩

def putU16 : Writing := putBytes (toLE 2 value)

def putU32 : Writing := putBytes (toLE 4 value)

def putU64 : Writing := putBytes (toLE 8 value)

def putLengthPrefixed (bytes : List Byte) : Writing := do
  rejectIf (2 ^ 32 ≤ bytes.length) (.invalidValue "length prefix")
  putU32 bytes.length
  putBytes bytes

def written (w : ByteWriter) : List Byte := w.buf.take w.pos

end ByteWriter

namespace ByteReader

def new (buf : List Byte) : ByteReader := ⟨buf, 0⟩

def remaining (r : ByteReader) : Nat := r.buf.length - r.pos

def ensure (need : Nat) : Reading Unit := do
  let left ← gets remaining
  if left < need then fail .unexpectedEnd else pure ()

def getSlice (len : Nat) : Reading (List Byte) := do
  ensure len
  let bytes ← gets fun r => slice r.buf r.pos len
  update fun r => ⟨r.buf, r.pos + len⟩
  pure bytes

/-- `get_into` copies the next bytes out; what it copies is the next slice. -/
def getInto (len : Nat) : Reading (List Byte) := getSlice len

def getU8 : Reading Nat := do
  ensure 1
  let r ← gets id
  let v ← orPanic r.buf[r.pos]?
  update fun r => ⟨r.buf, r.pos + 1⟩
  pure v.toNat

def getLE (width : Nat) : Reading Nat := do
  pure (ofLE (← getInto width))

abbrev getU16 : Reading Nat := getLE 2

abbrev getU32 : Reading Nat := getLE 4

abbrev getU64 : Reading Nat := getLE 8

def getLengthPrefixed : Reading (List Byte) := do
  getSlice (← getU32)

def rest (r : ByteReader) : List Byte := r.buf.drop r.pos

def skip (r : ByteReader) (n : Nat) : ByteReader := ⟨r.buf, r.pos + n⟩

end ByteReader

/-- An enumeration stored as its `u32` discriminant. -/
class WireEnum (α : Type) where
  field : String
  asU32 : α → Nat
  values : List α
  complete : ∀ a, a ∈ values
  injective : ∀ a b, asU32 a = asU32 b → a = b

export WireEnum (asU32)

def tryFrom {α : Type} [WireEnum α] (value : Nat) : Except SerializationError α :=
  match (WireEnum.values : List α).find? fun a => asU32 a = value with
  | some a => .ok a
  | none => .error (.invalidValue (WireEnum.field α))

variable {bytes : List Byte}

@[simp] theorem tryFrom_asU32 {α : Type} [WireEnum α] (a : α) : tryFrom (asU32 a) = .ok a := by
  unfold tryFrom
  rcases hfind : (WireEnum.values : List α).find? fun b => asU32 b = asU32 a with _ | b
  · have hnone := find?_eq_none.mp hfind a (WireEnum.complete a)
    simp at hnone
  · have hsame := find?_some hfind
    rw [WireEnum.injective b a (by simpa using hsame)]

section

def Writes (p : Writing) (bytes : List Byte) : Prop :=
  ∀ pre rest : List Byte, bytes.length ≤ rest.length → p ⟨pre ++ rest, pre.length⟩ =
    (.ok (), ⟨pre ++ bytes ++ rest.drop bytes.length, (pre ++ bytes).length⟩)

variable {p : Writing}

namespace Writes

theorem putBytes (bytes : List Byte) : Writes (ByteWriter.putBytes bytes) bytes := by
  intro pre rest room
  simp [ByteWriter.putBytes, ByteWriter.ensure, ByteWriter.remaining, bind_run, splice,
    drop_append, not_lt.mpr room]

variable (value : Nat)

theorem putU16 : Writes (ByteWriter.putU16 value) (toLE 2 value) := putBytes _

theorem putU32 : Writes (ByteWriter.putU32 value) (toLE 4 value) := putBytes _

theorem putU64 : Writes (ByteWriter.putU64 value) (toLE 8 value) := putBytes _

theorem putU8 : Writes (ByteWriter.putU8 value) (toLE 1 value) := by
  intro pre rest room
  obtain ⟨b, tail, rfl⟩ : ∃ b tail, rest = b :: tail := by
    cases rest with
    | nil => simp at room
    | cons b tail => exact ⟨b, tail, rfl⟩
  simp [ByteWriter.putU8, ByteWriter.ensure, ByteWriter.remaining, bind_run, toLE]

theorem bind {q : Unit → Writing} {first second : List Byte} (hp : Writes p first)
    (hq : Writes (q ()) second) : Writes (p >>= q) (first ++ second) := by
  intro pre rest room
  rw [length_append] at room
  have hroom : second.length ≤ (rest.drop first.length).length := by
    rw [length_drop]
    omega
  rw [bind_ok (hp pre rest (by omega)), hq (pre ++ first) _ hroom]
  simp [drop_drop]

theorem forEach {α : Type} {body : α → Writing} {bytes : α → List Byte}
    (h : ∀ a, Writes (body a) (bytes a)) (xs : List α) :
    Writes (forEach xs body) (xs.flatMap bytes) := by
  induction xs with
  | nil =>
    intro pre rest room
    simp [Prog.forEach]
  | cons x xs ih =>
    rw [flatMap_cons]
    exact (h x).bind ih

theorem run (h : Writes p bytes) {buf : List Byte} (room : bytes.length ≤ buf.length) :
    p (ByteWriter.new buf) = (.ok (), ⟨bytes ++ buf.drop bytes.length, bytes.length⟩) := by
  simpa [ByteWriter.new] using h [] buf room

end Writes

end

namespace ByteWriter

inductive Put where
  | u8 (value : Nat) | u16 (value : Nat) | u32 (value : Nat) | u64 (value : Nat)
  | bytes (bytes : List Byte) | lengthPrefixed (bytes : List Byte)

def Put.run : Put → Writing
  | .u8 value => putU8 value
  | .u16 value => putU16 value
  | .u32 value => putU32 value
  | .u64 value => putU64 value
  | .bytes bytes => putBytes bytes
  | .lengthPrefixed bytes => putLengthPrefixed bytes

theorem ensure_update (need : Nat) (f : ByteWriter → ByteWriter) (w : ByteWriter) :
    (ensure need >>= fun _ => update f) w =
      if w.remaining < need then (.err (.bufferTooSmall need w.remaining), w) else (.ok (), f w) := by
  rw [ensure, bind_run, bind_ok (gets_run _ w)]
  by_cases hshort : w.remaining < need <;> simp only [hshort, if_true, if_false] <;> rfl

/-- A write that fails leaves something behind exactly when there is room for a length and not for its bytes. -/
theorem failed_put_unchanged_iff (put : Put) (w : ByteWriter) :
    (∀ e w', put.run w = (.err e, w') → w'.pos = w.pos ∧ w'.written = w.written ∧ w'.buf = w.buf) ↔
      ∀ bytes, put = .lengthPrefixed bytes → bytes.length < 2 ^ 32 → 4 ≤ w.remaining →
        4 + bytes.length ≤ w.remaining := by
  have hkept : ∀ {o : Outcome SerializationError Unit × ByteWriter}, o.2 = w → ∀ e w', o = (.err e, w') →
      w'.pos = w.pos ∧ w'.written = w.written ∧ w'.buf = w.buf := by
    rintro _ rfl e w' rfl
    exact ⟨rfl, rfl, rfl⟩
  have hsame : ∀ need f e w', (ensure need >>= fun _ => update f) w = (.err e, w') →
      w'.pos = w.pos ∧ w'.written = w.written ∧ w'.buf = w.buf := by
    intro need f
    rw [ensure_update]
    split
    · exact hkept rfl
    · nofun
  cases put with
  | u8 | u16 | u32 | u64 | bytes => exact ⟨fun _ => nofun, fun _ => hsame _ _⟩
  | lengthPrefixed bytes =>
    have hlen := toLE_length 4 bytes.length
    by_cases hlarge : 2 ^ 32 ≤ bytes.length
    · exact ⟨by rintro - _ ⟨⟩; omega, fun _ => hkept (congrArg _ (bind_err (rejectIf_pos hlarge _ _)))⟩
    have hrun : putLengthPrefixed bytes w = _ := bind_ok (rejectIf_neg hlarge _ _)
    have hlength : putU32 bytes.length w = _ := ensure_update ..
    by_cases hshort : w.remaining < 4
    · rw [if_pos (by omega)] at hlength
      exact ⟨by rintro - _ ⟨⟩; omega, fun _ => hkept (congrArg _ (hrun.trans (bind_err hlength)))⟩
    rw [if_neg (by omega)] at hlength
    have hbody := (hrun.trans (bind_ok hlength)).trans (ensure_update ..)
    have hleft : remaining ⟨splice w.buf w.pos (toLE 4 bytes.length), w.pos + 4⟩ = w.remaining - 4 := by
      unfold remaining at *
      rw [splice_length (by omega), Nat.sub_sub]
    rw [hlen, hleft] at hbody
    constructor
    · rintro hall _ ⟨⟩ - -
      by_contra hlong
      rw [if_pos (by omega)] at hbody
      have hpos : w.pos + 4 = w.pos := (hall _ _ hbody).1
      omega
    · intro hroom e w' h
      have hfits := hroom bytes rfl (by omega) (by omega)
      rw [Put.run, hbody, if_neg (by omega)] at h
      cases h

theorem length_prefix_left_behind : (Put.lengthPrefixed [7]).run (new [0, 0, 0, 0]) =
    (.err (.bufferTooSmall 1 0), ⟨[1, 0, 0, 0], 4⟩) := rfl

end ByteWriter

section

variable {r r' : ByteReader} {tail : List Byte}

@[simp] theorem rest_new (buf : List Byte) : (ByteReader.new buf).rest = buf := rfl

theorem rest_skip (r : ByteReader) (n : Nat) : (r.skip n).rest = r.rest.drop n := by
  simp [ByteReader.rest, ByteReader.skip, drop_drop]

theorem remaining_eq (r : ByteReader) : r.remaining = r.rest.length := by
  simp [ByteReader.remaining, ByteReader.rest]

variable {n value : Nat}

private theorem ensure_of_le (enough : n ≤ r.rest.length) :
    ByteReader.ensure n r = (.ok (), r) := by
  rw [ByteReader.ensure, bind_ok (gets_run _ r), remaining_eq, if_neg (not_lt.mpr enough)]
  rfl

private theorem ensure_of_lt (short : r.rest.length < n) :
    ByteReader.ensure n r = (.err .unexpectedEnd, r) := by
  rw [ByteReader.ensure, bind_ok (gets_run _ r), remaining_eq, if_pos short]
  rfl

theorem getSlice_of_le (enough : n ≤ r.rest.length) :
    ByteReader.getSlice n r = (.ok (r.rest.take n), r.skip n) := by
  rw [ByteReader.getSlice, bind_ok (ensure_of_le enough)]
  rfl

theorem getSlice_of_lt (short : r.rest.length < n) :
    ByteReader.getSlice n r = (.err .unexpectedEnd, r) := by
  rw [ByteReader.getSlice, bind_err (ensure_of_lt short)]

theorem getLE_run {width : Nat} (small : value < 256 ^ width) (next : r.rest = toLE width value ++ tail) :
    ByteReader.getLE width r = (.ok value, r.skip width) ∧ (r.skip width).rest = tail := by
  have henough : width ≤ r.rest.length := by simp [next]
  have hread := getSlice_of_le henough
  rw [next, take_left' (toLE_length _ _)] at hread
  refine ⟨?_, by rw [rest_skip, next, drop_left' (toLE_length _ _)]⟩
  rw [ByteReader.getLE, bind_ok (m := ByteReader.getInto width) hread, pure_run, ofLE_toLE small]

theorem getLE_ok {width : Nat} (h : ByteReader.getLE width r = (.ok value, r')) :
    value < 256 ^ width ∧ r' = r.skip width ∧ r.rest = toLE width value ++ r'.rest := by
  by_cases henough : width ≤ r.rest.length
  · have hread := getSlice_of_le henough
    rw [ByteReader.getLE, bind_ok (m := ByteReader.getInto width) hread, pure_run] at h
    obtain ⟨hvalue, rfl⟩ := Prod.mk.inj h
    have hlen : (r.rest.take width).length = width := by simpa using henough
    have hbytes : toLE width value = r.rest.take width := by
      rw [← Outcome.ok.inj hvalue]
      exact toLE_ofLE hlen
    refine ⟨?_, rfl, ?_⟩
    · rw [← Outcome.ok.inj hvalue]
      exact (ofLE_lt _).trans_eq (by rw [hlen])
    · rw [hbytes, rest_skip, take_append_drop]
  · have hread := getSlice_of_lt (not_le.mp henough)
    rw [ByteReader.getLE, bind_err (m := ByteReader.getInto width) hread] at h
    cases h

theorem lt_u32_iff : value < 256 ^ 4 ↔ value < 2 ^ 32 := by norm_num

theorem lt_u64_iff : value < 256 ^ 8 ↔ value < 2 ^ 64 := by norm_num

theorem getU8_run (small : value < 256) (next : r.rest = toLE 1 value ++ tail) :
    ByteReader.getU8 r = (.ok value, r.skip 1) ∧ (r.skip 1).rest = tail := by
  have hlast : r.buf[r.pos]? = some (BitVec.ofNat 8 value) := by
    have h := congrArg (·[0]?) next
    simpa [ByteReader.rest, toLE] using h
  have henough : 1 ≤ r.rest.length := by simp [next]
  refine ⟨?_, by rw [rest_skip, next, drop_left' (toLE_length _ _)]⟩
  rw [ByteReader.getU8, bind_ok (ensure_of_le henough)]
  simp [bind_run, hlast, ByteReader.skip, Nat.mod_eq_of_lt small]

end

section

variable {ε α β : Type}

def Reads (p : Prog ByteReader ε α) (bytes : List Byte) (value : α) : Prop :=
  ∀ r tail, r.rest = bytes ++ tail → ∃ r', p r = (.ok value, r') ∧ r'.rest = tail

namespace Reads

theorem pure (value : α) : Reads (pure value : Prog ByteReader ε α) [] value := fun r _ next => ⟨r, rfl, next⟩

variable {value : Nat} {p : Prog ByteReader ε α}

theorem getU32 (small : value < 2 ^ 32) : Reads ByteReader.getU32 (toLE 4 value) value :=
  fun _ _ next => ⟨_, getLE_run (lt_u32_iff.mpr small) next⟩

theorem getU64 (small : value < 2 ^ 64) : Reads ByteReader.getU64 (toLE 8 value) value :=
  fun _ _ next => ⟨_, getLE_run (lt_u64_iff.mpr small) next⟩

theorem getU8 (small : value < 256) : Reads ByteReader.getU8 (toLE 1 value) value :=
  fun _ _ next => ⟨_, getU8_run small next⟩

theorem getSlice (bytes : List Byte) : Reads (ByteReader.getSlice bytes.length) bytes bytes := by
  intro r tail next
  have hread := getSlice_of_le (r := r) (n := bytes.length) (by simp [next])
  rw [next, take_left] at hread
  exact ⟨_, hread, by rw [rest_skip, next, drop_left]⟩

theorem bind {q : α → Prog ByteReader ε β} {first second : List Byte} {a : α} {b : β} (hp : Reads p first a)
    (hq : Reads (q a) second b) :
    Reads (p >>= q) (first ++ second) b := by
  intro r tail next
  obtain ⟨r1, hrun1, hrest1⟩ := hp r (second ++ tail) (by rw [next, append_assoc])
  obtain ⟨r2, hrun2, hrest2⟩ := hq r1 tail hrest1
  exact ⟨r2, by rw [bind_ok hrun1, hrun2], hrest2⟩

theorem mapErr {ε' : Type} {value : α} (h : Reads p bytes value) (e : ε') :
    Reads (mapErr e p) bytes value := by
  intro r tail next
  obtain ⟨r', hrun, hrest⟩ := h r tail next
  exact ⟨r', mapErr_ok hrun, hrest⟩

theorem rejectIf {cond : Prop} [Decidable cond] (h : ¬ cond) (e : ε) :
    Reads (rejectIf cond e) [] () := fun r _ next => ⟨r, rejectIf_neg h e r, next⟩

theorem foldEach {γ : Type} {read : Prog ByteReader ε α} {bytes : α → List Byte}
    {values : List α} (h : ∀ a ∈ values, Reads read (bytes a) a) (indices : List γ)
    (count : indices.length = values.length) (before : List α) :
    Reads (foldEach indices before fun acc _ => do
      let a ← read
      Pure.pure (acc ++ [a])) (values.flatMap bytes) (before ++ values) := by
  induction values generalizing indices before with
  | nil =>
    rw [length_nil, length_eq_zero_iff] at count
    subst count
    rw [append_nil]
    exact .pure before
  | cons a values ih =>
    obtain ⟨i, indices, rfl⟩ : ∃ i rest, indices = i :: rest := by
      cases indices with
      | nil => simp at count
      | cons i rest => exact ⟨i, rest, rfl⟩
    obtain ⟨ha, hvalues⟩ := forall_mem_cons.mp h
    have hstep : Reads (do
        let a ← read
        Pure.pure (before ++ [a])) (bytes a ++ []) (before ++ [a]) := ha.bind (.pure _)
    have hrest := ih hvalues indices (by simpa using count) (before ++ [a])
    rw [append_nil] at hstep
    rw [append_assoc, singleton_append] at hrest
    rw [flatMap_cons]
    exact hstep.bind hrest

theorem run {value : α} (h : Reads p bytes value) (tail : List Byte) :
    ∃ r, p (ByteReader.new (bytes ++ tail)) = (.ok value, r) ∧ r.rest = tail :=
  h _ tail (rest_new _)

end Reads

end

namespace ByteWriter

namespace Put

def image : Put → List Byte
  | .u8 value => toLE 1 value
  | .u16 value => toLE 2 value
  | .u32 value => toLE 4 value
  | .u64 value => toLE 8 value
  | .bytes bytes => bytes
  | .lengthPrefixed bytes => toLE 4 bytes.length ++ bytes

/-- The argument is of the type the call takes, and a length fits its prefix. -/
def Fits : Put → Prop
  | .u8 value => value < 2 ^ 8
  | .u16 value => value < 2 ^ 16
  | .u32 value => value < 2 ^ 32
  | .u64 value => value < 2 ^ 64
  | .bytes _ => True
  | .lengthPrefixed bytes => bytes.length < 2 ^ 32

def read : Put → Reading Put
  | .u8 _ => do return .u8 (← ByteReader.getU8)
  | .u16 _ => do return .u16 (← ByteReader.getU16)
  | .u32 _ => do return .u32 (← ByteReader.getU32)
  | .u64 _ => do return .u64 (← ByteReader.getU64)
  | .bytes bytes => do return .bytes (← ByteReader.getSlice bytes.length)
  | .lengthPrefixed _ => do return .lengthPrefixed (← ByteReader.getLengthPrefixed)

def readAll : List Put → Reading (List Put)
  | [] => pure []
  | put :: puts => do
    let first ← put.read
    let rest ← readAll puts
    pure (first :: rest)

variable {put : Put}

theorem writes (fits : put.Fits) : Writes put.run put.image := by
  cases put with
  | u8 value => exact .putU8 value
  | u16 value | u32 value | u64 value | bytes bytes => exact .putBytes _
  | lengthPrefixed bytes =>
    intro pre rest room
    refine (bind_ok (rejectIf_neg (not_le.mpr fits) _ _)).trans ?_
    exact (Writes.putU32 bytes.length).bind (.putBytes bytes) pre rest room

theorem reads (fits : put.Fits) : Reads put.read put.image put := by
  rw [← append_nil put.image]
  cases put with
  | u8 value => exact (Reads.getU8 fits).bind (.pure _)
  | u16 value => exact Reads.bind (fun r tail next => ⟨_, getLE_run fits next⟩) (.pure _)
  | u32 value => exact (Reads.getU32 fits).bind (.pure _)
  | u64 value => exact (Reads.getU64 fits).bind (.pure _)
  | bytes bytes => exact (Reads.getSlice bytes).bind (.pure _)
  | lengthPrefixed bytes => exact ((Reads.getU32 fits).bind (.getSlice bytes)).bind (.pure _)

end Put

/-- Whatever calls are made on a buffer with room for them, the matching calls of the reader give
back what was written, and the rest of the buffer is as it was. -/
theorem puts_round_trip (puts : List Put) (buf tail : List Byte) (fits : ∀ put ∈ puts, put.Fits)
    (room : (puts.flatMap Put.image).length ≤ buf.length) : ∃ w r,
      Prog.forEach puts Put.run (new buf) = (.ok (), w) ∧ w.buf = w.written ++ buf.drop w.pos ∧
      Put.readAll puts (ByteReader.new (w.written ++ tail)) = (.ok puts, r) ∧ r.rest = tail := by
  have hboth : Writes (forEach puts Put.run) (puts.flatMap Put.image) ∧
      Reads (Put.readAll puts) (puts.flatMap Put.image) puts := by
    -- The room is for all the calls, and the induction goes over fewer.
    clear room
    induction puts with
    | nil => exact ⟨fun pre rest _ => by simp [forEach], .pure []⟩
    | cons put puts ih =>
      obtain ⟨hput, hputs⟩ := forall_mem_cons.mp fits
      obtain ⟨hwrites, hreads⟩ := ih hputs
      rw [flatMap_cons]
      refine ⟨(Put.writes hput).bind hwrites, (Put.reads hput).bind ?_⟩
      rw [← append_nil (flatMap _ _)]
      exact hreads.bind (.pure _)
  obtain ⟨r, hread, hrest⟩ := hboth.2.run tail
  have hwritten : written ⟨puts.flatMap Put.image ++ buf.drop (puts.flatMap Put.image).length,
      (puts.flatMap Put.image).length⟩ = puts.flatMap Put.image := take_left
  exact ⟨_, r, hboth.1.run room, by rw [hwritten], by rw [hwritten, hread], hrest⟩

theorem puts_round_trip_prefixed : ∃ w r,
    Prog.forEach [.lengthPrefixed [7]] Put.run (new (replicate 5 0)) = (.ok (), w) ∧
      w.buf = w.written ++ (replicate 5 0).drop w.pos ∧
      Put.readAll [.lengthPrefixed [7]] (ByteReader.new (w.written ++ [9])) = (.ok [.lengthPrefixed [7]], r) ∧
      r.rest = [9] :=
  puts_round_trip [.lengthPrefixed [7]] (replicate 5 0) [9] (by simp [Put.Fits]) (by decide)

end ByteWriter

end CibosPlatform.Shared.Serialization

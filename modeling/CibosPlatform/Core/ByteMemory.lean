/- digest: Byte-addressed memory with little-endian words in it, and word-addressed memory seen as bytes. -/

import CibosPlatform.Core.Endian
import CibosPlatform.Core.MachineWord
import CibosPlatform.Core.Span

namespace CibosPlatform.Core.ByteMemory

open LittleEndian MachineWord Core.Span List Nat

abbrev Memory := Nat → Byte

def readBytes (m : Memory) (start : Nat) : Nat → List Byte
  | 0 => []
  | len + 1 => m start :: readBytes m (start + 1) len

def writeBytes (m : Memory) (start : Nat) : List Byte → Memory
  | [] => m
  | b :: bytes => fun addr => if addr = start then b else writeBytes m (start + 1) bytes addr

def readWord (m : Memory) (addr : Nat) : Nat := ofLE (readBytes m addr 8)

def writeWord (m : Memory) (addr value : Nat) : Memory := writeBytes m addr (toLE 8 value)

section

variable {m m' : Memory} {start len : Nat} {bytes : List Byte}

theorem readBytes_length (m : Memory) (start len : Nat) : (readBytes m start len).length = len := by
  induction len generalizing start with
  | zero => rfl
  | succ len ih => rw [readBytes, length_cons, ih]

theorem readBytes_congr (same : ∀ addr, start ≤ addr → addr < start + len → m' addr = m addr) :
    readBytes m' start len = readBytes m start len := by
  induction len generalizing start with
  | zero => rfl
  | succ len ih =>
    rw [readBytes, readBytes, same start le_rfl (by omega)]
    rw [ih fun addr hlow hhigh => same addr (by omega) (by omega)]

theorem writeBytes_outside {addr : Nat} (outside : addr < start ∨ start + bytes.length ≤ addr) :
    writeBytes m start bytes addr = m addr := by
  induction bytes generalizing start with
  | nil => rfl
  | cons b bytes ih =>
    rw [length_cons] at outside
    show (if addr = start then b else writeBytes m (start + 1) bytes addr) = m addr
    rw [if_neg (by omega)]
    exact ih (by omega)

theorem writeBytes_inside {addr : Nat} (low : start ≤ addr) (high : addr < start + bytes.length) :
    writeBytes m start bytes addr = writeBytes m' start bytes addr := by
  induction bytes generalizing start with
  | nil => exact absurd high (not_lt.mpr low)
  | cons b bytes ih =>
    rw [length_cons] at high
    show (if addr = start then b else writeBytes m (start + 1) bytes addr) =
      if addr = start then b else writeBytes m' (start + 1) bytes addr
    split
    · rfl
    · exact ih (by omega) (by omega)

theorem readBytes_writeBytes : readBytes (writeBytes m start bytes) start bytes.length = bytes := by
  induction bytes generalizing start with
  | nil => rfl
  | cons b bytes ih =>
    rw [length_cons, readBytes]
    have hhead : writeBytes m start (b :: bytes) start = b := if_pos rfl
    have htail : readBytes (writeBytes m start (b :: bytes)) (start + 1) bytes.length =
        readBytes (writeBytes m (start + 1) bytes) (start + 1) bytes.length := by
      apply readBytes_congr
      intro addr hlow _
      exact if_neg (by omega)
    rw [hhead, htail, ih]

theorem readBytes_eq_iff : readBytes m start bytes.length = bytes ↔
    ∀ i (h : i < bytes.length), m (start + i) = bytes[i] := by
  induction bytes generalizing start with
  | nil => exact ⟨fun _ i h => absurd h (not_lt_zero i), fun _ => rfl⟩
  | cons b bytes ih =>
    show m start :: readBytes m (start + 1) bytes.length = b :: bytes ↔ _
    rw [cons.injEq, ih]
    constructor
    · rintro ⟨hhead, htail⟩ i hi
      cases i with
      | zero => exact hhead
      | succ i =>
        rw [getElem_cons_succ, ← htail i (lt_of_succ_lt_succ hi)]
        congr 1
        omega
    · intro h
      refine ⟨h 0 (succ_pos _), fun i hi => ?_⟩
      rw [← getElem_cons_succ b bytes i (succ_lt_succ hi), ← h (i + 1) (succ_lt_succ hi)]
      congr 1
      omega

end

section

def writeAll (m : Memory) : List (Nat × List Byte) → Memory
  | [] => m
  | (start, bytes) :: rest => writeAll (writeBytes m start bytes) rest

def Agree (p q : Nat × List Byte) : Prop :=
  ∀ i j (hi : i < p.2.length) (hj : j < q.2.length), p.1 + i = q.1 + j → p.2[i] = q.2[j]

variable {m : Memory} {parts : List (Nat × List Byte)}

theorem writeAll_append (pre post : List (Nat × List Byte)) :
    writeAll m (pre ++ post) = writeAll (writeAll m pre) post := by
  induction pre generalizing m with
  | nil => rfl
  | cons p pre ih => exact ih

theorem writeAll_at {addr : Nat} {value : Byte} (holds : m addr = value)
    (later : ∀ q ∈ parts, ∀ j (hj : j < q.2.length), q.1 + j = addr → q.2[j] = value) :
    writeAll m parts addr = value := by
  induction parts generalizing m with
  | nil => exact holds
  | cons q parts ih =>
    apply ih
    · by_cases hinside : q.1 ≤ addr ∧ addr < q.1 + q.2.length
      · have hread := (readBytes_eq_iff (m := writeBytes m q.1 q.2)).mp readBytes_writeBytes (addr - q.1)
          (by omega)
        have haddr : q.1 + (addr - q.1) = addr := by omega
        rw [haddr] at hread
        rw [hread]
        exact later q mem_cons_self (addr - q.1) (by omega) haddr
      · rw [writeBytes_outside (by omega), holds]
    · exact fun r hr => later r (mem_cons_of_mem q hr)

theorem readBytes_writeAll_iff :
    (∀ p ∈ parts, readBytes (writeAll m parts) p.1 p.2.length = p.2) ↔ parts.Pairwise Agree := by
  constructor
  · intro whole
    refine pairwise_iff_getElem.mpr fun k l hk hl _ i j hi hj hsame => ?_
    have hfirst := readBytes_eq_iff.mp (whole _ (getElem_mem hk)) i hi
    have hsecond := readBytes_eq_iff.mp (whole _ (getElem_mem hl)) j hj
    rw [← hfirst, ← hsecond, hsame]
  · intro agree p hp
    obtain ⟨pre, post, rfl⟩ := append_of_mem hp
    obtain ⟨-, hlater, -⟩ := pairwise_append.mp agree
    obtain ⟨hp_post, -⟩ := pairwise_cons.mp hlater
    apply readBytes_eq_iff.mpr
    intro i hi
    rw [writeAll_append]
    show writeAll (writeBytes (writeAll m pre) p.1 p.2) post (p.1 + i) = p.2[i]
    apply writeAll_at
    · exact readBytes_eq_iff.mp readBytes_writeBytes i hi
    · intro q hq j hj hsame
      exact (hp_post q hq i j hi hj hsame.symm).symm

end

section

variable {m m' : Memory} {addr value : Nat}

theorem readWord_lt (m : Memory) (addr : Nat) : readWord m addr < wordBound := by
  have hlt := ofLE_lt (readBytes m addr 8)
  rwa [readBytes_length] at hlt

theorem readWord_congr (same : ∀ a, addr ≤ a → a < addr + 8 → m' a = m a) :
    readWord m' addr = readWord m addr := by
  rw [readWord, readBytes_congr same, readWord]

theorem writeWord_outside {a : Nat} (outside : a < addr ∨ addr + 8 ≤ a) :
    writeWord m addr value a = m a :=
  writeBytes_outside (by rwa [toLE_length])

theorem readWord_writeWord (fits : value < wordBound) : readWord (writeWord m addr value) addr = value := by
  have hread : readBytes (writeWord m addr value) addr (toLE 8 value).length = toLE 8 value :=
    readBytes_writeBytes
  rw [toLE_length] at hread
  rw [readWord, hread]
  exact ofLE_toLE fits

theorem readWord_writeWord_of_apart {other : Nat} (apart : other + 8 ≤ addr ∨ addr + 8 ≤ other) :
    readWord (writeWord m addr value) other = readWord m other := by
  apply readWord_congr
  intro a hlow hhigh
  exact writeWord_outside (by omega)

theorem writeWord_comm {other value' : Nat} (apart : other + 8 ≤ addr ∨ addr + 8 ≤ other) :
    writeWord (writeWord m addr value) other value' = writeWord (writeWord m other value') addr value := by
  funext a
  by_cases hother : other ≤ a ∧ a < other + 8
  · have hout : writeWord (writeWord m other value') addr value a = writeWord m other value' a :=
      writeWord_outside (by omega)
    rw [hout]
    exact writeBytes_inside hother.1 (by rw [toLE_length]; exact hother.2)
  · have hout : writeWord (writeWord m addr value) other value' a = writeWord m addr value a :=
      writeWord_outside (by omega)
    rw [hout]
    by_cases haddr : addr ≤ a ∧ a < addr + 8
    · exact writeBytes_inside haddr.1 (by rw [toLE_length]; exact haddr.2)
    · have hfirst : writeWord m addr value a = m a := writeWord_outside (by omega)
      have hsecond : writeWord (writeWord m other value') addr value a = writeWord m other value' a :=
        writeWord_outside (by omega)
      have hthird : writeWord m other value' a = m a := writeWord_outside (by omega)
      rw [hfirst, hsecond, hthird]

end

def Unchanged (s : AddrSpan) (m m' : Memory) : Prop := ∀ addr, s.Covers addr → m' addr = m addr

namespace Unchanged

variable {s t : AddrSpan} {m m' m'' : Memory}

theorem refl (s : AddrSpan) (m : Memory) : Unchanged s m m := fun _ _ => rfl

theorem trans (first : Unchanged s m m') (second : Unchanged s m' m'') : Unchanged s m m'' :=
  fun addr haddr => (second addr haddr).trans (first addr haddr)

theorem write {addr value : Nat} (apart : s.Apart t) (low : t.base ≤ addr)
    (high : addr + 8 ≤ t.base + t.length) :
    Unchanged s m (writeWord m addr value) := by
  intro a ha
  apply writeWord_outside
  simp only [AddrSpan.Apart, AddrSpan.Covers, AddrSpan.stop] at *
  omega

theorem word (unchanged : Unchanged s m m') {addr : Nat} (low : s.base ≤ addr)
    (high : addr + 8 ≤ s.base + s.length) : readWord m' addr = readWord m addr := by
  apply readWord_congr
  intro a hlow hhigh
  exact unchanged a ⟨by omega, by simp only [AddrSpan.stop]; omega⟩

end Unchanged

end CibosPlatform.Core.ByteMemory

namespace CibosPlatform.Core.WordBytes

open LittleEndian

def wordByte (word : BitVec 64) (j : Nat) : Byte := word.extractLsb' (8 * j) 8

def setWordByte (word : BitVec 64) (j : Nat) (b : Byte) : BitVec 64 :=
  (word &&& ~~~((BitVec.allOnes 8).setWidth 64 <<< (8 * j))) ||| (b.setWidth 64 <<< (8 * j))

variable (words : Nat → BitVec 64)

def byteAt (off : Nat) : Byte := wordByte (words (off / 8)) (off % 8)

def setByteAt (off : Nat) (b : Byte) : Nat → BitVec 64 := fun i =>
  if i = off / 8 then setWordByte (words i) (off % 8) b else words i

def copyBytes : (Nat → BitVec 64) → Nat → List Byte → Nat → BitVec 64
  | words, _, [] => words
  | words, pos, b :: rest => copyBytes (setByteAt words pos b) (pos + 1) rest

theorem wordByte_setWordByte (word : BitVec 64) (b : Byte) {j k : Nat} (hj : j < 8) (hk : k < 8) :
    wordByte (setWordByte word j b) k = if k = j then b else wordByte word k := by
  apply BitVec.eq_of_getLsbD_eq
  intro i hi
  simp only [wordByte, setWordByte, BitVec.getLsbD_extractLsb', BitVec.getLsbD_or, BitVec.getLsbD_and,
    BitVec.getLsbD_not, BitVec.getLsbD_shiftLeft, BitVec.getLsbD_setWidth, BitVec.getLsbD_allOnes]
  have hbit : 8 * k + i < 64 := by omega
  by_cases hsame : k = j
  · subst hsame
    have hback : 8 * k + i - 8 * k = i := by omega
    simp [hback, hi, hbit, show i < 64 by omega]
  · -- a bit of another byte is below the one that was set, or eight bits or more above its start
    rw [if_neg hsame, BitVec.getLsbD_extractLsb']
    by_cases hbelow : 8 * k + i < 8 * j
    · simp [hbelow, hbit, hi]
    · have habove : 8 ≤ 8 * k + i - 8 * j := by omega
      simp [hbelow, hbit, hi, not_lt.mpr habove, BitVec.getLsbD_of_ge b _ habove]

theorem byteAt_setByteAt (pos off : Nat) (b : Byte) :
    byteAt (setByteAt words pos b) off = if off = pos then b else byteAt words off := by
  rw [byteAt, setByteAt]
  by_cases hword : off / 8 = pos / 8
  · rw [if_pos hword, wordByte_setWordByte _ _ (Nat.mod_lt _ (by decide)) (Nat.mod_lt _ (by decide))]
    have hiff : off % 8 = pos % 8 ↔ off = pos := by omega
    simp only [hiff]
    rfl
  · have hne : off ≠ pos := by
      rintro rfl
      exact hword rfl
    rw [if_neg hword, if_neg hne]
    rfl

theorem byteAt_copyBytes_before {words : Nat → BitVec 64} {pos off : Nat} (bytes : List Byte)
    (h : off < pos) : byteAt (copyBytes words pos bytes) off = byteAt words off := by
  induction bytes generalizing words pos with
  | nil => rfl
  | cons b rest ih => rw [copyBytes, ih (by omega), byteAt_setByteAt, if_neg (by omega)]

theorem byteAt_copyBytes {pos off : Nat} (bytes : List Byte) (h : pos ≤ off) :
    byteAt (copyBytes words pos bytes) off = (bytes[off - pos]?).getD (byteAt words off) := by
  induction bytes generalizing words pos with
  | nil => rfl
  | cons b rest ih =>
    rw [copyBytes]
    by_cases hhere : off = pos
    · subst hhere
      rw [byteAt_copyBytes_before _ (lt_add_one _), byteAt_setByteAt, if_pos rfl, Nat.sub_self]
      rfl
    · have hnext : off - pos = off - (pos + 1) + 1 := by omega
      rw [ih _ (by omega), byteAt_setByteAt, if_neg hhere, hnext, List.getElem?_cons_succ]

@[simp] theorem byteAt_zero (off : Nat) : byteAt (fun _ => 0) off = 0 := by
  rw [byteAt, wordByte]
  exact BitVec.eq_of_toNat_eq (by simp)

end CibosPlatform.Core.WordBytes

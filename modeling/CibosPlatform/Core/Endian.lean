/- digest: Fixed-width integers in both byte orders, and overwriting a part of a byte buffer. -/

import Mathlib.Data.Vector.Defs
import Mathlib.Data.List.Basic
import Mathlib.Tactic.Ring

namespace CibosPlatform.Core.LittleEndian

open List

abbrev Byte := BitVec 8

def toLE : Nat → Nat → List Byte
  | 0, _ => []
  | width + 1, n => BitVec.ofNat 8 n :: toLE width (n / 256)

def ofLE : List Byte → Nat
  | [] => 0
  | b :: rest => b.toNat + 256 * ofLE rest

/-- `buf[pos..pos + bytes.len()].copy_from_slice(bytes)` on a buffer that is long enough. -/
def splice (buf : List Byte) (pos : Nat) (bytes : List Byte) : List Byte :=
  buf.take pos ++ bytes ++ buf.drop (pos + bytes.length)

/-- `buf[pos..pos + len]` on a buffer that is long enough. -/
def slice (buf : List Byte) (pos len : Nat) : List Byte := (buf.drop pos).take len

@[simp] theorem toLE_length (width n : Nat) : (toLE width n).length = width := by
  induction width generalizing n with
  | zero => rfl
  | succ width ih => simp [toLE, ih]

variable {width pos len : Nat} {bytes buf : List Byte}

theorem ofLE_toLE {n : Nat} (h : n < 256 ^ width) : ofLE (toLE width n) = n := by
  induction width generalizing n with
  | zero =>
    have hn : n = 0 := by simpa using h
    rw [hn]
    rfl
  | succ width ih =>
    have hq : n / 256 < 256 ^ width := by
      rw [Nat.div_lt_iff_lt_mul (by decide), ← pow_succ]
      exact h
    simp only [toLE, ofLE, ih hq, BitVec.toNat_ofNat]
    omega

theorem toLE_ofLE (h : bytes.length = width) : toLE width (ofLE bytes) = bytes := by
  induction bytes generalizing width with
  | nil =>
    rw [← h]
    rfl
  | cons b rest ih =>
    have hlow : (b.toNat + 256 * ofLE rest) / 256 = ofLE rest := by omega
    rw [← h, length_cons, ofLE, toLE, hlow, ih rfl]
    congr 1
    apply BitVec.eq_of_toNat_eq
    rw [BitVec.toNat_ofNat]
    omega

theorem ofLE_lt (bytes : List Byte) : ofLE bytes < 256 ^ bytes.length := by
  induction bytes with
  | nil => decide
  | cons b rest ih =>
    simp only [ofLE, length_cons, pow_succ]
    omega

theorem splice_length (fits : pos + bytes.length ≤ buf.length) :
    (splice buf pos bytes).length = buf.length := by
  simp only [splice, length_append, length_take, length_drop]
  omega

theorem slice_length (fits : pos + len ≤ buf.length) : (slice buf pos len).length = len := by
  simp only [slice, length_take, length_drop]
  omega

theorem getElem?_splice (fits : pos + bytes.length ≤ buf.length) (i : Nat) :
    (splice buf pos bytes)[i]? =
      if pos ≤ i ∧ i < pos + bytes.length then bytes[i - pos]? else buf[i]? := by
  have htake : (buf.take pos).length = pos := by
    rw [length_take]
    omega
  unfold splice
  by_cases hlow : i < pos
  · rw [if_neg (by omega), append_assoc, getElem?_append_left (by omega), getElem?_take_of_lt hlow]
  · by_cases hhigh : i < pos + bytes.length
    · rw [if_pos ⟨by omega, hhigh⟩, append_assoc, getElem?_append_right (by omega), htake,
        getElem?_append_left (by omega)]
    · rw [if_neg (by omega), append_assoc, getElem?_append_right (by omega), htake,
        getElem?_append_right (by omega), getElem?_drop]
      congr 1
      omega

theorem slice_middle (pre bytes rest : List Byte) :
    slice (pre ++ bytes ++ rest) pre.length bytes.length = bytes := by
  rw [slice, append_assoc, drop_left, take_left]

theorem slice_eq_of_parts (pre rest : List Byte) (parts : buf = pre ++ bytes ++ rest) (start : pos = pre.length)
    (size : len = bytes.length) :
    slice buf pos len = bytes := by
  rw [parts, start, size, slice_middle]

section

variable {buf first second : List Byte} {pos len : Nat} (pre rest : List Byte)
  (parts : buf = pre ++ (first ++ second) ++ rest)

include parts

theorem slice_first_of_pair (start : pos = pre.length) (size : len = first.length) :
    slice buf pos len = first := by
  refine slice_eq_of_parts pre (second ++ rest) ?_ start size
  rw [parts, append_assoc, append_assoc, append_assoc]

theorem slice_second_of_pair (start : pos = pre.length + first.length) (size : len = second.length) :
    slice buf pos len = second := by
  refine slice_eq_of_parts (pre ++ first) rest ?_ (start.trans length_append.symm) size
  rw [parts, append_assoc, append_assoc, append_assoc, append_assoc]

end

theorem flatten_blocks_length {blocks : List (List Byte)} (equal : ∀ b ∈ blocks, b.length = width) :
    blocks.flatten.length = blocks.length * width := by
  induction blocks with
  | nil => exact (zero_mul width).symm
  | cons b rest ih =>
    rw [flatten_cons, length_append, equal b mem_cons_self,
      ih fun c hc => equal c (mem_cons_of_mem _ hc), length_cons, Nat.succ_mul,
      add_comm]

theorem flatMap_blocks_length {α : Type} {f : α → List Byte} (equal : ∀ x, (f x).length = width) (xs : List α) :
    (xs.flatMap f).length = xs.length * width := by
  rw [flatMap_def, flatten_blocks_length, length_map]
  intro b hb
  obtain ⟨x, -, rfl⟩ := mem_map.mp hb
  exact equal x

theorem slice_flatMap_range {f : Nat → List Byte} {count i : Nat} (blocks : ∀ j, (f j).length = width)
    (inside : i < count) :
    slice ((range count).flatMap f) (i * width) width = f i := by
  have hlen : ((range i).flatMap f).length = i * width := by
    rw [flatMap_blocks_length blocks, length_range]
  have hsplit : range count = range i ++ i :: range' (i + 1) (count - i - 1) := by
    have h := range'_append_1 (s := 0) (m := i) (n := count - i - 1 + 1)
    rw [show i + (count - i - 1 + 1) = count by omega, zero_add, range'_succ] at h
    rw [range_eq_range', range_eq_range', h]
  refine slice_eq_of_parts ((range i).flatMap f)
    ((range' (i + 1) (count - i - 1)).flatMap f) ?_ hlen.symm (blocks i).symm
  rw [hsplit, flatMap_append, flatMap_cons, append_assoc]

section

variable {α : Type} {row : Nat → α → List Byte} {body : α → List Byte} {before after : List α} {x : α}
  {head rest : List Byte}

def tableRows (row : Nat → α → List Byte) (body : α → List Byte) : Nat → List α → List Byte
  | _, [] => []
  | cursor, x :: xs => row cursor x ++ tableRows row body (cursor + (body x).length) xs

theorem tableRows_append (cursor : Nat) (xs ys : List α) : tableRows row body cursor (xs ++ ys) =
      tableRows row body cursor xs ++ tableRows row body (cursor + (xs.flatMap body).length) ys := by
  induction xs generalizing cursor with
  | nil => rfl
  | cons x xs ih =>
    rw [cons_append, tableRows, ih, tableRows, flatMap_cons, length_append, append_assoc, add_assoc]

theorem tableRows_length (wide : ∀ cursor x, (row cursor x).length = width) (cursor : Nat) (xs : List α) :
    (tableRows row body cursor xs).length = xs.length * width := by
  induction xs generalizing cursor with
  | nil => exact (zero_mul width).symm
  | cons x xs ih => rw [tableRows, length_append, wide, ih, length_cons, Nat.succ_mul, add_comm]

theorem slice_row (wide : ∀ cursor x, (row cursor x).length = width) {cursor : Nat}
    (start : pos = head.length + before.length * width) :
    slice (head ++ tableRows row body cursor (before ++ x :: after) ++ rest) pos width =
      row (cursor + (before.flatMap body).length) x := by
  refine slice_eq_of_parts (head ++ tableRows row body cursor before)
    (tableRows row body (cursor + (before.flatMap body).length + (body x).length) after ++ rest) ?_ ?_ (wide _ _).symm
  · rw [tableRows_append, tableRows]
    simp only [append_assoc]
  · rw [start, length_append, tableRows_length wide]

theorem slice_flatMap (start : pos = head.length + (before.flatMap body).length) :
    slice (head ++ (before ++ x :: after).flatMap body ++ rest) pos (body x).length = body x := by
  refine slice_eq_of_parts (head ++ before.flatMap body) (after.flatMap body ++ rest) ?_
    (start.trans length_append.symm) rfl
  simp only [flatMap_append, flatMap_cons, append_assoc]

theorem flatMap_length_le :
    (before.flatMap body).length + (body x).length ≤ ((before ++ x :: after).flatMap body).length := by
  rw [flatMap_append, flatMap_cons, length_append, length_append]
  omega

end

theorem splice_append {pre rest : List Byte} :
    splice (pre ++ rest) pre.length bytes = pre ++ bytes ++ rest.drop bytes.length := by
  rw [splice, take_left, drop_append, drop_eq_nil_of_le (by omega), nil_append]
  congr 2
  omega

theorem slice_take {n : Nat} (inside : pos + len ≤ n) :
    slice (buf.take n) pos len = slice buf pos len := by
  rw [slice, slice, drop_take, take_take, min_eq_left (by omega)]

theorem slice_splice_self (fits : pos + bytes.length ≤ buf.length) :
    slice (splice buf pos bytes) pos bytes.length = bytes := by
  have htake : (buf.take pos).length = pos := by
    rw [length_take]
    omega
  rw [slice, splice, append_assoc, drop_append_of_le_length htake.ge,
    drop_of_length_le htake.le, nil_append, take_left']
  rfl

theorem slice_splice_disjoint {at' : Nat} (fits : pos + bytes.length ≤ buf.length)
    (apart : at' + len ≤ pos ∨ pos + bytes.length ≤ at') :
    slice (splice buf pos bytes) at' len = slice buf at' len := by
  apply ext_getElem?
  intro i
  simp only [slice, getElem?_take, getElem?_drop, getElem?_splice fits]
  by_cases hi : i < len
  · rw [if_pos hi, if_pos hi, if_neg (by omega)]
  · rw [if_neg hi, if_neg hi]

end CibosPlatform.Core.LittleEndian

namespace CibosPlatform.Core.BigEndian

open LittleEndian List

def toBE (width n : Nat) : List Byte := (toLE width n).reverse

def ofBE (bytes : List Byte) : Nat := bytes.foldl (fun v b => 256 * v + b.toNat) 0

variable (bytes : List Byte)

@[simp] theorem toBE_length (width n : Nat) : (toBE width n).length = width := by
  rw [toBE, length_reverse, toLE_length]

theorem ofBE_reverse : ofBE bytes.reverse = ofLE bytes := by
  rw [ofBE, foldl_reverse]
  induction bytes with
  | nil => rfl
  | cons b rest ih => rw [foldr_cons, ih, ofLE, add_comm]

theorem ofBE_toBE {width n : Nat} (fits : n < 256 ^ width) : ofBE (toBE width n) = n := by
  rw [toBE, ofBE_reverse, ofLE_toLE fits]

theorem ofBE_lt : ofBE bytes < 256 ^ bytes.length := by
  rw [← reverse_reverse bytes, ofBE_reverse, length_reverse]
  exact ofLE_lt _

end CibosPlatform.Core.BigEndian

/- source: shared/src/crypto/backends/sphincs_portable.rs
   digest: The digits, checksum, leaf and indices of a message, as the scheme has them. -/

import CibosPlatform.Shared.Sphincs.Verifier
import Mathlib.Data.List.Induction

/-! The verifier reads them off a byte at a time, with shifts and masks. -/

namespace CibosPlatform.Shared.Sphincs.Selection

open List hiding Vector
open Core BigEndian LittleEndian Hash Verifier Nat

/-- The two digits of a byte, the high one first. -/
def nibbles (b : Byte) : List Nat := [b.toNat / 16, b.toNat % 16]

/-- What all digits together lack to be fifteen each. -/
def checksum (digits : List Nat) : Nat := (digits.map (15 - ·)).sum

def chainDigits (msg : List Byte) : List Nat :=
  let digits := msg.flatMap nibbles
  let lacking := checksum digits
  digits ++ [lacking / 256 % 16, lacking / 16 % 16, lacking % 16]

/-- A tree takes six bits of the digest, which is one number with its low byte first. -/
def forsIndices (digest : List Byte) : List Nat :=
  (range forsTrees).map fun i => ofLE digest / 64 ^ i % 64

/-- The bytes of a digest name 33 leaves of FORS trees, a tree of the lowest layer and a leaf of it. -/
def cut (bytes : List Byte) : MessageHash where
  digest := bytes.take 25
  tree := ofBE (slice bytes 25 8) % 2 ^ 63
  leafIdx := ofBE (slice bytes 33 1) % 2 ^ 3

def select (sha256 : Sha256) (r seed : Vector Byte 16) (root message : List Byte) : MessageHash :=
  let inner := sha256 (r.toList ++ (seed.toList ++ root) ++ message)
  let block (counter : Nat) := sha256 (r.toList ++ seed.toList ++ inner.toList ++ toBE 4 counter)
  cut ((block 0).toList ++ (block 1).toList.take 2)

section

private theorem nibbles_eq : ∀ b : Byte, [((b >>> 4) &&& 15#8).toNat, ((b >>> 0) &&& 15#8).toNat] =
    nibbles b := by
  decide

private theorem nextDigit_twice (input : List Byte) (n : Nat) (total : Byte) (out : List Nat) :
    nextDigit input (nextDigit input ⟨n, total, 0, out⟩) =
      ⟨n + 1, input.getD n 0, 0, out ++ nibbles (input.getD n 0)⟩ := by
  rw [← nibbles_eq, append_cons]
  rfl

private theorem baseW_nibbles {input : List Byte} {n : Nat} (inside : n ≤ input.length) :
    baseW (2 * n) input = (input.take n).flatMap nibbles := by
  have hread : ∃ total, (range (2 * n)).foldl (fun s _ => nextDigit input s) ⟨0, 0, 0, []⟩ =
      ⟨n, total, 0, (input.take n).flatMap nibbles⟩ := by
    induction n with
    | zero => exact ⟨0, rfl⟩
    | succ n ih =>
      obtain ⟨total, hread⟩ := ih (le_of_succ_le inside)
      refine ⟨input.getD n 0, ?_⟩
      rw [mul_succ, range_succ, range_succ, foldl_concat, foldl_concat, hread,
        nextDigit_twice, take_add_one, flatMap_append, getD_eq_getElem?_getD,
        getElem?_eq_getElem inside, Option.getD_some, Option.toList_some, flatMap_singleton]
  obtain ⟨total, hread⟩ := hread
  rw [baseW, hread]

private theorem nibbles_lt {m : List Byte} : ∀ d ∈ m.flatMap nibbles, d < wotsW := by
  intro d hd
  obtain ⟨b, -, hd⟩ := mem_flatMap.mp hd
  have hb : b.toNat < 256 := b.isLt
  rcases mem_pair.mp hd with rfl | rfl
  · exact Nat.div_lt_of_lt_mul hb
  · exact mod_lt _ (by decide)

private theorem checksum_digits {csum : Nat} (small : csum < 4096) :
    baseW wotsLen2 (toBE 2 (csum <<< 4)) = [csum / 256 % 16, csum / 16 % 16, csum % 16] := by
  obtain ⟨hi, lo, hbytes⟩ := length_eq_two.mp (toBE_length 2 (csum <<< 4))
  have hvalue : ofBE (toBE 2 (csum <<< 4)) = csum <<< 4 := ofBE_toBE (by rw [shiftLeft_eq]; omega)
  rw [hbytes, shiftLeft_eq] at hvalue
  have hsum : 256 * hi.toNat + lo.toNat = csum * 2 ^ 4 := by simpa [ofBE] using hvalue
  injection nibbles_eq hi with hhigh hrest
  injection hrest with hlow
  injection nibbles_eq lo with hlast
  have hdigits : baseW wotsLen2 [hi, lo] =
      [((hi >>> 4) &&& 15#8).toNat, ((hi >>> 0) &&& 15#8).toNat, ((lo >>> 4) &&& 15#8).toNat] := rfl
  have hlo : lo.toNat < 256 := lo.isLt
  rw [hbytes, hdigits, hhigh, hlow, hlast, show hi.toNat / 16 = csum / 256 % 16 by omega,
    show hi.toNat % 16 = csum / 16 % 16 by omega, show lo.toNat / 16 = csum % 16 by omega]

private theorem checksum_sum {digits : List Nat} (small : ∀ d ∈ digits, d < wotsW) :
    checksum digits + digits.sum = 15 * digits.length := by
  induction digits with
  | nil => rfl
  | cons d digits ih =>
    obtain ⟨hd : d < 16, hrest⟩ := forall_mem_cons.mp small
    have hsum := ih hrest
    rw [checksum] at hsum ⊢
    rw [map_cons, sum_cons, sum_cons, length_cons]
    omega

theorem digits_spec {msg : List Byte} (block : msg.length = hashLen) :
    (msg.flatMap nibbles).length = wotsLen1 ∧
      checksum (msg.flatMap nibbles) + (msg.flatMap nibbles).sum = 15 * wotsLen1 := by
  have hlength : (msg.flatMap nibbles).length = wotsLen1 := by
    rw [length_flatMap, map_congr_left (fun b _ => show (nibbles b).length = 2 from rfl),
      map_const', block]
    rfl
  exact ⟨hlength, hlength ▸ checksum_sum nibbles_lt⟩

theorem chainLengths_eq {msg : List Byte} (block : msg.length = hashLen) :
    chainLengths msg = chainDigits msg := by
  have hdigits : baseW wotsLen1 msg = msg.flatMap nibbles := by
    have h := baseW_nibbles (le_of_eq block.symm)
    rwa [← block, take_length, block] at h
  have hfold : (msg.flatMap nibbles).foldl (fun csum l => csum + (wotsW - 1 - l)) 0 =
      checksum (msg.flatMap nibbles) := by
    rw [checksum, sum_eq_foldl, foldl_map]
    rfl
  have hfits : 15 * wotsLen1 < 4096 := by decide
  have hsmall := lt_of_le_of_lt (le.intro (digits_spec block).2) hfits
  rw [chainLengths, hdigits, hfold]
  exact congrArg _ (checksum_digits hsmall)

theorem chainDigits_lt (msg : List Byte) (i : Nat) : (chainDigits msg).getD i 0 < wotsW := by
  rw [getD_eq_getElem?_getD]
  cases hat : (chainDigits msg)[i]? with
  | none => decide
  | some d =>
    rcases mem_append.mp (mem_of_getElem? hat) with hdigit | hcheck
    · exact nibbles_lt d hdigit
    · simp only [mem_cons, not_mem_nil, or_false] at hcheck
      rw [Option.getD_some, wotsW]
      omega

end

section

private theorem ofLE_testBit (bytes : List Byte) (p : Nat) :
    (ofLE bytes).testBit p = (bytes.getD (p / 8) 0).toNat.testBit (p % 8) := by
  induction bytes generalizing p with
  | nil => exact (zero_testBit p).trans (zero_testBit _).symm
  | cons b rest ih =>
    rw [ofLE, add_comm, testBit_two_pow_mul_add (i := 8) _ b.isLt]
    by_cases hp : p < 8
    · rw [if_pos hp, div_eq_of_lt hp, mod_eq_of_lt hp, getD_cons_zero]
    · obtain ⟨q, rfl⟩ := Nat.exists_eq_add_of_le' (not_lt.mp hp)
      rw [if_neg hp, Nat.add_sub_cancel, ih, add_mod_right, add_div_right _ (by decide),
        getD_cons_succ]

private theorem indexBits_eq (m : List Byte) (offset n : Nat) :
    (range n).foldl (indexBit m offset) 0 = ofLE m / 2 ^ offset % 2 ^ n := by
  induction n with
  | zero => rw [pow_zero, mod_one]; rfl
  | succ n ih =>
    have hbit : (((m.getD ((offset + n) >>> 3) 0) >>> ((offset + n) &&& 7)) &&& 1).toNat =
        ((ofLE m / 2 ^ offset).testBit n).toNat := by
      rw [testBit_div_two_pow, ofLE_testBit, toNat_testBit, BitVec.toNat_and,
        BitVec.toNat_ushiftRight,
        shiftRight_eq_div_pow, shiftRight_eq_div_pow, and_two_pow_sub_one_eq_mod _ 3,
        add_comm offset]
      exact and_one_is_mod _
    rw [range_succ, foldl_concat, ih, indexBit, hbit]
    refine eq_of_testBit_eq fun k => ?_
    rw [testBit_xor, testBit_mod_two_pow, testBit_mod_two_pow, testBit_shiftLeft]
    rcases lt_trichotomy k n with hbelow | rfl | habove
    · simp [hbelow, lt_succ_of_lt hbelow, not_le_of_gt hbelow]
    · cases (ofLE m / 2 ^ offset).testBit k <;> simp
    · have hzero : ((ofLE m / 2 ^ offset).testBit n).toNat.testBit (k - n) = false :=
        testBit_lt_two_pow (lt_of_lt_of_le (Bool.toNat_lt _) (le_self_pow (by omega) 2))
      simp [hzero, not_lt_of_gt habove, not_lt.mpr (succ_le_of_lt habove)]

theorem messageToIndices_eq (m : List Byte) : messageToIndices m = forsIndices m := by
  refine map_congr_left fun i _ => ?_
  rw [indexBits_eq, mul_comm, pow_mul]
  rfl

theorem forsIndices_length (digest : List Byte) : (forsIndices digest).length = forsTrees := by
  rw [forsIndices, length_map, length_range]

theorem forsIndices_lt {digest : List Byte} {index : Nat} (selected : index ∈ forsIndices digest) :
    index < 2 ^ forsHeight := by
  obtain ⟨i, -, rfl⟩ := mem_map.mp selected
  exact mod_lt _ (by decide)

end

section

private theorem bytesToU64_eq {bytes : List Byte} (word : bytes.length ≤ 8) :
    bytesToU64 bytes = ofBE bytes := by
  induction bytes using reverseRecOn with
  | nil => rfl
  | append_singleton bytes b ih =>
    rw [length_append, length_singleton] at word
    have hsmall : ofBE bytes < 2 ^ 56 :=
      lt_of_lt_of_le (ofBE_lt bytes)
        (Nat.pow_le_pow_right (by decide) (show bytes.length ≤ 7 by omega))
    have hb : b.toNat < 2 ^ 8 := b.isLt
    rw [bytesToU64, ofBE, foldl_concat, foldl_concat]
    change (bytesToU64 bytes <<< 8) % 2 ^ 64 ||| b.toNat = 256 * ofBE bytes + b.toNat
    rw [ih (by omega), shiftLeft_eq, mod_eq_of_lt (by omega), mul_comm,
      ← two_pow_add_eq_or_of_lt hb]

private theorem cut_eq (bytes : List Byte) : MessageHash.mk (bytes.take forsMsgBytes)
    (bytesToU64 (slice bytes forsMsgBytes treeBytes) &&& ((2 ^ 64 - 1) >>> (64 - treeBits)))
    (bytesToU64 (slice bytes (forsMsgBytes + treeBytes) leafBytes) % 2 ^ 32 &&&
      ((2 ^ 32 - 1) >>> (32 - leafBits))) = cut bytes := by
  have htree : bytesToU64 (slice bytes forsMsgBytes treeBytes) = ofBE (slice bytes 25 8) :=
    bytesToU64_eq (length_take_le ..)
  have hleaf : bytesToU64 (slice bytes (forsMsgBytes + treeBytes) leafBytes) =
    ofBE (slice bytes 33 1) :=
    bytesToU64_eq ((length_take_le ..).trans (by decide))
  have hlow (n : Nat) : n % 2 ^ 32 % 2 ^ 3 = n % 2 ^ 3 := mod_mod_of_dvd n (by decide)
  rw [htree, hleaf, cut, ← hlow, ← and_two_pow_sub_one_eq_mod _ 63,
    ← and_two_pow_sub_one_eq_mod _ 3]
  rfl

variable (sha256 : Sha256)

private theorem mgf1256_eq (input : List Byte) : mgf1256 sha256 dgstBytes input =
    (sha256 (input ++ toBE 4 0)).toList ++ (sha256 (input ++ toBE 4 1)).toList.take 2 := by
  have hfirst : (sha256 (input ++ toBE 4 0)).toList.take (min 32 (dgstBytes - 0)) =
    (sha256 (input ++ toBE 4 0)).toList :=
    take_of_length_le (le_of_eq Vector.length_toList)
  rw [mgf1256, mgf1From, if_pos (by decide)]
  dsimp only
  rw [length_nil, hfirst, nil_append, mgf1From, Vector.length_toList, if_pos (by decide)]
  dsimp only
  rw [mgf1From, if_neg]
  · rfl
  · rw [length_append, length_take, Vector.length_toList, Vector.length_toList]
    decide

variable (r seed : Vector Byte 16) (root message : List Byte)

theorem select_lt : (select sha256 r seed root message).tree < 2 ^ treeBits ∧
    (select sha256 r seed root message).leafIdx < 2 ^ treeHeight :=
  ⟨mod_lt _ (by decide), mod_lt _ (by decide)⟩

variable {root}

theorem hashMessage_eq (half : root.length = hashLen) :
    hashMessage sha256 r.toList (seed.toList ++ root) message =
      select sha256 r seed root message := by
  have hr : r.toList.take hashLen = r.toList := take_of_length_le (le_of_eq Vector.length_toList)
  have hkey : (seed.toList ++ root).take publicKeyLen = seed.toList ++ root := by
    refine take_of_length_le (le_of_eq ?_)
    rw [length_append, half, Vector.length_toList]
    rfl
  have hseed : (seed.toList ++ root).take hashLen = seed.toList := take_left' Vector.length_toList
  unfold hashMessage select
  rw [hr, hkey, hseed]
  exact (cut_eq _).trans (congrArg cut (mgf1256_eq sha256 _))

end

end CibosPlatform.Shared.Sphincs.Selection

/- digest: The 16-bit ones-complement sum of a byte string and the check it gives. -/

import CibosPlatform.Core.Endian

namespace CibosPlatform.Core.OnesComplement

open BigEndian LittleEndian List Nat

/-- The sum of the big-endian words of the data; an odd last byte is the high half of a word. -/
def wordsSum : List Byte → Nat
  | [] => 0
  | [hi] => ofBE [hi, 0]
  | hi :: lo :: rest => ofBE [hi, lo] + wordsSum rest

def fold16 (sum : Nat) : Nat :=
  if sum >>> 16 ≠ 0 then fold16 ((sum &&& 0xFFFF) + (sum >>> 16)) else sum
  termination_by sum
  decreasing_by
    rename_i carry
    rw [Nat.shiftRight_eq_div_pow] at *
    rw [show 0xFFFF = 2 ^ 16 - 1 from rfl, Nat.and_two_pow_sub_one_eq_mod]
    omega

def onesAdd (a b : Nat) : Nat := (a + b) % 2 ^ 16 + (a + b) / 2 ^ 16

def onesSum (sum : Nat) : List Byte → Nat
  | [] => sum
  | [hi] => onesAdd sum (ofBE [hi, 0])
  | hi :: lo :: rest => onesSum (onesAdd sum (ofBE [hi, lo])) rest

def complement16 (word : Nat) : Nat := 0xFFFF - word

variable {sum : Nat}

theorem fold16_of_lt (small : sum < 2 ^ 16) : fold16 sum = sum := by
  rw [fold16, if_neg]
  rw [shiftRight_eq_div_pow, div_eq_of_lt small]
  exact fun h => h rfl

theorem fold16_spec (sum : Nat) :
    fold16 sum < 2 ^ 16 ∧ fold16 sum % 0xFFFF = sum % 0xFFFF ∧ (fold16 sum = 0 → sum = 0) := by
  induction sum using Nat.strong_induction_on with
  | _ sum ih =>
    by_cases hcarry : sum < 2 ^ 16
    · rw [fold16_of_lt hcarry]
      exact ⟨hcarry, rfl, id⟩
    · have hshift : sum >>> 16 = sum / 2 ^ 16 := shiftRight_eq_div_pow sum 16
      have hlow : sum &&& 0xFFFF = sum % 2 ^ 16 := and_two_pow_sub_one_eq_mod sum 16
      have hstep : fold16 sum = fold16 (sum % 2 ^ 16 + sum / 2 ^ 16) := by
        rw [fold16, hshift, hlow, if_pos (by omega)]
      obtain ⟨hlt, hmod, hzero⟩ := ih (sum % 2 ^ 16 + sum / 2 ^ 16) (by omega)
      rw [hstep]
      refine ⟨hlt, ?_, ?_⟩
      · rw [hmod]
        omega
      · intro h
        have := hzero h
        omega

theorem fold16_add {word : Nat} (fits : word < 2 ^ 16) (sum : Nat) :
    fold16 (sum + word) = onesAdd (fold16 sum) word := by
  unfold onesAdd
  by_cases hsmall : sum + word < 2 ^ 16
  · rw [fold16_of_lt hsmall, fold16_of_lt (by omega)]
    omega
  · obtain ⟨hlt, hmod, hzero⟩ := fold16_spec (sum + word)
    obtain ⟨hlt', hmod', hzero'⟩ := fold16_spec sum
    omega

theorem fold16_add_wordsSum (sum : Nat) (data : List Byte) :
    fold16 (sum + wordsSum data) = onesSum (fold16 sum) data := by
  fun_induction wordsSum data generalizing sum with
  | case1 => rfl
  | case2 hi => exact fold16_add (ofBE_lt [hi, 0]) sum
  | case3 hi lo rest ih =>
    have hword : ofBE [hi, lo] < 256 ^ 2 := ofBE_lt [hi, lo]
    rw [← add_assoc, ih, fold16_add hword, onesSum]

theorem complement16_fold16_eq_zero (positive : 0 < sum) (multiple : sum % 0xFFFF = 0) :
    complement16 (fold16 sum) = 0 := by
  obtain ⟨hlt, hmod, hzero⟩ := fold16_spec sum
  have hne : fold16 sum ≠ 0 := fun h => absurd (hzero h) (by omega)
  rw [complement16]
  omega

theorem fold16_add_complement (sum : Nat) :
    complement16 (fold16 (sum + complement16 (fold16 sum))) = 0 := by
  obtain ⟨hlt, hmod, hzero⟩ := fold16_spec sum
  apply complement16_fold16_eq_zero
  · rw [complement16]
    by_cases h : fold16 sum = 0
    · omega
    · have : 0 < sum := by
        rcases Nat.eq_zero_or_pos sum with rfl | hpos
        · exact absurd (fold16_of_lt (by decide)) h
        · exact hpos
      omega
  · rw [complement16]
    omega

theorem multiple_of_complete (complete : complement16 (fold16 sum) = 0) : sum % 0xFFFF = 0 := by
  obtain ⟨hlt, hmod, -⟩ := fold16_spec sum
  rw [complement16] at complete
  omega

theorem fold16_add_ones (complete : complement16 (fold16 sum) = 0) :
    complement16 (fold16 (sum + 0xFFFF)) = 0 := by
  have hmod := multiple_of_complete complete
  exact complement16_fold16_eq_zero (by omega) (by omega)

section

variable {front : List Byte} (even : front.length % 2 = 0)

include even

theorem wordsSum_append (back : List Byte) :
    wordsSum (front ++ back) = wordsSum front + wordsSum back := by
  fun_induction wordsSum front with
  | case1 => exact (zero_add _).symm
  | case2 hi => cases even
  | case3 hi lo rest ih =>
    rw [cons_append, cons_append, wordsSum, ih, add_assoc]
    rw [length_cons, length_cons] at even
    omega

theorem wordsSum_middle {word : List Byte} (two : word.length = 2) (back : List Byte) :
    wordsSum (front ++ word ++ back) = wordsSum front + ofBE word + wordsSum back := by
  obtain ⟨hi, lo, rfl⟩ := length_eq_two.mp two
  rw [wordsSum_append (by rw [length_append, two]; omega), wordsSum_append even]
  rfl

theorem wordsSum_insert {word : Nat} (fits : word < 2 ^ 16) (back : List Byte) :
    wordsSum (front ++ toBE 2 word ++ back) = wordsSum (front ++ toBE 2 0 ++ back) + word := by
  rw [wordsSum_middle even (toBE_length 2 word), wordsSum_middle even (toBE_length 2 0),
    ofBE_toBE (show word < 256 ^ 2 from fits), ofBE_toBE (by decide)]
  omega

end

theorem wordsSum_splice {data : List Byte} {pos : Nat} (even : pos % 2 = 0) (inside : pos + 2 ≤ data.length)
    {word : Nat} (fits : word < 2 ^ 16) :
    wordsSum (splice data pos (toBE 2 word)) + ofBE (slice data pos 2) = wordsSum data + word := by
  have hfront : (data.take pos).length % 2 = 0 := by
    rw [length_take]
    omega
  have hdata : data = data.take pos ++ slice data pos 2 ++ data.drop (pos + 2) := by
    rw [slice, append_assoc, ← drop_drop, take_append_drop, take_append_drop]
  have hsum : wordsSum data = wordsSum (data.take pos) + ofBE (slice data pos 2) +
      wordsSum (data.drop (pos + 2)) := by
    conv_lhs => rw [hdata]
    exact wordsSum_middle hfront (slice_length inside) _
  rw [splice, toBE_length, wordsSum_middle hfront (toBE_length 2 word),
    ofBE_toBE (show word < 256 ^ 2 from fits), hsum]
  omega

end CibosPlatform.Core.OnesComplement

/- digest: Address spans, the set they cover, and when disjoint spans form one block. -/

import Mathlib.Algebra.GroupWithZero.Nat
import Mathlib.Data.Finset.Card
import Mathlib.Order.Interval.Finset.Nat

namespace CibosPlatform.Core.Span

open List Finset

structure AddrSpan where
  base : Nat
  length : Nat
  deriving DecidableEq

namespace AddrSpan

def stop (s : AddrSpan) : Nat := s.base + s.length

def Covers (s : AddrSpan) (addr : Nat) : Prop := s.base ≤ addr ∧ addr < s.stop

def Apart (s t : AddrSpan) : Prop := s.length = 0 ∨ t.length = 0 ∨ s.stop ≤ t.base ∨ t.stop ≤ s.base

instance (s : AddrSpan) (addr : Nat) : Decidable (s.Covers addr) :=
  inferInstanceAs (Decidable (_ ∧ _))

instance (s t : AddrSpan) : Decidable (s.Apart t) := inferInstanceAs (Decidable (_ ∨ _ ∨ _ ∨ _))

theorem Apart.not_covers {s t : AddrSpan} (apart : s.Apart t) {addr : Nat} (hs : s.Covers addr) :
    ¬ t.Covers addr := by
  simp only [Apart, Covers, stop] at *
  omega

instance : Std.Symm Apart where
  symm s t apart := by
    simp only [Apart] at *
    omega

end AddrSpan

def totalLength (spans : List AddrSpan) : Nat := (spans.map AddrSpan.length).sum

def covered : List AddrSpan → Finset Nat
  | [] => ∅
  | s :: rest => Finset.Ico s.base s.stop ∪ covered rest

variable {spans : List AddrSpan}

@[simp] theorem mem_covered {addr : Nat} : addr ∈ covered spans ↔ ∃ s ∈ spans, s.Covers addr := by
  induction spans with
  | nil => simp [covered]
  | cons s rest ih => simp [covered, ih, AddrSpan.Covers]

theorem card_covered (apart : spans.Pairwise AddrSpan.Apart) :
    (covered spans).card = totalLength spans := by
  induction spans with
  | nil => rfl
  | cons s rest ih =>
    obtain ⟨hhead, htail⟩ := pairwise_cons.mp apart
    have hdisjoint : Disjoint (Finset.Ico s.base s.stop) (covered rest) := by
      rw [Finset.disjoint_left]
      intro addr hs hrest
      obtain ⟨t, ht, hcovers⟩ := mem_covered.mp hrest
      exact (hhead t ht).not_covers (mem_Ico.mp hs) hcovers
    rw [covered, card_union_of_disjoint hdisjoint, ih htail, Nat.card_Ico]
    simp [totalLength, AddrSpan.stop]

theorem totalLength_le (apart : spans.Pairwise AddrSpan.Apart) {bound : Nat}
    (below : ∀ s ∈ spans, s.stop ≤ bound) : totalLength spans ≤ bound := by
  have hsubset : covered spans ⊆ range bound := by
    intro addr haddr
    obtain ⟨s, hs, hcovers⟩ := mem_covered.mp haddr
    exact Finset.mem_range.mpr (hcovers.2.trans_le (below s hs))
  calc totalLength spans = (covered spans).card := (card_covered apart).symm
    _ ≤ (Finset.range bound).card := card_le_card hsubset
    _ = bound := card_range bound

/-- The spans lie inside the block, share no address and leave none of it out. -/
structure Tiles (block : AddrSpan) (spans : List AddrSpan) : Prop where
  apart : spans.Pairwise AddrSpan.Apart
  inside : ∀ s ∈ spans, block.base ≤ s.base ∧ s.stop ≤ block.stop
  whole : ∀ addr, block.Covers addr → ∃ s ∈ spans, s.Covers addr

namespace Tiles

variable {block s t : AddrSpan} {spans spans' rest : List AddrSpan}

theorem perm (tiles : Tiles block spans) (same : spans.Perm spans') : Tiles block spans' where
  apart := (same.pairwise_iff fun apart => symm apart).mp tiles.apart
  inside u hu := tiles.inside u (same.mem_iff.mpr hu)
  whole addr haddr := by
    obtain ⟨u, hu, hcovers⟩ := tiles.whole addr haddr
    exact ⟨u, same.mem_iff.mp hu, hcovers⟩

theorem split (tiles : Tiles block (s :: rest)) {n : Nat} (short : n ≤ s.length) :
    Tiles block (⟨s.base, n⟩ :: ⟨s.base + n, s.length - n⟩ :: rest) := by
  obtain ⟨hhead, htail⟩ := pairwise_cons.mp tiles.apart
  have hinside := tiles.inside s mem_cons_self
  simp only [AddrSpan.stop] at hinside
  refine ⟨?_, ?_, ?_⟩
  · refine pairwise_cons.mpr ⟨?_, pairwise_cons.mpr ⟨?_, htail⟩⟩
    · intro u hu
      rcases mem_cons.mp hu with rfl | hu
      · exact .inr (.inr (.inl le_rfl))
      · have hapart := hhead u hu
        simp only [AddrSpan.Apart, AddrSpan.stop] at hapart ⊢
        omega
    · intro u hu
      have hapart := hhead u hu
      simp only [AddrSpan.Apart, AddrSpan.stop] at hapart ⊢
      omega
  · intro u hu
    simp only [AddrSpan.stop]
    rcases mem_cons.mp hu with rfl | hu
    · dsimp only
      omega
    · rcases mem_cons.mp hu with rfl | hu
      · dsimp only
        omega
      · exact tiles.inside u (mem_cons_of_mem s hu)
  · intro addr haddr
    obtain ⟨u, hu, hcovers⟩ := tiles.whole addr haddr
    rcases mem_cons.mp hu with rfl | hu
    · simp only [AddrSpan.Covers, AddrSpan.stop] at hcovers
      by_cases hlow : addr < u.base + n
      · exact ⟨_, mem_cons_self, hcovers.1, hlow⟩
      · refine ⟨_, mem_cons_of_mem _ mem_cons_self, not_lt.mp hlow, ?_⟩
        simp only [AddrSpan.stop]
        omega
    · exact ⟨u, mem_cons_of_mem _ (mem_cons_of_mem _ hu), hcovers⟩

theorem join (tiles : Tiles block (s :: t :: rest)) (meets : t.base = s.stop) :
    Tiles block (⟨s.base, s.length + t.length⟩ :: rest) := by
  obtain ⟨hfirst, hlater⟩ := pairwise_cons.mp tiles.apart
  obtain ⟨hsecond, htail⟩ := pairwise_cons.mp hlater
  have hs := tiles.inside s mem_cons_self
  have ht := tiles.inside t (mem_cons_of_mem _ mem_cons_self)
  simp only [AddrSpan.stop] at meets hs ht
  refine ⟨pairwise_cons.mpr ⟨?_, htail⟩, ?_, ?_⟩
  · intro u hu
    have hfirst' := hfirst u (mem_cons_of_mem _ hu)
    have hsecond' := hsecond u hu
    simp only [AddrSpan.Apart, AddrSpan.stop] at hfirst' hsecond' ⊢
    omega
  · intro u hu
    rcases mem_cons.mp hu with rfl | hu
    · simp only [AddrSpan.stop]
      omega
    · exact tiles.inside u (mem_cons_of_mem _ (mem_cons_of_mem _ hu))
  · intro addr haddr
    obtain ⟨u, hu, hcovers⟩ := tiles.whole addr haddr
    simp only [AddrSpan.Covers, AddrSpan.stop] at hcovers
    rcases mem_cons.mp hu with rfl | hu
    · refine ⟨_, mem_cons_self, hcovers.1, ?_⟩
      simp only [AddrSpan.stop]
      omega
    · rcases mem_cons.mp hu with rfl | hu
      · refine ⟨_, mem_cons_self, ?_, ?_⟩
        · dsimp only
          omega
        · simp only [AddrSpan.stop]
          omega
      · exact ⟨u, mem_cons_of_mem _ hu, hcovers⟩

end Tiles

/-- Every non-empty span starts at `start` or where another non-empty span stops. -/
def Contiguous (start : Nat) (spans : List AddrSpan) : Prop :=
  ∀ s ∈ spans, 0 < s.length → s.base = start ∨ ∃ t ∈ spans, 0 < t.length ∧ t.stop = s.base

instance (start : Nat) (spans : List AddrSpan) : Decidable (Contiguous start spans) :=
  inferInstanceAs (Decidable (∀ s ∈ spans, 0 < s.length →
    s.base = start ∨ ∃ t ∈ spans, 0 < t.length ∧ t.stop = s.base))

theorem Contiguous.covers_below {start : Nat} (contiguous : Contiguous start spans) {addr : Nat}
    (haddr : addr ∈ covered spans) :
    start ≤ addr ∧ ∀ a, start ≤ a → a ≤ addr → a ∈ covered spans := by
  induction addr using Nat.strong_induction_on with
  | _ addr ih =>
    obtain ⟨s, hs, hlow, hhigh⟩ := mem_covered.mp haddr
    have hwithin : ∀ a, s.base ≤ a → a ≤ addr → a ∈ covered spans :=
      fun a hfrom hto => mem_covered.mpr ⟨s, hs, hfrom, hto.trans_lt hhigh⟩
    have hpos : 0 < s.length := by
      simp only [AddrSpan.stop] at hhigh
      omega
    rcases contiguous s hs hpos with hstart | ⟨t, ht, htpos, hmeets⟩
    · exact ⟨hstart ▸ hlow, fun a hfrom hto => hwithin a (hstart ▸ hfrom) hto⟩
    · have hlast : s.base - 1 ∈ covered spans := by
        refine mem_covered.mpr ⟨t, ht, ?_⟩
        simp only [AddrSpan.Covers, AddrSpan.stop] at hmeets ⊢
        omega
      have hearlier : s.base - 1 < addr := by
        simp only [AddrSpan.stop] at hmeets
        omega
      obtain ⟨hle, hbelow⟩ := ih _ hearlier hlast
      refine ⟨by omega, fun a hfrom hto => ?_⟩
      by_cases ha : s.base ≤ a
      · exact hwithin a ha hto
      · exact hbelow a hfrom (by omega)

/-- A block as long as all spans together lies inside disjoint spans exactly when the spans are
contiguous from its start: there is no room for a hole. -/
theorem block_covered_iff (apart : spans.Pairwise AddrSpan.Apart) (start : Nat) :
    (∀ addr, start ≤ addr → addr < start + totalLength spans → addr ∈ covered spans) ↔
      Contiguous start spans := by
  constructor
  · intro inside
    have hsubset : Finset.Ico start (start + totalLength spans) ⊆ covered spans := by
      intro addr haddr
      exact inside addr (mem_Ico.mp haddr).1 (mem_Ico.mp haddr).2
    have heq : Finset.Ico start (start + totalLength spans) = covered spans := by
      apply eq_of_subset_of_card_le hsubset
      rw [card_covered apart, Nat.card_Ico, Nat.add_sub_cancel_left]
    intro s hs hpos
    have hbase : s.base ∈ covered spans := by
      refine mem_covered.mpr ⟨s, hs, le_rfl, ?_⟩
      simp only [AddrSpan.stop]
      omega
    rw [← heq, mem_Ico] at hbase
    by_cases hstart : s.base = start
    · exact .inl hstart
    · right
      have hprev : s.base - 1 ∈ covered spans := by
        rw [← heq, mem_Ico]
        omega
      obtain ⟨t, ht, hcovers⟩ := mem_covered.mp hprev
      have hne : s ≠ t := by
        rintro rfl
        simp only [AddrSpan.Covers] at hcovers
        omega
      have hst : s.Apart t := apart.forall hs ht hne
      simp only [AddrSpan.Covers, AddrSpan.Apart, AddrSpan.stop] at hcovers hst ⊢
      exact ⟨t, ht, by omega, by omega⟩
  · intro contiguous addr hfrom hto
    by_contra hgap
    have hsubset : covered spans ⊆ Finset.Ico start addr := by
      intro a ha
      obtain ⟨hle, hbelow⟩ := contiguous.covers_below ha
      have hlt : a < addr := by
        by_contra hge
        exact hgap (hbelow addr hfrom (by omega))
      exact mem_Ico.mpr ⟨hle, hlt⟩
    have hcard := card_le_card hsubset
    rw [card_covered apart, Nat.card_Ico] at hcard
    omega

end CibosPlatform.Core.Span

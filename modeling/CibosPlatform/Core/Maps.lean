/- digest: Finite maps kept in the order of their keys. -/

import Mathlib.Algebra.GroupWithZero.Nat
import Mathlib.Data.List.Basic
import Mathlib.Order.Lattice

namespace CibosPlatform.Core.Maps

open List

variable {κ α : Type} [LinearOrder κ]

/-- Entries in the order of their keys, at most one for each key. -/
structure SortedMap (κ α : Type) [LinearOrder κ] where
  entries : List (κ × α)
  sorted : entries.Pairwise fun a b => a.1 < b.1

def putEntry (key : κ) (a : α) : List (κ × α) → List (κ × α)
  | [] => [(key, a)]
  | e :: rest =>
    if key < e.1 then (key, a) :: e :: rest
    else if key = e.1 then (key, a) :: rest
    else e :: putEntry key a rest

variable {key : κ} {a : α} {l : List (κ × α)}

private theorem mem_putEntry {e : κ × α} (h : e ∈ putEntry key a l) : e = (key, a) ∨ e ∈ l := by
  induction l with
  | nil => exact .inl (mem_singleton.mp h)
  | cons first rest ih =>
    rw [putEntry] at h
    split at h
    · exact mem_cons.mp h
    · split at h
      · exact (mem_cons.mp h).imp_right (mem_cons_of_mem first)
      · rcases mem_cons.mp h with h | h
        · exact .inr (h ▸ mem_cons_self)
        · exact (ih h).imp_right (mem_cons_of_mem first)

private theorem putEntry_sorted
    (h : l.Pairwise fun a b => a.1 < b.1) : (putEntry key a l).Pairwise fun a b => a.1 < b.1 := by
  induction l with
  | nil => exact pairwise_singleton _ _
  | cons first rest ih =>
    obtain ⟨hfirst, hrest⟩ := pairwise_cons.mp h
    rw [putEntry]
    split
    · rename_i hlt
      refine pairwise_cons.mpr ⟨fun e he => ?_, h⟩
      rcases mem_cons.mp he with rfl | he
      · exact hlt
      · exact lt_trans hlt (hfirst e he)
    · rename_i hnot
      split
      · rename_i heq
        exact pairwise_cons.mpr ⟨fun e he => heq ▸ hfirst e he, hrest⟩
      · rename_i hne
        refine pairwise_cons.mpr ⟨fun e he => ?_, ih hrest⟩
        rcases mem_putEntry he with rfl | he
        · exact lt_of_le_of_ne (not_lt.mp hnot) (Ne.symm hne)
        · exact hfirst e he

namespace SortedMap

def empty : SortedMap κ α := ⟨[], List.Pairwise.nil⟩

variable (m : SortedMap κ α)

def get? (key : κ) : Option α := (m.entries.find? fun e => e.1 = key).map Prod.snd

def insert (key : κ) (a : α) : SortedMap κ α :=
  ⟨putEntry key a m.entries, putEntry_sorted m.sorted⟩

def erase (key : κ) : SortedMap κ α :=
  ⟨m.entries.filter fun e => e.1 ≠ key, m.sorted.filter _⟩

theorem mem_entries {m : SortedMap κ α} : (key, a) ∈ m.entries ↔ m.get? key = some a := by
  constructor
  · intro h
    -- no entry before this one has its key
    obtain ⟨pre, post, hsplit⟩ := append_of_mem h
    have hsorted := m.sorted
    rw [hsplit, pairwise_append] at hsorted
    have hpre : pre.find? (fun e => decide (e.1 = key)) = none := by
      rw [find?_eq_none]
      intro e he hkey
      have hlt := hsorted.2.2 e he (key, a) mem_cons_self
      rw [of_decide_eq_true hkey] at hlt
      exact lt_irrefl key hlt
    rw [get?, hsplit, find?_append, hpre]
    simp
  · intro h
    obtain ⟨e, he, rfl⟩ := Option.map_eq_some_iff.mp h
    have hkey := find?_some he
    obtain rfl : e.1 = key := by simpa using hkey
    exact mem_of_find?_eq_some he

variable (m : SortedMap κ α)

theorem get?_insert (key key' : κ) (a : α) :
    (m.insert key a).get? key' = if key' = key then some a else m.get? key' := by
  have hput : ∀ l : List (κ × α), ((putEntry key a l).find? fun e => e.1 = key').map Prod.snd =
      if key' = key then some a else (l.find? fun e => e.1 = key').map Prod.snd := by
    intro l
    induction l with
    | nil =>
      rw [putEntry, find?_cons]
      by_cases h : key' = key
      · simp [h]
      · simp [h, Ne.symm h]
    | cons e rest ih =>
      rw [putEntry]
      by_cases hkey : key' = key
      · subst hkey
        split
        · simp
        · split
          · simp
          · rename_i hne
            rw [find?_cons_of_neg (by simpa using Ne.symm hne), ih, if_pos rfl, if_pos rfl]
      · rw [if_neg hkey] at ih ⊢
        split
        · rw [find?_cons_of_neg (by simpa using Ne.symm hkey)]
        · split
          · rename_i heq
            rw [find?_cons_of_neg (by simpa using Ne.symm hkey),
              find?_cons_of_neg (by simpa using heq ▸ Ne.symm hkey)]
          · by_cases hhead : e.1 = key'
            · rw [find?_cons_of_pos (by simpa using hhead), find?_cons_of_pos (by simpa using hhead)]
            · rw [find?_cons_of_neg (by simpa using hhead), find?_cons_of_neg (by simpa using hhead), ih]
  exact hput m.entries

theorem get?_erase (key key' : κ) :
    (m.erase key).get? key' = if key' = key then none else m.get? key' := by
  by_cases h : key' = key
  · rw [if_pos h, Option.eq_none_iff_forall_ne_some]
    intro a ha
    have hmem := mem_entries.mpr ha
    rw [erase, mem_filter] at hmem
    simp [h] at hmem
  · rw [if_neg h]
    ext a
    rw [← mem_entries, ← mem_entries, erase, mem_filter]
    simp [h]

private theorem nodup : m.entries.Nodup := by
  refine m.sorted.imp fun hlt hsame => ?_
  rw [hsame] at hlt
  exact lt_irrefl _ hlt

theorem entries_eq_of_get? {m m' : SortedMap κ α} (h : ∀ key, m.get? key = m'.get? key) :
    m.entries = m'.entries := by
  refine List.Perm.eq_of_pairwise (fun a b _ _ hab hba => ?_) m.sorted m'.sorted ?_
  · exact absurd (lt_trans hab hba) (lt_irrefl _)
  · rw [perm_ext_iff_of_nodup m.nodup m'.nodup]
    rintro ⟨key, a⟩
    rw [mem_entries, mem_entries, h]

variable (key : κ)

theorem insert_perm (a : α) :
    (m.insert key a).entries.Perm ((key, a) :: (m.erase key).entries) := by
  have hgone : (key, a) ∉ (m.erase key).entries := by simp [mem_entries, get?_erase]
  rw [perm_ext_iff_of_nodup (nodup _) (nodup_cons.mpr ⟨hgone, nodup _⟩)]
  rintro ⟨key', a'⟩
  rw [mem_cons, mem_entries, mem_entries, get?_insert, get?_erase]
  by_cases hkey : key' = key
  · simp [hkey, eq_comm]
  · simp [hkey]

theorem perm_erase :
    m.entries.Perm ((m.get? key).toList.map (Prod.mk key) ++ (m.erase key).entries) := by
  rcases hkey : m.get? key with _ | a
  · refine .of_eq (entries_eq_of_get? fun key' => ?_)
    rw [get?_erase]
    split <;> simp_all
  · refine .trans (.of_eq (entries_eq_of_get? fun key' => ?_)) (m.insert_perm key a)
    rw [get?_insert]
    split <;> simp_all

theorem length_insert (a : α) :
    (m.insert key a).entries.length = (m.erase key).entries.length + 1 := (m.insert_perm key a).length_eq

theorem length_erase :
    m.entries.length = (m.erase key).entries.length + if (m.get? key).isSome then 1 else 0 := by
  rw [(m.perm_erase key).length_eq, length_append, add_comm]
  cases m.get? key <;> rfl

variable (m : SortedMap κ Nat)

theorem sum_insert (key : κ) (a : Nat) :
    ((m.insert key a).entries.map Prod.snd).sum + (m.get? key).getD 0 = (m.entries.map Prod.snd).sum + a := by
  rw [((m.insert_perm key a).map Prod.snd).sum_nat, ((m.perm_erase key).map Prod.snd).sum_nat]
  cases m.get? key <;> simp <;> omega

theorem sum_erase (key : κ) :
    ((m.erase key).entries.map Prod.snd).sum + (m.get? key).getD 0 = (m.entries.map Prod.snd).sum := by
  rw [((m.perm_erase key).map Prod.snd).sum_nat]
  cases m.get? key <;> simp [add_comm]

theorem entries_insert_last {m : SortedMap κ α} {key : κ} (h : ∀ e ∈ m.entries, e.1 < key) (a : α) :
    (m.insert key a).entries = m.entries ++ [(key, a)] := by
  have hput : ∀ l : List (κ × α), (∀ e ∈ l, e.1 < key) → putEntry key a l = l ++ [(key, a)] := by
    intro l
    induction l with
    | nil => exact fun _ => rfl
    | cons e rest ih =>
      intro hl
      obtain ⟨hfirst, hrest⟩ := forall_mem_cons.mp hl
      rw [putEntry, if_neg (not_lt_of_gt hfirst), if_neg (ne_of_gt hfirst), ih hrest, cons_append]
  exact hput m.entries h

end SortedMap

end CibosPlatform.Core.Maps

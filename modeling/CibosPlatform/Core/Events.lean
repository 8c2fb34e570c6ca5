/- digest: Runs of a machine as lists of its calls with their answers. -/

import Mathlib.Data.List.Basic
import Mathlib.Data.List.Forall2

namespace CibosPlatform.Core.Events

open List

variable {σ α β : Type}

inductive Run (step : α → σ → Option (β × σ)) (s0 : σ) : List (α × β) → σ → Prop
  | start : Run step s0 [] s0
  | next {events : List (α × β)} {s s' : σ} {a : α} {b : β} (before : Run step s0 events s)
      (taken : step a s = some (b, s')) : Run step s0 (events ++ [(a, b)]) s'

variable {step : α → σ → Option (β × σ)} {s0 s s' : σ} {events later : List (α × β)}

theorem Run.append (h : Run step s0 events s) (h' : Run step s later s') :
    Run step s0 (events ++ later) s' := by
  induction h' with
  | start => rwa [append_nil]
  | next _ taken ih =>
    rw [← append_assoc]
    exact ih.next taken

theorem Run.split (h : Run step s0 (events ++ later) s) :
    ∃ s1, Run step s0 events s1 ∧ Run step s1 later s := by
  generalize hall : events ++ later = all at h
  induction h generalizing later with
  | start =>
    obtain ⟨rfl, rfl⟩ := append_eq_nil_iff.mp hall
    exact ⟨s0, .start, .start⟩
  | @next earlier s s' a b before taken ih =>
    rcases eq_nil_or_concat later with rfl | ⟨rest, last, rfl⟩
    · rw [append_nil] at hall
      subst hall
      exact ⟨s', before.next taken, .start⟩
    · rw [concat_eq_append, ← append_assoc] at hall
      obtain ⟨hearlier, hlast⟩ := append_inj' hall rfl
      obtain rfl : last = (a, b) := by simpa using hlast
      obtain ⟨s1, hfirst, hsecond⟩ := ih hearlier
      refine ⟨s1, hfirst, ?_⟩
      rw [concat_eq_append]
      exact hsecond.next taken

variable {a : α} {b : β}

theorem Run.event (h : Run step s0 (events ++ (a, b) :: later) s) :
    ∃ s1 s2, Run step s0 events s1 ∧ step a s1 = some (b, s2) ∧ Run step s2 later s := by
  rw [append_cons] at h
  obtain ⟨s2, hfirst, hlater⟩ := h.split
  generalize hall : events ++ [(a, b)] = all at hfirst
  cases hfirst with
  | start => simp at hall
  | next before taken =>
    obtain ⟨rfl, hlast⟩ := append_inj' hall rfl
    obtain ⟨rfl, rfl⟩ : a = _ ∧ b = _ := by simpa using hlast
    exact ⟨_, s2, before, taken, hlater⟩

theorem Run.of_nil (h : Run step s0 [] s) : s = s0 := by
  generalize hnil : ([] : List (α × β)) = events at h
  cases h with
  | start => rfl
  | next => simp at hnil

theorem Run.unique {s'' : σ} (h : Run step s0 events s') (h' : Run step s0 events s'') : s' = s'' := by
  induction h generalizing s'' with
  | start => exact h'.of_nil.symm
  | next _ taken ih =>
    obtain ⟨s1, s2, hbefore, hstep, hrest⟩ := Run.event h'
    rw [← ih hbefore, taken, Option.some.injEq, Prod.mk.injEq] at hstep
    rw [hstep.2, hrest.of_nil]

variable {P : σ → Prop}

theorem Run.invariant (h : Run step s0 events s) (start : P s0)
    (keep : ∀ s a b s', P s → step a s = some (b, s') → P s') : P s := by
  induction h with
  | start => exact start
  | next _ taken ih => exact keep _ _ _ _ ih taken

variable {events' : List (α × β)}

theorem Run.lockstep {R : σ → σ → Prop} {like : α → α → Prop} {t0 t : σ}
    (h : Run step s0 events s) (h' : Run step t0 events' t) (start : R s0 t0)
    (agree : ∀ s t a a' b b' s' t', R s t → like a a' → step a s = some (b, s') →
      step a' t = some (b', t') → b = b' ∧ R s' t')
    (calls : List.Forall₂ like (events.map Prod.fst) (events'.map Prod.fst)) :
    events.map Prod.snd = events'.map Prod.snd ∧ R s t := by
  induction h generalizing t events' with
  | start =>
    obtain rfl : events' = [] := map_eq_nil_iff.mp (forall₂_nil_left_iff.mp calls)
    obtain rfl := h'.of_nil
    exact ⟨rfl, start⟩
  | next before taken ih =>
    cases h' with
    | start => simp at calls
    | next before' taken' =>
      -- the last calls are the heads of the lists read backwards
      rw [← forall₂_reverse_iff] at calls
      simp only [map_append, map_cons, map_nil, reverse_append,
        reverse_cons, reverse_nil, nil_append, cons_append,
        forall₂_cons, forall₂_reverse_iff] at calls
      obtain ⟨hlast, hearlier⟩ := calls
      obtain ⟨hanswers, hrelated⟩ := ih before' hearlier
      obtain ⟨rfl, hnext⟩ := agree _ _ _ _ _ _ _ _ hrelated hlast taken taken'
      exact ⟨by rw [map_append, map_append, hanswers]; rfl, hnext⟩

def Always (P : List (α × β) → α → β → Prop) (events : List (α × β)) : Prop :=
  ∀ pre a b post, events = pre ++ (a, b) :: post → P pre a b

theorem snoc_eq_split {ε : Type} {all pre post : List ε} {e x : ε} : all ++ [x] = pre ++ e :: post ↔
    (e = x ∧ pre = all ∧ post = []) ∨ ∃ rest, all = pre ++ e :: rest ∧ post = rest ++ [x] := by
  constructor
  · intro hsplit
    rcases eq_nil_or_concat post with rfl | ⟨rest, last, rfl⟩
    · obtain ⟨rfl, hlast⟩ := append_inj' hsplit rfl
      exact .inl ⟨(singleton_inj.mp hlast).symm, rfl, rfl⟩
    · rw [concat_eq_append, ← cons_append, ← append_assoc] at hsplit
      obtain ⟨hall, hlast⟩ := append_inj' hsplit rfl
      exact .inr ⟨rest, hall, by rw [concat_eq_append, hlast]⟩
  · rintro (⟨rfl, rfl, rfl⟩ | ⟨rest, rfl, rfl⟩)
    · rfl
    · rw [append_assoc, cons_append]

theorem always_nil (P : List (α × β) → α → β → Prop) : Always P [] := by
  intro pre a b post h
  simp at h

theorem always_snoc {P : List (α × β) → α → β → Prop} :
    Always P (events ++ [(a, b)]) ↔ Always P events ∧ P events a b := by
  constructor
  · intro h
    refine ⟨fun pre a' b' post hsplit => h pre a' b' (post ++ [(a, b)]) ?_, h events a b [] rfl⟩
    rw [hsplit, append_assoc, cons_append]
  · rintro ⟨hearlier, hlast⟩ pre a' b' post hsplit
    rcases snoc_eq_split.mp hsplit with ⟨hsame, rfl, -⟩ | ⟨rest, hall, -⟩
    · cases hsame
      exact hlast
    · exact hearlier pre a' b' rest hall

def Since {ε : Type} (closes : ε → Prop) (events pre : List ε) (e : ε) (mid : List ε) : Prop :=
  events = pre ++ e :: mid ∧ ∀ x ∈ mid, ¬ closes x

theorem not_since_nil {ε : Type} {closes : ε → Prop} {pre mid : List ε} {e : ε} :
    ¬ Since closes [] pre e mid := by
  rintro ⟨hsplit, -⟩
  simp at hsplit

theorem since_snoc {ε : Type} {closes : ε → Prop} {all pre mid : List ε} {e x : ε} :
    Since closes (all ++ [x]) pre e mid ↔ (e = x ∧ pre = all ∧ mid = []) ∨
      ∃ mid', Since closes all pre e mid' ∧ mid = mid' ++ [x] ∧ ¬ closes x := by
  constructor
  · rintro ⟨hsplit, hkept⟩
    rcases snoc_eq_split.mp hsplit with hhere | ⟨mid', hall, rfl⟩
    · exact .inl hhere
    · refine .inr ⟨mid', ⟨hall, fun y hy => hkept y (mem_append_left _ hy)⟩, rfl, ?_⟩
      exact hkept x (mem_append_right _ (mem_singleton_self x))
  · rintro (⟨rfl, rfl, rfl⟩ | ⟨mid', ⟨hall, hkept⟩, rfl, hlast⟩)
    · exact ⟨rfl, nofun⟩
    · refine ⟨snoc_eq_split.mpr (.inr ⟨mid', hall, rfl⟩), fun y hy => ?_⟩
      rcases mem_append.mp hy with hy | hy
      · exact hkept y hy
      · rw [mem_singleton.mp hy]
        exact hlast

/-- A property of history and state holds wherever a run comes through. -/
def Through (step : α → σ → Option (β × σ)) (s0 : σ) (P : List (α × β) → σ → Prop)
    (events : List (α × β)) : Prop :=
  ∀ pre post s, events = pre ++ post → Run step s0 pre s → P pre s

def Meets (step : α → σ → Option (β × σ)) (s0 : σ) (C : List (α × β) → σ → α → Prop)
    (events : List (α × β)) : Prop :=
  ∀ pre a b post s, events = pre ++ (a, b) :: post → Run step s0 pre s → C pre s a

variable {C : List (α × β) → σ → α → Prop}

theorem Meets.init (h : Meets step s0 C (events ++ later)) : Meets step s0 C events := by
  intro pre a b post s hsplit
  refine h pre a b (post ++ later) s ?_
  rw [hsplit, append_assoc, cons_append]

theorem meets_nil : Meets step s0 C [] := by
  intro pre a b post s hsplit
  simp at hsplit

theorem Meets.next (h : Meets step s0 C events) (before : Run step s0 events s)
    (now : C events s a) : Meets step s0 C (events ++ [(a, b)]) := by
  intro pre a' b' post s1 hsplit hpre
  rcases snoc_eq_split.mp hsplit with ⟨hsame, rfl, -⟩ | ⟨rest, hall, -⟩
  · cases hsame
    rw [hpre.unique before]
    exact now
  · exact h pre a' b' rest s1 hall hpre

theorem Meets.append (h : Meets step s0 C events) (free : ∀ event ∈ later, ∀ pre s, C pre s event.1) :
    Meets step s0 C (events ++ later) := by
  intro pre a b post s hsplit hpre
  rcases append_eq_append_iff.mp hsplit with ⟨mid, -, hlater⟩ | ⟨mid, hevents, hcons⟩
  · refine free (a, b) ?_ pre s
    rw [hlater]
    exact mem_append_right _ mem_cons_self
  · cases mid with
    | nil =>
      refine free (a, b) ?_ pre s
      rw [← nil_append later, ← hcons]
      exact mem_cons_self
    | cons first mid =>
      obtain ⟨rfl, -⟩ := cons_eq_cons.mp hcons
      exact h pre a b mid s hevents hpre

/-- If a condition on the state before a call says exactly when the call keeps a property, then a run
has the property throughout exactly if all its calls meet the condition. -/
theorem Run.through_iff_meets {P : List (α × β) → σ → Prop} (h : Run step s0 events s) (start : P [] s0)
    (exact : ∀ pre s a b s', Run step s0 pre s → P pre s → step a s = some (b, s') →
      (P (pre ++ [(a, b)]) s' ↔ C pre s a)) :
    Through step s0 P events ↔ Meets step s0 C events := by
  constructor
  · rintro hall pre a b post s' rfl hpre
    obtain ⟨s1, s2, hrun, hstep, -⟩ := h.event
    obtain rfl := hpre.unique hrun
    have hbefore := hall pre ((a, b) :: post) s' rfl hrun
    have hafter := hall (pre ++ [(a, b)]) post s2 (by rw [← append_cons]) (hrun.next hstep)
    exact (exact pre s' a b s2 hrun hbefore hstep).mp hafter
  · rintro hall pre post s' rfl hpre
    have hmeets := hall.init
    clear h hall
    induction hpre with
    | start => exact start
    | @next earlier s s' a b before taken ih =>
      have hbefore := ih hmeets.init
      exact (exact earlier s a b s' before hbefore taken).mpr (hmeets earlier a b [] s rfl before)

/-- `P` at the start of a list of calls and after each of them, and `Q` of each call where it is made. -/
def Keeps (step : α → σ → Option (β × σ)) (P : σ → Prop) (Q : α → σ → Prop) : List α → σ → Prop
  | [], s => P s
  | a :: rest, s => P s ∧ Q a s ∧ ∀ r, step a s = some r → Keeps step P Q rest r.2

theorem keeps_iff {I : σ → Prop} {Q C : α → σ → Prop} (call : ∀ a s, I s → P s →
      (∀ r, step a s = some r → I r.2) ∧ ((Q a s ∧ ∀ r, step a s = some r → P r.2) ↔ C a s)) (calls : List α)
    (h : I s) (start : P s) : Keeps step P Q calls s ↔ Keeps step (fun _ => True) C calls s := by
  induction calls generalizing s with
  | nil => exact iff_of_true start trivial
  | cons a rest ih =>
    obtain ⟨hinv, hexact⟩ := call a s h start
    rw [Keeps, Keeps, and_iff_right start, true_and]
    constructor
    · rintro ⟨hgood, hrest⟩
      have hnext (r : β × σ) (taken : step a s = some r) : P r.2 := by
        have := hrest r taken
        cases rest with
        | nil => exact this
        | cons => exact this.1
      exact ⟨hexact.mp ⟨hgood, hnext⟩, fun r taken => (ih (hinv r taken) (hnext r taken)).mp (hrest r taken)⟩
    · rintro ⟨hcall, hrest⟩
      obtain ⟨hgood, hnext⟩ := hexact.mpr hcall
      exact ⟨hgood, fun r taken => (ih (hinv r taken) (hnext r taken)).mpr (hrest r taken)⟩

def runAll (step : α → σ → Option (β × σ)) : List α → σ → Option (List (α × β) × σ)
  | [], s => some ([], s)
  | a :: rest, s =>
    match step a s with
    | none => none
    | some (b, s') => (runAll step rest s').map fun r => ((a, b) :: r.1, r.2)

theorem run_of_runAll {calls : List α} (h : runAll step calls s = some (events, s')) :
    Run step s events s' := by
  induction calls generalizing s events with
  | nil =>
    cases h
    exact .start
  | cons a rest ih =>
    rw [runAll] at h
    rcases hstep : step a s with _ | ⟨b, s1⟩
    · simp [hstep] at h
    · simp only [hstep] at h
      obtain ⟨⟨tail, last⟩, htail, hall⟩ := Option.map_eq_some_iff.mp h
      cases hall
      exact (Run.next .start hstep).append (ih htail)

theorem Run.eval (h : runAll step (events.map Prod.fst) s = some (events, s')) : Run step s events s' :=
  run_of_runAll h

theorem exists_run_eval (h : ∃ s', runAll step (events.map Prod.fst) s = some (events, s') ∧
    (Run step s events s' → P s')) : ∃ s', Run step s events s' ∧ P s' :=
  h.imp fun _ h => ⟨.eval h.1, h.2 (.eval h.1)⟩

theorem exists_runs_eval {P : σ → σ → Prop} {t0 : σ}
    (h : ∃ s' t, runAll step (events.map Prod.fst) s = some (events, s') ∧
      runAll step (events'.map Prod.fst) t0 = some (events', t) ∧
      (Run step s events s' → Run step t0 events' t → P s' t)) :
    ∃ s' t, Run step s events s' ∧ Run step t0 events' t ∧ P s' t :=
  h.imp fun _ h => h.imp fun _ h => ⟨.eval h.1, .eval h.2.1, h.2.2 (.eval h.1) (.eval h.2.1)⟩

end CibosPlatform.Core.Events

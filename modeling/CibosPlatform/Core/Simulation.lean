/- digest: One program run over two kinds of state, and search loops that stop at the first hit. -/

import CibosPlatform.Core.Program

/-! A panic of the abstract program stands for what the abstraction does not cover: there the concrete program
may do anything. -/

namespace CibosPlatform.Core.Program.Prog

open List

variable {σ τ ε α β : Type}

/-- `p` does to a state what `q` does to any abstraction of it. -/
def Sim (R : σ → τ → Prop) (p : Prog σ ε α) (q : Prog τ ε α) : Prop :=
  ∀ s t, R s t → (q t).1 = .panic ∨ ((p s).1 = (q t).1 ∧ R (p s).2 (q t).2)

namespace Sim

variable {R : σ → τ → Prop}

theorem pure (a : α) : Sim R (pure a : Prog σ ε α) (pure a) := fun _ _ h => .inr ⟨rfl, h⟩

theorem fail (e : ε) : Sim R (fail e : Prog σ ε α) (fail e) := fun _ _ h => .inr ⟨rfl, h⟩

theorem of_trap (p : Prog σ ε α) : Sim R p trap := fun _ _ _ => .inl rfl

theorem orPanic (a : Option α) : Sim R (orPanic a : Prog σ ε α) (orPanic a) := by
  cases a with
  | none => exact .of_trap _
  | some a => exact .pure a

theorem rejectIf (cond : Prop) [Decidable cond] (e : ε) :
    Sim R (rejectIf cond e : Prog σ ε Unit) (rejectIf cond e) := by
  unfold Prog.rejectIf
  split
  · exact .fail e
  · exact .pure ()

theorem gets {f : σ → α} {g : τ → α} (same : ∀ s t, R s t → f s = g t) :
    Sim R (gets f : Prog σ ε α) (gets g) := fun s t h => .inr ⟨congrArg Outcome.ok (same s t h), h⟩

variable {p : Prog σ ε α} {q : Prog τ ε α} {xs : List α}

theorem bind {f : α → Prog σ ε β} {g : α → Prog τ ε β} (first : Sim R p q) (next : ∀ a, Sim R (f a) (g a)) :
    Sim R (p >>= f) (q >>= g) := by
  intro s t h
  rw [bind_run, bind_run]
  obtain hpanic | ⟨hout, hrel⟩ := first s t h
  · rcases hq : q t with ⟨a | e | _, t'⟩ <;> rw [hq] at hpanic <;> cases hpanic
    exact .inl rfl
  · rcases hq : q t with ⟨a | e | _, t'⟩ <;> rcases hp : p s with ⟨a' | e' | _, s'⟩ <;>
      rw [hp, hq] at hout hrel <;> cases hout
    · exact next a s' t' hrel
    · exact .inr ⟨rfl, hrel⟩
    · exact .inl rfl

theorem attempt {ε' : Type} (h : Sim R p q) :
    Sim R (attempt p : Prog σ ε' (Except ε α)) (attempt q) := by
  intro s t hrel
  unfold Prog.attempt
  rcases h s t hrel with hpanic | ⟨hout, hrel'⟩
  · rcases hq : q t with ⟨a | e | _, t'⟩ <;> rw [hq] at hpanic <;> cases hpanic
    exact .inl rfl
  · rcases hq : q t with ⟨a | e | _, t'⟩ <;> rcases hp : p s with ⟨a' | e' | _, s'⟩ <;>
      rw [hp, hq] at hout hrel' <;> cases hout
    · exact .inr ⟨rfl, hrel'⟩
    · exact .inr ⟨rfl, hrel'⟩
    · exact .inl rfl

theorem forEach {f : α → Prog σ ε Unit} {g : α → Prog τ ε Unit} (h : ∀ x, Sim R (f x) (g x)) :
    Sim R (forEach xs f) (forEach xs g) := by
  induction xs with
  | nil => exact .pure ()
  | cons x xs ih => exact (h x).bind fun _ => ih

theorem foldEach {f : β → α → Prog σ ε β} {g : β → α → Prog τ ε β} (h : ∀ b x, Sim R (f b x) (g b x)) :
    ∀ b, Sim R (foldEach xs b f) (foldEach xs b g) := by
  induction xs with
  | nil => exact fun b => .pure b
  | cons x xs ih => exact fun b => (h b x).bind fun b' => ih b'

theorem search {f : α → Prog σ ε (Option β)} {g : α → Prog τ ε (Option β)} (h : ∀ x, Sim R (f x) (g x)) :
    Sim R (search xs f) (search xs g) := by
  induction xs with
  | nil => exact .pure none
  | cons x xs ih =>
    refine (h x).bind fun found => ?_
    cases found with
    | none => exact ih
    | some b => exact .pure (some b)

theorem run (h : Sim R p q) {s : σ} {t t' : τ} (hrel : R s t) {o : Outcome ε α} (hq : q t = (o, t'))
    (covered : o ≠ .panic) :
    ∃ s', p s = (o, s') ∧ R s' t' := by
  obtain hpanic | ⟨hout, hrel'⟩ := h s t hrel
  · rw [hq] at hpanic
    exact absurd hpanic covered
  · rw [hq] at hout hrel'
    exact ⟨(p s).2, Prod.ext hout rfl, hrel'⟩

end Sim

section

variable {body : α → Prog σ ε (Option β)} {s s' : σ}

theorem search_none {xs : List α} (h : ∀ x ∈ xs, body x s = (.ok none, s)) :
    search xs body s = (.ok none, s) := by
  induction xs with
  | nil => rfl
  | cons x xs ih =>
    obtain ⟨hx, hxs⟩ := forall_mem_cons.mp h
    rw [search, bind_ok hx]
    exact ih hxs

theorem search_some {pre post : List α} {x : α} {b : β} (before : ∀ y ∈ pre, body y s = (.ok none, s))
    (hit : body x s = (.ok (some b), s')) : search (pre ++ x :: post) body s = (.ok (some b), s') := by
  induction pre with
  | nil =>
    rw [nil_append, search, bind_ok hit]
    rfl
  | cons y pre ih =>
    obtain ⟨hy, hpre⟩ := forall_mem_cons.mp before
    rw [cons_append, search, bind_ok hy]
    exact ih hpre

end

end CibosPlatform.Core.Program.Prog

/- digest: Stateful programs that return a value, report an error or panic. -/

import Mathlib.Data.List.Basic

/-! A reported error keeps the changes made before it, so the state is returned beside the outcome and not
inside it. -/

namespace CibosPlatform.Core.Program

open List

/-- How a call ends. A panic ends the run; an error is a value the caller goes on with. -/
inductive Outcome (ε α : Type) where
  | ok (a : α)
  | err (e : ε)
  | panic
  deriving DecidableEq

def Outcome.okAnd {ε α : Type} (test : α → Bool) : Outcome ε α → Bool
  | ok a => test a
  | err _ => false
  | panic => false

theorem Outcome.okAnd_iff {ε α : Type} {test : α → Bool} {o : Outcome ε α} :
    o.okAnd test = true ↔ ∃ a, o = .ok a ∧ test a = true := by
  cases o with
  | ok a | err e | panic => simp [okAnd]

namespace Outcome

variable {ε α β : Type}

/-- A call that has no state: `?` passes an error on, a panic ends everything. -/
instance : Monad (Outcome ε) where
  pure a := .ok a
  bind m f :=
    match m with
    | .ok a => f a
    | .err e => .err e
    | .panic => .panic

def rejectIf (cond : Prop) [Decidable cond] (e : ε) : Outcome ε Unit :=
  if cond then .err e else .ok ()

def okOr : Option α → ε → Outcome ε α
  | some a, _ => .ok a
  | none, e => .err e

def ofExcept {ε' : Type} (wrap : ε' → ε) : Except ε' α → Outcome ε α
  | .ok a => .ok a
  | .error e => .err (wrap e)

theorem ofExcept_ne_panic {ε' : Type} (wrap : ε' → ε) (result : Except ε' α) :
    ofExcept wrap result ≠ .panic := by
  cases result with
  | ok a | error e => exact nofun

def orPanic : Option α → Outcome ε α
  | some a => .ok a
  | none => .panic

def forEach : List α → (α → Outcome ε Unit) → Outcome ε Unit
  | [], _ => .ok ()
  | x :: xs, check => do
    check x
    forEach xs check

@[simp] theorem ok_bind (a : α) (f : α → Outcome ε β) : (.ok a >>= f) = f a := rfl

@[simp] theorem pure_eq_ok (a : α) : (pure a : Outcome ε α) = .ok a := rfl

theorem of_bind_ok {m : Outcome ε α} {f : α → Outcome ε β} {b : β} (h : (m >>= f) = .ok b) :
    ∃ a, m = .ok a ∧ f a = .ok b := by
  cases m with
  | ok a => exact ⟨a, rfl, h⟩
  | err e | panic => cases h

variable {cond : Prop}

theorem rejectIf_ok_iff [Decidable cond] {e : ε} : rejectIf cond e = .ok () ↔ ¬ cond := by
  by_cases hcond : cond
  · simp [rejectIf, hcond]
  · simp [rejectIf, hcond]

theorem of_rejectIf_bind_ok [Decidable cond] {e : ε} {f : Unit → Outcome ε β} {b : β}
    (h : (rejectIf cond e >>= f) = .ok b) : ¬ cond ∧ f () = .ok b := by
  obtain ⟨_, hcheck, hrest⟩ := of_bind_ok h
  exact ⟨rejectIf_ok_iff.mp hcheck, hrest⟩

theorem rejectIf_bind [Decidable cond] (h : ¬ cond) (e : ε) (f : Unit → Outcome ε β) :
    (rejectIf cond e >>= f) = f () := by
  rw [rejectIf_ok_iff.mpr h, ok_bind]

theorem forEach_ok_iff {check : α → Outcome ε Unit} {xs : List α} :
    forEach xs check = .ok () ↔ ∀ x ∈ xs, check x = .ok () := by
  induction xs with
  | nil => simp [forEach]
  | cons x xs ih =>
    rw [forEach, forall_mem_cons, ← ih]
    constructor
    · intro h
      obtain ⟨_, hx, hxs⟩ := of_bind_ok h
      exact ⟨hx, hxs⟩
    · rintro ⟨hx, hxs⟩
      rw [hx, ok_bind, hxs]

theorem okOr_eq_ok {o : Option α} {e : ε} {a : α} : okOr o e = .ok a ↔ o = some a := by
  cases o with
  | none | some b => simp [okOr]

end Outcome

/-- A program over the state `σ`; the final state is there whatever the outcome is. -/
def Prog (σ ε α : Type) : Type := σ → Outcome ε α × σ

def upTo (a b : Nat) : List Nat := List.range' a (b - a)

variable {a b : Nat}

theorem mem_upTo {f : Nat} : f ∈ upTo a b ↔ a ≤ f ∧ f < b := by
  simp only [upTo, mem_range'_1]
  omega

theorem upTo_nil (h : b ≤ a) : upTo a b = [] := by simp [upTo, Nat.sub_eq_zero_of_le h]

theorem upTo_cons (h : a < b) : upTo a b = a :: upTo (a + 1) b := by
  unfold upTo
  obtain ⟨n, hn⟩ : ∃ n, b - a = n + 1 := ⟨b - a - 1, by omega⟩
  rw [hn, range'_succ, show b - (a + 1) = n by omega]

theorem upTo_append {c : Nat} (hab : a ≤ b) (hbc : b ≤ c) : upTo a c = upTo a b ++ upTo b c := by
  have h := range'_append_1 (s := a) (m := b - a) (n := c - b)
  rw [show a + (b - a) = b by omega, show b - a + (c - b) = c - a by omega] at h
  exact h.symm

namespace Prog

variable {σ ε α β : Type}

instance : Monad (Prog σ ε) where
  pure a := fun s => (.ok a, s)
  bind m f := fun s =>
    match m s with
    | (.ok a, s') => f a s'
    | (.err e, s') => (.err e, s')
    | (.panic, s') => (.panic, s')

def eval (m : Prog σ ε α) (s : σ) : Outcome ε α := (m s).1

def lift (o : Outcome ε α) : Prog σ ε α := fun s => (o, s)

def fail (e : ε) : Prog σ ε α := fun s => (.err e, s)

def trap : Prog σ ε α := fun s => (.panic, s)

def rejectIf (cond : Prop) [Decidable cond] (e : ε) : Prog σ ε Unit :=
  if cond then fail e else pure ()

/-- An index or slice expression: out of range is a panic. -/
def orPanic : Option α → Prog σ ε α
  | some a => pure a
  | none => trap

def gets (f : σ → α) : Prog σ ε α := fun s => (.ok (f s), s)

def update (f : σ → σ) : Prog σ ε Unit := fun s => (.ok (), f s)

/-- A result that the caller inspects (`is_ok`, `match`) instead of passing on with `?`. -/
def attempt {ε' : Type} (m : Prog σ ε α) : Prog σ ε' (Except ε α) := fun s =>
  match m s with
  | (.ok a, s') => (.ok (.ok a), s')
  | (.err e, s') => (.ok (.error e), s')
  | (.panic, s') => (.panic, s')

def mapErr {ε' : Type} (e : ε') (m : Prog σ ε α) : Prog σ ε' α := fun s =>
  match m s with
  | (.ok a, s') => (.ok a, s')
  | (.err _, s') => (.err e, s')
  | (.panic, s') => (.panic, s')

def forEach : List α → (α → Prog σ ε Unit) → Prog σ ε Unit
  | [], _ => pure ()
  | x :: xs, body => do
    body x
    forEach xs body

def foldEach : List α → β → (β → α → Prog σ ε β) → Prog σ ε β
  | [], b, _ => pure b
  | x :: xs, b, body => do
    let b' ← body b x
    foldEach xs b' body

def search : List α → (α → Prog σ ε (Option β)) → Prog σ ε (Option β)
  | [], _ => pure none
  | x :: xs, body => do
    match ← body x with
    | some b => pure (some b)
    | none => search xs body

@[simp] theorem pure_run (a : α) (s : σ) : (pure a : Prog σ ε α) s = (.ok a, s) := rfl

@[simp] theorem fail_run (e : ε) (s : σ) : (fail e : Prog σ ε α) s = (.err e, s) := rfl

@[simp] theorem orPanic_some (a : α) : (orPanic (some a) : Prog σ ε α) = pure a := rfl

theorem orPanic_some_bind (a : α) (f : α → Prog σ ε β) : (orPanic (some a) >>= f) = f a := rfl

theorem forEach_map {γ : Type} {f : γ → α} {xs : List γ} {body : γ → Prog σ ε Unit}
    {body' : α → Prog σ ε Unit} (same : ∀ x ∈ xs, body x = body' (f x)) :
    forEach xs body = forEach (xs.map f) body' := by
  induction xs with
  | nil => rfl
  | cons x xs ih =>
    obtain ⟨hx, hxs⟩ := forall_mem_cons.mp same
    rw [forEach, map_cons, forEach, hx, ih hxs]

variable {f : α → Prog σ ε β} {cond : Prop} {ε' : Type} {m : Prog σ ε α} {s s' t : σ}

theorem rejectIf_pos [Decidable cond] (h : cond) (e : ε) (s : σ) :
    rejectIf cond e s = (.err e, s) := by
  rw [rejectIf, if_pos h, fail_run]

theorem rejectIf_neg [Decidable cond] (h : ¬ cond) (e : ε) (s : σ) :
    rejectIf cond e s = (.ok (), s) := by
  rw [rejectIf, if_neg h, pure_run]

@[simp] theorem gets_run (f : σ → α) (s : σ) : (gets f : Prog σ ε α) s = (.ok (f s), s) := rfl

@[simp] theorem update_run (f : σ → σ) (s : σ) : (update f : Prog σ ε Unit) s = (.ok (), f s) := rfl

theorem mapErr_ok {e : ε'} {a : α} (h : m s = (.ok a, s')) : mapErr e m s = (.ok a, s') := by
  rw [mapErr, h]

theorem mapErr_state (e : ε') (m : Prog σ ε α) (s : σ) : (mapErr e m s).2 = (m s).2 := by
  rw [mapErr]
  rcases m s with ⟨a | e' | _, t⟩
  · rfl
  · rfl
  · rfl

theorem of_mapErr_ok {e : ε'} {a : α} (h : mapErr e m s = (.ok a, s')) : m s = (.ok a, s') := by
  rw [mapErr] at h
  rcases hm : m s with ⟨b | e' | _, t⟩
  · simpa [hm] using h
  · simp [hm] at h
  · simp [hm] at h

theorem bind_run (m : Prog σ ε α) (f : α → Prog σ ε β) (s : σ) : (m >>= f) s = match m s with
      | (.ok a, s') => f a s'
      | (.err e, s') => (.err e, s')
      | (.panic, s') => (.panic, s') := rfl

theorem bind_ok {a : α} (h : m s = (.ok a, s')) : (m >>= f) s = f a s' := by rw [bind_run, h]

theorem bind_err {e : ε} (h : m s = (.err e, s')) : (m >>= f) s = (.err e, s') := by
  rw [bind_run, h]

theorem bind_panic (h : m s = (.panic, s')) : (m >>= f) s = (.panic, s') := by rw [bind_run, h]

theorem bind_congr_run {m' : Prog σ ε α} (h : m s = m' s) : (m >>= f) s = (m' >>= f) s := by
  rw [bind_run, bind_run, h]

theorem of_bind_ok {b : β} (h : (m >>= f) s = (.ok b, t)) :
    ∃ a s', m s = (.ok a, s') ∧ f a s' = (.ok b, t) := by
  rw [bind_run] at h
  rcases hm : m s with ⟨a | e | _, s'⟩
  · exact ⟨a, s', rfl, by simpa [hm] using h⟩
  · simp [hm] at h
  · simp [hm] at h

theorem of_rejectIf_bind_ok [Decidable cond] {e : ε} {f : Unit → Prog σ ε β} {b : β}
    (h : (rejectIf cond e >>= f) s = (.ok b, t)) : ¬ cond ∧ f () s = (.ok b, t) := by
  by_cases hcond : cond
  · rw [bind_err (rejectIf_pos hcond e s)] at h
    cases h
  · rw [bind_ok (rejectIf_neg hcond e s)] at h
    exact ⟨hcond, h⟩

theorem of_bind_err {e : ε} (h : (m >>= f) s = (.err e, t)) :
    m s = (.err e, t) ∨ ∃ a s', m s = (.ok a, s') ∧ f a s' = (.err e, t) := by
  rw [bind_run] at h
  rcases hm : m s with ⟨a | e' | _, s'⟩
  · exact .inr ⟨a, s', rfl, by simpa [hm] using h⟩
  · refine .inl ?_
    simpa [hm] using h
  · simp [hm] at h

def Keeps (P : σ → Prop) (m : Prog σ ε α) : Prop := ∀ s, P s → P (m s).2

namespace Keeps

variable {P : σ → Prop}

theorem pure (a : α) : Keeps P (pure a : Prog σ ε α) := fun _ h => h

theorem trap : Keeps P (trap : Prog σ ε α) := fun _ h => h

theorem fail (e : ε) : Keeps P (fail e : Prog σ ε α) := fun _ h => h

theorem update {f : σ → σ} (keeps : ∀ s, P s → P (f s)) : Keeps P (update f : Prog σ ε Unit) :=
  keeps

variable {m : Prog σ ε α}

theorem attempt {ε' : Type} (keeps : Keeps P m) : Keeps P (attempt m : Prog σ ε' (Except ε α)) := by
  intro s h
  have hafter := keeps s h
  unfold Prog.attempt
  rcases hm : m s with ⟨a | e | _, s'⟩
  · rwa [hm] at hafter
  · rwa [hm] at hafter
  · rwa [hm] at hafter

theorem orPanic (a : Option α) : Keeps P (orPanic a : Prog σ ε α) := by
  cases a with
  | none => exact trap
  | some a => exact pure a

theorem after (first : P (m s).2) (next : ∀ a, Keeps P (f a)) : P ((m >>= f) s).2 := by
  rw [bind_run]
  rcases hm : m s with ⟨a | e | _, s'⟩
  · rw [hm] at first
    exact next a s' first
  · rwa [hm] at first
  · rwa [hm] at first

theorem bind (first : Keeps P m) (next : ∀ a, Keeps P (f a)) : Keeps P (m >>= f) :=
  fun s h => after (first s h) next

theorem forEach {xs : List α} {body : α → Prog σ ε Unit} (h : ∀ x ∈ xs, Keeps P (body x)) :
    Keeps P (Prog.forEach xs body) := by
  induction xs with
  | nil => exact .pure ()
  | cons x xs ih =>
    exact (h x mem_cons_self).bind fun _ => ih fun y hy => h y (mem_cons_of_mem x hy)

end Keeps

variable {body : α → Prog σ ε Unit}

theorem of_forEach_ok {xs : List α} {x : α} (hx : x ∈ xs)
    (h : forEach xs body s = (.ok (), t)) : ∃ s1 s2, body x s1 = (.ok (), s2) := by
  induction xs generalizing s with
  | nil => cases hx
  | cons y ys ih =>
    obtain ⟨_, s', hround, h⟩ := of_bind_ok h
    rcases mem_cons.mp hx with rfl | hx
    · exact ⟨s, s', hround⟩
    · exact ih hx h

theorem forEach_ne_panic {P : σ → Prop} {xs : List α} (start : P s)
    (step : ∀ x ∈ xs, ∀ s, P s → (body x s).1 ≠ .panic ∧ ∀ s', body x s = (.ok (), s') → P s') :
    (forEach xs body s).1 ≠ .panic := by
  induction xs generalizing s with
  | nil => simp [forEach]
  | cons x xs ih =>
    obtain ⟨hx, hxs⟩ := forall_mem_cons.mp step
    obtain ⟨hround, hnext⟩ := hx s start
    rw [forEach]
    rcases hrun : body x s with ⟨_ | _ | _, s'⟩
    · rw [bind_ok hrun]
      exact ih (hnext s' hrun) hxs
    · rw [bind_err hrun]
      simp
    · exact absurd (congrArg Prod.fst hrun) hround

theorem forEach_snoc (xs : List α) (x : α) (s : σ) :
    forEach (xs ++ [x]) body s = (forEach xs body >>= fun _ => body x) s := by
  induction xs generalizing s with
  | nil =>
    change (body x >>= fun _ => pure ()) s = body x s
    rcases hrun : body x s with ⟨_ | _ | _, s'⟩
    · exact bind_ok hrun
    · exact bind_err hrun
    · exact bind_panic hrun
  | cons y ys ih =>
    rw [cons_append, forEach, bind_run, bind_run, forEach, bind_run]
    rcases body y s with ⟨_ | _ | _, s'⟩
    · exact ih s'
    · rfl
    · rfl

theorem forEach_range_panic_iff {body : Nat → Prog σ ε Unit} {n : Nat} {s : σ} :
    (forEach (range n) body s).1 = .panic ↔
      ∃ i < n, ∃ s1, forEach (range i) body s = (.ok (), s1) ∧ (body i s1).1 = .panic := by
  induction n with
  | zero => simp [forEach]
  | succ n ih =>
    rw [range_succ, forEach_snoc, bind_run]
    rcases hrun : forEach (range n) body s with ⟨_ | _ | _, s'⟩
    · rw [hrun] at ih
      constructor
      · exact fun h => ⟨n, Nat.lt_succ_self n, s', hrun, h⟩
      · rintro ⟨i, hi, s1, hbefore, hpanic⟩
        rcases Nat.lt_succ_iff_lt_or_eq.mp hi with hi | rfl
        · cases ih.mpr ⟨i, hi, s1, hbefore, hpanic⟩
        · cases hrun.symm.trans hbefore
          exact hpanic
    · rw [hrun] at ih
      refine ⟨nofun, ?_⟩
      rintro ⟨i, hi, s1, hbefore, hpanic⟩
      rcases Nat.lt_succ_iff_lt_or_eq.mp hi with hi | rfl
      · cases ih.mpr ⟨i, hi, s1, hbefore, hpanic⟩
      · cases hrun.symm.trans hbefore
    · rw [hrun] at ih
      obtain ⟨i, hi, hrest⟩ := ih.mp rfl
      exact ⟨fun _ => ⟨i, Nat.lt_succ_of_lt hi, hrest⟩, fun _ => rfl⟩

theorem forEach_keeps_ok {P : σ → Prop} {xs : List α}
    (step : ∀ x ∈ xs, ∀ s s', P s → body x s = (.ok (), s') → P s') (start : P s)
    (h : forEach xs body s = (.ok (), t)) : P t := by
  induction xs generalizing s with
  | nil =>
    cases h
    exact start
  | cons x xs ih =>
    obtain ⟨hx, hxs⟩ := forall_mem_cons.mp step
    obtain ⟨_, s', hround, hrest⟩ := of_bind_ok h
    exact ih hxs (hx s s' start hround) hrest

def Total (m : Prog σ ε α) : Prop := ∀ s, (m s).1 ≠ .panic

namespace Total

theorem pure (a : α) : Total (pure a : Prog σ ε α) := nofun

theorem fail (e : ε) : Total (fail e : Prog σ ε α) := nofun

theorem update (f : σ → σ) : Total (update f : Prog σ ε Unit) := nofun

variable {m : Prog σ ε α}

theorem mapErr {ε' : Type} (total : Total m) (e : ε') : Total (mapErr e m) := by
  intro s h
  unfold Prog.mapErr at h
  rcases hm : m s with ⟨a | e' | _, s'⟩
  · simp [hm] at h
  · simp [hm] at h
  · exact total s (by rw [hm])

theorem attempt {ε' : Type} (total : Total m) : Total (attempt m : Prog σ ε' (Except ε α)) := by
  intro s h
  unfold Prog.attempt at h
  rcases hm : m s with ⟨a | e' | _, s'⟩
  · simp [hm] at h
  · simp [hm] at h
  · exact total s (by rw [hm])

theorem bind (first : Total m) (next : ∀ a, Total (f a)) : Total (m >>= f) := by
  intro s h
  rw [bind_run] at h
  rcases hm : m s with ⟨a | e | _, s'⟩
  · exact next a s' (by simpa [hm] using h)
  · simp [hm] at h
  · exact first s (by rw [hm])

end Total

end Prog

end CibosPlatform.Core.Program

/- digest: Programs that ask an environment, and what holds of them for every environment. -/

import CibosPlatform.Core.Program

/-! What holds however the questions are answered is a property of the program alone; it is proved along the
program and used for any environment. An environment that panics ends the program. -/

namespace CibosPlatform.Core.Interaction

open Program List Option

inductive Ask (Q : Type) (A : Q → Type) (ε α : Type) : Type where
  | done (a : α)
  | fail (e : ε)
  | panic
  | ask (q : Q) (next : A q → Ask Q A ε α)

/-- How an environment with the state `σ` answers; `none` is a panic of the environment. -/
abbrev Env (Q : Type) (A : Q → Type) (σ : Type) : Type := (q : Q) → σ → Option (A q × σ)

structure Ended (Q : Type) (A : Q → Type) (ε α σ : Type) where
  outcome : Outcome ε α
  events : List (Sigma A)
  state : σ

namespace Ask

variable {Q : Type} {A : Q → Type} {ε α β σ : Type}

protected def bind : Ask Q A ε α → (α → Ask Q A ε β) → Ask Q A ε β
  | done a, f => f a
  | fail e, _ => fail e
  | panic, _ => panic
  | ask q next, f => ask q fun a => Ask.bind (next a) f

instance : Monad (Ask Q A ε) where
  pure := done
  bind := Ask.bind

theorem bind_assoc {γ : Type} (p : Ask Q A ε α) (f : α → Ask Q A ε β) (g : β → Ask Q A ε γ) :
    p >>= f >>= g = p >>= fun a => f a >>= g := by
  induction p with
  | done a | fail e | panic => rfl
  | ask q next ih => exact congrArg (ask q) (funext ih)

def orFail : Except ε α → Ask Q A ε α
  | .ok a => done a
  | .error e => fail e

def rejectIf (cond : Prop) [Decidable cond] (e : ε) : Ask Q A ε Unit := if cond then fail e else done ()

def run (env : Env Q A σ) : Ask Q A ε α → σ → Option (Ended Q A ε α σ)
  | done a, s => some ⟨.ok a, [], s⟩
  | fail e, s => some ⟨.err e, [], s⟩
  | panic, s => some ⟨.panic, [], s⟩
  | ask q next, s =>
    (env q s).bind fun answer =>
      (run env (next answer.1) answer.2).map fun r => { r with events := ⟨q, answer.1⟩ :: r.events }

variable {env : Env Q A σ} {s : σ} {p : Ask Q A ε α} {r : Ended Q A ε α σ} {P : Q → Prop} {R : α → Prop}

theorem run_rejectIf {cond : Prop} [Decidable cond] {e : ε} {f : Unit → Ask Q A ε α} :
    (rejectIf cond e >>= f).run env s = if cond then some ⟨.err e, [], s⟩ else (f ()).run env s := by
  unfold rejectIf
  split
  · rfl
  · rfl

/-- Every question satisfies `P`, and questions, answers and outcome satisfy `Φ`, whatever the answers. -/
def Upholds (P : Q → Prop) : Ask Q A ε α → (List (Sigma A) → Outcome ε α → Prop) → Prop
  | done a, Φ => Φ [] (.ok a)
  | fail e, Φ => Φ [] (.err e)
  | panic, Φ => Φ [] .panic
  | ask q next, Φ => P q ∧ ∀ a, Upholds P (next a) fun events o => Φ (⟨q, a⟩ :: events) o

theorem run_total (env : (q : Q) → σ → A q × σ) (p : Ask Q A ε α) (s : σ) :
    ∃ r, p.run (fun q s => some (env q s)) s = some r := by
  induction p generalizing s with
  | done a | fail e | panic => exact ⟨_, rfl⟩
  | ask q next ih =>
    obtain ⟨r, hr⟩ := ih (env q s).1 (env q s).2
    exact ⟨_, by rw [run, bind_some, hr, map_some]⟩

theorem run_ask {q : Q} {next : A q → Ask Q A ε α} (ran : (ask q next).run env s = some r) :
    ∃ answer rest, env q s = some answer ∧ (next answer.1).run env answer.2 = some rest ∧
      { rest with events := ⟨q, answer.1⟩ :: rest.events } = r := by
  obtain ⟨answer, hanswer, hrest⟩ := bind_eq_some_iff.mp ran
  obtain ⟨rest, hran, hr⟩ := map_eq_some_iff.mp hrest
  exact ⟨answer, rest, hanswer, hran, hr⟩

section

variable (ran : p.run env s = some r)

include ran

theorem run_answered : ∀ event ∈ r.events, ∃ s1 s2, env event.1 s1 = some (event.2, s2) := by
  induction p generalizing s r with
  | done a | fail e | panic =>
    cases ran
    simp
  | ask q next ih =>
    obtain ⟨answer, rest, hanswer, hran, rfl⟩ := run_ask ran
    exact forall_mem_cons.mpr ⟨⟨s, answer.2, hanswer⟩, ih answer.1 hran⟩

variable {I : σ → Prop}

theorem run_keeps (start : I s)
    (keep : ∀ event ∈ r.events, ∀ s1 s2, I s1 → env event.1 s1 = some (event.2, s2) → I s2) : I r.state := by
  induction p generalizing s r with
  | done a | fail e | panic =>
    cases ran
    exact start
  | ask q next ih =>
    obtain ⟨answer, rest, hanswer, hran, rfl⟩ := run_ask ran
    obtain ⟨hfirst, hlater⟩ := forall_mem_cons.mp keep
    change I rest.state
    exact ih answer.1 hran (hfirst s answer.2 start hanswer) hlater

theorem run_invariant (start : I s)
    (keep : ∀ q s1 a s2, I s1 → env q s1 = some (a, s2) → I s2) : I r.state :=
  run_keeps ran start fun event _ s1 s2 => keep event.1 s1 event.2 s2

theorem run_established {event : Sigma A} (asked : event ∈ r.events)
    (brings : ∀ s1 a s2, env event.1 s1 = some (a, s2) → I s2)
    (keep : ∀ q s1 a s2, I s1 → env q s1 = some (a, s2) → I s2) : I r.state := by
  induction p generalizing s r with
  | done a | fail e | panic =>
    cases ran
    simp at asked
  | ask q next ih =>
    obtain ⟨answer, rest, hanswer, hran, rfl⟩ := run_ask ran
    change I rest.state
    rcases mem_cons.mp asked with rfl | hlater
    · exact run_invariant hran (brings s answer.1 answer.2 hanswer) keep
    · exact ih answer.1 hran hlater

end

theorem Upholds.sound {Φ : List (Sigma A) → Outcome ε α → Prop} (h : Upholds P p Φ) (ran : p.run env s = some r) :
    (∀ event ∈ r.events, P event.1) ∧ Φ r.events r.outcome := by
  induction p generalizing s Φ r with
  | done a | fail e | panic =>
    cases ran
    exact ⟨by simp, h⟩
  | ask q next ih =>
    obtain ⟨answer, rest, -, hran, rfl⟩ := run_ask ran
    obtain ⟨hasked, hend⟩ := ih answer.1 (h.2 answer.1) hran
    exact ⟨forall_mem_cons.mpr ⟨h.1, hasked⟩, hend⟩

theorem Upholds.bind {f : α → Ask Q A ε β} {Φ : List (Sigma A) → Outcome ε β → Prop}
    (h : Upholds P p fun events o => match o with
      | .ok a => Upholds P (f a) fun later o' => Φ (events ++ later) o'
      | .err e => Φ events (.err e)
      | .panic => Φ events .panic) :
    Upholds P (p >>= f) Φ := by
  induction p generalizing Φ with
  | done a | fail e | panic => exact h
  | ask q next ih => exact ⟨h.1, fun a => ih a (h.2 a)⟩

theorem Upholds.imp {Φ Ψ : List (Sigma A) → Outcome ε α → Prop} (h : Upholds P p Φ)
    (weaker : ∀ events o, Φ events o → Ψ events o) : Upholds P p Ψ := by
  induction p generalizing Φ Ψ with
  | done a | fail e | panic => exact weaker _ _ h
  | ask q next ih => exact ⟨h.1, fun a => ih a (h.2 a) fun events o => weaker _ o⟩

theorem Upholds.nothing (p : Ask Q A ε α) : Upholds (fun _ => True) p fun _ _ => True := by
  induction p with
  | done a | fail e | panic => trivial
  | ask q next ih => exact ⟨trivial, ih⟩

def Ensures (p : Ask Q A ε α) (R : α → Prop) : Prop := Upholds (fun _ => True) p fun _ o => ∀ a, o = .ok a → R a

theorem Ensures.done {a : α} (h : R a) : Ensures (done a : Ask Q A ε α) R := by
  intro b hb
  cases hb
  exact h

theorem Ensures.panic : Ensures (panic : Ask Q A ε α) R := by
  intro b hb
  cases hb

theorem Ensures.any (p : Ask Q A ε α) : Ensures p fun _ => True :=
  (Upholds.nothing p).imp fun _ _ _ _ _ => trivial

theorem Ensures.ask {q : Q} {next : A q → Ask Q A ε α} (h : ∀ a, Ensures (next a) R) :
    Ensures (ask q next) R :=
  ⟨trivial, h⟩

variable (h : Ensures p R)

include h

theorem Ensures.imp {T : α → Prop} (weaker : ∀ a, R a → T a) : Ensures p T :=
  Upholds.imp h fun _ _ hend a hok => weaker a (hend a hok)

theorem Ensures.and {T : α → Prop} (h' : Ensures p T) : Ensures p fun a => R a ∧ T a := by
  induction p with
  | done a => exact .done ⟨h a rfl, h' a rfl⟩
  | fail e =>
    intro b hb
    cases hb
  | panic => exact .panic
  | ask q next ih => exact .ask fun a => ih a (h.2 a) (h'.2 a)

theorem Ensures.bind {T : β → Prop} {f : α → Ask Q A ε β} (rest : ∀ a, R a → Ensures (f a) T) :
    Ensures (p >>= f) T := by
  refine Upholds.bind (.imp h fun events o hend => ?_)
  cases o with
  | ok a => exact rest a (hend a rfl)
  | err e | panic =>
    intro b hb
    cases hb

theorem Ensures.sound {a : α} (ran : p.run env s = some r) (ended : r.outcome = .ok a) : R a :=
  (Upholds.sound h ran).2 a ended

end Ask

end CibosPlatform.Core.Interaction

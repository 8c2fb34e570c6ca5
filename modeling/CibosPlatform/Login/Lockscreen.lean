/- source: applications/lockscreen/src/lib.rs
   digest: The PIN lock, and when it resolves once. -/

import CibosPlatform.Login.Accounts
import Mathlib.Data.List.Induction

namespace CibosPlatform.Login.Lockscreen

open Core.LittleEndian Accounts Shared.Credential Shared Hash Ipc Signature List

inductive PadKey where
  | digit (d : Fin 10)
  | clear
  | enter

inductive LockState where
  | locked
  | wrong
  | unlocked
  | lockedOut
  deriving DecidableEq

def digitByte (d : Fin 10) : Byte := BitVec.ofNat 8 (48 + d.val)

structure PinLock where
  accounts : Registry
  boundary : BoundaryId
  entered : List Byte
  state : LockState
  attemptsLeft : Nat
  checks : Nat

namespace PinLock

def new (accounts : Registry) (boundary : BoundaryId) (maxAttempts : Nat) : PinLock :=
  ⟨accounts, boundary, [], .locked, maxAttempts, 0⟩

abbrev Resolved (lock : PinLock) : Prop := lock.state = .unlocked ∨ lock.state = .lockedOut

section

def opens (sha256 : Sha256) (keyDeviceVerifier : Option Verifier) (accounts : Registry) (boundary : BoundaryId)
    (pin : List Byte) : Bool :=
  (openSession sha256 keyDeviceVerifier accounts boundary (.password pin)).isSome

variable (check : Registry → BoundaryId → List Byte → Bool)

/-- The bool is whether the screen has resolved. -/
def press (lock : PinLock) : PadKey → Bool × PinLock
  | .digit d =>
    if lock.state ≠ .unlocked ∧ lock.state ≠ .lockedOut then
      (false, { lock with
        entered := lock.entered ++ [digitByte d]
        state := if lock.state = .wrong then .locked else lock.state })
    else (false, lock)
  | .clear => (false, { lock with entered := [] })
  | .enter =>
    if check lock.accounts lock.boundary lock.entered then
      (true, { lock with entered := [], state := .unlocked, checks := lock.checks + 1 })
    else
      let left := lock.attemptsLeft - 1
      let state := if left = 0 then .lockedOut else .wrong
      (state = .lockedOut,
        { lock with entered := [], attemptsLeft := left, state := state, checks := lock.checks + 1 })

def pressAll (lock : PinLock) (keys : List PadKey) : PinLock :=
  keys.foldl (fun lock key => (lock.press check key).2) lock

end

end PinLock

open PinLock

def digitsSince (keys : List PadKey) : List Byte :=
  keys.foldl (fun digits key =>
    match key with
    | .digit d => digits ++ [digitByte d]
    | .clear => []
    | .enter => []) []

theorem digitsSince_append (keys : List PadKey) (key : PadKey) : digitsSince (keys ++ [key]) =
      match key with
      | .digit d => digitsSince keys ++ [digitByte d]
      | .clear => []
      | .enter => [] := by
  rw [digitsSince, foldl_append]
  rfl

section

variable (check : Registry → BoundaryId → List Byte → Bool) (maxAttempts : Nat)

/-- A key pressed at a resolved lock changes and checks nothing, there are no more checks than
attempts, and only an Enter opens the lock, with digits that verify. -/
structure GoodPress (pre : List PadKey) (key : PadKey) (lock lock' : PinLock) : Prop where
  absorbed : lock.Resolved → lock'.state = lock.state ∧ lock'.checks = lock.checks
  bounded : ¬ lock.Resolved → lock'.checks ≤ maxAttempts
  verified : lock.state ≠ .unlocked → lock'.state = .unlocked →
    key = .enter ∧ 0 < lock.attemptsLeft ∧ check lock.accounts lock.boundary (digitsSince pre) = true

def ResolvesOnce (lock : PinLock) (keys : List PadKey) : Prop :=
  ∀ pre key post, keys = pre ++ key :: post →
    GoodPress check lock.attemptsLeft pre key (lock.pressAll check pre)
      (lock.pressAll check (pre ++ [key]))

structure Underway (pre : List PadKey) (lock : PinLock) : Prop where
  entered : lock.entered = digitsSince pre
  spent : lock.checks + lock.attemptsLeft = maxAttempts
  left : 0 < maxAttempts → 0 < lock.attemptsLeft

variable {check maxAttempts} {lock : PinLock} {pre keys : List PadKey}

theorem pressAll_append (lock : PinLock) (pre : List PadKey) (key : PadKey) :
    lock.pressAll check (pre ++ [key]) = ((lock.pressAll check pre).press check key).2 := by
  rw [pressAll, foldl_append]
  rfl

theorem press_enter_checks (lock : PinLock) :
    (lock.press check .enter).2.checks = lock.checks + 1 := by
  rw [press]
  split
  · rfl
  · rfl

theorem GoodPress.timely (good : GoodPress check maxAttempts pre .enter lock (lock.press check .enter).2) :
    ¬ lock.Resolved ∧ 0 < maxAttempts := by
  have hunresolved : ¬ lock.Resolved := by
    intro hresolved
    have hchecks := (good.absorbed hresolved).2
    rw [press_enter_checks] at hchecks
    omega
  have hchecks := good.bounded hunresolved
  rw [press_enter_checks] at hchecks
  exact ⟨hunresolved, by omega⟩

theorem press_spec (underway : ¬ lock.Resolved → Underway maxAttempts pre lock) (key : PadKey)
    (timely : key = .enter → ¬ lock.Resolved ∧ 0 < maxAttempts) :
    GoodPress check maxAttempts pre key lock (lock.press check key).2 ∧
      (¬ (lock.press check key).2.Resolved →
        Underway maxAttempts (pre ++ [key]) (lock.press check key).2) := by
  have hspent : ¬ lock.Resolved → lock.checks ≤ maxAttempts := by
    intro hopen
    have hsum := (underway hopen).spent
    omega
  cases key with
  | digit d =>
    rw [press]
    by_cases hopen : lock.state ≠ .unlocked ∧ lock.state ≠ .lockedOut
    · rw [if_pos hopen]
      have hunresolved : ¬ lock.Resolved := not_or.mpr hopen
      obtain ⟨hentered, hsum, hleft⟩ := underway hunresolved
      refine ⟨⟨fun h => absurd h hunresolved, hspent, fun _ h => ?_⟩, fun _ => ⟨?_, hsum, hleft⟩⟩
      · split at h
        · cases h
        · exact absurd h hopen.1
      · rw [digitsSince_append, ← hentered]
    · rw [if_neg hopen]
      have hresolved : lock.Resolved := by
        by_contra hnot
        exact hopen (not_or.mp hnot)
      exact ⟨⟨fun _ => ⟨rfl, rfl⟩, hspent, fun hnot h => absurd h hnot⟩, fun hnot => absurd hresolved hnot⟩
  | clear =>
    refine ⟨⟨fun _ => ⟨rfl, rfl⟩, hspent, fun hnot h => absurd h hnot⟩, fun hopen => ?_⟩
    obtain ⟨-, hsum, hleft⟩ := underway hopen
    exact ⟨(digitsSince_append pre .clear).symm, hsum, hleft⟩
  | enter =>
    obtain ⟨hunresolved, hpositive⟩ := timely rfl
    obtain ⟨hentered, hsum, hleft⟩ := underway hunresolved
    have hleft := hleft hpositive
    refine ⟨⟨fun h => absurd h hunresolved, fun _ => ?_, fun _ hopened => ⟨rfl, hleft, ?_⟩⟩, fun hopen => ?_⟩
    · rw [press_enter_checks]
      omega
    · rw [← hentered]
      by_contra hnot
      rw [press, if_neg hnot] at hopened
      dsimp only at hopened
      split at hopened
      · cases hopened
      · cases hopened
    · rw [press] at hopen ⊢
      split at hopen
      · exact absurd (.inl rfl) hopen
      · rename_i hnot
        rw [if_neg hnot]
        have hmore : lock.attemptsLeft - 1 ≠ 0 := by
          intro hzero
          exact hopen (.inr (if_pos hzero))
        refine ⟨(digitsSince_append pre .enter).symm, ?_, fun _ => Nat.pos_of_ne_zero hmore⟩
        dsimp only
        omega

end

section

variable (check : Registry → BoundaryId → List Byte → Bool) (accounts : Registry) (boundary : BoundaryId)
  (maxAttempts : Nat) (keys : List PadKey)

/-- Enter is pressed only before the lock has resolved, and never where no attempt is allowed. -/
def Timely : Prop :=
  ∀ pre post, keys = pre ++ .enter :: post →
    ¬ ((PinLock.new accounts boundary maxAttempts).pressAll check pre).Resolved ∧ 0 < maxAttempts

variable {check accounts boundary maxAttempts keys}

theorem underway_of_timely (timely : Timely check accounts boundary maxAttempts keys)
    {pre post : List PadKey} (hkeys : keys = pre ++ post) :
    ¬ ((PinLock.new accounts boundary maxAttempts).pressAll check pre).Resolved →
      Underway maxAttempts pre ((PinLock.new accounts boundary maxAttempts).pressAll check pre) := by
  induction pre using reverseRecOn generalizing post with
  | nil => exact fun _ => ⟨rfl, zero_add _, id⟩
  | append_singleton pre key ih =>
    rw [append_assoc] at hkeys
    rw [pressAll_append]
    refine (press_spec (ih hkeys) key ?_).2
    rintro rfl
    exact timely pre post hkeys

/-- An Enter pressed after the lock has resolved is checked like any other, and may unlock or lock it again. -/
theorem lock_resolves_once_iff {sha256 : Sha256} {keyDeviceVerifier : Option Verifier} :
    ResolvesOnce (opens sha256 keyDeviceVerifier) (.new accounts boundary maxAttempts) keys ↔
      Timely (opens sha256 keyDeviceVerifier) accounts boundary maxAttempts keys := by
  constructor
  · intro hgood pre post hkeys
    have hpress := hgood pre .enter post hkeys
    rw [pressAll_append] at hpress
    exact hpress.timely
  · intro htimely pre key post hkeys
    rw [pressAll_append]
    refine (press_spec (underway_of_timely htimely hkeys) key ?_).1
    rintro rfl
    exact htimely pre post hkeys

end

def sevenLock : PinLock :=
  .new (enrollPassword (fun bytes => digestOf (bytes.drop saltLen)) .empty "op" 1 (Vector.replicate 32 0) [55]) 1 3

/-- The lock is opened, and the next Enter makes it a wrong one. -/
theorem unlocked_then_wrong : let check := opens (fun bytes => digestOf (bytes.drop saltLen)) none
    (sevenLock.pressAll check [.digit 7, .enter]).state = .unlocked ∧
      (sevenLock.pressAll check [.digit 7, .enter, .enter]).state = .wrong := by
  decide +kernel

end CibosPlatform.Login.Lockscreen

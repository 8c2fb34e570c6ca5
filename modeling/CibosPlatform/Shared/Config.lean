/- source: shared/src/types/config.rs, shared/src/types/isolation.rs
   digest: Firmware and kernel profiles, which firmware launches which kernel, and the weights a kernel gives its lanes. -/

import CibosPlatform.Shared.Serialization

namespace CibosPlatform.Shared.Config

open Serialization

inductive HandoffMode where
  | cryptographic
  | lightweight
  deriving DecidableEq

inductive CibiosProfile where
  | standard
  | lightweight
  deriving DecidableEq

inductive CibosProfile where
  | maximumIsolation
  | balanced
  | performance
  | compute
  deriving DecidableEq

instance : WireEnum HandoffMode where
  field := "HandoffMode"
  asU32
    | .cryptographic => 1
    | .lightweight => 2
  values := [.cryptographic, .lightweight]
  complete a := by cases a <;> decide
  injective a b h := by cases a <;> cases b <;> first | rfl | cases h

instance : WireEnum CibiosProfile where
  field := "CibiosProfile"
  asU32
    | .standard => 1
    | .lightweight => 2
  values := [.standard, .lightweight]
  complete a := by cases a <;> decide
  injective a b h := by cases a <;> cases b <;> first | rfl | cases h

instance : WireEnum CibosProfile where
  field := "CibosProfile"
  asU32
    | .maximumIsolation => 1
    | .balanced => 2
    | .performance => 3
    | .compute => 4
  values := [.maximumIsolation, .balanced, .performance, .compute]
  complete a := by cases a <;> decide
  injective a b h := by cases a <;> cases b <;> first | rfl | cases h

def CibiosProfile.handoffMode : CibiosProfile → HandoffMode
  | .standard => .cryptographic
  | .lightweight => .lightweight

def CibiosProfile.accepts : CibiosProfile → CibosProfile → Bool
  | .standard, .maximumIsolation => true
  | .standard, .balanced => true
  | .standard, .performance => true
  | .standard, .compute => false
  | .lightweight, .compute => true
  | .lightweight, .performance => true
  | .lightweight, _ => false

inductive WeightClass where
  | system
  | user
  | background

structure SchedulingConfig where
  systemWeight : Nat
  userWeight : Nat
  backgroundWeight : Nat

def SchedulingConfig.defaultsFor : CibosProfile → SchedulingConfig
  | .maximumIsolation => ⟨1, 1, 1⟩
  | .balanced => ⟨3, 1, 1⟩
  | .performance => ⟨5, 2, 1⟩
  | .compute => ⟨1, 1, 1⟩

def SchedulingConfig.weightOf (config : SchedulingConfig) : WeightClass → Nat
  | .system => config.systemWeight
  | .user => config.userWeight
  | .background => config.backgroundWeight

end CibosPlatform.Shared.Config

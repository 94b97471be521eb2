import EmbeddedDaq.InjectionRate
import Mathlib.Order.Bounds.Defs

set_option autoImplicit false

namespace EmbeddedDaq.LfsrCycle
open FirmwareWords FaultLfsr LfsrPeriod InjectionRate

/-- From `l` the calls of `next` pass all nonzero states once and are then back. -/
structure FullCycle (l : Lfsr) : Prop where
  nonzero : ∀ n, (drawn n l).state ≠ 0
  visits : ∀ x : U16, x ≠ 0 → ∃! n, n < 65535 ∧ (drawn n l).state = x
  returns : IsLeast {n | 0 < n ∧ drawn n l = l} 65535

theorem next_injective : Function.Injective fun l : Lfsr => l.next.2 := by
  rintro ⟨x⟩ ⟨y⟩ hsame
  have hstates : step x = step y := congrArg Lfsr.state hsame
  rw [step_injective hstates]

theorem drawn_eq_iff {n : ℕ} {l : Lfsr} : drawn n l = l ↔ step^[n] l.state = l.state := by
  rw [← drawn_state]
  constructor
  · exact congrArg Lfsr.state
  · intro h
    cases hdrawn : drawn n l with
    | mk state =>
      rw [hdrawn] at h
      exact congrArg Lfsr.mk h

theorem first_return {l : Lfsr} (h : l.state ≠ 0) :
    IsLeast {n | 0 < n ∧ drawn n l = l} 65535 := by
  constructor
  · exact ⟨by decide, drawn_eq_iff.mpr (step_period l.state)⟩
  · rintro n ⟨hpos, hreturn⟩
    have hperiodic : Function.IsPeriodicPt step n l.state := drawn_eq_iff.mp hreturn
    rw [← step_minimalPeriod h]
    exact hperiodic.minimalPeriod_le hpos

/-- The generator has full period from every seed, the replaced zero included. -/
theorem full_period : (Function.Injective fun l : Lfsr => l.next.2) ∧
    ∀ seed : U16, FullCycle (Lfsr.new seed) := by
  refine ⟨next_injective, ?_⟩
  intro seed
  refine ⟨fun n => drawn_new_ne_zero n seed, ?_, first_return (new_ne_zero seed)⟩
  intro x hx
  have hvisited := state_visited (new_ne_zero seed) hx
  simpa only [drawn_state] using hvisited

end EmbeddedDaq.LfsrCycle

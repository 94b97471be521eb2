import EmbeddedDaq.GeneralPacedFrames
import Mathlib.Data.Nat.Find
import Mathlib.Tactic.Common

set_option autoImplicit false

namespace EmbeddedDaq.GeneralPolling
open GeneralWaveform GeneralPacedFrames Driver

section
variable {L : Type*} (wave : ℕ → L) (rest : L) (latency : ℕ)

/-- The loop has begun at `start` and looks next at this instant. -/
inductive Polled (start : ℕ) : ℕ → Prop
  | first : Polled start start
  | again {now elapsed : ℕ} (polled : Polled start now) (resting : wave now = rest)
      (prompt : elapsed ≤ latency) : Polled start (now + elapsed)

/-- A signal that leaves rest does not return within `latency`. -/
def Lasting : Prop :=
  ∀ t, wave t = rest → wave (t + 1) ≠ rest → ∀ u ≤ latency, wave (t + 1 + u) ≠ rest

variable {wave rest latency}

theorem exists_leaves {s t : ℕ} (hs : wave s = rest) (hst : s ≤ t) (ht : wave t ≠ rest) :
    ∃ u, s ≤ u ∧ u < t ∧ (∀ v, s ≤ v → v ≤ u → wave v = rest) ∧ wave (u + 1) ≠ rest := by
  classical
  have hexists : ∃ v, s ≤ v ∧ wave v ≠ rest := ⟨t, hst, ht⟩
  obtain ⟨hlower, hleft⟩ := Nat.find_spec hexists
  have hpos : Nat.find hexists ≠ s := by
    intro heq
    rw [heq] at hleft
    exact hleft hs
  have hle : Nat.find hexists ≤ t := Nat.find_min' hexists ⟨hst, ht⟩
  obtain ⟨u, hu⟩ := Nat.exists_eq_add_one_of_ne_zero (by omega : Nat.find hexists ≠ 0)
  refine ⟨u, by omega, by omega, ?_, ?_⟩
  · intro v hsv hvu
    by_contra hv
    exact Nat.find_min hexists (by omega) ⟨hsv, hv⟩
  · rwa [hu] at hleft

theorem Polled.start_le {start now : ℕ} (h : Polled wave rest latency start now) :
    start ≤ now := by
  induction h with
  | first => exact Nat.le_refl start
  | again _ _ _ ih => exact Nat.le_trans ih (Nat.le_add_right _ _)

theorem Polled.rested {start now : ℕ} (hlasting : Lasting wave rest latency)
    (h : Polled wave rest latency start now) (hnow : wave now = rest) :
    ∀ t, start ≤ t → t ≤ now → wave t = rest := by
  induction h with
  | first =>
    intro t hlower hupper
    obtain rfl := Nat.le_antisymm hlower hupper
    exact hnow
  | @again now elapsed polled resting prompt ih =>
    intro t hlower hupper
    rcases Nat.le_total t now with hle | hle
    · exact ih resting t hlower hle
    · by_contra hleft
      obtain ⟨u, hu, hut, hbefore, hafter⟩ := exists_leaves resting hle hleft
      have hstays := hlasting u (hbefore u hu (Nat.le_refl u)) hafter (now + elapsed - (u + 1))
        (by omega)
      rw [show u + 1 + (now + elapsed - (u + 1)) = now + elapsed by omega] at hstays
      exact hstays hnow

theorem Polled.noticed {start now : ℕ} (hlasting : Lasting wave rest latency)
    (h : Polled wave rest latency start now) (hnow : wave now ≠ rest) :
    ∃ edge, start ≤ edge ∧ edge ≤ now ∧ now ≤ edge + latency ∧ wave edge ≠ rest ∧
      ∀ t, start ≤ t → t < edge → wave t = rest := by
  cases h with
  | first => exact ⟨start, Nat.le_refl _, Nat.le_refl _, Nat.le_add_right _ _, hnow,
      fun t hlower hupper => absurd hupper (Nat.not_lt.mpr hlower)⟩
  | @again now elapsed polled resting prompt =>
    have hbefore := polled.rested hlasting resting
    obtain ⟨u, hu, hut, hrest, hafter⟩ := exists_leaves resting (Nat.le_add_right now elapsed) hnow
    refine ⟨u + 1, Nat.le_trans polled.start_le (by omega), hut, by omega, hafter, ?_⟩
    intro t hlower hupper
    rcases Nat.le_total t now with hle | hle
    · exact hbefore t hlower hle
    · exact hrest t hle (by omega)

end

end EmbeddedDaq.GeneralPolling

import Mathlib.Dynamics.PeriodicPts.Defs
import Mathlib.Data.Nat.Prime.Basic
import Mathlib.Data.Finset.Card
import Mathlib.Tactic.Common

set_option autoImplicit false

namespace EmbeddedDaq.GeneralOrbit

open Function

variable {α : Type*} {f : α → α} {x : α}

/-- A period none of whose prime quotients is a period is minimal. -/
theorem minimalPeriod_eq {N : ℕ} (hN : IsPeriodicPt f N x)
    (hprime : ∀ q, q.Prime → q ∣ N → ¬IsPeriodicPt f (N / q) x) : minimalPeriod f x = N := by
  have hdvd := hN.minimalPeriod_dvd
  obtain ⟨d, hd⟩ := hdvd
  by_contra hne
  have hd1 : d ≠ 1 := by
    rintro rfl
    exact hne (hd.trans (Nat.mul_one _)).symm
  obtain ⟨q, hq, e, rfl⟩ := Nat.exists_prime_and_dvd hd1
  have hquot : N / q = minimalPeriod f x * e := by
    rw [hd, Nat.mul_left_comm]
    exact Nat.mul_div_cancel_left _ hq.pos
  refine hprime q hq ⟨minimalPeriod f x * e, by rw [hd, Nat.mul_left_comm]⟩ ?_
  rw [hquot]
  exact (isPeriodicPt_minimalPeriod f x).mul_const e

section Exhaust

variable [DecidableEq α] {S : Finset α}

theorem image_iterate (hclosed : ∀ y ∈ S, f y ∈ S) (hx : x ∈ S)
    (hcard : S.card = minimalPeriod f x) :
    (Finset.range (minimalPeriod f x)).image (f^[·] x) = S := by
  have hmem : ∀ k, f^[k] x ∈ S := by
    intro k
    induction k with
    | zero => exact hx
    | succ k ih =>
      rw [iterate_succ_apply']
      exact hclosed _ ih
  refine Finset.eq_of_subset_of_card_le ?_ ?_
  · intro y hy
    obtain ⟨k, -, rfl⟩ := Finset.mem_image.mp hy
    exact hmem k
  · rw [Finset.card_image_of_injOn, Finset.card_range, hcard]
    rw [Finset.coe_range]
    exact iterate_injOn_Iio_minimalPeriod

theorem existsUnique_iterate (hclosed : ∀ y ∈ S, f y ∈ S) (hx : x ∈ S)
    (hcard : S.card = minimalPeriod f x) {y : α} (hy : y ∈ S) :
    ∃! k, k < minimalPeriod f x ∧ f^[k] x = y := by
  rw [← image_iterate hclosed hx hcard] at hy
  obtain ⟨k, hk, hvisit⟩ := Finset.mem_image.mp hy
  have hlt := Finset.mem_range.mp hk
  refine ⟨k, ⟨hlt, hvisit⟩, ?_⟩
  rintro m ⟨hm, hagain⟩
  exact iterate_injOn_Iio_minimalPeriod hm hlt (hagain.trans hvisit.symm)

theorem countP_iterate (hclosed : ∀ y ∈ S, f y ∈ S) (hx : x ∈ S)
    (hcard : S.card = minimalPeriod f x) (P : α → Prop) [DecidablePred P] :
    (List.range (minimalPeriod f x)).countP (fun k => P (f^[k] x)) = (S.filter P).card := by
  have hinj : Set.InjOn (f^[·] x) (Finset.range (minimalPeriod f x)) := by
    rw [Finset.coe_range]
    exact iterate_injOn_Iio_minimalPeriod
  have hlist : (List.range (minimalPeriod f x)).countP (fun k => P (f^[k] x)) =
      ((Finset.range (minimalPeriod f x)).filter fun k => P (f^[k] x)).card := by
    rw [List.countP_eq_length_filter]
    rfl
  rw [hlist, ← image_iterate hclosed hx hcard, Finset.filter_image, Finset.card_image_of_injOn]
  exact hinj.mono (Finset.coe_subset.mpr (Finset.filter_subset _ _))

end Exhaust

end EmbeddedDaq.GeneralOrbit

import EmbeddedDaq.FaultLfsr
import EmbeddedDaq.GeneralXorLinear
import EmbeddedDaq.GeneralOrbit
import Mathlib.Tactic.NormNum.Prime

set_option autoImplicit false

namespace EmbeddedDaq.LfsrPeriod
open FirmwareWords FaultLfsr GeneralXorLinear GeneralOrbit

def step (state : U16) : U16 := (Lfsr.next ⟨state⟩).1

theorem step_bit (state : U16) {i : ℕ} (hi : i < 16) :
    (step state).getLsbD i = if i = 15 then
        (state.getLsbD 0 ^^ state.getLsbD 2 ^^ state.getLsbD 3 ^^ state.getLsbD 5)
      else state.getLsbD (i + 1) := by
  rw [step, Lfsr.next, BitVec.getLsbD_or, BitVec.getLsbD_ushiftRight, BitVec.getLsbD_shiftLeft]
  rcases Nat.lt_succ_iff_lt_or_eq.mp hi with hlt | rfl
  · have hne : i ≠ 15 := Nat.ne_of_lt hlt
    simp only [hlt, hne, ↓reduceIte, decide_true, Bool.not_true, Bool.and_false, Bool.false_and,
      Bool.or_false, Nat.add_comm 1 i]
  · have hout : state.getLsbD (1 + 15) = false := BitVec.getLsbD_of_ge state 16 (Nat.le_refl 16)
    rw [hout]
    simp

theorem step_xorLinear : XorLinear step := by
  intro x y
  apply BitVec.eq_of_getLsbD_eq
  intro i hi
  rw [BitVec.getLsbD_xor, step_bit _ hi, step_bit _ hi, step_bit _ hi]
  split
  · simp only [BitVec.getLsbD_xor, Bool.xor_assoc, Bool.xor_left_comm]
  · exact BitVec.getLsbD_xor

theorem step_period (x : U16) : step^[65535] x = x :=
  iterate_eq_self (k := 16) step_xorLinear (by decide) (by decide +kernel) x

theorem step_quotient (x : U16) :
    step^[65535 / 3] x ^^^ x = step^[43690] x ∧ step^[65535 / 5] x ^^^ x = step^[61166] x ∧
      step^[65535 / 17] x ^^^ x = step^[8481] x ∧ step^[65535 / 257] x ^^^ x = step^[12849] x :=
  ⟨iterate_xor_self (k := 16) step_xorLinear (by decide) (by decide) (by decide +kernel) x,
    iterate_xor_self (k := 16) step_xorLinear (by decide) (by decide) (by decide +kernel) x,
    iterate_xor_self (k := 14) step_xorLinear (by decide) (by decide) (by decide +kernel) x,
    iterate_xor_self (k := 14) step_xorLinear (by decide) (by decide) (by decide +kernel) x⟩

theorem iterate_eq_zero {n : ℕ} (hn : n ≤ 65535) {x : U16} (h : step^[n] x = 0) : x = 0 := by
  have hsplit : step^[65535 - n] (step^[n] x) = x := by
    rw [← Function.iterate_add_apply, Nat.sub_add_cancel hn, step_period]
  rw [h, (step_xorLinear.iterate _).map_zero] at hsplit
  exact hsplit.symm

theorem step_ne_zero {x : U16} (h : x ≠ 0) : step x ≠ 0 :=
  fun hstep => h (iterate_eq_zero (n := 1) (by decide) hstep)

theorem quotient_moves {m n : ℕ} {x : U16} (hx : x ≠ 0) (hn : n ≤ 65535)
    (h : step^[m] x ^^^ x = step^[n] x) : ¬Function.IsPeriodicPt step m x := by
  intro hm
  have hfix : step^[m] x = x := hm
  rw [hfix, BitVec.xor_self] at h
  exact hx (iterate_eq_zero hn h.symm)

theorem prime_dvd_period {q : ℕ} (hq : q.Prime) (h : q ∣ 65535) :
    q = 3 ∨ q = 5 ∨ q = 17 ∨ q = 257 := by
  have hfactors : (65535 : ℕ) = 3 * (5 * (17 * 257)) := by decide
  have hp3 : Nat.Prime 3 := by norm_num
  have hp5 : Nat.Prime 5 := by norm_num
  have hp17 : Nat.Prime 17 := by norm_num
  have hp257 : Nat.Prime 257 := by norm_num
  rwa [hfactors, hq.dvd_mul, hq.dvd_mul, hq.dvd_mul, Nat.prime_dvd_prime_iff_eq hq hp3,
    Nat.prime_dvd_prime_iff_eq hq hp5, Nat.prime_dvd_prime_iff_eq hq hp17,
    Nat.prime_dvd_prime_iff_eq hq hp257] at h

theorem step_minimalPeriod {x : U16} (hx : x ≠ 0) : Function.minimalPeriod step x = 65535 := by
  refine minimalPeriod_eq (step_period x) ?_
  intro q hq hdvd
  obtain ⟨h₃, h₅, h₁₇, h₂₅₇⟩ := step_quotient x
  rcases prime_dvd_period hq hdvd with rfl | rfl | rfl | rfl
  · exact quotient_moves hx (by decide) h₃
  · exact quotient_moves hx (by decide) h₅
  · exact quotient_moves hx (by decide) h₁₇
  · exact quotient_moves hx (by decide) h₂₅₇

def allStates : Finset U16 := (Finset.range 65536).image (BitVec.ofNat 16)

def nonzeroStates : Finset U16 := allStates.erase 0

theorem ofNat_injOn : Set.InjOn (BitVec.ofNat 16) (Finset.range 65536) := by
  intro a ha b hb h
  have hvalue := congrArg BitVec.toNat h
  rw [BitVec.toNat_ofNat, BitVec.toNat_ofNat,
    Nat.mod_eq_of_lt (Finset.mem_range.mp (Finset.mem_coe.mp ha)),
    Nat.mod_eq_of_lt (Finset.mem_range.mp (Finset.mem_coe.mp hb))] at hvalue
  exact hvalue

theorem mem_allStates (x : U16) : x ∈ allStates :=
  Finset.mem_image.mpr ⟨x.toNat, Finset.mem_range.mpr x.isLt, BitVec.ofNat_toNat 16 x⟩

theorem mem_nonzeroStates (x : U16) : x ∈ nonzeroStates ↔ x ≠ 0 := by
  rw [nonzeroStates, Finset.mem_erase]
  exact and_iff_left (mem_allStates x)

theorem card_nonzeroStates : nonzeroStates.card = 65535 := by
  rw [nonzeroStates, Finset.card_erase_of_mem (mem_allStates 0), allStates,
    Finset.card_image_of_injOn ofNat_injOn, Finset.card_range]

theorem step_mem_nonzeroStates : ∀ y ∈ nonzeroStates, step y ∈ nonzeroStates := by
  intro y hy
  exact (mem_nonzeroStates _).mpr (step_ne_zero ((mem_nonzeroStates y).mp hy))

theorem card_eq_minimalPeriod {x : U16} (hx : x ≠ 0) :
    nonzeroStates.card = Function.minimalPeriod step x := by
  rw [card_nonzeroStates, step_minimalPeriod hx]

theorem countP_period {x : U16} (hx : x ≠ 0) (P : U16 → Prop) [DecidablePred P] :
    (List.range 65535).countP (fun k => P (step^[k] x)) = (nonzeroStates.filter P).card := by
  rw [← step_minimalPeriod hx]
  exact countP_iterate step_mem_nonzeroStates ((mem_nonzeroStates x).mpr hx)
    (card_eq_minimalPeriod hx) P

theorem state_visited {x t : U16} (hx : x ≠ 0) (ht : t ≠ 0) :
    ∃! k, k < 65535 ∧ step^[k] x = t := by
  rw [← step_minimalPeriod hx]
  exact existsUnique_iterate step_mem_nonzeroStates ((mem_nonzeroStates x).mpr hx)
    (card_eq_minimalPeriod hx) ((mem_nonzeroStates t).mpr ht)

theorem step_injective : Function.Injective step := by
  have hinverse : Function.LeftInverse step^[65534] step := by
    intro x
    rw [← Function.iterate_succ_apply step 65534 x]
    exact step_period x
  exact hinverse.injective

theorem exists_step_eq {t : U16} (ht : t ≠ 0) : ∃ s, s ≠ 0 ∧ step s = t := by
  have hstep : step (step^[65534] t) = t := by
    rw [← Function.iterate_succ_apply' step 65534 t]
    exact step_period t
  refine ⟨step^[65534] t, ?_, hstep⟩
  intro hzero
  rw [hzero, step_xorLinear.map_zero] at hstep
  exact ht hstep.symm

end EmbeddedDaq.LfsrPeriod

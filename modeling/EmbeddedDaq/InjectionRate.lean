import EmbeddedDaq.LfsrPeriod
import Mathlib.Data.Nat.Count

set_option autoImplicit false

namespace EmbeddedDaq.InjectionRate
open FirmwareWords FaultLfsr LfsrPeriod

def drawn (n : ℕ) (l : Lfsr) : Lfsr := (fun l => l.next.2)^[n] l

def Below (permille state : U16) : Prop := state &&& 0x03FF < permille

instance (permille : U16) : DecidablePred (Below permille) :=
  fun state => inferInstanceAs (Decidable (state &&& 0x03FF < permille))

theorem drawn_state (n : ℕ) (l : Lfsr) : (drawn n l).state = step^[n] l.state := by
  induction n generalizing l with
  | zero => rfl
  | succ n ih => exact ih _

theorem new_ne_zero (seed : U16) : (Lfsr.new seed).state ≠ 0 := by
  rw [Lfsr.new]
  split
  · decide
  · assumption

theorem drawn_new_ne_zero (n : ℕ) (seed : U16) : (drawn n (Lfsr.new seed)).state ≠ 0 := by
  rw [drawn_state]
  induction n with
  | zero => exact new_ne_zero seed
  | succ n ih =>
    rw [Function.iterate_succ_apply']
    exact step_ne_zero ih

theorem shouldInject_draw {permille : U16} (hpos : 1 ≤ permille.toNat)
    (hlt : permille.toNat < 1000) (l : Lfsr) :
    shouldInject l permille = (decide (Below permille (step l.state)), ⟨step l.state⟩) := by
  have hzero : permille ≠ 0 := by
    rintro rfl
    exact absurd hpos (by decide)
  have hbelow : ¬(1000 : U16) ≤ permille := by
    rw [BitVec.le_def]
    exact Nat.not_le.mpr hlt
  rw [shouldInject, if_neg hzero, if_neg hbelow]
  rfl

theorem trueResults_draw {permille : U16} (hpos : 1 ≤ permille.toNat)
    (hlt : permille.toNat < 1000) (n : ℕ) (l : Lfsr) :
    trueResults (shouldInject · permille) n l =
      (List.range n).countP fun k => Below permille (step^[k] (step l.state)) := by
  induction n generalizing l with
  | zero => rfl
  | succ n ih =>
    have hrest := ih ⟨step l.state⟩
    rw [trueResults, shouldInject_draw hpos hlt, List.range_succ_eq_map, List.countP_cons,
      List.countP_map]
    change _ + trueResults (shouldInject · permille) n (⟨step l.state⟩ : Lfsr) = _
    rw [hrest, Nat.add_comm]
    congr 1
    cases hbelow : decide (Below permille (step l.state)) with
    | false => exact (if_neg (Bool.eq_false_iff.mp hbelow)).symm
    | true => exact (if_pos hbelow).symm

theorem trueResults_const {S : Type*} {call : S → Bool × S} {s : S} (h : call s = (true, s))
    (n : ℕ) : trueResults call n s = n := by
  induction n with
  | zero => rfl
  | succ n ih =>
    rw [trueResults, h]
    change true.toNat + trueResults call n s = n + 1
    rw [ih, Bool.toNat_true, Nat.add_comm]

theorem count_below {p : ℕ} (hp : p ≤ 1024) (k : ℕ) :
    Nat.count (fun x => x % 1024 < p) (k * 1024) = k * p := by
  induction k with
  | zero => rw [Nat.zero_mul, Nat.zero_mul, Nat.count_zero]
  | succ k ih =>
    have hblock : (Finset.range 1024).filter (fun x => (k * 1024 + x) % 1024 < p) =
        Finset.range p := by
      ext x
      rw [Finset.mem_filter, Finset.mem_range, Finset.mem_range]
      omega
    rw [Nat.succ_mul, Nat.count_add, ih, Nat.succ_mul, Nat.count_eq_card_filter_range, hblock,
      Finset.card_range]

theorem below_ofNat (permille : U16) (x : ℕ) :
    Below permille (BitVec.ofNat 16 x) ↔ x % 1024 < permille.toNat := by
  have hmask : ((0x03FF : U16)).toNat = 2 ^ 10 - 1 := rfl
  have hmod : x % 2 ^ 16 % 2 ^ 10 = x % 1024 := by omega
  rw [Below, BitVec.lt_def, BitVec.toNat_and, BitVec.toNat_ofNat, hmask,
    Nat.and_two_pow_sub_one_eq_mod, hmod]

theorem card_below {permille : U16} (hpos : 1 ≤ permille.toNat) (hle : permille.toNat ≤ 1024) :
    (nonzeroStates.filter (Below permille)).card = 64 * permille.toNat - 1 := by
  have hzero : (0 : U16) ∈ allStates.filter (Below permille) := by
    refine Finset.mem_filter.mpr ⟨mem_allStates 0, ?_⟩
    exact (below_ofNat permille 0).mpr hpos
  have hall : (allStates.filter (Below permille)).card = 64 * permille.toNat := by
    rw [allStates, Finset.filter_image, Finset.card_image_of_injOn
      (ofNat_injOn.mono (Finset.coe_subset.mpr (Finset.filter_subset _ _)))]
    simp only [below_ofNat]
    rw [← Nat.count_eq_card_filter_range]
    exact count_below hle 64
  rw [nonzeroStates, Finset.filter_erase, Finset.card_erase_of_mem hzero, hall]

/-- The rate that is really delivered: `64 * p - 1` in 65535. -/
theorem trueResults_period {permille : U16} (hpos : 1 ≤ permille.toNat)
    (hlt : permille.toNat < 1000) {l : Lfsr} (hl : l.state ≠ 0) :
    trueResults (shouldInject · permille) 65535 l = 64 * permille.toNat - 1 := by
  rw [trueResults_draw hpos hlt, countP_period (step_ne_zero hl),
    card_below hpos (by omega)]

/-- `count` is within one of `65535 * permille / 1000`. -/
def Honoured (permille count : ℕ) : Prop :=
  65535 * permille ≤ 1000 * (count + 1) ∧ 1000 * count ≤ 65535 * permille + 1000

/-- The configured rate is kept at certainty only. -/
theorem honoured_iff (seed : U16) (earlier : ℕ) (permille : U16) (hpos : 1 ≤ permille.toNat)
    (hle : permille.toNat ≤ 1000) :
    Honoured permille.toNat
        (trueResults (shouldInject · permille) 65535 (drawn earlier (Lfsr.new seed))) ↔
      permille = 1000 := by
  rcases Nat.lt_or_eq_of_le hle with hlt | heq
  · rw [trueResults_period hpos hlt (drawn_new_ne_zero earlier seed), Honoured]
    constructor
    · rintro ⟨hlow, -⟩
      omega
    · rintro rfl
      exact absurd hlt (by decide)
  · have hp : permille = 1000 := BitVec.eq_of_toNat_eq heq
    rw [trueResults_const (shouldInject_always (Nat.le_of_eq heq.symm) _), Honoured]
    constructor
    · exact fun _ => hp
    · intro _
      omega

theorem half_not_honoured :
    ¬Honoured 500 (trueResults (shouldInject · 500) 65535 (drawn 0 (Lfsr.new 1))) := by
  have hcount : trueResults (shouldInject · 500) 65535 (drawn 0 (Lfsr.new 1)) =
      64 * (500 : U16).toNat - 1 :=
    trueResults_period (by decide) (by decide) (drawn_new_ne_zero 0 1)
  rw [hcount]
  rintro ⟨hlow, -⟩
  exact absurd hlow (by decide)

theorem honoured_iff_certain :
    Honoured 1000 (trueResults (shouldInject · 1000) 65535 (drawn 3 (Lfsr.new 0xACE1))) :=
  (honoured_iff 0xACE1 3 1000 (by decide) (by decide)).mpr rfl

end EmbeddedDaq.InjectionRate

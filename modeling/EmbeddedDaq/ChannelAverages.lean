import EmbeddedDaq.FirmwareAnalog
import Mathlib.Algebra.Order.BigOperators.Group.List
import Mathlib.Tactic.Ring

set_option autoImplicit false

namespace EmbeddedDaq.ChannelAverages
open FirmwareWords FirmwareAnalog

/-- The words whose index has the given parity. -/
def everyOther (parity : ℕ) (words : List U16) : List U16 :=
  (words.zipIdx.filter fun w => w.2 % 2 = parity).map Prod.fst

def mean (words : List U16) : ℕ := total words / words.length

def scaled (counts : ℕ) : ℕ := counts * 3300 / 4095

/-- A slice takes at most `isize::MAX` bytes, and the target is a 32-bit one. -/
def FitsSlice (words : List U16) : Prop := 2 * words.length < 2 ^ 31

instance (words : List U16) : Decidable (FitsSlice words) :=
  inferInstanceAs (Decidable (_ < _))

structure Averages (s : AnalogSampler) (window : List U16) : Prop where
  pa0 : s.pa0Mv.toNat = scaled (mean (everyOther 0 window))
  pa1 : s.pa1Mv.toNat = scaled (mean (everyOther 1 window))
  inRange : (∀ w ∈ window, w.toNat ≤ 4095) → s.pa0Mv.toNat ≤ 3300 ∧ s.pa1Mv.toNat ≤ 3300

theorem stepByTwo_filter (words : List U16) (n : ℕ) :
    (((words.zipIdx n).filter fun w => w.2 % 2 = n % 2).map Prod.fst) = stepByTwo words := by
  induction words using stepByTwo.induct generalizing n with
  | case1 => rfl
  | case2 x => simp [stepByTwo]
  | case3 x y rest ih =>
    have hnext : (n + 1) % 2 ≠ n % 2 := by omega
    have hsame : n % 2 = (n + 2) % 2 := by omega
    simp only [List.zipIdx_cons, List.filter_cons, hnext, decide_true, decide_false, ↓reduceIte,
      Bool.false_eq_true, List.map_cons, stepByTwo]
    rw [hsame]
    exact congrArg (x :: ·) (ih (n + 2))

theorem stepByTwo_eq (words : List U16) : stepByTwo words = everyOther 0 words :=
  (stepByTwo_filter words 0).symm

theorem stepByTwo_drop_one (words : List U16) : stepByTwo (words.drop 1) = everyOther 1 words := by
  cases words with
  | nil => rfl
  | cons x rest =>
    have h := stepByTwo_filter rest 1
    simpa [everyOther, List.zipIdx_cons] using h.symm

theorem stepByTwo_length {α : Type*} (words : List α) :
    (stepByTwo words).length = (words.length + 1) / 2 := by
  induction words using stepByTwo.induct with
  | case1 => simp [stepByTwo]
  | case2 x => simp [stepByTwo]
  | case3 x y rest ih =>
    simp only [stepByTwo, List.length_cons, ih]
    omega

theorem everyOther_zero_length (words : List U16) :
    (everyOther 0 words).length = (words.length + 1) / 2 := by
  rw [← stepByTwo_eq, stepByTwo_length]

theorem everyOther_one_length (words : List U16) :
    (everyOther 1 words).length = words.length / 2 := by
  rw [← stepByTwo_drop_one, stepByTwo_length, List.length_drop]
  omega

theorem mem_of_mem_everyOther {parity : ℕ} {words : List U16} {w : U16}
    (h : w ∈ everyOther parity words) : w ∈ words := by
  obtain ⟨⟨w, i⟩, hw, rfl⟩ := List.mem_map.mp h
  exact List.fst_mem_of_mem_zipIdx (List.mem_of_mem_filter hw)

theorem total_le {words : List U16} {bound : ℕ} (h : ∀ w ∈ words, w.toNat ≤ bound) :
    total words ≤ words.length * bound := by
  have hsum := List.sum_le_card_nsmul (words.map BitVec.toNat) bound (by simpa using h)
  rwa [List.length_map, Nat.nsmul_eq_mul] at hsum

theorem total_le_max (words : List U16) : total words ≤ words.length * 65535 :=
  total_le fun w _ => Nat.le_pred_of_lt w.isLt

theorem total_widened (words : List U16) :
    total (words.map (BitVec.setWidth 32)) = total words := by
  have hsame : (BitVec.toNat ∘ BitVec.setWidth 32 : U16 → ℕ) = BitVec.toNat := by
    funext w
    have hw := w.isLt
    simp only [Function.comp_apply, BitVec.toNat_setWidth]
    omega
  rw [total, List.map_map, hsame]
  rfl

theorem countsToMv_eq_some_iff {p : Profile} {counts v : U32} (h : counts.toNat ≤ 131070) :
    countsToMv p counts = some v ↔ v.toNat = scaled counts.toNat := by
  have hfits : counts.toNat * (3300 : U32).toNat < 2 ^ 32 := by
    apply Nat.lt_of_le_of_lt (Nat.mul_le_mul_right 3300 h)
    decide
  have hvalue : (counts * 3300 / 4095 : U32).toNat = scaled counts.toNat := by
    rw [BitVec.toNat_udiv, BitVec.toNat_mul_of_lt hfits]
    rfl
  unfold countsToMv
  rw [mulWord_of_lt p counts 3300 hfits, Option.bind_eq_bind, Option.bind_some,
    divWord_eq_some_iff, ← hvalue, BitVec.toNat_inj]
  exact and_iff_right (by decide)

theorem channelMv_eq_some_iff {p : Profile} {words : List U16} {count : ℕ} {v : U32}
    (htwo : 2 ≤ count) (hcount : count < 2 ^ 30) (hlen : words.length ≤ count / 2 + 1) :
    channelMv p words count = some v ↔ (p = .dev → total words < 2 ^ 32) ∧
      v.toNat = scaled (total words % 2 ^ 32 / (count / 2)) := by
  have hhalf : (BitVec.ofNat 32 (count / 2)).toNat = count / 2 := by
    rw [BitVec.toNat_ofNat]
    omega
  have hdivisor : BitVec.ofNat 32 (count / 2) ≠ 0 := by
    intro hzero
    rw [hzero] at hhalf
    change 0 = count / 2 at hhalf
    omega
  have haverage : (BitVec.ofNat 32 (total words) / BitVec.ofNat 32 (count / 2)).toNat =
      total words % 2 ^ 32 / (count / 2) := by
    rw [BitVec.toNat_udiv, hhalf, BitVec.toNat_ofNat]
  have hsmall : total words % 2 ^ 32 / (count / 2) ≤ 131070 := by
    apply Nat.div_le_of_le_mul
    have hsum := total_le_max words
    have hmod := Nat.mod_le (total words) (2 ^ 32)
    have hwords : words.length * 65535 ≤ (count / 2 + 1) * 65535 := Nat.mul_le_mul_right 65535 hlen
    omega
  simp only [channelMv, Option.bind_eq_bind, Option.bind_eq_some_iff, sumWords_eq_some_iff,
    total_widened, divWord_eq_some_iff]
  constructor
  · rintro ⟨t, ⟨hsum, rfl⟩, average, ⟨-, rfl⟩, hmv⟩
    rw [countsToMv_eq_some_iff (by rwa [haverage]), haverage] at hmv
    exact ⟨hsum, hmv⟩
  · rintro ⟨hsum, hmv⟩
    refine ⟨_, ⟨hsum, rfl⟩, _, ⟨hdivisor, rfl⟩, ?_⟩
    rw [countsToMv_eq_some_iff (by rwa [haverage]), haverage]
    exact hmv

section
variable {sum n h : ℕ}

theorem scaled_mono {a b : ℕ} (hle : a ≤ b) : scaled a ≤ scaled b :=
  Nat.div_le_div_right (Nat.mul_le_mul_right 3300 hle)

theorem scaled_le (a : ℕ) : scaled a ≤ a := by
  unfold scaled
  omega

theorem scaled_lt {a b : ℕ} (hle : a + 2 ≤ b) : scaled a < scaled b := by
  unfold scaled
  omega

theorem scaled_add_eq_iff (m d : ℕ) :
    scaled (m + d) = scaled m ↔ d = 0 ∨ (d = 1 ∧ 220 * m % 273 < 53) := by
  match d with
  | 0 => simp
  | 1 =>
    have hreduced : m * 3300 / 4095 = 220 * m / 273 := by omega
    unfold scaled
    omega
  | d + 2 =>
    have hlt := scaled_lt (show m + 2 ≤ m + (d + 2) by omega)
    omega

/-- One word too few in the divisor is absorbed by the roundings. -/
def Absorbed (sum h : ℕ) : Prop :=
  sum / (h + 1) + sum % (h + 1) < h ∨
    (sum / (h + 1) + sum % (h + 1) < 2 * h ∧ 220 * (sum / (h + 1)) % 273 < 53)

theorem absorbed_iff (hpos : 0 < h) :
    scaled (sum / h) = scaled (sum / (h + 1)) ↔ Absorbed sum h := by
  have hsplit : sum / h = sum / (h + 1) + (sum / (h + 1) + sum % (h + 1)) / h := by
    have hsum := Nat.div_add_mod sum (h + 1)
    have hparts : sum = sum / (h + 1) + sum % (h + 1) + h * (sum / (h + 1)) := by
      rw [Nat.add_mul, Nat.one_mul] at hsum
      omega
    conv_lhs => rw [hparts]
    rw [Nat.add_mul_div_left _ _ hpos, Nat.add_comm]
  rw [hsplit, scaled_add_eq_iff]
  unfold Absorbed
  generalize sum / (h + 1) + sum % (h + 1) = rest
  have hzero : rest / h = 0 ↔ rest < h := Nat.div_eq_zero_iff_lt hpos
  have htwo : rest / h < 2 ↔ rest < 2 * h := Nat.div_lt_iff_lt_mul hpos
  generalize rest / h = excess at hzero htwo ⊢
  omega

/-- A wrapped sum loses eight words or more on average, which no rounding hides. -/
theorem wrapped_average (hn : n ≤ h + 1) (hh : h < 2 ^ 29) (hsum : sum ≤ n * 65535)
    (hwrap : 2 ^ 32 ≤ sum) : sum % 2 ^ 32 / h + 2 ≤ sum / n := by
  have hlarge : 65536 ≤ h := by
    have hle : n * 65535 ≤ (h + 1) * 65535 := Nat.mul_le_mul_right 65535 hn
    omega
  have hsmall : sum % 2 ^ 32 / h < 65536 := by
    apply Nat.div_lt_of_lt_mul
    have hle : 65536 * 65536 ≤ h * 65536 := Nat.mul_le_mul_right 65536 hlarge
    omega
  have hback : sum % 2 ^ 32 / h * h ≤ sum % 2 ^ 32 := Nat.div_mul_le_self _ _
  have hrest : sum % 2 ^ 32 + 2 ^ 32 ≤ sum := by omega
  have hpos : 0 < n := by
    apply Nat.pos_of_ne_zero
    rintro rfl
    omega
  rw [Nat.le_div_iff_mul_le hpos]
  calc (sum % 2 ^ 32 / h + 2) * n ≤ (sum % 2 ^ 32 / h + 2) * (h + 1) := Nat.mul_le_mul_left _ hn
    _ = sum % 2 ^ 32 / h * h + sum % 2 ^ 32 / h + 2 * h + 2 := by ring
    _ ≤ sum := by omega

theorem scaled_wrapped_iff (hn : n ≤ h + 1) (hh : h < 2 ^ 29) (hsum : sum ≤ n * 65535) :
    scaled (sum % 2 ^ 32 / h) = scaled (sum / n) ↔
      sum < 2 ^ 32 ∧ scaled (sum / h) = scaled (sum / n) := by
  by_cases hfits : sum < 2 ^ 32
  · rw [Nat.mod_eq_of_lt hfits]
    exact (and_iff_right hfits).symm
  · have hlt := scaled_lt (wrapped_average hn hh hsum (Nat.not_lt.mp hfits))
    constructor
    · intro heq
      exact absurd heq (Nat.ne_of_lt hlt)
    · intro hboth
      exact absurd hboth.1 hfits

end

theorem mean_le {words : List U16} {bound : ℕ} (h : ∀ w ∈ words, w.toNat ≤ bound) :
    mean words ≤ bound :=
  Nat.div_le_of_le_mul (total_le h)

theorem scaled_mean_le {parity : ℕ} {window : List U16} (h : ∀ w ∈ window, w.toNat ≤ 4095) :
    scaled (mean (everyOther parity window)) ≤ 3300 :=
  scaled_mono (mean_le fun w hw => h w (mem_of_mem_everyOther hw))

theorem updateAnalog_eq_some_iff {p : Profile} {s s' : AnalogSampler} {measurements : List U16}
    {count : ℕ} (htwo : 2 ≤ count) (hle : count ≤ measurements.length) :
    s.updateAnalog p measurements count = some s' ↔
      channelMv p (everyOther 0 (measurements.take count)) count = some s'.pa0Mv ∧
      channelMv p (everyOther 1 (measurements.take count)) count = some s'.pa1Mv ∧
      addWord p s.sampleCount (BitVec.ofNat 32 count) = some s'.sampleCount := by
  have hsmall : ¬count < 2 := Nat.not_lt.mpr htwo
  rw [AnalogSampler.updateAnalog, if_neg hsmall, sliceTo, if_pos hle]
  simp only [Option.bind_eq_bind, Option.bind_some, stepByTwo_drop_one, Option.bind_eq_some_iff]
  rw [stepByTwo_eq]
  constructor
  · rintro ⟨pa0Mv, hpa0, pa1Mv, hpa1, sampleCount, hcount, heq⟩
    obtain rfl := Option.some.inj heq
    exact ⟨hpa0, hpa1, hcount⟩
  · rintro ⟨hpa0, hpa1, hcount⟩
    exact ⟨_, hpa0, _, hpa1, _, hcount, rfl⟩

theorem exists_channelMv {p : Profile} {words : List U16} {count : ℕ} (htwo : 2 ≤ count)
    (hcount : count < 2 ^ 30) (hlen : words.length ≤ count / 2 + 1)
    (hfits : total words < 2 ^ 32) :
    ∃ v, channelMv p words count = some v ∧ v.toNat = scaled (total words / (count / 2)) := by
  have hscaled : scaled (total words / (count / 2)) ≤ total words :=
    (scaled_le _).trans (Nat.div_le_self _ _)
  have hvalue : (BitVec.ofNat 32 (scaled (total words / (count / 2)))).toNat =
      scaled (total words / (count / 2)) := by
    rw [BitVec.toNat_ofNat]
    exact Nat.mod_eq_of_lt (by omega)
  refine ⟨_, (channelMv_eq_some_iff htwo hcount hlen).mpr ⟨fun _ => hfits, ?_⟩, hvalue⟩
  rw [hvalue, Nat.mod_eq_of_lt hfits]

/-- The sums and the sample counter fit, and an odd count does no harm. -/
structure Exact (p : Profile) (s : AnalogSampler) (window : List U16) : Prop where
  even : total (everyOther 0 window) < 2 ^ 32
  odd : total (everyOther 1 window) < 2 ^ 32
  room : p = .dev → s.sampleCount.toNat + window.length < 2 ^ 32
  absorbed : window.length % 2 = 1 →
    Absorbed (total (everyOther 0 window)) (window.length / 2)

section
variable {p : Profile} {s : AnalogSampler} {words window : List U16} {count : ℕ} {v : U32}

theorem channelMv_mean_iff (htwo : 2 ≤ count) (hcount : count < 2 ^ 30)
    (hlen : words.length ≤ count / 2 + 1) (h : channelMv p words count = some v) :
    v.toNat = scaled (mean words) ↔
      total words < 2 ^ 32 ∧ scaled (total words / (count / 2)) = scaled (mean words) := by
  obtain ⟨-, hv⟩ := (channelMv_eq_some_iff htwo hcount hlen).mp h
  rw [hv]
  exact scaled_wrapped_iff hlen (by omega) (total_le_max words)

theorem odd_mean (window : List U16) :
    total (everyOther 1 window) / (window.length / 2) = mean (everyOther 1 window) := by
  rw [mean, everyOther_one_length]

theorem even_mean_iff (htwo : 2 ≤ window.length) :
    scaled (total (everyOther 0 window) / (window.length / 2)) =
        scaled (mean (everyOther 0 window)) ↔
      (window.length % 2 = 1 → Absorbed (total (everyOther 0 window)) (window.length / 2)) := by
  unfold mean
  rw [everyOther_zero_length]
  by_cases hodd : window.length % 2 = 1
  · have hhalf : (window.length + 1) / 2 = window.length / 2 + 1 := by omega
    rw [hhalf, absorbed_iff (by omega)]
    exact ⟨fun h _ => h, fun h => h hodd⟩
  · have hhalf : (window.length + 1) / 2 = window.length / 2 := by omega
    rw [hhalf]
    exact ⟨fun _ h => absurd h hodd, fun _ => rfl⟩

end

/-- The voltages are those of the two averages exactly when the sums fit and no odd count shows. -/
theorem update_averages_iff (p : Profile) (s : AnalogSampler) (measurements : List U16) (count : ℕ)
    (htwo : 2 ≤ count) (hle : count ≤ measurements.length) (hslice : FitsSlice measurements) :
    (∃ s', s.updateAnalog p measurements count = some s' ∧
        Averages s' (measurements.take count)) ↔ Exact p s (measurements.take count) := by
  unfold FitsSlice at hslice
  have hcount : count < 2 ^ 30 := by omega
  simp only [updateAnalog_eq_some_iff htwo hle]
  have hlength : (measurements.take count).length = count := List.length_take_of_le hle
  generalize measurements.take count = window at hlength ⊢
  subst hlength
  have heven : (everyOther 0 window).length ≤ window.length / 2 + 1 := by
    rw [everyOther_zero_length]
    omega
  have hodd : (everyOther 1 window).length ≤ window.length / 2 + 1 := by
    rw [everyOther_one_length]
    omega
  have hcounter : (BitVec.ofNat 32 window.length).toNat = window.length := by
    rw [BitVec.toNat_ofNat]
    omega
  constructor
  · rintro ⟨s', ⟨hpa0, hpa1, hadd⟩, haverages⟩
    obtain ⟨hfits0, hsame⟩ := (channelMv_mean_iff htwo hcount heven hpa0).mp haverages.pa0
    obtain ⟨hfits1, -⟩ := (channelMv_mean_iff htwo hcount hodd hpa1).mp haverages.pa1
    obtain ⟨hroom, -⟩ := addWord_eq_some_iff.mp hadd
    rw [hcounter] at hroom
    exact ⟨hfits0, hfits1, hroom, (even_mean_iff htwo).mp hsame⟩
  · intro hexact
    obtain ⟨pa0Mv, hpa0, hmv0⟩ := exists_channelMv htwo hcount heven hexact.even
    obtain ⟨pa1Mv, hpa1, hmv1⟩ := exists_channelMv htwo hcount hodd hexact.odd
    have hadd : addWord p s.sampleCount (BitVec.ofNat 32 window.length) =
        some (s.sampleCount + BitVec.ofNat 32 window.length) := by
      rw [addWord_eq_some_iff, hcounter]
      exact ⟨hexact.room, rfl⟩
    rw [(even_mean_iff htwo).mpr hexact.absorbed] at hmv0
    rw [odd_mean] at hmv1
    refine ⟨⟨pa0Mv, pa1Mv, _⟩, ⟨hpa0, hpa1, hadd⟩, hmv0, hmv1, ?_⟩
    intro hrange
    rw [hmv0, hmv1]
    exact ⟨scaled_mean_le hrange, scaled_mean_le hrange⟩

theorem update_averages_iff_two :
    (∃ s', AnalogSampler.new.updateAnalog .dev [100, 200] 2 = some s' ∧
        Averages s' (List.take 2 [100, 200])) ↔
      Exact .dev AnalogSampler.new (List.take 2 [100, 200]) :=
  update_averages_iff .dev AnalogSampler.new [100, 200] 2 (by decide) (by decide) (by decide)

/-- Two even-indexed words of 4095 counts, divided by one, are 6600 mV. -/
theorem odd_count_doubles :
    AnalogSampler.new.updateAnalog .release [4095, 0, 4095] 3 = some ⟨6600, 0, 3⟩ ∧
      ¬∃ s', AnalogSampler.new.updateAnalog .release [4095, 0, 4095] 3 = some s' ∧
        Averages s' (List.take 3 [4095, 0, 4095]) := by
  have hupdate : AnalogSampler.new.updateAnalog .release [4095, 0, 4095] 3 =
      some ⟨6600, 0, 3⟩ := by decide
  refine ⟨hupdate, ?_⟩
  rintro ⟨s', hs', haverages⟩
  obtain rfl := Option.some.inj (hupdate.symm.trans hs')
  exact absurd haverages.pa0 (by decide)

end EmbeddedDaq.ChannelAverages

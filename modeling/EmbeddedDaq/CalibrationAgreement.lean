import EmbeddedDaq.HostPacket
import EmbeddedDaq.ReadArithmetic
import EmbeddedDaq.SharedCalibration
import Mathlib.Order.Bounds.Defs

set_option autoImplicit false

namespace EmbeddedDaq.CalibrationAgreement
open FirmwareWords FirmwareAnalog SharedPacket SharedCalibration HostPacket
open ChannelAverages ReadArithmetic

/-- `a` is an average that a read of 12-bit words forms. -/
def ReadAverage (a : ℕ) : Prop :=
  ∃ (measurements : List U16) (count : ℕ), measurements.length ≤ 2048 ∧
    count ≤ measurements.length ∧ 2 ≤ count ∧ (∀ w ∈ measurements, w.toNat ≤ 4095) ∧
    (a = total (stepByTwo (measurements.take count)) / (count / 2) ∨
      a = total (stepByTwo ((measurements.take count).drop 1)) / (count / 2))

def adjustedCounts (counts : ℕ) (offset : ℤ) : ℤ := max 0 (counts - offset)

def exactMv (counts vref gain : ℕ) (offset : ℤ) : ℤ := adjustedCounts counts offset * vref / gain

structure Convertible (cal : AdcCalibration) (channel : ChannelId) (offset : I16) (gain : U16)
    (counts : U32) : Prop where
  channel : cal.offsetGain channel = some (offset, gain)
  gain : gain ≠ 0
  bound : counts.toNat ≤ 8190

/-- No step of the conversion leaves the range of its type. -/
structure ConversionFits (vref : U16) (offset : I16) (counts : U32) : Prop where
  cast : counts.toInt = counts.toNat
  negation : (-(offset.signExtend 32)).toInt = -offset.toInt
  sum : (saturatingAdd counts (-(offset.signExtend 32))).toInt = counts.toNat - offset.toInt
  product : adjustedCounts counts.toNat offset.toInt * vref.toNat < 2 ^ 32

theorem mem_stepByTwo {α : Type*} {words : List α} {w : α} (h : w ∈ stepByTwo words) :
    w ∈ words := by
  induction words using stepByTwo.induct with
  | case1 => exact h
  | case2 x => exact h
  | case3 x y rest ih =>
    rcases List.mem_cons.mp h with rfl | h
    · exact List.mem_cons_self
    · exact List.mem_cons_of_mem x (List.mem_cons_of_mem y (ih h))

theorem average_le {words : List U16} {count : ℕ} (htwo : 2 ≤ count)
    (hlen : words.length ≤ count / 2 + 1) (hwords : ∀ w ∈ words, w.toNat ≤ 4095) :
    total words / (count / 2) ≤ 8190 := by
  have hsum : total words ≤ (count / 2 + 1) * 4095 :=
    (total_le hwords).trans (Nat.mul_le_mul_right 4095 hlen)
  have hdouble : (count / 2 + 1) * 4095 ≤ count / 2 * 8190 := by omega
  exact Nat.div_le_of_le_mul (hsum.trans hdouble)

theorem readAverage_le {a : ℕ} (h : ReadAverage a) : a ≤ 8190 := by
  obtain ⟨measurements, count, -, hcount, htwo, hwords, rfl | rfl⟩ := h
  · exact average_le htwo (even_length_le hcount) fun w hw =>
      hwords w (List.mem_of_mem_take (mem_stepByTwo hw))
  · exact average_le htwo (odd_length_le hcount) fun w hw =>
      hwords w (List.mem_of_mem_take (List.mem_of_mem_drop (mem_stepByTwo hw)))

theorem readAverage_max : ReadAverage 8190 := by
  have hwords : ∀ w ∈ List.replicate 3 (4095 : U16), w.toNat ≤ 4095 := by
    intro w hw
    rw [List.eq_of_mem_replicate hw]
    decide
  have hvalue : total (stepByTwo ((List.replicate 3 (4095 : U16)).take 3)) / (3 / 2) = 8190 := by
    decide
  exact ⟨List.replicate 3 4095, 3, by decide, by decide, by decide, hwords, .inl hvalue.symm⟩

section
variable {counts counts' vref gain gain' : ℕ} {offset offset' : ℤ}

theorem adjustedCounts_nonneg : 0 ≤ adjustedCounts counts offset := Int.le_max_left ..

theorem adjustedCounts_mono (hcounts : counts ≤ counts') (hoffset : offset' ≤ offset) :
    adjustedCounts counts offset ≤ adjustedCounts counts' offset' := by
  unfold adjustedCounts
  omega

theorem exactMv_mono (hcounts : counts ≤ counts') (hoffset : offset' ≤ offset)
    (hgain : gain' ≤ gain) (hpos : 0 < gain') :
    exactMv counts vref gain offset ≤ exactMv counts' vref gain' offset' := by
  have hproduct : adjustedCounts counts offset * vref ≤ adjustedCounts counts' offset' * vref :=
    Int.mul_le_mul_of_nonneg_right (adjustedCounts_mono hcounts hoffset) (Int.natCast_nonneg vref)
  have hquotient : 0 ≤ adjustedCounts counts offset * (vref : ℤ) / gain :=
    Int.ediv_nonneg (Int.mul_nonneg adjustedCounts_nonneg (Int.natCast_nonneg vref)) (by omega)
  apply Int.le_ediv_of_mul_le (by omega)
  calc
    exactMv counts vref gain offset * gain' ≤ exactMv counts vref gain offset * gain :=
      Int.mul_le_mul_of_nonneg_left (by omega) hquotient
    _ ≤ adjustedCounts counts offset * vref := Int.ediv_mul_le _ (by omega)
    _ ≤ adjustedCounts counts' offset' * vref := hproduct

end

theorem signExtend_ne_intMin (offset : I16) : offset.signExtend 32 ≠ BitVec.intMin 32 := by
  intro h
  have hlow : -32768 ≤ offset.toInt := BitVec.le_toInt offset
  have hvalue : (offset.signExtend 32).toInt = -2147483648 := by
    rw [h]
    decide
  rw [BitVec.toInt_signExtend_of_le (by decide)] at hvalue
  omega

theorem conversion_fits (vref : U16) (offset : I16) {counts : U32}
    (hcounts : counts.toNat ≤ 8190) : ConversionFits vref offset counts := by
  have hlow : -32768 ≤ offset.toInt := BitVec.le_toInt offset
  have hhigh : offset.toInt < 32768 := BitVec.toInt_lt
  have hvref := vref.isLt
  have hcast : counts.toInt = counts.toNat :=
    BitVec.toInt_eq_toNat_of_lt (by omega)
  have hextend : (offset.signExtend 32).toInt = offset.toInt :=
    BitVec.toInt_signExtend_of_le (by decide)
  have hneg : (-(offset.signExtend 32)).toInt = -offset.toInt := by
    rw [BitVec.toInt_neg_of_ne_intMin (signExtend_ne_intMin offset), hextend]
  refine ⟨hcast, hneg, ?_, ?_⟩
  · rw [toInt_saturatingAdd (by decide) (by omega) (by omega), hcast, hneg]
    omega
  · calc
      adjustedCounts counts.toNat offset.toInt * vref.toNat ≤ 40958 * 65535 :=
        Int.mul_le_mul (by unfold adjustedCounts; omega) (by omega) (by omega) (by decide)
      _ < 2 ^ 32 := by decide

theorem adjusted_toNat (offset : I16) {counts : U32} (hcounts : counts.toNat ≤ 8190) :
    ((maxZero (saturatingAdd counts (-(offset.signExtend 32)))).toNat : ℤ) =
      adjustedCounts counts.toNat offset.toInt := by
  have hint : (maxZero (saturatingAdd counts (-(offset.signExtend 32)))).toInt =
      adjustedCounts counts.toNat offset.toInt := by
    rw [toInt_maxZero, (conversion_fits 0 offset hcounts).sum]
    rfl
  have hnonneg : 0 ≤ adjustedCounts counts.toNat offset.toInt := adjustedCounts_nonneg
  rw [BitVec.toInt_eq_toNat_cond] at hint
  split at hint
  · exact hint
  · have hlt := (maxZero (saturatingAdd counts (-(offset.signExtend 32)))).isLt
    omega

theorem countsToMv_exactMv (p : Profile) {cal : AdcCalibration} {channel : ChannelId}
    {offset : I16} {gain : U16} {counts : U32} (h : Convertible cal channel offset gain counts) :
    ∃ v, cal.countsToMv p counts channel = some v ∧
      (v.toNat : ℤ) = exactMv counts.toNat cal.vrefMv.toNat gain.toNat offset.toInt := by
  have hadjusted := adjusted_toNat offset h.bound
  have hproduct := (conversion_fits cal.vrefMv offset h.bound).product
  have hvref : (cal.vrefMv.setWidth 32).toNat = cal.vrefMv.toNat :=
    BitVec.toNat_setWidth_of_le (by decide)
  have hgain : (gain.setWidth 32).toNat = gain.toNat := BitVec.toNat_setWidth_of_le (by decide)
  have hdivisor : gain.setWidth 32 ≠ 0 := by
    intro hzero
    rw [hzero] at hgain
    exact h.gain (BitVec.eq_of_toNat_eq hgain.symm)
  generalize hvalue : maxZero (saturatingAdd counts (-(offset.signExtend 32))) = a at hadjusted
  have hfits : a.toNat * (cal.vrefMv.setWidth 32).toNat < 2 ^ 32 := by
    rw [← hadjusted] at hproduct
    rw [hvref]
    exact_mod_cast hproduct
  refine ⟨a * cal.vrefMv.setWidth 32 / gain.setWidth 32, ?_, ?_⟩
  · simp only [AdcCalibration.countsToMv, h.channel,
      negWord_of_ne p (signExtend_ne_intMin offset), Option.bind_eq_bind, Option.bind_some,
      hvalue, mulWord_of_lt p _ _ hfits, divWord, if_neg hdivisor]
  · rw [BitVec.toNat_udiv, BitVec.toNat_mul_of_lt hfits, hvref, hgain, exactMv, ← hadjusted]
    norm_cast

theorem default_agrees (p : Profile) {channel : ChannelId} (hchannel : channel ≠ .pwmIn)
    {counts : U32} (hcounts : counts.toNat ≤ 8190) :
    ∃ v, AdcCalibration.default.countsToMv p counts channel = some v ∧
      FirmwareAnalog.countsToMv p counts = some v ∧
      ∀ s : HostSample, s.value = counts.toNat → s.toMv 3300 = v.toNat := by
  have hterms : AdcCalibration.default.offsetGain channel = some (0, 4095) := by
    cases channel with
    | analog0 => rfl
    | analog1 => rfl
    | pwmIn => exact absurd rfl hchannel
  have hconvertible : Convertible AdcCalibration.default channel 0 4095 counts :=
    ⟨hterms, by decide, hcounts⟩
  obtain ⟨v, hvalue, hexact⟩ := countsToMv_exactMv p hconvertible
  have hscaled : v.toNat = scaled counts.toNat := by
    have hzero : (0 : I16).toInt = 0 := by decide
    have hvref : AdcCalibration.default.vrefMv.toNat = 3300 := by decide
    have hgain : (4095 : U16).toNat = 4095 := by decide
    rw [exactMv, adjustedCounts, hzero, hvref, hgain] at hexact
    unfold scaled
    omega
  refine ⟨v, hvalue, (countsToMv_eq_some_iff (by omega)).mpr hscaled, ?_⟩
  intro s hs
  rw [hscaled, HostSample.toMv, hs, scaled]

/-- Calibrated conversion is exact and monotone, and the default is the uncalibrated conversion. -/
theorem counts_to_mv_exact (p : Profile) (channel : ChannelId) (hchannel : channel ≠ .pwmIn) :
    IsGreatest {a | ReadAverage a} 8190 ∧
    (∀ (cal : AdcCalibration) (offset : I16) (gain : U16) (counts : U32),
      Convertible cal channel offset gain counts →
        ConversionFits cal.vrefMv offset counts ∧
        ∃ v, cal.countsToMv p counts channel = some v ∧
          (v.toNat : ℤ) = exactMv counts.toNat cal.vrefMv.toNat gain.toNat offset.toInt) ∧
    (∀ (cal cal' : AdcCalibration) (offset offset' : I16) (gain gain' : U16)
      (counts counts' v v' : U32), cal.vrefMv = cal'.vrefMv →
        Convertible cal channel offset gain counts →
        Convertible cal' channel offset' gain' counts' →
        counts.toNat ≤ counts'.toNat → offset'.toInt ≤ offset.toInt → gain'.toNat ≤ gain.toNat →
        cal.countsToMv p counts channel = some v → cal'.countsToMv p counts' channel = some v' →
        v.toNat ≤ v'.toNat) ∧
    ∀ counts : U32, counts.toNat ≤ 8190 →
      ∃ v, AdcCalibration.default.countsToMv p counts channel = some v ∧
        FirmwareAnalog.countsToMv p counts = some v ∧
        ∀ s : HostSample, s.value = counts.toNat → s.toMv 3300 = v.toNat := by
  refine ⟨⟨readAverage_max, fun a ha => readAverage_le ha⟩, ?_, ?_,
    fun counts hcounts => default_agrees p hchannel hcounts⟩
  · intro cal offset gain counts h
    exact ⟨conversion_fits cal.vrefMv offset h.bound, countsToMv_exactMv p h⟩
  · intro cal cal' offset offset' gain gain' counts counts' v v' hvref h h' hcounts hoffset hgain
      hv hv'
    obtain ⟨u, hu, hexact⟩ := countsToMv_exactMv p h
    obtain ⟨u', hu', hexact'⟩ := countsToMv_exactMv p h'
    cases hv.symm.trans hu
    cases hv'.symm.trans hu'
    have hpos : 0 < gain'.toNat := by
      apply Nat.pos_of_ne_zero
      intro hzero
      exact h'.gain (BitVec.eq_of_toNat_eq hzero)
    rw [hvref] at hexact
    have hmono : (v.toNat : ℤ) ≤ v'.toNat := by
      rw [hexact, hexact']
      exact exactMv_mono hcounts hoffset hgain hpos
    exact_mod_cast hmono

/-- The second channel, with an offset that lifts the counts and a gain below full scale. -/
theorem counts_to_mv_exact_lifted :
    ∃ v, AdcCalibration.countsToMv .dev ⟨3300, 0, -100, 4095, 4000⟩ 2048 .analog1 = some v ∧
      v.toNat = 1772 := by
  obtain ⟨-, hexact, -⟩ := counts_to_mv_exact .dev .analog1 (by decide)
  obtain ⟨-, v, hv, hvalue⟩ := hexact ⟨3300, 0, -100, 4095, 4000⟩ (-100) 4000 2048
    ⟨rfl, by decide, by decide⟩
  have hquotient : exactMv 2048 3300 4000 (-100) = 1772 := by decide
  exact ⟨v, hv, by exact_mod_cast hvalue.trans hquotient⟩

end EmbeddedDaq.CalibrationAgreement

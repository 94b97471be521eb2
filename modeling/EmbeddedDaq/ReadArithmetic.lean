import EmbeddedDaq.ChannelAverages

set_option autoImplicit false

namespace EmbeddedDaq.ReadArithmetic
open FirmwareWords FirmwareAnalog ChannelAverages

/-- The expressions of the source over unbounded integers. -/
def unboundedMv (words : List U16) (count : ℕ) : ℕ := total words / (count / 2) * 3300 / 4095

structure ChannelFits (words : List U16) (count : ℕ) : Prop where
  sum : total words < 2 ^ 32
  divisor : BitVec.ofNat 32 (count / 2) ≠ 0
  product : total words / (count / 2) * 3300 < 2 ^ 32

section
variable {words : List U16} {count : ℕ}

theorem channel_fits (htwo : 2 ≤ count) (hbuffer : count ≤ 2048)
    (hlen : words.length ≤ count / 2 + 1) : ChannelFits words count := by
  have hsum : total words ≤ (count / 2 + 1) * 65535 :=
    (total_le_max words).trans (Nat.mul_le_mul_right 65535 hlen)
  have hquotient : total words / (count / 2) ≤ 131070 := by
    have hdouble : (count / 2 + 1) * 65535 ≤ count / 2 * 131070 := by omega
    exact Nat.div_le_of_le_mul (hsum.trans hdouble)
  refine ⟨by omega, ?_, by omega⟩
  intro hzero
  have hvalue := congrArg BitVec.toNat hzero
  rw [BitVec.toNat_ofNat] at hvalue
  change count / 2 % 2 ^ 32 = 0 at hvalue
  omega

theorem channelMv_unbounded (htwo : 2 ≤ count) (hbuffer : count ≤ 2048)
    (hlen : words.length ≤ count / 2 + 1) (p : Profile) :
    ∃ v, channelMv p words count = some v ∧ v.toNat = unboundedMv words count :=
  exists_channelMv htwo (by omega) hlen (channel_fits htwo hbuffer hlen).sum

theorem even_length_le {measurements : List U16} (hcount : count ≤ measurements.length) :
    (stepByTwo (measurements.take count)).length ≤ count / 2 + 1 := by
  rw [stepByTwo_length, List.length_take_of_le hcount]
  omega

theorem odd_length_le {measurements : List U16} (hcount : count ≤ measurements.length) :
    (stepByTwo ((measurements.take count).drop 1)).length ≤ count / 2 + 1 := by
  rw [stepByTwo_length, List.length_drop, List.length_take_of_le hcount]
  omega

end

theorem exists_updateAnalog (p : Profile) (s : AnalogSampler) {measurements : List U16} {count : ℕ}
    (hbuffer : measurements.length ≤ 2048) (hcount : count ≤ measurements.length)
    (htwo : 2 ≤ count) : ∃ pa0Mv pa1Mv : U32,
      pa0Mv.toNat = unboundedMv (stepByTwo (measurements.take count)) count ∧
      pa1Mv.toNat = unboundedMv (stepByTwo ((measurements.take count).drop 1)) count ∧
      s.updateAnalog p measurements count =
        (addWord p s.sampleCount (BitVec.ofNat 32 count)).map fun sampleCount =>
          ⟨pa0Mv, pa1Mv, sampleCount⟩ := by
  have hsmall : count ≤ 2048 := hcount.trans hbuffer
  have hslice : sliceTo measurements count = some (measurements.take count) := if_pos hcount
  obtain ⟨pa0Mv, hpa0, hmv0⟩ := channelMv_unbounded htwo hsmall (even_length_le hcount) p
  obtain ⟨pa1Mv, hpa1, hmv1⟩ := channelMv_unbounded htwo hsmall (odd_length_le hcount) p
  refine ⟨pa0Mv, pa1Mv, hmv0, hmv1, ?_⟩
  rw [AnalogSampler.updateAnalog, if_neg (Nat.not_lt.mpr htwo), hslice]
  simp only [Option.bind_eq_bind, Option.bind_some, hpa0, hpa1]
  cases addWord p s.sampleCount (BitVec.ofNat 32 count) <;> rfl

/-- A read stores the voltages of the exact expressions; only the sample counter can stop it. -/
theorem update_analog_exact (p : Profile) (s : AnalogSampler) (measurements : List U16) (count : ℕ)
    (hbuffer : measurements.length ≤ 2048) (hcount : count ≤ measurements.length) :
    if count < 2 then s.updateAnalog p measurements count = some s
    else
      sliceTo measurements count = some (measurements.take count) ∧
      ChannelFits (stepByTwo (measurements.take count)) count ∧
      ChannelFits (stepByTwo ((measurements.take count).drop 1)) count ∧
      ∃ pa0Mv pa1Mv : U32,
        pa0Mv.toNat = unboundedMv (stepByTwo (measurements.take count)) count ∧
        pa1Mv.toNat = unboundedMv (stepByTwo ((measurements.take count).drop 1)) count ∧
        s.updateAnalog p measurements count =
          (addWord p s.sampleCount (BitVec.ofNat 32 count)).map fun sampleCount =>
            ⟨pa0Mv, pa1Mv, sampleCount⟩ := by
  split
  · rename_i hshort
    rw [AnalogSampler.updateAnalog, if_pos hshort]
  · rename_i hlong
    have htwo : 2 ≤ count := Nat.not_lt.mp hlong
    have hsmall : count ≤ 2048 := hcount.trans hbuffer
    have hslice : sliceTo measurements count = some (measurements.take count) := if_pos hcount
    exact ⟨hslice, channel_fits htwo hsmall (even_length_le hcount),
      channel_fits htwo hsmall (odd_length_le hcount), exists_updateAnalog p s hbuffer hcount htwo⟩

/-- The shortest odd read, of three full-scale words. -/
theorem update_analog_exact_three :
    AnalogSampler.new.updateAnalog .dev [65535, 65535, 65535] 3 = some ⟨105624, 52812, 3⟩ ∧
      unboundedMv [65535, 65535] 3 = 105624 := by
  obtain ⟨-, -, -, pa0Mv, pa1Mv, hmv0, hmv1, hupdate⟩ :=
    update_analog_exact .dev AnalogSampler.new [65535, 65535, 65535] 3 (by decide) (by decide)
  have hpa0 : pa0Mv = 105624 := BitVec.eq_of_toNat_eq (hmv0.trans (by decide))
  have hpa1 : pa1Mv = 52812 := BitVec.eq_of_toNat_eq (hmv1.trans (by decide))
  rw [hupdate, hpa0, hpa1]
  exact ⟨by decide, by decide⟩

end EmbeddedDaq.ReadArithmetic

import EmbeddedDaq.SharedPacket
import Mathlib.Algebra.Order.Ring.Int

set_option autoImplicit false

namespace EmbeddedDaq.SharedCalibration
open FirmwareWords SharedPacket

abbrev I16 := BitVec 16

/-- Signed `-a`: the least value has no negation. -/
def negWord {w : ℕ} (p : Profile) (a : BitVec w) : Option (BitVec w) :=
  if a = BitVec.intMin w then
    match p with
    | .dev => none
    | .release => some (-a)
  else some (-a)

/-- Signed `saturating_add`. -/
def saturatingAdd {w : ℕ} (a b : BitVec w) : BitVec w :=
  BitVec.ofInt w (max (-2 ^ (w - 1)) (min (a.toInt + b.toInt) (2 ^ (w - 1) - 1)))

/-- Signed `.max(0)`. -/
def maxZero {w : ℕ} (a : BitVec w) : BitVec w := if a.slt 0 then 0 else a

structure AdcCalibration where
  vrefMv : U16
  offsetCh0 : I16
  offsetCh1 : I16
  gainCh0 : U16
  gainCh1 : U16
  deriving DecidableEq, Repr

namespace AdcCalibration

def default : AdcCalibration := ⟨3300, 0, 0, 4095, 4095⟩

/-- The pair the `match` selects; the pulse channel has none and returns early. -/
def offsetGain (cal : AdcCalibration) : ChannelId → Option (I16 × U16)
  | .analog0 => some (cal.offsetCh0, cal.gainCh0)
  | .analog1 => some (cal.offsetCh1, cal.gainCh1)
  | .pwmIn => none

def countsToMv (p : Profile) (cal : AdcCalibration) (counts : U32) (channel : ChannelId) :
    Option U32 :=
  match cal.offsetGain channel with
  | none => some 0
  | some (offset, gain) => do
    let negated ← negWord p (offset.signExtend 32)
    let adjusted := maxZero (saturatingAdd counts negated)
    let scaled ← mulWord p adjusted (cal.vrefMv.setWidth 32)
    divWord scaled (gain.setWidth 32)

end AdcCalibration

section
variable {w : ℕ}

theorem negWord_of_ne (p : Profile) {a : BitVec w} (h : a ≠ BitVec.intMin w) :
    negWord p a = some (-a) := if_neg h

theorem toInt_saturatingAdd {a b : BitVec w} (hw : 0 < w) (hlow : -2 ^ (w - 1) ≤ a.toInt + b.toInt)
    (hhigh : a.toInt + b.toInt < 2 ^ (w - 1)) : (saturatingAdd a b).toInt = a.toInt + b.toInt := by
  have hmin : min (a.toInt + b.toInt) (2 ^ (w - 1) - 1) = a.toInt + b.toInt :=
    min_eq_left (Int.le_sub_one_of_lt hhigh)
  rw [saturatingAdd, hmin, max_eq_right hlow]
  exact BitVec.toInt_ofInt_eq_self hw hlow hhigh

theorem toInt_maxZero (a : BitVec w) : (maxZero a).toInt = max 0 a.toInt := by
  unfold maxZero
  by_cases h : a.slt 0 = true
  · have hneg : a.toInt < 0 := by
      rw [BitVec.slt_iff_toInt_lt] at h
      simpa using h
    rw [if_pos h, max_eq_left hneg.le]
    exact BitVec.toInt_zero
  · have hpos : 0 ≤ a.toInt := by
      rw [BitVec.slt_iff_toInt_lt] at h
      simpa using h
    rw [if_neg h, max_eq_right hpos]

end

end EmbeddedDaq.SharedCalibration

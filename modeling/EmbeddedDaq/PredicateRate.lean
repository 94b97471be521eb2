import EmbeddedDaq.InjectionRate
import EmbeddedDaq.FaultI2c
import EmbeddedDaq.FaultCan
import EmbeddedDaq.FaultOneWire

set_option autoImplicit false

namespace EmbeddedDaq.PredicateRate
open FirmwareWords SharedFault FaultLfsr FaultInjectors LfsrPeriod InjectionRate

def predicateCount (predicate : Injector → Bool) (inj : Injector) : ℕ :=
  trueResults (fun inj => (predicate inj, inj)) 65535 inj

def drawCount (inj : Injector) (l : Lfsr) : ℕ :=
  trueResults (shouldInject · inj.config.probabilityPermille) 65535 l

/-- A reachable armed state in which the fault of this type is up to chance. -/
structure Gated {C : Type} (call : Injector → C → Option Injector) (new : Injector)
    (faultType : FaultType) (inj : Injector) : Prop where
  reachable : Reachable call new inj
  armed : inj.armed = true
  matching : inj.config.faultType = faultType
  permille_pos : 1 ≤ inj.config.probabilityPermille.toNat
  permille_le : inj.config.probabilityPermille.toNat ≤ 999

theorem fresh_draw {permille : U16} (hpos : 1 ≤ permille.toNat) :
    (shouldInject (Lfsr.new 0) permille).1 = true := by
  rcases Nat.lt_or_ge permille.toNat 1000 with hlt | hge
  · rw [shouldInject_draw hpos hlt]
    have hstate : step (Lfsr.new 0).state &&& 0x03FF = 0 := by decide
    refine decide_eq_true ?_
    rw [Below, hstate, BitVec.lt_def]
    exact hpos
  · rw [shouldInject_always hge]

section
variable {C : Type} {call : Injector → C → Option Injector} {new inj : Injector}
  {faultType : FaultType}

theorem freshDraw_true (h : Gated call new faultType inj) : inj.freshDraw faultType = true := by
  rw [Injector.freshDraw, h.armed, h.matching, fresh_draw h.permille_pos]
  simp

theorem predicateCount_eq (h : Gated call new faultType inj) :
    predicateCount (Injector.freshDraw · faultType) inj = 65535 := by
  refine trueResults_const ?_ 65535
  simp only [freshDraw_true h]

theorem drawCount_eq (h : Gated call new faultType inj) (seed : U16) (earlier : ℕ) :
    drawCount inj (drawn earlier (Lfsr.new seed)) =
      64 * inj.config.probabilityPermille.toNat - 1 :=
  trueResults_period h.permille_pos (Nat.lt_succ_of_le h.permille_le)
    (drawn_new_ne_zero earlier seed)

theorem counts_ne (h : Gated call new faultType inj) (seed : U16) (earlier : ℕ) :
    predicateCount (Injector.freshDraw · faultType) inj ≠
      drawCount inj (drawn earlier (Lfsr.new seed)) := by
  have hle := h.permille_le
  rw [predicateCount_eq h, drawCount_eq h]
  omega

end

/-- None of the predicates is as frequent as draws from any one generator. -/
theorem predicates_off_rate (p : Profile) (inj : Injector) (seed : U16) (earlier : ℕ) :
    (Gated (FaultI2c.call p) FaultI2c.new .nackInjection inj →
        predicateCount FaultI2c.shouldNack inj ≠
          drawCount inj (drawn earlier (Lfsr.new seed))) ∧
      (Gated (FaultCan.call p) FaultCan.new .clockGlitch inj →
        predicateCount FaultCan.injectStuffError inj ≠
          drawCount inj (drawn earlier (Lfsr.new seed))) ∧
      (Gated (FaultCan.call p) FaultCan.new .frameCorrupt inj →
        predicateCount FaultCan.injectFormError inj ≠
          drawCount inj (drawn earlier (Lfsr.new seed))) ∧
      (Gated (FaultOneWire.call p) FaultOneWire.new .timeout inj →
        predicateCount FaultOneWire.suppressPresence inj ≠
          drawCount inj (drawn earlier (Lfsr.new seed))) ∧
      (Gated (FaultOneWire.call p) FaultOneWire.new .clockGlitch inj →
        predicateCount FaultOneWire.glitchResetPulse inj ≠
          drawCount inj (drawn earlier (Lfsr.new seed))) :=
  ⟨fun h => counts_ne h seed earlier, fun h => counts_ne h seed earlier,
    fun h => counts_ne h seed earlier, fun h => counts_ne h seed earlier,
    fun h => counts_ne h seed earlier⟩

def nackHalf : Injector :=
  (FaultI2c.new.configure
    { FaultConfig.new .i2c .nackInjection with probabilityPermille := 500 }).arm

theorem nackHalf_gated (p : Profile) :
    Gated (FaultI2c.call p) FaultI2c.new .nackInjection nackHalf where
  reachable := .call (c := .arm) (.call (c := .configure _) .new rfl) rfl
  armed := rfl
  matching := rfl
  permille_pos := by decide
  permille_le := by decide

theorem predicates_off_rate_nack :
    predicateCount FaultI2c.shouldNack nackHalf ≠ drawCount nackHalf (drawn 0 (Lfsr.new 0xCAFE)) :=
  (predicates_off_rate .release nackHalf 0xCAFE 0).1 (nackHalf_gated .release)

/-- All 65535 calls answer true, where the injector's own generator draws true 31999 times. -/
theorem nackHalf_counts :
    Gated (FaultI2c.call .release) FaultI2c.new .nackInjection nackHalf ∧
      predicateCount FaultI2c.shouldNack nackHalf = 65535 ∧
      drawCount nackHalf (drawn 0 nackHalf.lfsr) = 31999 :=
  ⟨nackHalf_gated .release, predicateCount_eq (nackHalf_gated .release),
    drawCount_eq (nackHalf_gated .release) 0xCAFE 0⟩

end EmbeddedDaq.PredicateRate

import EmbeddedDaq.FaultEvents

set_option autoImplicit false

namespace EmbeddedDaq.FaultTransparency
open FirmwareWords SharedFault FaultLfsr FaultInjectors FaultEvents GeneralRuns
open FaultUartInjector (UartInjector UartBus)
open FaultSpi (SpiBus levelByte)
open FaultI2c (I2cBus)
open FaultCan (CanBus)
open FaultOneWire (OneWireBus)

def Quiet (inj : Injector) : Prop :=
  inj.armed = false ∨ inj.config.probabilityPermille = 0

inductive Answer (B : Type) where
  | value {w : ℕ} (given returned : BitVec w)
  | predicate (holds : Bool)
  | fired (before after : B)
  | nothing

def Answer.Plain {B : Type} : Answer B → Prop
  | .value given returned => returned = given
  | .predicate holds => holds = false
  | .fired before after => after = before
  | .nothing => True

/-- Any calls from this state return it as it was, and show nothing. -/
def Transparent {S B C : Type} (probe : S → C → Option (S × List (Answer B))) (inj : S) : Prop :=
  ∀ calls, ∃ answers, run probe inj calls = some (inj, answers) ∧ ∀ a ∈ answers, a.Plain

section
variable {S B C : Type} {probe : S → C → Option (S × List (Answer B))} {inj : S}

theorem transparent_of_calls
    (h : ∀ c, ∃ a : Answer B, probe inj c = some (inj, [a]) ∧ a.Plain) : Transparent probe inj := by
  apply run_still
  intro c
  obtain ⟨a, hprobe, hplain⟩ := h c
  refine ⟨[a], hprobe, ?_⟩
  intro e he
  exact List.mem_singleton.mp he ▸ hplain

theorem Transparent.call (h : Transparent probe inj) (c : C) :
    ∃ answers, probe inj c = some (inj, answers) ∧ ∀ a ∈ answers, a.Plain := by
  obtain ⟨answers, hrun, hplain⟩ := h [c]
  exact ⟨answers, run_singleton_eq_some.mp hrun, hplain⟩

end

inductive SpiProbe where
  | injectMosi (byte : U8)
  | injectMiso (byte : U8)
  | fire (bus : SpiBus)

def spiProbe (p : Profile) (inj : Injector) :
    SpiProbe → Option (Injector × List (Answer SpiBus))
  | .injectMosi byte => (FaultSpi.injectMosi p inj byte).map fun r => (r.2, [.value byte r.1])
  | .injectMiso byte => (FaultSpi.injectMiso p inj byte).map fun r => (r.2, [.value byte r.1])
  | .fire bus => (FaultSpi.fire p inj bus).map fun r => (r.2.1, [.fired bus r.2.2])

inductive I2cProbe where
  | injectAddress (addr : U8)
  | injectData (byte : U8)
  | shouldNack
  | shouldLockBus
  | injectBusLockup
  | fire (bus : I2cBus)

def i2cProbe (p : Profile) (inj : Injector) :
    I2cProbe → Option (Injector × List (Answer I2cBus))
  | .injectAddress addr => (FaultI2c.injectAddress p inj addr).map fun r => (r.2, [.value addr r.1])
  | .injectData byte => (FaultI2c.injectData p inj byte).map fun r => (r.2, [.value byte r.1])
  | .shouldNack => some (inj, [.predicate (FaultI2c.shouldNack inj)])
  | .shouldLockBus => some (inj, [.predicate (FaultI2c.shouldLockBus inj)])
  | .injectBusLockup => some (inj, [.nothing])
  | .fire bus => (FaultI2c.fire p inj).map fun r => (r.2, [.fired bus bus])

inductive UartProbe where
  | injectTx (byte : U8)
  | injectRx (byte : U8)
  | injectOverrun
  | fire (bus : UartBus)

def uartProbe (p : Profile) (inj : UartInjector) :
    UartProbe → Option (UartInjector × List (Answer UartBus))
  | .injectTx byte => (FaultUartInjector.injectTx p inj byte).map fun r =>
    (r.2, [.value byte r.1])
  | .injectRx byte => (FaultUartInjector.injectRx p inj byte).map fun r =>
    (r.2, [.value byte r.1])
  | .injectOverrun => (FaultUartInjector.injectOverrun p inj).map fun r => (r.2, [.predicate r.1])
  | .fire bus => (FaultUartInjector.fire p inj bus).map fun r => (r.2.1, [.fired bus r.2.2])

inductive CanProbe where
  | injectId (id : U32)
  | injectData (byte : U8) (index : ℕ)
  | injectStuffError
  | injectFormError
  | fire (bus : CanBus)

def canProbe (p : Profile) (inj : Injector) :
    CanProbe → Option (Injector × List (Answer CanBus))
  | .injectId id => (FaultCan.injectId p inj id).map fun r => (r.2, [.value id r.1])
  | .injectData byte index => (FaultCan.injectData p inj byte index).map fun r =>
    (r.2, [.value byte r.1])
  | .injectStuffError => some (inj, [.predicate (FaultCan.injectStuffError inj)])
  | .injectFormError => some (inj, [.predicate (FaultCan.injectFormError inj)])
  | .fire bus => (FaultCan.fire p inj bus).map fun r => (r.2.1, [.fired bus r.2.2])

inductive OneWireProbe where
  | injectData (byte : U8) (index : ℕ)
  | injectRomCommand (cmd : U8)
  | suppressPresence
  | glitchResetPulse
  | injectTimingViolation
  | fire (bus : OneWireBus)

def oneWireProbe (p : Profile) (inj : Injector) :
    OneWireProbe → Option (Injector × List (Answer OneWireBus))
  | .injectData byte index => (FaultOneWire.injectData p inj byte index).map fun r =>
    (r.2, [.value byte r.1])
  | .injectRomCommand cmd => (FaultOneWire.injectRomCommand p inj cmd).map fun r =>
    (r.2, [.value cmd r.1])
  | .suppressPresence => some (inj, [.predicate (FaultOneWire.suppressPresence inj)])
  | .glitchResetPulse => some (inj, [.predicate (FaultOneWire.glitchResetPulse inj)])
  | .injectTimingViolation => some (inj, [.nothing])
  | .fire bus => some ((FaultOneWire.fire inj).2, [.fired bus bus])

theorem inject_quiet {w : ℕ} {inj : Injector} (h : Quiet inj) (p : Profile) (value : BitVec w)
    (fault : FaultConfig → Lfsr → BitVec w × Lfsr) :
    inj.inject p value fault = some (value, inj) := by
  have hspoil : inj.spoil value fault = (value, inj.lfsr) := by
    rcases h with harmed | hpermille
    · exact Injector.spoil_disarmed harmed
    · exact Injector.spoil_never hpermille
  have hroom : inj.Roomy p (differs (inj.spoil value fault).1 value) := by
    rw [hspoil, differs_self]
    exact .inr inj.count.isLt
  rw [Injector.inject_of_roomy hroom, hspoil, differs_self, Injector.after_zero]

theorem freshDraw_quiet {inj : Injector} (h : Quiet inj) (faultType : FaultType) :
    inj.freshDraw faultType = false := by
  unfold Injector.freshDraw
  rcases h with harmed | hpermille
  · simp [harmed]
  · simp [shouldInject, hpermille]

theorem map_inject_quiet {w : ℕ} {S B : Type} {inj : Injector} (h : Quiet inj) (p : Profile)
    (value : BitVec w) (fault : FaultConfig → Lfsr → BitVec w × Lfsr) (put : Injector → S) :
    ∃ a : Answer B, ((inj.inject p value fault).map fun r => (put r.2, [.value value r.1])) =
      some (put inj, [a]) ∧ a.Plain :=
  ⟨.value value value, by rw [inject_quiet h p value fault]; rfl, rfl⟩

theorem observedFire_still {S B I : Type} (armed : Bool)
    {item : Profile → S × B → I → Option ((S × B) × List Event)} {p : Profile} {inj : S} {bus : B}
    (h : ∀ i, ∃ es, item p (inj, bus) i = some ((inj, bus), es)) (items : List I) :
    ∃ r, (observedFire armed item items p inj bus).map (outcome armed) = some (r, inj, bus) := by
  unfold observedFire
  cases armed with
  | false => exact ⟨_, rfl⟩
  | true =>
    obtain ⟨es, hrun, -⟩ := run_still (Q := fun _ => True)
      (fun i => (h i).imp fun es hes => ⟨hes, fun _ _ => trivial⟩) items
    refine ⟨.ok .fired, ?_⟩
    simp only [Bool.not_true, Bool.false_eq_true, ↓reduceIte, hrun, Option.map_some]
    rfl

theorem map_fire_still {S B : Type} {r : Except Unit FaultResult} {inj : S} {bus : B}
    {fired : Option (Except Unit FaultResult × S × B)} (h : fired = some (r, inj, bus)) :
    ∃ a : Answer B, (fired.map fun r => (r.2.1, [.fired bus r.2.2])) = some (inj, [a]) ∧
      a.Plain :=
  ⟨.fired bus bus, by rw [h]; rfl, rfl⟩

theorem spi_transparent (p : Profile) {inj : Injector} (h : Quiet inj) :
    Transparent (spiProbe p) inj := by
  apply transparent_of_calls
  intro c
  cases c with
  | injectMosi byte => exact map_inject_quiet h p byte _ id
  | injectMiso byte => exact map_inject_quiet h p byte _ id
  | fire bus =>
    have hitem : ∀ i, ∃ es, spiItem p (inj, bus) i = some ((inj, bus), es) := by
      intro i
      cases i with
      | mosi => exact ⟨_, congrArg (Option.map _) (inject_quiet h p (levelByte bus.mosi) _)⟩
      | miso => exact ⟨_, congrArg (Option.map _) (inject_quiet h p (levelByte bus.miso) _)⟩
    obtain ⟨r, hr⟩ := observedFire_still inj.armed hitem spiItems
    exact map_fire_still ((spi_fire_eq p inj bus).trans hr)

theorem uart_inject_quiet {inj : UartInjector} (h : Quiet inj.toInjector) (p : Profile) (byte : U8)
    (fault : FaultConfig → Lfsr → U8 × Lfsr) : inj.inject p byte fault = some (byte, inj) := by
  unfold UartInjector.inject
  rw [inject_quiet h p byte fault]
  rfl

theorem uart_overrun_quiet {inj : UartInjector} (h : Quiet inj.toInjector) (p : Profile) :
    FaultUartInjector.injectOverrun p inj = some (false, inj) := by
  unfold FaultUartInjector.injectOverrun
  rcases h with harmed | hpermille
  · simp [harmed]
  · simp [shouldInject, hpermille]

theorem uart_transparent (p : Profile) {inj : UartInjector} (h : Quiet inj.toInjector) :
    Transparent (uartProbe p) inj := by
  apply transparent_of_calls
  intro c
  cases c with
  | injectTx byte =>
    exact ⟨.value byte byte, congrArg (Option.map _) (uart_inject_quiet h p byte _), rfl⟩
  | injectRx byte =>
    exact ⟨.value byte byte, congrArg (Option.map _) (uart_inject_quiet h p byte _), rfl⟩
  | injectOverrun => exact ⟨.predicate false, congrArg (Option.map _) (uart_overrun_quiet h p), rfl⟩
  | fire bus =>
    have hitem : ∀ i, ∃ es, uartItem p (inj, bus) i = some ((inj, bus), es) := by
      intro i
      cases i with
      | tx => exact ⟨_, congrArg (Option.map _) (uart_inject_quiet h p bus.tx _)⟩
      | overrun =>
        unfold uartItem
        by_cases hoverrun : inj.config.faultType = .overrun
        · simp only [hoverrun, ↓reduceIte, uart_overrun_quiet h p]
          exact ⟨_, rfl⟩
        · simp only [hoverrun, ↓reduceIte]
          exact ⟨_, rfl⟩
    obtain ⟨r, hr⟩ := observedFire_still inj.armed hitem uartItems
    exact map_fire_still ((uart_fire_eq p inj bus).trans hr)

theorem can_transparent (p : Profile) {inj : Injector} (h : Quiet inj) :
    Transparent (canProbe p) inj := by
  apply transparent_of_calls
  intro c
  cases c with
  | injectId id => exact map_inject_quiet h p id _ fun inj => inj
  | injectData byte index => exact map_inject_quiet h p byte _ fun inj => inj
  | injectStuffError => exact ⟨_, rfl, freshDraw_quiet h .clockGlitch⟩
  | injectFormError => exact ⟨_, rfl, freshDraw_quiet h .frameCorrupt⟩
  | fire bus =>
    have hitem : ∀ i, ∃ es, canItem p (inj, bus) i = some ((inj, bus), es) := by
      intro i
      cases i with
      | id => exact ⟨_, congrArg (Option.map _) (inject_quiet h p bus.id _)⟩
      | byte i =>
        have hsame : bus.putByte i (bus.data.get i) = bus :=
          congrArg (fun data => { bus with data := data }) (Vector.set_getElem_self i.isLt)
        have hitem : canItem p (inj, bus) (.byte i) =
            some ((inj, bus.putByte i (bus.data.get i)),
              injected (bus.data.get i) (bus.data.get i)) :=
          congrArg (Option.map _) (inject_quiet h p (bus.data.get i) _)
        rw [hsame] at hitem
        exact ⟨_, hitem⟩
    obtain ⟨r, hr⟩ := observedFire_still inj.armed hitem canItems
    exact map_fire_still ((can_fire_eq p inj bus).trans hr)

theorem oneWire_transparent (p : Profile) {inj : Injector} (h : Quiet inj) :
    Transparent (oneWireProbe p) inj := by
  apply transparent_of_calls
  intro c
  cases c with
  | injectData byte index => exact map_inject_quiet h p byte _ id
  | injectRomCommand cmd => exact map_inject_quiet h p cmd _ id
  | suppressPresence => exact ⟨_, rfl, freshDraw_quiet h .timeout⟩
  | glitchResetPulse => exact ⟨_, rfl, freshDraw_quiet h .clockGlitch⟩
  | injectTimingViolation => exact ⟨_, rfl, trivial⟩
  | fire bus =>
    refine ⟨.fired bus bus, ?_, rfl⟩
    unfold oneWireProbe
    rw [FaultOneWire.fire_state]

/-- Armed for one of the two faults that the I2C injector lets happen at any probability. -/
def Ungated (inj : Injector) : Prop :=
  inj.armed = true ∧
    (inj.config.faultType = .busLockup ∨ inj.config.faultType = .nackInjection)

theorem i2c_transparent (p : Profile) {inj : Injector} (h : Quiet inj) (hgated : ¬Ungated inj) :
    Transparent (i2cProbe p) inj := by
  apply transparent_of_calls
  intro c
  cases c with
  | injectAddress addr => exact map_inject_quiet h p addr _ id
  | injectData byte => exact map_inject_quiet h p byte _ id
  | shouldNack => exact ⟨_, rfl, freshDraw_quiet h .nackInjection⟩
  | shouldLockBus =>
    refine ⟨_, rfl, ?_⟩
    change (inj.armed && decide (inj.config.faultType = .busLockup)) = false
    by_contra hlock
    rw [Bool.not_eq_false, Bool.and_eq_true, decide_eq_true_iff] at hlock
    exact hgated ⟨hlock.1, .inl hlock.2⟩
  | injectBusLockup => exact ⟨_, rfl, trivial⟩
  | fire bus =>
    have hfire : ∃ r, FaultI2c.fire p inj = some (r, inj) := by
      cases harmed : inj.armed with
      | false => exact ⟨_, FaultI2c.fire_disarmed harmed⟩
      | true =>
        have hother : inj.config.faultType ≠ .nackInjection :=
          fun hnack => hgated ⟨harmed, .inr hnack⟩
        exact ⟨_, FaultI2c.fire_other harmed hother⟩
    obtain ⟨r, hr⟩ := hfire
    exact ⟨.fired bus bus, congrArg (Option.map _) hr, rfl⟩

theorem i2c_not_transparent (p : Profile) {inj : Injector} (h : Ungated inj) :
    ¬Transparent (i2cProbe p) inj := by
  intro ht
  obtain ⟨harmed, hlock | hnack⟩ := h
  · obtain ⟨answers, hprobe, hplain⟩ := ht.call .shouldLockBus
    obtain ⟨-, rfl⟩ := Prod.mk.inj (Option.some.inj hprobe)
    have hfalse := hplain _ List.mem_cons_self
    unfold Answer.Plain FaultI2c.shouldLockBus at hfalse
    simp [harmed, hlock] at hfalse
  · obtain ⟨answers, hprobe, -⟩ := ht.call (.fire ⟨true, true⟩)
    obtain ⟨⟨r, fired⟩, hfire, heq⟩ := Option.map_eq_some_iff.mp hprobe
    have hstill : fired = inj := (Prod.mk.inj heq).1
    rw [FaultI2c.fire_nack harmed hnack] at hfire
    obtain ⟨counted, hcount, heq⟩ := Option.map_eq_some_iff.mp hfire
    have hcounted : counted = fired := (Prod.mk.inj heq).2
    have hsame := congrArg Injector.count (Injector.countUp_eq_some hcount)
    rw [Injector.after_count, hcounted, hstill] at hsame
    have hnat := congrArg BitVec.toNat hsame
    simp only [BitVec.toNat_add, BitVec.toNat_ofNat] at hnat
    omega

/-- Quiet injectors are transparent, but for I2C armed with a lockup or with nacks. -/
theorem quiet_transparent_iff (p : Profile) :
    (∀ inj, Quiet inj → Transparent (spiProbe p) inj) ∧
      (∀ inj, Quiet inj → (Transparent (i2cProbe p) inj ↔ ¬Ungated inj)) ∧
      (∀ inj : UartInjector, Quiet inj.toInjector → Transparent (uartProbe p) inj) ∧
      (∀ inj, Quiet inj → Transparent (canProbe p) inj) ∧
      (∀ inj, Quiet inj → Transparent (oneWireProbe p) inj) := by
  refine ⟨fun _ h => spi_transparent p h, ?_, fun _ h => uart_transparent p h,
    fun _ h => can_transparent p h, fun _ h => oneWire_transparent p h⟩
  intro inj h
  constructor
  · intro ht hungated
    exact i2c_not_transparent p hungated ht
  · exact i2c_transparent p h

def never (inj : Injector) : Injector :=
  (inj.configure { inj.config with probabilityPermille := 0 }).arm

def nackNever : Injector :=
  (FaultI2c.new.configure
    { FaultConfig.new .i2c .nackInjection with probabilityPermille := 0 }).arm

theorem quiet_transparent_iff_never :
    Transparent (spiProbe .dev) (never FaultSpi.new) ∧
      (Transparent (i2cProbe .dev) nackNever ↔ ¬Ungated nackNever) ∧
      Transparent (uartProbe .dev) ⟨never FaultUartInjector.new.toInjector, false⟩ ∧
      Transparent (canProbe .dev) (never FaultCan.new) ∧
      Transparent (oneWireProbe .dev) (never FaultOneWire.new) := by
  obtain ⟨hspi, hi2c, huart, hcan, honeWire⟩ := quiet_transparent_iff .dev
  exact ⟨hspi _ (.inr rfl), hi2c nackNever (.inr rfl), huart ⟨_, false⟩ (.inr rfl),
    hcan _ (.inr rfl), honeWire _ (.inr rfl)⟩

theorem nackNever_not_transparent :
    Reachable (FaultI2c.call .dev) FaultI2c.new nackNever ∧ Quiet nackNever ∧
      ¬Transparent (i2cProbe .dev) nackNever :=
  ⟨.call (c := .arm) (.call (c := .configure _) .new rfl) rfl, .inr rfl,
    i2c_not_transparent .dev ⟨rfl, .inr rfl⟩⟩

end EmbeddedDaq.FaultTransparency

import EmbeddedDaq.FaultEffects

set_option autoImplicit false

namespace EmbeddedDaq.FaultTrait
open FirmwareWords SharedFault FaultLfsr FaultInjectors FaultEvents FaultEffects
open FaultUartInjector (UartInjector UartBus)
open FaultSpi (SpiBus)
open FaultI2c (I2cBus)
open FaultCan (CanBus)
open FaultOneWire (OneWireBus)

/-- The methods that are the same code in four injectors. -/
def common {B : Type}
    (fire : Profile → Injector → B → Option (Except Unit FaultResult × Injector × B)) :
    FaultInjector Injector B where
  configure inj config := (.ok (), inj.configure config)
  arm inj := (.ok (), inj.arm)
  disarm inj := (.ok (), inj.disarm)
  fire := fire
  isArmed inj := inj.armed
  injectedCount inj := inj.count
  resetStats inj := inj.resetStats

def spi : FaultInjector Injector SpiBus := common FaultSpi.fire

def i2c : FaultInjector Injector I2cBus :=
  common fun p inj bus => (FaultI2c.fire p inj).map fun r => (r.1, r.2, bus)

def uart : FaultInjector UartInjector UartBus where
  configure inj config := (.ok (), inj.configure config)
  arm inj := (.ok (), inj.arm)
  disarm inj := (.ok (), inj.disarm)
  fire := FaultUartInjector.fire
  isArmed inj := inj.armed
  injectedCount inj := inj.count
  resetStats inj := inj.resetStats

def can : FaultInjector Injector CanBus := common FaultCan.fire

def oneWire : FaultInjector Injector OneWireBus :=
  common fun _ inj bus => some ((FaultOneWire.fire inj).1, (FaultOneWire.fire inj).2, bus)

inductive TraitCall (B : Type) where
  | configure (config : FaultConfig)
  | arm
  | disarm
  | fire (bus : B)
  | resetStats

section
variable {S B : Type} (impl : FaultInjector S B) (config : S → FaultConfig) (p : Profile)

def traitCall (inj : S) : TraitCall B → Option S
  | .configure config => some (impl.configure inj config).2
  | .arm => some (impl.arm inj).2
  | .disarm => some (impl.disarm inj).2
  | .fire bus => (impl.fire p inj bus).map fun r => r.2.1
  | .resetStats => some (impl.resetStats inj)

def Visited (new : S) (calls : List (TraitCall B)) (inj : S) : Prop :=
  ∃ before after, calls = before ++ after ∧ before.foldlM (traitCall impl p) new = some inj

def Along (new : S) (calls : List (TraitCall B)) (P : S → Prop) : Prop :=
  ∀ inj, Visited impl p new calls inj → P inj

/-- Armed with a bit flip that no draw can miss. -/
def Sure (inj : S) : Prop :=
  impl.isArmed inj = true ∧ (config inj).faultType = .bitFlip ∧
    1000 ≤ (config inj).probabilityPermille.toNat

structure Contract (inj : S) : Prop where
  refuses : ∀ bus, (∃ inj' bus', impl.fire p inj bus = some (.error (), inj', bus')) ↔
    impl.isArmed inj = false
  unchanged : ∀ bus inj' bus', impl.fire p inj bus = some (.error (), inj', bus') →
    inj' = inj ∧ bus' = bus
  fires : Sure impl config inj → ∀ bus, ∃ inj' bus',
    impl.fire p inj bus = some (.ok .fired, inj', bus') ∧
      impl.injectedCount inj < impl.injectedCount inj'

def CountsSurely (n : ℕ) (inj : S) : Prop :=
  Sure impl config inj → 0 < n ∧ (impl.injectedCount inj).toNat + n < 2 ^ 32

structure Guarded (inj : S) : Prop where
  disarmed : impl.isArmed inj = false →
    ∀ bus, impl.fire p inj bus = some (.error (), inj, bus)
  armed : impl.isArmed inj = true →
    ∀ bus r inj' bus', impl.fire p inj bus = some (r, inj', bus') → r = .ok .fired

/-- A sure fire counts `n` and returns if that fits. -/
structure Sized (n : ℕ) (inj : S) : Prop where
  returns : (impl.injectedCount inj).toNat + n < 2 ^ 32 →
    ∀ bus, ∃ inj' bus', impl.fire p inj bus = some (.ok .fired, inj', bus')
  counted : ∀ bus r inj' bus', impl.fire p inj bus = some (r, inj', bus') →
    impl.injectedCount inj' = impl.injectedCount inj + BitVec.ofNat 32 n

variable {impl config p}

theorem fired_iff {n : ℕ} {inj : S} (hn : n < 2 ^ 32) (hsized : Sized impl p n inj) (bus : B) :
    (∃ inj' bus', impl.fire p inj bus = some (.ok .fired, inj', bus') ∧
        impl.injectedCount inj < impl.injectedCount inj') ↔
      0 < n ∧ (impl.injectedCount inj).toNat + n < 2 ^ 32 := by
  have hsum : ∀ inj', impl.injectedCount inj' = impl.injectedCount inj + BitVec.ofNat 32 n →
      (impl.injectedCount inj').toNat = ((impl.injectedCount inj).toNat + n) % 2 ^ 32 := by
    intro inj' h
    rw [h, BitVec.toNat_add, BitVec.toNat_ofNat, Nat.mod_eq_of_lt hn]
  constructor
  · rintro ⟨inj', bus', hfire, hlt⟩
    have hcount := hsum inj' (hsized.counted bus _ inj' bus' hfire)
    rw [BitVec.lt_def, hcount] at hlt
    omega
  · rintro ⟨hpos, hroom⟩
    obtain ⟨inj', bus', hfire⟩ := hsized.returns hroom bus
    refine ⟨inj', bus', hfire, ?_⟩
    rw [BitVec.lt_def, hsum inj' (hsized.counted bus _ inj' bus' hfire)]
    omega

theorem sized_of_still {inj : S}
    (hfire : ∀ bus, impl.fire p inj bus = some (.ok .fired, inj, bus)) : Sized impl p 0 inj := by
  constructor
  · intro _ bus
    exact ⟨inj, bus, hfire bus⟩
  · intro bus r inj' bus' h
    rw [hfire] at h
    obtain ⟨-, rfl, -⟩ := h
    exact (BitVec.add_zero _).symm

theorem contract_iff {n : ℕ} {inj : S} (someBus : B) (hn : n < 2 ^ 32)
    (hguarded : Guarded impl p inj) (hsized : Sure impl config inj → Sized impl p n inj) :
    Contract impl config p inj ↔ CountsSurely impl config n inj := by
  constructor
  · intro h hsure
    exact (fired_iff hn (hsized hsure) someBus).mp (h.fires hsure someBus)
  · intro h
    refine ⟨?_, ?_, fun hsure bus => (fired_iff hn (hsized hsure) bus).mpr (h hsure)⟩
    · intro bus
      constructor
      · rintro ⟨inj', bus', hfire⟩
        cases harmed : impl.isArmed inj with
        | false => rfl
        | true => cases hguarded.armed harmed bus _ inj' bus' hfire
      · intro hdisarmed
        exact ⟨inj, bus, hguarded.disarmed hdisarmed bus⟩
    · intro bus inj' bus' hfire
      cases harmed : impl.isArmed inj with
      | false =>
        rw [hguarded.disarmed harmed bus] at hfire
        obtain ⟨-, rfl, rfl⟩ := hfire
        exact ⟨rfl, rfl⟩
      | true => cases hguarded.armed harmed bus _ inj' bus' hfire

theorem guarded_of_observed {I : Type} {item : Profile → S × B → I → Option ((S × B) × List Event)}
    {items : List I} {inj : S}
    (h : ∀ bus, impl.fire p inj bus =
      (observedFire (impl.isArmed inj) item items p inj bus).map (outcome (impl.isArmed inj))) :
    Guarded impl p inj := by
  constructor
  · intro hdisarmed bus
    rw [h, hdisarmed]
    rfl
  · intro harmed bus r inj' bus' hfire
    rw [h, harmed] at hfire
    obtain ⟨_, -, heq⟩ := Option.map_eq_some_iff.mp hfire
    exact (Prod.mk.inj heq).1.symm

end

section
variable {B I : Type} {p : Profile}
  {fire : Profile → Injector → B → Option (Except Unit FaultResult × Injector × B)}
  {item : Profile → Injector × B → I → Option ((Injector × B) × List Event)}

theorem sized_of_items {items : List I} {inj : Injector} (htallied : Tallied Prod.fst item)
    (hfire : ∀ bus, fire p inj bus =
      (observedFire inj.armed item items p inj bus).map (outcome inj.armed))
    (hone : ∀ p s i u es, Sure (common fire) Injector.config s.1 → item p s i = some (u, es) →
      faults es = 1) (hsure : Sure (common fire) Injector.config inj) :
    Sized (common fire) p items.length inj := by
  have harmed : inj.armed = true := hsure.1
  rw [harmed] at hfire
  constructor
  · intro hroom bus
    obtain ⟨u, es, hrun⟩ := htallied.run_returns (inj, bus) items (.inr hroom)
    exact ⟨u.1, u.2, (hfire bus).trans (Option.map_eq_some_iff.mpr ⟨(u, es), hrun, rfl⟩)⟩
  · intro bus r inj' bus' h
    obtain ⟨⟨u, es⟩, hrun, heq⟩ := Option.map_eq_some_iff.mp ((hfire bus).symm.trans h)
    obtain ⟨-, rfl, rfl⟩ := heq
    obtain ⟨l, hcounted⟩ := htallied.run_counted hrun
    have hfaults : faults es = items.length :=
      htallied.run_sure (Sure (common fire) Injector.config) (fun _ _ _ h => h) hone
        hsure hrun
    rw [hfaults] at hcounted
    exact congrArg Injector.count hcounted

theorem faults_sure {w : ℕ} {inj inj' : Injector} {value result : BitVec w}
    {fault : FaultConfig → Lfsr → BitVec w × Lfsr}
    (hsure : Sure (common fire) Injector.config inj)
    (hmoves : ∀ l, (fault inj.config l).1 ≠ value)
    (h : inj.inject p value fault = some (result, inj')) : faults (injected result value) = 1 := by
  have hresult := (Injector.inject_eq_some h).1
  rw [Injector.spoil_sure hsure.1 hsure.2.2] at hresult
  rw [faults_injected, hresult, differs_of_ne (hmoves inj.lfsr)]

end

theorem spi_guarded (p : Profile) (inj : Injector) : Guarded spi p inj :=
  guarded_of_observed fun bus => spi_fire_eq p inj bus

theorem spi_sized {p : Profile} {inj : Injector} (hsure : Sure spi Injector.config inj) :
    Sized spi p 2 inj := by
  apply sized_of_items spiItem_tallied (fun bus => spi_fire_eq p inj bus) ?_ hsure
  intro p s i u es hs h
  cases i with
  | mosi =>
    obtain ⟨⟨result, inj'⟩, hinject, heq⟩ := Option.map_eq_some_iff.mp h
    obtain ⟨-, rfl⟩ := Prod.mk.inj heq
    refine faults_sure hs (fun l => ?_) hinject
    simp [FaultSpi.mosiFault, hs.2.1, bitFlip_ne]
  | miso =>
    obtain ⟨⟨result, inj'⟩, hinject, heq⟩ := Option.map_eq_some_iff.mp h
    obtain ⟨-, rfl⟩ := Prod.mk.inj heq
    refine faults_sure hs (fun l => ?_) hinject
    simp [FaultSpi.misoFault, hs.2.1, bitFlip_ne]

theorem i2c_guarded (p : Profile) (inj : Injector) : Guarded i2c p inj := by
  constructor
  · intro hdisarmed bus
    exact congrArg (Option.map _) (FaultI2c.fire_disarmed hdisarmed)
  · intro harmed bus r inj' bus' hfire
    obtain ⟨⟨r, _⟩, hr, heq⟩ := Option.map_eq_some_iff.mp hfire
    rw [← (Prod.mk.inj heq).1]
    by_cases hnack : inj.config.faultType = .nackInjection
    · rw [FaultI2c.fire_nack harmed hnack] at hr
      obtain ⟨_, -, heq⟩ := Option.map_eq_some_iff.mp hr
      exact (Prod.mk.inj heq).1.symm
    · rw [FaultI2c.fire_other harmed hnack] at hr
      exact (Prod.mk.inj (Option.some.inj hr)).1.symm

theorem i2c_sized {p : Profile} {inj : Injector} (hsure : Sure i2c Injector.config inj) :
    Sized i2c p 0 inj := by
  have hother : inj.config.faultType ≠ .nackInjection := by
    rw [hsure.2.1]
    decide
  exact sized_of_still fun _ => congrArg (Option.map _) (FaultI2c.fire_other hsure.1 hother)

theorem uart_guarded (p : Profile) (inj : UartInjector) : Guarded uart p inj :=
  guarded_of_observed fun bus => uart_fire_eq p inj bus

theorem uart_sized {p : Profile} {inj : UartInjector}
    (hsure : Sure uart (fun inj => inj.config) inj) : Sized uart p 1 inj := by
  have hfault : inj.config.faultType ≠ .overrun := by
    rw [hsure.2.1]
    decide
  constructor
  · intro hroom bus
    exact uart_fire_returns ⟨hsure.1, hfault⟩ (.inr hroom) bus
  · intro bus r inj' bus' h
    obtain ⟨htx, hcount⟩ := uart_fire_eq_some hsure.1 hfault h
    have hspoil : inj.spoil bus.tx (FaultUartInjector.txFault bus.tx) =
        FaultUartInjector.txFault bus.tx inj.config inj.lfsr :=
      Injector.spoil_sure hsure.1 hsure.2.2
    have hmoved : uartMoved bus bus' = 1 := by
      unfold uartMoved
      rw [htx, hspoil]
      apply differs_of_ne
      simp [FaultUartInjector.txFault, hsure.2.1, bitFlip_ne]
    rwa [hmoved] at hcount

theorem can_guarded (p : Profile) (inj : Injector) : Guarded can p inj :=
  guarded_of_observed fun bus => can_fire_eq p inj bus

theorem idMask_ne_zero {bit : U8} (h : bit.toNat < 29) : (1 : U32) <<< bit ≠ 0 := by
  have hall : ∀ bit : U8, bit.toNat < 29 → (1 : U32) <<< bit ≠ 0 := by decide +kernel
  exact hall bit h

theorem can_sized {p : Profile} {inj : Injector} (hsure : Sure can Injector.config inj) :
    Sized can p 9 inj := by
  apply sized_of_items canItem_tallied (fun bus => can_fire_eq p inj bus) ?_ hsure
  intro p s i u es hs h
  cases i with
  | id =>
    obtain ⟨⟨result, inj'⟩, hinject, heq⟩ := Option.map_eq_some_iff.mp h
    obtain ⟨-, rfl⟩ := Prod.mk.inj heq
    refine faults_sure hs (fun l => ?_) hinject
    have hmask := idMask_ne_zero (pickBitMod_lt 29 (by decide) s.1.config l)
    simpa [FaultCan.idFault, hs.2.1] using xor_ne_self s.2.id hmask
  | byte i =>
    obtain ⟨⟨result, inj'⟩, hinject, heq⟩ := Option.map_eq_some_iff.mp h
    obtain ⟨-, rfl⟩ := Prod.mk.inj heq
    refine faults_sure hs (fun l => ?_) hinject
    simp [FaultCan.dataFault, hs.2.1, bitFlip_ne]

theorem oneWire_guarded (p : Profile) (inj : Injector) : Guarded oneWire p inj := by
  constructor
  · intro hdisarmed bus
    change some ((FaultOneWire.fire inj).1, (FaultOneWire.fire inj).2, bus) = _
    rw [FaultOneWire.fire, show inj.armed = false from hdisarmed]
    rfl
  · intro harmed bus r inj' bus' hfire
    change some ((FaultOneWire.fire inj).1, (FaultOneWire.fire inj).2, bus) = _ at hfire
    rw [FaultOneWire.fire, show inj.armed = true from harmed] at hfire
    exact (Prod.mk.inj (Option.some.inj hfire)).1.symm

theorem oneWire_sized {p : Profile} {inj : Injector}
    (hsure : Sure oneWire Injector.config inj) : Sized oneWire p 0 inj := by
  have hfire : ∀ bus, oneWire.fire p inj bus = some (.ok .fired, inj, bus) := by
    intro bus
    change some ((FaultOneWire.fire inj).1, (FaultOneWire.fire inj).2, bus) = _
    rw [FaultOneWire.fire, show inj.armed = true from hsure.1]
    rfl
  exact sized_of_still hfire

theorem along_iff {S B : Type} {impl : FaultInjector S B} {p : Profile} {P Q : S → Prop}
    (h : ∀ inj, P inj ↔ Q inj) (new : S) (calls : List (TraitCall B)) :
    Along impl p new calls P ↔ Along impl p new calls Q :=
  forall₂_congr fun inj _ => h inj

/-- A run keeps the contract exactly when none of its states is armed with a sure bit flip that
the injector does not count, or has no room left to count. -/
theorem trait_contract_iff (p : Profile) :
    (∀ calls, Along spi p FaultSpi.new calls (Contract spi Injector.config p) ↔
      Along spi p FaultSpi.new calls (CountsSurely spi Injector.config 2)) ∧
    (∀ calls, Along i2c p FaultI2c.new calls (Contract i2c Injector.config p) ↔
      Along i2c p FaultI2c.new calls (CountsSurely i2c Injector.config 0)) ∧
    (∀ calls, Along uart p FaultUartInjector.new calls
        (Contract uart (fun inj => inj.config) p) ↔
      Along uart p FaultUartInjector.new calls (CountsSurely uart (fun inj => inj.config) 1)) ∧
    (∀ calls, Along can p FaultCan.new calls (Contract can Injector.config p) ↔
      Along can p FaultCan.new calls (CountsSurely can Injector.config 9)) ∧
    (∀ calls, Along oneWire p FaultOneWire.new calls (Contract oneWire Injector.config p) ↔
      Along oneWire p FaultOneWire.new calls (CountsSurely oneWire Injector.config 0)) := by
  refine ⟨?_, ?_, ?_, ?_, ?_⟩
  · exact along_iff (fun inj => contract_iff ⟨false, false, false, false⟩ (by decide)
      (spi_guarded p inj) spi_sized) _
  · exact along_iff (fun inj => contract_iff ⟨false, false⟩ (by decide)
      (i2c_guarded p inj) i2c_sized) _
  · exact along_iff (fun inj => contract_iff ⟨0, 0⟩ (by decide)
      (uart_guarded p inj) uart_sized) _
  · exact along_iff (fun inj => contract_iff ⟨0, Vector.replicate 8 0, 0⟩ (by decide)
      (can_guarded p inj) can_sized) _
  · exact along_iff (fun inj => contract_iff ⟨false⟩ (by decide)
      (oneWire_guarded p inj) oneWire_sized) _

def armedFlip : List (TraitCall I2cBus) := [.configure (FaultConfig.new .i2c .bitFlip), .arm]

/-- An armed bit flip on I2C: `fire` answers `Fired` and counts nothing. -/
theorem i2c_flip_not_counted :
    ¬Along i2c .dev FaultI2c.new armedFlip (Contract i2c Injector.config .dev) := by
  intro h
  have hvisited : Visited i2c .dev FaultI2c.new armedFlip
      (FaultI2c.new.configure (FaultConfig.new .i2c .bitFlip)).arm := ⟨armedFlip, [], rfl, rfl⟩
  have hsure : Sure i2c Injector.config
      (FaultI2c.new.configure (FaultConfig.new .i2c .bitFlip)).arm := ⟨rfl, rfl, by decide⟩
  obtain ⟨inj', bus', hfire, hlt⟩ := (h _ hvisited).fires hsure ⟨true, true⟩
  obtain ⟨-, rfl, -⟩ := hfire
  exact absurd hlt (by decide)

end EmbeddedDaq.FaultTrait

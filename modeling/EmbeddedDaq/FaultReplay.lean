import EmbeddedDaq.FaultEvents
import EmbeddedDaq.GeneralLockstep

set_option autoImplicit false

namespace EmbeddedDaq.FaultReplay
open FirmwareWords SharedFault FaultLfsr FaultInjectors FaultEvents GeneralRuns GeneralLockstep
open FaultUartInjector (UartInjector UartBus)
open FaultSpi (SpiBus)
open FaultCan (CanBus)

/-- A change of a word bit by bit: what is kept of it, and what is flipped then. -/
structure Mask (w : ℕ) where
  keep : BitVec w
  flip : BitVec w

namespace Mask

def apply {w : ℕ} (m : Mask w) (value : BitVec w) : BitVec w := (value &&& m.keep) ^^^ m.flip

def id (w : ℕ) : Mask w := ⟨BitVec.allOnes w, 0⟩
def flipping {w : ℕ} (bits : BitVec w) : Mask w := ⟨BitVec.allOnes w, bits⟩
def clearing {w : ℕ} (bits : BitVec w) : Mask w := ⟨~~~bits, 0⟩
def setting {w : ℕ} (bits : BitVec w) : Mask w := ⟨~~~bits, bits⟩

section
variable {w : ℕ} (bits value : BitVec w)

theorem id_apply : (id w).apply value = value := by
  simp [apply, id]

theorem flipping_apply : (flipping bits).apply value = value ^^^ bits := by
  simp [apply, flipping]

theorem clearing_apply : (clearing bits).apply value = value &&& ~~~bits := by
  simp [apply, clearing]

theorem setting_apply : (setting bits).apply value = value ||| bits := by
  ext i hi
  simp only [apply, setting, BitVec.getElem_xor, BitVec.getElem_and, BitVec.getElem_not,
    BitVec.getElem_or]
  cases value[i] <;> cases bits[i] <;> rfl

end

end Mask

/-- Whatever the value, a fault spoils it with one mask and draws the same. -/
def Masked {w : ℕ} (fault : BitVec w → FaultConfig → Lfsr → BitVec w × Lfsr) : Prop :=
  ∀ config l, ∃ (m : Mask w) (l' : Lfsr), ∀ value, fault value config l = (m.apply value, l')

def bitOf (bit : U8) : U8 := (1 : U8) <<< (bit &&& 7)

theorem exists_flip (bit : U8) (l : Lfsr) :
    ∃ (m : Mask 8) (l' : Lfsr), ∀ byte, (bitFlip byte bit, l) = (m.apply byte, l') :=
  ⟨.flipping (bitOf bit), l, fun byte => by rw [Mask.flipping_apply]; rfl⟩

theorem exists_clear (bit : U8) (l : Lfsr) :
    ∃ (m : Mask 8) (l' : Lfsr), ∀ byte, (bitClear byte bit, l) = (m.apply byte, l') :=
  ⟨.clearing (bitOf bit), l, fun byte => by rw [Mask.clearing_apply]; rfl⟩

theorem exists_set (bit : U8) (l : Lfsr) :
    ∃ (m : Mask 8) (l' : Lfsr), ∀ byte, (bitSet byte bit, l) = (m.apply byte, l') :=
  ⟨.setting (bitOf bit), l, fun byte => by rw [Mask.setting_apply]; rfl⟩

theorem exists_same {w : ℕ} (l : Lfsr) :
    ∃ (m : Mask w) (l' : Lfsr), ∀ value, (value, l) = (m.apply value, l') :=
  ⟨.id w, l, fun value => by rw [Mask.id_apply]⟩

theorem mosiFault_masked : Masked FaultSpi.mosiFault := by
  intro config l
  unfold FaultSpi.mosiFault
  cases config.faultType with
  | bitFlip => exact exists_flip _ _
  | stuckAtZero => exact exists_clear _ _
  | stuckAtOne => exact exists_set _ _
  | clockGlitch => exact exists_flip _ _
  | _ => exact exists_same _

theorem misoFault_masked : Masked FaultSpi.misoFault := by
  intro config l
  unfold FaultSpi.misoFault
  cases config.faultType with
  | bitFlip => exact exists_flip _ _
  | stuckAtZero => exact exists_clear _ _
  | stuckAtOne => exact exists_set _ _
  | _ => exact exists_same _

/-- Three injectors have the code of `inject_miso` for a byte. -/
theorem i2c_dataFault_masked : Masked FaultI2c.dataFault := misoFault_masked

theorem rxFault_masked : Masked FaultUartInjector.rxFault := misoFault_masked

theorem addressFault_masked : Masked FaultI2c.addressFault := by
  intro config l
  unfold FaultI2c.addressFault
  cases config.faultType with
  | bitFlip => exact exists_flip _ _
  | stuckAtZero => exact exists_clear _ _
  | stuckAtOne => exact exists_set _ _
  | _ => exact exists_same _

theorem txFault_masked : Masked FaultUartInjector.txFault := by
  intro config l
  unfold FaultUartInjector.txFault
  cases config.faultType with
  | bitFlip => exact exists_flip _ _
  | parityError =>
    exact ⟨.flipping 0x80, (pickBit config l).2, fun byte => by rw [Mask.flipping_apply]⟩
  | frameCorrupt => exact exists_flip _ _
  | clockGlitch => exact exists_flip _ _
  | _ => exact exists_same _

theorem idFault_masked : Masked FaultCan.idFault := by
  intro config l
  unfold FaultCan.idFault
  let bit : U32 := (1 : U32) <<< (pickBitMod 29 config l).1
  cases config.faultType with
  | bitFlip =>
    exact ⟨.flipping bit, (pickBitMod 29 config l).2, fun id => by rw [Mask.flipping_apply]⟩
  | stuckAtZero =>
    exact ⟨.clearing bit, (pickBitMod 29 config l).2, fun id => by rw [Mask.clearing_apply]⟩
  | stuckAtOne =>
    exact ⟨.setting bit, (pickBitMod 29 config l).2, fun id => by rw [Mask.setting_apply]⟩
  | _ => exact exists_same _

theorem can_dataFault_masked (index : ℕ) :
    Masked fun byte => FaultCan.dataFault byte index := by
  intro config l
  unfold FaultCan.dataFault
  dsimp only
  cases config.faultType with
  | bitFlip => exact exists_flip _ _
  | crcCorrupt =>
    by_cases hindex : 4 ≤ index
    · simp only [hindex, ↓reduceIte]
      exact exists_flip _ _
    · simp only [hindex, ↓reduceIte]
      exact exists_same _
  | frameCorrupt => exact exists_flip _ _
  | _ => exact exists_same _

theorem oneWire_dataFault_masked (index : ℕ) :
    Masked fun byte => FaultOneWire.dataFault byte index := by
  intro config l
  unfold FaultOneWire.dataFault
  dsimp only
  cases config.faultType with
  | bitFlip => exact exists_flip _ _
  | stuckAtZero => exact exists_clear _ _
  | stuckAtOne => exact exists_set _ _
  | crcCorrupt =>
    by_cases hindex : 8 ≤ index
    · simp only [hindex, ↓reduceIte]
      exact exists_flip _ _
    · simp only [hindex, ↓reduceIte]
      exact exists_same _
  | _ => exact exists_same _

theorem romFault_masked : Masked FaultOneWire.romFault := by
  intro config l
  unfold FaultOneWire.romFault
  cases config.faultType with
  | bitFlip => exact exists_flip _ _
  | _ => exact exists_same _

/-- The same but for the counts. -/
structure Agree (inj inj' : Injector) : Prop where
  config : inj.config = inj'.config
  lfsr : inj.lfsr = inj'.lfsr
  armed : inj.armed = inj'.armed

theorem agree_after (inj : Injector) (l : Lfsr) (n n' : ℕ) {inj' : Injector}
    (h : Agree inj inj') : Agree (inj.after l n) (inj'.after l n') :=
  ⟨h.config, rfl, h.armed⟩

def SameMask {S : Type} {w : ℕ} (inject : Profile → S → BitVec w → Option (BitVec w × S))
    (s s' : S) : Prop :=
  ∃ m : Mask w, ∀ p value r, inject p s value = some r ∨ inject p s' value = some r →
    r.1 = m.apply value

section
variable {w : ℕ} {fault : BitVec w → FaultConfig → Lfsr → BitVec w × Lfsr} {inj inj' : Injector}

theorem spoil_masked (hmasked : Masked fault) (inj : Injector) :
    ∃ (m : Mask w) (l' : Lfsr), ∀ inj', Agree inj inj' → ∀ value,
      inj'.spoil value (fault value) = (m.apply value, l') := by
  let drawn := shouldInject inj.lfsr inj.config.probabilityPermille
  obtain ⟨m, l', hfault⟩ := hmasked inj.config drawn.2
  cases harmed : inj.armed with
  | false =>
    refine ⟨.id w, inj.lfsr, ?_⟩
    intro inj' h value
    rw [Injector.spoil_disarmed (h.armed.symm.trans harmed), Mask.id_apply, h.lfsr]
  | true =>
    cases hhit : drawn.1 with
    | false =>
      refine ⟨.id w, drawn.2, ?_⟩
      intro inj' h value
      rw [Injector.spoil_armed (h.armed.symm.trans harmed), ← h.config, ← h.lfsr]
      change (if drawn.1 = true then _ else (value, drawn.2)) = _
      rw [if_neg (Bool.eq_false_iff.mp hhit), Mask.id_apply]
    | true =>
      refine ⟨m, l', ?_⟩
      intro inj' h value
      rw [Injector.spoil_armed (h.armed.symm.trans harmed), ← h.config, ← h.lfsr]
      change (if drawn.1 = true then fault value inj.config drawn.2 else _) = _
      rw [if_pos hhit, hfault]

theorem agree_refl (inj : Injector) : Agree inj inj := ⟨rfl, rfl, rfl⟩

theorem inject_agree (hmasked : Masked fault) (h : Agree inj inj') {p p' : Profile}
    {value value' : BitVec w} {r r' : BitVec w × Injector}
    (hcall : inj.inject p value (fault value) = some r)
    (hcall' : inj'.inject p' value' (fault value') = some r') : Agree r.2 r'.2 := by
  obtain ⟨m, l, hspoil⟩ := spoil_masked hmasked inj
  obtain ⟨result, next⟩ := r
  obtain ⟨result', next'⟩ := r'
  obtain ⟨-, rfl⟩ := Injector.inject_eq_some hcall
  obtain ⟨-, rfl⟩ := Injector.inject_eq_some hcall'
  rw [hspoil inj (agree_refl inj), hspoil inj' h]
  exact agree_after inj l _ _ h

theorem inject_sameMask (hmasked : Masked fault) (h : Agree inj inj') :
    SameMask (fun p inj value => inj.inject p value (fault value)) inj inj' := by
  obtain ⟨m, l, hspoil⟩ := spoil_masked hmasked inj
  refine ⟨m, ?_⟩
  rintro p value ⟨result, next⟩ hcall
  dsimp only
  rcases hcall with hcall | hcall
  · rw [(Injector.inject_eq_some hcall).1, hspoil inj (agree_refl inj)]
  · rw [(Injector.inject_eq_some hcall).1, hspoil inj' h]

end

/-- The predicates draw from a fresh generator. -/
theorem freshDraw_agree {inj inj' : Injector} (h : Agree inj inj') (faultType : FaultType) :
    inj.freshDraw faultType = inj'.freshDraw faultType := by
  unfold Injector.freshDraw
  rw [h.config, h.armed]

theorem fire_agree {S B I : Type} {R : S × B → S × B → Prop} {armed armed' : Bool}
    {item : Profile → S × B → I → Option ((S × B) × List Event)} {items : List I}
    {p p' : Profile} {s s' : S} {bus bus' : B} {r r' : (S × B) × List Event}
    (hitem : ∀ s s' i u u' es es', R s s' → item p s i = some (u, es) →
      item p' s' i = some (u', es') → R u u')
    (harmed : armed = armed') (hs : R (s, bus) (s', bus'))
    (hfire : observedFire armed item items p s bus = some r)
    (hfire' : observedFire armed' item items p' s' bus' = some r') : R r.1 r'.1 := by
  subst harmed
  unfold observedFire at hfire hfire'
  cases armed with
  | false =>
    obtain rfl := Option.some.inj hfire
    obtain rfl := Option.some.inj hfire'
    exact hs
  | true => exact run_related hitem hs hfire hfire'

theorem agree_configure {inj inj' : Injector} (h : Agree inj inj') (config : FaultConfig) :
    Agree (inj.configure config) (inj'.configure config) := ⟨rfl, h.lfsr, h.armed⟩

theorem agree_arm {inj inj' : Injector} (h : Agree inj inj') : Agree inj.arm inj'.arm :=
  ⟨h.config, h.lfsr, rfl⟩

theorem agree_disarm {inj inj' : Injector} (h : Agree inj inj') : Agree inj.disarm inj'.disarm :=
  ⟨h.config, h.lfsr, rfl⟩

theorem agree_resetStats {inj inj' : Injector} (h : Agree inj inj') :
    Agree inj.resetStats inj'.resetStats := ⟨h.config, h.lfsr, h.armed⟩

theorem some_agree {S : Type} {R : S → S → Prop} {s s' u u' : S} (h : R s s')
    (hcall : some s = some u) (hcall' : some s' = some u') : R u u' := by
  obtain rfl := Option.some.inj hcall
  obtain rfl := Option.some.inj hcall'
  exact h

theorem map_snd_agree {A A' S : Type} {R : S → S → Prop} {call : Option (A × S)}
    {call' : Option (A' × S)} {u u' : S}
    (h : ∀ r r', call = some r → call' = some r' → R r.2 r'.2)
    (hcall : call.map Prod.snd = some u) (hcall' : call'.map Prod.snd = some u') : R u u' := by
  obtain ⟨r, hr, rfl⟩ := Option.map_eq_some_iff.mp hcall
  obtain ⟨r', hr', rfl⟩ := Option.map_eq_some_iff.mp hcall'
  exact h r r' hr hr'

inductive SpiLike : FaultSpi.Call → FaultSpi.Call → Prop
  | fire (bus bus' : SpiBus) : SpiLike (.fire bus) (.fire bus')
  | injectMosi (byte byte' : U8) : SpiLike (.injectMosi byte) (.injectMosi byte')
  | injectMiso (byte byte' : U8) : SpiLike (.injectMiso byte) (.injectMiso byte')
  | configure (config : FaultConfig) : SpiLike (.configure config) (.configure config)
  | arm : SpiLike .arm .arm
  | disarm : SpiLike .disarm .disarm
  | resetStats : SpiLike .resetStats .resetStats

section
variable {p p' : Profile}

theorem spiItem_agree (s s' : Injector × SpiBus) (i : SpiItem) (u u' : Injector × SpiBus)
    (es es' : List Event) (h : Agree s.1 s'.1) (hitem : spiItem p s i = some (u, es))
    (hitem' : spiItem p' s' i = some (u', es')) : Agree u.1 u'.1 := by
  cases i with
  | mosi =>
    obtain ⟨r, hr, heq⟩ := Option.map_eq_some_iff.mp hitem
    obtain ⟨r', hr', heq'⟩ := Option.map_eq_some_iff.mp hitem'
    obtain ⟨rfl, -⟩ := Prod.mk.inj heq
    obtain ⟨rfl, -⟩ := Prod.mk.inj heq'
    exact inject_agree mosiFault_masked h hr hr'
  | miso =>
    obtain ⟨r, hr, heq⟩ := Option.map_eq_some_iff.mp hitem
    obtain ⟨r', hr', heq'⟩ := Option.map_eq_some_iff.mp hitem'
    obtain ⟨rfl, -⟩ := Prod.mk.inj heq
    obtain ⟨rfl, -⟩ := Prod.mk.inj heq'
    exact inject_agree misoFault_masked h hr hr'

theorem spi_fire_agree {inj inj' : Injector} (h : Agree inj inj') {bus bus' : SpiBus}
    {r r' : Except Unit FaultResult × Injector × SpiBus}
    (hfire : FaultSpi.fire p inj bus = some r) (hfire' : FaultSpi.fire p' inj' bus' = some r') :
    Agree r.2.1 r'.2.1 := by
  rw [spi_fire_eq] at hfire hfire'
  obtain ⟨q, hq, rfl⟩ := Option.map_eq_some_iff.mp hfire
  obtain ⟨q', hq', rfl⟩ := Option.map_eq_some_iff.mp hfire'
  exact fire_agree (R := fun s s' => Agree s.1 s'.1) spiItem_agree h.armed h hq hq'

theorem spi_call_agree (inj inj' : Injector) (c c' : FaultSpi.Call) (u u' : Injector)
    (h : Agree inj inj') (hlike : SpiLike c c') (hcall : FaultSpi.call p inj c = some u)
    (hcall' : FaultSpi.call p' inj' c' = some u') : Agree u u' := by
  cases hlike with
  | fire bus bus' =>
    obtain ⟨r, hr, rfl⟩ := Option.map_eq_some_iff.mp hcall
    obtain ⟨r', hr', rfl⟩ := Option.map_eq_some_iff.mp hcall'
    exact spi_fire_agree h hr hr'
  | injectMosi byte byte' =>
    exact map_snd_agree (fun r r' => inject_agree mosiFault_masked h) hcall hcall'
  | injectMiso byte byte' =>
    exact map_snd_agree (fun r r' => inject_agree misoFault_masked h) hcall hcall'
  | configure config => exact some_agree (agree_configure h config) hcall hcall'
  | arm => exact some_agree (agree_arm h) hcall hcall'
  | disarm => exact some_agree (agree_disarm h) hcall hcall'
  | resetStats => exact some_agree (agree_resetStats h) hcall hcall'

end

inductive I2cLike : FaultI2c.Call → FaultI2c.Call → Prop
  | injectAddress (addr addr' : U8) : I2cLike (.injectAddress addr) (.injectAddress addr')
  | injectData (byte byte' : U8) : I2cLike (.injectData byte) (.injectData byte')
  | fire : I2cLike .fire .fire
  | injectBusLockup : I2cLike .injectBusLockup .injectBusLockup
  | configure (config : FaultConfig) : I2cLike (.configure config) (.configure config)
  | arm : I2cLike .arm .arm
  | disarm : I2cLike .disarm .disarm
  | resetStats : I2cLike .resetStats .resetStats

section
variable {p p' : Profile} {inj inj' : Injector}

theorem countUp_agree (h : Agree inj inj') {u u' : Injector} (hcall : inj.countUp p = some u)
    (hcall' : inj'.countUp p' = some u') : Agree u u' := by
  rw [Injector.countUp_eq_some hcall, Injector.countUp_eq_some hcall', h.lfsr]
  exact agree_after inj inj'.lfsr 1 1 h

theorem i2c_fire_agree (h : Agree inj inj') {r r' : Except Unit FaultResult × Injector}
    (hfire : FaultI2c.fire p inj = some r) (hfire' : FaultI2c.fire p' inj' = some r') :
    Agree r.2 r'.2 := by
  cases harmed : inj.armed with
  | false =>
    rw [FaultI2c.fire_disarmed harmed] at hfire
    rw [FaultI2c.fire_disarmed (h.armed.symm.trans harmed)] at hfire'
    exact some_agree (R := fun r r' => Agree r.2 r'.2) h hfire hfire'
  | true =>
    have harmed' := h.armed.symm.trans harmed
    by_cases hnack : inj.config.faultType = .nackInjection
    · rw [FaultI2c.fire_nack harmed hnack] at hfire
      rw [FaultI2c.fire_nack harmed' (h.config ▸ hnack)] at hfire'
      obtain ⟨u, hu, rfl⟩ := Option.map_eq_some_iff.mp hfire
      obtain ⟨u', hu', rfl⟩ := Option.map_eq_some_iff.mp hfire'
      exact countUp_agree h hu hu'
    · rw [FaultI2c.fire_other harmed hnack] at hfire
      rw [FaultI2c.fire_other harmed' (h.config ▸ hnack)] at hfire'
      exact some_agree (R := fun r r' => Agree r.2 r'.2) h hfire hfire'

theorem i2c_call_agree (inj inj' : Injector) (c c' : FaultI2c.Call) (u u' : Injector)
    (h : Agree inj inj') (hlike : I2cLike c c') (hcall : FaultI2c.call p inj c = some u)
    (hcall' : FaultI2c.call p' inj' c' = some u') : Agree u u' := by
  cases hlike with
  | injectAddress addr addr' =>
    exact map_snd_agree (fun r r' => inject_agree addressFault_masked h) hcall hcall'
  | injectData byte byte' =>
    exact map_snd_agree (fun r r' => inject_agree i2c_dataFault_masked h) hcall hcall'
  | fire => exact map_snd_agree (fun r r' => i2c_fire_agree h) hcall hcall'
  | injectBusLockup => exact some_agree h hcall hcall'
  | configure config => exact some_agree (agree_configure h config) hcall hcall'
  | arm => exact some_agree (agree_arm h) hcall hcall'
  | disarm => exact some_agree (agree_disarm h) hcall hcall'
  | resetStats => exact some_agree (agree_resetStats h) hcall hcall'

end

inductive CanLike : FaultCan.Call → FaultCan.Call → Prop
  | fire (bus bus' : CanBus) : CanLike (.fire bus) (.fire bus')
  | injectId (id id' : U32) : CanLike (.injectId id) (.injectId id')
  | injectData (byte byte' : U8) (index : ℕ) :
    CanLike (.injectData byte index) (.injectData byte' index)
  | injectStuffError : CanLike .injectStuffError .injectStuffError
  | injectFormError : CanLike .injectFormError .injectFormError
  | configure (config : FaultConfig) : CanLike (.configure config) (.configure config)
  | arm : CanLike .arm .arm
  | disarm : CanLike .disarm .disarm
  | resetStats : CanLike .resetStats .resetStats

section
variable {p p' : Profile}

theorem canItem_agree (s s' : Injector × CanBus) (i : CanItem) (u u' : Injector × CanBus)
    (es es' : List Event) (h : Agree s.1 s'.1) (hitem : canItem p s i = some (u, es))
    (hitem' : canItem p' s' i = some (u', es')) : Agree u.1 u'.1 := by
  cases i with
  | id =>
    obtain ⟨r, hr, heq⟩ := Option.map_eq_some_iff.mp hitem
    obtain ⟨r', hr', heq'⟩ := Option.map_eq_some_iff.mp hitem'
    obtain ⟨rfl, -⟩ := Prod.mk.inj heq
    obtain ⟨rfl, -⟩ := Prod.mk.inj heq'
    exact inject_agree idFault_masked h hr hr'
  | byte i =>
    obtain ⟨r, hr, heq⟩ := Option.map_eq_some_iff.mp hitem
    obtain ⟨r', hr', heq'⟩ := Option.map_eq_some_iff.mp hitem'
    obtain ⟨rfl, -⟩ := Prod.mk.inj heq
    obtain ⟨rfl, -⟩ := Prod.mk.inj heq'
    exact inject_agree (can_dataFault_masked i) h hr hr'

theorem can_fire_agree {inj inj' : Injector} (h : Agree inj inj') {bus bus' : CanBus}
    {r r' : Except Unit FaultResult × Injector × CanBus}
    (hfire : FaultCan.fire p inj bus = some r) (hfire' : FaultCan.fire p' inj' bus' = some r') :
    Agree r.2.1 r'.2.1 := by
  rw [can_fire_eq] at hfire hfire'
  obtain ⟨q, hq, rfl⟩ := Option.map_eq_some_iff.mp hfire
  obtain ⟨q', hq', rfl⟩ := Option.map_eq_some_iff.mp hfire'
  exact fire_agree (R := fun s s' => Agree s.1 s'.1) canItem_agree h.armed h hq hq'

theorem can_call_agree (inj inj' : Injector) (c c' : FaultCan.Call) (u u' : Injector)
    (h : Agree inj inj') (hlike : CanLike c c') (hcall : FaultCan.call p inj c = some u)
    (hcall' : FaultCan.call p' inj' c' = some u') : Agree u u' := by
  cases hlike with
  | fire bus bus' =>
    obtain ⟨r, hr, rfl⟩ := Option.map_eq_some_iff.mp hcall
    obtain ⟨r', hr', rfl⟩ := Option.map_eq_some_iff.mp hcall'
    exact can_fire_agree h hr hr'
  | injectId id id' =>
    exact map_snd_agree (fun r r' => inject_agree idFault_masked h) hcall hcall'
  | injectData byte byte' index =>
    exact map_snd_agree (fun r r' => inject_agree (can_dataFault_masked index) h) hcall hcall'
  | injectStuffError => exact some_agree h hcall hcall'
  | injectFormError => exact some_agree h hcall hcall'
  | configure config => exact some_agree (agree_configure h config) hcall hcall'
  | arm => exact some_agree (agree_arm h) hcall hcall'
  | disarm => exact some_agree (agree_disarm h) hcall hcall'
  | resetStats => exact some_agree (agree_resetStats h) hcall hcall'

end

inductive OneWireLike : FaultOneWire.Call → FaultOneWire.Call → Prop
  | injectData (byte byte' : U8) (index : ℕ) :
    OneWireLike (.injectData byte index) (.injectData byte' index)
  | injectRomCommand (cmd cmd' : U8) :
    OneWireLike (.injectRomCommand cmd) (.injectRomCommand cmd')
  | fire : OneWireLike .fire .fire
  | injectTimingViolation : OneWireLike .injectTimingViolation .injectTimingViolation
  | configure (config : FaultConfig) : OneWireLike (.configure config) (.configure config)
  | arm : OneWireLike .arm .arm
  | disarm : OneWireLike .disarm .disarm
  | resetStats : OneWireLike .resetStats .resetStats

theorem oneWire_call_agree {p p' : Profile} (inj inj' : Injector) (c c' : FaultOneWire.Call)
    (u u' : Injector) (h : Agree inj inj') (hlike : OneWireLike c c')
    (hcall : FaultOneWire.call p inj c = some u) (hcall' : FaultOneWire.call p' inj' c' = some u') :
    Agree u u' := by
  cases hlike with
  | injectData byte byte' index =>
    exact map_snd_agree (fun r r' => inject_agree (oneWire_dataFault_masked index) h) hcall hcall'
  | injectRomCommand cmd cmd' =>
    exact map_snd_agree (fun r r' => inject_agree romFault_masked h) hcall hcall'
  | fire =>
    unfold FaultOneWire.call at hcall hcall'
    rw [FaultOneWire.fire_state] at hcall hcall'
    exact some_agree h hcall hcall'
  | injectTimingViolation => exact some_agree h hcall hcall'
  | configure config => exact some_agree (agree_configure h config) hcall hcall'
  | arm => exact some_agree (agree_arm h) hcall hcall'
  | disarm => exact some_agree (agree_disarm h) hcall hcall'
  | resetStats => exact some_agree (agree_resetStats h) hcall hcall'

structure UartAgree (inj inj' : UartInjector) : Prop where
  core : Agree inj.toInjector inj'.toInjector
  overrunActive : inj.overrunActive = inj'.overrunActive

inductive UartLike : FaultUartInjector.Call → FaultUartInjector.Call → Prop
  | fire (bus bus' : UartBus) : UartLike (.fire bus) (.fire bus')
  | injectTx (byte byte' : U8) : UartLike (.injectTx byte) (.injectTx byte')
  | injectRx (byte byte' : U8) : UartLike (.injectRx byte) (.injectRx byte')
  | injectOverrun : UartLike .injectOverrun .injectOverrun
  | clearOverrun : UartLike .clearOverrun .clearOverrun
  | configure (config : FaultConfig) : UartLike (.configure config) (.configure config)
  | arm : UartLike .arm .arm
  | disarm : UartLike .disarm .disarm
  | resetStats : UartLike .resetStats .resetStats

section
variable {p p' : Profile} {inj inj' : UartInjector}

theorem uart_inject_agree {fault : U8 → FaultConfig → Lfsr → U8 × Lfsr} (hmasked : Masked fault)
    (h : UartAgree inj inj') {byte byte' : U8} {r r' : U8 × UartInjector}
    (hcall : inj.inject p byte (fault byte) = some r)
    (hcall' : inj'.inject p' byte' (fault byte') = some r') : UartAgree r.2 r'.2 := by
  obtain ⟨q, hq, rfl⟩ := Option.map_eq_some_iff.mp hcall
  obtain ⟨q', hq', rfl⟩ := Option.map_eq_some_iff.mp hcall'
  exact ⟨inject_agree hmasked h.core hq hq', h.overrunActive⟩

theorem uart_sameMask {fault : U8 → FaultConfig → Lfsr → U8 × Lfsr} (hmasked : Masked fault)
    (h : UartAgree inj inj') :
    SameMask (fun p (inj : UartInjector) byte => inj.inject p byte (fault byte)) inj inj' := by
  obtain ⟨m, hm⟩ := inject_sameMask hmasked h.core
  refine ⟨m, ?_⟩
  rintro p byte r (hcall | hcall)
  · obtain ⟨q, hq, rfl⟩ := Option.map_eq_some_iff.mp hcall
    exact hm p byte q (.inl hq)
  · obtain ⟨q, hq, rfl⟩ := Option.map_eq_some_iff.mp hcall
    exact hm p byte q (.inr hq)

theorem uart_overrun_agree (h : UartAgree inj inj') {r r' : Bool × UartInjector}
    (hcall : FaultUartInjector.injectOverrun p inj = some r)
    (hcall' : FaultUartInjector.injectOverrun p' inj' = some r') :
    r.1 = r'.1 ∧ UartAgree r.2 r'.2 := by
  unfold FaultUartInjector.injectOverrun at hcall hcall'
  rw [← h.core.armed, ← h.core.config, ← h.core.lfsr] at hcall'
  cases hopen : inj.armed && decide (inj.config.faultType = .overrun) with
  | false =>
    rw [hopen] at hcall hcall'
    obtain rfl := Option.some.inj hcall
    obtain rfl := Option.some.inj hcall'
    exact ⟨rfl, h⟩
  | true =>
    rw [hopen] at hcall hcall'
    dsimp only at hcall hcall'
    have hdrawn : Agree
        { inj.toInjector with
          lfsr := (shouldInject inj.lfsr inj.config.probabilityPermille).2 }
        { inj'.toInjector with
          lfsr := (shouldInject inj.lfsr inj.config.probabilityPermille).2 } :=
      ⟨h.core.config, rfl, h.core.armed⟩
    cases hhit : (shouldInject inj.lfsr inj.config.probabilityPermille).1 with
    | false =>
      rw [hhit] at hcall hcall'
      obtain rfl := Option.some.inj hcall
      obtain rfl := Option.some.inj hcall'
      exact ⟨rfl, hdrawn, h.overrunActive⟩
    | true =>
      rw [hhit] at hcall hcall'
      obtain ⟨u, hu, rfl⟩ := Option.map_eq_some_iff.mp hcall
      obtain ⟨u', hu', rfl⟩ := Option.map_eq_some_iff.mp hcall'
      exact ⟨rfl, countUp_agree hdrawn hu hu', rfl⟩

theorem uartItem_agree (s s' : UartInjector × UartBus) (i : UartItem)
    (u u' : UartInjector × UartBus) (es es' : List Event) (h : UartAgree s.1 s'.1)
    (hitem : uartItem p s i = some (u, es)) (hitem' : uartItem p' s' i = some (u', es')) :
    UartAgree u.1 u'.1 := by
  cases i with
  | tx =>
    obtain ⟨r, hr, heq⟩ := Option.map_eq_some_iff.mp hitem
    obtain ⟨r', hr', heq'⟩ := Option.map_eq_some_iff.mp hitem'
    obtain ⟨rfl, -⟩ := Prod.mk.inj heq
    obtain ⟨rfl, -⟩ := Prod.mk.inj heq'
    exact uart_inject_agree txFault_masked h hr hr'
  | overrun =>
    unfold uartItem at hitem hitem'
    rw [← h.core.config] at hitem'
    by_cases hoverrun : s.1.config.faultType = .overrun
    · rw [if_pos hoverrun] at hitem hitem'
      obtain ⟨r, hr, heq⟩ := Option.map_eq_some_iff.mp hitem
      obtain ⟨r', hr', heq'⟩ := Option.map_eq_some_iff.mp hitem'
      obtain ⟨rfl, -⟩ := Prod.mk.inj heq
      obtain ⟨rfl, -⟩ := Prod.mk.inj heq'
      exact (uart_overrun_agree h hr hr').2
    · rw [if_neg hoverrun] at hitem hitem'
      obtain ⟨rfl, -⟩ := Prod.mk.inj (Option.some.inj hitem)
      obtain ⟨rfl, -⟩ := Prod.mk.inj (Option.some.inj hitem')
      exact h

theorem uart_fire_agree (h : UartAgree inj inj') {bus bus' : UartBus}
    {r r' : Except Unit FaultResult × UartInjector × UartBus}
    (hfire : FaultUartInjector.fire p inj bus = some r)
    (hfire' : FaultUartInjector.fire p' inj' bus' = some r') : UartAgree r.2.1 r'.2.1 := by
  rw [uart_fire_eq] at hfire hfire'
  obtain ⟨q, hq, rfl⟩ := Option.map_eq_some_iff.mp hfire
  obtain ⟨q', hq', rfl⟩ := Option.map_eq_some_iff.mp hfire'
  exact fire_agree (R := fun s s' => UartAgree s.1 s'.1) uartItem_agree h.core.armed h hq hq'

end

theorem uart_call_agree {p p' : Profile} (inj inj' : UartInjector) (c c' : FaultUartInjector.Call)
    (u u' : UartInjector) (h : UartAgree inj inj') (hlike : UartLike c c')
    (hcall : FaultUartInjector.call p inj c = some u)
    (hcall' : FaultUartInjector.call p' inj' c' = some u') : UartAgree u u' := by
  cases hlike with
  | fire bus bus' =>
    obtain ⟨r, hr, rfl⟩ := Option.map_eq_some_iff.mp hcall
    obtain ⟨r', hr', rfl⟩ := Option.map_eq_some_iff.mp hcall'
    exact uart_fire_agree h hr hr'
  | injectTx byte byte' =>
    exact map_snd_agree (fun r r' => uart_inject_agree txFault_masked h) hcall hcall'
  | injectRx byte byte' =>
    exact map_snd_agree (fun r r' => uart_inject_agree rxFault_masked h) hcall hcall'
  | injectOverrun =>
    exact map_snd_agree (fun r r' hr hr' => (uart_overrun_agree h hr hr').2) hcall hcall'
  | clearOverrun =>
    have hnext : UartAgree inj.clearOverrun inj'.clearOverrun := ⟨h.core, rfl⟩
    exact some_agree hnext hcall hcall'
  | configure config =>
    have hnext : UartAgree (inj.configure config) (inj'.configure config) :=
      ⟨agree_configure h.core config, h.overrunActive⟩
    exact some_agree hnext hcall hcall'
  | arm =>
    have hnext : UartAgree inj.arm inj'.arm := ⟨agree_arm h.core, h.overrunActive⟩
    exact some_agree hnext hcall hcall'
  | disarm =>
    have hnext : UartAgree inj.disarm inj'.disarm := ⟨agree_disarm h.core, rfl⟩
    exact some_agree hnext hcall hcall'
  | resetStats =>
    have hnext : UartAgree inj.resetStats inj'.resetStats :=
      ⟨agree_resetStats h.core, h.overrunActive⟩
    exact some_agree hnext hcall hcall'

/-- After two runs of the same calls on any data, in whichever builds, the next injection spoils
both alike, bit for bit, and the predicates answer alike. -/
theorem replay (p p' : Profile) :
    (∀ cs cs', List.Forall₂ SpiLike cs cs' → ∀ inj inj',
      cs.foldlM (FaultSpi.call p) FaultSpi.new = some inj →
      cs'.foldlM (FaultSpi.call p') FaultSpi.new = some inj' →
        Agree inj inj' ∧ SameMask FaultSpi.injectMosi inj inj' ∧
          SameMask FaultSpi.injectMiso inj inj') ∧
    (∀ cs cs', List.Forall₂ I2cLike cs cs' → ∀ inj inj',
      cs.foldlM (FaultI2c.call p) FaultI2c.new = some inj →
      cs'.foldlM (FaultI2c.call p') FaultI2c.new = some inj' →
        Agree inj inj' ∧ SameMask FaultI2c.injectAddress inj inj' ∧
          SameMask FaultI2c.injectData inj inj' ∧
          FaultI2c.shouldNack inj = FaultI2c.shouldNack inj' ∧
          FaultI2c.shouldLockBus inj = FaultI2c.shouldLockBus inj') ∧
    (∀ cs cs', List.Forall₂ UartLike cs cs' → ∀ inj inj',
      cs.foldlM (FaultUartInjector.call p) FaultUartInjector.new = some inj →
      cs'.foldlM (FaultUartInjector.call p') FaultUartInjector.new = some inj' →
        UartAgree inj inj' ∧ SameMask FaultUartInjector.injectTx inj inj' ∧
          SameMask FaultUartInjector.injectRx inj inj' ∧
          ∀ r r', FaultUartInjector.injectOverrun p inj = some r →
            FaultUartInjector.injectOverrun p' inj' = some r' → r.1 = r'.1) ∧
    (∀ cs cs', List.Forall₂ CanLike cs cs' → ∀ inj inj',
      cs.foldlM (FaultCan.call p) FaultCan.new = some inj →
      cs'.foldlM (FaultCan.call p') FaultCan.new = some inj' →
        Agree inj inj' ∧ SameMask FaultCan.injectId inj inj' ∧
          (∀ index, SameMask (fun p inj byte => FaultCan.injectData p inj byte index) inj inj') ∧
          FaultCan.injectStuffError inj = FaultCan.injectStuffError inj' ∧
          FaultCan.injectFormError inj = FaultCan.injectFormError inj') ∧
    (∀ cs cs', List.Forall₂ OneWireLike cs cs' → ∀ inj inj',
      cs.foldlM (FaultOneWire.call p) FaultOneWire.new = some inj →
      cs'.foldlM (FaultOneWire.call p') FaultOneWire.new = some inj' →
        Agree inj inj' ∧
          (∀ index, SameMask (fun p inj byte => FaultOneWire.injectData p inj byte index)
            inj inj') ∧
          SameMask FaultOneWire.injectRomCommand inj inj' ∧
          FaultOneWire.suppressPresence inj = FaultOneWire.suppressPresence inj' ∧
          FaultOneWire.glitchResetPulse inj = FaultOneWire.glitchResetPulse inj') := by
  refine ⟨?_, ?_, ?_, ?_, ?_⟩
  · intro cs cs' hlike inj inj' hrun hrun'
    have h := foldlM_related spi_call_agree hlike (agree_refl FaultSpi.new) hrun hrun'
    exact ⟨h, inject_sameMask mosiFault_masked h, inject_sameMask misoFault_masked h⟩
  · intro cs cs' hlike inj inj' hrun hrun'
    have h := foldlM_related i2c_call_agree hlike (agree_refl FaultI2c.new) hrun hrun'
    have hlock : FaultI2c.shouldLockBus inj = FaultI2c.shouldLockBus inj' := by
      unfold FaultI2c.shouldLockBus
      rw [h.config, h.armed]
    exact ⟨h, inject_sameMask addressFault_masked h, inject_sameMask i2c_dataFault_masked h,
      freshDraw_agree h _, hlock⟩
  · intro cs cs' hlike inj inj' hrun hrun'
    have h := foldlM_related uart_call_agree hlike ⟨agree_refl _, rfl⟩ hrun hrun'
    exact ⟨h, uart_sameMask txFault_masked h, uart_sameMask rxFault_masked h,
      fun r r' hr hr' => (uart_overrun_agree h hr hr').1⟩
  · intro cs cs' hlike inj inj' hrun hrun'
    have h := foldlM_related can_call_agree hlike (agree_refl FaultCan.new) hrun hrun'
    exact ⟨h, inject_sameMask idFault_masked h,
      fun index => inject_sameMask (can_dataFault_masked index) h, freshDraw_agree h _,
      freshDraw_agree h _⟩
  · intro cs cs' hlike inj inj' hrun hrun'
    have h := foldlM_related oneWire_call_agree hlike (agree_refl FaultOneWire.new) hrun hrun'
    exact ⟨h, fun index => inject_sameMask (oneWire_dataFault_masked index) h,
      inject_sameMask romFault_masked h, freshDraw_agree h _, freshDraw_agree h _⟩

def stuckCalls (byte : U8) : List FaultSpi.Call :=
  [.configure (FaultConfig.new .spi .stuckAtOne), .arm, .injectMosi byte]

def stuckAfter (count : U32) : Injector :=
  ⟨FaultConfig.new .spi .stuckAtOne, Lfsr.new 0xBEEF, true, count⟩

/-- A stuck bit is counted over one byte and not over another, and the next fault is the same. -/
theorem replay_stuck : Agree (stuckAfter 1) (stuckAfter 0) ∧
    SameMask FaultSpi.injectMosi (stuckAfter 1) (stuckAfter 0) ∧
    SameMask FaultSpi.injectMiso (stuckAfter 1) (stuckAfter 0) :=
  (replay .release .dev).1 (stuckCalls 0x00) (stuckCalls 0xFF)
    (.cons (.configure _) (.cons .arm (.cons (.injectMosi 0x00 0xFF) .nil))) _ _ rfl rfl

end EmbeddedDaq.FaultReplay

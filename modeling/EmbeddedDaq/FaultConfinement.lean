import EmbeddedDaq.FaultCanFrame
import EmbeddedDaq.GeneralSingleBit

set_option autoImplicit false

namespace EmbeddedDaq.FaultConfinement
open FirmwareWords SharedFault FaultLfsr FaultInjectors FaultEvents FaultCanFrame GeneralSingleBit
open FaultCan (CanBus)

/-- What a fault of this type may make of a value in a field of `width` bits. -/
structure Confined (faultType : FaultType) (width : ℕ) {w : ℕ} (value result : BitVec w) :
    Prop where
  oneBit : OneBitBelow width value result
  stuckAtZero : faultType = .stuckAtZero → NeverSets value result
  stuckAtOne : faultType = .stuckAtOne → NeverSets result value
  field : value.toNat < 2 ^ width → result.toNat < 2 ^ width

def Confines {S : Type} (core : S → Injector) (width : ℕ) {w : ℕ}
    (call : S → BitVec w → Option (BitVec w × S)) : Prop :=
  ∀ inj value result inj', call inj value = some (result, inj') →
    Confined (core inj).config.faultType width value result

section
variable {faultType : FaultType} {width w : ℕ}

theorem confined_same (h : 0 < width) (value : BitVec w) : Confined faultType width value value :=
  ⟨oneBit_refl h value, fun _ _ => id, fun _ _ => id, id⟩

theorem confined_xor (hzero : faultType ≠ .stuckAtZero) (hone : faultType ≠ .stuckAtOne) {bit : U8}
    (h : bit.toNat < width) (value : BitVec w) :
    Confined faultType width value (value ^^^ ((1 : BitVec w) <<< bit)) :=
  ⟨oneBit_xor h value, fun hsame => absurd hsame hzero, fun hsame => absurd hsame hone,
    (oneBit_xor h value).lt⟩

theorem confined_and_not {bit : U8} (h : bit.toNat < width) (value : BitVec w) :
    Confined .stuckAtZero width value (value &&& ~~~((1 : BitVec w) <<< bit)) :=
  ⟨oneBit_and_not h value, fun _ => neverSets_and value _, nofun,
    (oneBit_and_not h value).lt⟩

theorem confined_or {bit : U8} (h : bit.toNat < width) (value : BitVec w) :
    Confined .stuckAtOne width value (value ||| ((1 : BitVec w) <<< bit)) :=
  ⟨oneBit_or h value, nofun, fun _ => neverSets_or value _,
    (oneBit_or h value).lt⟩

theorem low_lt (bit : U8) : (bit &&& 7).toNat < 8 := by
  have hle : (bit &&& 7).toNat ≤ 7 := by
    rw [BitVec.toNat_and]
    exact Nat.and_le_right
  omega

theorem low_le (bit : U8) : (bit &&& 7).toNat ≤ bit.toNat := by
  rw [BitVec.toNat_and]
  exact Nat.and_le_left

theorem confined_flip (hzero : faultType ≠ .stuckAtZero) (hone : faultType ≠ .stuckAtOne)
    (byte bit : U8) : Confined faultType 8 byte (bitFlip byte bit) :=
  confined_xor hzero hone (low_lt bit) byte

theorem confined_late (late : Prop) [Decidable late] (byte : U8) (drawn : U8 × Lfsr) (l : Lfsr) :
    Confined .crcCorrupt 8 byte
      (if late then (bitFlip byte drawn.1, drawn.2) else (byte, l)).1 := by
  split
  · exact confined_flip (by decide) (by decide) byte _
  · exact confined_same (by decide) byte

/-- The three faults that every byte injector has but CAN and UART transmission. -/
def stuckByte (faultType : FaultType) (byte bit : U8) : U8 :=
  match faultType with
  | .bitFlip => bitFlip byte bit
  | .stuckAtZero => bitClear byte bit
  | .stuckAtOne => bitSet byte bit
  | _ => byte

theorem stuckByte_confined {bit : U8} (h : (bit &&& 7).toNat < width) (byte : U8) :
    Confined faultType width byte (stuckByte faultType byte bit) := by
  cases faultType with
  | bitFlip => exact confined_xor (by decide) (by decide) h byte
  | stuckAtZero => exact confined_and_not h byte
  | stuckAtOne => exact confined_or h byte
  | _ => exact confined_same (Nat.zero_lt_of_lt h) byte

theorem spoil_confined (inj : Injector) {value : BitVec w}
    {fault : FaultConfig → Lfsr → BitVec w × Lfsr} (hwidth : 0 < width)
    (hfault : ∀ l, Confined inj.config.faultType width value (fault inj.config l).1) :
    Confined inj.config.faultType width value (inj.spoil value fault).1 := by
  cases harmed : inj.armed with
  | false =>
    rw [Injector.spoil_disarmed harmed]
    exact confined_same hwidth value
  | true =>
    rw [Injector.spoil_armed harmed]
    split
    · exact hfault _
    · exact confined_same hwidth value

theorem inject_confines {p : Profile} {fault : BitVec w → FaultConfig → Lfsr → BitVec w × Lfsr}
    (hwidth : 0 < width)
    (hfault : ∀ value config l, Confined config.faultType width value (fault value config l).1) :
    Confines id width fun inj value => inj.inject p value (fault value) := by
  intro inj value result inj' h
  rw [(Injector.inject_eq_some h).1]
  exact spoil_confined inj hwidth (hfault value inj.config)

theorem uart_inject_confines {p : Profile} {fault : U8 → FaultConfig → Lfsr → U8 × Lfsr}
    (hfault : ∀ byte config l, Confined config.faultType 8 byte (fault byte config l).1) :
    Confines FaultUartInjector.UartInjector.toInjector 8 fun inj byte =>
      inj.inject p byte (fault byte) := by
  intro inj byte result inj' h
  rw [(FaultUartInjector.UartInjector.inject_eq_some h).1]
  exact spoil_confined inj.toInjector (by decide) (hfault byte inj.config)

end

section
variable (byte : U8) (config : FaultConfig) (l : Lfsr)

theorem mosiFault_confined :
    Confined config.faultType 8 byte (FaultSpi.mosiFault byte config l).1 := by
  unfold FaultSpi.mosiFault
  cases config.faultType with
  | bitFlip => exact confined_flip (by decide) (by decide) byte _
  | stuckAtZero => exact confined_and_not (low_lt _) byte
  | stuckAtOne => exact confined_or (low_lt _) byte
  | clockGlitch => exact confined_flip (by decide) (by decide) byte _
  | _ => exact confined_same (by decide) byte

theorem misoFault_confined : Confined config.faultType 8 byte (FaultSpi.misoFault byte config l).1 :=
  stuckByte_confined (low_lt _) byte

theorem addressFault_confined :
    Confined config.faultType 7 byte (FaultI2c.addressFault byte config l).1 := by
  have hbit := pickBitMod_lt 7 (by decide) config l
  exact stuckByte_confined (Nat.lt_of_le_of_lt (low_le _) hbit) byte

theorem i2c_dataFault_confined :
    Confined config.faultType 8 byte (FaultI2c.dataFault byte config l).1 :=
  stuckByte_confined (low_lt _) byte

theorem txFault_confined :
    Confined config.faultType 8 byte (FaultUartInjector.txFault byte config l).1 := by
  unfold FaultUartInjector.txFault
  cases config.faultType with
  | bitFlip => exact confined_flip (by decide) (by decide) byte _
  | parityError =>
    have htop : (7 : U8).toNat < 8 := by decide
    exact confined_xor (by decide) (by decide) htop byte
  | frameCorrupt => exact confined_flip (by decide) (by decide) byte _
  | clockGlitch => exact confined_flip (by decide) (by decide) byte _
  | _ => exact confined_same (by decide) byte

theorem rxFault_confined :
    Confined config.faultType 8 byte (FaultUartInjector.rxFault byte config l).1 :=
  stuckByte_confined (low_lt _) byte

theorem idFault_confined (id : U32) :
    Confined config.faultType 29 id (FaultCan.idFault id config l).1 := by
  have hbit := pickBitMod_lt 29 (by decide) config l
  unfold FaultCan.idFault
  cases config.faultType with
  | bitFlip => exact confined_xor (by decide) (by decide) hbit id
  | stuckAtZero => exact confined_and_not hbit id
  | stuckAtOne => exact confined_or hbit id
  | _ => exact confined_same (by decide) id

theorem can_dataFault_confined (index : ℕ) :
    Confined config.faultType 8 byte (FaultCan.dataFault byte index config l).1 := by
  unfold FaultCan.dataFault
  cases config.faultType with
  | bitFlip => exact confined_flip (by decide) (by decide) byte _
  | frameCorrupt => exact confined_flip (by decide) (by decide) byte _
  | crcCorrupt => exact confined_late (4 ≤ index) byte l.nextBit _
  | _ => exact confined_same (by decide) byte

theorem oneWire_dataFault_confined (index : ℕ) :
    Confined config.faultType 8 byte (FaultOneWire.dataFault byte index config l).1 := by
  unfold FaultOneWire.dataFault
  cases config.faultType with
  | bitFlip => exact confined_flip (by decide) (by decide) byte _
  | stuckAtZero => exact confined_and_not (low_lt _) byte
  | stuckAtOne => exact confined_or (low_lt _) byte
  | crcCorrupt => exact confined_late (8 ≤ index) byte (pickBit config l).2.nextBit _
  | _ => exact confined_same (by decide) byte

theorem romFault_confined :
    Confined config.faultType 8 byte (FaultOneWire.romFault byte config l).1 := by
  unfold FaultOneWire.romFault
  cases config.faultType with
  | bitFlip => exact confined_flip (by decide) (by decide) byte _
  | _ => exact confined_same (by decide) byte

end

/-- A fire on a frame confined to one bit of its id and one bit of each of its bytes. -/
structure FrameConfined (faultType : FaultType) (bus bus' : CanBus) : Prop where
  id : Confined faultType 29 bus.id bus'.id
  data : ∀ i, Confined faultType 8 (bus.data.get i) (bus'.data.get i)
  dlc : bus'.dlc = bus.dlc

theorem can_fire_confined {p : Profile} {inj inj' : Injector} {bus bus' : CanBus}
    {r : Except Unit FaultResult} (h : FaultCan.fire p inj bus = some (r, inj', bus')) :
    FrameConfined inj.config.faultType bus bus' := by
  cases harmed : inj.armed with
  | false =>
    rw [FaultCan.fire, harmed] at h
    obtain ⟨-, rfl, rfl⟩ := h
    exact ⟨confined_same (by decide) _, fun i => confined_same (by decide) _, rfl⟩
  | true =>
    obtain ⟨hdlc, hid, hvisited⟩ := can_fire_visited harmed h
    refine ⟨?_, ?_, hdlc⟩
    · rw [hid]
      exact spoil_confined inj (by decide) fun l => idFault_confined _ l bus.id
    · intro i
      obtain ⟨l, -, hvalue⟩ := hvisited i
      have hconfined := spoil_confined { inj with lfsr := l } (by decide) fun l =>
        can_dataFault_confined (bus.data.get i) inj.config l i
      rw [hvalue]
      exact hconfined

/-- Every injection of every injector is confined, and so is a fire on a CAN frame. -/
theorem injections_confined (p : Profile) :
    Confines id 8 (FaultSpi.injectMosi p) ∧
      Confines id 8 (FaultSpi.injectMiso p) ∧
      Confines id 7 (FaultI2c.injectAddress p) ∧
      Confines id 8 (FaultI2c.injectData p) ∧
      Confines (fun inj => inj.toInjector) 8 (FaultUartInjector.injectTx p) ∧
      Confines (fun inj => inj.toInjector) 8 (FaultUartInjector.injectRx p) ∧
      Confines id 29 (FaultCan.injectId p) ∧
      (∀ index, Confines id 8 fun inj byte => FaultCan.injectData p inj byte index) ∧
      (∀ index, Confines id 8 fun inj byte => FaultOneWire.injectData p inj byte index) ∧
      Confines id 8 (FaultOneWire.injectRomCommand p) ∧
      ∀ inj bus, ∀ r ∈ FaultCan.fire p inj bus,
        FrameConfined inj.config.faultType bus r.2.2 := by
  refine ⟨inject_confines (by decide) mosiFault_confined,
    inject_confines (by decide) misoFault_confined,
    inject_confines (by decide) addressFault_confined,
    inject_confines (by decide) i2c_dataFault_confined,
    uart_inject_confines txFault_confined, uart_inject_confines rxFault_confined,
    inject_confines (by decide) fun id config l => idFault_confined config l id,
    fun index => inject_confines (by decide) fun byte config l =>
      can_dataFault_confined byte config l index,
    fun index => inject_confines (by decide) fun byte config l =>
      oneWire_dataFault_confined byte config l index,
    inject_confines (by decide) romFault_confined, ?_⟩
  intro inj bus r hr
  exact can_fire_confined hr

end EmbeddedDaq.FaultConfinement

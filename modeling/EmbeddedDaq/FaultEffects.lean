import EmbeddedDaq.FaultEvents

set_option autoImplicit false

namespace EmbeddedDaq.FaultEffects
open FirmwareWords SharedFault FaultLfsr FaultInjectors FaultEvents GeneralRuns
open FaultUartInjector (UartInjector UartBus)
open FaultSpi (SpiBus levelByte)
open FaultCan (CanBus)

def spiMoved (before after : SpiBus) : ℕ :=
  (if after.mosi ≠ before.mosi then 1 else 0) + (if after.miso ≠ before.miso then 1 else 0)

def uartMoved (before after : UartBus) : ℕ := differs after.tx before.tx

def canMoved (before after : CanBus) : ℕ :=
  differs after.id before.id +
    ((List.finRange 8).map fun i => differs (after.data.get i) (before.data.get i)).sum

/-- The count, a wrapping word, went up by `n`. -/
def Increased (before after : U32) (n : ℕ) : Prop := after = before + BitVec.ofNat 32 n

/-- Whether a fault aimed at `bit` of the byte made from a level changes that byte. -/
def movesLine (faultType : FaultType) (level : Bool) (bit : U8) : Bool :=
  match faultType with
  | .bitFlip => true
  | .stuckAtZero => level && bit &&& 7 = 0
  | .stuckAtOne => !(level && bit &&& 7 = 0)
  | _ => false

/-- On MOSI alone a clock glitch flips a bit too. -/
def movesMosi (faultType : FaultType) (level : Bool) (bit : U8) : Bool :=
  faultType = .clockGlitch || movesLine faultType level bit

/-- The draw from `l` is a hit and the bit it picks is one that moves. -/
def Struck (config : FaultConfig) (l : Lfsr) (moves : U8 → Bool) : Prop :=
  (shouldInject l config.probabilityPermille).1 = true ∧
    moves (pickBit config (shouldInject l config.probabilityPermille).2).1 = true

/-- The generator after an injection that drew nothing beyond its bit. -/
def afterPick (config : FaultConfig) (l : Lfsr) : Lfsr :=
  if (shouldInject l config.probabilityPermille).1 then
    (pickBit config (shouldInject l config.probabilityPermille).2).2
  else (shouldInject l config.probabilityPermille).2

/-- Neither line is struck, the second one being drawn for after the first. -/
def Spared (inj : Injector) (bus : SpiBus) : Prop :=
  ¬Struck inj.config inj.lfsr (movesMosi inj.config.faultType bus.mosi) ∧
    ¬Struck inj.config (afterPick inj.config inj.lfsr) (movesLine inj.config.faultType bus.miso)

theorem bitClear_level (level : Bool) (bit : U8) :
    bitClear (levelByte level) bit ≠ levelByte level ↔ level = true ∧ bit &&& 7 = 0 := by
  revert level bit
  decide +kernel

theorem bitSet_level (level : Bool) (bit : U8) :
    bitSet (levelByte level) bit ≠ levelByte level ↔ level = false ∨ bit &&& 7 ≠ 0 := by
  revert level bit
  decide +kernel

theorem mosiFault_moves (level : Bool) (config : FaultConfig) (l : Lfsr) :
    (FaultSpi.mosiFault (levelByte level) config l).1 ≠ levelByte level ↔
      movesMosi config.faultType level (pickBit config l).1 = true := by
  unfold FaultSpi.mosiFault movesMosi movesLine
  cases config.faultType with
  | bitFlip => simp [bitFlip_ne]
  | clockGlitch => simp [bitFlip_ne]
  | stuckAtZero => simpa using bitClear_level level (pickBit config l).1
  | stuckAtOne => simpa using bitSet_level level (pickBit config l).1
  | _ => simp

theorem misoFault_moves (level : Bool) (config : FaultConfig) (l : Lfsr) :
    (FaultSpi.misoFault (levelByte level) config l).1 ≠ levelByte level ↔
      movesLine config.faultType level (pickBit config l).1 = true := by
  unfold FaultSpi.misoFault movesLine
  cases config.faultType with
  | bitFlip => simp [bitFlip_ne]
  | stuckAtZero => simpa using bitClear_level level (pickBit config l).1
  | stuckAtOne => simpa using bitSet_level level (pickBit config l).1
  | _ => simp

theorem spoil_ne_iff {inj : Injector} (harmed : inj.armed = true) {value : U8}
    {fault : FaultConfig → Lfsr → U8 × Lfsr} {moves : U8 → Bool}
    (hfault : ∀ l, (fault inj.config l).1 ≠ value ↔ moves (pickBit inj.config l).1 = true) :
    (inj.spoil value fault).1 ≠ value ↔ Struck inj.config inj.lfsr moves := by
  unfold Struck
  cases hhit : (shouldInject inj.lfsr inj.config.probabilityPermille).1 with
  | false => simp [Injector.spoil_missed harmed hhit]
  | true =>
    rw [Injector.spoil_hit harmed hhit, hfault]
    exact (and_iff_right rfl).symm

theorem mosi_generator {inj : Injector} (harmed : inj.armed = true) {level : Bool}
    (hspared : ¬Struck inj.config inj.lfsr (movesMosi inj.config.faultType level)) :
    (inj.spoil (levelByte level) (FaultSpi.mosiFault (levelByte level))).2 =
      afterPick inj.config inj.lfsr := by
  unfold Struck at hspared
  unfold afterPick
  cases hhit : (shouldInject inj.lfsr inj.config.probabilityPermille).1 with
  | false =>
    rw [Injector.spoil_missed harmed hhit]
    rfl
  | true =>
    rw [Injector.spoil_hit harmed hhit]
    unfold FaultSpi.mosiFault
    cases hfault : inj.config.faultType with
    | clockGlitch => exact absurd ⟨hhit, by simp [movesMosi, hfault]⟩ hspared
    | _ => rfl

theorem increased_iff (before : U32) {n k : ℕ} (hn : n < 2 ^ 32) (hk : k < 2 ^ 32) :
    Increased before (before + BitVec.ofNat 32 n) k ↔ n = k := by
  unfold Increased
  constructor
  · intro h
    have hnat := congrArg BitVec.toNat h
    simp only [BitVec.toNat_add, BitVec.toNat_ofNat] at hnat
    omega
  · rintro rfl
    rfl

theorem differs_eq_zero_iff {w : ℕ} (a b : BitVec w) : differs a b = 0 ↔ ¬a ≠ b := by
  unfold differs
  split <;> simp_all

theorem spi_fire_increased {p : Profile} {inj inj' : Injector} {bus bus' : SpiBus}
    {r : Except Unit FaultResult} (harmed : inj.armed = true)
    (h : FaultSpi.fire p inj bus = some (r, inj', bus')) :
    Increased inj.count inj'.count (spiMoved bus bus') ↔ Spared inj bus := by
  unfold FaultSpi.fire at h
  simp only [harmed, Bool.not_true, Bool.false_eq_true, ↓reduceIte, Option.bind_eq_bind,
    Option.bind_eq_some_iff] at h
  obtain ⟨⟨mosi, mid⟩, hmosi, ⟨miso, last⟩, hmiso, heq⟩ := h
  obtain ⟨-, rfl, rfl⟩ := heq
  obtain ⟨hm, hmid⟩ := Injector.inject_eq_some hmosi
  obtain ⟨hs, hlast⟩ := Injector.inject_eq_some hmiso
  have hfirst := spoil_ne_iff harmed fun l => mosiFault_moves bus.mosi inj.config l
  have hmidArmed : mid.armed = true := by rw [hmid, Injector.after_armed, harmed]
  have hmidConfig : mid.config = inj.config := by rw [hmid, Injector.after_config]
  have hsecond := spoil_ne_iff hmidArmed fun l => misoFault_moves bus.miso mid.config l
  have hquiet : spiMoved bus bus = 0 := by simp [spiMoved]
  have h₁ := differs_le mosi (levelByte bus.mosi)
  have h₂ := differs_le miso (levelByte bus.miso)
  rw [hlast, hmid, Injector.after_after, Injector.after_count, hquiet,
    increased_iff _ (by omega) (by decide), Nat.add_eq_zero_iff, differs_eq_zero_iff,
    differs_eq_zero_iff, hm, hs, hfirst, hsecond, hmidConfig]
  unfold Spared
  refine and_congr_right fun hspared => ?_
  rw [hmid, Injector.after_lfsr, mosi_generator harmed hspared]

theorem uart_fire_eq_some {p : Profile} {inj inj' : UartInjector} {bus bus' : UartBus}
    {r : Except Unit FaultResult} (harmed : inj.armed = true)
    (hfault : inj.config.faultType ≠ .overrun)
    (h : FaultUartInjector.fire p inj bus = some (r, inj', bus')) :
    bus'.tx = (inj.spoil bus.tx (FaultUartInjector.txFault bus.tx)).1 ∧
      Increased inj.count inj'.count (uartMoved bus bus') := by
  unfold FaultUartInjector.fire at h
  simp only [harmed, Bool.not_true, Bool.false_eq_true, ↓reduceIte, Option.bind_eq_bind,
    Option.bind_eq_some_iff] at h
  obtain ⟨⟨tx, last⟩, htx, heq⟩ := h
  obtain ⟨hresult, rfl⟩ := UartInjector.inject_eq_some htx
  have hsame : ¬(inj.toInjector.after (inj.spoil bus.tx (FaultUartInjector.txFault bus.tx)).2
      (differs tx bus.tx)).config.faultType = .overrun := hfault
  rw [if_neg hsame] at heq
  obtain ⟨-, rfl, rfl⟩ := heq
  exact ⟨hresult, rfl⟩

theorem putByte_get (bus : CanBus) (i j : Fin 8) (byte : U8) :
    (bus.putByte i byte).data.get j = if j = i then byte else bus.data.get j := by
  change (bus.data.set i byte)[j.val] = _
  rw [Vector.getElem_set]
  simp only [Fin.ext_iff, eq_comm]
  rfl

theorem can_bytes_increased {p : Profile} {is : List (Fin 8)} (hnodup : is.Nodup)
    {s u : Injector × CanBus} {es : List Event}
    (h : run (canItem p) s (is.map .byte) = some (u, es)) :
    u.2.id = s.2.id ∧ (∀ j ∉ is, u.2.data.get j = s.2.data.get j) ∧
      u.1 = s.1.after u.1.lfsr
        (is.map fun i => differs (u.2.data.get i) (s.2.data.get i)).sum := by
  induction is generalizing s es with
  | nil =>
    obtain ⟨rfl, rfl⟩ := Prod.mk.inj (Option.some.inj h)
    exact ⟨rfl, fun _ _ => rfl, (Injector.after_zero _).symm⟩
  | cons i is ih =>
    obtain ⟨mid, fs, gs, hfirst, hrest, rfl⟩ := run_cons_eq_some.mp h
    obtain ⟨hi, hnodup⟩ := List.nodup_cons.mp hnodup
    obtain ⟨hid, hothers, hcount⟩ := ih hnodup hrest
    obtain ⟨⟨result, inj⟩, hinject, heq⟩ := Option.map_eq_some_iff.mp hfirst
    obtain ⟨rfl, -⟩ := Prod.mk.inj heq
    obtain ⟨-, hinj⟩ := Injector.inject_eq_some hinject
    have hlast : u.2.data.get i = result := by rw [hothers i hi, putByte_get, if_pos rfl]
    refine ⟨hid, ?_, ?_⟩
    · intro j hj
      rw [List.mem_cons, not_or] at hj
      rw [hothers j hj.2, putByte_get, if_neg hj.1]
    · have hsum : (is.map fun j => differs (u.2.data.get j) ((s.2.putByte i result).data.get j)) =
          is.map fun j => differs (u.2.data.get j) (s.2.data.get j) := by
        apply List.map_congr_left
        intro j hj
        have hne : j ≠ i := fun hji => hi (hji ▸ hj)
        rw [putByte_get, if_neg hne]
      rw [List.map_cons, List.sum_cons, hlast]
      rw [hsum, hinj, Injector.after_after] at hcount
      exact hcount

theorem can_fire_bytes {p : Profile} {inj inj' : Injector} {bus bus' : CanBus}
    {r : Except Unit FaultResult} (harmed : inj.armed = true)
    (h : FaultCan.fire p inj bus = some (r, inj', bus')) :
    ∃ id first es, id = (inj.spoil bus.id (FaultCan.idFault bus.id)).1 ∧
      first = inj.after (inj.spoil bus.id (FaultCan.idFault bus.id)).2 (differs id bus.id) ∧
      run (canItem p) (first, { bus with id := id }) ((List.finRange 8).map .byte) =
        some ((inj', bus'), es) := by
  rw [can_fire_eq, harmed] at h
  obtain ⟨⟨⟨last, frame⟩, es⟩, hrun, heq⟩ := Option.map_eq_some_iff.mp h
  obtain ⟨-, rfl, rfl⟩ := heq
  obtain ⟨mid, fs, gs, hid, hbytes, -⟩ := run_cons_eq_some.mp hrun
  obtain ⟨⟨result, first⟩, hinject, hmid⟩ := Option.map_eq_some_iff.mp hid
  obtain ⟨rfl, -⟩ := Prod.mk.inj hmid
  obtain ⟨hresult, hfirst⟩ := Injector.inject_eq_some hinject
  exact ⟨result, first, gs, hresult, hfirst, hbytes⟩

theorem can_fire_increased {p : Profile} {inj inj' : Injector} {bus bus' : CanBus}
    {r : Except Unit FaultResult} (harmed : inj.armed = true)
    (h : FaultCan.fire p inj bus = some (r, inj', bus')) :
    Increased inj.count inj'.count (canMoved bus bus') := by
  obtain ⟨id, first, es, -, hfirst, hbytes⟩ := can_fire_bytes harmed h
  obtain ⟨hsame, -, hcount⟩ := can_bytes_increased (List.nodup_finRange 8) hbytes
  rw [hfirst, Injector.after_after] at hcount
  change bus'.id = id at hsame
  change inj' = inj.after inj'.lfsr _ at hcount
  unfold Increased canMoved
  rw [hcount, Injector.after_count, hsame]

def Firing (inj : Injector) : Prop := inj.armed = true ∧ inj.config.faultType ≠ .overrun

theorem spi_fire_returns {p : Profile} {inj : Injector} (harmed : inj.armed = true)
    (hroom : inj.Roomy p 2) (bus : SpiBus) :
    ∃ inj' bus', FaultSpi.fire p inj bus = some (.ok .fired, inj', bus') := by
  obtain ⟨u, es, hrun⟩ := spiItem_tallied.run_returns (inj, bus) spiItems hroom
  refine ⟨u.1, u.2, ?_⟩
  rw [spi_fire_eq, harmed]
  exact Option.map_eq_some_iff.mpr ⟨(u, es), hrun, rfl⟩

theorem can_fire_returns {p : Profile} {inj : Injector} (harmed : inj.armed = true)
    (hroom : inj.Roomy p 9) (bus : CanBus) :
    ∃ inj' bus', FaultCan.fire p inj bus = some (.ok .fired, inj', bus') := by
  obtain ⟨u, es, hrun⟩ := canItem_tallied.run_returns (inj, bus) canItems hroom
  refine ⟨u.1, u.2, ?_⟩
  rw [can_fire_eq, harmed]
  exact Option.map_eq_some_iff.mpr ⟨(u, es), hrun, rfl⟩

theorem uart_fire_returns {p : Profile} {inj : UartInjector} (hfiring : Firing inj.toInjector)
    (hroom : inj.Roomy p 1) (bus : UartBus) :
    ∃ inj' bus', FaultUartInjector.fire p inj bus = some (.ok .fired, inj', bus') := by
  obtain ⟨harmed, hfault⟩ := hfiring
  have hmost := differs_le (inj.spoil bus.tx (FaultUartInjector.txFault bus.tx)).1 bus.tx
  have htx := Injector.inject_of_roomy (hroom.mono hmost)
  unfold FaultUartInjector.fire FaultUartInjector.injectTx UartInjector.inject
  simp only [harmed, htx, hfault, Injector.after_config, Bool.not_true, Bool.false_eq_true,
    ↓reduceIte, Option.map_some, Option.bind_eq_bind, Option.bind_some]
  exact ⟨_, _, rfl⟩

/-- UART and CAN fires count what they change, an SPI fire does only when no line is struck. -/
theorem fire_applies_iff (p : Profile) :
    (∀ inj bus, Firing inj →
      (∀ r inj' bus', FaultSpi.fire p inj bus = some (r, inj', bus') →
        (Increased inj.count inj'.count (spiMoved bus bus') ↔ Spared inj bus)) ∧
      (inj.Roomy p 2 →
        ∃ inj' bus', FaultSpi.fire p inj bus = some (.ok .fired, inj', bus'))) ∧
    (∀ inj bus, Firing inj.toInjector →
      (∀ r inj' bus', FaultUartInjector.fire p inj bus = some (r, inj', bus') →
        Increased inj.count inj'.count (uartMoved bus bus')) ∧
      (inj.Roomy p 1 →
        ∃ inj' bus', FaultUartInjector.fire p inj bus = some (.ok .fired, inj', bus'))) ∧
    (∀ inj bus, Firing inj →
      (∀ r inj' bus', FaultCan.fire p inj bus = some (r, inj', bus') →
        Increased inj.count inj'.count (canMoved bus bus')) ∧
      (inj.Roomy p 9 →
        ∃ inj' bus', FaultCan.fire p inj bus = some (.ok .fired, inj', bus'))) := by
  refine ⟨?_, ?_, ?_⟩
  · intro inj bus hfiring
    exact ⟨fun _ _ _ h => spi_fire_increased hfiring.1 h,
      fun hroom => spi_fire_returns hfiring.1 hroom bus⟩
  · intro inj bus hfiring
    exact ⟨fun _ _ _ h => (uart_fire_eq_some hfiring.1 hfiring.2 h).2,
      fun hroom => uart_fire_returns hfiring hroom bus⟩
  · intro inj bus hfiring
    exact ⟨fun _ _ _ h => can_fire_increased hfiring.1 h,
      fun hroom => can_fire_returns hfiring.1 hroom bus⟩

def idleBus : SpiBus := ⟨true, true, false, true⟩

theorem fire_applies_iff_spi : ∃ inj' bus',
    FaultSpi.fire .dev FaultSpi.new.arm idleBus = some (.ok .fired, inj', bus') ∧
      (Increased FaultSpi.new.arm.count inj'.count (spiMoved idleBus bus') ↔
        Spared FaultSpi.new.arm idleBus) := by
  obtain ⟨hexact, hreturns⟩ :=
    (fire_applies_iff .dev).1 FaultSpi.new.arm idleBus ⟨rfl, by decide⟩
  obtain ⟨inj', bus', h⟩ := hreturns (.inr (by decide))
  exact ⟨inj', bus', h, hexact _ inj' bus' h⟩

/-- A bit flip on both lines: two are counted, none is changed. -/
theorem spi_fire_drops : ∃ inj',
    FaultSpi.fire .dev FaultSpi.new.arm idleBus = some (.ok .fired, inj', idleBus) ∧
      spiMoved idleBus idleBus = 0 ∧ inj'.count = 2 ∧
      ¬Increased FaultSpi.new.arm.count inj'.count (spiMoved idleBus idleBus) := by
  refine ⟨{ FaultSpi.new.arm with count := 2 }, by decide +kernel, rfl, rfl, ?_⟩
  unfold Increased
  decide

end EmbeddedDaq.FaultEffects

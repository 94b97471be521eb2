import EmbeddedDaq.FaultInjectors

set_option autoImplicit false

/-!
# The I2C injector

`fire` looks at no bus line. `inject_bus_lockup` reads the injector and takes time;
a call of it is a call that changes nothing.
-/
namespace EmbeddedDaq.FaultI2c
open FirmwareWords SharedFault FaultLfsr FaultInjectors

structure I2cBus where
  sda : Bool
  scl : Bool
  deriving DecidableEq, Repr

def new : Injector := ⟨FaultConfig.new .i2c .nackInjection, Lfsr.new 0xCAFE, false, 0⟩

def addressFault (addr : U8) (config : FaultConfig) (l : Lfsr) : U8 × Lfsr :=
  let (bit, l) := pickBitMod 7 config l
  (match config.faultType with
    | .bitFlip => bitFlip addr bit
    | .stuckAtZero => bitClear addr bit
    | .stuckAtOne => bitSet addr bit
    | _ => addr, l)

def injectAddress (p : Profile) (inj : Injector) (addr : U8) : Option (U8 × Injector) :=
  inj.inject p addr (addressFault addr)

def dataFault (byte : U8) (config : FaultConfig) (l : Lfsr) : U8 × Lfsr :=
  let (bit, l) := pickBit config l
  (match config.faultType with
    | .bitFlip => bitFlip byte bit
    | .stuckAtZero => bitClear byte bit
    | .stuckAtOne => bitSet byte bit
    | _ => byte, l)

def injectData (p : Profile) (inj : Injector) (byte : U8) : Option (U8 × Injector) :=
  inj.inject p byte (dataFault byte)

def shouldNack (inj : Injector) : Bool := inj.freshDraw .nackInjection

def shouldLockBus (inj : Injector) : Bool := inj.armed && inj.config.faultType = .busLockup

/-- `Err(())` is the `error` side. -/
def fire (p : Profile) (inj : Injector) : Option (Except Unit FaultResult × Injector) :=
  if !inj.armed then some (.error (), inj)
  else if inj.config.faultType = .nackInjection then
    (inj.countUp p).map fun inj => (.ok .fired, inj)
  else some (.ok .fired, inj)

section
variable {p : Profile} {inj : Injector}

theorem fire_disarmed (h : inj.armed = false) : fire p inj = some (.error (), inj) := by
  simp [fire, h]

theorem fire_nack (harmed : inj.armed = true) (hnack : inj.config.faultType = .nackInjection) :
    fire p inj = (inj.countUp p).map fun inj => (.ok .fired, inj) := by
  simp [fire, harmed, hnack]

theorem fire_other (harmed : inj.armed = true) (hother : inj.config.faultType ≠ .nackInjection) :
    fire p inj = some (.ok .fired, inj) := by
  simp [fire, harmed, hother]

end

inductive Call where
  | configure (config : FaultConfig)
  | arm
  | disarm
  | resetStats
  | fire
  | injectAddress (addr : U8)
  | injectData (byte : U8)
  | injectBusLockup
  deriving DecidableEq, Repr

def call (p : Profile) (inj : Injector) : Call → Option Injector
  | .configure config => some (inj.configure config)
  | .arm => some inj.arm
  | .disarm => some inj.disarm
  | .resetStats => some inj.resetStats
  | .fire => (fire p inj).map Prod.snd
  | .injectAddress addr => (injectAddress p inj addr).map Prod.snd
  | .injectData byte => (injectData p inj byte).map Prod.snd
  | .injectBusLockup => some inj

end EmbeddedDaq.FaultI2c

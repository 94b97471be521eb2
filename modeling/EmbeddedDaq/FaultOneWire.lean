import EmbeddedDaq.FaultInjectors

set_option autoImplicit false

/-!
# The OneWire injector

`fire` does not look at the bus line. Its delays and `inject_timing_violation` take
time only; a call of the latter is a call that changes nothing.
-/
namespace EmbeddedDaq.FaultOneWire
open FirmwareWords SharedFault FaultLfsr FaultInjectors

structure OneWireBus where
  line : Bool
  deriving DecidableEq, Repr

def new : Injector := ⟨FaultConfig.new .oneWire .bitFlip, Lfsr.new 0x5678, false, 0⟩

def suppressPresence (inj : Injector) : Bool := inj.freshDraw .timeout

def dataFault (byte : U8) (index : ℕ) (config : FaultConfig) (l : Lfsr) : U8 × Lfsr :=
  let (bit, l) := pickBit config l
  match config.faultType with
  | .bitFlip => (bitFlip byte bit, l)
  | .stuckAtZero => (bitClear byte bit, l)
  | .stuckAtOne => (bitSet byte bit, l)
  | .crcCorrupt =>
    if 8 ≤ index then
      let (bit, l) := l.nextBit
      (bitFlip byte bit, l)
    else (byte, l)
  | _ => (byte, l)

def injectData (p : Profile) (inj : Injector) (byte : U8) (index : ℕ) : Option (U8 × Injector) :=
  inj.inject p byte (dataFault byte index)

def romFault (cmd : U8) (config : FaultConfig) (l : Lfsr) : U8 × Lfsr :=
  match config.faultType with
  | .bitFlip =>
    let (bit, l) := pickBit config l
    (bitFlip cmd bit, l)
  | _ => (cmd, l)

def injectRomCommand (p : Profile) (inj : Injector) (cmd : U8) : Option (U8 × Injector) :=
  inj.inject p cmd (romFault cmd)

def glitchResetPulse (inj : Injector) : Bool := inj.freshDraw .clockGlitch

def fire (inj : Injector) : Except Unit FaultResult × Injector :=
  if !inj.armed then (.error (), inj) else (.ok .fired, inj)

theorem fire_state (inj : Injector) : (fire inj).2 = inj := by
  unfold fire
  split <;> rfl

inductive Call where
  | configure (config : FaultConfig)
  | arm
  | disarm
  | resetStats
  | fire
  | injectData (byte : U8) (index : ℕ)
  | injectRomCommand (cmd : U8)
  | injectTimingViolation
  deriving DecidableEq, Repr

def call (p : Profile) (inj : Injector) : Call → Option Injector
  | .configure config => some (inj.configure config)
  | .arm => some inj.arm
  | .disarm => some inj.disarm
  | .resetStats => some inj.resetStats
  | .fire => some (fire inj).2
  | .injectData byte index => (injectData p inj byte index).map Prod.snd
  | .injectRomCommand cmd => (injectRomCommand p inj cmd).map Prod.snd
  | .injectTimingViolation => some inj

end EmbeddedDaq.FaultOneWire

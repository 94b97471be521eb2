import EmbeddedDaq.FaultInjectors

set_option autoImplicit false

namespace EmbeddedDaq.FaultSpi
open FirmwareWords SharedFault FaultLfsr FaultInjectors

structure SpiBus where
  sck : Bool
  mosi : Bool
  miso : Bool
  cs : Bool
  deriving DecidableEq, Repr

def new : Injector := ⟨FaultConfig.new .spi .bitFlip, Lfsr.new 0xBEEF, false, 0⟩

def mosiFault (byte : U8) (config : FaultConfig) (l : Lfsr) : U8 × Lfsr :=
  let (bit, l) := pickBit config l
  match config.faultType with
  | .bitFlip => (bitFlip byte bit, l)
  | .stuckAtZero => (bitClear byte bit, l)
  | .stuckAtOne => (bitSet byte bit, l)
  | .clockGlitch =>
    let (bit, l) := l.nextBit
    (bitFlip byte bit, l)
  | _ => (byte, l) -- `BitDelay` only takes time

def injectMosi (p : Profile) (inj : Injector) (byte : U8) : Option (U8 × Injector) :=
  inj.inject p byte (mosiFault byte)

def misoFault (byte : U8) (config : FaultConfig) (l : Lfsr) : U8 × Lfsr :=
  let (bit, l) := pickBit config l
  (match config.faultType with
    | .bitFlip => bitFlip byte bit
    | .stuckAtZero => bitClear byte bit
    | .stuckAtOne => bitSet byte bit
    | _ => byte, l)

def injectMiso (p : Profile) (inj : Injector) (byte : U8) : Option (U8 × Injector) :=
  inj.inject p byte (misoFault byte)

/-- `level as u8`. -/
def levelByte (level : Bool) : U8 := if level then 1 else 0

/-- What the two injections return is dropped. -/
def fire (p : Profile) (inj : Injector) (bus : SpiBus) :
    Option (Except Unit FaultResult × Injector × SpiBus) :=
  if !inj.armed then some (.error (), inj, bus)
  else do
    let (_, inj) ← injectMosi p inj (levelByte bus.mosi)
    let (_, inj) ← injectMiso p inj (levelByte bus.miso)
    some (.ok .fired, inj, bus)

inductive Call where
  | configure (config : FaultConfig)
  | arm
  | disarm
  | resetStats
  | fire (bus : SpiBus)
  | injectMosi (byte : U8)
  | injectMiso (byte : U8)
  deriving DecidableEq, Repr

def call (p : Profile) (inj : Injector) : Call → Option Injector
  | .configure config => some (inj.configure config)
  | .arm => some inj.arm
  | .disarm => some inj.disarm
  | .resetStats => some inj.resetStats
  | .fire bus => (fire p inj bus).map fun r => r.2.1
  | .injectMosi byte => (injectMosi p inj byte).map Prod.snd
  | .injectMiso byte => (injectMiso p inj byte).map Prod.snd

end EmbeddedDaq.FaultSpi

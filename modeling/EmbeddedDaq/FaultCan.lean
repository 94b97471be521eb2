import EmbeddedDaq.FaultInjectors

set_option autoImplicit false

namespace EmbeddedDaq.FaultCan
open FirmwareWords SharedFault FaultLfsr FaultInjectors

structure CanBus where
  id : U32
  data : Vector U8 8
  dlc : U8
  deriving DecidableEq, Repr

def new : Injector := ⟨FaultConfig.new .can .bitFlip, Lfsr.new 0x1234, false, 0⟩

def idFault (id : U32) (config : FaultConfig) (l : Lfsr) : U32 × Lfsr :=
  let (bit, l) := pickBitMod 29 config l
  (match config.faultType with
    | .bitFlip => id ^^^ ((1 : U32) <<< bit)
    | .stuckAtZero => id &&& ~~~((1 : U32) <<< bit)
    | .stuckAtOne => id ||| ((1 : U32) <<< bit)
    | _ => id, l)

def injectId (p : Profile) (inj : Injector) (id : U32) : Option (U32 × Injector) :=
  inj.inject p id (idFault id)

def dataFault (byte : U8) (index : ℕ) (config : FaultConfig) (l : Lfsr) : U8 × Lfsr :=
  match config.faultType with
  | .bitFlip =>
    let (bit, l) := pickBit config l
    (bitFlip byte bit, l)
  | .crcCorrupt =>
    if 4 ≤ index then
      let (bit, l) := l.nextBit
      (bitFlip byte bit, l)
    else (byte, l)
  | .frameCorrupt =>
    let (bit, l) := l.nextBit
    (bitFlip byte bit, l)
  | _ => (byte, l)

def injectData (p : Profile) (inj : Injector) (byte : U8) (index : ℕ) : Option (U8 × Injector) :=
  inj.inject p byte (dataFault byte index)

def injectStuffError (inj : Injector) : Bool := inj.freshDraw .clockGlitch

def injectFormError (inj : Injector) : Bool := inj.freshDraw .frameCorrupt

def fireByte (p : Profile) (acc : Vector U8 8 × Injector) (i : Fin 8) :
    Option (Vector U8 8 × Injector) :=
  (injectData p acc.2 (acc.1.get i) i).map fun r => (acc.1.set i r.1, r.2)

def CanBus.putByte (bus : CanBus) (i : Fin 8) (byte : U8) : CanBus :=
  { bus with data := bus.data.set i byte }

def fire (p : Profile) (inj : Injector) (bus : CanBus) :
    Option (Except Unit FaultResult × Injector × CanBus) :=
  if !inj.armed then some (.error (), inj, bus)
  else do
    let (id, inj) ← injectId p inj bus.id
    let (data, inj) ← (List.finRange 8).foldlM (fireByte p) (bus.data, inj)
    some (.ok .fired, inj, { bus with id := id, data := data })

inductive Call where
  | configure (config : FaultConfig)
  | arm
  | disarm
  | resetStats
  | fire (bus : CanBus)
  | injectId (id : U32)
  | injectData (byte : U8) (index : ℕ)
  | injectStuffError
  | injectFormError
  deriving DecidableEq, Repr

def call (p : Profile) (inj : Injector) : Call → Option Injector
  | .configure config => some (inj.configure config)
  | .arm => some inj.arm
  | .disarm => some inj.disarm
  | .resetStats => some inj.resetStats
  | .fire bus => (fire p inj bus).map fun r => r.2.1
  | .injectId id => (injectId p inj id).map Prod.snd
  | .injectData byte index => (injectData p inj byte index).map Prod.snd
  | .injectStuffError => some inj
  | .injectFormError => some inj

end EmbeddedDaq.FaultCan

import EmbeddedDaq.FaultInjectors

set_option autoImplicit false

namespace EmbeddedDaq.FaultUartInjector
open FirmwareWords SharedFault FaultLfsr FaultInjectors

structure UartBus where
  tx : U8
  rx : U8
  deriving DecidableEq, Repr

structure UartInjector extends Injector where
  overrunActive : Bool
  deriving DecidableEq, Repr

def new : UartInjector := ⟨⟨FaultConfig.new .uart .bitFlip, Lfsr.new 0xDEAD, false, 0⟩, false⟩

namespace UartInjector

def configure (inj : UartInjector) (config : FaultConfig) : UartInjector :=
  { inj with toInjector := inj.toInjector.configure config }

def arm (inj : UartInjector) : UartInjector := { inj with toInjector := inj.toInjector.arm }

/-- Disarming also clears the overrun. -/
def disarm (inj : UartInjector) : UartInjector :=
  { inj with toInjector := inj.toInjector.disarm, overrunActive := false }

def resetStats (inj : UartInjector) : UartInjector :=
  { inj with toInjector := inj.toInjector.resetStats }

def clearOverrun (inj : UartInjector) : UartInjector := { inj with overrunActive := false }

def inject (p : Profile) (inj : UartInjector) (byte : U8)
    (fault : FaultConfig → Lfsr → U8 × Lfsr) : Option (U8 × UartInjector) :=
  (inj.toInjector.inject p byte fault).map fun r => (r.1, { inj with toInjector := r.2 })

theorem inject_eq_some {p : Profile} {inj inj' : UartInjector} {byte result : U8}
    {fault : FaultConfig → Lfsr → U8 × Lfsr} (h : inj.inject p byte fault = some (result, inj')) :
    result = (inj.spoil byte fault).1 ∧ inj' = { inj with
      toInjector := inj.toInjector.after (inj.spoil byte fault).2 (differs result byte) } := by
  obtain ⟨⟨r, core⟩, hcore, heq⟩ := Option.map_eq_some_iff.mp h
  obtain ⟨rfl, rfl⟩ := Prod.mk.inj heq
  obtain ⟨hresult, rfl⟩ := Injector.inject_eq_some hcore
  exact ⟨hresult, rfl⟩

end UartInjector

def txFault (byte : U8) (config : FaultConfig) (l : Lfsr) : U8 × Lfsr :=
  let (bit, l) := pickBit config l
  match config.faultType with
  | .bitFlip => (bitFlip byte bit, l)
  | .parityError => (byte ^^^ 0x80, l)
  | .frameCorrupt =>
    let (bit, l) := l.nextBit
    (bitFlip byte bit, l)
  | .clockGlitch =>
    let (bit, l) := l.nextBit
    (bitFlip byte bit, l)
  | _ => (byte, l) -- `BitDelay` only takes time

def injectTx (p : Profile) (inj : UartInjector) (byte : U8) : Option (U8 × UartInjector) :=
  inj.inject p byte (txFault byte)

def rxFault (byte : U8) (config : FaultConfig) (l : Lfsr) : U8 × Lfsr :=
  let (bit, l) := pickBit config l
  (match config.faultType with
    | .bitFlip => bitFlip byte bit
    | .stuckAtZero => bitClear byte bit
    | .stuckAtOne => bitSet byte bit
    | _ => byte, l)

def injectRx (p : Profile) (inj : UartInjector) (byte : U8) : Option (U8 × UartInjector) :=
  inj.inject p byte (rxFault byte)

/-- The draw is made only when the first two conditions hold. -/
def injectOverrun (p : Profile) (inj : UartInjector) : Option (Bool × UartInjector) :=
  if inj.armed && inj.config.faultType = .overrun then
    let (hit, lfsr) := shouldInject inj.lfsr inj.config.probabilityPermille
    let drawn := { inj.toInjector with lfsr := lfsr }
    if hit then (drawn.countUp p).map fun counted => (true, ⟨counted, true⟩)
    else some (false, { inj with toInjector := drawn })
  else some (false, inj)

def fire (p : Profile) (inj : UartInjector) (bus : UartBus) :
    Option (Except Unit FaultResult × UartInjector × UartBus) :=
  if !inj.armed then some (.error (), inj, bus)
  else do
    let (tx, inj) ← injectTx p inj bus.tx
    let bus := { bus with tx := tx }
    if inj.config.faultType = .overrun then do
      let (_, inj) ← injectOverrun p inj
      some (.ok .fired, inj, bus)
    else some (.ok .fired, inj, bus)

inductive Call where
  | configure (config : FaultConfig)
  | arm
  | disarm
  | resetStats
  | clearOverrun
  | fire (bus : UartBus)
  | injectTx (byte : U8)
  | injectRx (byte : U8)
  | injectOverrun
  deriving DecidableEq, Repr

def call (p : Profile) (inj : UartInjector) : Call → Option UartInjector
  | .configure config => some (inj.configure config)
  | .arm => some inj.arm
  | .disarm => some inj.disarm
  | .resetStats => some inj.resetStats
  | .clearOverrun => some inj.clearOverrun
  | .fire bus => (fire p inj bus).map fun r => r.2.1
  | .injectTx byte => (injectTx p inj byte).map Prod.snd
  | .injectRx byte => (injectRx p inj byte).map Prod.snd
  | .injectOverrun => (injectOverrun p inj).map Prod.snd

end EmbeddedDaq.FaultUartInjector

import EmbeddedDaq.FirmwareWords

set_option autoImplicit false

namespace EmbeddedDaq.SharedFault
open FirmwareWords

inductive Protocol where
  | spi
  | i2c
  | uart
  | can
  | oneWire
  deriving DecidableEq, Repr

inductive FaultType where
  | bitFlip
  | stuckAtZero
  | stuckAtOne
  | bitDelay
  | clockGlitch
  | frameCorrupt
  | nackInjection
  | parityError
  | crcCorrupt
  | busLockup
  | overrun
  | timeout
  deriving DecidableEq, Repr

inductive FaultCommand where
  | arm
  | disarm
  | fire
  | status
  | reset
  deriving DecidableEq, Repr

/-- `cmd as u8`. -/
def FaultCommand.toU8 : FaultCommand → U8
  | .arm => 0x01
  | .disarm => 0x02
  | .fire => 0x03
  | .status => 0x04
  | .reset => 0x05

inductive FaultResult where
  | armed
  | disarmed
  | fired
  | busy
  | error
  | completed
  deriving DecidableEq, Repr

/-- `result as u8`. -/
def FaultResult.toU8 : FaultResult → U8
  | .armed => 0x01
  | .disarmed => 0x02
  | .fired => 0x03
  | .busy => 0x04
  | .error => 0x05
  | .completed => 0x06

structure FaultConfig where
  protocol : Protocol
  faultType : FaultType
  targetBit : U8
  durationUs : U32
  repeatCount : U8
  probabilityPermille : U16
  deriving DecidableEq, Repr

def FaultConfig.new (protocol : Protocol) (faultType : FaultType) : FaultConfig :=
  ⟨protocol, faultType, 0, 0, 1, 1000⟩

/-- The trait, over the states `S` of an injector and the buses `B` it fires at. -/
structure FaultInjector (S B : Type) where
  configure : S → FaultConfig → Except Unit Unit × S
  arm : S → Except Unit Unit × S
  disarm : S → Except Unit Unit × S
  fire : Profile → S → B → Option (Except Unit FaultResult × S × B)
  isArmed : S → Bool
  injectedCount : S → U32
  resetStats : S → S

end EmbeddedDaq.SharedFault

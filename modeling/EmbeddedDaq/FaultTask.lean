import EmbeddedDaq.SharedFault
import EmbeddedDaq.GeneralRuns

set_option autoImplicit false

namespace EmbeddedDaq.FaultTask
open FirmwareWords SharedFault GeneralRuns

structure FaultEngine where
  config : FaultConfig
  armed : Bool
  fired : Bool
  fireCount : U32
  deriving DecidableEq, Repr

namespace FaultEngine

def new : FaultEngine := ⟨FaultConfig.new .spi .bitFlip, false, false, 0⟩

def withConfig (e : FaultEngine) (config : FaultConfig) : FaultEngine :=
  { e with config := config }

def handleCommand (p : Profile) (e : FaultEngine) :
    FaultCommand → Option (FaultEngine × FaultResult)
  | .arm => some ({ e with armed := true, fired := false, fireCount := 0 }, .armed)
  | .disarm => some ({ e with armed := false }, .disarmed)
  | .fire =>
    if !e.armed then some (e, .error)
    else (addWord p e.fireCount 1).map fun fireCount =>
      ({ e with fired := true, fireCount := fireCount }, .fired)
  | .status =>
    some (e, if e.fired then .completed else if e.armed then .armed else .disarmed)
  | .reset => some ({ e with armed := false, fired := false, fireCount := 0 }, .disarmed)

def isArmed (e : FaultEngine) : Bool := e.armed
def shouldInject (e : FaultEngine) : Bool := e.armed && e.fired
def resetStats (e : FaultEngine) : FaultEngine := { e with fireCount := 0 }

end FaultEngine

def commandOf : U8 → Option FaultCommand
  | 0x01 => some .arm
  | 0x02 => some .disarm
  | 0x03 => some .fire
  | 0x04 => some .status
  | 0x05 => some .reset
  | _ => none

/-- One turn of `fault_task_entry`: the byte read and the bytes written back. -/
def faultTurn (p : Profile) (e : FaultEngine) (byte : U8) : Option (FaultEngine × List U8) :=
  match commandOf byte with
  | none => some (e, [])
  | some cmd => (e.handleCommand p cmd).map fun r => (r.1, [r.2.toU8])

def faultTaskEntry (p : Profile) (e : FaultEngine) (bytes : List U8) :
    Option (FaultEngine × List U8) :=
  run (faultTurn p) e bytes

end EmbeddedDaq.FaultTask

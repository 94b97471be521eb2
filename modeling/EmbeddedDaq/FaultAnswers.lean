import EmbeddedDaq.FaultCan
import EmbeddedDaq.FaultI2c
import EmbeddedDaq.FaultOneWire
import EmbeddedDaq.FaultSpi
import EmbeddedDaq.FaultUartInjector

set_option autoImplicit false

namespace EmbeddedDaq.FaultAnswers
open FirmwareWords SharedFault FaultInjectors
open FaultUartInjector (UartInjector UartBus)
open FaultSpi (SpiBus)
open FaultCan (CanBus)

/-- What a caller gets back, over the buses `B` it passes by reference. -/
inductive Answer (B : Type) where
  | ok
  | byte (result : U8)
  | id (result : U32)
  | flag (result : Bool)
  | fired (result : Except Unit FaultResult)
  | bus (left : B)

section
variable (p : Profile) (inj : Injector)

def spi : FaultSpi.Call → Option (Injector × List (Answer SpiBus))
  | .configure config => some (inj.configure config, [.ok])
  | .arm => some (inj.arm, [.ok])
  | .disarm => some (inj.disarm, [.ok])
  | .resetStats => some (inj.resetStats, [])
  | .fire bus => (FaultSpi.fire p inj bus).map fun r => (r.2.1, [.fired r.1, .bus r.2.2])
  | .injectMosi byte => (FaultSpi.injectMosi p inj byte).map fun r => (r.2, [.byte r.1])
  | .injectMiso byte => (FaultSpi.injectMiso p inj byte).map fun r => (r.2, [.byte r.1])

/-- `fire` leaves the bus alone. -/
def i2c : FaultI2c.Call → Option (Injector × List (Answer Empty))
  | .configure config => some (inj.configure config, [.ok])
  | .arm => some (inj.arm, [.ok])
  | .disarm => some (inj.disarm, [.ok])
  | .resetStats => some (inj.resetStats, [])
  | .fire => (FaultI2c.fire p inj).map fun r => (r.2, [.fired r.1])
  | .injectAddress addr => (FaultI2c.injectAddress p inj addr).map fun r => (r.2, [.byte r.1])
  | .injectData byte => (FaultI2c.injectData p inj byte).map fun r => (r.2, [.byte r.1])
  | .injectBusLockup => some (inj, [])

def uart (inj : UartInjector) :
    FaultUartInjector.Call → Option (UartInjector × List (Answer UartBus))
  | .configure config => some (inj.configure config, [.ok])
  | .arm => some (inj.arm, [.ok])
  | .disarm => some (inj.disarm, [.ok])
  | .resetStats => some (inj.resetStats, [])
  | .clearOverrun => some (inj.clearOverrun, [])
  | .fire bus => (FaultUartInjector.fire p inj bus).map fun r => (r.2.1, [.fired r.1, .bus r.2.2])
  | .injectTx byte => (FaultUartInjector.injectTx p inj byte).map fun r => (r.2, [.byte r.1])
  | .injectRx byte => (FaultUartInjector.injectRx p inj byte).map fun r => (r.2, [.byte r.1])
  | .injectOverrun => (FaultUartInjector.injectOverrun p inj).map fun r => (r.2, [.flag r.1])

def can : FaultCan.Call → Option (Injector × List (Answer CanBus))
  | .configure config => some (inj.configure config, [.ok])
  | .arm => some (inj.arm, [.ok])
  | .disarm => some (inj.disarm, [.ok])
  | .resetStats => some (inj.resetStats, [])
  | .fire bus => (FaultCan.fire p inj bus).map fun r => (r.2.1, [.fired r.1, .bus r.2.2])
  | .injectId id => (FaultCan.injectId p inj id).map fun r => (r.2, [.id r.1])
  | .injectData byte index => (FaultCan.injectData p inj byte index).map fun r => (r.2, [.byte r.1])
  | .injectStuffError => some (inj, [.flag (FaultCan.injectStuffError inj)])
  | .injectFormError => some (inj, [.flag (FaultCan.injectFormError inj)])

/-- `fire` leaves the bus alone. -/
def oneWire : FaultOneWire.Call → Option (Injector × List (Answer Empty))
  | .configure config => some (inj.configure config, [.ok])
  | .arm => some (inj.arm, [.ok])
  | .disarm => some (inj.disarm, [.ok])
  | .resetStats => some (inj.resetStats, [])
  | .fire => some ((FaultOneWire.fire inj).2, [.fired (FaultOneWire.fire inj).1])
  | .injectData byte index =>
    (FaultOneWire.injectData p inj byte index).map fun r => (r.2, [.byte r.1])
  | .injectRomCommand cmd =>
    (FaultOneWire.injectRomCommand p inj cmd).map fun r => (r.2, [.byte r.1])
  | .injectTimingViolation => some (inj, [])

end

theorem spi_state (p : Profile) (inj : Injector) (c : FaultSpi.Call) :
    (spi p inj c).map Prod.fst = FaultSpi.call p inj c := by
  cases c <;> simp only [spi, FaultSpi.call, Option.map_map, Option.map_some] <;> rfl

theorem i2c_state (p : Profile) (inj : Injector) (c : FaultI2c.Call) :
    (i2c p inj c).map Prod.fst = FaultI2c.call p inj c := by
  cases c <;> simp only [i2c, FaultI2c.call, Option.map_map, Option.map_some] <;> rfl

theorem uart_state (p : Profile) (inj : UartInjector) (c : FaultUartInjector.Call) :
    (uart p inj c).map Prod.fst = FaultUartInjector.call p inj c := by
  cases c <;> simp only [uart, FaultUartInjector.call, Option.map_map, Option.map_some] <;> rfl

theorem can_state (p : Profile) (inj : Injector) (c : FaultCan.Call) :
    (can p inj c).map Prod.fst = FaultCan.call p inj c := by
  cases c <;> simp only [can, FaultCan.call, Option.map_map, Option.map_some] <;> rfl

theorem oneWire_state (p : Profile) (inj : Injector) (c : FaultOneWire.Call) :
    (oneWire p inj c).map Prod.fst = FaultOneWire.call p inj c := by
  cases c <;> simp only [oneWire, FaultOneWire.call, Option.map_map, Option.map_some] <;> rfl

end EmbeddedDaq.FaultAnswers

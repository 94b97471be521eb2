import Mathlib.Tactic.Common

set_option autoImplicit false

namespace EmbeddedDaq.SharedHealth

inductive HealthError where
  | stackCanary
  | ramTest
  | flashCRC
  | timerNotTicking
  | clockOutOfRange
  | clockHclkNotRunning
  | adcCalibration
  | i2cInitFailed
  | spiInitFailed
  | uartInitFailed
  | dmaInitFailed
  deriving DecidableEq, Repr

inductive HealthStatus where
  | ready
  | fail (error : HealthError)
  deriving DecidableEq, Repr

namespace HealthStatus

def asStr : HealthStatus → String
  | ready => "READY\n"
  | fail .adcCalibration => "FAIL:adc\n"
  | fail .timerNotTicking => "FAIL:tim\n"
  | fail .clockOutOfRange => "FAIL:clk\n"
  | fail .clockHclkNotRunning => "FAIL:hclk\n"
  | fail .stackCanary => "FAIL:stack\n"
  | fail .ramTest => "FAIL:ram\n"
  | fail .flashCRC => "FAIL:flash\n"
  | fail .i2cInitFailed => "FAIL:i2c\n"
  | fail .spiInitFailed => "FAIL:spi\n"
  | fail .uartInitFailed => "FAIL:uart\n"
  | fail .dmaInitFailed => "FAIL:dma\n"

end HealthStatus

end EmbeddedDaq.SharedHealth

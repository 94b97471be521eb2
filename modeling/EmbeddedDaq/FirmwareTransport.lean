import EmbeddedDaq.SharedConfig
import EmbeddedDaq.SharedPacketBytes

set_option autoImplicit false

/-!
# The USART2 transport

`uart` collects the bytes given to `Uart::write`, which is taken to transmit
all of them.
-/
namespace EmbeddedDaq.FirmwareTransport
open FirmwareWords SharedPacket SharedPacketBytes SharedConfig

structure Transport where
  uart : List U8
  enabled : Bool
  deriving DecidableEq, Repr

namespace Transport

def new : Transport := ⟨[], false⟩

def setEnabled (t : Transport) (enabled : Bool) : Transport := { t with enabled := enabled }

def sendPacket (t : Transport) (pad : ℕ → U8) (pkt : SamplePacket) : Transport :=
  if !t.enabled then t else { t with uart := t.uart ++ asBytes pad pkt }

/-- Not gated by `enabled`. -/
def sendConfig (t : Transport) (pad : ℕ → U8) (cfg : AcquisitionConfig) : Transport :=
  { t with uart := t.uart ++ cfg.rawBytes pad }

theorem sendPacket_disabled {t : Transport} (h : t.enabled = false) (pad : ℕ → U8)
    (pkt : SamplePacket) : t.sendPacket pad pkt = t := by
  simp [sendPacket, h]

end Transport

end EmbeddedDaq.FirmwareTransport

import EmbeddedDaq.FirmwareAdcTask

set_option autoImplicit false

namespace EmbeddedDaq.FirmwareTransportTask
open FirmwareWords FirmwareTransport SharedPacket SharedConfig FirmwareAdcTask

structure TransportTask where
  transport : Transport
  packet : SamplePacket
  seq : U16
  /-- The `static mut` of `get_timestamp`. -/
  timestampCounter : U32
  deriving DecidableEq, Repr

def getSampleValue (p : Profile) (channel : U8) : Option U32 :=
  mulWord p (channel.setWidth 32) 2048

def getTimestamp (timestampCounter : U32) : U32 := timestampCounter + 100

/-- The state when the loop is entered; the counter of `get_timestamp` starts at zero. -/
def TransportTask.start (transport : Transport) (padding : ℕ → U8) : TransportTask :=
  ⟨transport.sendConfig padding AcquisitionConfig.default, SamplePacket.new, 0, 0⟩

def sendIfFull (s : TransportTask) (padding : ℕ → U8) : TransportTask × List Event :=
  if s.packet.isFull then
    let packet := s.packet.finalize s.seq
    ({ s with
        transport := s.transport.sendPacket padding packet
        seq := s.seq + 1
        packet := SamplePacket.new },
      [.sendPacket packet padding])
  else (s, [])

def iteration (p : Profile) (s : TransportTask) (padding : ℕ → U8) :
    Option (TransportTask × List Event) := do
  let sample1Value ← getSampleValue p 0
  let sample2Value ← getSampleValue p 1
  let timestamp := getTimestamp s.timestampCounter
  let s := { s with timestampCounter := timestamp }
  let s := { s with packet := s.packet.push .analog0 timestamp sample1Value }
  let s := { s with packet := s.packet.push .analog1 timestamp sample2Value }
  let (s, sent) := sendIfFull s padding
  some (s, [.push ⟨.analog0, timestamp, sample1Value⟩, .push ⟨.analog1, timestamp, sample2Value⟩] ++
    sent)

def transportTask (p : Profile) (transport : Transport) (configPadding : ℕ → U8)
    (paddings : List (ℕ → U8)) : Option (TransportTask × List Event) :=
  GeneralRuns.run (iteration p) (TransportTask.start transport configPadding) paddings

end EmbeddedDaq.FirmwareTransportTask

import EmbeddedDaq.FirmwareAnalog
import EmbeddedDaq.FirmwareTransport
import EmbeddedDaq.GeneralRuns

set_option autoImplicit false

/-!
# The acquisition task

One iteration of the loop of `adc_task` reads the ring once. A `Turn` is what
the environment supplies to it: the result of the read, and what the padding of
the packet's memory holds. The events are the calls of `push` and `send_packet`
in call order.
-/
namespace EmbeddedDaq.FirmwareAdcTask
open FirmwareWords FirmwareAnalog FirmwareTransport SharedPacket

inductive RingRead where
  | overrun (samples : ℕ)
  | ok (n : ℕ) (measurements : Vector U16 2048)

structure Turn where
  read : RingRead
  padding : ℕ → U8

inductive Event where
  | push (call : PushCall)
  | sendPacket (pkt : SamplePacket) (padding : ℕ → U8)

structure AdcTask where
  adcSampler : AnalogSampler
  packet : SamplePacket
  seq : U16
  lastTimestamp : U32
  transport : Transport
  deriving DecidableEq, Repr

def AdcTask.start (transport : Transport) : AdcTask :=
  ⟨AnalogSampler.new, SamplePacket.new, 0, 0, transport⟩

def pushReading (s : AdcTask) (channel : ChannelId) (timestamp mv : U32) :
    AdcTask × List Event :=
  if !isnan mv then
    ({ s with packet := s.packet.push channel timestamp mv }, [.push ⟨channel, timestamp, mv⟩])
  else (s, [])

/-- Tested once, after both readings. -/
def sendIfFull (s : AdcTask) (padding : ℕ → U8) : AdcTask × List Event :=
  if s.packet.isFull then
    let packet := s.packet.finalize s.seq
    ({ s with
        packet := SamplePacket.new
        seq := s.seq + 1
        transport := s.transport.sendPacket padding packet },
      [.sendPacket packet padding])
  else (s, [])

def process (p : Profile) (s : AdcTask) (padding : ℕ → U8) (measurements : List U16)
    (count : ℕ) : Option (AdcTask × List Event) := do
  let adcSampler ← s.adcSampler.updateAnalog p measurements count
  let s := { s with adcSampler := adcSampler }
  let timestamp := s.lastTimestamp
  let (s, pushed0) := pushReading s .analog0 timestamp adcSampler.pa0Mv
  let (s, pushed1) := pushReading s .analog1 timestamp adcSampler.pa1Mv
  let (s, sent) := sendIfFull s padding
  let elapsed ← mulWord p (BitVec.ofNat 32 count) 100
  some ({ s with lastTimestamp := s.lastTimestamp + elapsed }, pushed0 ++ pushed1 ++ sent)

def iteration (p : Profile) (s : AdcTask) (turn : Turn) : Option (AdcTask × List Event) :=
  match turn.read with
  | .overrun _ => some (s, [])
  | .ok n measurements =>
    let count := min n 2048
    if count = 0 then some (s, [])
    else process p s turn.padding measurements.toList count

def adcRun (p : Profile) (transport : Transport) (turns : List Turn) :
    Option (AdcTask × List Event) :=
  GeneralRuns.run (iteration p) (AdcTask.start transport) turns

/-- `main` under the analog feature: the new transport goes straight into the task. -/
def analogMain (p : Profile) (turns : List Turn) : Option (AdcTask × List Event) :=
  adcRun p Transport.new turns

end EmbeddedDaq.FirmwareAdcTask

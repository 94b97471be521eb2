import EmbeddedDaq.FirmwareWords

set_option autoImplicit false

namespace EmbeddedDaq.FirmwareAnalog
open FirmwareWords

structure AnalogSampler where
  pa0Mv : U32
  pa1Mv : U32
  sampleCount : U32
  deriving DecidableEq, Repr

def AnalogSampler.new : AnalogSampler := ⟨0, 0, 0⟩

def countsToMv (p : Profile) (counts : U32) : Option U32 := do
  let scaled ← mulWord p counts 3300
  divWord scaled 4095

/-- `iter().step_by(2)`. -/
def stepByTwo {α : Type*} : List α → List α
  | [] => []
  | [x] => [x]
  | x :: _ :: rest => x :: stepByTwo rest

/-- `measurements[..count]`, which panics past the end. -/
def sliceTo {α : Type*} (measurements : List α) (count : ℕ) : Option (List α) :=
  if count ≤ measurements.length then some (measurements.take count) else none

/-- The average of one channel, `words` being its share of the buffer. -/
def channelMv (p : Profile) (words : List U16) (count : ℕ) : Option U32 := do
  let total ← sumWords p (words.map (BitVec.setWidth 32))
  let average ← divWord total (BitVec.ofNat 32 (count / 2))
  countsToMv p average

def AnalogSampler.updateAnalog (p : Profile) (s : AnalogSampler) (measurements : List U16)
    (count : ℕ) : Option AnalogSampler :=
  if count < 2 then some s
  else do
    let window ← sliceTo measurements count
    let pa0Mv ← channelMv p (stepByTwo window) count
    let pa1Mv ← channelMv p (stepByTwo (window.drop 1)) count
    let sampleCount ← addWord p s.sampleCount (BitVec.ofNat 32 count)
    some ⟨pa0Mv, pa1Mv, sampleCount⟩

def isnan (value : U32) : Bool := value.toNat = 0 ∨ 65535 < value.toNat

end EmbeddedDaq.FirmwareAnalog

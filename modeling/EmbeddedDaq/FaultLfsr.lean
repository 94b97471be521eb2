import EmbeddedDaq.FirmwareWords

set_option autoImplicit false

namespace EmbeddedDaq.FaultLfsr
open FirmwareWords

def bitFlip (byte bit : U8) : U8 := byte ^^^ ((1 : U8) <<< (bit &&& 7))
def bitSet (byte bit : U8) : U8 := byte ||| ((1 : U8) <<< (bit &&& 7))
def bitClear (byte bit : U8) : U8 := byte &&& ~~~((1 : U8) <<< (bit &&& 7))

theorem xor_ne_self {w : ℕ} (x : BitVec w) {mask : BitVec w} (h : mask ≠ 0) : x ^^^ mask ≠ x := by
  intro hsame
  apply h
  apply (BitVec.xor_right_inj x).mp
  exact hsame.trans BitVec.xor_zero.symm

theorem bitFlip_ne (byte bit : U8) : bitFlip byte bit ≠ byte := by
  have hmask : (1 : U8) <<< (bit &&& 7) ≠ 0 := by
    revert bit
    decide +kernel
  exact xor_ne_self byte hmask

structure Lfsr where
  state : U16
  deriving DecidableEq, Repr

namespace Lfsr

def new (seed : U16) : Lfsr := ⟨if seed = 0 then 1 else seed⟩

def next (l : Lfsr) : U16 × Lfsr :=
  let bit := ((l.state >>> 0) ^^^ (l.state >>> 2) ^^^ (l.state >>> 3) ^^^ (l.state >>> 5)) &&& 1
  let state := (l.state >>> 1) ||| (bit <<< 15)
  (state, ⟨state⟩)

def nextBit (l : Lfsr) : U8 × Lfsr :=
  let (value, l) := l.next
  ((value &&& 0x07).setWidth 8, l)

end Lfsr

def shouldInject (l : Lfsr) (permille : U16) : Bool × Lfsr :=
  if permille = 0 then (false, l)
  else if 1000 ≤ permille then (true, l)
  else
    let (value, l) := l.next
    let r := value &&& 0x03FF
    (r < permille, l)

theorem shouldInject_always {permille : U16} (h : 1000 ≤ permille.toNat) (l : Lfsr) :
    shouldInject l permille = (true, l) := by
  have hzero : permille ≠ 0 := by
    rintro rfl
    exact absurd h (by decide)
  have habove : (1000 : U16) ≤ permille := BitVec.le_def.mpr h
  rw [shouldInject, if_neg hzero, if_pos habove]

/-- How many of `n` consecutive calls answer true. -/
def trueResults {S : Type*} (call : S → Bool × S) : ℕ → S → ℕ
  | 0, _ => 0
  | n + 1, s =>
    let (answer, s) := call s
    answer.toNat + trueResults call n s

end EmbeddedDaq.FaultLfsr

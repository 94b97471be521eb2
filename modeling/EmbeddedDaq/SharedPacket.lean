import EmbeddedDaq.FirmwareWords
import EmbeddedDaq.GeneralBoundedList

set_option autoImplicit false

namespace EmbeddedDaq.SharedPacket
open FirmwareWords GeneralBoundedList

inductive ChannelId where
  | analog0
  | analog1
  | pwmIn
  deriving DecidableEq, Repr

/-- The `repr(u8)` discriminants. -/
def ChannelId.toU8 : ChannelId → U8
  | .analog0 => 0
  | .analog1 => 1
  | .pwmIn => 2

structure Sample where
  channel : ChannelId
  timestampUs : U32
  value : U32
  flags : U8
  deriving DecidableEq, Repr

abbrev samplesPerPacket : ℕ := 32

structure SamplePacket where
  magic : U16
  seq : U16
  count : U16
  samples : Vector Sample samplesPerPacket
  deriving DecidableEq, Repr

structure PushCall where
  channel : ChannelId
  timestampUs : U32
  value : U32
  deriving DecidableEq, Repr

def PushCall.sample (c : PushCall) : Sample := ⟨c.channel, c.timestampUs, c.value, 0⟩

namespace SamplePacket

def packetMagic : U16 := 0xDA71

def defaultSample : Sample := ⟨.analog0, 0, 0, 0⟩

def new : SamplePacket := ⟨packetMagic, 0, 0, Vector.replicate samplesPerPacket defaultSample⟩

/-- The increment cannot overflow: it is reached only below 32. -/
def push (pkt : SamplePacket) (channel : ChannelId) (timestampUs value : U32) : SamplePacket :=
  if h : pkt.count.toNat < samplesPerPacket then
    { pkt with
        samples := pkt.samples.set pkt.count.toNat ⟨channel, timestampUs, value, 0⟩ h
        count := pkt.count + 1 }
  else pkt

def isFull (pkt : SamplePacket) : Bool := samplesPerPacket ≤ pkt.count.toNat

def finalize (pkt : SamplePacket) (seq : U16) : SamplePacket :=
  { pkt with magic := packetMagic, seq := seq }

def pushAll (pkt : SamplePacket) (calls : List PushCall) : SamplePacket :=
  calls.foldl (fun pkt c => pkt.push c.channel c.timestampUs c.value) pkt

def filled (pkt : SamplePacket) : List Sample := pkt.samples.toList.take pkt.count.toNat

structure WellFormed (pkt : SamplePacket) : Prop where
  magic_eq : pkt.magic = packetMagic
  count_le : pkt.count.toNat ≤ samplesPerPacket

theorem new_wellFormed : new.WellFormed := ⟨rfl, by decide⟩

theorem new_filled : new.filled = [] := rfl

theorem new_isFull : new.isFull = false := rfl

theorem push_of_room {pkt : SamplePacket} (h : pkt.count.toNat < samplesPerPacket)
    (channel : ChannelId) (timestampUs value : U32) :
    pkt.push channel timestampUs value =
      { pkt with
          samples := pkt.samples.set pkt.count.toNat ⟨channel, timestampUs, value, 0⟩ h
          count := pkt.count + 1 } := by
  simp only [push, h, ↓reduceDIte]

theorem push_of_full {pkt : SamplePacket} (h : samplesPerPacket ≤ pkt.count.toNat)
    (channel : ChannelId) (timestampUs value : U32) :
    pkt.push channel timestampUs value = pkt := by
  simp only [push, Nat.not_lt.mpr h, ↓reduceDIte]

theorem count_succ {pkt : SamplePacket} (h : pkt.count.toNat < samplesPerPacket) :
    (pkt.count + 1).toNat = pkt.count.toNat + 1 := by
  have h16 : pkt.count.toNat + 1 < 2 ^ 16 := by
    have : samplesPerPacket = 32 := rfl
    omega
  rw [BitVec.toNat_add]
  exact Nat.mod_eq_of_lt h16

@[simp] theorem push_magic (pkt : SamplePacket) (channel : ChannelId) (timestampUs value : U32) :
    (pkt.push channel timestampUs value).magic = pkt.magic := by
  unfold push
  split <;> rfl

theorem push_wellFormed {pkt : SamplePacket} (hp : pkt.WellFormed) (channel : ChannelId)
    (timestampUs value : U32) : (pkt.push channel timestampUs value).WellFormed := by
  refine ⟨by rw [push_magic, hp.magic_eq], ?_⟩
  by_cases h : pkt.count.toNat < samplesPerPacket
  · rw [push_of_room h]
    change (pkt.count + 1).toNat ≤ samplesPerPacket
    rw [count_succ h]
    exact h
  · rw [push_of_full (Nat.not_lt.mp h)]
    exact hp.count_le

theorem finalize_wellFormed {pkt : SamplePacket} (hp : pkt.WellFormed) (seq : U16) :
    (pkt.finalize seq).WellFormed := ⟨rfl, hp.count_le⟩

@[simp] theorem finalize_filled (pkt : SamplePacket) (seq : U16) :
    (pkt.finalize seq).filled = pkt.filled := rfl

theorem filled_length {pkt : SamplePacket} (hp : pkt.WellFormed) :
    pkt.filled.length = pkt.count.toNat := by
  rw [filled, List.length_take, Vector.length_toList, Nat.min_eq_left hp.count_le]

theorem filled_of_full {pkt : SamplePacket} (h : samplesPerPacket ≤ pkt.count.toNat) :
    pkt.filled = pkt.samples.toList :=
  List.take_of_length_le (by rwa [Vector.length_toList])

theorem push_filled {pkt : SamplePacket} (hp : pkt.WellFormed) (channel : ChannelId)
    (timestampUs value : U32) :
    (pkt.push channel timestampUs value).filled =
      (pkt.filled ++ [(⟨channel, timestampUs, value, 0⟩ : Sample)]).take samplesPerPacket := by
  have hlen := filled_length hp
  by_cases h : pkt.count.toNat < samplesPerPacket
  · have hidx : pkt.count.toNat < (pkt.samples.set pkt.count.toNat
        ⟨channel, timestampUs, value, 0⟩ h).toList.length := by
      rwa [Vector.length_toList]
    have hshort : (pkt.filled ++ [(⟨channel, timestampUs, value, 0⟩ : Sample)]).length ≤
        samplesPerPacket := by
      rw [List.length_append, hlen]
      exact h
    rw [List.take_of_length_le hshort, push_of_room h]
    change (pkt.samples.set _ _ h).toList.take (pkt.count + 1).toNat = _
    rw [count_succ h, List.take_succ_eq_append_getElem hidx]
    simp only [Vector.toList_set, List.getElem_set_self, List.take_set_of_le (Nat.le_refl _), filled]
  · have hfull := Nat.not_lt.mp h
    rw [push_of_full hfull, List.take_append_of_le_length (by rwa [hlen]), List.take_of_length_le]
    rw [hlen]
    exact hp.count_le

theorem pushAll_append (pkt : SamplePacket) (xs ys : List PushCall) :
    pkt.pushAll (xs ++ ys) = (pkt.pushAll xs).pushAll ys := List.foldl_append

/-- The filled part of the array implements a bounded list of samples. -/
structure Represents (pkt : SamplePacket) (b : BoundedList Sample samplesPerPacket) : Prop where
  wellFormed : pkt.WellFormed
  filled_eq : pkt.filled = b.items

theorem push_represents {pkt : SamplePacket} {b : BoundedList Sample samplesPerPacket}
    (h : pkt.Represents b) (c : PushCall) :
    (pkt.push c.channel c.timestampUs c.value).Represents (b.push c.sample) := by
  refine ⟨push_wellFormed h.wellFormed _ _ _, ?_⟩
  rw [push_filled h.wellFormed, BoundedList.items_push, h.filled_eq]
  rfl

theorem pushAll_represents {pkt : SamplePacket} (hp : pkt.WellFormed) (calls : List PushCall) :
    (pkt.pushAll calls).Represents
      (BoundedList.pushAll ⟨pkt.filled, filled_length hp ▸ hp.count_le⟩
        (calls.map PushCall.sample)) :=
  BoundedList.simulates_pushAll (R := Represents) (fun _ _ c h => push_represents h c) ⟨hp, rfl⟩
    calls

theorem pushAll_wellFormed {pkt : SamplePacket} (hp : pkt.WellFormed) (calls : List PushCall) :
    (pkt.pushAll calls).WellFormed := (pushAll_represents hp calls).wellFormed

theorem pushAll_filled {pkt : SamplePacket} (hp : pkt.WellFormed) (calls : List PushCall) :
    (pkt.pushAll calls).filled =
      (pkt.filled ++ calls.map PushCall.sample).take samplesPerPacket :=
  (pushAll_represents hp calls).filled_eq.trans (BoundedList.items_pushAll _ _)

theorem isFull_iff {pkt : SamplePacket} (hp : pkt.WellFormed) :
    pkt.isFull = true ↔ samplesPerPacket ≤ pkt.filled.length := by
  rw [filled_length hp, isFull, decide_eq_true_eq]

theorem new_pushAll_filled (calls : List PushCall) :
    (new.pushAll calls).filled = (calls.map PushCall.sample).take samplesPerPacket := by
  rw [pushAll_filled new_wellFormed, new_filled, List.nil_append]

theorem pushAll_full {calls : List PushCall} (h : (new.pushAll calls).isFull = true) :
    (new.pushAll calls).count.toNat = samplesPerPacket ∧ samplesPerPacket ≤ calls.length ∧
      (new.pushAll calls).samples.toList = (calls.take samplesPerPacket).map PushCall.sample := by
  have hp := pushAll_wellFormed new_wellFormed calls
  have hfull := (isFull_iff hp).mp h
  have hcount : (new.pushAll calls).count.toNat = samplesPerPacket :=
    Nat.le_antisymm hp.count_le (filled_length hp ▸ hfull)
  refine ⟨hcount, ?_, ?_⟩
  · rw [new_pushAll_filled, List.length_take, List.length_map] at hfull
    exact Nat.le_trans hfull (Nat.min_le_right _ _)
  · rw [← filled_of_full (Nat.le_of_eq hcount.symm), new_pushAll_filled, List.map_take]

end SamplePacket

end EmbeddedDaq.SharedPacket

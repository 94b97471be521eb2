import EmbeddedDaq.SharedPacket
import EmbeddedDaq.GeneralBoundedList

set_option autoImplicit false

namespace EmbeddedDaq.PacketList
open FirmwareWords SharedPacket SamplePacket GeneralBoundedList

inductive Operation where
  | push (c : PushCall)
  | finalize (seq : U16)
  deriving DecidableEq, Repr

def operate (pkt : SamplePacket) : Operation → SamplePacket
  | .push c => pkt.push c.channel c.timestampUs c.value
  | .finalize seq => pkt.finalize seq

structure PacketContents where
  pushes : BoundedList PushCall samplesPerPacket
  seq : U16

def PacketContents.empty : PacketContents := ⟨BoundedList.empty, 0⟩

def PacketContents.operate (contents : PacketContents) : Operation → PacketContents
  | .push c => { contents with pushes := contents.pushes.push c }
  | .finalize seq => { contents with seq := seq }

/-- The slots hold the pushes in order, and behind them what they held at first. -/
structure Implements (pkt : SamplePacket) (contents : PacketContents) : Prop where
  magic : pkt.magic = packetMagic
  seq : pkt.seq = contents.seq
  count : pkt.count.toNat = contents.pushes.items.length
  samples : ∀ i : Fin samplesPerPacket, pkt.samples.get i =
    (contents.pushes.items[i.val]?.map PushCall.sample).getD defaultSample

def pushedBy : Operation → Option PushCall
  | .push c => some c
  | .finalize _ => none

def numberedBy : Operation → Option U16
  | .push _ => none
  | .finalize seq => some seq

theorem new_implements : Implements new PacketContents.empty := by
  refine ⟨rfl, rfl, rfl, ?_⟩
  intro i
  change (Vector.replicate samplesPerPacket defaultSample)[i.val] = _
  rw [Vector.getElem_replicate]
  rfl

theorem push_get {pkt : SamplePacket} (h : pkt.count.toNat < samplesPerPacket) (c : PushCall)
    (i : Fin samplesPerPacket) :
    (pkt.push c.channel c.timestampUs c.value).samples.get i =
      if pkt.count.toNat = i.val then c.sample else pkt.samples.get i := by
  rw [push_of_room h]
  change (pkt.samples.set pkt.count.toNat c.sample h)[i.val] = _
  rw [Vector.getElem_set]
  rfl

theorem operate_implements {pkt : SamplePacket} {contents : PacketContents}
    (h : Implements pkt contents) (op : Operation) :
    Implements (operate pkt op) (contents.operate op) := by
  cases op with
  | finalize seq => exact ⟨rfl, rfl, h.count, h.samples⟩
  | push c =>
    by_cases hroom : contents.pushes.items.length < samplesPerPacket
    · have hcount : pkt.count.toNat < samplesPerPacket := h.count ▸ hroom
      have hitems := BoundedList.push_of_room hroom c
      refine ⟨?_, ?_, ?_, ?_⟩
      · exact (push_magic pkt _ _ _).trans h.magic
      · rw [operate, push_of_room hcount]
        exact h.seq
      · rw [operate, push_of_room hcount]
        change (pkt.count + 1).toNat = (contents.pushes.push c).items.length
        rw [count_succ hcount, hitems, h.count, List.length_append, List.length_singleton]
      · intro i
        change (pkt.push c.channel c.timestampUs c.value).samples.get i =
          ((contents.pushes.push c).items[i.val]?.map PushCall.sample).getD defaultSample
        rw [push_get hcount, hitems, h.count, h.samples i]
        rcases Nat.lt_trichotomy i.val contents.pushes.items.length with hlt | heq | hgt
        · rw [if_neg (by omega), List.getElem?_append_left hlt]
        · rw [if_pos heq.symm, heq, List.getElem?_concat_length]
          rfl
        · have hold : contents.pushes.items[i.val]? = none := List.getElem?_eq_none (by omega)
          have hnew : (contents.pushes.items ++ [c])[i.val]? = none := by
            apply List.getElem?_eq_none
            rw [List.length_append, List.length_singleton]
            omega
          rw [if_neg (by omega), hold, hnew]
    · have hfull : samplesPerPacket ≤ pkt.count.toNat := h.count ▸ Nat.not_lt.mp hroom
      rw [operate, PacketContents.operate, push_of_full hfull, BoundedList.push_of_full hroom]
      exact h

theorem run_implements (ops : List Operation) :
    Implements (ops.foldl operate new) (ops.foldl PacketContents.operate PacketContents.empty) := by
  induction ops using List.reverseRecOn with
  | nil => exact new_implements
  | append_singleton ops op ih =>
    rw [List.foldl_append, List.foldl_append]
    exact operate_implements ih op

theorem contents_run (ops : List Operation) :
    (ops.foldl PacketContents.operate PacketContents.empty).pushes =
        BoundedList.empty.pushAll (ops.filterMap pushedBy) ∧
      (ops.foldl PacketContents.operate PacketContents.empty).seq =
        (ops.filterMap numberedBy).getLast?.getD 0 := by
  induction ops using List.reverseRecOn with
  | nil => exact ⟨rfl, rfl⟩
  | append_singleton ops op ih =>
    obtain ⟨hpushes, hseq⟩ := ih
    rw [List.foldl_append, List.filterMap_append, List.filterMap_append]
    cases op with
    | push c =>
      refine ⟨?_, ?_⟩
      · change BoundedList.push _ c = BoundedList.pushAll _ (_ ++ [c])
        rw [hpushes, BoundedList.pushAll_concat]
      · change PacketContents.seq _ = (_ ++ []).getLast?.getD 0
        rw [List.append_nil]
        exact hseq
    | finalize seq =>
      refine ⟨?_, ?_⟩
      · change PacketContents.pushes _ = BoundedList.pushAll _ (_ ++ [])
        rw [List.append_nil]
        exact hpushes
      · change seq = (_ ++ [seq]).getLast?.getD 0
        rw [List.getLast?_concat]
        rfl

/-- What is in a packet after `pushes` and the numbers `seqs`. -/
structure Holds (pkt : SamplePacket) (pushes : List PushCall) (seqs : List U16) : Prop where
  magic : pkt.magic = packetMagic
  seq : pkt.seq = seqs.getLast?.getD 0
  count : pkt.count.toNat = min pushes.length samplesPerPacket
  samples : ∀ i : Fin samplesPerPacket, pkt.samples.get i =
    (pushes[i.val]?.map PushCall.sample).getD defaultSample
  full : pkt.isFull = true ↔ samplesPerPacket ≤ pushes.length
  overflow : pkt.isFull = true → ∀ c : PushCall, pkt.push c.channel c.timestampUs c.value = pkt

/-- After any interleaving of pushes and finalizations the packet is the bounded list of the
pushes. -/
theorem packet_holds (ops : List Operation) :
    Holds (ops.foldl operate new) (ops.filterMap pushedBy) (ops.filterMap numberedBy) := by
  have h := run_implements ops
  obtain ⟨hpushes, hseq⟩ := contents_run ops
  have hitems : (ops.foldl PacketContents.operate PacketContents.empty).pushes.items =
      (ops.filterMap pushedBy).take samplesPerPacket := by
    rw [hpushes, BoundedList.items_pushAll]
    rfl
  have hcount : (ops.foldl operate new).count.toNat =
      min (ops.filterMap pushedBy).length samplesPerPacket := by
    rw [h.count, hitems, List.length_take, Nat.min_comm]
  refine ⟨h.magic, h.seq.trans hseq, hcount, ?_, ?_, ?_⟩
  · intro i
    rw [h.samples i, hitems, List.getElem?_take_of_lt i.isLt]
  · rw [isFull, decide_eq_true_eq, hcount]
    omega
  · intro hfull c
    rw [isFull, decide_eq_true_eq] at hfull
    exact push_of_full hfull _ _ _

end EmbeddedDaq.PacketList

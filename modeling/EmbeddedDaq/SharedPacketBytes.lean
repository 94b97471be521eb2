import EmbeddedDaq.SharedPacket
import EmbeddedDaq.GeneralReprC
import EmbeddedDaq.GeneralLittleEndian

set_option autoImplicit false

/-!
# Raw view of a packet

`as_bytes` reads the memory of a `repr(C)` record on a little-endian target
where `u32` is aligned to four. The offsets are computed by the layout rules,
never written down.
-/
namespace EmbeddedDaq.SharedPacketBytes
open FirmwareWords SharedPacket GeneralReprC GeneralLittleEndian

def u8Image (x : U8) : Image U8 := scalar [x]
def u16Image (x : U16) : Image U8 := scalar (toBytes 2 x.toNat)
def u32Image (x : U32) : Image U8 := scalar (toBytes 4 x.toNat)

def sampleImage (s : Sample) : Image U8 :=
  record [u8Image s.channel.toU8, u32Image s.timestampUs, u32Image s.value, u8Image s.flags]

def packetImage (pkt : SamplePacket) : Image U8 :=
  record [u16Image pkt.magic, u16Image pkt.seq, u16Image pkt.count,
    array (pkt.samples.toList.map sampleImage)]

/-- The bytes of the record; `pad i` is what the padding byte at offset `i` holds. -/
def asBytes (pad : ℕ → U8) (pkt : SamplePacket) : List U8 := fill pad (packetImage pkt).cells

@[simp] theorem u8Image_align (x : U8) : (u8Image x).align = 1 := rfl
@[simp] theorem u16Image_align (x : U16) : (u16Image x).align = 2 := toBytes_length 2 _
@[simp] theorem u32Image_align (x : U32) : (u32Image x).align = 4 := toBytes_length 4 _
@[simp] theorem u8Image_cells (x : U8) : (u8Image x).cells = [some x] := rfl
@[simp] theorem u16Image_cells (x : U16) :
    (u16Image x).cells = (toBytes 2 x.toNat).map some := rfl
@[simp] theorem u32Image_cells (x : U32) :
    (u32Image x).cells = (toBytes 4 x.toNat).map some := rfl

@[simp] theorem sampleImage_align (s : Sample) : (sampleImage s).align = 4 := by
  simp [sampleImage, record, maxAlign]

theorem sampleImage_cells (s : Sample) :
    (sampleImage s).cells =
      [some s.channel.toU8] ++ List.replicate 3 none ++ (toBytes 4 s.timestampUs.toNat).map some ++
        (toBytes 4 s.value.toNat).map some ++ [some s.flags] ++ List.replicate 3 none := by
  simp [sampleImage, record, maxAlign, place, alignTo, roundUp]

theorem sampleImage_size (s : Sample) : (sampleImage s).cells.length = 16 := by
  simp [sampleImage_cells]

theorem mem_samplesImage {pkt : SamplePacket} {e : Image U8}
    (he : e ∈ pkt.samples.toList.map sampleImage) : ∃ s, e = sampleImage s := by
  obtain ⟨s, -, rfl⟩ := List.mem_map.mp he
  exact ⟨s, rfl⟩

@[simp] theorem samplesImage_size (pkt : SamplePacket) :
    (array (pkt.samples.toList.map sampleImage)).cells.length = 512 := by
  have hsize : ∀ e ∈ pkt.samples.toList.map sampleImage, e.cells.length = 16 := by
    intro e he
    obtain ⟨s, rfl⟩ := mem_samplesImage he
    exact sampleImage_size s
  rw [array_size _ hsize, List.length_map, Vector.length_toList]
  rfl

@[simp] theorem samplesImage_align (pkt : SamplePacket) :
    (array (pkt.samples.toList.map sampleImage)).align = 4 := by
  refine array_align (by decide) _ ?_ ?_
  · intro h
    have hlen := congrArg List.length h
    rw [List.length_map, Vector.length_toList] at hlen
    cases hlen
  · intro e he
    obtain ⟨s, rfl⟩ := mem_samplesImage he
    exact sampleImage_align s

theorem packetImage_cells (pkt : SamplePacket) :
    (packetImage pkt).cells =
      (toBytes 2 pkt.magic.toNat ++ toBytes 2 pkt.seq.toNat ++ toBytes 2 pkt.count.toNat).map some ++
        List.replicate 2 none ++ (array (pkt.samples.toList.map sampleImage)).cells := by
  simp [packetImage, record, maxAlign, place, alignTo, roundUp]

theorem packetImage_size (pkt : SamplePacket) : (packetImage pkt).cells.length = 520 := by
  simp [packetImage_cells]

theorem asBytes_length (pad : ℕ → U8) (pkt : SamplePacket) : (asBytes pad pkt).length = 520 := by
  rw [asBytes, fill_length, packetImage_size]

theorem asBytes_header (pad : ℕ → U8) (pkt : SamplePacket) :
    asBytes pad pkt =
      toBytes 2 pkt.magic.toNat ++ toBytes 2 pkt.seq.toNat ++ toBytes 2 pkt.count.toNat ++
        [pad 6, pad 7] ++
        fill (fun i => pad (8 + i)) (array (pkt.samples.toList.map sampleImage)).cells := by
  rw [asBytes, packetImage_cells, fill_append, fill_append, fill_some, fill_none]
  simp [List.range_succ]

theorem asBytes_drop (pad : ℕ → U8) (pkt : SamplePacket) {k : ℕ} (hk : k ≤ 32) :
    (asBytes pad pkt).drop (8 + 16 * k) =
      fill (fun i => pad (8 + 16 * k + i))
        ((pkt.samples.toList.drop k).flatMap fun s => (sampleImage s).cells) := by
  have hfront : ((pkt.samples.toList.take k).flatMap fun s => (sampleImage s).cells).length =
      16 * k := by
    simp only [List.length_flatMap, sampleImage_size, List.map_const', List.sum_replicate_nat,
      List.length_take, Vector.length_toList, Nat.min_eq_left hk, Nat.mul_comm]
  have hcells : (array (pkt.samples.toList.map sampleImage)).cells =
      ((pkt.samples.toList.take k).flatMap fun s => (sampleImage s).cells) ++
        (pkt.samples.toList.drop k).flatMap fun s => (sampleImage s).cells := by
    rw [← List.flatMap_append, List.take_append_drop]
    exact List.flatMap_map ..
  have hlength : ((toBytes 2 pkt.magic.toNat ++ toBytes 2 pkt.seq.toNat ++
      toBytes 2 pkt.count.toNat).map some ++ List.replicate 2 none ++
        (pkt.samples.toList.take k).flatMap fun s => (sampleImage s).cells).length =
          8 + 16 * k := by
    rw [List.length_append, hfront]
    simp
  rw [asBytes, packetImage_cells, hcells, ← List.append_assoc, fill_append, hlength]
  exact List.drop_left' (by rw [fill_length, hlength])

end EmbeddedDaq.SharedPacketBytes

import EmbeddedDaq.SharedPacketBytes

set_option autoImplicit false

namespace EmbeddedDaq.SharedConfig
open FirmwareWords SharedPacketBytes GeneralReprC GeneralLittleEndian

structure AcquisitionConfig where
  sampleRateHz : U32
  channelsActive : U8
  dmaDepth : U16
  deriving DecidableEq, Repr

namespace AcquisitionConfig

def default : AcquisitionConfig := ⟨10000, 0x03, 4096⟩

def image (cfg : AcquisitionConfig) : Image U8 :=
  record [u32Image cfg.sampleRateHz, u8Image cfg.channelsActive, u16Image cfg.dmaDepth]

/-- The raw view of the record; `pad i` is what the padding byte at offset `i` holds. -/
def rawBytes (pad : ℕ → U8) (cfg : AcquisitionConfig) : List U8 := fill pad cfg.image.cells

theorem image_cells (cfg : AcquisitionConfig) :
    cfg.image.cells = (toBytes 4 cfg.sampleRateHz.toNat).map some ++ [some cfg.channelsActive] ++
      List.replicate 1 none ++ (toBytes 2 cfg.dmaDepth.toNat).map some := by
  simp [image, record, maxAlign, place, alignTo, roundUp]

theorem rawBytes_eq (pad : ℕ → U8) (cfg : AcquisitionConfig) :
    cfg.rawBytes pad = toBytes 4 cfg.sampleRateHz.toNat ++ [cfg.channelsActive] ++ [pad 5] ++
      toBytes 2 cfg.dmaDepth.toNat := by
  have hactive : [some cfg.channelsActive] = [cfg.channelsActive].map some := rfl
  rw [rawBytes, image_cells, hactive, fill_append, fill_append, fill_append, fill_some, fill_some,
    fill_some, fill_none]
  simp

end AcquisitionConfig

end EmbeddedDaq.SharedConfig

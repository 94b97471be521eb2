import EmbeddedDaq.GeneralLittleEndian
import Mathlib.Data.List.Range

set_option autoImplicit false

/-!
# The packet parser of the host client

`HostSample` and `HostSamplePacket` are the Python classes `Sample` and
`SamplePacket`; their integers are unbounded. A raised exception is the error
side of `Except`.
-/
namespace EmbeddedDaq.HostPacket
open GeneralLittleEndian

def packetMagic : ℕ := 0xDA71
def sampleCountBytes : ℕ := 2
def magicBytes : ℕ := 2
def seqBytes : ℕ := 2
def sampleSize : ℕ := 1 + 4 + 4 + 1
def maxSamples : ℕ := 32
def packetSize : ℕ := magicBytes + seqBytes + sampleCountBytes + maxSamples * sampleSize
def headerSize : ℕ := magicBytes + seqBytes + sampleCountBytes

inductive PyError where
  | valueError (message : String)
  | structError (message : String)
  | timeoutError (message : String)
  deriving DecidableEq, Repr

/-- `data[a:b]`. -/
def slice (a b : ℕ) (data : List Byte) : List Byte := (data.take b).drop a

/-- `struct.unpack` of one little-endian integer of the given size. -/
def unpack (size : ℕ) (data : List Byte) : Except PyError ℕ :=
  if data.length = size then .ok (ofBytes data)
  else .error (.structError s!"unpack requires a buffer of {size} bytes")

/-- `struct.unpack('<HHH', data)`. -/
def unpackHHH (data : List Byte) : Except PyError (ℕ × ℕ × ℕ) :=
  if data.length = 6 then
    .ok (ofBytes (slice 0 2 data), ofBytes (slice 2 4 data), ofBytes (slice 4 6 data))
  else .error (.structError "unpack requires a buffer of 6 bytes")

/-- The `04X` format. -/
def hex4 (n : ℕ) : String :=
  String.ofList (((Nat.toDigits 16 n).map Char.toUpper).leftpad 4 '0')

structure HostSample where
  channel : ℕ
  timestampUs : ℕ
  value : ℕ
  flags : ℕ
  deriving DecidableEq, Repr

def HostSample.fromBytes (data : List Byte) : Except PyError HostSample :=
  if data.length ≠ sampleSize then
    .error (.valueError s!"Sample data must be {sampleSize} bytes, got {data.length}")
  else do
    let channel ← unpack 1 (slice 0 1 data)
    let timestamp ← unpack 4 (slice 1 5 data)
    let value ← unpack 4 (slice 5 9 data)
    let flags ← unpack 1 (slice 9 10 data)
    .ok ⟨channel, timestamp, value, flags⟩

def HostSample.toMv (s : HostSample) (vrefMv : ℕ) : ℕ := s.value * vrefMv / 4095

structure HostSamplePacket where
  magic : ℕ
  seq : ℕ
  count : ℕ
  samples : List HostSample
  deriving DecidableEq, Repr

def HostSamplePacket.fromBytes (data : List Byte) : Except PyError HostSamplePacket :=
  if data.length < headerSize then
    .error (.valueError "Packet too short to contain header")
  else do
    let (magic, seq, count) ← unpackHHH (slice 0 headerSize data)
    if magic ≠ packetMagic then
      .error (.valueError
        s!"Invalid packet magic: 0x{hex4 magic}, expected 0x{hex4 packetMagic}")
    else if count > maxSamples then
      .error (.valueError s!"Packet claims {count} samples, max is {maxSamples}")
    else
      let sampleData := data.drop headerSize
      if sampleData.length < count * sampleSize then
        .error (.valueError
          s!"Packet claims {count} samples but only has {sampleData.length / sampleSize} samples worth of data")
      else do
        let samples ← (List.range count).mapM fun i =>
          HostSample.fromBytes (slice (i * sampleSize) (i * sampleSize + sampleSize) sampleData)
        .ok ⟨magic, seq, count, samples⟩

def HostSamplePacket.isValid (pkt : HostSamplePacket) : Bool :=
  pkt.magic = packetMagic ∧ 0 < pkt.count ∧ pkt.count ≤ maxSamples ∧
    pkt.samples.length = pkt.count

theorem slice_length (a b : ℕ) (data : List Byte) :
    (slice a b data).length = min b data.length - a := by
  rw [slice, List.length_drop, List.length_take]

theorem slice_getElem? (a b i : ℕ) (data : List Byte) :
    (slice a b data)[i]? = if a + i < b then data[a + i]? else none := by
  rw [slice, List.getElem?_drop, List.getElem?_take]

theorem slice_slice {a b c d : ℕ} (h : c + b ≤ d) (data : List Byte) :
    slice a b (slice c d data) = slice (c + a) (c + b) data := by
  apply List.ext_getElem?
  intro i
  simp only [slice_getElem?]
  have hsum : c + (a + i) = c + a + i := by omega
  by_cases hi : a + i < b
  · have h₁ : c + a + i < d := by omega
    have h₂ : c + a + i < c + b := by omega
    simp only [hi, h₁, h₂, ↓reduceIte, hsum]
  · have h₂ : ¬c + a + i < c + b := by omega
    simp only [hi, h₂, ↓reduceIte]

theorem slice_drop (a b c : ℕ) (data : List Byte) :
    slice a b (data.drop c) = slice (c + a) (c + b) data := by
  apply List.ext_getElem?
  intro i
  simp only [slice_getElem?, List.getElem?_drop]
  have hsum : c + (a + i) = c + a + i := by omega
  have hcond : a + i < b ↔ c + a + i < c + b := by omega
  simp only [hsum, hcond]

theorem slice_append {a b : ℕ} {xs : List Byte} (h : b ≤ xs.length) (ys : List Byte) :
    slice a b (xs ++ ys) = slice a b xs := by
  rw [slice, slice, List.take_append_of_le_length h]

theorem unpack_of_length {size : ℕ} {data : List Byte} (h : data.length = size) :
    unpack size data = .ok (ofBytes data) := by
  simp only [unpack, h, ↓reduceIte]

/-- The sample whose ten bytes start at `offset`. -/
def sampleAt (data : List Byte) (offset : ℕ) : HostSample :=
  ⟨ofBytes (slice offset (offset + 1) data), ofBytes (slice (offset + 1) (offset + 5) data),
    ofBytes (slice (offset + 5) (offset + 9) data), ofBytes (slice (offset + 9) (offset + 10) data)⟩

def magicOf (data : List Byte) : ℕ := ofBytes (slice 0 2 data)
def seqOf (data : List Byte) : ℕ := ofBytes (slice 2 4 data)
def countOf (data : List Byte) : ℕ := ofBytes (slice 4 6 data)

def decoded (data : List Byte) : HostSamplePacket :=
  ⟨magicOf data, seqOf data, countOf data,
    (List.range (countOf data)).map fun i => sampleAt data (headerSize + i * sampleSize)⟩

/-- The grammar of the parser. -/
structure Accepts (data : List Byte) : Prop where
  header : headerSize ≤ data.length
  magic : magicOf data = packetMagic
  count : countOf data ≤ maxSamples
  samples : headerSize + countOf data * sampleSize ≤ data.length

theorem sample_fromBytes {data : List Byte} {offset : ℕ} (h : offset + 10 ≤ data.length) :
    HostSample.fromBytes (slice offset (offset + 10) data) = .ok (sampleAt data offset) := by
  have hlen : (slice offset (offset + 10) data).length = sampleSize := by
    rw [slice_length, Nat.min_eq_left h, Nat.add_sub_cancel_left]
    rfl
  have hfield : ∀ a b, b ≤ 10 → unpack (b - a) (slice a b (slice offset (offset + 10) data)) =
      .ok (ofBytes (slice (offset + a) (offset + b) data)) := by
    intro a b hb
    rw [slice_slice (by omega), unpack_of_length (by rw [slice_length]; omega)]
  have h₁ := hfield 0 1 (by omega)
  have h₂ := hfield 1 5 (by omega)
  have h₃ := hfield 5 9 (by omega)
  have h₄ := hfield 9 10 (by omega)
  simp only [Nat.reduceSub] at h₁ h₂ h₃ h₄
  simp only [HostSample.fromBytes, hlen, ne_eq, not_true_eq_false, ↓reduceIte, h₁, h₂, h₃, h₄]
  rfl

theorem mapM_ok {α β ε : Type} (f : α → Except ε β) (g : α → β) (xs : List α)
    (h : ∀ x ∈ xs, f x = .ok (g x)) : xs.mapM f = .ok (xs.map g) := by
  induction xs with
  | nil => rfl
  | cons x xs ih =>
    rw [List.mapM_cons, h x List.mem_cons_self, ih fun y hy => h y (List.mem_cons_of_mem x hy)]
    rfl

theorem unpackHHH_header {data : List Byte} (h : headerSize ≤ data.length) :
    unpackHHH (slice 0 headerSize data) = .ok (magicOf data, seqOf data, countOf data) := by
  have hlen : (slice 0 headerSize data).length = 6 := by
    rw [slice_length, Nat.min_eq_left h]
    rfl
  have h₁ : slice 0 2 (slice 0 headerSize data) = slice 0 2 data := slice_slice (by decide) data
  have h₂ : slice 2 4 (slice 0 headerSize data) = slice 2 4 data := slice_slice (by decide) data
  have h₃ : slice 4 6 (slice 0 headerSize data) = slice 4 6 data := slice_slice (by decide) data
  simp only [unpackHHH, hlen, ↓reduceIte, h₁, h₂, h₃]
  rfl

theorem samples_fromBytes {data : List Byte}
    (h : headerSize + countOf data * sampleSize ≤ data.length) :
    ((List.range (countOf data)).mapM fun i => HostSample.fromBytes
        (slice (i * sampleSize) (i * sampleSize + sampleSize) (data.drop headerSize))) =
      .ok (decoded data).samples := by
  refine mapM_ok _ _ _ ?_
  intro i hi
  have hlast : (i + 1) * sampleSize ≤ countOf data * sampleSize :=
    Nat.mul_le_mul_right sampleSize (List.mem_range.mp hi)
  rw [Nat.succ_mul] at hlast
  rw [slice_drop]
  exact sample_fromBytes (by simp only [sampleSize] at *; omega)

theorem fromBytes_of_accepts {data : List Byte} (h : Accepts data) :
    HostSamplePacket.fromBytes data = .ok (decoded data) := by
  have hshort : ¬data.length < headerSize := Nat.not_lt.mpr h.header
  have hmany : ¬countOf data > maxSamples := Nat.not_lt.mpr h.count
  have hfew : ¬(data.drop headerSize).length < countOf data * sampleSize := by
    have := h.samples
    rw [List.length_drop]
    omega
  rw [HostSamplePacket.fromBytes, if_neg hshort, unpackHHH_header h.header]
  change (if magicOf data ≠ packetMagic then _ else _) = _
  rw [if_neg (not_not.mpr h.magic), if_neg hmany, if_neg hfew, samples_fromBytes h.samples]
  rfl

/-- Outside the grammar the parser raises `ValueError`, never `struct.error`. -/
theorem fromBytes_of_not_accepts {data : List Byte} (h : ¬Accepts data) :
    ∃ message, HostSamplePacket.fromBytes data = .error (.valueError message) := by
  rw [HostSamplePacket.fromBytes]
  by_cases hshort : data.length < headerSize
  · rw [if_pos hshort]
    exact ⟨_, rfl⟩
  have hheader := Nat.not_lt.mp hshort
  rw [if_neg hshort, unpackHHH_header hheader]
  change ∃ message, (if magicOf data ≠ packetMagic then _ else _) = _
  by_cases hmagic : magicOf data ≠ packetMagic
  · rw [if_pos hmagic]
    exact ⟨_, rfl⟩
  rw [if_neg hmagic]
  by_cases hmany : countOf data > maxSamples
  · rw [if_pos hmany]
    exact ⟨_, rfl⟩
  rw [if_neg hmany]
  by_cases hfew : (data.drop headerSize).length < countOf data * sampleSize
  · rw [if_pos hfew]
    exact ⟨_, rfl⟩
  rw [List.length_drop] at hfew
  exact absurd ⟨hheader, not_not.mp hmagic, Nat.not_lt.mp hmany, by omega⟩ h

end EmbeddedDaq.HostPacket

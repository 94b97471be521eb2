import EmbeddedDaq.HostPacket

set_option autoImplicit false

namespace EmbeddedDaq.HostGrammar
open HostPacket GeneralLittleEndian

/-- The header and the samples it announces. -/
def framed (data : List Byte) : List Byte := data.take (headerSize + countOf data * sampleSize)

def sampleBytes (s : HostSample) : List Byte :=
  toBytes 1 s.channel ++ toBytes 4 s.timestampUs ++ toBytes 4 s.value ++ toBytes 1 s.flags

/-- The packed little-endian layout. -/
def packetBytes (pkt : HostSamplePacket) : List Byte :=
  toBytes 2 pkt.magic ++ toBytes 2 pkt.seq ++ toBytes 2 pkt.count ++
    (pkt.samples.map sampleBytes).flatten

section
variable {a b c n : ℕ} {data data' : List Byte} {pkt : HostSamplePacket}

theorem slice_take (h : b ≤ n) : slice a b (data.take n) = slice a b data := by
  rw [slice, slice, List.take_take, Nat.min_eq_left h]

theorem slice_join (hab : a ≤ b) (hbc : b ≤ c) :
    slice a b data ++ slice b c data = slice a c data := by
  have hsplit : (data.take c).drop a = ((data.take c).drop a).take (b - a) ++ (data.take c).drop b := by
    have hback : a + (b - a) = b := by omega
    rw [← hback, ← List.drop_drop, hback, List.take_append_drop]
  rw [slice, slice, slice, hsplit, List.take_drop, List.take_take]
  have hback : a + (b - a) = b := by omega
  rw [hback, Nat.min_eq_left hbc]

theorem toBytes_slice (h : a + n ≤ data.length) :
    toBytes n (ofBytes (slice a (a + n) data)) = slice a (a + n) data := by
  have hlen : (slice a (a + n) data).length = n := by
    rw [slice_length]
    omega
  have hback := toBytes_ofBytes (slice a (a + n) data)
  rwa [hlen] at hback

theorem sampleBytes_sampleAt (h : a + sampleSize ≤ data.length) :
    sampleBytes (sampleAt data a) = slice a (a + sampleSize) data := by
  have hsize : sampleSize = 10 := rfl
  rw [hsize] at h ⊢
  have hchannel := toBytes_slice (show a + 1 ≤ data.length by omega)
  have htimestamp := toBytes_slice (show a + 1 + 4 ≤ data.length by omega)
  have hvalue := toBytes_slice (show a + 5 + 4 ≤ data.length by omega)
  have hflags := toBytes_slice (show a + 9 + 1 ≤ data.length by omega)
  rw [sampleBytes, sampleAt, hchannel, htimestamp, hvalue, hflags, slice_join, slice_join, slice_join]
  all_goals omega

theorem samples_flatten (n : ℕ) (h : headerSize + n * sampleSize ≤ data.length) :
    ((List.range n).map fun i =>
        sampleBytes (sampleAt data (headerSize + i * sampleSize))).flatten =
      slice headerSize (headerSize + n * sampleSize) data := by
  induction n with
  | zero =>
    rw [Nat.zero_mul, slice]
    simp
  | succ n ih =>
    rw [Nat.succ_mul] at h ⊢
    rw [List.range_succ, List.map_append, List.flatten_append, ih (by omega), List.map_singleton,
      List.flatten_singleton, sampleBytes_sampleAt (by omega), Nat.add_assoc, slice_join]
    all_goals omega

theorem packetBytes_decoded (h : Accepts data) : packetBytes (decoded data) = framed data := by
  have hsize : headerSize = 6 := rfl
  have hheader := h.header
  have hmagic : toBytes 2 (magicOf data) = slice 0 2 data := toBytes_slice (by omega)
  have hseq : toBytes 2 (seqOf data) = slice 2 4 data := toBytes_slice (by omega)
  have hcount : toBytes 2 (countOf data) = slice 4 6 data := toBytes_slice (by omega)
  have hsamples := samples_flatten (countOf data) h.samples
  rw [packetBytes, decoded, hmagic, hseq, hcount, List.map_map]
  change slice 0 2 data ++ slice 2 4 data ++ slice 4 6 data ++ List.flatten (List.map (fun i =>
    sampleBytes (sampleAt data (headerSize + i * sampleSize))) _) = _
  rw [hsamples, slice_join (by omega) (by omega), slice_join (by omega) (by omega), hsize,
    slice_join (by omega) (by omega)]
  rfl

/-- The parser looks at no byte behind the frame. -/
theorem decoded_framed (data : List Byte) : decoded (framed data) = decoded data := by
  have hsize : headerSize = 6 := rfl
  have hmagic : magicOf (framed data) = magicOf data := congrArg ofBytes (slice_take (by omega))
  have hseq : seqOf (framed data) = seqOf data := congrArg ofBytes (slice_take (by omega))
  have hcount : countOf (framed data) = countOf data := congrArg ofBytes (slice_take (by omega))
  rw [decoded, decoded, hmagic, hseq, hcount]
  refine congrArg _ (List.map_congr_left ?_)
  intro i hi
  have hlast : (i + 1) * sampleSize ≤ countOf data * sampleSize :=
    Nat.mul_le_mul_right sampleSize (List.mem_range.mp hi)
  rw [Nat.succ_mul] at hlast
  have hten : sampleSize = 10 := rfl
  rw [sampleAt, sampleAt, framed, slice_take (by omega), slice_take (by omega),
    slice_take (by omega), slice_take (by omega)]

theorem accepts_framed : Accepts (framed data) ↔ Accepts data := by
  have hdecoded := decoded_framed data
  have hmagic : magicOf (framed data) = magicOf data := congrArg HostSamplePacket.magic hdecoded
  have hcount : countOf (framed data) = countOf data := congrArg HostSamplePacket.count hdecoded
  have hlen : (framed data).length = min (headerSize + countOf data * sampleSize) data.length :=
    List.length_take
  constructor
  · intro h
    have hheader := h.header
    have hsamples := h.samples
    rw [hcount] at hsamples
    exact ⟨by omega, hmagic ▸ h.magic, hcount ▸ h.count, by omega⟩
  · intro h
    have hheader := h.header
    have hsamples := h.samples
    exact ⟨by omega, hmagic.trans h.magic, hcount.trans_le h.count, by rw [hcount]; omega⟩

theorem fromBytes_eq_ok_iff :
    HostSamplePacket.fromBytes data = .ok pkt ↔ Accepts data ∧ decoded data = pkt := by
  constructor
  · intro h
    by_cases haccepts : Accepts data
    · rw [fromBytes_of_accepts haccepts] at h
      exact ⟨haccepts, Except.ok.inj h⟩
    · obtain ⟨message, herror⟩ := fromBytes_of_not_accepts haccepts
      rw [herror] at h
      cases h
  · rintro ⟨haccepts, rfl⟩
    exact fromBytes_of_accepts haccepts

theorem decoded_eq_iff (h : Accepts data) :
    Accepts data' ∧ decoded data' = decoded data ↔ framed data' = framed data := by
  constructor
  · rintro ⟨haccepts, hsame⟩
    rw [← packetBytes_decoded haccepts, hsame, packetBytes_decoded h]
  · intro hframed
    refine ⟨?_, ?_⟩
    · rw [← accepts_framed, hframed]
      exact accepts_framed.mpr h
    · rw [← decoded_framed data', hframed, decoded_framed]

end

/-- What is accepted is the grammar; what is returned says exactly which frame was read. -/
theorem fromBytes_grammar (data : List Byte) :
    match HostSamplePacket.fromBytes data with
    | .ok pkt => Accepts data ∧ packetBytes pkt = framed data ∧
        ∀ data', HostSamplePacket.fromBytes data' = .ok pkt ↔ framed data' = framed data
    | .error e => ¬Accepts data ∧ ∃ message, e = .valueError message := by
  by_cases h : Accepts data
  · rw [fromBytes_of_accepts h]
    refine ⟨h, packetBytes_decoded h, ?_⟩
    intro data'
    rw [fromBytes_eq_ok_iff, decoded_eq_iff h]
  · obtain ⟨message, herror⟩ := fromBytes_of_not_accepts h
    rw [herror]
    exact ⟨h, message, rfl⟩

end EmbeddedDaq.HostGrammar

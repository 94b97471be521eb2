import EmbeddedDaq.SharedPacketBytes
import EmbeddedDaq.HostPacket

set_option autoImplicit false

namespace EmbeddedDaq.WireFormat
open FirmwareWords SharedPacket SharedPacketBytes HostPacket GeneralLittleEndian GeneralReprC

def built (calls : List PushCall) (seq : U16) : SamplePacket :=
  (SamplePacket.new.pushAll calls).finalize seq

def hostSample (s : Sample) : HostSample :=
  ⟨s.channel.toU8.toNat, s.timestampUs.toNat, s.value.toNat, s.flags.toNat⟩

def hostView (pkt : SamplePacket) : HostSamplePacket :=
  ⟨pkt.magic.toNat, pkt.seq.toNat, pkt.count.toNat, pkt.filled.map hostSample⟩

/-- The parser reads a byte string as the packet it was made from. -/
def ReadsBack (bytes : List U8) (pkt : SamplePacket) : Prop :=
  HostSamplePacket.fromBytes bytes = .ok (hostView pkt)

theorem built_wellFormed (calls : List PushCall) (seq : U16) : (built calls seq).WellFormed :=
  SamplePacket.finalize_wellFormed
    (SamplePacket.pushAll_wellFormed SamplePacket.new_wellFormed calls) seq

theorem built_filled (calls : List PushCall) (seq : U16) :
    (built calls seq).filled = (calls.map PushCall.sample).take samplesPerPacket := by
  rw [built, SamplePacket.finalize_filled,
    SamplePacket.pushAll_filled SamplePacket.new_wellFormed, SamplePacket.new_filled,
    List.nil_append]

theorem magicOf_asBytes (pad : ℕ → U8) (pkt : SamplePacket) :
    magicOf (asBytes pad pkt) = pkt.magic.toNat := by
  rw [asBytes_header]
  exact ofBytes_word (k := 2) pkt.magic

theorem seqOf_asBytes (pad : ℕ → U8) (pkt : SamplePacket) :
    seqOf (asBytes pad pkt) = pkt.seq.toNat := by
  rw [asBytes_header]
  exact ofBytes_word (k := 2) pkt.seq

theorem countOf_asBytes (pad : ℕ → U8) (pkt : SamplePacket) :
    countOf (asBytes pad pkt) = pkt.count.toNat := by
  rw [asBytes_header]
  exact ofBytes_word (k := 2) pkt.count

theorem channel_asBytes (pad : ℕ → U8) (pkt : SamplePacket) :
    (sampleAt (asBytes pad pkt) headerSize).channel = (pad 6).toNat := by
  rw [asBytes_header]
  exact Nat.add_zero _

theorem asBytes_accepts (pad : ℕ → U8) {pkt : SamplePacket} (hp : pkt.WellFormed) :
    Accepts (asBytes pad pkt) := by
  have hcount : countOf (asBytes pad pkt) ≤ maxSamples := by
    rw [countOf_asBytes]
    exact hp.count_le
  have hten : countOf (asBytes pad pkt) * sampleSize ≤ maxSamples * sampleSize :=
    Nat.mul_le_mul_right sampleSize hcount
  refine ⟨?_, ?_, hcount, ?_⟩
  · rw [asBytes_length]
    decide
  · rw [magicOf_asBytes, hp.magic_eq]
    rfl
  · rw [asBytes_length]
    simp only [headerSize, magicBytes, seqBytes, sampleCountBytes, maxSamples, sampleSize] at *
    omega

theorem fromBytes_asBytes (pad : ℕ → U8) {pkt : SamplePacket} (hp : pkt.WellFormed) :
    HostSamplePacket.fromBytes (asBytes pad pkt) =
      .ok ⟨pkt.magic.toNat, pkt.seq.toNat, pkt.count.toNat,
        (List.range pkt.count.toNat).map fun i =>
          sampleAt (asBytes pad pkt) (headerSize + i * sampleSize)⟩ := by
  rw [fromBytes_of_accepts (asBytes_accepts pad hp), decoded, magicOf_asBytes, seqOf_asBytes,
    countOf_asBytes]

theorem readsBack_iff (pad : ℕ → U8) {pkt : SamplePacket} (hp : pkt.WellFormed) :
    ReadsBack (asBytes pad pkt) pkt ↔
      ((List.range pkt.count.toNat).map fun i =>
        sampleAt (asBytes pad pkt) (headerSize + i * sampleSize)) = pkt.filled.map hostSample := by
  rw [ReadsBack, fromBytes_asBytes pad hp, hostView]
  simp

theorem readsBack_empty (pad : ℕ → U8) (seq : U16) :
    ReadsBack (asBytes pad (built [] seq)) (built [] seq) := by
  rw [readsBack_iff pad (built_wellFormed [] seq)]
  rfl

theorem built_cons_count (c : PushCall) (calls : List PushCall) (seq : U16) :
    0 < (built (c :: calls) seq).count.toNat := by
  rw [← SamplePacket.filled_length (built_wellFormed (c :: calls) seq), built_filled]
  simp

theorem toU8_succ_ne (channel : ChannelId) : (channel.toU8 + 1).toNat ≠ channel.toU8.toNat := by
  cases channel <;> decide

theorem exists_not_readsBack (c : PushCall) (calls : List PushCall) (seq : U16) :
    ∃ pad, ¬ReadsBack (asBytes pad (built (c :: calls) seq)) (built (c :: calls) seq) := by
  refine ⟨fun _ => c.channel.toU8 + 1, ?_⟩
  rw [readsBack_iff _ (built_wellFormed (c :: calls) seq)]
  intro h
  have hfirst := congrArg (fun l => (l.map HostSample.channel)[0]?) h
  have hcount := built_cons_count c calls seq
  simp only [List.getElem?_map, List.getElem?_range hcount, Option.map_some, Nat.zero_mul,
    Nat.add_zero, channel_asBytes, built_filled, List.map_cons, List.take_succ_cons,
    List.getElem?_cons_zero] at hfirst
  exact toU8_succ_ne c.channel (Option.some.inj hfirst)

/-- The sizes never agree, and apart from the size only an empty packet is sure to be read back. -/
theorem built_not_interoperable (calls : List PushCall) (seq : U16) :
    (∀ pad, ¬((asBytes pad (built calls seq)).length = packetSize ∧
        ReadsBack (asBytes pad (built calls seq)) (built calls seq))) ∧
      ((∀ pad, ReadsBack (asBytes pad (built calls seq)) (built calls seq)) ↔ calls = []) := by
  refine ⟨?_, ?_⟩
  · rintro pad ⟨hlen, -⟩
    rw [asBytes_length] at hlen
    exact absurd hlen (by decide)
  · constructor
    · intro h
      cases calls with
      | nil => rfl
      | cons c calls =>
        obtain ⟨pad, hpad⟩ := exists_not_readsBack c calls seq
        exact absurd (h pad) hpad
    · rintro rfl pad
      exact readsBack_empty pad seq

/-- One sample of 2048 counts, sent with zeroed padding. -/
theorem built_one_not_interoperable :
    ¬((asBytes (fun _ => 0) (built [⟨.analog0, 100, 2048⟩] 1)).length = packetSize ∧
      ReadsBack (asBytes (fun _ => 0) (built [⟨.analog0, 100, 2048⟩] 1))
        (built [⟨.analog0, 100, 2048⟩] 1)) := by
  rintro ⟨hlen, -⟩
  rw [asBytes_length] at hlen
  exact absurd hlen (by decide)

end EmbeddedDaq.WireFormat

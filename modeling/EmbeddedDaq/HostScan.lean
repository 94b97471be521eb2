import EmbeddedDaq.HostClient
import EmbeddedDaq.GeneralWindowSearch

set_option autoImplicit false

namespace EmbeddedDaq.HostScan
open HostPacket HostClient GeneralLittleEndian GeneralWhileLoop GeneralWindowSearch

def ValidWindow (data : List Byte) : Prop :=
  magicOf data = packetMagic ∧ 0 < countOf data ∧ countOf data ≤ maxSamples

def EmptyWindow (data : List Byte) : Prop :=
  magicOf data = packetMagic ∧ countOf data = 0

instance (data : List Byte) : Decidable (ValidWindow data) :=
  inferInstanceAs (Decidable (_ ∧ _ ∧ _))

instance (data : List Byte) : Decidable (EmptyWindow data) :=
  inferInstanceAs (Decidable (_ ∧ _))

theorem window_length {k : ℕ} {buffer : List Byte} (h : k + packetSize ≤ buffer.length) :
    (window packetSize k buffer).length = packetSize := by
  rw [window, List.length_take, List.length_drop]
  omega

theorem slice_eq_window (buffer : List Byte) :
    slice 0 packetSize buffer = window packetSize 0 buffer := by
  rw [slice, window, List.drop_zero, List.drop_zero]

theorem accepts_of_header {data : List Byte} (hlen : data.length = packetSize)
    (hmagic : magicOf data = packetMagic) (hcount : countOf data ≤ maxSamples) :
    Accepts data := by
  have hsamples : countOf data * sampleSize ≤ maxSamples * sampleSize :=
    Nat.mul_le_mul_right sampleSize hcount
  refine ⟨?_, hmagic, hcount, ?_⟩
  · rw [hlen]
    decide
  · rw [hlen]
    simp only [headerSize, packetSize, magicBytes, seqBytes, sampleCountBytes] at *
    omega

theorem fromBytes_valid {data : List Byte} (hlen : data.length = packetSize)
    (h : ValidWindow data) : HostSamplePacket.fromBytes data = .ok (decoded data) :=
  fromBytes_of_accepts (accepts_of_header hlen h.1 h.2.2)

theorem isValid_valid {data : List Byte} (h : ValidWindow data) :
    (decoded data).isValid = true := by
  have hcount : (decoded data).samples.length = (decoded data).count := by
    simp only [decoded, List.length_map, List.length_range]
  exact decide_eq_true ⟨h.1, h.2.1, h.2.2, hcount⟩

theorem fromBytes_empty {data : List Byte} (hlen : data.length = packetSize)
    (h : EmptyWindow data) : HostSamplePacket.fromBytes data = .ok (decoded data) :=
  fromBytes_of_accepts (accepts_of_header hlen h.1 (h.2 ▸ Nat.zero_le maxSamples))

theorem isValid_empty {data : List Byte} (h : EmptyWindow data) :
    (decoded data).isValid = false := by
  refine decide_eq_false ?_
  rintro ⟨-, hcount, -⟩
  exact absurd h.2 (Nat.ne_of_gt hcount)

theorem fromBytes_refused {data : List Byte} (hvalid : ¬ValidWindow data)
    (hempty : ¬EmptyWindow data) :
    ∃ message, HostSamplePacket.fromBytes data = .error (.valueError message) := by
  refine fromBytes_of_not_accepts ?_
  intro h
  rcases Nat.eq_zero_or_pos (countOf data) with hzero | hpos
  · exact hempty ⟨h.magic, hzero⟩
  · exact hvalid ⟨h.magic, hpos, h.count⟩

theorem deleteSlice_zero (b : ℕ) (buffer : List Byte) :
    deleteSlice 0 b buffer = buffer.drop b := by
  rw [deleteSlice, List.take_zero, List.nil_append]

theorem scanStep_ok {buffer : List Byte} {pkt : HostSamplePacket}
    (h : packetSize ≤ buffer.length)
    (hpkt : HostSamplePacket.fromBytes (window packetSize 0 buffer) = .ok pkt) :
    scanStep 0 buffer =
      if pkt.isValid then .inr (.packet pkt (buffer.drop packetSize)) else .inl buffer := by
  simp only [scanStep, slice_eq_window, hpkt, deleteSlice_zero, Nat.zero_add, h, ↓reduceIte]

theorem scanStep_error {buffer : List Byte} {e : PyError} (h : packetSize ≤ buffer.length)
    (he : HostSamplePacket.fromBytes (window packetSize 0 buffer) = .error e) :
    scanStep 0 buffer = .inl (buffer.drop 1) := by
  simp only [scanStep, slice_eq_window, he, deleteSlice_zero, Nat.zero_add, h, ↓reduceIte]

theorem scanStep_valid {buffer : List Byte} (h : Hit packetSize ValidWindow buffer 0) :
    scanStep 0 buffer =
      .inr (.packet (decoded (window packetSize 0 buffer)) (buffer.drop packetSize)) := by
  have hle : packetSize ≤ buffer.length := by
    have := h.1
    omega
  rw [scanStep_ok hle (fromBytes_valid (window_length h.1) h.2), if_pos (isValid_valid h.2)]

theorem scanStep_empty {buffer : List Byte} (h : Hit packetSize EmptyWindow buffer 0) :
    scanStep 0 buffer = .inl buffer := by
  have hle : packetSize ≤ buffer.length := by
    have := h.1
    omega
  rw [scanStep_ok hle (fromBytes_empty (window_length h.1) h.2), isValid_empty h.2]
  rfl

theorem scanStep_refused {buffer : List Byte} (hlen : packetSize ≤ buffer.length)
    (hvalid : ¬Hit packetSize ValidWindow buffer 0)
    (hempty : ¬Hit packetSize EmptyWindow buffer 0) :
    scanStep 0 buffer = .inl (buffer.drop 1) := by
  have hle : 0 + packetSize ≤ buffer.length := by omega
  obtain ⟨message, hmessage⟩ := fromBytes_refused (fun h => hvalid ⟨hle, h⟩)
    (fun h => hempty ⟨hle, h⟩)
  exact scanStep_error hlen hmessage

theorem scanStep_short {buffer : List Byte} (h : buffer.length < packetSize) :
    scanStep 0 buffer = .inr (.exhausted buffer) := by
  rw [scanStep, if_neg (by omega)]

/-- Everything one turn of the scan can do. -/
theorem scanStep_cases (buffer : List Byte) :
    (buffer.length < packetSize ∧ scanStep 0 buffer = .inr (.exhausted buffer)) ∨
      (packetSize ≤ buffer.length ∧
        ((∃ pkt, scanStep 0 buffer = .inr (.packet pkt (buffer.drop packetSize))) ∨
          scanStep 0 buffer = .inl buffer ∨ scanStep 0 buffer = .inl (buffer.drop 1))) := by
  rcases Nat.lt_or_ge buffer.length packetSize with hshort | hlong
  · exact .inl ⟨hshort, scanStep_short hshort⟩
  · refine .inr ⟨hlong, ?_⟩
    by_cases hvalid : Hit packetSize ValidWindow buffer 0
    · exact .inl ⟨_, scanStep_valid hvalid⟩
    · by_cases hempty : Hit packetSize EmptyWindow buffer 0
      · exact .inr (.inl (scanStep_empty hempty))
      · exact .inr (.inr (scanStep_refused hlong hvalid hempty))

theorem scan_found {buffer : List Byte} {k : ℕ} (hk : First packetSize ValidWindow buffer k)
    (hempty : ∀ j < k, ¬Hit packetSize EmptyWindow buffer j) :
    Returns (scanStep 0) buffer
      (.packet (decoded (window packetSize k buffer)) (buffer.drop (k + packetSize))) := by
  induction k generalizing buffer with
  | zero =>
    rw [Nat.zero_add]
    exact Returns.leave (scanStep_valid hk.1)
  | succ k ih =>
    have hlen := hk.1.1
    have hone : 1 ≤ buffer.length := by omega
    have hstep : scanStep 0 buffer = .inl (buffer.drop 1) :=
      scanStep_refused (by omega) (hk.2 0 (by omega)) (hempty 0 (by omega))
    have hfirst : First packetSize ValidWindow (buffer.drop 1) k := by
      rw [first_drop hone (fun j hj => hk.2 j (by omega)), Nat.add_comm]
      exact hk
    have hrest : ∀ j < k, ¬Hit packetSize EmptyWindow (buffer.drop 1) j := by
      intro j hj hhit
      exact hempty (1 + j) (by omega) ((hit_drop hone).mp hhit)
    have hscan := ih hfirst hrest
    have hwindow : window packetSize k (buffer.drop 1) = window packetSize (k + 1) buffer := by
      rw [window_drop, Nat.add_comm k 1]
    have hleft : (buffer.drop 1).drop (k + packetSize) = buffer.drop (k + 1 + packetSize) := by
      rw [List.drop_drop, Nat.add_comm k 1, Nat.add_assoc 1 k]
    rw [hwindow, hleft] at hscan
    exact Returns.continue hstep hscan

theorem scan_diverges {buffer : List Byte} {k : ℕ} (hk : First packetSize EmptyWindow buffer k)
    (hvalid : ∀ j < k, ¬Hit packetSize ValidWindow buffer j) : Diverges (scanStep 0) buffer := by
  induction k generalizing buffer with
  | zero => exact Diverges.stuck (scanStep_empty hk.1)
  | succ k ih =>
    have hlen := hk.1.1
    have hone : 1 ≤ buffer.length := by omega
    have hstep : scanStep 0 buffer = .inl (buffer.drop 1) :=
      scanStep_refused (by omega) (hvalid 0 (by omega)) (hk.2 0 (by omega))
    have hfirst : First packetSize EmptyWindow (buffer.drop 1) k := by
      rw [first_drop hone (fun j hj => hk.2 j (by omega)), Nat.add_comm]
      exact hk
    have hrest : ∀ j < k, ¬Hit packetSize ValidWindow (buffer.drop 1) j := by
      intro j hj hhit
      exact hvalid (1 + j) (by omega) ((hit_drop hone).mp hhit)
    exact Diverges.continue hstep (ih hfirst hrest)

theorem scan_exhausted {buffer : List Byte} (hvalid : ∀ k, ¬Hit packetSize ValidWindow buffer k)
    (hempty : ∀ k, ¬Hit packetSize EmptyWindow buffer k) :
    Returns (scanStep 0) buffer (.exhausted (residue packetSize buffer)) := by
  induction hn : buffer.length generalizing buffer with
  | zero =>
    have hshort : buffer.length < packetSize := by
      rw [hn]
      decide
    rw [residue_of_short hshort]
    exact Returns.leave (scanStep_short hshort)
  | succ n ih =>
    by_cases hshort : buffer.length < packetSize
    · rw [residue_of_short hshort]
      exact Returns.leave (scanStep_short hshort)
    · have hone : 1 ≤ buffer.length := by omega
      have hstep : scanStep 0 buffer = .inl (buffer.drop 1) :=
        scanStep_refused (by omega) (hvalid 0) (hempty 0)
      have hscan := ih (fun k hhit => hvalid (1 + k) ((hit_drop hone).mp hhit))
        (fun k hhit => hempty (1 + k) ((hit_drop hone).mp hhit))
        (by rw [List.length_drop, hn]; omega)
      rw [residue_drop_one hone (Nat.not_lt.mp hshort)] at hscan
      exact Returns.continue hstep hscan

def Within (n : ℕ) : ScanResult → Prop
  | .packet _ _ => packetSize ≤ n
  | .exhausted rest => rest.length ≤ n

theorem scan_within {buffer : List Byte} {scanned : ScanResult}
    (h : Returns (scanStep 0) buffer scanned) : Within buffer.length scanned := by
  refine Returns.invariant (fun b => b.length ≤ buffer.length) (Within buffer.length)
    ?_ ?_ h (Nat.le_refl _)
  · intro b next hb hstep
    obtain ⟨-, h⟩ | ⟨-, ⟨pkt, h⟩ | h | h⟩ := scanStep_cases b
    · exact nomatch h.symm.trans hstep
    · exact nomatch h.symm.trans hstep
    · exact Sum.inl.inj (h.symm.trans hstep) ▸ hb
    · rw [← Sum.inl.inj (h.symm.trans hstep), List.length_drop]
      omega
  · intro b result hb hstep
    obtain ⟨-, h⟩ | ⟨hlong, ⟨pkt, h⟩ | h | h⟩ := scanStep_cases b
    · exact Sum.inr.inj (h.symm.trans hstep) ▸ hb
    · exact Sum.inr.inj (h.symm.trans hstep) ▸ Nat.le_trans hlong hb
    · exact nomatch h.symm.trans hstep
    · exact nomatch h.symm.trans hstep

end EmbeddedDaq.HostScan

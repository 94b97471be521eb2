import EmbeddedDaq.FaultUart
import Mathlib.Data.List.Basic

set_option autoImplicit false

namespace EmbeddedDaq.UartLoopback
open FirmwareWords GeneralWaveform FaultUart

def shifted (byte : U8) : U8 := (byte >>> 1) ||| 0x80

def startEdge (start T k : ℕ) : ℕ := start + k * (10 * T)

/-- Every start edge is noticed within half a bit. -/
def Timely (start T : ℕ) (ds : List ℕ) : Prop :=
  ∀ k (hk : k < ds.length), startEdge start T k ≤ ds[k] ∧ 2 * (ds[k] - startEdge start T k) < T

theorem frame_data (byte : U8) {i : ℕ} (hi : i < 8) (h : i + 1 < (frame byte).length) :
    (frame byte)[i + 1] = if byte.getLsbD i then .high else .low := by
  simp only [frame, List.cons_append, List.getElem_cons_succ]
  rw [List.getElem_append_left (by simpa using hi), List.getElem_map, List.getElem_range]

theorem shifted_bit (byte : U8) (j : ℕ) :
    (shifted byte).getLsbD j = (byte.getLsbD (j + 1) || decide (j = 7)) := by
  have htop : (0x80 : U8).getLsbD j = decide (j = 7) := by
    change (BitVec.twoPow 8 7).getLsbD j = _
    rw [BitVec.getLsbD_twoPow]
    simp only [Nat.reduceLT, decide_true, Bool.true_and, eq_comm]
  rw [shifted, BitVec.getLsbD_or, htop, BitVec.getLsbD_ushiftRight, Nat.add_comm 1 j]

/-- The slot two after the start bit holds the next higher data bit, or the stop bit. -/
theorem frame_late (byte : U8) {j : ℕ} (hj : j < 8) (h : j + 2 < (frame byte).length) :
    (frame byte)[j + 2] = .high ↔ (shifted byte).getLsbD j = true := by
  rw [shifted_bit]
  rcases Nat.lt_succ_iff_lt_or_eq.mp hj with hlt | rfl
  · have hne : j ≠ 7 := Nat.ne_of_lt hlt
    rw [frame_data byte (i := j + 1) (by omega) h]
    cases byte.getLsbD (j + 1) <;> simp [hne]
  · have hstop : (frame byte)[7 + 2] = .high := rfl
    simp [hstop]

theorem readByte_frame {start T d : ℕ} (before : List U8) (byte : U8) (after : List U8)
    (hedge : startEdge start T before.length ≤ d)
    (hlate : 2 * (d - startEdge start T before.length) < T) :
    (readByte ((idleTx start).write T (before ++ byte :: after)).wave T d).1 = shifted byte := by
  apply BitVec.eq_of_getLsbD_eq
  intro j hj
  have hslot : j + 2 < (frame byte).length := by
    rw [frame_length]
    omega
  have hnow : (idleTx start).now = start := rfl
  rw [startEdge] at hedge hlate
  have hlevel : ((idleTx start).write T (before ++ byte :: after)).wave (d + T + T + j * T) =
      (frame byte)[j + 2] :=
    write_slot (idleTx start) after hslot (by rw [hnow, Nat.add_mul]; omega)
      (by rw [hnow]; simp only [Nat.add_mul]; omega)
  rw [readByte_bit _ T d hj, hlevel, Bool.eq_iff_iff, decide_eq_true_iff]
  exact frame_late byte hj hslot

theorem reads_eq {wave : ℕ → Level} {T now : ℕ} {ds : List ℕ} {buf : List U8}
    (h : Reads wave T now ds buf) : buf = ds.map fun d => (readByte wave T d).1 := by
  induction h with
  | done now => rfl
  | byte later low rest ih => rw [List.map_cons, ih]

theorem read_shifted {start T now : ℕ} {data : List U8} {ds : List ℕ} {buf : List U8}
    (hlen : ds.length = data.length) (htimely : Timely start T ds)
    (hread : Reads ((idleTx start).write T data).wave T now ds buf) : buf = data.map shifted := by
  rw [reads_eq hread]
  refine List.ext_getElem ?_ ?_
  · rw [List.length_map, List.length_map, hlen]
  · intro k hk hk'
    rw [List.length_map] at hk hk'
    rw [List.getElem_map, List.getElem_map]
    obtain ⟨hedge, hlate⟩ := htimely k hk
    have hsplit : data = data.take k ++ data[k] :: data.drop (k + 1) := by
      rw [← List.drop_eq_getElem_cons hk', List.take_append_drop]
    have hbefore : (data.take k).length = k := List.length_take_of_le (Nat.le_of_lt hk')
    generalize ds[k] = d at hedge hlate
    have hbyte : (readByte ((idleTx start).write T
        (data.take k ++ data[k] :: data.drop (k + 1))).wave T d).1 = shifted data[k] :=
      readByte_frame (data.take k) data[k] (data.drop (k + 1)) (by rwa [hbefore])
        (by rwa [hbefore])
    rwa [← hsplit] at hbyte

theorem shifted_eq_self (byte : U8) : shifted byte = byte ↔ byte = 0xFF := by
  revert byte
  decide +kernel

/-- A read returns what was written exactly when only `0xFF` was written. -/
theorem loopback_iff (start T now : ℕ) (data : List U8) (ds : List ℕ) (buf : List U8)
    (hlen : ds.length = data.length) (htimely : Timely start T ds)
    (hread : Reads ((idleTx start).write T data).wave T now ds buf) :
    buf = data ↔ ∀ byte ∈ data, byte = 0xFF := by
  have hmap : data.map shifted = data.map id ↔ ∀ byte ∈ data, shifted byte = id byte :=
    List.map_inj_left
  rw [List.map_id] at hmap
  rw [read_shifted hlen htimely hread, hmap]
  exact forall₂_congr fun byte _ => shifted_eq_self byte

def detections (start T latency n : ℕ) : List ℕ :=
  (List.range n).map fun k => startEdge start T k + latency

theorem detections_timely (start : ℕ) {T latency : ℕ} (h : 2 * latency < T) (n : ℕ) :
    Timely start T (detections start T latency n) := by
  intro k hk
  simp only [detections, List.getElem_map, List.getElem_range]
  exact ⟨Nat.le_add_right _ _, by rwa [Nat.add_sub_cancel_left]⟩

theorem reads_range {wave : ℕ → Level} {T now n : ℕ} (f : ℕ → ℕ) (hnow : now ≤ f 0)
    (hlow : ∀ k < n, wave (f k) = .low) (hgap : ∀ k, f k + 10 * T ≤ f (k + 1)) :
    ∃ buf, Reads wave T now ((List.range n).map f) buf := by
  induction n generalizing f now with
  | zero => exact ⟨[], .done now⟩
  | succ n ih =>
    obtain ⟨buf, hbuf⟩ := ih (fun k => f (k + 1)) (hgap 0)
      (fun k hk => hlow (k + 1) (Nat.succ_lt_succ hk)) (fun k => hgap (k + 1))
    rw [← readByte_now wave] at hbuf
    rw [List.range_succ_eq_map, List.map_cons, List.map_map]
    exact ⟨_, .byte hnow (hlow 0 (Nat.succ_pos n)) hbuf⟩

theorem exists_reads {start T latency now : ℕ} (h : 2 * latency < T) (hnow : now ≤ start)
    (data : List U8) : ∃ buf, Reads ((idleTx start).write T data).wave T now
      (detections start T latency data.length) buf := by
  refine reads_range (fun k => startEdge start T k + latency) ?_ ?_ ?_
  · rw [startEdge, Nat.zero_mul]
    omega
  · intro k hk
    have hsplit : data = data.take k ++ data[k] :: data.drop (k + 1) := by
      rw [← List.drop_eq_getElem_cons hk, List.take_append_drop]
    have hbefore : (data.take k).length = k := List.length_take_of_le (Nat.le_of_lt hk)
    have hslot : 0 < (frame data[k]).length := by
      rw [frame_length]
      omega
    have hstart : (idleTx start).now = start := rfl
    have hlevel : ((idleTx start).write T (data.take k ++ data[k] :: data.drop (k + 1))).wave
        (startEdge start T k + latency) = (frame data[k])[0] :=
      write_slot (idleTx start) (data.drop (k + 1)) hslot
        (by rw [hstart, hbefore, startEdge]; omega) (by rw [hstart, hbefore, startEdge]; omega)
    rw [← hsplit] at hlevel
    exact hlevel
  · intro k
    simp only [startEdge, Nat.succ_mul]
    omega

theorem loopback_iff_ones :
    ∃ buf, Reads ((idleTx 8).write 4 [0xFF, 0xFF]).wave 4 0 (detections 8 4 1 2) buf ∧
      buf = [0xFF, 0xFF] := by
  obtain ⟨buf, hread⟩ := exists_reads (T := 4) (show 2 * 1 < 4 by decide) (Nat.zero_le 8) [0xFF, 0xFF]
  exact ⟨buf, hread, (loopback_iff 8 4 0 [0xFF, 0xFF] (detections 8 4 1 2) buf rfl
    (detections_timely 8 (by decide) 2) hread).mpr (by simp)⟩

/-- The letter A is read as `0xA0`. -/
theorem loopback_letter :
    Reads ((idleTx 8).write 4 [0x41]).wave 4 0 (detections 8 4 1 1) [0xA0] ∧
      ([0xA0] : List U8) ≠ [0x41] := by
  obtain ⟨buf, hread⟩ := exists_reads (T := 4) (show 2 * 1 < 4 by decide) (Nat.zero_le 8) [0x41]
  have hshift : [0x41].map shifted = [0xA0] := by decide
  have hbuf := read_shifted rfl (detections_timely 8 (by decide) 1) hread
  rw [hshift] at hbuf
  exact ⟨hbuf ▸ hread, by decide⟩

end EmbeddedDaq.UartLoopback

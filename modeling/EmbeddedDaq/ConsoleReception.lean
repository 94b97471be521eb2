import EmbeddedDaq.FaultConsole
import EmbeddedDaq.UartLoopback

set_option autoImplicit false

namespace EmbeddedDaq.ConsoleReception
open FirmwareWords GeneralWaveform GeneralPacedFrames FaultUart FaultConsole UartBaud
open UartLoopback (frame_data)

/-- What is left of the first data bit after two delays of `bit_delay`, in ticks. -/
def margin : ℕ := 2 * terminalBit - 2 * bitTicks

theorem margin_eq : margin = 313600 := rfl

/-- The terminal's line from the byte to be sent next on, seen from an idle stretch. -/
def lineFrom (d : Driver Level) (sent : List (ℕ × U8)) : ℕ → Level :=
  (sendFrames terminalBit d (terminalFrames sent)).wave

def afterFrame (d : Driver Level) (s : ℕ × U8) : Driver Level :=
  (skipTo d s.1).holds terminalBit (frame s.2)

theorem lineFrom_cons (d : Driver Level) (s : ℕ × U8) (rest : List (ℕ × U8)) :
    lineFrom d (s :: rest) = lineFrom (afterFrame d s) rest := rfl

section
variable {gap now t : ℕ} {d : Driver Level} {s : ℕ × U8} {rest : List (ℕ × U8)}

theorem lineFrom_slot (hgap : 10 * terminalBit ≤ gap) (hspaced : Spaced gap now (s :: rest))
    {j : ℕ} (hj : j < (frame s.2).length) (hlower : s.1 + j * terminalBit ≤ t)
    (hupper : t < s.1 + (j + 1) * terminalBit) : lineFrom d (s :: rest) t = (frame s.2)[j] := by
  have hframe : (j + 1) * terminalBit ≤ 10 * terminalBit := Nat.mul_le_mul_right _ hj
  have hframes : Spaced gap now ((s.1, frame s.2) :: terminalFrames rest) := hspaced.map frame
  exact sendFrames_slot hframes hj hlower hupper (by omega)

theorem lineFrom_firstLow (hgap : 10 * terminalBit ≤ gap)
    (hidle : ∀ t, now ≤ t → d.wave t = .high) (hspaced : Spaced gap now (s :: rest)) :
    FirstLow (lineFrom d (s :: rest)) now s.1 := by
  refine ⟨hspaced.1, ?_, ?_⟩
  · have hslot : 0 < (frame s.2).length := Nat.zero_lt_succ _
    exact lineFrom_slot hgap hspaced hslot (by omega) (by rw [terminalBit_eq]; omega)
  · intro t hnow ht
    have hframes : Spaced gap now (terminalFrames (s :: rest)) := hspaced.map frame
    have hlater : Spaced gap s.1 (terminalFrames (s :: rest)) := ⟨Nat.le_refl _, hframes.2⟩
    exact (sendFrames_before hlater ht).trans (hidle t hnow)

theorem afterFrame_idle (h : s.1 + 9 * terminalBit ≤ t) : (afterFrame d s).wave t = .high := by
  refine holds_last (skipTo d s.1) _ .high ?_
  exact h

theorem readByte_line {d' : ℕ} (hgap : 10 * terminalBit ≤ gap)
    (hspaced : Spaced gap now (s :: rest)) (hedge : s.1 ≤ d') (hearly : d' < s.1 + margin) :
    (readByte (lineFrom d (s :: rest)) bitTicks d').1 = s.2 := by
  apply BitVec.eq_of_getLsbD_eq
  intro j hj
  have hslot : j + 1 < (frame s.2).length := by
    rw [frame_length]
    omega
  rw [margin_eq] at hearly
  have hlower : s.1 + (j + 1) * terminalBit ≤ d' + bitTicks + bitTicks + j * bitTicks := by
    rw [terminalBit_eq, bitTicks_eq]
    omega
  have hupper : d' + bitTicks + bitTicks + j * bitTicks < s.1 + (j + 1 + 1) * terminalBit := by
    rw [terminalBit_eq, bitTicks_eq]
    omega
  rw [readByte_bit _ bitTicks d' hj, lineFrom_slot hgap hspaced hslot hlower hupper,
    frame_data s.2 hj hslot]
  cases s.2.getLsbD j <;> rfl

end

section
variable {gap latency now d' : ℕ} {d : Driver Level} {s : ℕ × U8} {rest : List (ℕ × U8)}

theorem noticed_byte (hlatency : latency < margin) (hgap : 10 * terminalBit ≤ gap)
    (hidle : ∀ t, now ≤ t → d.wave t = .high) (hspaced : Spaced gap now (s :: rest))
    (h : Noticed (lineFrom d (s :: rest)) latency now d') :
    s.1 ≤ d' ∧ d' ≤ s.1 + latency ∧ (readByte (lineFrom d (s :: rest)) bitTicks d').1 = s.2 ∧
      s.1 + 9 * terminalBit ≤ d' + 10 * bitTicks := by
  obtain ⟨edge, hfirst, hlower, hupper, -⟩ := h
  obtain rfl := hfirst.unique (lineFrom_firstLow hgap hidle hspaced)
  refine ⟨hlower, hupper, readByte_line hgap hspaced hlower (by omega), ?_⟩
  rw [terminalBit_eq, bitTicks_eq]
  omega

theorem afterFrame_idle_from {later : ℕ} (h : s.1 + 9 * terminalBit ≤ later) :
    ∀ t, later ≤ t → (afterFrame d s).wave t = .high :=
  fun _ ht => afterFrame_idle (Nat.le_trans h ht)

end

theorem promptReads_sent {gap latency now : ℕ} {d : Driver Level} {sent : List (ℕ × U8)}
    {buf : List U8} (hlatency : latency < margin) (hgap : 10 * terminalBit ≤ gap)
    (hidle : ∀ t, now ≤ t → d.wave t = .high) (hspaced : Spaced gap now sent)
    (hread : PromptReads (lineFrom d sent) latency now buf) : buf <+: sent.map Prod.snd := by
  generalize hline : lineFrom d sent = line at hread
  induction hread generalizing d sent with
  | done now => exact List.nil_prefix
  | @byte now d' buf start rest ih =>
    subst hline
    cases sent with
    | nil => exact absurd start (not_noticed hidle)
    | cons s sent =>
      obtain ⟨hlower, hupper, hbyte, hstop⟩ := noticed_byte hlatency hgap hidle hspaced start
      rw [hbyte, List.map_cons, List.prefix_cons_inj]
      rw [readByte_now] at ih
      have hnext : d' + 10 * bitTicks ≤ s.1 + gap := by
        rw [margin_eq] at hlatency
        rw [terminalBit_eq] at hgap
        rw [bitTicks_eq]
        omega
      exact ih (afterFrame_idle_from hstop) (hspaced.2.earlier hnext) rfl

theorem exists_promptReads {gap now : ℕ} {d : Driver Level} {sent : List (ℕ × U8)} (latency : ℕ)
    (hgap : 10 * terminalBit ≤ gap) (hidle : ∀ t, now ≤ t → d.wave t = .high)
    (hspaced : Spaced gap now sent) :
    ∃ buf, PromptReads (lineFrom d sent) latency now buf ∧ buf.length = sent.length := by
  induction sent generalizing now d with
  | nil => exact ⟨[], .done now, rfl⟩
  | cons s sent ih =>
    have hfirst := lineFrom_firstLow hgap hidle hspaced
    have hstop : s.1 + 9 * terminalBit ≤ s.1 + 10 * bitTicks := by
      rw [terminalBit_eq, bitTicks_eq]
      omega
    have hnext : s.1 + 10 * bitTicks ≤ s.1 + gap := by
      rw [terminalBit_eq] at hgap
      rw [bitTicks_eq]
      omega
    obtain ⟨buf, hbuf, hlen⟩ := ih (afterFrame_idle_from hstop) (hspaced.2.earlier hnext)
    rw [← lineFrom_cons, ← readByte_now (lineFrom d (s :: sent))] at hbuf
    exact ⟨_, .byte (hfirst.noticed latency) hbuf, by rw [List.length_cons, List.length_cons, hlen]⟩

theorem idleTx_high (start t : ℕ) : (idleTx start).wave t = .high := rfl

theorem first_spaced : Spaced (10 * terminalBit) 0 [((0, 0x01) : ℕ × U8)] :=
  ⟨Nat.le_refl 0, trivial⟩

theorem terminalLine_first {j t : ℕ} (hj : j < (frame 0x01).length) (hlower : j * terminalBit ≤ t)
    (hupper : t < (j + 1) * terminalBit) : terminalLine [(0, 0x01)] t = (frame 0x01)[j] :=
  lineFrom_slot (Nat.le_refl _) first_spaced hj (by omega) (by omega)

theorem late_noticed : Noticed (terminalLine [(0, 0x01)]) margin 0 margin := by
  have hfirst : FirstLow (terminalLine [(0, 0x01)]) 0 0 :=
    lineFrom_firstLow (Nat.le_refl _) (fun t _ => idleTx_high 0 t) first_spaced
  have hstart : 0 < (frame 0x01).length := Nat.zero_lt_succ _
  have hlow := terminalLine_first (t := margin) hstart (by rw [Nat.zero_mul]; exact Nat.zero_le _)
    (by rw [margin_eq, terminalBit_eq]; omega)
  exact ⟨0, hfirst, Nat.zero_le _, Nat.le_of_eq (Nat.zero_add _).symm, hlow⟩

/-- A wait that ends when the margin is used up samples the second data bit instead. -/
theorem late_byte : (readByte (terminalLine [(0, 0x01)]) bitTicks margin).1 ≠ 0x01 := by
  intro heq
  have hslot : 2 < (frame 0x01).length := by decide
  have hlevel := terminalLine_first (t := margin + bitTicks + bitTicks + 0 * bitTicks) hslot
    (by rw [margin_eq, bitTicks_eq, terminalBit_eq])
    (by rw [margin_eq, bitTicks_eq, terminalBit_eq]; omega)
  have hbit := readByte_bit (terminalLine [(0, 0x01)]) bitTicks margin (j := 0) (by decide)
  have hdata : (frame 0x01)[2] = .low := rfl
  rw [hlevel, heq, hdata] at hbit
  exact absurd hbit (by decide)

/-- A read returns what a terminal sends, however close the bytes follow each other, exactly when
every start edge is noticed within the margin of 1.36 us. -/
theorem reception_iff (latency : ℕ) :
    latency < margin ↔ ∀ sent : List (ℕ × U8), Spaced (10 * terminalBit) 0 sent →
      (∃ buf, PromptReads (terminalLine sent) latency 0 buf ∧ buf.length = sent.length) ∧
      ∀ buf, PromptReads (terminalLine sent) latency 0 buf → buf.length = sent.length →
        buf = sent.map Prod.snd := by
  have hidle : ∀ t, 0 ≤ t → (idleTx 0).wave t = .high := fun t _ => idleTx_high 0 t
  constructor
  · intro hlatency sent hspaced
    refine ⟨exists_promptReads latency (Nat.le_refl _) hidle hspaced, ?_⟩
    intro buf hread hlen
    have hsent := promptReads_sent hlatency (Nat.le_refl _) hidle hspaced hread
    exact hsent.eq_of_length (by rw [hlen, List.length_map])
  · intro h
    by_contra hlate
    have hread := PromptReads.byte (late_noticed.sooner (Nat.not_lt.mp hlate)) (.done _)
    have hall := (h [(0, 0x01)] first_spaced).2 _ hread rfl
    exact late_byte (List.cons.inj hall).1

end EmbeddedDaq.ConsoleReception

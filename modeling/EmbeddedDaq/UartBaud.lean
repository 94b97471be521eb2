import EmbeddedDaq.FaultUart
import EmbeddedDaq.GeneralSerialReceiver
import Mathlib.Data.List.Induction

set_option autoImplicit false

/-!
# The bit-banged UART against a 115200 baud receiver

A tick is a 230400th of a microsecond, so that both a microsecond and half a bit
time at 115200 baud are whole. The transmitter's bits are 8 us, which is short by
2/3 us: the receiver's samples drift and skip the slot of data bit 5.
-/
namespace EmbeddedDaq.UartBaud
open FirmwareWords GeneralWaveform FaultUart GeneralSerialReceiver

def ticksPerUs : ℕ := 230400

/-- `baud_period_us`, as `UartBitbang::new` sets it. -/
def baudPeriodUs : ℕ := 8

/-- `bit_delay`, in ticks. -/
def bitTicks : ℕ := baudPeriodUs * ticksPerUs

def baudRate : ℕ := 115200

def halfBit : ℕ := 1000000 * ticksPerUs / (2 * baudRate)

example : 2 * baudRate * halfBit = 1000000 * ticksPerUs := rfl

theorem bitTicks_eq : bitTicks = 1843200 := rfl

theorem halfBit_eq : halfBit = 1000000 := rfl

def txLine (start : ℕ) (data : List U8) (t : ℕ) : Bool :=
  decide (((idleTx start).write bitTicks data).wave t = .high)

/-- The slot of the frame that the receiver's sample of bit `i` falls into. -/
def sampledSlot (i : ℕ) : ℕ := if i < 5 then i + 1 else i + 2

def decodedByte (byte : U8) : U8 :=
  byteOf fun i => decide ((frame byte)[sampledSlot i]? = some .high)

section
variable {start t : ℕ} {data : List U8}

theorem txLine_before (h : t < start) : txLine start data t = true := by
  unfold txLine
  rw [write_eq_holds, Driver.holds_before h]
  rfl

theorem writeByte_after {T : ℕ} {tx : Tx} {byte : U8} (h : (tx.writeByte T byte).now ≤ t) :
    (tx.writeByte T byte).wave t = .high := by
  unfold Tx.writeByte at h ⊢
  exact if_neg (Nat.not_lt.mpr (Nat.le_of_add_right_le h))

theorem txLine_after (h : start + data.length * (10 * bitTicks) ≤ t) :
    txLine start data t = true := by
  unfold txLine
  rw [decide_eq_true_iff]
  induction data using List.reverseRecOn with
  | nil => rfl
  | append_singleton data byte ih =>
    have hnow := write_now bitTicks (idleTx start) (data ++ [byte])
    rw [write_append] at hnow ⊢
    apply writeByte_after
    exact Nat.le_trans (Nat.le_of_eq hnow) h

theorem txLine_quiet (h : start + data.length * (10 * bitTicks) ≤ t) :
    ¬FallsAt (txLine start data) t := by
  intro hfall
  exact nomatch (txLine_after h).symm.trans hfall.1

theorem txLine_slot {j : ℕ} (before : List U8) (byte : U8) (after : List U8)
    (hj : j < (frame byte).length)
    (hlower : start + before.length * (10 * bitTicks) + j * bitTicks ≤ t)
    (hupper : t < start + before.length * (10 * bitTicks) + (j + 1) * bitTicks) :
    txLine start (before ++ byte :: after) t = decide ((frame byte)[j]? = some .high) := by
  unfold txLine
  rw [write_slot (idleTx start) after hj hlower hupper, List.getElem?_eq_getElem hj]
  simp only [Option.some_inj]

theorem txLine_firstFall (byte : U8) (rest : List U8) :
    FirstFall (txLine start (byte :: rest)) 0 start := by
  refine ⟨Nat.zero_le start, ⟨?_, ?_⟩, ?_⟩
  · have hlower : start + ([] : List U8).length * (10 * bitTicks) + 0 * bitTicks ≤ start := by
      simp only [List.length_nil, Nat.zero_mul, Nat.add_zero, Nat.le_refl]
    have hupper : start < start + ([] : List U8).length * (10 * bitTicks) + (0 + 1) * bitTicks := by
      rw [List.length_nil, bitTicks_eq]
      omega
    exact txLine_slot [] byte rest (Nat.zero_lt_succ _) hlower hupper
  · intro s hs
    exact txLine_before (by omega)
  · intro s _ hs hfall
    exact nomatch (txLine_before hs).symm.trans hfall.1

end

theorem sampledSlot_spec {i : ℕ} (hi : i < 8) :
    sampledSlot i < 10 ∧ sampledSlot i * bitTicks ≤ (3 + 2 * i) * halfBit ∧
      (3 + 2 * i) * halfBit < (sampledSlot i + 1) * bitTicks := by
  rw [bitTicks_eq, halfBit_eq]
  unfold sampledSlot
  split <;> omega

theorem sampled_txLine (start : ℕ) (byte : U8) (rest : List U8) :
    sampled (txLine start (byte :: rest)) halfBit start = decodedByte byte := by
  apply byteOf_congr
  intro i hi
  obtain ⟨hslot, hlower, hupper⟩ := sampledSlot_spec hi
  apply txLine_slot [] byte rest (by rwa [frame_length])
  · rw [List.length_nil, Nat.zero_mul]
    omega
  · rw [List.length_nil, Nat.zero_mul]
    omega

/-- The three bits read late are all ones only if they were sent so. -/
theorem decodedByte_eq_self (byte : U8) : decodedByte byte = byte ↔ 0xE0 ≤ byte.toNat := by
  revert byte
  decide +kernel

theorem stopSample_next (start : ℕ) (byte next : U8) (rest : List U8) :
    txLine start (byte :: next :: rest) (stopSample halfBit start) = false := by
  have hlower : start + [byte].length * (10 * bitTicks) + 0 * bitTicks ≤
      stopSample halfBit start := by
    rw [List.length_singleton, stopSample, bitTicks_eq, halfBit_eq]
    omega
  have hupper : stopSample halfBit start <
      start + [byte].length * (10 * bitTicks) + (0 + 1) * bitTicks := by
    rw [List.length_singleton, stopSample, bitTicks_eq, halfBit_eq]
    omega
  exact txLine_slot [byte] next rest (Nat.zero_lt_succ _) hlower hupper

theorem stopSample_last (start : ℕ) (byte : U8) {t : ℕ} (h : stopSample halfBit start ≤ t) :
    start + [byte].length * (10 * bitTicks) ≤ t := by
  rw [stopSample, halfBit_eq] at h
  rw [List.length_singleton, bitTicks_eq]
  omega

theorem receives_one (start : ℕ) (byte : U8) :
    Receives (txLine start [byte]) halfBit 0 [decodedByte byte] := by
  rw [← sampled_txLine start byte []]
  apply Receives.byte (txLine_firstFall byte [])
  · exact txLine_after (stopSample_last start byte (Nat.le_refl _))
  · apply Receives.idle
    intro t ht
    exact txLine_quiet (stopSample_last start byte ht)

/-- From the second byte on there is not time enough for all of them. -/
theorem not_receives_many (start : ℕ) (byte next : U8) (rest : List U8) :
    ¬Receives (txLine start (byte :: next :: rest)) halfBit 0 (byte :: next :: rest) := by
  intro h
  have hlater := h.dropped (txLine_firstFall byte (next :: rest))
    (stopSample_next start byte next rest)
  have hlen := hlater.length_le fun t => txLine_quiet
  rw [stopSample, bitTicks_eq, halfBit_eq, List.length_cons, List.length_cons] at hlen
  omega

/-- The receiver gets something definite, and just these data unchanged. -/
theorem decoded_iff (start : ℕ) (data : List U8) :
    (∃! bytes, Receives (txLine start data) halfBit 0 bytes) ∧
      (Receives (txLine start data) halfBit 0 data ↔
        data = [] ∨ ∃ byte : U8, data = [byte] ∧ 0xE0 ≤ byte.toNat) := by
  constructor
  · have hquiet : ∀ t, start + data.length * (10 * bitTicks) ≤ t → ¬FallsAt (txLine start data) t :=
      fun _ => txLine_quiet
    obtain ⟨bytes, hbytes⟩ := exists_receives hquiet (show 0 < halfBit by decide) 0
    exact ⟨bytes, hbytes, fun other hother => hother.unique hbytes⟩
  · match data with
    | [] =>
      have hidle : Receives (txLine start []) halfBit 0 [] := by
        apply Receives.idle
        intro t _ hfall
        exact nomatch hfall.1
      exact ⟨fun _ => .inl rfl, fun _ => hidle⟩
    | [byte] =>
      have hone : Receives (txLine start [byte]) halfBit 0 [byte] ↔ decodedByte byte = byte := by
        constructor
        · intro h
          exact (List.cons.inj ((receives_one start byte).unique h)).1
        · intro h
          have hreceived := receives_one start byte
          rwa [h] at hreceived
      rw [hone, decodedByte_eq_self]
      simp
    | byte :: next :: rest =>
      constructor
      · intro h
        exact absurd h (not_receives_many start byte next rest)
      · rintro (h | ⟨_, h, -⟩)
        · cases h
        · cases h

/-- The letter A arrives as `0xA1`. -/
theorem letter_misread : Receives (txLine 100 [0x41]) halfBit 0 [0xA1] ∧
    ¬Receives (txLine 100 [0x41]) halfBit 0 [0x41] := by
  have hdecoded : decodedByte 0x41 = 0xA1 := by decide
  have hone := receives_one 100 0x41
  rw [hdecoded] at hone
  refine ⟨hone, ?_⟩
  intro h
  exact absurd (hone.unique h) (by decide)

end EmbeddedDaq.UartBaud

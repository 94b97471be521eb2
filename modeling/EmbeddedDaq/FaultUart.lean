import EmbeddedDaq.FirmwareWords
import EmbeddedDaq.GeneralWaveform

set_option autoImplicit false

/-!
# The bit-banged UART

Time is counted in clock ticks and a `bit_delay` lasts `T` of them. The wait for
the start bit leaves at some instant at which the line is low.
-/
namespace EmbeddedDaq.FaultUart
open FirmwareWords GeneralWaveform

inductive Level where
  | low
  | high
  deriving DecidableEq, Repr

abbrev Tx := Driver Level

namespace Tx

def setLow (tx : Tx) : Tx := tx.set .low
def setHigh (tx : Tx) : Tx := tx.set .high
def bitDelay (T : ℕ) (tx : Tx) : Tx := tx.wait T

def writeByte (T : ℕ) (tx : Tx) (byte : U8) : Tx :=
  let tx := (tx.setLow).bitDelay T
  let tx := (List.range 8).foldl (fun tx i =>
    (if (byte >>> i) &&& 1 = 1 then tx.setHigh else tx.setLow).bitDelay T) tx
  (tx.setHigh).bitDelay T

def write (T : ℕ) (tx : Tx) (data : List U8) : Tx := data.foldl (writeByte T) tx

end Tx

/-- `Output::new(.., Level::High, ..)`, first used at `start`. -/
def idleTx (start : ℕ) : Tx := ⟨start, fun _ => .high⟩

/-- The eight sampling turns of `read_byte`: the byte so far and the clock. -/
def readBit (wave : ℕ → Level) (T : ℕ) (acc : U8 × ℕ) (i : ℕ) : U8 × ℕ :=
  (if wave acc.2 = .high then acc.1 ||| (1#8 <<< i) else acc.1, acc.2 + T)

/-- `read_byte` from the instant its start-bit wait ends. -/
def readByte (wave : ℕ → Level) (T detected : ℕ) : U8 × ℕ :=
  (List.range 8).foldl (readBit wave T) (0, detected + T + T)

/-- `read`, begun at `now`, whose waits end at the listed instants. -/
inductive Reads (wave : ℕ → Level) (T : ℕ) : ℕ → List ℕ → List U8 → Prop
  | done (now : ℕ) : Reads wave T now [] []
  | byte {now d : ℕ} {ds : List ℕ} {buf : List U8} (later : now ≤ d) (low : wave d = .low)
      (rest : Reads wave T (readByte wave T d).2 ds buf) :
      Reads wave T now (d :: ds) ((readByte wave T d).1 :: buf)

/-- The ten levels of a frame: start bit, eight data bits from the lowest, stop bit. -/
def frame (byte : U8) : List Level :=
  .low :: (List.range 8).map (fun i => if byte.getLsbD i then .high else .low) ++ [.high]

theorem frame_length (byte : U8) : (frame byte).length = 10 := rfl

theorem shiftRight_and_one (byte : U8) (i : ℕ) :
    (byte >>> i) &&& 1 = 1 ↔ byte.getLsbD i = true := by
  constructor
  · intro h
    have hbit := congrArg (fun b => b.getLsbD 0) h
    simpa using hbit
  · intro h
    apply BitVec.eq_of_getLsbD_eq
    intro j hj
    cases j with
    | zero => simp [h]
    | succ j => simp

theorem writeBits_eq (T : ℕ) (tx : Tx) (byte : U8) (is : List ℕ) :
    is.foldl (fun tx i =>
        (if (byte >>> i) &&& 1 = 1 then Tx.setHigh tx else Tx.setLow tx).bitDelay T) tx =
      tx.holds T (is.map fun i => if byte.getLsbD i then .high else .low) := by
  induction is generalizing tx with
  | nil => rfl
  | cons i is ih =>
    rw [List.foldl_cons, List.map_cons, Driver.holds_cons, ih]
    congr 1
    by_cases hbit : byte.getLsbD i = true
    · rw [if_pos ((shiftRight_and_one byte i).mpr hbit), if_pos hbit]
      rfl
    · rw [if_neg (fun h => hbit ((shiftRight_and_one byte i).mp h)), if_neg hbit]
      rfl

theorem writeByte_eq_holds (T : ℕ) (tx : Tx) (byte : U8) :
    tx.writeByte T byte = tx.holds T (frame byte) := by
  rw [Tx.writeByte, writeBits_eq, frame, List.cons_append, Driver.holds_cons,
    Driver.holds_append]
  rfl

theorem write_append (T : ℕ) (tx : Tx) (xs ys : List U8) :
    tx.write T (xs ++ ys) = (tx.write T xs).write T ys := List.foldl_append

theorem write_eq_holds (T : ℕ) (tx : Tx) (data : List U8) :
    tx.write T data = tx.holds T (data.flatMap frame) := by
  induction data generalizing tx with
  | nil => rfl
  | cons byte data ih =>
    rw [List.flatMap_cons, Driver.holds_append, ← writeByte_eq_holds, ← ih]
    rfl

theorem writeByte_now (T : ℕ) (tx : Tx) (byte : U8) :
    (tx.writeByte T byte).now = tx.now + 10 * T := by
  rw [writeByte_eq_holds, Driver.holds_now, frame_length]

theorem write_now (T : ℕ) (tx : Tx) (data : List U8) :
    (tx.write T data).now = tx.now + data.length * (10 * T) := by
  induction data generalizing tx with
  | nil =>
    rw [List.length_nil, Nat.zero_mul]
    rfl
  | cons byte data ih =>
    have h := ih (tx.writeByte T byte)
    rw [writeByte_now] at h
    rw [List.length_cons, Nat.succ_mul]
    exact h.trans (by omega)

/-- While a frame is sent, the line follows it; what is written later does not matter. -/
theorem write_slot {T t j : ℕ} {before : List U8} {byte : U8} (tx : Tx) (after : List U8)
    (hj : j < (frame byte).length) (hlower : tx.now + before.length * (10 * T) + j * T ≤ t)
    (hupper : t < tx.now + before.length * (10 * T) + (j + 1) * T) :
    (tx.write T (before ++ byte :: after)).wave t = (frame byte)[j] := by
  have hten : (j + 1) * T ≤ 10 * T := Nat.mul_le_mul_right T hj
  have hsplit : tx.write T (before ++ byte :: after) =
      ((tx.write T before).writeByte T byte).write T after := write_append T tx before _
  have hsettled : t < ((tx.write T before).writeByte T byte).now := by
    rw [writeByte_now, write_now]
    omega
  rw [hsplit, write_eq_holds, Driver.holds_before hsettled, writeByte_eq_holds]
  refine Driver.holds_slot hj ?_ ?_
  · rwa [write_now]
  · rwa [write_now]

theorem readBit_bit (wave : ℕ → Level) (T : ℕ) (acc : U8 × ℕ) {n : ℕ} (hn : n < 8) (j : ℕ) :
    (readBit wave T acc n).1.getLsbD j =
      (acc.1.getLsbD j || decide (j = n ∧ wave acc.2 = .high)) := by
  have hone : (1#8 <<< n).getLsbD j = decide (j = n) := by
    rw [← BitVec.twoPow_eq, BitVec.getLsbD_twoPow]
    simp only [hn, decide_true, Bool.true_and, eq_comm]
  by_cases hwave : wave acc.2 = .high
  · simp only [readBit, hwave, ↓reduceIte, BitVec.getLsbD_or, hone, and_true]
  · simp only [readBit, hwave, ↓reduceIte, and_false, decide_false, Bool.or_false]

theorem readBits_spec (wave : ℕ → Level) (T now n : ℕ) (hn : n ≤ 8) :
    ((List.range n).foldl (readBit wave T) (0, now)).2 = now + n * T ∧
      ∀ j, ((List.range n).foldl (readBit wave T) (0, now)).1.getLsbD j =
        decide (j < n ∧ wave (now + j * T) = .high) := by
  induction n with
  | zero => simp
  | succ n ih =>
    obtain ⟨hclock, hbits⟩ := ih (by omega)
    rw [List.range_succ, List.foldl_append, List.foldl_cons, List.foldl_nil]
    refine ⟨?_, ?_⟩
    · rw [readBit, hclock, Nat.succ_mul, Nat.add_assoc]
    · intro j
      rw [readBit_bit wave T _ (by omega), hbits, hclock, ← Bool.decide_or, decide_eq_decide]
      constructor
      · rintro (⟨hlt, hhigh⟩ | ⟨rfl, hhigh⟩)
        · exact ⟨by omega, hhigh⟩
        · exact ⟨Nat.lt_succ_self j, hhigh⟩
      · rintro ⟨hlt, hhigh⟩
        rcases Nat.lt_succ_iff_lt_or_eq.mp hlt with hlt | rfl
        · exact .inl ⟨hlt, hhigh⟩
        · exact .inr ⟨rfl, hhigh⟩

theorem readByte_now (wave : ℕ → Level) (T detected : ℕ) :
    (readByte wave T detected).2 = detected + 10 * T := by
  rw [readByte, (readBits_spec wave T _ 8 (Nat.le_refl 8)).1]
  omega

theorem readByte_bit (wave : ℕ → Level) (T detected : ℕ) {j : ℕ} (hj : j < 8) :
    (readByte wave T detected).1.getLsbD j =
      decide (wave (detected + T + T + j * T) = .high) := by
  rw [readByte, (readBits_spec wave T _ 8 (Nat.le_refl 8)).2 j]
  simp only [hj, true_and]

end EmbeddedDaq.FaultUart

import EmbeddedDaq.FaultConsole
import EmbeddedDaq.GeneralPolling
import EmbeddedDaq.UartLoopback

set_option autoImplicit false

/-!
# The fault task one step at a time

Its functions are `async`, but nothing in them suspends: a poll of the task runs
the loop below for as long as it is allowed to. A turn of the wait for a start
bit takes whatever it takes; a bit time is one step.
-/
namespace EmbeddedDaq.FaultMachine
open FirmwareWords GeneralWaveform GeneralPacedFrames GeneralPolling
open SharedFault FaultUart FaultTask UartBaud FaultConsole
open UartLoopback (frame_data)

inductive Stage where
  /-- At the test of `while self.input.is_high() {}`. -/
  | waiting
  /-- At a turn of the loop of `read_byte`. -/
  | sampling (i : ℕ) (byte : U8)
  /-- At a bit time of `write_byte`. -/
  | writing (result : U8) (i : ℕ)
  deriving DecidableEq, Repr

structure Machine where
  console : Console
  stage : Stage

/-- The next step; the test of the wait takes `elapsed` ticks if the line is high. -/
def Machine.step (p : Profile) (wave : ℕ → Level) (m : Machine) (elapsed : ℕ) :
    Option Machine :=
  let c := m.console
  match m.stage with
  | .waiting =>
    if wave c.tx.now = .high then
      some ⟨{ c with tx := skipTo c.tx (c.tx.now + elapsed) }, .waiting⟩
    else some ⟨{ c with tx := (c.tx.bitDelay bitTicks).bitDelay bitTicks }, .sampling 0 0⟩
  | .sampling i byte =>
    if i < 8 then
      let read := readBit wave bitTicks (byte, c.tx.now) i
      some ⟨{ c with tx := skipTo c.tx read.2 }, .sampling (i + 1) read.1⟩
    else match commandOf byte with
      | none => some ⟨c, .waiting⟩
      | some cmd => (c.engine.handleCommand p cmd).map fun r =>
          ⟨{ c with engine := r.1 }, .writing r.2.toU8 0⟩
  | .writing result i =>
    if i = 0 then some ⟨{ c with tx := (c.tx.setLow).bitDelay bitTicks }, .writing result 1⟩
    else if i ≤ 8 then
      let tx := if (result >>> (i - 1)) &&& 1 = 1 then c.tx.setHigh else c.tx.setLow
      some ⟨{ c with tx := tx.bitDelay bitTicks }, .writing result (i + 1)⟩
    else some ⟨{ c with tx := (c.tx.setHigh).bitDelay bitTicks }, .waiting⟩

section
variable (p : Profile) (wave : ℕ → Level) (latency : ℕ)

def runs (m : Machine) (inputs : List ℕ) : Option Machine := inputs.foldlM (·.step p wave) m

/-- The turns of the loop that are over. -/
inductive Turns : Console → Console → Prop
  | none (c : Console) : Turns c c
  | more {c mid last : Console} {d : ℕ} (turns : Turns c mid)
      (start : Noticed wave latency mid.tx.now d) (handled : consoleTurn p wave mid d = some last) :
      Turns c last

def sampledBits (d i : ℕ) : U8 × ℕ :=
  (List.range i).foldl (readBit wave bitTicks) (0, d + bitTicks + bitTicks)

inductive During (c : Console) : Machine → Prop
  | waiting {mid : Console} {now : ℕ} (turns : Turns p wave latency c mid)
      (polled : Polled wave .high latency mid.tx.now now) :
      During c ⟨⟨mid.engine, skipTo mid.tx now⟩, .waiting⟩
  | sampling {mid : Console} {d i : ℕ} (turns : Turns p wave latency c mid)
      (start : Noticed wave latency mid.tx.now d) (bits : i ≤ 8) :
      During c ⟨⟨mid.engine, skipTo mid.tx (sampledBits wave d i).2⟩,
        .sampling i (sampledBits wave d i).1⟩
  | writing {mid : Console} {d i : ℕ} {engine : FaultEngine} {result : U8}
      (turns : Turns p wave latency c mid) (start : Noticed wave latency mid.tx.now d)
      (handled : faultTurn p mid.engine (readByte wave bitTicks d).1 = some (engine, [result]))
      (bits : i ≤ 9) :
      During c ⟨⟨engine, (skipTo mid.tx (readByte wave bitTicks d).2).holds bitTicks
        ((frame result).take i)⟩, .writing result i⟩

variable {p wave latency}

theorem sampledBits_succ (d i : ℕ) :
    sampledBits wave d (i + 1) = readBit wave bitTicks (sampledBits wave d i) i := by
  rw [sampledBits, List.range_succ, List.foldl_append]
  rfl

theorem holds_frame_succ {tx : Tx} {result : U8} {i : ℕ} (hi : i < (frame result).length) :
    tx.holds bitTicks ((frame result).take (i + 1)) =
      ((tx.holds bitTicks ((frame result).take i)).set (frame result)[i]).wait bitTicks := by
  rw [List.take_succ_eq_append_getElem hi, Driver.holds_append]
  rfl

section
variable (e : FaultEngine) (tx : Tx) (elapsed : ℕ) {result byte : U8} {i : ℕ}

theorem step_high (h : wave tx.now = .high) :
    Machine.step p wave ⟨⟨e, tx⟩, .waiting⟩ elapsed =
      some ⟨⟨e, skipTo tx (tx.now + elapsed)⟩, .waiting⟩ := if_pos h

theorem step_low (h : wave tx.now ≠ .high) :
    Machine.step p wave ⟨⟨e, tx⟩, .waiting⟩ elapsed =
      some ⟨⟨e, (tx.bitDelay bitTicks).bitDelay bitTicks⟩, .sampling 0 0⟩ := if_neg h

theorem step_sample (hi : i < 8) :
    Machine.step p wave ⟨⟨e, tx⟩, .sampling i byte⟩ elapsed =
      some ⟨⟨e, skipTo tx (readBit wave bitTicks (byte, tx.now) i).2⟩,
        .sampling (i + 1) (readBit wave bitTicks (byte, tx.now) i).1⟩ := if_pos hi

theorem step_ignored (h : commandOf byte = none) :
    Machine.step p wave ⟨⟨e, tx⟩, .sampling 8 byte⟩ elapsed = some ⟨⟨e, tx⟩, .waiting⟩ := by
  simp only [Machine.step, h]
  rfl

theorem step_command {cmd : FaultCommand} (h : commandOf byte = some cmd) :
    Machine.step p wave ⟨⟨e, tx⟩, .sampling 8 byte⟩ elapsed =
      (e.handleCommand p cmd).map fun r => ⟨⟨r.1, tx⟩, .writing r.2.toU8 0⟩ := by
  simp only [Machine.step, h]
  rfl

theorem step_write (hi : i < 9) (h : i < (frame result).length) :
    Machine.step p wave ⟨⟨e, tx⟩, .writing result i⟩ elapsed =
      some ⟨⟨e, (tx.set (frame result)[i]).wait bitTicks⟩, .writing result (i + 1)⟩ := by
  cases i with
  | zero => rfl
  | succ i =>
    have hdata : (if (result >>> i) &&& 1 = 1 then tx.setHigh else tx.setLow) =
        tx.set (frame result)[i + 1] := by
      rw [frame_data result (Nat.lt_of_succ_lt_succ hi) h]
      simp only [shiftRight_and_one]
      cases result.getLsbD i <;> rfl
    simp only [Machine.step, Nat.add_one_ne_zero, ↓reduceIte, Nat.add_sub_cancel, hdata,
      if_pos (Nat.le_of_lt_succ hi)]
    rfl

theorem step_stop :
    Machine.step p wave ⟨⟨e, tx⟩, .writing result 9⟩ elapsed =
      some ⟨⟨e, (tx.set .high).wait bitTicks⟩, .waiting⟩ := rfl

end

theorem low_of_ne {level : Level} (h : level ≠ .high) : level = .low := by
  cases level with
  | low => rfl
  | high => exact absurd rfl h

theorem polled_noticed {start now : ℕ} (hlasting : Lasting wave .high latency)
    (h : Polled wave .high latency start now) (hnow : wave now ≠ .high) :
    Noticed wave latency start now := by
  obtain ⟨edge, hlower, hupper, hprompt, hedge, hbefore⟩ := h.noticed hlasting hnow
  exact ⟨edge, ⟨hlower, low_of_ne hedge, hbefore⟩, hupper, hprompt, low_of_ne hnow⟩

section
variable {mid : Console} {d : ℕ}

theorem turn_ignored (h : commandOf (readByte wave bitTicks d).1 = none) :
    consoleTurn p wave mid d =
      some ⟨mid.engine, skipTo mid.tx (readByte wave bitTicks d).2⟩ := by
  simp only [consoleTurn, faultTurn, h]
  rfl

theorem turn_replied {engine : FaultEngine} {result : U8}
    (h : faultTurn p mid.engine (readByte wave bitTicks d).1 = some (engine, [result])) :
    consoleTurn p wave mid d = some ⟨engine, (((skipTo mid.tx (readByte wave bitTicks d).2).holds
      bitTicks ((frame result).take 9)).set .high).wait bitTicks⟩ := by
  have hlast : Tx.write bitTicks (skipTo mid.tx (readByte wave bitTicks d).2) [result] =
      (((skipTo mid.tx (readByte wave bitTicks d).2).holds bitTicks
        ((frame result).take 9)).set .high).wait bitTicks := by
    rw [write_eq_holds]
    exact holds_frame_succ (i := 9) (by rw [frame_length]; omega)
  simp only [consoleTurn, h, ← hlast]
  rfl

end

theorem During.step {c : Console} {m m' : Machine} {elapsed : ℕ}
    (hlasting : Lasting wave .high latency) (hprompt : elapsed ≤ latency)
    (h : During p wave latency c m) (hstep : m.step p wave elapsed = some m') :
    During p wave latency c m' := by
  cases h with
  | @waiting mid now turns polled =>
    by_cases hhigh : wave now = .high
    · have hnext := (step_high _ (skipTo mid.tx now) _ hhigh).symm.trans hstep
      obtain rfl := Option.some.inj hnext
      exact .waiting turns (.again polled hhigh hprompt)
    · have hnext := (step_low _ (skipTo mid.tx now) _ hhigh).symm.trans hstep
      obtain rfl := Option.some.inj hnext
      exact .sampling (i := 0) turns (polled_noticed hlasting polled hhigh) (Nat.zero_le 8)
  | @sampling mid d i turns start bits =>
    rcases Nat.lt_or_eq_of_le bits with hi | rfl
    · obtain rfl := Option.some.inj ((step_sample _ _ _ hi).symm.trans hstep)
      have hsampling := During.sampling (i := i + 1) turns start hi
      rw [sampledBits_succ] at hsampling
      exact hsampling
    · cases hcommand : commandOf (readByte wave bitTicks d).1 with
      | none =>
        obtain rfl := Option.some.inj ((step_ignored _ _ _ hcommand).symm.trans hstep)
        have hwaiting := During.waiting (turns.more start (turn_ignored hcommand)) .first
        exact hwaiting
      | some cmd =>
        have hhandled := (step_command _ _ _ hcommand).symm.trans hstep
        obtain ⟨⟨engine, result⟩, hcmd, rfl⟩ := Option.map_eq_some_iff.mp hhandled
        have hturn : faultTurn p mid.engine (readByte wave bitTicks d).1 =
            some (engine, [result.toU8]) := by
          simp only [faultTurn, hcommand, hcmd]
          rfl
        exact .writing (i := 0) turns start hturn (Nat.zero_le 9)
  | @writing mid d i engine result turns start handled bits =>
    rcases Nat.lt_or_eq_of_le bits with hi | rfl
    · have hbit : i < (frame result).length := by
        rw [frame_length]
        omega
      obtain rfl := Option.some.inj ((step_write _ _ _ hi hbit).symm.trans hstep)
      have hwriting := During.writing (i := i + 1) turns start handled hi
      rw [holds_frame_succ hbit] at hwriting
      exact hwriting
    · obtain rfl := Option.some.inj ((step_stop _ _ _).symm.trans hstep)
      have hwaiting := During.waiting (turns.more start (turn_replied handled)) .first
      exact hwaiting

/-- A run exists whose polls of the line are one tick apart. -/
def Leads (p : Profile) (wave : ℕ → Level) (m m' : Machine) : Prop :=
  ∃ inputs, (∀ elapsed ∈ inputs, elapsed ≤ 1) ∧ runs p wave m inputs = some m'

theorem Leads.refl (m : Machine) : Leads p wave m m :=
  ⟨[], fun _ he => absurd he List.not_mem_nil, rfl⟩

theorem Leads.trans {m₁ m₂ m₃ : Machine} (h : Leads p wave m₁ m₂) (h' : Leads p wave m₂ m₃) :
    Leads p wave m₁ m₃ := by
  obtain ⟨inputs, hle, hrun⟩ := h
  obtain ⟨inputs', hle', hrun'⟩ := h'
  refine ⟨inputs ++ inputs', ?_, ?_⟩
  · intro elapsed he
    rcases List.mem_append.mp he with he | he
    · exact hle elapsed he
    · exact hle' elapsed he
  · rw [runs, List.foldlM_append]
    exact Option.bind_eq_some_iff.mpr ⟨m₂, hrun, hrun'⟩

end

end EmbeddedDaq.FaultMachine

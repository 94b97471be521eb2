import EmbeddedDaq.FaultTask
import EmbeddedDaq.GeneralPacedFrames
import EmbeddedDaq.UartBaud

set_option autoImplicit false

/-!
# The fault task on its wires

`fault_task_entry` reads a byte from one line and writes its reply to another,
one after the other on one clock: while it replies it does not listen. The
terminal at the other end is an ideal 115200 baud 8N1 transmitter and receiver.
Ticks are those of `UartBaud`.
-/
namespace EmbeddedDaq.FaultConsole
open FirmwareWords GeneralWaveform GeneralPacedFrames FaultUart FaultTask UartBaud

structure FirstLow (wave : ℕ → Level) (now edge : ℕ) : Prop where
  later : now ≤ edge
  low : wave edge = .low
  first : ∀ t, now ≤ t → t < edge → wave t = .high

/-- `while self.input.is_high() {}`, begun at `now`, leaves at `d`. -/
def Noticed (wave : ℕ → Level) (latency now d : ℕ) : Prop :=
  ∃ edge, FirstLow wave now edge ∧ edge ≤ d ∧ d ≤ edge + latency ∧ wave d = .low

/-- `UartBitbang::read`, every wait of which is left in time. -/
inductive PromptReads (wave : ℕ → Level) (latency : ℕ) : ℕ → List U8 → Prop
  | done (now : ℕ) : PromptReads wave latency now []
  | byte {now d : ℕ} {buf : List U8} (start : Noticed wave latency now d)
      (rest : PromptReads wave latency (readByte wave bitTicks d).2 buf) :
      PromptReads wave latency now ((readByte wave bitTicks d).1 :: buf)

structure Console where
  engine : FaultEngine
  tx : Tx

/-- One turn of the loop, from the instant its start-bit wait ends. -/
def consoleTurn (p : Profile) (wave : ℕ → Level) (c : Console) (d : ℕ) : Option Console :=
  let byte := readByte wave bitTicks d
  (faultTurn p c.engine byte.1).map fun r => ⟨r.1, Tx.write bitTicks (skipTo c.tx byte.2) r.2⟩

/-- The turns of the loop, up to the wait that no start bit ends. -/
inductive Serves (p : Profile) (wave : ℕ → Level) (latency : ℕ) : Console → Console → Prop
  | waiting {c : Console} (idle : ∀ t, c.tx.now ≤ t → wave t = .high) : Serves p wave latency c c
  | turn {c mid last : Console} {d : ℕ} (start : Noticed wave latency c.tx.now d)
      (handled : consoleTurn p wave c d = some mid) (rest : Serves p wave latency mid last) :
      Serves p wave latency c last

/-- The terminal's bit time. -/
def terminalBit : ℕ := 2 * halfBit

def terminalFrames (sent : List (ℕ × U8)) : List (ℕ × List Level) :=
  sent.map fun s => (s.1, frame s.2)

def terminalLine (sent : List (ℕ × U8)) : ℕ → Level :=
  (sendFrames terminalBit (idleTx 0) (terminalFrames sent)).wave

def isHigh (wave : ℕ → Level) (t : ℕ) : Bool := decide (wave t = .high)

theorem terminalBit_eq : terminalBit = 2000000 := rfl

theorem FirstLow.unique {wave : ℕ → Level} {now edge edge' : ℕ} (h : FirstLow wave now edge)
    (h' : FirstLow wave now edge') : edge = edge' := by
  apply Nat.le_antisymm
  · by_contra hlt
    exact nomatch (h.first edge' h'.later (Nat.not_le.mp hlt)).symm.trans h'.low
  · by_contra hlt
    exact nomatch (h'.first edge h.later (Nat.not_le.mp hlt)).symm.trans h.low

theorem Noticed.sooner {wave : ℕ → Level} {latency latency' now d : ℕ}
    (h : Noticed wave latency now d) (hle : latency ≤ latency') : Noticed wave latency' now d := by
  obtain ⟨edge, hfirst, hlower, hupper, hlow⟩ := h
  exact ⟨edge, hfirst, hlower, by omega, hlow⟩

theorem FirstLow.noticed {wave : ℕ → Level} {now edge : ℕ} (h : FirstLow wave now edge)
    (latency : ℕ) : Noticed wave latency now edge :=
  ⟨edge, h, Nat.le_refl _, Nat.le_add_right _ _, h.low⟩

theorem not_noticed {wave : ℕ → Level} {latency now d : ℕ} (h : ∀ t, now ≤ t → wave t = .high) :
    ¬Noticed wave latency now d := by
  rintro ⟨edge, hfirst, -, -, -⟩
  exact nomatch (h edge hfirst.later).symm.trans hfirst.low

end EmbeddedDaq.FaultConsole

import Mathlib.Algebra.Group.Nat.Defs
import Mathlib.Order.Nat
import Mathlib.Tactic.Common

set_option autoImplicit false

/-!
# An ideal 8N1 receiver

The line is high when idle, also before the clock starts. `half` is half a bit
time: from a falling edge the data bits are sampled in their middles, then the
stop bit, which must be high, or the byte is dropped. After the stop sample the
receiver looks for the next falling edge.
-/
namespace EmbeddedDaq.GeneralSerialReceiver

/-- The byte with the given bits, the lowest first. -/
def byteOf (bit : ℕ → Bool) : BitVec 8 := BitVec.ofBoolListLE ((List.range 8).map bit)

theorem byteOf_getLsbD (bit : ℕ → Bool) {i : ℕ} (hi : i < 8) : (byteOf bit).getLsbD i = bit i := by
  have hget : (BitVec.ofBoolListLE ((List.range 8).map bit)).getLsbD i =
      ((List.range 8).map bit).getD i false := BitVec.getLsbD_ofBoolListLE
  exact hget.trans (by simp [hi])

theorem byteOf_congr {bit bit' : ℕ → Bool} (h : ∀ i < 8, bit i = bit' i) :
    byteOf bit = byteOf bit' := by
  apply BitVec.eq_of_getLsbD_eq
  intro i hi
  rw [byteOf_getLsbD bit hi, byteOf_getLsbD bit' hi, h i hi]

section
variable (line : ℕ → Bool) (half : ℕ)

def FallsAt (t : ℕ) : Prop := line t = false ∧ ∀ s, s + 1 = t → line s = true

structure FirstFall (now edge : ℕ) : Prop where
  later : now ≤ edge
  falls : FallsAt line edge
  first : ∀ t, now ≤ t → t < edge → ¬FallsAt line t

/-- Bit `i` is sampled `1.5 + i` bit times after the edge. -/
def sampled (edge : ℕ) : BitVec 8 := byteOf fun i => line (edge + (3 + 2 * i) * half)

def stopSample (edge : ℕ) : ℕ := edge + 19 * half

inductive Receives : ℕ → List (BitVec 8) → Prop
  | idle {now : ℕ} (quiet : ∀ t, now ≤ t → ¬FallsAt line t) : Receives now []
  | byte {now edge : ℕ} {bytes : List (BitVec 8)} (start : FirstFall line now edge)
      (stop : line (stopSample half edge) = true) (rest : Receives (stopSample half edge) bytes) :
      Receives now (sampled line half edge :: bytes)
  | framingError {now edge : ℕ} {bytes : List (BitVec 8)} (start : FirstFall line now edge)
      (stop : line (stopSample half edge) = false) (rest : Receives (stopSample half edge) bytes) :
      Receives now bytes

variable {line half}

theorem FirstFall.unique {now edge edge' : ℕ} (h : FirstFall line now edge)
    (h' : FirstFall line now edge') : edge = edge' := by
  apply Nat.le_antisymm
  · by_contra hlt
    exact h.first edge' h'.later (Nat.not_le.mp hlt) h'.falls
  · by_contra hlt
    exact h'.first edge h.later (Nat.not_le.mp hlt) h.falls

theorem exists_firstFall {now t : ℕ} (hnow : now ≤ t) (ht : FallsAt line t) :
    ∃ edge, FirstFall line now edge := by
  classical
  have hsome : ∃ t, now ≤ t ∧ FallsAt line t := ⟨t, hnow, ht⟩
  obtain ⟨hlater, hfalls⟩ := Nat.find_spec hsome
  refine ⟨Nat.find hsome, hlater, hfalls, ?_⟩
  intro s hs hlt hfall
  exact Nat.find_min hsome hlt ⟨hs, hfall⟩

theorem Receives.unique {now : ℕ} {bytes bytes' : List (BitVec 8)}
    (h : Receives line half now bytes) (h' : Receives line half now bytes') : bytes = bytes' := by
  induction h generalizing bytes' with
  | idle quiet =>
    cases h' with
    | idle => rfl
    | byte start => exact absurd start.falls (quiet _ start.later)
    | framingError start => exact absurd start.falls (quiet _ start.later)
  | byte start stop rest ih =>
    cases h' with
    | idle quiet => exact absurd start.falls (quiet _ start.later)
    | byte start' stop' rest' =>
      obtain rfl := start.unique start'
      rw [ih rest']
    | framingError start' stop' rest' =>
      obtain rfl := start.unique start'
      exact nomatch stop.symm.trans stop'
  | framingError start stop rest ih =>
    cases h' with
    | idle quiet => exact absurd start.falls (quiet _ start.later)
    | byte start' stop' rest' =>
      obtain rfl := start.unique start'
      exact nomatch stop.symm.trans stop'
    | framingError start' stop' rest' =>
      obtain rfl := start.unique start'
      exact ih rest'

theorem Receives.dropped {now edge : ℕ} {bytes : List (BitVec 8)} (h : Receives line half now bytes)
    (hedge : FirstFall line now edge) (hstop : line (stopSample half edge) = false) :
    Receives line half (stopSample half edge) bytes := by
  cases h with
  | idle quiet => exact absurd hedge.falls (quiet _ hedge.later)
  | byte start stop rest =>
    obtain rfl := hedge.unique start
    exact nomatch hstop.symm.trans stop
  | framingError start stop rest =>
    obtain rfl := hedge.unique start
    exact rest

section
variable {finish : ℕ} (hquiet : ∀ t, finish ≤ t → ¬FallsAt line t)
include hquiet

theorem exists_receives (hhalf : 0 < half) (now : ℕ) : ∃ bytes, Receives line half now bytes := by
  by_cases hsome : ∃ t, now ≤ t ∧ FallsAt line t
  · obtain ⟨t, hnow, ht⟩ := hsome
    obtain ⟨edge, hedge⟩ := exists_firstFall hnow ht
    have hbefore : edge < finish := by
      by_contra hlate
      exact hquiet edge (Nat.not_lt.mp hlate) hedge.falls
    have hlater := hedge.later
    obtain ⟨bytes, hrest⟩ := exists_receives hhalf (stopSample half edge)
    cases hstop : line (stopSample half edge) with
    | true => exact ⟨_, .byte hedge hstop hrest⟩
    | false => exact ⟨_, .framingError hedge hstop hrest⟩
  · exact ⟨[], .idle fun t ht hfall => hsome ⟨t, ht, hfall⟩⟩
termination_by finish - now
decreasing_by
  unfold stopSample
  omega

theorem Receives.length_le {now : ℕ} {bytes : List (BitVec 8)} (h : Receives line half now bytes) :
    bytes.length * (19 * half) ≤ finish + 19 * half - now := by
  induction h with
  | idle quiet =>
    rw [List.length_nil, Nat.zero_mul]
    exact Nat.zero_le _
  | @byte now edge bytes start stop rest ih =>
    have hbefore : edge < finish := by
      by_contra hlate
      exact hquiet edge (Nat.not_lt.mp hlate) start.falls
    have hlater := start.later
    unfold stopSample at ih
    rw [List.length_cons, Nat.succ_mul]
    omega
  | @framingError now edge bytes start stop rest ih =>
    have hlater := start.later
    unfold stopSample at ih
    omega

end

end

end EmbeddedDaq.GeneralSerialReceiver

import Mathlib.Data.Nat.Notation
import Mathlib.Tactic.Common

set_option autoImplicit false

namespace EmbeddedDaq.GeneralWaveform

structure Driver (L : Type*) where
  now : ℕ
  wave : ℕ → L

namespace Driver

variable {L : Type*}

def set (d : Driver L) (level : L) : Driver L :=
  { d with wave := fun t => if t < d.now then d.wave t else level }

def wait (d : Driver L) (T : ℕ) : Driver L := { d with now := d.now + T }

def hold (T : ℕ) (d : Driver L) (level : L) : Driver L := (d.set level).wait T

def holds (T : ℕ) (d : Driver L) (levels : List L) : Driver L := levels.foldl (hold T) d

@[simp] theorem hold_now (T : ℕ) (d : Driver L) (level : L) :
    (hold T d level).now = d.now + T := rfl

theorem hold_before {T t : ℕ} {d : Driver L} (h : t < d.now) (level : L) :
    (hold T d level).wave t = d.wave t := if_pos h

theorem hold_from {T t : ℕ} {d : Driver L} (h : d.now ≤ t) (level : L) :
    (hold T d level).wave t = level := if_neg (Nat.not_lt.mpr h)

@[simp] theorem holds_cons (T : ℕ) (d : Driver L) (level : L) (levels : List L) :
    holds T d (level :: levels) = holds T (hold T d level) levels := rfl

theorem holds_append (T : ℕ) (d : Driver L) (xs ys : List L) :
    holds T d (xs ++ ys) = holds T (holds T d xs) ys := List.foldl_append

theorem holds_now (T : ℕ) (d : Driver L) (levels : List L) :
    (holds T d levels).now = d.now + levels.length * T := by
  induction levels generalizing d with
  | nil =>
    rw [List.length_nil, Nat.zero_mul]
    rfl
  | cons level levels ih =>
    rw [holds_cons, ih, hold_now, List.length_cons, Nat.succ_mul]
    omega

theorem holds_before {T t : ℕ} {d : Driver L} (h : t < d.now) (levels : List L) :
    (holds T d levels).wave t = d.wave t := by
  induction levels generalizing d with
  | nil => rfl
  | cons level levels ih =>
    have hnext : t < (hold T d level).now := by
      rw [hold_now]
      omega
    rw [holds_cons, ih hnext, hold_before h]

theorem holds_slot {T k t : ℕ} {d : Driver L} {levels : List L} (hk : k < levels.length)
    (hlower : d.now + k * T ≤ t) (hupper : t < d.now + (k + 1) * T) :
    (holds T d levels).wave t = levels[k] := by
  induction levels generalizing d k with
  | nil => exact absurd hk (Nat.not_lt_zero k)
  | cons level levels ih =>
    rw [holds_cons]
    cases k with
    | zero =>
      rw [Nat.zero_mul] at hlower
      rw [Nat.zero_add, Nat.one_mul] at hupper
      rw [holds_before hupper, hold_from hlower]
      rfl
    | succ k =>
      rw [Nat.succ_mul] at hlower hupper
      exact ih (Nat.lt_of_succ_lt_succ hk) (by rw [hold_now]; omega) (by rw [hold_now]; omega)

end Driver

end EmbeddedDaq.GeneralWaveform

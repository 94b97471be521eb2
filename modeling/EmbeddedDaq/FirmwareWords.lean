import Mathlib.Algebra.GroupWithZero.Nat
import Mathlib.Tactic.Common

set_option autoImplicit false

/-!
# Fixed-width words of the firmware

Rust `u8`, `u16` and `u32` are bit vectors. Unmarked `+` and `*` depend on the
build: `[profile.dev]` panics on overflow and `[profile.release]` wraps, so
both are computed under a `Profile`, where `none` is a panic.
-/
namespace EmbeddedDaq.FirmwareWords

abbrev U8 := BitVec 8
abbrev U16 := BitVec 16
abbrev U32 := BitVec 32

inductive Profile where
  | dev
  | release
  deriving DecidableEq, Repr

def addWord {w : ℕ} (p : Profile) (a b : BitVec w) : Option (BitVec w) :=
  if a.toNat + b.toNat < 2 ^ w then some (a + b)
  else match p with
    | .dev => none
    | .release => some (a + b)

def mulWord {w : ℕ} (p : Profile) (a b : BitVec w) : Option (BitVec w) :=
  if a.toNat * b.toNat < 2 ^ w then some (a * b)
  else match p with
    | .dev => none
    | .release => some (a * b)

/-- Division by zero panics in every profile. -/
def divWord {w : ℕ} (a b : BitVec w) : Option (BitVec w) :=
  if b = 0 then none else some (a / b)

/-- `iter().sum()`, adding from the left. -/
def sumWords {w : ℕ} (p : Profile) (xs : List (BitVec w)) : Option (BitVec w) :=
  xs.foldlM (addWord p) 0

theorem addWord_of_lt {w : ℕ} (p : Profile) (a b : BitVec w)
    (h : a.toNat + b.toNat < 2 ^ w) : addWord p a b = some (a + b) := by
  simp only [addWord, h, ↓reduceIte]

theorem mulWord_of_lt {w : ℕ} (p : Profile) (a b : BitVec w)
    (h : a.toNat * b.toNat < 2 ^ w) : mulWord p a b = some (a * b) := by
  simp only [mulWord, h, ↓reduceIte]

def total {w : ℕ} (xs : List (BitVec w)) : ℕ := (xs.map BitVec.toNat).sum

theorem addWord_eq_some_iff {w : ℕ} {p : Profile} {a b c : BitVec w} :
    addWord p a b = some c ↔ (p = .dev → a.toNat + b.toNat < 2 ^ w) ∧ c = a + b := by
  unfold addWord
  by_cases h : a.toNat + b.toNat < 2 ^ w
  · simp [h, eq_comm]
  · cases p <;> simp [h, eq_comm]

theorem divWord_eq_some_iff {w : ℕ} {a b c : BitVec w} :
    divWord a b = some c ↔ b ≠ 0 ∧ c = a / b := by
  unfold divWord
  by_cases h : b = 0
  · rw [if_pos h]
    simp only [reduceCtorEq, ne_eq, h, not_true_eq_false, false_and]
  · rw [if_neg h, Option.some_inj]
    simp only [ne_eq, h, not_false_eq_true, true_and, eq_comm]

theorem foldlM_addWord_eq_some_iff {w : ℕ} {p : Profile} {a t : BitVec w}
    {xs : List (BitVec w)} :
    xs.foldlM (addWord p) a = some t ↔
      (p = .dev → a.toNat + total xs < 2 ^ w) ∧ t = a + BitVec.ofNat w (total xs) := by
  induction xs generalizing a with
  | nil =>
    have hlt := a.isLt
    simp [total, hlt, eq_comm]
  | cons x xs ih =>
    have htotal : total (x :: xs) = x.toNat + total xs := rfl
    have hsum : a + BitVec.ofNat w (x.toNat + total xs) = a + x + BitVec.ofNat w (total xs) := by
      rw [BitVec.ofNat_add, BitVec.ofNat_toNat, BitVec.setWidth_eq, BitVec.add_assoc]
    simp only [List.foldlM_cons, Option.bind_eq_bind, Option.bind_eq_some_iff,
      addWord_eq_some_iff, ih, htotal, hsum]
    constructor
    · rintro ⟨b, ⟨hfirst, rfl⟩, hrest, rfl⟩
      refine ⟨fun hp => ?_, rfl⟩
      have h := hrest hp
      rw [BitVec.toNat_add_of_lt (hfirst hp)] at h
      omega
    · rintro ⟨hfits, rfl⟩
      refine ⟨a + x, ⟨fun hp => ?_, rfl⟩, fun hp => ?_, rfl⟩
      · have h := hfits hp
        omega
      · have h := hfits hp
        rw [BitVec.toNat_add_of_lt (by omega)]
        omega

/-- A sum is exact in `dev`, where it panics if it does not fit, and wraps in `release`. -/
theorem sumWords_eq_some_iff {w : ℕ} {p : Profile} {xs : List (BitVec w)} {t : BitVec w} :
    sumWords p xs = some t ↔ (p = .dev → total xs < 2 ^ w) ∧ t = BitVec.ofNat w (total xs) := by
  unfold sumWords
  rw [foldlM_addWord_eq_some_iff]
  simp

end EmbeddedDaq.FirmwareWords

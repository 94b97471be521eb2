import Mathlib.Logic.Function.Iterate
import Mathlib.Algebra.Group.Nat.Defs
import Mathlib.Data.List.Basic
import Mathlib.Tactic.Common

set_option autoImplicit false

namespace EmbeddedDaq.GeneralXorLinear

variable {w : ℕ}

def XorLinear (f : BitVec w → BitVec w) : Prop := ∀ x y, f (x ^^^ y) = f x ^^^ f y

namespace XorLinear

variable {f g : BitVec w → BitVec w}

theorem map_zero (hf : XorLinear f) : f 0 = 0 := by
  have h := hf 0 0
  rw [BitVec.xor_self, BitVec.xor_self] at h
  exact h

theorem comp (hf : XorLinear f) (hg : XorLinear g) : XorLinear (f ∘ g) := by
  intro x y
  rw [Function.comp_apply, hg, hf]
  rfl

theorem iterate (hf : XorLinear f) (n : ℕ) : XorLinear f^[n] := by
  induction n with
  | zero => exact fun _ _ => rfl
  | succ n ih => exact ih.comp hf

end XorLinear

/-- The exclusive or of the columns at the set bits of `x`, from bit `i` on. -/
def combineFrom (x : BitVec w) : ℕ → List (BitVec w) → BitVec w
  | _, [] => 0
  | i, c :: cs => (if x.getLsbD i then c else 0) ^^^ combineFrom x (i + 1) cs

def combine (cols : List (BitVec w)) (x : BitVec w) : BitVec w := combineFrom x 0 cols

def basis (w : ℕ) : List (BitVec w) := (List.range w).map (BitVec.twoPow w)

def columns (f : BitVec w → BitVec w) : List (BitVec w) := (basis w).map f

theorem combineFrom_basis (x : BitVec w) (i n j : ℕ) :
    (combineFrom x i ((List.range' i n).map (BitVec.twoPow w))).getLsbD j =
      (decide (i ≤ j ∧ j < i + n) && x.getLsbD j) := by
  induction n generalizing i with
  | zero =>
    have hempty : ¬(i ≤ j ∧ j < i + 0) := by omega
    simp only [hempty, decide_false, Bool.false_and]
    exact BitVec.getLsbD_zero
  | succ n ih =>
    rw [List.range'_succ, List.map_cons, combineFrom, BitVec.getLsbD_xor, ih]
    by_cases hj : i = j
    · subst hj
      have hfirst : i ≤ i ∧ i < i + (n + 1) := by omega
      have hrest : ¬(i + 1 ≤ i ∧ i < i + 1 + n) := by omega
      simp only [hfirst, hrest, and_self, decide_true, decide_false, Bool.false_and,
        Bool.xor_false, Bool.true_and]
      by_cases hbit : x.getLsbD i = true
      · simp only [hbit, ↓reduceIte, BitVec.getLsbD_twoPow, decide_true, Bool.and_true,
          decide_eq_true_iff]
        exact BitVec.lt_of_getLsbD hbit
      · simp only [hbit, Bool.false_eq_true, ↓reduceIte]
        exact BitVec.getLsbD_zero
    · have hrange : (i + 1 ≤ j ∧ j < i + 1 + n) ↔ (i ≤ j ∧ j < i + (n + 1)) := by omega
      have hfirst : (if x.getLsbD i = true then BitVec.twoPow w i else 0).getLsbD j = false := by
        split
        · simp [BitVec.getLsbD_twoPow, hj]
        · exact BitVec.getLsbD_zero
      rw [hfirst, Bool.false_xor]
      simp only [hrange]

theorem combine_basis (x : BitVec w) : combine (basis w) x = x := by
  apply BitVec.eq_of_getLsbD_eq
  intro j hj
  rw [combine, basis, List.range_eq_range', combineFrom_basis]
  simp [hj]

theorem combineFrom_map {f : BitVec w → BitVec w} (hf : XorLinear f) (x : BitVec w) (i : ℕ)
    (cols : List (BitVec w)) : combineFrom x i (cols.map f) = f (combineFrom x i cols) := by
  induction cols generalizing i with
  | nil => exact hf.map_zero.symm
  | cons c cols ih =>
    rw [List.map_cons, combineFrom, combineFrom, hf, ih]
    congr 1
    split
    · rfl
    · exact hf.map_zero.symm

theorem combine_columns {f : BitVec w → BitVec w} (hf : XorLinear f) (x : BitVec w) :
    combine (columns f) x = f x := by
  rw [columns, combine, combineFrom_map hf]
  exact congrArg f (combine_basis x)

theorem XorLinear.ext {f g : BitVec w → BitVec w} (hf : XorLinear f) (hg : XorLinear g)
    (h : columns f = columns g) (x : BitVec w) : f x = g x := by
  rw [← combine_columns hf, h, combine_columns hg]

def compose (as bs : List (BitVec w)) : List (BitVec w) := bs.map (combine as)

theorem compose_columns {f : BitVec w → BitVec w} (hf : XorLinear f) (g : BitVec w → BitVec w) :
    compose (columns f) (columns g) = columns (f ∘ g) := by
  rw [compose, columns, columns, columns, List.map_map]
  refine List.map_congr_left ?_
  intro x _
  exact combine_columns hf (g x)

def powerStep (cols acc : List (BitVec w)) (digit : Bool) : List (BitVec w) :=
  if digit then compose cols (compose acc acc) else compose acc acc

def power (cols : List (BitVec w)) (digits : List Bool) : List (BitVec w) :=
  digits.foldl (powerStep cols) (basis w)

def exponent (digits : List Bool) : ℕ := digits.foldl (fun n digit => 2 * n + digit.toNat) 0

def binary : ℕ → ℕ → List Bool
  | 0, _ => []
  | k + 1, n => binary k (n / 2) ++ [decide (n % 2 = 1)]

theorem exponent_binary (k n : ℕ) (h : n < 2 ^ k) : exponent (binary k n) = n := by
  induction k generalizing n with
  | zero =>
    rw [Nat.pow_zero, Nat.lt_one_iff] at h
    exact h.symm
  | succ k ih =>
    have hhalf : n / 2 < 2 ^ k := by
      rw [Nat.pow_succ] at h
      omega
    have hdigit : (decide (n % 2 = 1)).toNat = n % 2 := by
      rcases Nat.mod_two_eq_zero_or_one n with h | h <;> rw [h] <;> rfl
    rw [binary, exponent, List.foldl_append, List.foldl_cons, List.foldl_nil, hdigit]
    have hupper := ih (n / 2) hhalf
    rw [exponent] at hupper
    rw [hupper]
    omega

theorem powerStep_columns {f : BitVec w → BitVec w} (hf : XorLinear f) (n : ℕ) (digit : Bool) :
    powerStep (columns f) (columns f^[n]) digit = columns f^[2 * n + digit.toNat] := by
  have hsquare : compose (columns f^[n]) (columns f^[n]) = columns f^[2 * n] := by
    rw [compose_columns (hf.iterate n), ← Function.iterate_add, Nat.two_mul]
  cases digit with
  | false => exact hsquare
  | true =>
    rw [powerStep, if_pos rfl, hsquare, compose_columns hf, ← Function.iterate_succ']
    rfl

theorem power_columns {f : BitVec w → BitVec w} (hf : XorLinear f) (digits : List Bool) :
    power (columns f) digits = columns f^[exponent digits] := by
  have hfold : ∀ n, digits.foldl (powerStep (columns f)) (columns f^[n]) =
      columns f^[digits.foldl (fun n digit => 2 * n + digit.toNat) n] := by
    induction digits with
    | nil => exact fun _ => rfl
    | cons digit digits ih =>
      intro n
      rw [List.foldl_cons, List.foldl_cons, powerStep_columns hf, ih]
  have hstart : columns f^[0] = basis w := List.map_id _
  rw [power, exponent, ← hstart]
  exact hfold 0

theorem iterate_eq_self {f : BitVec w → BitVec w} (hf : XorLinear f) {k n : ℕ} (hn : n < 2 ^ k)
    (h : power (columns f) (binary k n) = basis w) (x : BitVec w) : f^[n] x = x := by
  refine XorLinear.ext (hf.iterate n) (fun _ _ => rfl) (g := id) ?_ x
  rw [power_columns hf, exponent_binary k n hn] at h
  rw [h, columns, List.map_id]

theorem iterate_xor_self {f : BitVec w → BitVec w} (hf : XorLinear f) {k m n : ℕ}
    (hm : m < 2 ^ k) (hn : n < 2 ^ k)
    (h : List.zipWith (· ^^^ ·) (power (columns f) (binary k m)) (basis w) =
      power (columns f) (binary k n))
    (x : BitVec w) : f^[m] x ^^^ x = f^[n] x := by
  have hlinear : XorLinear fun x => f^[m] x ^^^ x := by
    intro x y
    simp only [hf.iterate m x y]
    ac_rfl
  rw [power_columns hf, power_columns hf, exponent_binary k m hm, exponent_binary k n hn] at h
  refine XorLinear.ext hlinear (hf.iterate n) ?_ x
  rw [← h, columns, columns, List.zipWith_map_left, List.zipWith_self]

end EmbeddedDaq.GeneralXorLinear

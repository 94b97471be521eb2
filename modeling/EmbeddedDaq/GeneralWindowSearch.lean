import Mathlib.Data.Nat.Find
import Mathlib.Data.List.Basic

set_option autoImplicit false

namespace EmbeddedDaq.GeneralWindowSearch

variable {α : Type*} {w : ℕ} {P : List α → Prop}

def window (w k : ℕ) (xs : List α) : List α := (xs.drop k).take w

def Hit (w : ℕ) (P : List α → Prop) (xs : List α) (k : ℕ) : Prop :=
  k + w ≤ xs.length ∧ P (window w k xs)

def First (w : ℕ) (P : List α → Prop) (xs : List α) (k : ℕ) : Prop :=
  Hit w P xs k ∧ ∀ j < k, ¬Hit w P xs j

def residue (w : ℕ) (xs : List α) : List α := xs.drop (xs.length + 1 - w)

theorem window_drop (w k d : ℕ) (xs : List α) :
    window w k (xs.drop d) = window w (d + k) xs := by
  rw [window, window, List.drop_drop]

theorem window_length_add (w k : ℕ) (xs ys : List α) :
    window w (xs.length + k) (xs ++ ys) = window w k ys := by
  rw [window, window, List.drop_length_add_append]

theorem window_append {k : ℕ} {xs : List α} (h : k + w ≤ xs.length) (ys : List α) :
    window w k (xs ++ ys) = window w k xs := by
  have hlen : w ≤ (xs.drop k).length := by
    rw [List.length_drop]
    omega
  rw [window, List.drop_append_of_le_length (by omega), List.take_append_of_le_length hlen]
  rfl

theorem hit_append {k : ℕ} {xs : List α} (h : k + w ≤ xs.length) (ys : List α) :
    Hit w P (xs ++ ys) k ↔ Hit w P xs k := by
  have hle : k + w ≤ (xs ++ ys).length := by
    rw [List.length_append]
    omega
  simp only [Hit, h, hle, window_append h, true_and]

theorem Hit.append {k : ℕ} {xs : List α} (h : Hit w P xs k) (ys : List α) :
    Hit w P (xs ++ ys) k := (hit_append h.1 ys).mpr h

theorem hit_drop {d k : ℕ} {xs : List α} (h : d ≤ xs.length) :
    Hit w P (xs.drop d) k ↔ Hit w P xs (d + k) := by
  have hlen : k + w ≤ (xs.drop d).length ↔ d + k + w ≤ xs.length := by
    rw [List.length_drop]
    omega
  rw [Hit, Hit, hlen, window_drop]

theorem first_drop {d k : ℕ} {xs : List α} (hd : d ≤ xs.length)
    (hnone : ∀ j < d, ¬Hit w P xs j) : First w P (xs.drop d) k ↔ First w P xs (d + k) := by
  rw [First, First, hit_drop hd]
  refine and_congr_right fun _ => ⟨?_, ?_⟩
  · intro h j hj hhit
    have hge : d ≤ j := by
      by_contra hlt
      exact hnone j (by omega) hhit
    have hback : d + (j - d) = j := by omega
    exact h (j - d) (by omega) ((hit_drop hd).mpr (by rwa [hback]))
  · intro h j hj hhit
    exact h (d + j) (by omega) ((hit_drop hd).mp hhit)

theorem First.unique {xs : List α} {j k : ℕ} (hj : First w P xs j) (hk : First w P xs k) :
    j = k := by
  rcases Nat.lt_trichotomy j k with h | h | h
  · exact absurd hj.1 (hk.2 j h)
  · exact h
  · exact absurd hk.1 (hj.2 k h)

theorem exists_first {xs : List α} {k : ℕ} (h : Hit w P xs k) : ∃ j ≤ k, First w P xs j := by
  classical
  have hex : ∃ k, Hit w P xs k := ⟨k, h⟩
  exact ⟨Nat.find hex, Nat.find_min' hex h, Nat.find_spec hex, fun j hj => Nat.find_min hex hj⟩

theorem First.append {xs : List α} {k : ℕ} (h : First w P xs k) (ys : List α) :
    First w P (xs ++ ys) k := by
  refine ⟨h.1.append ys, ?_⟩
  intro j hj hhit
  have hle := h.1.1
  exact h.2 j hj ((hit_append (by omega) ys).mp hhit)

theorem residue_of_short {xs : List α} (h : xs.length < w) : residue w xs = xs := by
  rw [residue, Nat.sub_eq_zero_of_le h, List.drop_zero]

theorem residue_drop_one {xs : List α} (hone : 1 ≤ xs.length) (h : w ≤ xs.length) :
    residue w (xs.drop 1) = residue w xs := by
  rw [residue, residue, List.drop_drop, List.length_drop]
  congr 1
  omega

theorem residue_append_eq (hw : 0 < w) (xs ys : List α) :
    residue w xs ++ ys = (xs ++ ys).drop (xs.length + 1 - w) := by
  rw [residue, List.drop_append_of_le_length (by omega)]

theorem residue_residue_append (hw : 0 < w) (xs ys : List α) :
    residue w (residue w xs ++ ys) = residue w (xs ++ ys) := by
  rw [residue_append_eq hw, residue, residue, List.drop_drop, List.length_drop]
  congr 1
  simp only [List.length_append]
  omega

theorem hit_beyond {xs : List α} (hnone : ∀ k, ¬Hit w P xs k) {ys : List α} {k : ℕ}
    (h : Hit w P (xs ++ ys) k) : xs.length + 1 - w ≤ k := by
  by_contra hlt
  exact hnone k ((hit_append (by omega) ys).mp h)

theorem first_residue_append (hw : 0 < w) {xs : List α} (hnone : ∀ k, ¬Hit w P xs k)
    (ys : List α) (k : ℕ) :
    First w P (residue w xs ++ ys) k ↔ First w P (xs ++ ys) (xs.length + 1 - w + k) := by
  rw [residue_append_eq hw]
  refine first_drop ?_ ?_
  · rw [List.length_append]
    omega
  · intro j hj hhit
    exact absurd (hit_beyond hnone hhit) (by omega)

theorem hit_residue_append (hw : 0 < w) {xs : List α} (ys : List α) (k : ℕ) :
    Hit w P (residue w xs ++ ys) k ↔ Hit w P (xs ++ ys) (xs.length + 1 - w + k) := by
  rw [residue_append_eq hw, hit_drop]
  rw [List.length_append]
  omega

end EmbeddedDaq.GeneralWindowSearch

import Mathlib.Data.Nat.Notation
import Mathlib.Tactic.Common

set_option autoImplicit false

/-!
# While loops as step functions

The body either continues with a new state or leaves the loop with a result.
Fuel only bounds the evaluation: `Returns` and `Diverges` do not mention it.
-/
namespace EmbeddedDaq.GeneralWhileLoop

variable {S B : Type*} (body : S → S ⊕ B)

def runLoop : ℕ → S → Option B
  | 0, _ => none
  | fuel + 1, s =>
    match body s with
    | .inl u => runLoop fuel u
    | .inr b => some b

def Returns (s : S) (b : B) : Prop := ∃ fuel, runLoop body fuel s = some b

def Diverges (s : S) : Prop := ∀ fuel, runLoop body fuel s = none

variable {body}

theorem runLoop_continue {s u : S} (h : body s = .inl u) (fuel : ℕ) :
    runLoop body (fuel + 1) s = runLoop body fuel u := by
  simp only [runLoop, h]

theorem runLoop_leave {s : S} {b : B} (h : body s = .inr b) (fuel : ℕ) :
    runLoop body (fuel + 1) s = some b := by
  simp only [runLoop, h]

theorem runLoop_mono {s : S} {b : B} {fuel more : ℕ} (h : runLoop body fuel s = some b)
    (hle : fuel ≤ more) : runLoop body more s = some b := by
  induction fuel generalizing s more with
  | zero => cases h
  | succ fuel ih =>
    cases more with
    | zero => omega
    | succ more =>
      cases hbody : body s with
      | inl u =>
        rw [runLoop_continue hbody] at h ⊢
        exact ih h (by omega)
      | inr c =>
        rw [runLoop_leave hbody] at h ⊢
        exact h

theorem Returns.unique {s : S} {b c : B} (hb : Returns body s b) (hc : Returns body s c) :
    b = c := by
  obtain ⟨m, hm⟩ := hb
  obtain ⟨n, hn⟩ := hc
  have hm' := runLoop_mono hm (Nat.le_max_left m n)
  have hn' := runLoop_mono hn (Nat.le_max_right m n)
  exact Option.some.inj (hm'.symm.trans hn')

theorem Returns.leave {s : S} {b : B} (h : body s = .inr b) : Returns body s b :=
  ⟨1, runLoop_leave h 0⟩

theorem Returns.continue {s u : S} {b : B} (h : body s = .inl u) (hu : Returns body u b) :
    Returns body s b := by
  obtain ⟨fuel, hfuel⟩ := hu
  exact ⟨fuel + 1, by rw [runLoop_continue h, hfuel]⟩

theorem Returns.invariant {s : S} {b : B} (I : S → Prop) (Q : B → Prop)
    (keep : ∀ s u, I s → body s = .inl u → I u) (exit : ∀ s b, I s → body s = .inr b → Q b)
    (h : Returns body s b) (hs : I s) : Q b := by
  obtain ⟨fuel, hfuel⟩ := h
  induction fuel generalizing s with
  | zero => cases hfuel
  | succ fuel ih =>
    cases hbody : body s with
    | inl u =>
      rw [runLoop_continue hbody] at hfuel
      exact ih (keep s u hs hbody) hfuel
    | inr c =>
      rw [runLoop_leave hbody] at hfuel
      exact Option.some.inj hfuel ▸ exit s c hs hbody

theorem Diverges.stuck {s : S} (h : body s = .inl s) : Diverges body s := by
  intro fuel
  induction fuel with
  | zero => rfl
  | succ fuel ih => rw [runLoop_continue h, ih]

theorem Diverges.continue {s u : S} (h : body s = .inl u) (hu : Diverges body u) :
    Diverges body s := by
  intro fuel
  cases fuel with
  | zero => rfl
  | succ fuel => rw [runLoop_continue h, hu fuel]

end EmbeddedDaq.GeneralWhileLoop

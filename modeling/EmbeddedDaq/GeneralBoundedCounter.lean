import Mathlib.Data.List.Induction
import Mathlib.Data.List.Infix

set_option autoImplicit false

namespace EmbeddedDaq.GeneralBoundedCounter

section
variable {S I : Type*} (run : List I → Option S) (value : S → ℕ) (wanted : S → I → ℕ)
  (ideal : List I → ℕ) (limit : ℕ)

/-- No step of the run wants a value from `limit` on. -/
def NeverExceeds (xs : List I) : Prop :=
  ∀ before i rest, xs = before ++ i :: rest → ∀ s, run before = some s → wanted s i < limit

def AlwaysShows (xs : List I) : Prop :=
  ∀ before, before <+: xs → ∃ s, run before = some s ∧ value s = ideal before

def StaysBelow (xs : List I) : Prop := ∀ before, before <+: xs → ideal before < limit

/-- A state that tracks its inputs shows the ideal value, and below the limit the next one does. -/
structure Counts (tracks : List I → S → Prop) : Prop where
  start : ∃ s, run [] = some s ∧ tracks [] s
  start_lt : ideal [] < limit
  value_lt : ∀ s, value s < limit
  value_eq : ∀ xs s, tracks xs s → value s = ideal xs
  wanted_eq : ∀ xs s i, tracks xs s → wanted s i = ideal (xs ++ [i])
  next : ∀ xs s i, run xs = some s → tracks xs s → ideal (xs ++ [i]) < limit →
    ∃ u, run (xs ++ [i]) = some u ∧ tracks (xs ++ [i]) u

end

section
variable {S I : Type*} {run : List I → Option S} {value : S → ℕ} {wanted : S → I → ℕ}
  {ideal : List I → ℕ} {limit : ℕ} {tracks : List I → S → Prop} {xs ys : List I}

theorem StaysBelow.of_part (h : StaysBelow ideal limit ys) (hpart : xs <+: ys) :
    StaysBelow ideal limit xs := fun before hbefore => h before (hbefore.trans hpart)

theorem NeverExceeds.of_part (h : NeverExceeds run wanted limit ys) (hpart : xs <+: ys) :
    NeverExceeds run wanted limit xs := by
  obtain ⟨tail, rfl⟩ := hpart
  rintro before i rest rfl s hrun
  exact h before i (rest ++ tail) (by simp) s hrun

theorem Counts.tracked (h : Counts run value wanted ideal limit tracks)
    (hbelow : StaysBelow ideal limit xs) : ∃ s, run xs = some s ∧ tracks xs s := by
  induction xs using List.reverseRecOn with
  | nil => exact h.start
  | append_singleton xs i ih =>
    obtain ⟨s, hrun, htracks⟩ := ih (hbelow.of_part (List.prefix_append xs [i]))
    exact h.next xs s i hrun htracks (hbelow _ (List.prefix_refl _))

theorem Counts.alwaysShows_iff (h : Counts run value wanted ideal limit tracks) :
    AlwaysShows run value ideal xs ↔ StaysBelow ideal limit xs := by
  constructor
  · intro hshows before hpart
    obtain ⟨s, -, hvalue⟩ := hshows before hpart
    exact hvalue ▸ h.value_lt s
  · intro hbelow before hpart
    obtain ⟨s, hrun, htracks⟩ := h.tracked (hbelow.of_part hpart)
    exact ⟨s, hrun, h.value_eq before s htracks⟩

theorem Counts.staysBelow (h : Counts run value wanted ideal limit tracks)
    (hnever : NeverExceeds run wanted limit xs) : StaysBelow ideal limit xs := by
  induction xs using List.reverseRecOn with
  | nil =>
    intro before hpart
    rw [List.prefix_nil.mp hpart]
    exact h.start_lt
  | append_singleton xs i ih =>
    have hbelow := ih (hnever.of_part (List.prefix_append xs [i]))
    obtain ⟨s, hrun, htracks⟩ := h.tracked hbelow
    intro before hpart
    rcases List.prefix_concat_iff.mp hpart with rfl | hshorter
    · rw [← h.wanted_eq xs s i htracks]
      exact hnever xs i [] rfl s hrun
    · exact hbelow before hshorter

theorem Counts.neverExceeds_iff (h : Counts run value wanted ideal limit tracks) :
    NeverExceeds run wanted limit xs ↔ StaysBelow ideal limit xs := by
  constructor
  · exact h.staysBelow
  · rintro hbelow before i rest rfl s hrun
    have hpart : before ++ [i] <+: before ++ i :: rest := ⟨rest, by simp⟩
    obtain ⟨u, hu, htracks⟩ :=
      h.tracked (hbelow.of_part (List.prefix_append before (i :: rest)))
    obtain rfl := Option.some.inj (hrun.symm.trans hu)
    rw [h.wanted_eq before s i htracks]
    exact hbelow _ hpart

end

end EmbeddedDaq.GeneralBoundedCounter

import EmbeddedDaq.GeneralRuns
import Mathlib.Data.List.Forall2

set_option autoImplicit false

namespace EmbeddedDaq.GeneralLockstep
open GeneralRuns

section
variable {S S' I I' E E' : Type*} {R : S → S' → Prop} {Like : I → I' → Prop}

theorem foldlM_related {step : S → I → Option S} {step' : S' → I' → Option S'}
    (hstep : ∀ s s' i i' u u', R s s' → Like i i' → step s i = some u → step' s' i' = some u' →
      R u u') {is : List I} {is' : List I'} (hlike : List.Forall₂ Like is is') {s u : S}
    {s' u' : S'} (hs : R s s') (hrun : is.foldlM step s = some u)
    (hrun' : is'.foldlM step' s' = some u') : R u u' := by
  induction hlike generalizing s s' with
  | nil =>
    obtain rfl := Option.some.inj hrun
    obtain rfl := Option.some.inj hrun'
    exact hs
  | cons hhead _ ih =>
    rw [List.foldlM_cons] at hrun hrun'
    obtain ⟨mid, hmid, hrest⟩ := Option.bind_eq_some_iff.mp hrun
    obtain ⟨mid', hmid', hrest'⟩ := Option.bind_eq_some_iff.mp hrun'
    exact ih (hstep _ _ _ _ _ _ hs hhead hmid hmid') hrest hrest'

theorem foldlM_keeps {step : S → I → Option S} {P : S → Prop}
    (hstep : ∀ s i u, P s → step s i = some u → P u) {is : List I} {s u : S} (hs : P s)
    (hrun : is.foldlM step s = some u) : P u := by
  have hsame : List.Forall₂ (fun i i' : I => i = i') is is :=
    List.forall₂_same.mpr fun i _ => rfl
  have hpair : ∀ (s s' : S) (i i' : I) (u u' : S), P s → i = i' → step s i = some u →
      step s' i' = some u' → P u := fun s _ i _ u _ hP _ hmid _ => hstep s i u hP hmid
  exact foldlM_related (R := fun s (_ : S) => P s) hpair hsame hs hrun hrun

theorem run_related {step : S → I → Option (S × List E)} {step' : S' → I → Option (S' × List E')}
    (hstep : ∀ s s' i u u' es es', R s s' → step s i = some (u, es) →
      step' s' i = some (u', es') → R u u')
    {is : List I} {s u : S} {s' u' : S'} {es : List E} {es' : List E'} (hs : R s s')
    (hrun : run step s is = some (u, es)) (hrun' : run step' s' is = some (u', es')) :
    R u u' := by
  induction is generalizing s s' es es' with
  | nil =>
    obtain ⟨rfl, -⟩ := Prod.mk.inj (Option.some.inj hrun)
    obtain ⟨rfl, -⟩ := Prod.mk.inj (Option.some.inj hrun')
    exact hs
  | cons i is ih =>
    obtain ⟨mid, fs, gs, hfirst, hrest, -⟩ := run_cons_eq_some.mp hrun
    obtain ⟨mid', fs', gs', hfirst', hrest', -⟩ := run_cons_eq_some.mp hrun'
    exact ih (hstep s s' i mid mid' fs fs' hs hfirst hfirst') hrest hrest'

end

end EmbeddedDaq.GeneralLockstep

import Mathlib.Data.List.Induction
import Mathlib.Tactic.Common

set_option autoImplicit false

namespace EmbeddedDaq.GeneralRuns

section
variable {S I E : Type*} (step : S → I → Option (S × List E))

def run : S → List I → Option (S × List E)
  | s, [] => some (s, [])
  | s, i :: rest =>
    (step s i).bind fun r => (run r.1 rest).map fun q => (q.1, r.2 ++ q.2)

variable {step}

@[simp] theorem run_nil (s : S) : run step s [] = some (s, []) := rfl

theorem run_cons_eq_some {s v : S} {i : I} {rest : List I} {es : List E} :
    run step s (i :: rest) = some (v, es) ↔
      ∃ u fs gs, step s i = some (u, fs) ∧ run step u rest = some (v, gs) ∧ es = fs ++ gs := by
  constructor
  · intro h
    simp only [run, Option.bind_eq_some_iff, Option.map_eq_some_iff] at h
    obtain ⟨⟨u, fs⟩, hstep, ⟨w, gs⟩, hrest, heq⟩ := h
    obtain ⟨rfl, rfl⟩ := Prod.mk.inj heq
    exact ⟨u, fs, gs, hstep, hrest, rfl⟩
  · rintro ⟨u, fs, gs, hstep, hrest, rfl⟩
    simp only [run, hstep, Option.bind_some, hrest, Option.map_some]

theorem run_append_eq_some {s v : S} {xs ys : List I} {es : List E} :
    run step s (xs ++ ys) = some (v, es) ↔
      ∃ u fs gs, run step s xs = some (u, fs) ∧ run step u ys = some (v, gs) ∧ es = fs ++ gs := by
  induction xs generalizing s es with
  | nil =>
    constructor
    · intro h
      exact ⟨s, [], es, rfl, h, rfl⟩
    · rintro ⟨u, fs, gs, hx, hy, rfl⟩
      obtain ⟨rfl, rfl⟩ := Prod.mk.inj (Option.some.inj hx)
      exact hy
  | cons i xs ih =>
    constructor
    · intro h
      obtain ⟨u, fs, gs, hi, hrest, rfl⟩ := run_cons_eq_some.mp h
      obtain ⟨w, hs, ks, hx, hy, rfl⟩ := ih.mp hrest
      exact ⟨w, fs ++ hs, ks, run_cons_eq_some.mpr ⟨u, fs, hs, hi, hx, rfl⟩, hy,
        (List.append_assoc fs hs ks).symm⟩
    · rintro ⟨w, fs, ks, hx, hy, rfl⟩
      obtain ⟨u, gs, hs, hi, hrest, rfl⟩ := run_cons_eq_some.mp hx
      exact run_cons_eq_some.mpr ⟨u, gs, hs ++ ks, hi, ih.mpr ⟨w, hs, ks, hrest, hy, rfl⟩,
        List.append_assoc gs hs ks⟩

theorem run_singleton_eq_some {s v : S} {i : I} {es : List E} :
    run step s [i] = some (v, es) ↔ step s i = some (v, es) := by
  rw [run_cons_eq_some]
  constructor
  · rintro ⟨u, fs, gs, hi, hrest, rfl⟩
    obtain ⟨rfl, rfl⟩ := Prod.mk.inj (Option.some.inj hrest)
    rwa [List.append_nil]
  · intro h
    exact ⟨v, es, [], h, rfl, (List.append_nil es).symm⟩

theorem run_concat_eq_some {s v : S} {xs : List I} {i : I} {es : List E} :
    run step s (xs ++ [i]) = some (v, es) ↔
      ∃ u fs gs, run step s xs = some (u, fs) ∧ step u i = some (v, gs) ∧ es = fs ++ gs := by
  simp only [run_append_eq_some, run_singleton_eq_some]

theorem run_states {next : S → I → Option S} (h : ∀ s i, (step s i).map Prod.fst = next s i)
    (s : S) (xs : List I) : (run step s xs).map Prod.fst = xs.foldlM next s := by
  induction xs generalizing s with
  | nil => rfl
  | cons i xs ih =>
    rw [List.foldlM_cons, ← h]
    cases hstep : step s i with
    | none => simp [run, hstep]
    | some r =>
      simp only [run, hstep, Option.bind_some, Option.map_map, Option.map_some,
        Option.bind_eq_bind, ← ih]
      rfl

theorem run_still {s : S} {Q : E → Prop}
    (h : ∀ i, ∃ es, step s i = some (s, es) ∧ ∀ e ∈ es, Q e) (xs : List I) :
    ∃ es, run step s xs = some (s, es) ∧ ∀ e ∈ es, Q e := by
  induction xs with
  | nil => exact ⟨[], rfl, fun e he => by cases he⟩
  | cons i xs ih =>
    obtain ⟨fs, hstep, hfs⟩ := h i
    obtain ⟨gs, hrest, hgs⟩ := ih
    refine ⟨fs ++ gs, run_cons_eq_some.mpr ⟨s, fs, gs, hstep, hrest, rfl⟩, ?_⟩
    intro e he
    rcases List.mem_append.mp he with he | he
    · exact hfs e he
    · exact hgs e he

theorem run_history {s : S} (Inv : List I → List E → S → Prop) (start : Inv [] [] s)
    (next : ∀ xs es u i v fs, Inv xs es u → step u i = some (v, fs) →
      Inv (xs ++ [i]) (es ++ fs) v) :
    ∀ xs v es, run step s xs = some (v, es) → Inv xs es v := by
  intro xs
  induction xs using List.reverseRecOn with
  | nil =>
    intro v es h
    obtain ⟨rfl, rfl⟩ := Prod.mk.inj (Option.some.inj h)
    exact start
  | append_singleton xs i ih =>
    intro v es h
    obtain ⟨u, fs, gs, hx, hi, rfl⟩ := run_concat_eq_some.mp h
    exact next xs fs u i v gs (ih u fs hx) hi

/-- Under a condition that prefixes inherit, a step that cannot abort makes a run that cannot. -/
theorem run_total {s : S} (Ok : List I → Prop) (Inv : List I → List E → S → Prop)
    (shorter : ∀ xs i, Ok (xs ++ [i]) → Ok xs) (start : Inv [] [] s)
    (next : ∀ xs es u i, Ok (xs ++ [i]) → Inv xs es u →
      ∃ v fs, step u i = some (v, fs) ∧ Inv (xs ++ [i]) (es ++ fs) v) :
    ∀ xs, Ok xs → ∃ v es, run step s xs = some (v, es) ∧ Inv xs es v := by
  intro xs
  induction xs using List.reverseRecOn with
  | nil =>
    intro _
    exact ⟨s, [], rfl, start⟩
  | append_singleton xs i ih =>
    intro hok
    obtain ⟨u, es, hx, hu⟩ := ih (shorter xs i hok)
    obtain ⟨v, fs, hi, hv⟩ := next xs es u i hok hu
    exact ⟨v, es ++ fs, run_concat_eq_some.mpr ⟨u, es, fs, hx, hi, rfl⟩, hv⟩

end

end EmbeddedDaq.GeneralRuns

import EmbeddedDaq.GeneralRuns
import Mathlib.Data.List.DropRight

set_option autoImplicit false

namespace EmbeddedDaq.GeneralTally
open GeneralRuns

section
variable {E : Type*} (restarts counts : E → Bool)

def since (es : List E) : ℕ := (es.rtakeWhile fun e => !restarts e).countP counts

def tally : ℕ → List E → ℕ
  | n, [] => n
  | n, e :: es => tally (if restarts e then 0 else n + (counts e).toNat) es

variable {restarts counts}

theorem tally_append (n : ℕ) (xs ys : List E) :
    tally restarts counts n (xs ++ ys) =
      tally restarts counts (tally restarts counts n xs) ys := by
  induction xs generalizing n with
  | nil => rfl
  | cons e xs ih => exact ih _

theorem tally_le (n : ℕ) (es : List E) : tally restarts counts n es ≤ n + es.countP counts := by
  induction es generalizing n with
  | nil => exact Nat.le_refl n
  | cons e es ih =>
    have hrest := ih (if restarts e then 0 else n + (counts e).toNat)
    have hfirst : (if restarts e then 0 else n + (counts e).toNat) ≤ n + (counts e).toNat := by
      split
      · exact Nat.zero_le _
      · exact Nat.le_refl _
    have hcount : (e :: es).countP counts = es.countP counts + (counts e).toNat := by
      rw [List.countP_cons]
      cases counts e <;> rfl
    rw [tally, hcount]
    omega

theorem since_concat (es : List E) (e : E) :
    since restarts counts (es ++ [e]) =
      if restarts e then 0 else since restarts counts es + (counts e).toNat := by
  unfold since
  rw [List.rtakeWhile_concat]
  cases hrestart : restarts e with
  | true => rfl
  | false =>
    rw [Bool.not_false, if_pos rfl, List.countP_append, if_neg Bool.false_ne_true]
    rfl

theorem tally_zero (es : List E) : tally restarts counts 0 es = since restarts counts es := by
  induction es using List.reverseRecOn with
  | nil => rfl
  | append_singleton es e ih =>
    rw [tally_append, ih, since_concat]
    rfl

end

section
variable {S I E : Type*} (restarts counts : E → Bool) (limit : ℕ) (count : S → ℕ)

/-- Below the limit the step does what the total one does, and its counter is exact. -/
structure Accounted (total step : S → I → Option (S × List E)) : Prop where
  returns : ∀ s i, ∃ u es, total s i = some (u, es)
  exact : ∀ s i u es, total s i = some (u, es) → count s + es.countP counts < limit →
    step s i = some (u, es) ∧ count u = tally restarts counts (count s) es

variable {restarts counts limit count} {total step : S → I → Option (S × List E)}

theorem Accounted.run (h : Accounted restarts counts limit count total step) :
    Accounted restarts counts limit count (run total) (run step) := by
  constructor
  · intro s is
    induction is generalizing s with
    | nil => exact ⟨s, [], rfl⟩
    | cons i is ih =>
      obtain ⟨u, es, hstep⟩ := h.returns s i
      obtain ⟨v, fs, hrest⟩ := ih u
      exact ⟨v, es ++ fs, run_cons_eq_some.mpr ⟨u, es, fs, hstep, hrest, rfl⟩⟩
  · intro s is
    induction is generalizing s with
    | nil =>
      intro u es htotal hlimit
      obtain ⟨rfl, rfl⟩ := Prod.mk.inj (Option.some.inj htotal)
      exact ⟨rfl, rfl⟩
    | cons i is ih =>
      intro v es htotal hlimit
      obtain ⟨u, fs, gs, hfirst, hrest, rfl⟩ := run_cons_eq_some.mp htotal
      rw [List.countP_append] at hlimit
      obtain ⟨hstep, hcount⟩ := h.exact s i u fs hfirst (by omega)
      have hle : tally restarts counts (count s) fs ≤ count s + fs.countP counts :=
        tally_le (count s) fs
      rw [← hcount] at hle
      obtain ⟨hsteps, hcounts⟩ := ih u v gs hrest (by omega)
      refine ⟨run_cons_eq_some.mpr ⟨u, fs, gs, hstep, hsteps, rfl⟩, ?_⟩
      rw [hcounts, hcount, tally_append]

theorem Accounted.since (h : Accounted restarts counts limit count total step) {s : S}
    (hs : count s = 0) (is : List I) :
    ∃ u es, GeneralRuns.run total s is = some (u, es) ∧ (es.countP counts < limit →
      GeneralRuns.run step s is = some (u, es) ∧ count u = since restarts counts es) := by
  obtain ⟨u, es, hrun⟩ := h.run.returns s is
  refine ⟨u, es, hrun, ?_⟩
  intro hlimit
  obtain ⟨hstep, hcount⟩ := h.run.exact s is u es hrun (by omega)
  rw [hs, tally_zero] at hcount
  exact ⟨hstep, hcount⟩

end

end EmbeddedDaq.GeneralTally

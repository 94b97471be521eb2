import Mathlib.Data.List.Basic
import Mathlib.Logic.Function.Basic
import Mathlib.Tactic.Common

set_option autoImplicit false

/-!
# Tasks that share a processor by consent

A task keeps the processor until a step of its own gives it up; then any spawned
task may be polled. Tasks have states and inputs of their own and share nothing
else.
-/
namespace EmbeddedDaq.GeneralCooperative

section
variable {ι : Type*} [DecidableEq ι] {S I : ι → Type*}

structure World (S : ι → Type*) where
  states : ∀ i, S i
  /-- The task being polled. -/
  current : Option ι

inductive Act (I : ι → Type*) where
  | poll (i : ι)
  | advance (i : ι) (input : I i)

/-- A step says whether the task gives the processor up after it, and may abort. -/
abbrev Steps (S I : ι → Type*) := ∀ i, S i → I i → Option (S i × Bool)

variable (steps : Steps S I) (spawned : List ι)

def act (w : World S) : Act I → Option (World S)
  | .poll i =>
    if w.current = none ∧ i ∈ spawned then some { w with current := some i } else none
  | .advance i input =>
    if w.current = some i then
      (steps i (w.states i) input).map fun r =>
        ⟨Function.update w.states i r.1, if r.2 then none else some i⟩
    else none

def runActs (w : World S) (acts : List (Act I)) : Option (World S) :=
  acts.foldlM (act steps spawned) w

def runAlone (i : ι) (s : S i) (inputs : List (I i)) : Option (S i) :=
  inputs.foldlM (fun s input => (steps i s input).map Prod.fst) s

def Act.inputOf (i : ι) : Act I → Option (I i)
  | .poll _ => none
  | .advance j input => if h : j = i then some (h ▸ input) else none

/-- What a task reads along a schedule. -/
def inputsOf (i : ι) (acts : List (Act I)) : List (I i) := acts.filterMap (Act.inputOf i)

def Act.StepOf (i : ι) (a : Act I) : Prop := ∃ input, a = .advance i input

variable {steps spawned}

theorem act_poll {w w' : World S} {i : ι} (h : act steps spawned w (.poll i) = some w') :
    w.current = none ∧ i ∈ spawned ∧ w' = { w with current := some i } := by
  simp only [act] at h
  split at h
  · next hidle => exact ⟨hidle.1, hidle.2, (Option.some.inj h).symm⟩
  · cases h

theorem act_advance {w w' : World S} {i : ι} {input : I i}
    (h : act steps spawned w (.advance i input) = some w') :
    ∃ s' yields, w.current = some i ∧ steps i (w.states i) input = some (s', yields) ∧
      w' = ⟨Function.update w.states i s', if yields then none else some i⟩ := by
  simp only [act] at h
  split at h
  · next hcurrent =>
    obtain ⟨⟨s', yields⟩, hstep, hw'⟩ := Option.map_eq_some_iff.mp h
    exact ⟨s', yields, hcurrent, hstep, hw'.symm⟩
  · cases h

theorem runActs_cons {w w' : World S} {a : Act I} {acts : List (Act I)} :
    runActs steps spawned w (a :: acts) = some w' ↔
      ∃ mid, act steps spawned w a = some mid ∧ runActs steps spawned mid acts = some w' := by
  rw [runActs, List.foldlM_cons]
  exact Option.bind_eq_some_iff

theorem runActs_append {w w' : World S} {before after : List (Act I)} :
    runActs steps spawned w (before ++ after) = some w' ↔
      ∃ mid, runActs steps spawned w before = some mid ∧
        runActs steps spawned mid after = some w' := by
  rw [runActs, List.foldlM_append]
  exact Option.bind_eq_some_iff

theorem inputOf_self {i : ι} (input : I i) :
    (Act.advance i input : Act I).inputOf i = some input := dif_pos rfl

theorem inputOf_other {i j : ι} (h : j ≠ i) (input : I j) :
    (Act.advance j input : Act I).inputOf i = none := dif_neg h

/-- Whatever the schedule, each task does what it does on its own with the inputs it read. -/
theorem runActs_alone {w w' : World S} {acts : List (Act I)}
    (h : runActs steps spawned w acts = some w') (i : ι) :
    runAlone steps i (w.states i) (inputsOf i acts) = some (w'.states i) := by
  induction acts generalizing w with
  | nil =>
    obtain rfl := Option.some.inj h
    rfl
  | cons a acts ih =>
    obtain ⟨mid, hact, hrest⟩ := runActs_cons.mp h
    cases a with
    | poll j =>
      obtain ⟨-, -, rfl⟩ := act_poll hact
      exact ih (w := ⟨w.states, some j⟩) hrest
    | advance j input =>
      obtain ⟨s', yields, -, hstep, rfl⟩ := act_advance hact
      have hafter : runAlone steps i (Function.update w.states j s' i) (inputsOf i acts) =
          some (w'.states i) := ih hrest
      by_cases hij : j = i
      · subst hij
        have hinputs : inputsOf j (.advance j input :: acts) = input :: inputsOf j acts :=
          List.filterMap_cons_some (inputOf_self input)
        rw [Function.update_self] at hafter
        rw [hinputs, runAlone, List.foldlM_cons, hstep]
        exact hafter
      · have hinputs : inputsOf i (.advance j input :: acts) = inputsOf i acts :=
          List.filterMap_cons_none (inputOf_other hij input)
        rw [Function.update_of_ne (Ne.symm hij)] at hafter
        rw [hinputs, hafter]

/-- A task none of whose steps gives the processor up never loses it: nobody else is polled, and
nobody else moves. -/
theorem runActs_kept {i : ι} {P : S i → Prop}
    (hkeeps : ∀ s input s' yields, P s → steps i s input = some (s', yields) →
      P s' ∧ yields = false)
    {w w' : World S} {acts : List (Act I)} (hcurrent : w.current = some i)
    (hstate : P (w.states i)) (h : runActs steps spawned w acts = some w') :
    w'.current = some i ∧ P (w'.states i) ∧ (∀ a ∈ acts, a.StepOf i) ∧
      ∀ j, j ≠ i → w'.states j = w.states j := by
  induction acts generalizing w with
  | nil =>
    obtain rfl := Option.some.inj h
    exact ⟨hcurrent, hstate, fun a ha => absurd ha List.not_mem_nil, fun j _ => rfl⟩
  | cons a acts ih =>
    obtain ⟨mid, hact, hrest⟩ := runActs_cons.mp h
    cases a with
    | poll j =>
      obtain ⟨hidle, -, -⟩ := act_poll hact
      rw [hcurrent] at hidle
      cases hidle
    | advance j input =>
      obtain ⟨s', yields, hj, hstep, rfl⟩ := act_advance hact
      obtain rfl : i = j := Option.some.inj (hcurrent.symm.trans hj)
      obtain ⟨hs', rfl⟩ := hkeeps _ _ _ _ hstate hstep
      have hnext : P (Function.update w.states i s' i) := by rwa [Function.update_self]
      obtain ⟨hcurrent', hstate', hsteps, hothers⟩ := ih rfl hnext hrest
      refine ⟨hcurrent', hstate', ?_, ?_⟩
      · intro a ha
        rcases List.mem_cons.mp ha with rfl | ha
        · exact ⟨input, rfl⟩
        · exact hsteps a ha
      · intro j hij
        rw [hothers j hij]
        exact Function.update_of_ne hij s' w.states

theorem inputsOf_append (i : ι) (before after : List (Act I)) :
    inputsOf i (before ++ after) = inputsOf i before ++ inputsOf i after :=
  List.filterMap_append

theorem inputsOf_steps {i j : ι} (hij : i ≠ j) {acts : List (Act I)}
    (h : ∀ a ∈ acts, a.StepOf i) : inputsOf j acts = [] := by
  refine List.filterMap_eq_nil_iff.mpr ?_
  intro a ha
  obtain ⟨input, rfl⟩ := h a ha
  exact inputOf_other hij input

theorem polled_spawned {i : ι} {w w' : World S} {acts : List (Act I)}
    (h : runActs steps spawned w acts = some w') (hpoll : .poll i ∈ acts) : i ∈ spawned := by
  induction acts generalizing w with
  | nil => cases hpoll
  | cons a acts ih =>
    obtain ⟨mid, hact, hrest⟩ := runActs_cons.mp h
    rcases List.mem_cons.mp hpoll with rfl | hlater
    · exact (act_poll hact).2.1
    · exact ih hrest hlater

end

end EmbeddedDaq.GeneralCooperative

import Mathlib.Data.List.Basic
import Mathlib.Logic.Function.Basic
import Mathlib.Tactic.Common

set_option autoImplicit false

namespace EmbeddedDaq.GeneralFaultyMemory

structure Device (α κ ω : Type*) where
  select : α → κ
  keep : κ → ω → ω

namespace Device

section
variable {α κ ω : Type*} (d : Device α κ ω)

/-- The word survives being written at the address. -/
def Keeps (a : α) (v : ω) : Prop := d.keep (d.select a) v = v

instance [DecidableEq ω] (a : α) (v : ω) : Decidable (d.Keeps a v) :=
  inferInstanceAs (Decidable (_ = _))

def read (a : α) (cells : κ → ω) : ω := cells (d.select a)

variable [DecidableEq κ]

def write (a : α) (v : ω) (cells : κ → ω) : κ → ω :=
  Function.update cells (d.select a) (d.keep (d.select a) v)

def fill (v : ω) (as : List α) (cells : κ → ω) : κ → ω :=
  as.foldl (fun cells a => d.write a v cells) cells

variable {d} {a : α} {v : ω} {as : List α} {cells : κ → ω} {c : κ}

theorem write_frame (hc : c ≠ d.select a) : d.write a v cells c = cells c :=
  Function.update_of_ne hc _ _

theorem write_select : d.write a v cells (d.select a) = d.keep (d.select a) v :=
  Function.update_self _ _ _

theorem fill_frame (hc : ∀ a ∈ as, c ≠ d.select a) : d.fill v as cells c = cells c := by
  induction as generalizing cells with
  | nil => rfl
  | cons b as ih =>
    change d.fill v as (d.write b v cells) c = cells c
    rw [ih fun x hx => hc x (List.mem_cons_of_mem b hx), write_frame (hc b List.mem_cons_self)]

theorem fill_select (hc : ∃ a ∈ as, c = d.select a) : d.fill v as cells c = d.keep c v := by
  induction as generalizing cells with
  | nil =>
    obtain ⟨a, ha, -⟩ := hc
    exact absurd ha List.not_mem_nil
  | cons b as ih =>
    change d.fill v as (d.write b v cells) c = d.keep c v
    by_cases hlater : ∃ x ∈ as, c = d.select x
    · exact ih hlater
    · obtain ⟨x, hx, rfl⟩ := hc
      rcases List.mem_cons.mp hx with rfl | hmem
      · rw [fill_frame fun y hy heq => hlater ⟨y, hy, heq⟩, write_select]
      · exact absurd ⟨x, hmem, rfl⟩ hlater

/-- Every address of the list reads back what its cell keeps of the word, whichever addresses
share a cell. -/
theorem read_fill (ha : a ∈ as) : d.read a (d.fill v as cells) = d.keep (d.select a) v :=
  fill_select ⟨a, ha, rfl⟩

end

end Device

section
variable {σ β : Type*} {refused : β → Bool} {step : σ → β → σ}

theorem foldlM_guarded_eq_some {xs : List β} (h : ∀ x ∈ xs, refused x = false) (s : σ) :
    xs.foldlM (fun s x => if refused x then none else some (step s x)) s =
      some (xs.foldl step s) := by
  induction xs generalizing s with
  | nil => rfl
  | cons x xs ih =>
    rw [List.foldlM_cons, h x List.mem_cons_self]
    exact ih (fun y hy => h y (List.mem_cons_of_mem x hy)) (step s x)

end

end EmbeddedDaq.GeneralFaultyMemory

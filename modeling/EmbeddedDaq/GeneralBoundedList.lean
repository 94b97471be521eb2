import Mathlib.Data.List.Induction
import Mathlib.Data.List.TakeDrop

set_option autoImplicit false

namespace EmbeddedDaq.GeneralBoundedList

theorem take_take_append {α : Type*} (n : ℕ) (xs ys : List α) :
    (xs.take n ++ ys).take n = (xs ++ ys).take n := by
  have hroom : n - min n xs.length = n - xs.length := by omega
  rw [List.take_append, List.take_append, List.take_take, Nat.min_self, List.length_take, hroom]

structure BoundedList (α : Type*) (cap : ℕ) where
  items : List α
  fits : items.length ≤ cap

namespace BoundedList

variable {α : Type*} {cap : ℕ}

def empty : BoundedList α cap := ⟨[], Nat.zero_le cap⟩

def push (b : BoundedList α cap) (x : α) : BoundedList α cap :=
  if h : b.items.length < cap then ⟨b.items ++ [x], by simpa [Nat.succ_le_iff] using h⟩ else b

def pushAll (b : BoundedList α cap) (xs : List α) : BoundedList α cap := xs.foldl push b

theorem push_of_room {b : BoundedList α cap} (h : b.items.length < cap) (x : α) :
    (b.push x).items = b.items ++ [x] := by
  rw [push, dif_pos h]

theorem push_of_full {b : BoundedList α cap} (h : ¬b.items.length < cap) (x : α) :
    b.push x = b := by
  rw [push, dif_neg h]

theorem items_push (b : BoundedList α cap) (x : α) :
    (b.push x).items = (b.items ++ [x]).take cap := by
  by_cases h : b.items.length < cap
  · have hlen : (b.items ++ [x]).length ≤ cap := by
      rw [List.length_append, List.length_singleton]
      exact h
    rw [push_of_room h, List.take_of_length_le hlen]
  · have hfull : b.items.length = cap := Nat.le_antisymm b.fits (Nat.not_lt.mp h)
    rw [push_of_full h, List.take_left' hfull]

theorem pushAll_concat (b : BoundedList α cap) (xs : List α) (x : α) :
    b.pushAll (xs ++ [x]) = (b.pushAll xs).push x := by
  simp [pushAll]

theorem items_pushAll (b : BoundedList α cap) (xs : List α) :
    (b.pushAll xs).items = (b.items ++ xs).take cap := by
  induction xs using List.reverseRecOn with
  | nil =>
    rw [List.append_nil, List.take_of_length_le b.fits]
    rfl
  | append_singleton xs x ih =>
    rw [pushAll_concat, items_push, ih, ← List.append_assoc]
    exact take_take_append _ _ _

theorem simulates_pushAll {S β : Type*} {step : S → β → S} {item : β → α}
    {R : S → BoundedList α cap → Prop}
    (h : ∀ s b x, R s b → R (step s x) (b.push (item x))) {s : S} {b : BoundedList α cap}
    (hs : R s b) (xs : List β) : R (xs.foldl step s) (b.pushAll (xs.map item)) := by
  induction xs generalizing s b with
  | nil => exact hs
  | cons x xs ih => exact ih (h s b x hs)

end BoundedList

end EmbeddedDaq.GeneralBoundedList

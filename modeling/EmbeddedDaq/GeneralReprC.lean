import Mathlib.Data.Nat.Notation
import Mathlib.Tactic.Common

set_option autoImplicit false

namespace EmbeddedDaq.GeneralReprC

variable {B : Type*}

structure Image (B : Type*) where
  align : ℕ
  cells : List (Option B)

def roundUp (n a : ℕ) : ℕ := (n + a - 1) / a * a

def alignTo (a : ℕ) (cells : List (Option B)) : List (Option B) :=
  cells ++ List.replicate (roundUp cells.length a - cells.length) none

def scalar (bytes : List B) : Image B := ⟨bytes.length, bytes.map some⟩

def maxAlign (fields : List (Image B)) : ℕ := fields.foldl (fun a f => max a f.align) 1

def array (elems : List (Image B)) : Image B := ⟨maxAlign elems, elems.flatMap Image.cells⟩

def place (cells : List (Option B)) (f : Image B) : List (Option B) :=
  alignTo f.align cells ++ f.cells

def record (fields : List (Image B)) : Image B :=
  ⟨maxAlign fields, alignTo (maxAlign fields) (fields.foldl place [])⟩

/-- What a raw view reads when the padding at offset `i` holds `pad i`. -/
def fill (pad : ℕ → B) (cells : List (Option B)) : List B :=
  cells.mapIdx fun i c => c.getD (pad i)

theorem foldl_max_const {a : ℕ} (fields : List (Image B)) (h : ∀ f ∈ fields, f.align = a) :
    fields.foldl (fun a f => max a f.align) a = a := by
  induction fields with
  | nil => rfl
  | cons f fields ih =>
    rw [List.foldl_cons, h f List.mem_cons_self, Nat.max_self]
    exact ih fun g hg => h g (List.mem_cons_of_mem f hg)

theorem array_align {a : ℕ} (ha : 0 < a) (elems : List (Image B)) (hne : elems ≠ [])
    (h : ∀ e ∈ elems, e.align = a) : (array elems).align = a := by
  cases elems with
  | nil => exact absurd rfl hne
  | cons e elems =>
    change (elems.foldl (fun a f => max a f.align) (max 1 e.align)) = a
    rw [h e List.mem_cons_self, Nat.max_eq_right ha]
    exact foldl_max_const elems fun f hf => h f (List.mem_cons_of_mem e hf)

theorem array_size {size : ℕ} (elems : List (Image B)) (h : ∀ e ∈ elems, e.cells.length = size) :
    (array elems).cells.length = elems.length * size := by
  induction elems with
  | nil => simp [array]
  | cons e elems ih =>
    have he := h e List.mem_cons_self
    have hs := ih fun x hx => h x (List.mem_cons_of_mem e hx)
    simp only [array, List.flatMap_cons, List.length_append, List.length_cons] at hs ⊢
    rw [he, hs, Nat.succ_mul, Nat.add_comm]

@[simp] theorem fill_length (pad : ℕ → B) (cells : List (Option B)) :
    (fill pad cells).length = cells.length := List.length_mapIdx

theorem fill_append (pad : ℕ → B) (xs ys : List (Option B)) :
    fill pad (xs ++ ys) = fill pad xs ++ fill (fun i => pad (xs.length + i)) ys := by
  simp only [fill, List.mapIdx_append, Nat.add_comm]

@[simp] theorem fill_some (pad : ℕ → B) (bytes : List B) : fill pad (bytes.map some) = bytes := by
  induction bytes generalizing pad with
  | nil => rfl
  | cons b bytes ih =>
    have h := ih fun i => pad (i + 1)
    simp only [fill, List.map_cons, List.mapIdx_cons, Option.getD_some] at h ⊢
    rw [h]

theorem fill_none (pad : ℕ → B) (n : ℕ) :
    fill pad (List.replicate n none) = (List.range n).map pad := by
  apply List.ext_getElem
  · simp
  · intro i h₁ h₂
    simp [fill]

end EmbeddedDaq.GeneralReprC

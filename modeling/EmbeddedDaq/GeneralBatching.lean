import Mathlib.Data.List.Flatten
import Mathlib.Data.List.Induction
import Mathlib.Tactic.Common

set_option autoImplicit false

namespace EmbeddedDaq.GeneralBatching

structure Batches (α : Type*) where
  flushed : List (List α)
  pending : List α

variable {α : Type*}

def start : Batches α := ⟨[], []⟩

def contents (s : Batches α) : List α := s.flushed.flatten ++ s.pending

def offer (N : ℕ) (s : Batches α) (group : List α) : Batches α :=
  if N ≤ (s.pending ++ group).length
  then ⟨s.flushed ++ [(s.pending ++ group).take N], []⟩
  else ⟨s.flushed, s.pending ++ group⟩

def offers (N : ℕ) (gs : List (List α)) : Batches α := gs.foldl (offer N) start

theorem offer_of_room {N : ℕ} {s : Batches α} {g : List α} (h : (s.pending ++ g).length < N) :
    offer N s g = ⟨s.flushed, s.pending ++ g⟩ := if_neg (Nat.not_le.mpr h)

theorem offer_of_full {N : ℕ} {s : Batches α} {g : List α} (h : N ≤ (s.pending ++ g).length) :
    offer N s g = ⟨s.flushed ++ [(s.pending ++ g).take N], []⟩ := if_pos h

theorem offers_concat (N : ℕ) (gs : List (List α)) (g : List α) :
    offers N (gs ++ [g]) = offer N (offers N gs) g := by
  simp [offers]

structure WellFormed (N : ℕ) (s : Batches α) : Prop where
  pending_lt : s.pending.length < N
  flushed_full : ∀ b ∈ s.flushed, b.length = N

theorem start_wellFormed {N : ℕ} (hN : 0 < N) : WellFormed N (start : Batches α) :=
  ⟨hN, by simp [start]⟩

theorem offer_wellFormed {N : ℕ} (hN : 0 < N) {s : Batches α} (h : WellFormed N s)
    (g : List α) : WellFormed N (offer N s g) := by
  unfold offer
  split
  · rename_i hfull
    refine ⟨hN, ?_⟩
    intro b hb
    rcases List.mem_append.mp hb with hb | hb
    · exact h.flushed_full b hb
    · rw [List.mem_singleton.mp hb, List.length_take, Nat.min_eq_left hfull]
  · rename_i hroom
    exact ⟨Nat.lt_of_not_le hroom, h.flushed_full⟩

theorem offers_wellFormed {N : ℕ} (hN : 0 < N) (gs : List (List α)) :
    WellFormed N (offers N gs) := by
  induction gs using List.reverseRecOn with
  | nil => exact start_wellFormed hN
  | append_singleton gs g ih =>
    rw [offers_concat]
    exact offer_wellFormed hN ih g

theorem flatten_length_of_full {N : ℕ} (bs : List (List α)) (h : ∀ b ∈ bs, b.length = N) :
    bs.flatten.length = N * bs.length := by
  induction bs with
  | nil => rfl
  | cons b bs ih =>
    have hb := h b List.mem_cons_self
    have hbs := ih fun c hc => h c (List.mem_cons_of_mem b hc)
    simp only [List.flatten_cons, List.length_append, hb, hbs, List.length_cons]
    rw [Nat.mul_succ, Nat.add_comm]

theorem pending_length {N : ℕ} {s : Batches α} (h : WellFormed N s) :
    s.pending.length = (contents s).length % N := by
  rw [contents, List.length_append, flatten_length_of_full _ h.flushed_full,
    Nat.mul_add_mod, Nat.mod_eq_of_lt h.pending_lt]

theorem contents_offer (N : ℕ) (s : Batches α) (g : List α) :
    contents (offer N s g) = s.flushed.flatten ++ (s.pending ++ g).take N := by
  unfold offer contents
  split
  · simp
  · rename_i hroom
    rw [List.take_of_length_le (Nat.le_of_lt (Nat.lt_of_not_le hroom))]

theorem contents_offer_fits {N : ℕ} {s : Batches α} {g : List α}
    (h : s.pending.length + g.length ≤ N) : contents (offer N s g) = contents s ++ g := by
  rw [contents_offer, List.take_of_length_le (by rwa [List.length_append]), contents,
    List.append_assoc]

theorem contents_offer_sublist (N : ℕ) (s : Batches α) (g : List α) :
    (contents (offer N s g)).Sublist (contents s ++ g) := by
  rw [contents_offer, contents, List.append_assoc]
  exact (List.Sublist.refl _).append (List.take_sublist _ _)

theorem contents_offers_sublist (N : ℕ) (gs : List (List α)) :
    (contents (offers N gs)).Sublist gs.flatten := by
  induction gs using List.reverseRecOn with
  | nil => exact List.Sublist.refl _
  | append_singleton gs g ih =>
    rw [offers_concat, List.flatten_append, List.flatten_singleton]
    exact (contents_offer_sublist N _ g).trans (ih.append (List.Sublist.refl _))

/-- No group exceeds the room left by the groups before it. -/
def Fits (N : ℕ) (gs : List (List α)) : Prop :=
  ∀ before g after, gs = before ++ g :: after → before.flatten.length % N + g.length ≤ N

theorem fits_nil (N : ℕ) : Fits N ([] : List (List α)) := by
  intro before g after h
  simp at h

theorem fits_append_left {N : ℕ} {xs ys : List (List α)} (h : Fits N (xs ++ ys)) :
    Fits N xs := by
  intro before g after hx
  exact h before g (after ++ ys) (by simp [hx])

theorem fits_concat {N : ℕ} {gs : List (List α)} {g : List α} :
    Fits N (gs ++ [g]) ↔ Fits N gs ∧ gs.flatten.length % N + g.length ≤ N := by
  constructor
  · intro h
    exact ⟨fits_append_left h, h gs g [] rfl⟩
  · rintro ⟨hgs, hg⟩ before b after heq
    rcases List.eq_nil_or_concat after with rfl | ⟨rest, c, rfl⟩
    · obtain ⟨rfl, hb⟩ := List.append_inj' heq rfl
      rw [← List.cons.inj hb |>.1]
      exact hg
    · have hsplit : gs ++ [g] = (before ++ b :: rest) ++ [c] := by simpa using heq
      exact hgs before b rest (List.append_inj' hsplit rfl).1

theorem fits_map {β : Type*} (f : α → β) (N : ℕ) (gs : List (List α)) :
    Fits N (gs.map (List.map f)) ↔ Fits N gs := by
  induction gs using List.reverseRecOn with
  | nil => exact ⟨fun _ => fits_nil N, fun _ => fits_nil N⟩
  | append_singleton gs g ih =>
    rw [List.map_append, List.map_singleton, fits_concat, fits_concat, ih, ← List.map_flatten,
      List.length_map, List.length_map]

/-- Nothing is lost exactly when every group fits. -/
theorem contents_offers_iff {N : ℕ} (hN : 0 < N) (gs : List (List α)) :
    contents (offers N gs) = gs.flatten ↔ Fits N gs := by
  induction gs using List.reverseRecOn with
  | nil => exact ⟨fun _ => fits_nil N, fun _ => rfl⟩
  | append_singleton gs g ih =>
    have hpend := pending_length (offers_wellFormed hN gs)
    rw [fits_concat, ← ih, offers_concat, List.flatten_append, List.flatten_singleton]
    constructor
    · intro h
      have hsub := contents_offers_sublist N gs
      have hlen := congrArg List.length h
      rw [contents_offer] at hlen
      simp only [List.length_append, List.length_take] at hlen
      have hold : (contents (offers N gs)).length =
          (offers N gs).flushed.flatten.length + (offers N gs).pending.length := by
        rw [contents, List.length_append]
      -- a sublist as long as the whole has lost nothing
      have hkept : contents (offers N gs) = gs.flatten :=
        hsub.eq_of_length (by have := hsub.length_le; omega)
      refine ⟨hkept, ?_⟩
      rw [← hkept, ← hpend]
      have := hsub.length_le
      omega
    · rintro ⟨hgs, hg⟩
      rw [← hgs, ← hpend] at hg
      rw [contents_offer_fits hg, hgs]

theorem pending_of_not_flushed {N : ℕ} (gs : List (List α)) (h : (offers N gs).flushed = []) :
    (offers N gs).pending = gs.flatten := by
  induction gs using List.reverseRecOn with
  | nil => rfl
  | append_singleton gs g ih =>
    rw [offers_concat, offer] at h ⊢
    split at h
    · simp at h
    · rename_i hroom
      rw [if_neg hroom, List.flatten_append, List.flatten_singleton, ← ih h]

theorem flushed_offers_eq_nil_iff {N : ℕ} (hN : 0 < N) (gs : List (List α)) :
    (offers N gs).flushed = [] ↔ gs.flatten.length < N := by
  constructor
  · intro h
    rw [← pending_of_not_flushed gs h]
    exact (offers_wellFormed hN gs).pending_lt
  · induction gs using List.reverseRecOn with
    | nil => exact fun _ => rfl
    | append_singleton gs g ih =>
      intro hlt
      rw [List.flatten_append, List.flatten_singleton, List.length_append] at hlt
      have hold := ih (by omega)
      have hroom : ¬N ≤ ((offers N gs).pending ++ g).length := by
        rw [pending_of_not_flushed gs hold, List.length_append]
        omega
      rw [offers_concat, offer, if_neg hroom]
      exact hold

end EmbeddedDaq.GeneralBatching

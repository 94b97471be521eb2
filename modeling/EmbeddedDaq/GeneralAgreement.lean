import EmbeddedDaq.GeneralRuns

set_option autoImplicit false

namespace EmbeddedDaq.GeneralAgreement
open GeneralRuns

section
variable {A B : Type*}

def Agrees (checked plain : Option A) : Prop :=
  ∃ a, plain = some a ∧ (checked = none ∨ checked = some a)

theorem Agrees.refl (a : A) : Agrees (some a) (some a) := ⟨a, rfl, .inr rfl⟩

theorem Agrees.stopped (a : A) : Agrees none (some a) := ⟨a, rfl, .inl rfl⟩

theorem Agrees.bind {x y : Option A} {f g : A → Option B} (h : Agrees x y)
    (hnext : ∀ a, Agrees (f a) (g a)) : Agrees (x.bind f) (y.bind g) := by
  obtain ⟨a, rfl, rfl | rfl⟩ := h
  · obtain ⟨b, hb, -⟩ := hnext a
    exact ⟨b, hb, .inl rfl⟩
  · exact hnext a

theorem Agrees.map {x y : Option A} (f : A → B) (h : Agrees x y) :
    Agrees (x.map f) (y.map f) := by
  obtain ⟨a, rfl, rfl | rfl⟩ := h
  · exact .stopped (f a)
  · exact .refl (f a)

theorem Agrees.ite {c : Prop} [Decidable c] {x y x' y' : Option A} (hthen : c → Agrees x y)
    (helse : ¬c → Agrees x' y') : Agrees (if c then x else x') (if c then y else y') := by
  by_cases hc : c
  · rw [if_pos hc, if_pos hc]
    exact hthen hc
  · rw [if_neg hc, if_neg hc]
    exact helse hc

variable {S I E : Type*}

theorem Agrees.foldlM {step step' : S → I → Option S} (h : ∀ s i, Agrees (step s i) (step' s i))
    (s : S) (is : List I) : Agrees (is.foldlM step s) (is.foldlM step' s) := by
  induction is generalizing s with
  | nil => exact .refl s
  | cons i is ih =>
    rw [List.foldlM_cons, List.foldlM_cons]
    exact Agrees.bind (h s i) ih

theorem Agrees.run {step step' : S → I → Option (S × List E)}
    (h : ∀ s i, Agrees (step s i) (step' s i)) (s : S) (is : List I) :
    Agrees (GeneralRuns.run step s is) (GeneralRuns.run step' s is) := by
  induction is generalizing s with
  | nil => exact .refl (s, [])
  | cons i is ih => exact Agrees.bind (h s i) fun r => Agrees.map _ (ih r.1)

end

end EmbeddedDaq.GeneralAgreement

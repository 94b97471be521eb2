import Mathlib.Tactic.Common

set_option autoImplicit false

namespace EmbeddedDaq.GeneralMapAccum

variable {S T A B C : Type*}

def mapAccum (call : S → A → Option (B × S)) : S → List A → Option (List B × S)
  | s, [] => some ([], s)
  | s, x :: xs =>
    (call s x).bind fun r => (mapAccum call r.2 xs).map fun q => (r.1 :: q.1, q.2)

variable {call : S → A → Option (B × S)} {other : T → C → Option (B × T)} {Inv : S → Prop}
  {f : S → T} {g : A → C}

theorem mapAccum_simulates
    (hstep : ∀ s x, Inv s → (call s x).map (Prod.map id f) = other (f s) (g x))
    (hkeep : ∀ s x r, Inv s → call s x = some r → Inv r.2) {s : S} (hs : Inv s) (xs : List A) :
    (mapAccum call s xs).map (Prod.map id f) = mapAccum other (f s) (xs.map g) := by
  induction xs generalizing s with
  | nil => rfl
  | cons x xs ih =>
    rw [List.map_cons, mapAccum, mapAccum, ← hstep s x hs]
    cases hcall : call s x with
    | none => rfl
    | some r =>
      have hrest := ih (hkeep s x r hs hcall)
      simp only [Option.bind_some, Option.map_some, Prod.map, id, ← hrest, Option.map_map]
      rfl

end EmbeddedDaq.GeneralMapAccum

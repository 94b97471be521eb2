import EmbeddedDaq.GeneralWaveform

set_option autoImplicit false

namespace EmbeddedDaq.GeneralPacedFrames
open GeneralWaveform Driver

variable {L A : Type*}

def skipTo (d : Driver L) (start : ℕ) : Driver L := { d with now := start }

def sendFrames (T : ℕ) (d : Driver L) (frames : List (ℕ × List L)) : Driver L :=
  frames.foldl (fun d f => holds T (skipTo d f.1) f.2) d

/-- The first start is not before `now`. -/
def Spaced (gap : ℕ) : ℕ → List (ℕ × A) → Prop
  | _, [] => True
  | now, f :: rest => now ≤ f.1 ∧ Spaced gap (f.1 + gap) rest

@[simp] theorem skipTo_now (d : Driver L) (start : ℕ) : (skipTo d start).now = start := rfl

@[simp] theorem skipTo_wave (d : Driver L) (start : ℕ) : (skipTo d start).wave = d.wave := rfl

@[simp] theorem sendFrames_cons (T : ℕ) (d : Driver L) (f : ℕ × List L)
    (frames : List (ℕ × List L)) :
    sendFrames T d (f :: frames) = sendFrames T (holds T (skipTo d f.1) f.2) frames := rfl

theorem Spaced.earlier {gap now now' : ℕ} {sent : List (ℕ × A)} (h : Spaced gap now sent)
    (hle : now' ≤ now) : Spaced gap now' sent := by
  cases sent with
  | nil => trivial
  | cons f rest => exact ⟨Nat.le_trans hle h.1, h.2⟩

theorem Spaced.map {B : Type*} {gap now : ℕ} {sent : List (ℕ × A)} (h : Spaced gap now sent)
    (f : A → B) : Spaced gap now (sent.map fun s => (s.1, f s.2)) := by
  induction sent generalizing now with
  | nil => trivial
  | cons s rest ih => exact ⟨h.1, ih h.2⟩

theorem sendFrames_before {T gap now t : ℕ} {d : Driver L} {frames : List (ℕ × List L)}
    (h : Spaced gap now frames) (ht : t < now) : (sendFrames T d frames).wave t = d.wave t := by
  induction frames generalizing d now with
  | nil => rfl
  | cons f frames ih =>
    have hstart : t < (skipTo d f.1).now := Nat.lt_of_lt_of_le ht h.1
    have hnext : t < f.1 + gap := Nat.lt_of_lt_of_le hstart (Nat.le_add_right _ _)
    rw [sendFrames_cons, ih h.2 hnext, holds_before hstart, skipTo_wave]

theorem sendFrames_slot {T gap now k t : ℕ} {d : Driver L} {f : ℕ × List L}
    {frames : List (ℕ × List L)} (h : Spaced gap now (f :: frames)) (hk : k < f.2.length)
    (hlower : f.1 + k * T ≤ t) (hupper : t < f.1 + (k + 1) * T) (hgap : t < f.1 + gap) :
    (sendFrames T d (f :: frames)).wave t = f.2[k] := by
  rw [sendFrames_cons, sendFrames_before h.2 hgap]
  exact holds_slot hk hlower hupper

theorem holds_last {T t : ℕ} (d : Driver L) (levels : List L) (level : L)
    (h : d.now + levels.length * T ≤ t) : (holds T d (levels ++ [level])).wave t = level := by
  rw [holds_append]
  exact hold_from (by rwa [holds_now]) level

end EmbeddedDaq.GeneralPacedFrames

import EmbeddedDaq.SharedFault
import EmbeddedDaq.FaultLfsr

set_option autoImplicit false

/-!
# What the fault injectors have in common

The injectors differ in how they spoil a value; arming, drawing and counting are
the same code in each. `none` is the panic of an overflowing count.
-/
namespace EmbeddedDaq.FaultInjectors
open FirmwareWords SharedFault FaultLfsr

structure Injector where
  config : FaultConfig
  lfsr : Lfsr
  armed : Bool
  count : U32
  deriving DecidableEq, Repr

namespace Injector

def configure (inj : Injector) (config : FaultConfig) : Injector := { inj with config := config }
def arm (inj : Injector) : Injector := { inj with armed := true, count := 0 }
def disarm (inj : Injector) : Injector := { inj with armed := false }
def resetStats (inj : Injector) : Injector := { inj with count := 0 }

def countUp (p : Profile) (inj : Injector) : Option Injector :=
  (addWord p inj.count 1).map fun count => { inj with count := count }

/-- An `inject_*` call; `fault` spoils the value, drawing from the generator as it needs. -/
def inject {w : ℕ} (p : Profile) (inj : Injector) (value : BitVec w)
    (fault : FaultConfig → Lfsr → BitVec w × Lfsr) : Option (BitVec w × Injector) :=
  if !inj.armed then some (value, inj)
  else
    let (hit, lfsr) := shouldInject inj.lfsr inj.config.probabilityPermille
    if !hit then some (value, { inj with lfsr := lfsr })
    else
      let (result, lfsr) := fault inj.config lfsr
      let inj := { inj with lfsr := lfsr }
      if result ≠ value then (inj.countUp p).map fun inj => (result, inj)
      else some (result, inj)

/-- The predicates on `&self` draw from a generator of their own, made for the call. -/
def freshDraw (inj : Injector) (faultType : FaultType) : Bool :=
  inj.armed && inj.config.faultType = faultType &&
    (shouldInject (Lfsr.new 0) inj.config.probabilityPermille).1

end Injector

def pickBit (config : FaultConfig) (l : Lfsr) : U8 × Lfsr :=
  if config.targetBit < 8 then (config.targetBit, l) else l.nextBit

def pickBitMod (width : U8) (config : FaultConfig) (l : Lfsr) : U8 × Lfsr :=
  if config.targetBit < width then (config.targetBit, l)
  else
    let (bit, l) := l.nextBit
    (bit % width, l)

theorem pickBitMod_lt (width : U8) (hwidth : 0 < width.toNat) (config : FaultConfig) (l : Lfsr) :
    (pickBitMod width config l).1.toNat < width.toNat := by
  unfold pickBitMod
  split
  · rename_i h
    exact h
  · rw [BitVec.toNat_umod]
    exact Nat.mod_lt _ hwidth

inductive Reachable {C : Type} (call : Injector → C → Option Injector) (new : Injector) :
    Injector → Prop
  | new : Reachable call new new
  | call {inj inj' : Injector} {c : C} (before : Reachable call new inj)
      (result : call inj c = some inj') : Reachable call new inj'

def differs {w : ℕ} (a b : BitVec w) : ℕ := if a ≠ b then 1 else 0

theorem differs_le {w : ℕ} (a b : BitVec w) : differs a b ≤ 1 := by
  unfold differs
  split <;> decide

theorem differs_self {w : ℕ} (a : BitVec w) : differs a a = 0 := if_neg (not_not.mpr rfl)

theorem differs_of_ne {w : ℕ} {a b : BitVec w} (h : a ≠ b) : differs a b = 1 := if_pos h

namespace Injector

/-- What an `inject_*` call returns and what it leaves of the generator, the count aside. -/
def spoil {w : ℕ} (inj : Injector) (value : BitVec w)
    (fault : FaultConfig → Lfsr → BitVec w × Lfsr) : BitVec w × Lfsr :=
  if !inj.armed then (value, inj.lfsr)
  else
    let (hit, lfsr) := shouldInject inj.lfsr inj.config.probabilityPermille
    if !hit then (value, lfsr) else fault inj.config lfsr

def after (inj : Injector) (lfsr : Lfsr) (n : ℕ) : Injector :=
  { inj with lfsr := lfsr, count := inj.count + BitVec.ofNat 32 n }

@[simp] theorem after_armed (inj : Injector) (lfsr : Lfsr) (n : ℕ) :
    (inj.after lfsr n).armed = inj.armed := rfl

@[simp] theorem after_config (inj : Injector) (lfsr : Lfsr) (n : ℕ) :
    (inj.after lfsr n).config = inj.config := rfl

@[simp] theorem after_lfsr (inj : Injector) (lfsr : Lfsr) (n : ℕ) :
    (inj.after lfsr n).lfsr = lfsr := rfl

theorem after_count (inj : Injector) (lfsr : Lfsr) (n : ℕ) :
    (inj.after lfsr n).count = inj.count + BitVec.ofNat 32 n := rfl

theorem after_zero (inj : Injector) : inj.after inj.lfsr 0 = inj := by
  unfold after
  simp

theorem after_after (inj : Injector) (l l' : Lfsr) (m n : ℕ) :
    (inj.after l m).after l' n = inj.after l' (m + n) := by
  unfold after
  rw [BitVec.add_assoc, ← BitVec.ofNat_add]

theorem after_count_toNat {inj : Injector} {n : ℕ} (h : inj.count.toNat + n < 2 ^ 32)
    (lfsr : Lfsr) : (inj.after lfsr n).count.toNat = inj.count.toNat + n := by
  rw [after_count, BitVec.toNat_add, BitVec.toNat_ofNat]
  omega

/-- Room in the count, or a build in which it wraps. -/
def Roomy (p : Profile) (inj : Injector) (n : ℕ) : Prop :=
  p = .release ∨ inj.count.toNat + n < 2 ^ 32

theorem Roomy.mono {p : Profile} {inj : Injector} {m n : ℕ} (h : inj.Roomy p n) (hle : m ≤ n) :
    inj.Roomy p m := h.imp id fun h => by omega

theorem Roomy.after {p : Profile} {inj : Injector} {m n : ℕ} (h : inj.Roomy p (m + n))
    (lfsr : Lfsr) : (inj.after lfsr m).Roomy p n := by
  refine h.imp id ?_
  intro hroom
  rw [after_count_toNat (by omega)]
  omega

theorem countUp_of_roomy {p : Profile} {inj : Injector} (h : inj.Roomy p 1) :
    inj.countUp p = some (inj.after inj.lfsr 1) := by
  unfold countUp
  rcases h with rfl | h
  · have hwrap : addWord .release inj.count 1 = some (inj.count + 1) := ite_self _
    rw [hwrap]
    rfl
  · rw [addWord_of_lt p inj.count 1 h]
    rfl

theorem countUp_eq_some {p : Profile} {inj inj' : Injector} (h : inj.countUp p = some inj') :
    inj' = inj.after inj.lfsr 1 := by
  unfold countUp at h
  obtain ⟨count, hcount, rfl⟩ := Option.map_eq_some_iff.mp h
  unfold addWord at hcount
  split at hcount
  · rw [← Option.some.inj hcount]
    rfl
  · cases p with
    | dev => cases hcount
    | release =>
      rw [← Option.some.inj hcount]
      rfl

section
variable {w : ℕ} {p : Profile} {inj inj' : Injector} {value result : BitVec w}
  {fault : FaultConfig → Lfsr → BitVec w × Lfsr}

theorem inject_eq : inj.inject p value fault =
    if (inj.spoil value fault).1 ≠ value then
      (countUp p (inj.after (inj.spoil value fault).2 0)).map
        fun inj' => ((inj.spoil value fault).1, inj')
    else some ((inj.spoil value fault).1, inj.after (inj.spoil value fault).2 0) := by
  unfold inject spoil
  cases harmed : inj.armed with
  | false => simp [after_zero]
  | true =>
    cases hhit : shouldInject inj.lfsr inj.config.probabilityPermille with
    | mk hit lfsr => cases hit <;> simp [after, harmed]

/-- Everything a call of `inject_*` that returns can do. -/
theorem inject_eq_some (h : inj.inject p value fault = some (result, inj')) :
    result = (inj.spoil value fault).1 ∧
      inj' = inj.after (inj.spoil value fault).2 (differs result value) := by
  rw [inject_eq] at h
  split at h
  · rename_i hne
    obtain ⟨counted, hcount, heq⟩ := Option.map_eq_some_iff.mp h
    obtain ⟨rfl, rfl⟩ := Prod.mk.inj heq
    rw [countUp_eq_some hcount, differs_of_ne hne]
    refine ⟨rfl, ?_⟩
    simp [after]
  · rename_i heq
    obtain ⟨rfl, rfl⟩ := Prod.mk.inj (Option.some.inj h)
    rw [not_not.mp heq, differs_self]
    exact ⟨rfl, rfl⟩

theorem inject_of_roomy (h : inj.Roomy p (differs (inj.spoil value fault).1 value)) :
    inj.inject p value fault =
      some ((inj.spoil value fault).1,
        inj.after (inj.spoil value fault).2 (differs (inj.spoil value fault).1 value)) := by
  rw [inject_eq]
  split
  · rename_i hne
    rw [differs_of_ne hne] at h ⊢
    rw [countUp_of_roomy (Roomy.after (m := 0) h _)]
    simp [after]
  · rename_i heq
    rw [not_not.mp heq, differs_self]

theorem roomy_of_countUp {lfsr : Lfsr} (h : countUp p (inj.after lfsr 0) = some inj') :
    inj.Roomy p 1 := by
  obtain ⟨count, hcount, -⟩ := Option.map_eq_some_iff.mp h
  have hsame : (inj.after lfsr 0).count = inj.count := BitVec.add_zero _
  have hfits := (addWord_eq_some_iff.mp hcount).1
  rw [hsame] at hfits
  cases p with
  | dev => exact .inr (hfits rfl)
  | release => exact .inl rfl

theorem inject_fst_eq_some_iff : (inj.inject p value fault).map Prod.fst = some result ↔
    result = (inj.spoil value fault).1 ∧ inj.Roomy p (differs result value) := by
  constructor
  · intro h
    obtain ⟨⟨r, inj'⟩, hcall, rfl⟩ := Option.map_eq_some_iff.mp h
    obtain ⟨hresult, -⟩ := inject_eq_some hcall
    refine ⟨hresult, ?_⟩
    by_cases hsame : r = value
    · have hcount := inj.count.isLt
      rw [hsame, differs_self]
      exact .inr hcount
    · rw [inject_eq, if_pos (hresult ▸ hsame)] at hcall
      obtain ⟨counted, hcount, -⟩ := Option.map_eq_some_iff.mp hcall
      rw [differs_of_ne hsame]
      exact roomy_of_countUp hcount
  · rintro ⟨rfl, hroom⟩
    rw [inject_of_roomy hroom]
    rfl

theorem spoil_disarmed (h : inj.armed = false) : inj.spoil value fault = (value, inj.lfsr) := by
  simp [spoil, h]

theorem spoil_never (h : inj.config.probabilityPermille = 0) :
    inj.spoil value fault = (value, inj.lfsr) := by
  simp [spoil, shouldInject, h]

theorem spoil_missed (harmed : inj.armed = true)
    (hmiss : (shouldInject inj.lfsr inj.config.probabilityPermille).1 = false) :
    inj.spoil value fault =
      (value, (shouldInject inj.lfsr inj.config.probabilityPermille).2) := by
  simp [spoil, harmed, hmiss]

theorem spoil_hit (harmed : inj.armed = true)
    (hhit : (shouldInject inj.lfsr inj.config.probabilityPermille).1 = true) :
    inj.spoil value fault =
      fault inj.config (shouldInject inj.lfsr inj.config.probabilityPermille).2 := by
  simp [spoil, harmed, hhit]

theorem spoil_sure (harmed : inj.armed = true)
    (hsure : 1000 ≤ inj.config.probabilityPermille.toNat) :
    inj.spoil value fault = fault inj.config inj.lfsr := by
  have hhit := shouldInject_always hsure inj.lfsr
  rw [spoil_hit harmed (by rw [hhit]), hhit]

theorem spoil_armed (harmed : inj.armed = true) : inj.spoil value fault =
    if (shouldInject inj.lfsr inj.config.probabilityPermille).1 then
      fault inj.config (shouldInject inj.lfsr inj.config.probabilityPermille).2
    else (value, (shouldInject inj.lfsr inj.config.probabilityPermille).2) := by
  split
  · rename_i hhit
    exact spoil_hit harmed hhit
  · rename_i hmiss
    exact spoil_missed harmed (Bool.eq_false_iff.mpr hmiss)

end

end Injector

end EmbeddedDaq.FaultInjectors

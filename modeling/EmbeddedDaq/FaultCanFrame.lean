import EmbeddedDaq.FaultEffects

set_option autoImplicit false

namespace EmbeddedDaq.FaultCanFrame
open FirmwareWords SharedFault FaultLfsr FaultInjectors FaultEvents FaultEffects GeneralRuns
open FaultCan (CanBus)

/-- Whether a fault in byte `i` flips a bit, and the generator it leaves. -/
def byteFlip (config : FaultConfig) (i : Fin 8) (l : Lfsr) : Bool × Lfsr :=
  match config.faultType with
  | .bitFlip => (true, (pickBit config l).2)
  | .crcCorrupt => if 4 ≤ i.val then (true, l.nextBit.2) else (false, l)
  | .frameCorrupt => (true, l.nextBit.2)
  | _ => (false, l)

def byteStrike (config : FaultConfig) (i : Fin 8) (l : Lfsr) : Bool × Lfsr :=
  if (shouldInject l config.probabilityPermille).1 then
    byteFlip config i (shouldInject l config.probabilityPermille).2
  else (false, (shouldInject l config.probabilityPermille).2)

def struckBytes (config : FaultConfig) : Lfsr → List (Fin 8) → List (Fin 8)
  | _, [] => []
  | l, i :: is =>
    if (byteStrike config i l).1 then i :: struckBytes config (byteStrike config i l).2 is
    else struckBytes config (byteStrike config i l).2 is

def afterId (config : FaultConfig) (l : Lfsr) : Lfsr :=
  if (shouldInject l config.probabilityPermille).1 then
    (pickBitMod 29 config (shouldInject l config.probabilityPermille).2).2
  else (shouldInject l config.probabilityPermille).2

def struckInFrame (config : FaultConfig) (l : Lfsr) : List (Fin 8) :=
  struckBytes config (afterId config l) (List.finRange 8)

theorem id_generator {inj : Injector} (harmed : inj.armed = true) (id : U32) :
    (inj.spoil id (FaultCan.idFault id)).2 = afterId inj.config inj.lfsr := by
  rw [Injector.spoil_armed harmed, afterId]
  split
  · rfl
  · rfl

theorem dataFault_generator (byte : U8) (i : Fin 8) (config : FaultConfig) (l : Lfsr) :
    (FaultCan.dataFault byte i config l).2 = (byteFlip config i l).2 := by
  unfold FaultCan.dataFault byteFlip
  cases config.faultType with
  | crcCorrupt => by_cases hi : 4 ≤ i.val <;> simp [hi]
  | _ => rfl

theorem byte_generator {inj : Injector} (harmed : inj.armed = true) (byte : U8) (i : Fin 8) :
    (inj.spoil byte (FaultCan.dataFault byte i)).2 = (byteStrike inj.config i inj.lfsr).2 := by
  rw [Injector.spoil_armed harmed, byteStrike]
  split
  · exact dataFault_generator byte i _ _
  · rfl

section
variable {config : FaultConfig} {l : Lfsr} {i j : Fin 8} {is : List (Fin 8)}

theorem mem_of_mem_struckBytes (h : j ∈ struckBytes config l is) : j ∈ is := by
  induction is generalizing l with
  | nil => exact h
  | cons i is ih =>
    rw [struckBytes] at h
    split at h
    · rcases List.mem_cons.mp h with rfl | h
      · exact List.mem_cons_self
      · exact List.mem_cons_of_mem i (ih h)
    · exact List.mem_cons_of_mem i (ih h)

theorem head_struck (hi : i ∉ is) :
    i ∈ struckBytes config l (i :: is) ↔ (byteStrike config i l).1 = true := by
  have hrest : ∀ l, i ∉ struckBytes config l is := fun l h => hi (mem_of_mem_struckBytes h)
  rw [struckBytes]
  split
  · rename_i hstruck
    simp [hstruck]
  · rename_i hspared
    simp [hspared, hrest]

theorem tail_struck (hj : j ≠ i) : j ∈ struckBytes config l (i :: is) ↔
    j ∈ struckBytes config (byteStrike config i l).2 is := by
  rw [struckBytes]
  split
  · simp [hj]
  · rfl

end

theorem can_bytes_visited {p : Profile} {is : List (Fin 8)} (hnodup : is.Nodup)
    {s u : Injector × CanBus} {es : List Event}
    (h : run (canItem p) s (is.map .byte) = some (u, es)) (harmed : s.1.armed = true) :
    u.2.dlc = s.2.dlc ∧ (∀ j ∉ is, u.2.data.get j = s.2.data.get j) ∧
      ∀ i ∈ is, ∃ l, (i ∈ struckBytes s.1.config s.1.lfsr is ↔
          (byteStrike s.1.config i l).1 = true) ∧
        u.2.data.get i = (Injector.spoil { s.1 with lfsr := l } (s.2.data.get i)
          (FaultCan.dataFault (s.2.data.get i) i)).1 := by
  induction is generalizing s es with
  | nil =>
    obtain ⟨rfl, rfl⟩ := Prod.mk.inj (Option.some.inj h)
    exact ⟨rfl, fun _ _ => rfl, fun i hi => absurd hi List.not_mem_nil⟩
  | cons i is ih =>
    obtain ⟨mid, fs, gs, hfirst, hrest, rfl⟩ := run_cons_eq_some.mp h
    obtain ⟨hi, hnodup⟩ := List.nodup_cons.mp hnodup
    obtain ⟨⟨result, inj⟩, hinject, heq⟩ := Option.map_eq_some_iff.mp hfirst
    obtain ⟨rfl, -⟩ := Prod.mk.inj heq
    obtain ⟨hresult, rfl⟩ := Injector.inject_eq_some hinject
    obtain ⟨hdlc, hothers, hvisited⟩ := ih hnodup hrest harmed
    refine ⟨hdlc, ?_, ?_⟩
    · intro j hj
      rw [List.mem_cons, not_or] at hj
      rw [hothers j hj.2, putByte_get, if_neg hj.1]
    · intro j hj
      by_cases hji : j = i
      · subst hji
        refine ⟨s.1.lfsr, head_struck hi, ?_⟩
        rw [hothers j hi, putByte_get, if_pos rfl, hresult]
      · obtain ⟨l, hstruck, hvalue⟩ := hvisited j ((List.mem_cons.mp hj).resolve_left hji)
        refine ⟨l, ?_, ?_⟩
        · rw [tail_struck hji, ← byte_generator harmed (s.2.data.get i)]
          exact hstruck
        · rw [hvalue, putByte_get, if_neg hji]
          rfl

section
variable {p : Profile} {inj inj' : Injector} {bus bus' : CanBus} {r : Except Unit FaultResult}

theorem can_fire_visited (harmed : inj.armed = true)
    (h : FaultCan.fire p inj bus = some (r, inj', bus')) :
    bus'.dlc = bus.dlc ∧ bus'.id = (inj.spoil bus.id (FaultCan.idFault bus.id)).1 ∧
      ∀ i : Fin 8, ∃ l, (i ∈ struckInFrame inj.config inj.lfsr ↔
          (byteStrike inj.config i l).1 = true) ∧
        bus'.data.get i = (Injector.spoil { inj with lfsr := l } (bus.data.get i)
          (FaultCan.dataFault (bus.data.get i) i)).1 := by
  obtain ⟨id, first, es, hid, rfl, hbytes⟩ := can_fire_bytes harmed h
  obtain ⟨hdlc, -, hvisited⟩ := can_bytes_visited (List.nodup_finRange 8) hbytes harmed
  have hsame := (can_bytes_increased (List.nodup_finRange 8) hbytes).1
  refine ⟨hdlc, hsame.trans hid, ?_⟩
  intro i
  obtain ⟨l, hstruck, hvalue⟩ := hvisited i (List.mem_finRange i)
  refine ⟨l, ?_, hvalue⟩
  rw [struckInFrame, ← id_generator harmed bus.id]
  exact hstruck

end

end EmbeddedDaq.FaultCanFrame

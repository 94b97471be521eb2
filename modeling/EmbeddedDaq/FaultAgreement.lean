import EmbeddedDaq.FaultSpi
import EmbeddedDaq.FaultI2c
import EmbeddedDaq.FaultUartInjector
import EmbeddedDaq.FaultCan
import EmbeddedDaq.FaultOneWire
import EmbeddedDaq.GeneralMapAccum

set_option autoImplicit false

namespace EmbeddedDaq.FaultAgreement
open FirmwareWords SharedFault FaultLfsr FaultInjectors GeneralMapAccum
open FaultUartInjector (UartInjector)

def Sticks (faultType : FaultType) : Prop :=
  faultType = .bitFlip ∨ faultType = .stuckAtZero ∨ faultType = .stuckAtOne

section
variable {byte : U8} {config : FaultConfig} {l : Lfsr}

theorem mosiFault_eq (h : Sticks config.faultType) :
    FaultSpi.mosiFault byte config l = FaultSpi.misoFault byte config l := by
  unfold FaultSpi.mosiFault FaultSpi.misoFault
  rcases h with h | h | h
  · rw [h]
  · rw [h]
  · rw [h]

theorem oneWire_dataFault_eq (h : Sticks config.faultType) (index : ℕ) :
    FaultOneWire.dataFault byte index config l = FaultSpi.misoFault byte config l := by
  unfold FaultOneWire.dataFault FaultSpi.misoFault
  rcases h with h | h | h
  · rw [h]
  · rw [h]
  · rw [h]

theorem txFault_eq (h : config.faultType = .bitFlip) :
    FaultUartInjector.txFault byte config l = FaultSpi.misoFault byte config l := by
  unfold FaultUartInjector.txFault FaultSpi.misoFault
  rw [h]

theorem can_dataFault_eq (h : config.faultType = .bitFlip) (index : ℕ) :
    FaultCan.dataFault byte index config l = FaultSpi.misoFault byte config l := by
  unfold FaultCan.dataFault FaultSpi.misoFault
  rw [h]

end

section
variable {p : Profile} {inj : Injector} {other : U8 → FaultConfig → Lfsr → U8 × Lfsr}

theorem inject_congr {byte : U8} {fault fault' : FaultConfig → Lfsr → U8 × Lfsr}
    (h : ∀ l, fault inj.config l = fault' inj.config l) :
    inj.inject p byte fault = inj.inject p byte fault' := by
  unfold Injector.inject
  simp only [h]

theorem inject_config {byte : U8} {fault : FaultConfig → Lfsr → U8 × Lfsr}
    {r : U8 × Injector} (h : inj.inject p byte fault = some r) : r.2.config = inj.config := by
  obtain ⟨result, inj'⟩ := r
  rw [(Injector.inject_eq_some h).2]
  rfl

theorem inject_agrees {A : Type} {byte : A → U8} {fault : A → FaultConfig → Lfsr → U8 × Lfsr}
    (h : ∀ x l, fault x inj.config l = other (byte x) inj.config l) (xs : List A) :
    mapAccum (fun inj x => Injector.inject p inj (byte x) (fault x)) inj xs =
      mapAccum (fun inj b => Injector.inject p inj b (other b)) inj (xs.map byte) := by
  have hstep : ∀ (s : Injector) (x : A), s.config = inj.config →
      (s.inject p (byte x) (fault x)).map (Prod.map id id) =
        (id s).inject p (byte x) (other (byte x)) := by
    intro s x hs
    rw [Prod.map_id, Option.map_id]
    apply inject_congr
    intro l
    rw [hs]
    exact h x l
  have hkeep : ∀ (s : Injector) (x : A) (r : U8 × Injector), s.config = inj.config →
      s.inject p (byte x) (fault x) = some r → r.2.config = inj.config :=
    fun s x r hs hcall => (inject_config hcall).trans hs
  have hsame : (mapAccum (fun inj x => Injector.inject p inj (byte x) (fault x)) inj xs).map
      (Prod.map id id) =
        mapAccum (fun inj b => Injector.inject p inj b (other b)) (id inj) (xs.map byte) :=
    mapAccum_simulates hstep hkeep rfl xs
  rwa [Prod.map_id, Option.map_id] at hsame

theorem uart_inject_agrees {fault : U8 → FaultConfig → Lfsr → U8 × Lfsr} (overrun : Bool)
    (h : ∀ b l, fault b inj.config l = other b inj.config l) (bytes : List U8) :
    (mapAccum (fun inj b => UartInjector.inject p inj b (fault b)) ⟨inj, overrun⟩ bytes).map
        (Prod.map id UartInjector.toInjector) =
      mapAccum (fun inj b => Injector.inject p inj b (other b)) inj bytes := by
  have hstep : ∀ (s : UartInjector) (b : U8), s.config = inj.config →
      (s.inject p b (fault b)).map (Prod.map id UartInjector.toInjector) =
        s.toInjector.inject p (id b) (other (id b)) := by
    intro s b hs
    rw [UartInjector.inject, Option.map_map]
    have hcore : s.toInjector.inject p b (fault b) = s.toInjector.inject p b (other b) := by
      apply inject_congr
      intro l
      rw [hs]
      exact h b l
    rw [hcore]
    exact congrFun Option.map_id _
  have hkeep : ∀ (s : UartInjector) (b : U8) (r : U8 × UartInjector), s.config = inj.config →
      s.inject p b (fault b) = some r → r.2.config = inj.config := by
    intro s b r hs hcall
    obtain ⟨core, hcore, rfl⟩ := Option.map_eq_some_iff.mp hcall
    exact (inject_config hcore).trans hs
  have hsame : (mapAccum (fun inj b => UartInjector.inject p inj b (fault b)) ⟨inj, overrun⟩
      bytes).map (Prod.map id UartInjector.toInjector) =
        mapAccum (fun inj b => Injector.inject p inj b (other b)) inj (bytes.map id) :=
    mapAccum_simulates hstep hkeep rfl bytes
  rwa [List.map_id] at hsame

end

/-- Fed the same bytes in the same state, they return the same bytes and end in the same state;
the indices of the last two lists are free. -/
theorem byte_injectors_agree (p : Profile) (inj : Injector) (overrun : Bool)
    (items : List (U8 × ℕ)) :
    (Sticks inj.config.faultType →
      mapAccum (FaultSpi.injectMiso p) inj (items.map Prod.fst) =
          mapAccum (FaultSpi.injectMosi p) inj (items.map Prod.fst) ∧
        mapAccum (FaultI2c.injectData p) inj (items.map Prod.fst) =
          mapAccum (FaultSpi.injectMosi p) inj (items.map Prod.fst) ∧
        (mapAccum (FaultUartInjector.injectRx p) ⟨inj, overrun⟩ (items.map Prod.fst)).map
            (Prod.map id UartInjector.toInjector) =
          mapAccum (FaultSpi.injectMosi p) inj (items.map Prod.fst) ∧
        mapAccum (fun inj x => FaultOneWire.injectData p inj x.1 x.2) inj items =
          mapAccum (FaultSpi.injectMosi p) inj (items.map Prod.fst)) ∧
    (inj.config.faultType = .bitFlip →
      (mapAccum (FaultUartInjector.injectTx p) ⟨inj, overrun⟩ (items.map Prod.fst)).map
            (Prod.map id UartInjector.toInjector) =
          mapAccum (FaultSpi.injectMosi p) inj (items.map Prod.fst) ∧
        mapAccum (fun inj x => FaultCan.injectData p inj x.1 x.2) inj items =
          mapAccum (FaultSpi.injectMosi p) inj (items.map Prod.fst)) := by
  -- MISO is the one that all are compared with: nothing but the three faults is in it.
  have hmosi : Sticks inj.config.faultType →
      mapAccum (FaultSpi.injectMosi p) inj (items.map Prod.fst) =
        mapAccum (FaultSpi.injectMiso p) inj (items.map Prod.fst) := by
    intro h
    have hsame : mapAccum (FaultSpi.injectMosi p) inj (items.map Prod.fst) =
        mapAccum (FaultSpi.injectMiso p) inj ((items.map Prod.fst).map id) :=
      inject_agrees (fun b l => mosiFault_eq h) _
    rwa [List.map_id] at hsame
  constructor
  · intro h
    rw [hmosi h]
    refine ⟨rfl, rfl, uart_inject_agrees overrun (fun _ _ => rfl) _, ?_⟩
    exact inject_agrees (fun x l => oneWire_dataFault_eq h x.2) items
  · intro h
    rw [hmosi (.inl h)]
    refine ⟨uart_inject_agrees overrun (fun _ _ => txFault_eq h) _, ?_⟩
    exact inject_agrees (fun x l => can_dataFault_eq h x.2) items

/-- Armed with a flip of a drawn bit that the gate lets through nine times in ten. -/
def gatedFlips : Injector :=
  (FaultSpi.new.configure
    { FaultConfig.new .spi .bitFlip with targetBit := 8, probabilityPermille := 900 }).arm

theorem byte_injectors_agree_flips :
    mapAccum (FaultSpi.injectMosi .dev) gatedFlips [0x41, 0x42, 0x43, 0x44] =
        some ([0x49, 0x42, 0x43, 0x4C], gatedFlips.after ⟨0xFAFB⟩ 2) ∧
      mapAccum (fun inj x => FaultCan.injectData .dev inj x.1 x.2) gatedFlips
          [(0x41, 0), (0x42, 7), (0x43, 2), (0x44, 0)] =
        mapAccum (FaultSpi.injectMosi .dev) gatedFlips [0x41, 0x42, 0x43, 0x44] ∧
      mapAccum (FaultSpi.injectMiso .dev) gatedFlips [0x41, 0x42, 0x43, 0x44] =
        mapAccum (FaultSpi.injectMosi .dev) gatedFlips [0x41, 0x42, 0x43, 0x44] := by
  obtain ⟨hsticks, hflips⟩ := byte_injectors_agree .dev gatedFlips false
    [(0x41, 0), (0x42, 7), (0x43, 2), (0x44, 0)]
  exact ⟨by decide, (hflips rfl).2, (hsticks (.inl rfl)).1⟩

end EmbeddedDaq.FaultAgreement

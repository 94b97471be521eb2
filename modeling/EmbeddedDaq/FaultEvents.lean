import EmbeddedDaq.FaultSpi
import EmbeddedDaq.FaultI2c
import EmbeddedDaq.FaultUartInjector
import EmbeddedDaq.FaultCan
import EmbeddedDaq.FaultOneWire
import EmbeddedDaq.GeneralRuns

set_option autoImplicit false

namespace EmbeddedDaq.FaultEvents
open FirmwareWords SharedFault FaultLfsr FaultInjectors GeneralRuns
open FaultUartInjector (UartInjector UartBus)
open FaultSpi (SpiBus levelByte)
open FaultCan (CanBus)

inductive Event where
  | restart -- `arm` or `reset_stats`
  | injection (changed : Bool)
  | overrun (returned : Bool)
  | nack -- an armed I2C `fire` under `NackInjection`
  deriving DecidableEq, Repr

def Event.restarts : Event → Bool
  | .restart => true
  | _ => false

def Event.isFault : Event → Bool
  | .restart => false
  | .injection changed => changed
  | .overrun returned => returned
  | .nack => true

def injected {w : ℕ} (result value : BitVec w) : List Event := [.injection (result ≠ value)]

def faults (es : List Event) : ℕ := es.countP Event.isFault

theorem faults_append (es fs : List Event) : faults (es ++ fs) = faults es + faults fs :=
  List.countP_append

theorem faults_injected {w : ℕ} (result value : BitVec w) :
    faults (injected result value) = differs result value := by
  unfold faults injected differs
  by_cases h : result = value <;> simp [Event.isFault, h]

section
variable {S B I : Type*}

def observedFire (armed : Bool) (item : Profile → S × B → I → Option ((S × B) × List Event))
    (items : List I) (p : Profile) (inj : S) (bus : B) : Option ((S × B) × List Event) :=
  if !armed then some ((inj, bus), []) else run (item p) (inj, bus) items

/-- What `fire` returns: nothing but the armed flag decides the result. -/
def outcome (armed : Bool) (r : (S × B) × List Event) : Except Unit FaultResult × S × B :=
  (if armed then .ok .fired else .error (), r.1.1, r.1.2)

/-- An item goes into the count with the faults it shows, one at most, and needs no more room. -/
structure Tallied (core : S → Injector) (item : Profile → S → I → Option (S × List Event)) :
    Prop where
  counted : ∀ p s i u es, item p s i = some (u, es) →
    faults es ≤ 1 ∧ ∃ l, core u = (core s).after l (faults es)
  returns : ∀ p s i, (core s).Roomy p 1 → ∃ u es, item p s i = some (u, es)

variable {core : S → Injector} {item : Profile → S → I → Option (S × List Event)}

theorem Tallied.run_counted (h : Tallied core item) {p : Profile} {s u : S} {is : List I}
    {es : List Event} (hrun : run (item p) s is = some (u, es)) :
    ∃ l, core u = (core s).after l (faults es) := by
  induction is generalizing s es with
  | nil =>
    obtain ⟨rfl, rfl⟩ := Prod.mk.inj (Option.some.inj hrun)
    exact ⟨(core s).lfsr, (Injector.after_zero _).symm⟩
  | cons i is ih =>
    obtain ⟨mid, fs, gs, hfirst, hrest, rfl⟩ := run_cons_eq_some.mp hrun
    obtain ⟨-, l, hmid⟩ := h.counted p s i mid fs hfirst
    obtain ⟨l', hlast⟩ := ih hrest
    exact ⟨l', by rw [hlast, hmid, Injector.after_after, faults_append]⟩

theorem Tallied.run_returns (h : Tallied core item) {p : Profile} (s : S) (is : List I)
    (hroom : (core s).Roomy p is.length) : ∃ u es, run (item p) s is = some (u, es) := by
  induction is generalizing s with
  | nil => exact ⟨s, [], rfl⟩
  | cons i is ih =>
    rw [List.length_cons] at hroom
    obtain ⟨mid, es, hfirst⟩ := h.returns p s i (hroom.mono (by omega))
    obtain ⟨hone, l, hmid⟩ := h.counted p s i mid es hfirst
    have hrest : (core mid).Roomy p is.length := by
      rw [hmid]
      exact Injector.Roomy.after (hroom.mono (by omega)) l
    obtain ⟨u, fs, hrun⟩ := ih mid hrest
    exact ⟨u, es ++ fs, run_cons_eq_some.mpr ⟨mid, es, fs, hfirst, hrun, rfl⟩⟩

theorem Tallied.run_sure (h : Tallied core item) (Sure : Injector → Prop)
    (hkeep : ∀ inj l n, Sure inj → Sure (inj.after l n))
    (hsure : ∀ p s i u es, Sure (core s) → item p s i = some (u, es) → faults es = 1)
    {p : Profile} {s u : S} {is : List I} {es : List Event} (hs : Sure (core s))
    (hrun : run (item p) s is = some (u, es)) : faults es = is.length := by
  induction is generalizing s es with
  | nil =>
    obtain ⟨rfl, rfl⟩ := Prod.mk.inj (Option.some.inj hrun)
    rfl
  | cons i is ih =>
    obtain ⟨mid, fs, gs, hfirst, hrest, rfl⟩ := run_cons_eq_some.mp hrun
    obtain ⟨-, l, hmid⟩ := h.counted p s i mid fs hfirst
    have hmidSure : Sure (core mid) := hmid ▸ hkeep _ _ _ hs
    rw [faults_append, hsure p s i mid fs hs hfirst, ih hmidSure hrest, List.length_cons,
      Nat.add_comm]

end

theorem inject_counted {w : ℕ} {p : Profile} {inj inj' : Injector} {value result : BitVec w}
    {fault : FaultConfig → Lfsr → BitVec w × Lfsr}
    (h : inj.inject p value fault = some (result, inj')) :
    faults (injected result value) ≤ 1 ∧
      ∃ l, inj' = inj.after l (faults (injected result value)) := by
  rw [faults_injected]
  exact ⟨differs_le result value, _, (Injector.inject_eq_some h).2⟩

theorem inject_returns {w : ℕ} {p : Profile} {inj : Injector} (h : inj.Roomy p 1)
    (value : BitVec w) (fault : FaultConfig → Lfsr → BitVec w × Lfsr) :
    ∃ r, inj.inject p value fault = some r :=
  ⟨_, Injector.inject_of_roomy (h.mono (differs_le _ _))⟩

inductive SpiItem where
  | mosi
  | miso
  deriving DecidableEq, Repr

def spiItems : List SpiItem := [.mosi, .miso]

def spiItem (p : Profile) (s : Injector × SpiBus) :
    SpiItem → Option ((Injector × SpiBus) × List Event)
  | .mosi => (FaultSpi.injectMosi p s.1 (levelByte s.2.mosi)).map fun r =>
    ((r.2, s.2), injected r.1 (levelByte s.2.mosi))
  | .miso => (FaultSpi.injectMiso p s.1 (levelByte s.2.miso)).map fun r =>
    ((r.2, s.2), injected r.1 (levelByte s.2.miso))

theorem spi_fire_eq (p : Profile) (inj : Injector) (bus : SpiBus) :
    FaultSpi.fire p inj bus =
      (observedFire inj.armed spiItem spiItems p inj bus).map (outcome inj.armed) := by
  unfold FaultSpi.fire observedFire
  cases inj.armed with
  | false => rfl
  | true =>
    simp only [spiItems, run, spiItem, Bool.not_true, Bool.false_eq_true, ↓reduceIte]
    cases FaultSpi.injectMosi p inj (levelByte bus.mosi) with
    | none => rfl
    | some r =>
      simp only [Option.map_some, Option.bind_some, Option.bind_eq_bind]
      cases FaultSpi.injectMiso p r.2 (levelByte bus.miso) <;> rfl

theorem spiItem_tallied : Tallied Prod.fst spiItem := by
  constructor
  · intro p s i u es h
    cases i with
    | mosi =>
      obtain ⟨⟨result, inj⟩, hinject, heq⟩ := Option.map_eq_some_iff.mp h
      obtain ⟨rfl, rfl⟩ := Prod.mk.inj heq
      exact inject_counted hinject
    | miso =>
      obtain ⟨⟨result, inj⟩, hinject, heq⟩ := Option.map_eq_some_iff.mp h
      obtain ⟨rfl, rfl⟩ := Prod.mk.inj heq
      exact inject_counted hinject
  · intro p s i hroom
    cases i with
    | mosi =>
      obtain ⟨r, hr⟩ := inject_returns hroom (levelByte s.2.mosi) (FaultSpi.mosiFault _)
      exact ⟨_, _, Option.map_eq_some_iff.mpr ⟨r, hr, rfl⟩⟩
    | miso =>
      obtain ⟨r, hr⟩ := inject_returns hroom (levelByte s.2.miso) (FaultSpi.misoFault _)
      exact ⟨_, _, Option.map_eq_some_iff.mpr ⟨r, hr, rfl⟩⟩

inductive UartItem where
  | tx
  | overrun
  deriving DecidableEq, Repr

def uartItems : List UartItem := [.tx, .overrun]

def uartItem (p : Profile) (s : UartInjector × UartBus) :
    UartItem → Option ((UartInjector × UartBus) × List Event)
  | .tx => (FaultUartInjector.injectTx p s.1 s.2.tx).map fun r =>
    ((r.2, { s.2 with tx := r.1 }), injected r.1 s.2.tx)
  | .overrun =>
    if s.1.config.faultType = .overrun then
      (FaultUartInjector.injectOverrun p s.1).map fun r => ((r.2, s.2), [.overrun r.1])
    else some (s, [])

theorem uart_fire_eq (p : Profile) (inj : UartInjector) (bus : UartBus) :
    FaultUartInjector.fire p inj bus =
      (observedFire inj.armed uartItem uartItems p inj bus).map (outcome inj.armed) := by
  unfold FaultUartInjector.fire observedFire
  cases inj.armed with
  | false => rfl
  | true =>
    simp only [uartItems, run, uartItem, Bool.not_true, Bool.false_eq_true, ↓reduceIte]
    cases FaultUartInjector.injectTx p inj bus.tx with
    | none => rfl
    | some r =>
      simp only [Option.map_some, Option.bind_some, Option.bind_eq_bind]
      by_cases hoverrun : r.2.config.faultType = .overrun
      · simp only [hoverrun, ↓reduceIte]
        cases FaultUartInjector.injectOverrun p r.2 <;> rfl
      · simp only [hoverrun, ↓reduceIte]
        rfl

inductive CanItem where
  | id
  | byte (i : Fin 8)
  deriving DecidableEq, Repr

def canItems : List CanItem := .id :: (List.finRange 8).map .byte

def canItem (p : Profile) (s : Injector × CanBus) :
    CanItem → Option ((Injector × CanBus) × List Event)
  | .id => (FaultCan.injectId p s.1 s.2.id).map fun r =>
    ((r.2, { s.2 with id := r.1 }), injected r.1 s.2.id)
  | .byte i => (FaultCan.injectData p s.1 (s.2.data.get i) i).map fun r =>
    ((r.2, s.2.putByte i r.1), injected r.1 (s.2.data.get i))

theorem canItem_tallied : Tallied Prod.fst canItem := by
  constructor
  · intro p s i u es h
    cases i with
    | id =>
      obtain ⟨⟨result, inj⟩, hinject, heq⟩ := Option.map_eq_some_iff.mp h
      obtain ⟨rfl, rfl⟩ := Prod.mk.inj heq
      exact inject_counted hinject
    | byte i =>
      obtain ⟨⟨result, inj⟩, hinject, heq⟩ := Option.map_eq_some_iff.mp h
      obtain ⟨rfl, rfl⟩ := Prod.mk.inj heq
      exact inject_counted hinject
  · intro p s i hroom
    cases i with
    | id =>
      obtain ⟨r, hr⟩ := inject_returns hroom s.2.id (FaultCan.idFault _)
      exact ⟨_, _, Option.map_eq_some_iff.mpr ⟨r, hr, rfl⟩⟩
    | byte i =>
      obtain ⟨r, hr⟩ := inject_returns hroom (s.2.data.get i) (FaultCan.dataFault _ i)
      exact ⟨_, _, Option.map_eq_some_iff.mpr ⟨r, hr, rfl⟩⟩

theorem can_bytes_eq (p : Profile) (is : List (Fin 8)) (inj : Injector) (bus : CanBus) :
    (is.foldlM (FaultCan.fireByte p) (bus.data, inj)).map
        (fun r => (r.2, { bus with data := r.1 })) =
      (run (canItem p) (inj, bus) (is.map .byte)).map Prod.fst := by
  induction is generalizing inj bus with
  | nil => rfl
  | cons i is ih =>
    rw [List.foldlM_cons, List.map_cons]
    simp only [run, canItem, FaultCan.fireByte]
    cases FaultCan.injectData p inj (bus.data.get i) i with
    | none => rfl
    | some r =>
      have hrest := ih r.2 (bus.putByte i r.1)
      simp only [Option.map_some, Option.bind_some, Option.bind_eq_bind, Option.map_map]
      exact hrest

theorem can_fire_eq (p : Profile) (inj : Injector) (bus : CanBus) :
    FaultCan.fire p inj bus =
      (observedFire inj.armed canItem canItems p inj bus).map (outcome inj.armed) := by
  unfold FaultCan.fire observedFire
  cases inj.armed with
  | false => rfl
  | true =>
    simp only [canItems, run, canItem, Bool.not_true, Bool.false_eq_true, ↓reduceIte]
    cases FaultCan.injectId p inj bus.id with
    | none => rfl
    | some r =>
      have hbytes := can_bytes_eq p (List.finRange 8) r.2 { bus with id := r.1 }
      simp only [Option.map_some, Option.bind_some, Option.bind_eq_bind] at hbytes ⊢
      cases hrun : run (canItem p) (r.2, { bus with id := r.1 })
          ((List.finRange 8).map CanItem.byte) with
      | none =>
        rw [hrun, Option.map_none, Option.map_eq_none_iff] at hbytes
        rw [hbytes]
        rfl
      | some q =>
        rw [hrun, Option.map_some] at hbytes
        obtain ⟨s, hs, heq⟩ := Option.map_eq_some_iff.mp hbytes
        rw [hs]
        simp [outcome, ← heq]

end EmbeddedDaq.FaultEvents

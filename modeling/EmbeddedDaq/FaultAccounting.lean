import EmbeddedDaq.FaultEvents
import EmbeddedDaq.GeneralTally

set_option autoImplicit false

namespace EmbeddedDaq.FaultAccounting
open FirmwareWords SharedFault FaultLfsr FaultInjectors FaultEvents GeneralRuns GeneralTally
open FaultUartInjector (UartInjector UartBus)
open FaultCan (CanBus)

def faultsSinceRestart (es : List Event) : ℕ := since Event.restarts Event.isFault es

def Accounts {S I : Type} (count : S → U32)
    (observed : Profile → S → I → Option (S × List Event)) : Prop :=
  ∀ p, Accounted Event.restarts Event.isFault (2 ^ 32) (fun s => (count s).toNat)
    (observed .release) (observed p)

/-- One call, begun with `n` counted, counts the fault events it shows. -/
def Exact {S : Type} (count : S → U32) (n : ℕ) (call : Profile → Option (S × List Event)) : Prop :=
  ∃ u es, call .release = some (u, es) ∧ (n + faults es < 2 ^ 32 →
    (∀ p, call p = some (u, es)) ∧ (count u).toNat = tally Event.restarts Event.isFault n es)

section
variable {S T I : Type} {count : S → U32} {observed : Profile → S → I → Option (S × List Event)}

theorem accounts_of_exact (h : ∀ s i, Exact count (count s).toNat fun p => observed p s i) :
    Accounts count observed := by
  intro p
  constructor
  · intro s i
    obtain ⟨u, es, hrelease, -⟩ := h s i
    exact ⟨u, es, hrelease⟩
  · intro s i u es hrelease hlimit
    obtain ⟨v, fs, hv, hexact⟩ := h s i
    obtain ⟨rfl, rfl⟩ := Prod.mk.inj (Option.some.inj (hrelease.symm.trans hv))
    obtain ⟨hall, hcount⟩ := hexact hlimit
    exact ⟨hall p, hcount⟩

theorem Accounts.exact_run (h : Accounts count observed) (s : S) (is : List I) :
    Exact count (count s).toNat fun p => run (observed p) s is := by
  obtain ⟨u, es, hrelease⟩ := (h .release).run.returns s is
  refine ⟨u, es, hrelease, ?_⟩
  intro hlimit
  exact ⟨fun p => ((h p).run.exact s is u es hrelease hlimit).1,
    ((h .release).run.exact s is u es hrelease hlimit).2⟩

theorem Exact.map {n : ℕ} {call : Profile → Option (S × List Event)} (h : Exact count n call)
    {count' : T → U32} (put : S → T) (hput : ∀ u, count' (put u) = count u) :
    Exact count' n fun p => (call p).map fun r => (put r.1, r.2) := by
  obtain ⟨u, es, hrelease, hexact⟩ := h
  refine ⟨put u, es, by simp only [hrelease, Option.map_some], ?_⟩
  intro hlimit
  obtain ⟨hall, hcount⟩ := hexact hlimit
  exact ⟨fun p => by simp only [hall p, Option.map_some], by rw [hput, hcount]⟩

theorem Exact.quiet {n : ℕ} {u : S} (h : (count u).toNat = n) :
    Exact count n fun _ => some (u, []) :=
  ⟨u, [], rfl, fun _ => ⟨fun _ => rfl, h⟩⟩

theorem Exact.restart {u : S} (h : count u = 0) (n : ℕ) :
    Exact count n fun _ => some (u, [.restart]) := by
  refine ⟨u, [.restart], rfl, fun _ => ⟨fun _ => rfl, ?_⟩⟩
  rw [h]
  rfl

theorem tally_injected {w : ℕ} (n : ℕ) (result value : BitVec w) :
    tally Event.restarts Event.isFault n (injected result value) = n + differs result value := by
  unfold injected differs tally tally
  by_cases h : result = value <;> simp [Event.isFault, Event.restarts, h]

theorem Exact.injection {w n : ℕ} {inj : Injector} (hn : inj.count.toNat = n) (value : BitVec w)
    (fault : FaultConfig → Lfsr → BitVec w × Lfsr) (put : BitVec w × Injector → S)
    (hput : ∀ r, count (put r) = r.2.count) :
    Exact count n fun p => (inj.inject p value fault).map fun r => (put r, injected r.1 value) := by
  subst hn
  have hreturn : ∀ p, inj.Roomy p (differs (inj.spoil value fault).1 value) → _ :=
    fun p hroomy => congrArg (Option.map fun r => (put r, injected r.1 value))
      (Injector.inject_of_roomy hroomy)
  refine ⟨_, _, hreturn .release (.inl rfl), ?_⟩
  intro hlimit
  rw [faults_injected] at hlimit
  refine ⟨fun p => hreturn p (.inr hlimit), ?_⟩
  rw [hput, Injector.after_count_toNat hlimit, tally_injected]

theorem Exact.counted {n : ℕ} {inj : Injector} (hn : inj.count.toNat = n) {e : Event}
    (hrestart : e.restarts = false) (hfault : e.isFault = true) (put : Injector → S)
    (hput : ∀ inj, count (put inj) = inj.count) :
    Exact count n fun p => (inj.countUp p).map fun inj => (put inj, [e]) := by
  subst hn
  have hreturn : ∀ p, inj.Roomy p 1 → _ :=
    fun p hroomy => congrArg (Option.map fun inj => (put inj, [e]))
      (Injector.countUp_of_roomy hroomy)
  have hone : faults [e] = 1 := by simp [faults, hfault]
  refine ⟨_, _, hreturn .release (.inl rfl), ?_⟩
  intro hlimit
  rw [hone] at hlimit
  refine ⟨fun p => hreturn p (.inr hlimit), ?_⟩
  rw [hput, Injector.after_count_toNat hlimit]
  simp [tally, hrestart, hfault]

theorem Exact.fire {B : Type} {item : Profile → S × B → I → Option ((S × B) × List Event)}
    (h : Accounts (fun s : S × B => count s.1) item) (armed : Bool) (items : List I) (inj : S)
    (bus : B) : Exact count (count inj).toNat fun p =>
      (observedFire armed item items p inj bus).map fun r => (r.1.1, r.2) := by
  unfold observedFire
  cases armed with
  | false => exact Exact.quiet rfl
  | true => exact (h.exact_run (inj, bus) items).map Prod.fst fun _ => rfl

end

def spiObserved (p : Profile) (inj : Injector) : FaultSpi.Call → Option (Injector × List Event)
  | .configure config => some (inj.configure config, [])
  | .arm => some (inj.arm, [.restart])
  | .disarm => some (inj.disarm, [])
  | .resetStats => some (inj.resetStats, [.restart])
  | .fire bus => (observedFire inj.armed spiItem spiItems p inj bus).map fun r => (r.1.1, r.2)
  | .injectMosi byte => (FaultSpi.injectMosi p inj byte).map fun r => (r.2, injected r.1 byte)
  | .injectMiso byte => (FaultSpi.injectMiso p inj byte).map fun r => (r.2, injected r.1 byte)

theorem spiObserved_call (p : Profile) (inj : Injector) (c : FaultSpi.Call) :
    (spiObserved p inj c).map Prod.fst = FaultSpi.call p inj c := by
  cases c with
  | fire bus =>
    simp only [spiObserved, FaultSpi.call, spi_fire_eq, Option.map_map]
    rfl
  | injectMosi byte => exact Option.map_map _ _ _
  | injectMiso byte => exact Option.map_map _ _ _
  | _ => rfl

theorem spiItem_accounts : Accounts (fun s => s.1.count) spiItem := by
  apply accounts_of_exact
  intro s i
  cases i with
  | mosi => exact Exact.injection rfl _ _ (fun r => (r.2, s.2)) fun _ => rfl
  | miso => exact Exact.injection rfl _ _ (fun r => (r.2, s.2)) fun _ => rfl

theorem spi_accounts : Accounts Injector.count spiObserved := by
  apply accounts_of_exact
  intro inj c
  cases c with
  | configure config => exact Exact.quiet rfl
  | arm => exact Exact.restart (u := inj.arm) rfl _
  | disarm => exact Exact.quiet rfl
  | resetStats => exact Exact.restart (u := inj.resetStats) rfl _
  | fire bus => exact Exact.fire spiItem_accounts _ _ _ _
  | injectMosi byte => exact Exact.injection rfl _ _ Prod.snd fun _ => rfl
  | injectMiso byte => exact Exact.injection rfl _ _ Prod.snd fun _ => rfl

def i2cObserved (p : Profile) (inj : Injector) : FaultI2c.Call → Option (Injector × List Event)
  | .configure config => some (inj.configure config, [])
  | .arm => some (inj.arm, [.restart])
  | .disarm => some (inj.disarm, [])
  | .resetStats => some (inj.resetStats, [.restart])
  | .fire => (FaultI2c.fire p inj).map fun r =>
    (r.2, if inj.armed ∧ inj.config.faultType = .nackInjection then [.nack] else [])
  | .injectAddress addr => (FaultI2c.injectAddress p inj addr).map fun r =>
    (r.2, injected r.1 addr)
  | .injectData byte => (FaultI2c.injectData p inj byte).map fun r => (r.2, injected r.1 byte)
  | .injectBusLockup => some (inj, [])

theorem i2cObserved_call (p : Profile) (inj : Injector) (c : FaultI2c.Call) :
    (i2cObserved p inj c).map Prod.fst = FaultI2c.call p inj c := by
  cases c with
  | fire => exact Option.map_map _ _ _
  | injectAddress addr => exact Option.map_map _ _ _
  | injectData byte => exact Option.map_map _ _ _
  | _ => rfl

theorem i2c_fire_exact (inj : Injector) :
    Exact Injector.count inj.count.toNat fun p => i2cObserved p inj .fire := by
  unfold i2cObserved
  cases harmed : inj.armed with
  | false =>
    simp only [FaultI2c.fire_disarmed harmed, Option.map_some, Bool.false_eq_true, false_and,
      ↓reduceIte]
    exact Exact.quiet rfl
  | true =>
    by_cases hnack : inj.config.faultType = .nackInjection
    · simp only [FaultI2c.fire_nack harmed hnack, hnack, ↓reduceIte, Option.map_map, and_self]
      exact Exact.counted rfl rfl rfl id fun _ => rfl
    · simp only [FaultI2c.fire_other harmed hnack, hnack, ↓reduceIte, Option.map_some, and_false]
      exact Exact.quiet rfl

theorem i2c_accounts : Accounts Injector.count i2cObserved := by
  apply accounts_of_exact
  intro inj c
  cases c with
  | configure config => exact Exact.quiet rfl
  | arm => exact Exact.restart (u := inj.arm) rfl _
  | disarm => exact Exact.quiet rfl
  | resetStats => exact Exact.restart (u := inj.resetStats) rfl _
  | fire => exact i2c_fire_exact inj
  | injectAddress addr => exact Exact.injection rfl _ _ Prod.snd fun _ => rfl
  | injectData byte => exact Exact.injection rfl _ _ Prod.snd fun _ => rfl
  | injectBusLockup => exact Exact.quiet rfl

def uartObserved (p : Profile) (inj : UartInjector) :
    FaultUartInjector.Call → Option (UartInjector × List Event)
  | .configure config => some (inj.configure config, [])
  | .arm => some (inj.arm, [.restart])
  | .disarm => some (inj.disarm, [])
  | .resetStats => some (inj.resetStats, [.restart])
  | .clearOverrun => some (inj.clearOverrun, [])
  | .fire bus => (observedFire inj.armed uartItem uartItems p inj bus).map fun r => (r.1.1, r.2)
  | .injectTx byte => (FaultUartInjector.injectTx p inj byte).map fun r =>
    (r.2, injected r.1 byte)
  | .injectRx byte => (FaultUartInjector.injectRx p inj byte).map fun r =>
    (r.2, injected r.1 byte)
  | .injectOverrun => (FaultUartInjector.injectOverrun p inj).map fun r => (r.2, [.overrun r.1])

theorem uartObserved_call (p : Profile) (inj : UartInjector) (c : FaultUartInjector.Call) :
    (uartObserved p inj c).map Prod.fst = FaultUartInjector.call p inj c := by
  cases c with
  | fire bus =>
    simp only [uartObserved, FaultUartInjector.call, uart_fire_eq, Option.map_map]
    rfl
  | injectTx byte => exact Option.map_map _ _ _
  | injectRx byte => exact Option.map_map _ _ _
  | injectOverrun => exact Option.map_map _ _ _
  | _ => rfl

section
variable {S : Type} {count : S → U32}

theorem Exact.uartInjection (inj : UartInjector) (byte : U8)
    (fault : FaultConfig → Lfsr → U8 × Lfsr) (put : U8 × UartInjector → S)
    (hput : ∀ r, count (put r) = r.2.count) :
    Exact count inj.count.toNat fun p =>
      (inj.inject p byte fault).map fun r => (put r, injected r.1 byte) := by
  unfold UartInjector.inject
  simp only [Option.map_map]
  exact Exact.injection rfl byte fault (fun r => put (r.1, { inj with toInjector := r.2 }))
    fun _ => hput _

theorem Exact.uartOverrun (inj : UartInjector) (put : Bool × UartInjector → S)
    (hput : ∀ r, count (put r) = r.2.count) :
    Exact count inj.count.toNat fun p =>
      (FaultUartInjector.injectOverrun p inj).map fun r => (put r, [.overrun r.1]) := by
  unfold FaultUartInjector.injectOverrun
  have hquiet : ∀ u : UartInjector, u.count = inj.count →
      Exact count inj.count.toNat fun _ => some (put (false, u), [.overrun false]) := by
    intro u hu
    refine ⟨put (false, u), [.overrun false], rfl, fun _ => ⟨fun _ => rfl, ?_⟩⟩
    rw [hput, hu]
    rfl
  split
  · cases hhit : (shouldInject inj.lfsr inj.config.probabilityPermille).1 with
    | false =>
      simp only [hhit, Bool.false_eq_true, ↓reduceIte, Option.map_some]
      exact hquiet _ rfl
    | true =>
      simp only [hhit, ↓reduceIte, Option.map_map]
      exact Exact.counted rfl (e := .overrun true) rfl rfl
        (fun counted => put (true, ⟨counted, true⟩)) fun _ => hput _
  · exact hquiet inj rfl

end

theorem uartItem_accounts : Accounts (fun s => s.1.count) uartItem := by
  apply accounts_of_exact
  intro s i
  cases i with
  | tx =>
    let put : U8 × UartInjector → UartInjector × UartBus := fun r => (r.2, { s.2 with tx := r.1 })
    exact Exact.uartInjection s.1 _ _ put fun _ => rfl
  | overrun =>
    unfold uartItem
    by_cases hoverrun : s.1.config.faultType = .overrun
    · simp only [hoverrun, ↓reduceIte]
      apply Exact.uartOverrun s.1 (fun r => (r.2, s.2))
      exact fun _ => rfl
    · simp only [hoverrun, ↓reduceIte]
      exact Exact.quiet rfl

theorem uart_accounts : Accounts (fun inj : UartInjector => inj.count) uartObserved := by
  apply accounts_of_exact
  intro inj c
  cases c with
  | configure config => exact Exact.quiet rfl
  | arm => exact Exact.restart (u := inj.arm) rfl _
  | disarm => exact Exact.quiet rfl
  | resetStats => exact Exact.restart (u := inj.resetStats) rfl _
  | clearOverrun => exact Exact.quiet rfl
  | fire bus => exact Exact.fire uartItem_accounts _ _ _ _
  | injectTx byte => exact Exact.uartInjection inj _ _ Prod.snd fun _ => rfl
  | injectRx byte => exact Exact.uartInjection inj _ _ Prod.snd fun _ => rfl
  | injectOverrun => exact Exact.uartOverrun inj Prod.snd fun _ => rfl

def canObserved (p : Profile) (inj : Injector) : FaultCan.Call → Option (Injector × List Event)
  | .configure config => some (inj.configure config, [])
  | .arm => some (inj.arm, [.restart])
  | .disarm => some (inj.disarm, [])
  | .resetStats => some (inj.resetStats, [.restart])
  | .fire bus => (observedFire inj.armed canItem canItems p inj bus).map fun r => (r.1.1, r.2)
  | .injectId id => (FaultCan.injectId p inj id).map fun r => (r.2, injected r.1 id)
  | .injectData byte index => (FaultCan.injectData p inj byte index).map fun r =>
    (r.2, injected r.1 byte)
  | .injectStuffError => some (inj, [])
  | .injectFormError => some (inj, [])

theorem canObserved_call (p : Profile) (inj : Injector) (c : FaultCan.Call) :
    (canObserved p inj c).map Prod.fst = FaultCan.call p inj c := by
  cases c with
  | fire bus =>
    simp only [canObserved, FaultCan.call, can_fire_eq, Option.map_map]
    rfl
  | injectId id => exact Option.map_map _ _ _
  | injectData byte index => exact Option.map_map _ _ _
  | _ => rfl

theorem canItem_accounts : Accounts (fun s => s.1.count) canItem := by
  apply accounts_of_exact
  intro s i
  cases i with
  | id =>
    let put : U32 × Injector → Injector × CanBus := fun r => (r.2, { s.2 with id := r.1 })
    exact Exact.injection rfl _ _ put fun _ => rfl
  | byte i =>
    let put : U8 × Injector → Injector × CanBus := fun r => (r.2, s.2.putByte i r.1)
    exact Exact.injection rfl _ _ put fun _ => rfl

theorem can_accounts : Accounts Injector.count canObserved := by
  apply accounts_of_exact
  intro inj c
  cases c with
  | configure config => exact Exact.quiet rfl
  | arm => exact Exact.restart (u := inj.arm) rfl _
  | disarm => exact Exact.quiet rfl
  | resetStats => exact Exact.restart (u := inj.resetStats) rfl _
  | fire bus => exact Exact.fire canItem_accounts _ _ _ _
  | injectId id => exact Exact.injection rfl _ _ Prod.snd fun _ => rfl
  | injectData byte index => exact Exact.injection rfl _ _ Prod.snd fun _ => rfl
  | injectStuffError => exact Exact.quiet rfl
  | injectFormError => exact Exact.quiet rfl

def oneWireObserved (p : Profile) (inj : Injector) :
    FaultOneWire.Call → Option (Injector × List Event)
  | .configure config => some (inj.configure config, [])
  | .arm => some (inj.arm, [.restart])
  | .disarm => some (inj.disarm, [])
  | .resetStats => some (inj.resetStats, [.restart])
  | .fire => some ((FaultOneWire.fire inj).2, [])
  | .injectData byte index => (FaultOneWire.injectData p inj byte index).map fun r =>
    (r.2, injected r.1 byte)
  | .injectRomCommand cmd => (FaultOneWire.injectRomCommand p inj cmd).map fun r =>
    (r.2, injected r.1 cmd)
  | .injectTimingViolation => some (inj, [])

theorem oneWireObserved_call (p : Profile) (inj : Injector) (c : FaultOneWire.Call) :
    (oneWireObserved p inj c).map Prod.fst = FaultOneWire.call p inj c := by
  cases c with
  | injectData byte index => exact Option.map_map _ _ _
  | injectRomCommand cmd => exact Option.map_map _ _ _
  | _ => rfl

theorem oneWire_accounts : Accounts Injector.count oneWireObserved := by
  apply accounts_of_exact
  intro inj c
  cases c with
  | configure config => exact Exact.quiet rfl
  | arm => exact Exact.restart (u := inj.arm) rfl _
  | disarm => exact Exact.quiet rfl
  | resetStats => exact Exact.restart (u := inj.resetStats) rfl _
  | fire => exact Exact.quiet (by rw [FaultOneWire.fire_state])
  | injectData byte index => exact Exact.injection rfl _ _ Prod.snd fun _ => rfl
  | injectRomCommand cmd => exact Exact.injection rfl _ _ Prod.snd fun _ => rfl
  | injectTimingViolation => exact Exact.quiet rfl

/-- After any calls with fewer than `2 ^ 32` fault events, the count is that of the fault events
since the latest `arm` or `reset_stats`, in both builds. -/
def Audited {S C : Type} (new : S) (count : S → U32) (call : Profile → S → C → Option S)
    (observed : Profile → S → C → Option (S × List Event)) : Prop :=
  ∀ calls : List C, ∃ s es, run (observed .release) new calls = some (s, es) ∧
    (faults es < 2 ^ 32 → ∀ p, run (observed p) new calls = some (s, es) ∧
      calls.foldlM (call p) new = some s ∧ (count s).toNat = faultsSinceRestart es)

theorem audited_of_accounts {S C : Type} {new : S} {count : S → U32}
    {call : Profile → S → C → Option S} {observed : Profile → S → C → Option (S × List Event)}
    (h : Accounts count observed) (hnew : count new = 0)
    (hcall : ∀ p s c, (observed p s c).map Prod.fst = call p s c) :
    Audited new count call observed := by
  intro calls
  have hzero : (count new).toNat = 0 := by
    rw [hnew]
    rfl
  obtain ⟨s, es, hrelease, -⟩ := (h .release).since hzero calls
  refine ⟨s, es, hrelease, ?_⟩
  intro hlimit p
  obtain ⟨u, fs, htotal, hexact⟩ := (h p).since hzero calls
  obtain ⟨rfl, rfl⟩ := Prod.mk.inj (Option.some.inj (hrelease.symm.trans htotal))
  obtain ⟨hrun, hcount⟩ := hexact hlimit
  refine ⟨hrun, ?_, hcount⟩
  rw [← run_states (hcall p), hrun]
  rfl

/-- The count of every injector is the number of fault events since the latest restart. -/
theorem injectors_audited :
    Audited FaultSpi.new Injector.count FaultSpi.call spiObserved ∧
      Audited FaultI2c.new Injector.count FaultI2c.call i2cObserved ∧
      Audited FaultUartInjector.new (fun inj => inj.count) FaultUartInjector.call uartObserved ∧
      Audited FaultCan.new Injector.count FaultCan.call canObserved ∧
      Audited FaultOneWire.new Injector.count FaultOneWire.call oneWireObserved :=
  ⟨audited_of_accounts spi_accounts rfl spiObserved_call,
    audited_of_accounts i2c_accounts rfl i2cObserved_call,
    audited_of_accounts uart_accounts rfl uartObserved_call,
    audited_of_accounts can_accounts rfl canObserved_call,
    audited_of_accounts oneWire_accounts rfl oneWireObserved_call⟩

end EmbeddedDaq.FaultAccounting

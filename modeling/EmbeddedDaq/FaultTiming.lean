import EmbeddedDaq.FaultEvents
import EmbeddedDaq.GeneralLockstep
import EmbeddedDaq.LfsrCycle
import EmbeddedDaq.PredicateRate

set_option autoImplicit false

/-!
# How long the injectors hold up the bus

Time is counted in turns of the `busy_delay_us` loop. A data-driven delay comes
at the rate of the generator; the delays behind `&self` come at every call.
-/
namespace EmbeddedDaq.FaultTiming
open FirmwareWords SharedFault FaultLfsr FaultInjectors LfsrPeriod LfsrCycle InjectionRate
open PredicateRate GeneralLockstep
open FaultUartInjector (UartInjector)

def busyDelayNops (us : U32) : ℕ := (us * 21).toNat

def hits (inj : Injector) : Bool :=
  inj.armed && (shouldInject inj.lfsr inj.config.probabilityPermille).1

/-- The delays of `inject_mosi` and `inject_tx`, which differ in the time of a clock glitch. -/
def faultNops (glitchUs : U32) (config : FaultConfig) : ℕ :=
  match config.faultType with
  | .bitDelay => busyDelayNops config.durationUs
  | .clockGlitch => busyDelayNops glitchUs
  | _ => 0

def mosiNops (inj : Injector) : ℕ := if hits inj then faultNops 5 inj.config else 0

def txNops (inj : Injector) : ℕ := if hits inj then faultNops 3 inj.config else 0

def spiNops (inj : Injector) : FaultSpi.Call → ℕ
  | .injectMosi _ => mosiNops inj
  | .fire _ => if inj.armed then mosiNops inj else 0
  | _ => 0

def uartNops (inj : UartInjector) : FaultUartInjector.Call → ℕ
  | .injectTx _ => txNops inj.toInjector
  | .fire _ => if inj.armed then txNops inj.toInjector else 0
  | _ => 0

def busLockupNops (inj : Injector) : ℕ :=
  if FaultI2c.shouldLockBus inj then busyDelayNops inj.config.durationUs else 0

def i2cNops (inj : Injector) : FaultI2c.Call → ℕ
  | .injectBusLockup => busLockupNops inj
  | .fire =>
    if inj.armed && inj.config.faultType = .busLockup then busLockupNops inj else 0
  | _ => 0

def oneWireNops (inj : Injector) : FaultOneWire.Call → ℕ
  | .injectTimingViolation =>
    if inj.freshDraw .bitDelay then busyDelayNops inj.config.durationUs else 0
  | .fire =>
    if inj.armed && (inj.config.faultType = .timeout && FaultOneWire.suppressPresence inj) then
      busyDelayNops inj.config.durationUs
    else 0
  | _ => 0

section
variable {S C : Type} (nops : S → C → ℕ) (call : S → C → Option S)

/-- A run of calls with the time it takes. -/
def timedRun : S → List C → Option (ℕ × S)
  | s, [] => some (0, s)
  | s, c :: cs => do
    let s' ← call s c
    let (rest, last) ← timedRun s' cs
    return (nops s c + rest, last)

variable {nops call}

theorem timedRun_cons {s s' last : S} {c : C} {cs : List C} {n : ℕ} (hcall : call s c = some s')
    (hrest : timedRun nops call s' cs = some (n, last)) :
    timedRun nops call s (c :: cs) = some (nops s c + n, last) := by
  rw [timedRun, hcall]
  change (timedRun nops call s' cs).bind _ = _
  rw [hrest]
  rfl

theorem timedRun_still {s : S} {t : ℕ} {cs : List C} (hcall : ∀ c ∈ cs, call s c = some s)
    (hnops : ∀ c ∈ cs, nops s c = t) : timedRun nops call s cs = some (cs.length * t, s) := by
  induction cs with
  | nil =>
    rw [List.length_nil, Nat.zero_mul]
    rfl
  | cons c cs ih =>
    have hrest := ih (fun x hx => hcall x (List.mem_cons_of_mem c hx))
      fun x hx => hnops x (List.mem_cons_of_mem c hx)
    rw [timedRun_cons (hcall c List.mem_cons_self) hrest, hnops c List.mem_cons_self,
      List.length_cons, Nat.succ_mul, Nat.add_comm]

end

theorem timedRun_drawn {S C : Type} {nops : S → C → ℕ} {call : S → C → Option S}
    (withLfsr : Lfsr → S) (permille : U16) {t : ℕ} {cs : List C}
    (hcall : ∀ c ∈ cs, ∀ l, call (withLfsr l) c = some (withLfsr (shouldInject l permille).2))
    (hnops : ∀ c ∈ cs, ∀ l, nops (withLfsr l) c = if (shouldInject l permille).1 then t else 0)
    (l : Lfsr) : timedRun nops call (withLfsr l) cs =
      some (trueResults (shouldInject · permille) cs.length l * t,
        withLfsr ((fun l => (shouldInject l permille).2)^[cs.length] l)) := by
  induction cs generalizing l with
  | nil =>
    rw [List.length_nil, trueResults, Nat.zero_mul]
    rfl
  | cons c cs ih =>
    have hrest := ih (fun x hx => hcall x (List.mem_cons_of_mem c hx))
      (fun x hx => hnops x (List.mem_cons_of_mem c hx)) (shouldInject l permille).2
    rw [timedRun_cons (hcall c List.mem_cons_self l) hrest, hnops c List.mem_cons_self,
      List.length_cons, trueResults, Function.iterate_succ_apply]
    cases shouldInject l permille with
    | mk hit next =>
      cases hit with
      | false => simp
      | true => simp [Nat.add_mul]

def hitsPerPeriod (permille : U16) : ℕ :=
  if permille = 0 then 0 else if 1000 ≤ permille.toNat then 65535 else 64 * permille.toNat - 1

theorem trueResults_never {S : Type*} {call : S → Bool × S} {s : S} (h : call s = (false, s))
    (n : ℕ) : trueResults call n s = 0 := by
  induction n with
  | zero => rfl
  | succ n ih =>
    rw [trueResults, h]
    change false.toNat + trueResults call n s = 0
    rw [ih]
    rfl

theorem period_hits (permille : U16) {l : Lfsr} (hl : l.state ≠ 0) :
    trueResults (shouldInject · permille) 65535 l = hitsPerPeriod permille ∧
      (fun l => (shouldInject l permille).2)^[65535] l = l := by
  unfold hitsPerPeriod
  by_cases hzero : permille = 0
  · have hnever : ∀ l, shouldInject l permille = (false, l) := fun l => if_pos hzero
    have hid : (fun l => (shouldInject l permille).2) = id := by
      funext l
      rw [hnever]
      rfl
    rw [if_pos hzero, trueResults_never (hnever l), hid, Function.iterate_id]
    exact ⟨rfl, rfl⟩
  · rw [if_neg hzero]
    rcases Nat.lt_or_ge permille.toNat 1000 with hlt | hge
    · have hpos : 1 ≤ permille.toNat := Nat.pos_of_ne_zero fun h =>
        hzero (BitVec.eq_of_toNat_eq h)
      have hdraw : (fun l => (shouldInject l permille).2) = fun l : Lfsr => l.next.2 := by
        funext l
        rw [shouldInject_draw hpos hlt]
        rfl
      rw [if_neg (Nat.not_le.mpr hlt), trueResults_period hpos hlt hl, hdraw]
      exact ⟨rfl, drawn_eq_iff.mpr (step_period l.state)⟩
    · have hsure : ∀ l, shouldInject l permille = (true, l) := shouldInject_always hge
      have hid : (fun l => (shouldInject l permille).2) = id := by
        funext l
        rw [hsure]
        rfl
      rw [if_pos hge, trueResults_const (hsure l), hid, Function.iterate_id]
      exact ⟨rfl, rfl⟩

theorem busyDelayNops_eq_iff (us : U32) :
    busyDelayNops us = 21 * us.toNat ↔ us.toNat ≤ 204522252 := by
  have hus := us.isLt
  have hword : ((21 : U32)).toNat = 21 := rfl
  rw [busyDelayNops, BitVec.toNat_mul, hword]
  omega

/-- A fault that keeps the generator running. -/
def KeepsRunning {w : ℕ} (fault : FaultConfig → Lfsr → BitVec w × Lfsr) : Prop :=
  ∀ config l, l.state ≠ 0 → (fault config l).2.state ≠ 0

theorem next_running {l : Lfsr} (h : l.state ≠ 0) : l.next.2.state ≠ 0 := step_ne_zero h

theorem nextBit_running {l : Lfsr} (h : l.state ≠ 0) : l.nextBit.2.state ≠ 0 := step_ne_zero h

theorem pickBit_running {config : FaultConfig} {l : Lfsr} (h : l.state ≠ 0) :
    (pickBit config l).2.state ≠ 0 := by
  unfold pickBit
  split
  · exact h
  · exact nextBit_running h

theorem shouldInject_running {permille : U16} {l : Lfsr} (h : l.state ≠ 0) :
    (shouldInject l permille).2.state ≠ 0 := by
  unfold shouldInject
  split
  · exact h
  · split
    · exact h
    · exact next_running h

theorem mosiFault_running (byte : U8) : KeepsRunning (FaultSpi.mosiFault byte) := by
  intro config l h
  unfold FaultSpi.mosiFault
  cases config.faultType with
  | clockGlitch => exact nextBit_running (pickBit_running h)
  | _ => exact pickBit_running h

theorem misoFault_running (byte : U8) : KeepsRunning (FaultSpi.misoFault byte) :=
  fun _ _ h => pickBit_running h

theorem txFault_running (byte : U8) : KeepsRunning (FaultUartInjector.txFault byte) := by
  intro config l h
  unfold FaultUartInjector.txFault
  cases config.faultType with
  | frameCorrupt => exact nextBit_running (pickBit_running h)
  | clockGlitch => exact nextBit_running (pickBit_running h)
  | _ => exact pickBit_running h

theorem rxFault_running (byte : U8) : KeepsRunning (FaultUartInjector.rxFault byte) :=
  fun _ _ h => pickBit_running h

theorem inject_running {w : ℕ} {p : Profile} {inj : Injector} {value : BitVec w}
    {fault : FaultConfig → Lfsr → BitVec w × Lfsr} {r : BitVec w × Injector}
    (hfault : KeepsRunning fault) (h : inj.lfsr.state ≠ 0)
    (hcall : inj.inject p value fault = some r) : r.2.lfsr.state ≠ 0 := by
  obtain ⟨result, next⟩ := r
  obtain ⟨-, rfl⟩ := Injector.inject_eq_some hcall
  change (inj.spoil value fault).2.state ≠ 0
  cases harmed : inj.armed with
  | false =>
    rw [Injector.spoil_disarmed harmed]
    exact h
  | true =>
    rw [Injector.spoil_armed harmed]
    split
    · exact hfault _ _ (shouldInject_running h)
    · exact shouldInject_running h

theorem spi_call_running {p : Profile} {inj inj' : Injector} {c : FaultSpi.Call}
    (h : inj.lfsr.state ≠ 0) (hcall : FaultSpi.call p inj c = some inj') :
    inj'.lfsr.state ≠ 0 := by
  cases c with
  | configure config =>
    obtain rfl := Option.some.inj hcall
    exact h
  | arm =>
    obtain rfl := Option.some.inj hcall
    exact h
  | disarm =>
    obtain rfl := Option.some.inj hcall
    exact h
  | resetStats =>
    obtain rfl := Option.some.inj hcall
    exact h
  | injectMosi byte =>
    obtain ⟨r, hr, rfl⟩ := Option.map_eq_some_iff.mp hcall
    exact inject_running (mosiFault_running byte) h hr
  | injectMiso byte =>
    obtain ⟨r, hr, rfl⟩ := Option.map_eq_some_iff.mp hcall
    exact inject_running (misoFault_running byte) h hr
  | fire bus =>
    obtain ⟨r, hr, rfl⟩ := Option.map_eq_some_iff.mp hcall
    unfold FaultSpi.fire at hr
    split at hr
    · obtain rfl := Option.some.inj hr
      exact h
    · obtain ⟨first, hfirst, hrest⟩ := Option.bind_eq_some_iff.mp hr
      obtain ⟨second, hsecond, hlast⟩ := Option.bind_eq_some_iff.mp hrest
      obtain rfl := Option.some.inj hlast
      exact inject_running (misoFault_running _) (inject_running (mosiFault_running _) h hfirst)
        hsecond

theorem spi_running {p : Profile} {earlier : List FaultSpi.Call} {inj : Injector}
    (h : earlier.foldlM (FaultSpi.call p) FaultSpi.new = some inj) : inj.lfsr.state ≠ 0 :=
  foldlM_keeps (fun _ _ _ => spi_call_running) (new_ne_zero 0xBEEF) h

theorem uart_inject_running {p : Profile} {inj : UartInjector} {byte : U8}
    {fault : FaultConfig → Lfsr → U8 × Lfsr} {r : U8 × UartInjector}
    (hfault : KeepsRunning fault) (h : inj.lfsr.state ≠ 0)
    (hcall : inj.inject p byte fault = some r) : r.2.lfsr.state ≠ 0 := by
  obtain ⟨q, hq, rfl⟩ := Option.map_eq_some_iff.mp hcall
  exact inject_running hfault h hq

theorem uart_overrun_running {p : Profile} {inj : UartInjector} {r : Bool × UartInjector}
    (h : inj.lfsr.state ≠ 0) (hcall : FaultUartInjector.injectOverrun p inj = some r) :
    r.2.lfsr.state ≠ 0 := by
  unfold FaultUartInjector.injectOverrun at hcall
  split at hcall
  · dsimp only at hcall
    split at hcall
    · obtain ⟨counted, hcounted, rfl⟩ := Option.map_eq_some_iff.mp hcall
      rw [Injector.countUp_eq_some hcounted]
      exact shouldInject_running h
    · obtain rfl := Option.some.inj hcall
      exact shouldInject_running h
  · obtain rfl := Option.some.inj hcall
    exact h

theorem uart_call_running {p : Profile} {inj inj' : UartInjector} {c : FaultUartInjector.Call}
    (h : inj.lfsr.state ≠ 0) (hcall : FaultUartInjector.call p inj c = some inj') :
    inj'.lfsr.state ≠ 0 := by
  cases c with
  | configure config =>
    obtain rfl := Option.some.inj hcall
    exact h
  | arm =>
    obtain rfl := Option.some.inj hcall
    exact h
  | disarm =>
    obtain rfl := Option.some.inj hcall
    exact h
  | resetStats =>
    obtain rfl := Option.some.inj hcall
    exact h
  | clearOverrun =>
    obtain rfl := Option.some.inj hcall
    exact h
  | injectTx byte =>
    obtain ⟨r, hr, rfl⟩ := Option.map_eq_some_iff.mp hcall
    exact uart_inject_running (txFault_running byte) h hr
  | injectRx byte =>
    obtain ⟨r, hr, rfl⟩ := Option.map_eq_some_iff.mp hcall
    exact uart_inject_running (rxFault_running byte) h hr
  | injectOverrun =>
    obtain ⟨r, hr, rfl⟩ := Option.map_eq_some_iff.mp hcall
    exact uart_overrun_running h hr
  | fire bus =>
    obtain ⟨r, hr, rfl⟩ := Option.map_eq_some_iff.mp hcall
    unfold FaultUartInjector.fire at hr
    split at hr
    · obtain rfl := Option.some.inj hr
      exact h
    · obtain ⟨first, hfirst, hrest⟩ := Option.bind_eq_some_iff.mp hr
      have hmid := uart_inject_running (txFault_running _) h hfirst
      dsimp only at hrest
      split at hrest
      · obtain ⟨second, hsecond, hlast⟩ := Option.bind_eq_some_iff.mp hrest
        obtain rfl := Option.some.inj hlast
        exact uart_overrun_running hmid hsecond
      · obtain rfl := Option.some.inj hrest
        exact hmid

theorem uart_running {p : Profile} {earlier : List FaultUartInjector.Call} {inj : UartInjector}
    (h : earlier.foldlM (FaultUartInjector.call p) FaultUartInjector.new = some inj) :
    inj.lfsr.state ≠ 0 :=
  foldlM_keeps (P := fun inj : UartInjector => inj.lfsr.state ≠ 0)
    (fun _ _ _ => uart_call_running) (new_ne_zero 0xDEAD) h

/-- Armed to delay, with a target bit that needs no draw of its own. -/
structure Delaying (inj : Injector) : Prop where
  armed : inj.armed = true
  delays : inj.config.faultType = .bitDelay
  target : inj.config.targetBit < 8

section
variable {p : Profile} {inj : Injector}

theorem spoil_delaying (h : Delaying inj) {fault : U8 → FaultConfig → Lfsr → U8 × Lfsr}
    (hfault : ∀ byte l, fault byte inj.config l = (byte, l)) (byte : U8) (l : Lfsr) :
    ({ inj with lfsr := l } : Injector).spoil byte (fault byte) =
      (byte, (shouldInject l inj.config.probabilityPermille).2) := by
  have harmed : ({ inj with lfsr := l } : Injector).armed = true := h.armed
  rw [Injector.spoil_armed harmed]
  split
  · exact hfault byte _
  · rfl

theorem inject_delaying (h : Delaying inj) {fault : U8 → FaultConfig → Lfsr → U8 × Lfsr}
    (hfault : ∀ byte l, fault byte inj.config l = (byte, l)) (byte : U8) (l : Lfsr) :
    ({ inj with lfsr := l } : Injector).inject p byte (fault byte) =
      some (byte, { inj with lfsr := (shouldInject l inj.config.probabilityPermille).2 }) := by
  have hsame : ¬(({ inj with lfsr := l } : Injector).spoil byte (fault byte)).1 ≠ byte := by
    rw [spoil_delaying h hfault]
    exact not_not.mpr rfl
  rw [Injector.inject_eq, if_neg hsame, spoil_delaying h hfault]
  simp [Injector.after]

theorem mosiFault_delaying (h : Delaying inj) (byte : U8) (l : Lfsr) :
    FaultSpi.mosiFault byte inj.config l = (byte, l) := by
  unfold FaultSpi.mosiFault pickBit
  rw [if_pos h.target, h.delays]

theorem txFault_delaying (h : Delaying inj) (byte : U8) (l : Lfsr) :
    FaultUartInjector.txFault byte inj.config l = (byte, l) := by
  unfold FaultUartInjector.txFault pickBit
  rw [if_pos h.target, h.delays]

theorem nops_delaying (h : Delaying inj) (glitchUs : U32) (l : Lfsr) :
    (if hits { inj with lfsr := l } then faultNops glitchUs inj.config else 0) =
      if (shouldInject l inj.config.probabilityPermille).1 then
        busyDelayNops inj.config.durationUs
      else 0 := by
  unfold hits faultNops
  rw [h.armed, h.delays, Bool.true_and]

theorem spi_delays (hrunning : inj.lfsr.state ≠ 0) (h : Delaying inj)
    (bytes : List U8) (hlength : bytes.length = 65535) :
    timedRun spiNops (FaultSpi.call p) inj (bytes.map .injectMosi) =
      some (hitsPerPeriod inj.config.probabilityPermille *
        busyDelayNops inj.config.durationUs, inj) := by
  have hcall : ∀ c ∈ bytes.map FaultSpi.Call.injectMosi, ∀ l,
      FaultSpi.call p { inj with lfsr := l } c =
        some { inj with lfsr := (shouldInject l inj.config.probabilityPermille).2 } := by
    intro c hc l
    obtain ⟨byte, -, rfl⟩ := List.mem_map.mp hc
    exact congrArg (Option.map Prod.snd) (inject_delaying h (mosiFault_delaying h) byte l)
  have hnops : ∀ c ∈ bytes.map FaultSpi.Call.injectMosi, ∀ l,
      spiNops { inj with lfsr := l } c =
        if (shouldInject l inj.config.probabilityPermille).1 then
          busyDelayNops inj.config.durationUs
        else 0 := by
    intro c hc l
    obtain ⟨byte, -, rfl⟩ := List.mem_map.mp hc
    exact nops_delaying h 5 l
  obtain ⟨hcount, hback⟩ := period_hits inj.config.probabilityPermille hrunning
  have hrun := timedRun_drawn (fun l => { inj with lfsr := l }) _ hcall hnops inj.lfsr
  rw [List.length_map, hlength, hcount, hback] at hrun
  exact hrun

theorem uart_delays {inj : UartInjector} (hrunning : inj.lfsr.state ≠ 0)
    (h : Delaying inj.toInjector) (bytes : List U8) (hlength : bytes.length = 65535) :
    timedRun uartNops (FaultUartInjector.call p) inj (bytes.map .injectTx) =
      some (hitsPerPeriod inj.config.probabilityPermille *
        busyDelayNops inj.config.durationUs, inj) := by
  have hcall : ∀ c ∈ bytes.map FaultUartInjector.Call.injectTx, ∀ l,
      FaultUartInjector.call p { inj with lfsr := l } c =
        some { inj with lfsr := (shouldInject l inj.config.probabilityPermille).2 } := by
    intro c hc l
    obtain ⟨byte, -, rfl⟩ := List.mem_map.mp hc
    have hcore := inject_delaying (p := p) h (txFault_delaying h) byte l
    change Option.map Prod.snd (UartInjector.inject p { inj with lfsr := l } byte _) = _
    unfold UartInjector.inject
    rw [hcore]
    rfl
  have hnops : ∀ c ∈ bytes.map FaultUartInjector.Call.injectTx, ∀ l,
      uartNops { inj with lfsr := l } c =
        if (shouldInject l inj.config.probabilityPermille).1 then
          busyDelayNops inj.config.durationUs
        else 0 := by
    intro c hc l
    obtain ⟨byte, -, rfl⟩ := List.mem_map.mp hc
    exact nops_delaying h 3 l
  obtain ⟨hcount, hback⟩ := period_hits inj.config.probabilityPermille hrunning
  have hrun := timedRun_drawn (fun l => { inj with lfsr := l }) _ hcall hnops inj.lfsr
  rw [List.length_map, hlength, hcount, hback] at hrun
  exact hrun

/-- A locked bus is held up by every call, whatever the probability. -/
theorem i2c_delays (harmed : inj.armed = true) (hlocks : inj.config.faultType = .busLockup)
    (cs : List FaultI2c.Call) (hcs : ∀ c ∈ cs, c = .fire ∨ c = .injectBusLockup) :
    timedRun i2cNops (FaultI2c.call p) inj cs =
      some (cs.length * busyDelayNops inj.config.durationUs, inj) := by
  have hother : inj.config.faultType ≠ .nackInjection := by
    rw [hlocks]
    decide
  have hlock : FaultI2c.shouldLockBus inj = true := by
    simp [FaultI2c.shouldLockBus, harmed, hlocks]
  refine timedRun_still ?_ ?_
  · intro c hc
    rcases hcs c hc with rfl | rfl
    · exact congrArg (Option.map Prod.snd) (FaultI2c.fire_other harmed hother)
    · rfl
  · intro c hc
    rcases hcs c hc with rfl | rfl
    · simp [i2cNops, busLockupNops, harmed, hlocks, hlock]
    · simp [i2cNops, busLockupNops, hlock]

theorem freshDraw_armed {faultType : FaultType} (harmed : inj.armed = true)
    (htype : inj.config.faultType = faultType)
    (hpos : 1 ≤ inj.config.probabilityPermille.toNat) : inj.freshDraw faultType = true := by
  rw [Injector.freshDraw, harmed, htype, fresh_draw hpos]
  simp

theorem oneWire_delays (harmed : inj.armed = true)
    (hpos : 1 ≤ inj.config.probabilityPermille.toNat) (c : FaultOneWire.Call)
    (hc : inj.config.faultType = .bitDelay ∧ c = .injectTimingViolation ∨
      inj.config.faultType = .timeout ∧ c = .fire) (n : ℕ) :
    timedRun oneWireNops (FaultOneWire.call p) inj (List.replicate n c) =
      some (n * busyDelayNops inj.config.durationUs, inj) := by
  have hrun : timedRun oneWireNops (FaultOneWire.call p) inj (List.replicate n c) =
      some ((List.replicate n c).length * busyDelayNops inj.config.durationUs, inj) := by
    refine timedRun_still ?_ ?_
    · intro x hx
      rw [List.eq_of_mem_replicate hx]
      rcases hc with ⟨-, rfl⟩ | ⟨-, rfl⟩
      · rfl
      · exact congrArg some (FaultOneWire.fire_state inj)
    · intro x hx
      rw [List.eq_of_mem_replicate hx]
      rcases hc with ⟨htype, rfl⟩ | ⟨htype, rfl⟩
      · exact if_pos (freshDraw_armed harmed htype hpos)
      · have hsuppressed : FaultOneWire.suppressPresence inj = true :=
          freshDraw_armed harmed htype hpos
        simp [oneWireNops, harmed, htype, hsuppressed]
  rwa [List.length_replicate] at hrun

end

/-- How long a campaign holds up the bus, begun after any calls. Delays of bytes come `64 * p - 1`
times in 65535, a locked bus at every call and at any probability, the OneWire delays at every
call and at any probability but zero; each takes 21 turns a microsecond up to some 204 seconds. -/
theorem campaign_delays (p : Profile) :
    (∀ (earlier : List FaultSpi.Call) inj,
      earlier.foldlM (FaultSpi.call p) FaultSpi.new = some inj → Delaying inj →
      ∀ bytes : List U8, bytes.length = 65535 →
        timedRun spiNops (FaultSpi.call p) inj (bytes.map .injectMosi) =
          some (hitsPerPeriod inj.config.probabilityPermille *
            busyDelayNops inj.config.durationUs, inj)) ∧
    (∀ (earlier : List FaultUartInjector.Call) inj,
      earlier.foldlM (FaultUartInjector.call p) FaultUartInjector.new = some inj →
      Delaying inj.toInjector → ∀ bytes : List U8, bytes.length = 65535 →
        timedRun uartNops (FaultUartInjector.call p) inj (bytes.map .injectTx) =
          some (hitsPerPeriod inj.config.probabilityPermille *
            busyDelayNops inj.config.durationUs, inj)) ∧
    (∀ (inj : Injector) cs, inj.armed = true → inj.config.faultType = .busLockup →
      (∀ c ∈ cs, c = .fire ∨ c = .injectBusLockup) →
        timedRun i2cNops (FaultI2c.call p) inj cs =
          some (cs.length * busyDelayNops inj.config.durationUs, inj)) ∧
    (∀ (inj : Injector) c n, inj.armed = true → 1 ≤ inj.config.probabilityPermille.toNat →
      (inj.config.faultType = .bitDelay ∧ c = .injectTimingViolation ∨
        inj.config.faultType = .timeout ∧ c = .fire) →
        timedRun oneWireNops (FaultOneWire.call p) inj (List.replicate n c) =
          some (n * busyDelayNops inj.config.durationUs, inj)) ∧
    ∀ us, busyDelayNops us = 21 * us.toNat ↔ us.toNat ≤ 204522252 :=
  ⟨fun _ _ hearlier h bytes hlength => spi_delays (spi_running hearlier) h bytes hlength,
    fun _ _ hearlier h bytes hlength => uart_delays (uart_running hearlier) h bytes hlength,
    fun _ cs harmed hlocks hcs => i2c_delays harmed hlocks cs hcs,
    fun _ c n harmed hpos hc => oneWire_delays harmed hpos c hc n, busyDelayNops_eq_iff⟩

def halfDelayed : FaultConfig := ⟨.spi, .bitDelay, 0, 10, 1, 500⟩

theorem campaign_delays_half :
    timedRun spiNops (FaultSpi.call .release) (FaultSpi.new.configure halfDelayed).arm
        ((List.replicate 65535 0x55).map .injectMosi) =
      some (hitsPerPeriod 500 * busyDelayNops 10, (FaultSpi.new.configure halfDelayed).arm) :=
  (campaign_delays .release).1 [.configure halfDelayed, .arm] _ rfl ⟨rfl, rfl, by decide⟩
    (List.replicate 65535 0x55) List.length_replicate

end EmbeddedDaq.FaultTiming

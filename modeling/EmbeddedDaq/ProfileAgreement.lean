import EmbeddedDaq.FaultAnswers
import EmbeddedDaq.FaultTask
import EmbeddedDaq.FirmwareTransportTask
import EmbeddedDaq.GeneralAgreement

set_option autoImplicit false

namespace EmbeddedDaq.ProfileAgreement
open FirmwareWords FirmwareAnalog FirmwareTransport FirmwareAdcTask GeneralAgreement GeneralRuns
open SharedFault FaultLfsr FaultInjectors FaultTask
open FaultUartInjector (UartInjector)
open FaultAnswers (Answer)
open FirmwareTransportTask (TransportTask getSampleValue transportTask)

section
variable {w : ℕ} (a b : BitVec w)

theorem addWord_profiles : Agrees (addWord .dev a b) (addWord .release a b) :=
  .ite (fun _ => .refl _) fun _ => .stopped _

theorem mulWord_profiles : Agrees (mulWord .dev a b) (mulWord .release a b) :=
  .ite (fun _ => .refl _) fun _ => .stopped _

theorem sumWords_profiles (xs : List (BitVec w)) :
    Agrees (sumWords .dev xs) (sumWords .release xs) := .foldlM addWord_profiles 0 xs

theorem divWord_profiles {b : BitVec w} (h : b ≠ 0) : Agrees (divWord a b) (divWord a b) := by
  rw [divWord_eq_some_iff.mpr ⟨h, rfl⟩]
  exact .refl (a / b)

end

section
variable {count : ℕ}

theorem channelMv_profiles (words : List U16) (hlower : 2 ≤ count) (hupper : count ≤ 2048) :
    Agrees (channelMv .dev words count) (channelMv .release words count) := by
  have hhalf : BitVec.ofNat 32 (count / 2) ≠ 0 := by
    intro h
    have hzero := congrArg BitVec.toNat h
    rw [BitVec.toNat_ofNat, Nat.mod_eq_of_lt (by omega)] at hzero
    change count / 2 = 0 at hzero
    omega
  exact .bind (sumWords_profiles _) fun total => .bind (divWord_profiles total hhalf) fun average =>
    .bind (mulWord_profiles average 3300) fun scaled => divWord_profiles scaled (by decide)

theorem updateAnalog_profiles (s : AnalogSampler) (measurements : Vector U16 2048)
    (hcount : count ≤ 2048) :
    Agrees (s.updateAnalog .dev measurements.toList count)
      (s.updateAnalog .release measurements.toList count) := by
  have hlength : count ≤ measurements.toList.length := by
    rwa [Vector.length_toList]
  have hslice : sliceTo measurements.toList count = some (measurements.toList.take count) :=
    if_pos hlength
  refine .ite (fun _ => .refl s) fun hlower => ?_
  rw [hslice]
  refine .bind (.refl _) fun window => .bind (channelMv_profiles _ (by omega) hcount) fun pa0Mv =>
    .bind (channelMv_profiles _ (by omega) hcount) fun pa1Mv =>
    .bind (addWord_profiles _ _) fun sampleCount => .refl _

theorem process_profiles (s : AdcTask) (padding : ℕ → U8) (measurements : Vector U16 2048)
    (hcount : count ≤ 2048) :
    Agrees (process .dev s padding measurements.toList count)
      (process .release s padding measurements.toList count) :=
  .bind (updateAnalog_profiles s.adcSampler measurements hcount) fun _ =>
    .bind (mulWord_profiles _ _) fun _ => .refl _

theorem iteration_profiles (s : AdcTask) (turn : Turn) :
    Agrees (iteration .dev s turn) (iteration .release s turn) := by
  unfold iteration
  cases turn.read with
  | overrun samples => exact .refl (s, [])
  | ok n measurements =>
    exact .ite (fun _ => .refl (s, [])) fun _ =>
      process_profiles s turn.padding measurements (Nat.min_le_right n 2048)

end

theorem transport_profiles (s : TransportTask) (padding : ℕ → U8) :
    Agrees (FirmwareTransportTask.iteration .dev s padding)
      (FirmwareTransportTask.iteration .release s padding) := by
  have hvalue : ∀ channel, Agrees (getSampleValue .dev channel) (getSampleValue .release channel) :=
    fun _ => mulWord_profiles _ _
  unfold FirmwareTransportTask.iteration
  refine .bind (hvalue 0) fun _ => .bind (hvalue 1) fun _ => ?_
  exact .refl _

theorem faultTurn_profiles (e : FaultEngine) (byte : U8) :
    Agrees (faultTurn .dev e byte) (faultTurn .release e byte) := by
  unfold faultTurn
  cases commandOf byte with
  | none => exact .refl (e, [])
  | some cmd =>
    refine .map _ ?_
    cases cmd with
    | fire => exact .ite (fun _ => .refl _) fun _ => .map _ (addWord_profiles _ _)
    | arm => exact .refl _
    | disarm => exact .refl _
    | status => exact .refl _
    | reset => exact .refl _

theorem countUp_profiles (inj : Injector) : Agrees (inj.countUp .dev) (inj.countUp .release) :=
  .map _ (addWord_profiles _ _)

theorem inject_profiles {w : ℕ} (inj : Injector) (value : BitVec w)
    (fault : FaultConfig → Lfsr → BitVec w × Lfsr) :
    Agrees (inj.inject .dev value fault) (inj.inject .release value fault) :=
  .ite (fun _ => .refl _) fun _ => .ite (fun _ => .refl _) fun _ =>
    .ite (fun _ => .map _ (countUp_profiles _)) fun _ => .refl _

theorem spi_profiles (inj : Injector) (c : FaultSpi.Call) :
    Agrees (FaultAnswers.spi .dev inj c) (FaultAnswers.spi .release inj c) := by
  cases c with
  | configure config => exact .refl _
  | arm => exact .refl _
  | disarm => exact .refl _
  | resetStats => exact .refl _
  | injectMosi byte => exact .map _ (inject_profiles inj byte _)
  | injectMiso byte => exact .map _ (inject_profiles inj byte _)
  | fire bus =>
    exact .map _ (.ite (fun _ => .refl _) fun _ => .bind (inject_profiles inj _ _) fun r =>
      .bind (inject_profiles r.2 _ _) fun _ => .refl _)

theorem i2c_profiles (inj : Injector) (c : FaultI2c.Call) :
    Agrees (FaultAnswers.i2c .dev inj c) (FaultAnswers.i2c .release inj c) := by
  cases c with
  | configure config => exact .refl _
  | arm => exact .refl _
  | disarm => exact .refl _
  | resetStats => exact .refl _
  | injectAddress addr => exact .map _ (inject_profiles inj addr _)
  | injectData byte => exact .map _ (inject_profiles inj byte _)
  | injectBusLockup => exact .refl _
  | fire =>
    exact .map _ (.ite (fun _ => .refl _) fun _ =>
      .ite (fun _ => .map _ (countUp_profiles inj)) fun _ => .refl _)

theorem can_profiles (inj : Injector) (c : FaultCan.Call) :
    Agrees (FaultAnswers.can .dev inj c) (FaultAnswers.can .release inj c) := by
  cases c with
  | configure config => exact .refl _
  | arm => exact .refl _
  | disarm => exact .refl _
  | resetStats => exact .refl _
  | injectId id => exact .map _ (inject_profiles inj id _)
  | injectData byte index => exact .map _ (inject_profiles inj byte _)
  | injectStuffError => exact .refl _
  | injectFormError => exact .refl _
  | fire bus =>
    have hbyte : ∀ acc i,
        Agrees (FaultCan.fireByte .dev acc i) (FaultCan.fireByte .release acc i) :=
      fun acc i => .map _ (inject_profiles acc.2 _ _)
    exact .map _ (.ite (fun _ => .refl _) fun _ => .bind (inject_profiles inj _ _) fun _ =>
      .bind (.foldlM hbyte _ _) fun _ => .refl _)

theorem oneWire_profiles (inj : Injector) (c : FaultOneWire.Call) :
    Agrees (FaultAnswers.oneWire .dev inj c) (FaultAnswers.oneWire .release inj c) := by
  cases c with
  | configure config => exact .refl _
  | arm => exact .refl _
  | disarm => exact .refl _
  | resetStats => exact .refl _
  | fire => exact .refl _
  | injectData byte index => exact .map _ (inject_profiles inj byte _)
  | injectRomCommand cmd => exact .map _ (inject_profiles inj cmd _)
  | injectTimingViolation => exact .refl _

section
variable (inj : UartInjector)

theorem uart_inject_profiles (byte : U8) (fault : FaultConfig → Lfsr → U8 × Lfsr) :
    Agrees (inj.inject .dev byte fault) (inj.inject .release byte fault) :=
  .map _ (inject_profiles inj.toInjector byte fault)

theorem uart_overrun_profiles : Agrees (FaultUartInjector.injectOverrun .dev inj)
    (FaultUartInjector.injectOverrun .release inj) :=
  .ite (fun _ => .ite (fun _ => .map _ (countUp_profiles _)) fun _ => .refl _) fun _ => .refl _

theorem uart_profiles (c : FaultUartInjector.Call) :
    Agrees (FaultAnswers.uart .dev inj c) (FaultAnswers.uart .release inj c) := by
  cases c with
  | configure config => exact .refl _
  | arm => exact .refl _
  | disarm => exact .refl _
  | resetStats => exact .refl _
  | clearOverrun => exact .refl _
  | injectTx byte => exact .map _ (uart_inject_profiles inj byte _)
  | injectRx byte => exact .map _ (uart_inject_profiles inj byte _)
  | injectOverrun => exact .map _ (uart_overrun_profiles inj)
  | fire bus =>
    exact .map _ (.ite (fun _ => .refl _) fun _ => .bind (uart_inject_profiles inj _ _) fun r =>
      .ite (fun _ => .bind (uart_overrun_profiles r.2) fun _ => .refl _) fun _ => .refl _)

end

/-- Every sequence of calls is answered in both builds alike, if the dev build does not panic, from
the states the calls alone go through. -/
def BuildsAgree {S C B : Type} (answers : Profile → S → C → Option (S × List (Answer B)))
    (call : Profile → S → C → Option S) : Prop :=
  ∀ s calls, Agrees (run (answers .dev) s calls) (run (answers .release) s calls) ∧
    ∀ p, (run (answers p) s calls).map Prod.fst = calls.foldlM (call p) s

theorem buildsAgree {S C B : Type} {answers : Profile → S → C → Option (S × List (Answer B))}
    {call : Profile → S → C → Option S}
    (hprofiles : ∀ s c, Agrees (answers .dev s c) (answers .release s c))
    (hstate : ∀ p s c, (answers p s c).map Prod.fst = call p s c) : BuildsAgree answers call :=
  fun s calls => ⟨.run hprofiles s calls, fun p => run_states (hstate p) s calls⟩

/-- Whatever they are given, the tasks and the injectors never panic in a release build, and in a
dev build panic or do and return what they do and return in a release build. -/
theorem profiles_agree :
    (∀ transport turns,
        Agrees (adcRun .dev transport turns) (adcRun .release transport turns)) ∧
      (∀ transport configPadding paddings,
        Agrees (transportTask .dev transport configPadding paddings)
          (transportTask .release transport configPadding paddings)) ∧
      (∀ e bytes, Agrees (faultTaskEntry .dev e bytes) (faultTaskEntry .release e bytes)) ∧
      BuildsAgree FaultAnswers.spi FaultSpi.call ∧
      BuildsAgree FaultAnswers.i2c FaultI2c.call ∧
      BuildsAgree FaultAnswers.uart FaultUartInjector.call ∧
      BuildsAgree FaultAnswers.can FaultCan.call ∧
      BuildsAgree FaultAnswers.oneWire FaultOneWire.call :=
  ⟨fun _ turns => .run iteration_profiles _ turns,
    fun _ _ paddings => .run transport_profiles _ paddings,
    fun e bytes => .run faultTurn_profiles e bytes,
    buildsAgree spi_profiles FaultAnswers.spi_state,
    buildsAgree i2c_profiles FaultAnswers.i2c_state,
    buildsAgree uart_profiles FaultAnswers.uart_state,
    buildsAgree can_profiles FaultAnswers.can_state,
    buildsAgree oneWire_profiles FaultAnswers.oneWire_state⟩

end EmbeddedDaq.ProfileAgreement

import EmbeddedDaq.AdcTaskStream
import EmbeddedDaq.BootOutcome
import EmbeddedDaq.ConsoleSession
import EmbeddedDaq.FirmwareTasks
import Mathlib.Data.List.ReduceOption

set_option autoImplicit false

namespace EmbeddedDaq.ProcessorSharing
open FirmwareWords FirmwareMpu FirmwareTransport FirmwareAdcTask FirmwareBoot FirmwareTasks
open GeneralFaultyMemory GeneralCooperative GeneralPolling GeneralPacedFrames GeneralWaveform
open GeneralSerialReceiver GeneralRuns
open FaultUart FaultTask FaultConsole FaultMachine UartBaud ConsoleReception ConsoleSession
open BootOutcome MpuProtection
open AdcTaskStream (turnOf)

section
variable {p : Profile} {wave : ℕ → Level}

theorem fault_keeps (m : TaskState .faultTaskEntry) (elapsed : TaskInput .faultTaskEntry)
    (m' : TaskState .faultTaskEntry) (yields : Bool)
    (h : taskStep p wave .faultTaskEntry m elapsed = some (m', yields)) : yields = false := by
  obtain ⟨_, -, heq⟩ := Option.map_eq_some_iff.mp h
  exact (Prod.mk.inj heq).2.symm

def turnsRead (acts : List (Act TaskInput)) : List Turn :=
  List.reduceOption (inputsOf FirmwareBoot.Task.adcTask acts)

theorem runAlone_adc (s : AdcTask) (inputs : List (Option Turn)) :
    runAlone (taskStep p wave) .adcTask s inputs =
      inputs.reduceOption.foldlM (fun s turn => (iteration p s turn).map Prod.fst) s := by
  induction inputs generalizing s with
  | nil => rfl
  | cons input inputs ih =>
    cases input with
    | none => exact ih s
    | some turn =>
      have hstep : (taskStep p wave .adcTask s (some turn)).map Prod.fst =
          (iteration p s turn).map Prod.fst := by
        change ((iteration p s turn).map fun r => (r.1, false)).map Prod.fst = _
        rw [Option.map_map]
        rfl
      rw [List.reduceOption_cons_of_some, List.foldlM_cons, ← hstep]
      exact congrArg _ (funext fun s' => ih s')

theorem adc_alone {s : AdcTask} {acts : List (Act TaskInput)}
    (h : runAlone (taskStep p wave) .adcTask (AdcTask.start Transport.new)
      (inputsOf .adcTask acts) = some s) :
    ∃ events, analogMain p (turnsRead acts) = some (s, events) := by
  have hstates : (run (iteration p) (AdcTask.start Transport.new) (turnsRead acts)).map Prod.fst =
      (turnsRead acts).foldlM (fun s turn => (iteration p s turn).map Prod.fst)
        (AdcTask.start Transport.new) := run_states (fun s turn => rfl) _ _
  rw [runAlone_adc] at h
  obtain ⟨⟨s', events⟩, hrun, rfl⟩ := Option.map_eq_some_iff.mp (hstates.trans h)
  exact ⟨events, hrun⟩

theorem mem_runnable {κ : Type} [DecidableEq κ] {device : Device U32 κ U32} {regions : ℕ}
    {mpu : Mpu} {symbols : Symbols} {clocks : Clocks} {features : Features} {cells : κ → U32}
    {task : FirmwareBoot.Task}
    (h : task ∈ runnable (main device regions mpu symbols clocks features cells)) :
    task ∈ spawned features ∧ (features.analog = true ∨ features.digital = true) := by
  unfold main mainProtected at h
  split at h
  · cases h
  · cases h
  · split at h
    · cases h
    · split at h
      · next hany => exact ⟨h, Bool.or_eq_true_iff.mp hany⟩
      · cases h

theorem fault_spawned {features : Features} (h : .faultTaskEntry ∈ spawned features) :
    features.fault = true := by
  obtain ⟨analog, digital, fault⟩ := features
  cases fault with
  | true => rfl
  | false => cases analog <;> cases digital <;> simp [spawned] at h

theorem first_poll {spawned : List FirmwareBoot.Task} {states : ∀ task, TaskState task}
    {w : World TaskState} {a : Act TaskInput} {acts : List (Act TaskInput)}
    (h : runActs (taskStep p wave) spawned ⟨states, none⟩ (a :: acts) = some w) :
    ∃ task ∈ spawned, a = .poll task := by
  obtain ⟨mid, hact, -⟩ := runActs_cons.mp h
  cases a with
  | poll task => exact ⟨task, (act_poll hact).2.1, rfl⟩
  | advance task input =>
    obtain ⟨_, _, hcurrent, -⟩ := act_advance hact
    cases hcurrent

theorem fault_holds {spawned : List FirmwareBoot.Task} {w₀ w : World TaskState}
    {before after : List (Act TaskInput)}
    (h : runActs (taskStep p wave) spawned w₀ (before ++ .poll .faultTaskEntry :: after) =
      some w) :
    .poll .faultTaskEntry ∉ before ∧ ∀ a ∈ after, a.StepOf .faultTaskEntry := by
  have hholds : ∀ {w₁ acts}, runActs (taskStep p wave) spawned w₁
      (.poll .faultTaskEntry :: acts) = some w → ∀ a ∈ acts, a.StepOf .faultTaskEntry := by
    intro w₁ acts hrun
    obtain ⟨mid, hpoll, hrest⟩ := runActs_cons.mp hrun
    obtain ⟨-, -, rfl⟩ := act_poll hpoll
    exact (runActs_kept (P := fun _ => True)
      (fun s input s' yields _ hstep => ⟨trivial, fault_keeps s input s' yields hstep⟩)
      rfl trivial hrest).2.2.1
  constructor
  · intro hmem
    obtain ⟨earlier, later, rfl⟩ := List.append_of_mem hmem
    rw [List.append_assoc] at h
    obtain ⟨mid, -, hrest⟩ := runActs_append.mp h
    obtain ⟨input, heq⟩ := hholds hrest (.poll .faultTaskEntry)
      (List.mem_append_right later List.mem_cons_self)
    cases heq
  · obtain ⟨mid, -, hrest⟩ := runActs_append.mp h
    exact hholds hrest

end

/-- The fault console and the acquisition exclude each other. In a build without anything to
acquire nothing is ever polled; in any other the tasks share the processor only until the fault
task gets it, and what was acquired by then is all there will be. -/
theorem console_excludes_acquisition {κ : Type} [DecidableEq κ] (p : Profile) (wave : ℕ → Level)
    (start : ℕ) (device : Device U32 κ U32) (regions : ℕ) (mpu : Mpu) (symbols : Symbols)
    (clocks : Clocks) (features : Features) (cells : κ → U32) {acts : List (Act TaskInput)}
    {w : World TaskState}
    (hrun : firmwareRun p wave start (main device regions mpu symbols clocks features cells) acts =
      some w) :
    (acts ≠ [] → features.analog = true ∨ features.digital = true) ∧
      (∃ events, analogMain p (turnsRead acts) = some (w.states .adcTask, events)) ∧
      ∀ before after, acts = before ++ .poll .faultTaskEntry :: after →
        features.fault = true ∧ .poll .faultTaskEntry ∉ before ∧
          (∀ a ∈ after, a.StepOf .faultTaskEntry) ∧ turnsRead acts = turnsRead before := by
  refine ⟨?_, adc_alone (runActs_alone hrun .adcTask), ?_⟩
  · intro hne
    obtain ⟨a, rest, rfl⟩ := List.exists_cons_of_ne_nil hne
    obtain ⟨task, hmem, -⟩ := first_poll hrun
    exact (mem_runnable hmem).2
  · rintro before after rfl
    obtain ⟨hbefore, hafter⟩ := fault_holds hrun
    have hmem := polled_spawned hrun (List.mem_append_right before List.mem_cons_self)
    refine ⟨fault_spawned (mem_runnable hmem).1, hbefore, hafter, ?_⟩
    have hquiet : inputsOf FirmwareBoot.Task.adcTask
        (.poll .faultTaskEntry :: after : List (Act TaskInput)) = [] :=
      (List.filterMap_cons_none rfl).trans
        (inputsOf_steps (i := .faultTaskEntry) (by decide) hafter)
    rw [turnsRead, inputsOf_append, hquiet, List.append_nil, turnsRead]

def beforeFault : List (Act TaskInput) :=
  [.poll .adcTask, .advance .adcTask (some (turnOf [100, 100])), .advance .adcTask none]

def shortSchedule : List (Act TaskInput) :=
  beforeFault ++ .poll .faultTaskEntry :: [.advance .faultTaskEntry 0]

theorem console_excludes_acquisition_short :
    ∃ w, firmwareRun .dev (fun _ => .high) 0
        (main soundDevice 8 reset flippedSymbols runningClocks ⟨true, false, true⟩ fun _ => 0)
        shortSchedule = some w ∧
      (∃ events, analogMain .dev [turnOf [100, 100]] = some (w.states .adcTask, events)) ∧
      Act.poll FirmwareBoot.Task.faultTaskEntry ∉ beforeFault ∧
      turnsRead shortSchedule = turnsRead beforeFault := by
  have hboot := main_passes soundDevice 8 reset flippedSymbols runningClocks ⟨true, false, true⟩
    (fun _ => 0) (by decide) (fun _ _ _ => regionEnabled_zero)
    ⟨⟨by decide, by decide, by decide⟩, by decide, rfl, by decide, fun _ _ => rfl⟩
  have hsome : (firmwareRun .dev (fun _ => .high) 0
      (main soundDevice 8 reset flippedSymbols runningClocks ⟨true, false, true⟩ fun _ => 0)
      shortSchedule).isSome = true := by
    rw [hboot]
    decide +kernel
  obtain ⟨w, hw⟩ := Option.isSome_iff_exists.mp hsome
  obtain ⟨-, hacquired, hfault⟩ := console_excludes_acquisition .dev (fun _ => .high) 0 soundDevice
    8 reset flippedSymbols runningClocks ⟨true, false, true⟩ (fun _ => 0) hw
  obtain ⟨-, hbefore, -, hread⟩ := hfault beforeFault [.advance .faultTaskEntry 0] rfl
  exact ⟨w, hw, hacquired, hbefore, hread⟩

end EmbeddedDaq.ProcessorSharing

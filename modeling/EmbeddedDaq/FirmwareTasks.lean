import EmbeddedDaq.FaultMachine
import EmbeddedDaq.FirmwareAdcTask
import EmbeddedDaq.FirmwareBoot
import EmbeddedDaq.GeneralCooperative

set_option autoImplicit false

/-!
# The tasks on the processor

Once `main` has returned, the thread-mode executor polls the tasks it spawned,
one at a time and in any order. An `.await` gives the processor up only where
what it waits for is not ready: the ring or the serial port in `adc_task`, the
timer in `pwm_task` and `capture_task`, nothing in `fault_task_entry`.
-/
namespace EmbeddedDaq.FirmwareTasks
open FirmwareWords FirmwareAdcTask FirmwareTransport FirmwareBoot GeneralCooperative
open FaultUart FaultTask FaultMachine

abbrev TaskState : FirmwareBoot.Task → Type
  | .adcTask => AdcTask
  | .pwmTask => Unit
  | .captureTask => Unit
  | .faultTaskEntry => Machine

/-- What a step depends on: whether the awaited read is ready, and how long a test takes. -/
abbrev TaskInput : FirmwareBoot.Task → Type
  | .adcTask => Option Turn
  | .pwmTask => Unit
  | .captureTask => Unit
  | .faultTaskEntry => ℕ

def adcStep (p : Profile) (s : AdcTask) : Option Turn → Option (AdcTask × Bool)
  | none => some (s, true)
  | some turn => (iteration p s turn).map fun r => (r.1, false)

/-- Each task's next step, up to an `.await` that is not ready. -/
def taskStep (p : Profile) (wave : ℕ → Level) : Steps TaskState TaskInput
  | .adcTask => adcStep p
  | .pwmTask => fun s _ => some (s, true)
  | .captureTask => fun s _ => some (s, true)
  | .faultTaskEntry => fun m elapsed => (m.step p wave elapsed).map fun m' => (m', false)

/-- The arguments `main` spawns the tasks with; the fault task is first polled at `start`. -/
def spawnedWith (start : ℕ) : ∀ task, TaskState task
  | .adcTask => AdcTask.start Transport.new
  | .pwmTask => ()
  | .captureTask => ()
  | .faultTaskEntry => ⟨⟨FaultEngine.new, idleTx start⟩, .waiting⟩

def runnable {κ : Type} : Outcome κ → List FirmwareBoot.Task
  | .returned tasks _ => tasks
  | .memFault => []
  | .healthFailed _ _ => []
  | .noFeatures _ _ => []

def firmwareRun {κ : Type} (p : Profile) (wave : ℕ → Level) (start : ℕ) (outcome : Outcome κ)
    (acts : List (Act TaskInput)) : Option (World TaskState) :=
  runActs (taskStep p wave) (runnable outcome) ⟨spawnedWith start, none⟩ acts

end EmbeddedDaq.FirmwareTasks

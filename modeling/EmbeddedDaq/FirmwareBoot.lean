import EmbeddedDaq.FirmwareMpu
import EmbeddedDaq.GeneralFaultyMemory
import EmbeddedDaq.SharedHealth

set_option autoImplicit false

/-!
# The self tests and the start of the firmware

`main` sets up the protection unit before anything else, so every later access
goes through it: a refused access is `none`, a memory fault. The memory behind
it may be faulty. Bringing up the clocks is the vendor library's; the tests see
the frequencies it reports.
-/
namespace EmbeddedDaq.FirmwareBoot
open FirmwareWords FirmwareMpu GeneralFaultyMemory SharedHealth

/-- Memory as privileged code reaches it. -/
structure Bus (κ : Type) where
  device : Device U32 κ U32
  regions : ℕ
  mpu : Mpu

namespace Bus

section
variable {κ : Type} (bus : Bus κ)

def refuses (access : Access) (addr : U32) : Bool :=
  bus.mpu.check bus.regions true access addr = .fault

def readVolatile (addr : U32) (cells : κ → U32) : Option U32 :=
  if bus.refuses .read addr then none else some (bus.device.read addr cells)

def writeVolatile [DecidableEq κ] (addr : U32) (val : U32) (cells : κ → U32) :
    Option (κ → U32) :=
  if bus.refuses .write addr then none else some (bus.device.write addr val cells)

end

end Bus

/-- The linker's symbols in the 96 KB of RAM. The stack starts at its end, or below the statics
where `flip-link` is the linker; 4096 bytes are left for it. The test area has 64 bytes. -/
structure Symbols where
  stackStart : U32
  sramTestStart : U32
  sramTestEnd : U32
  stackStart_aligned : 4 ∣ stackStart.toNat
  stackStart_room : 0x20001000 ≤ stackStart.toNat
  stackStart_ram : stackStart.toNat ≤ 0x20018000
  start_aligned : 4 ∣ sramTestStart.toNat
  start_ram : 0x20000000 ≤ sramTestStart.toNat
  end_ram : sramTestEnd.toNat ≤ 0x20018000
  end_eq : sramTestEnd.toNat = sramTestStart.toNat + 64

/-- What `rcc::clocks` reports, in hertz. -/
structure Clocks where
  sys : Option U32
  pclk1Tim : Option U32
  hclk1 : Option U32

def checkClock (clocks : Clocks) : HealthStatus :=
  let sysHz := clocks.sys.getD 0
  let pclk1TimHz := clocks.pclk1Tim.getD 0
  let hclk1Hz := clocks.hclk1.getD 0
  if sysHz = 0 then .fail .clockOutOfRange
  else if pclk1TimHz = 0 then .fail .timerNotTicking
  else if hclk1Hz = 0 then .fail .clockHclkNotRunning
  else .ready

def canaryVal : U32 := 0xDEADBEEF

def ramPattern : U32 := 0xFEEDFACE

section
variable {κ : Type} [DecidableEq κ] (bus : Bus κ) (symbols : Symbols)

def checkStackCanary (cells : κ → U32) : Option (HealthStatus × (κ → U32)) :=
  let stackTop := symbols.stackStart
  if stackTop = 0 then some (.fail .stackCanary, cells)
  else do
    let canaryAddr := stackTop - 4096
    let cells ← bus.writeVolatile canaryAddr canaryVal cells
    let read ← bus.readVolatile canaryAddr cells
    if read ≠ canaryVal then return (.fail .stackCanary, cells)
    return (.ready, cells)

/-- `base.add(i)` on a pointer to words. -/
def wordAddr (base : U32) (i : ℕ) : U32 := base + BitVec.ofNat 32 (4 * i)

omit [DecidableEq κ] in
/-- The second loop of `check_ram`. -/
def readBack (base : U32) (cells : κ → U32) : List ℕ → Option HealthStatus
  | [] => some .ready
  | i :: rest => do
    let v ← bus.readVolatile (wordAddr base i) cells
    if v ≠ ramPattern then return .fail .ramTest
    readBack base cells rest

def checkRam (cells : κ → U32) : Option (HealthStatus × (κ → U32)) :=
  let start := symbols.sramTestStart
  let nWords := ((symbols.sramTestEnd - start) / 4).toNat
  if nWords = 0 then some (.ready, cells)
  else do
    let cells ← (List.range nWords).foldlM
      (fun cells i => bus.writeVolatile (wordAddr start i) ramPattern cells) cells
    let status ← readBack bus start cells (List.range nWords)
    return (status, cells)

/-- `health_check`: the status it stopped at, `ready` if it returned. -/
def healthCheck (clocks : Clocks) (cells : κ → U32) : Option (HealthStatus × (κ → U32)) := do
  let clockStatus := checkClock clocks
  if clockStatus ≠ .ready then return (clockStatus, cells)
  let (canaryStatus, cells) ← checkStackCanary bus symbols cells
  if canaryStatus ≠ .ready then return (canaryStatus, cells)
  checkRam bus symbols cells

end

structure Features where
  analog : Bool
  digital : Bool
  fault : Bool
  deriving DecidableEq, Repr

inductive Task where
  | adcTask
  | pwmTask
  | captureTask
  | faultTaskEntry
  deriving DecidableEq, Repr

/-- The tasks `main` spawns, in order. -/
def spawned (features : Features) : List Task :=
  (if features.analog then [.adcTask] else []) ++
    (if features.digital then [.pwmTask, .captureTask] else []) ++
    (if features.fault then [.faultTaskEntry] else [])

def flashAcr : U32 := 0x40023C00

def flashAcrVal : U32 := (5 <<< 0) ||| (1 <<< 8) ||| (1 <<< 9) ||| (1 <<< 10)

/-- How `main` ends. Tasks run once it has returned; a `loop {}` keeps them from running. -/
inductive Outcome (κ : Type) where
  | memFault
  | healthFailed (text : String) (cells : κ → U32)
  | noFeatures (tasks : List Task) (cells : κ → U32)
  | returned (tasks : List Task) (cells : κ → U32)

def Outcome.cells {κ : Type} : Outcome κ → Option (κ → U32)
  | .memFault => none
  | .healthFailed _ cells => some cells
  | .noFeatures _ cells => some cells
  | .returned _ cells => some cells

section
variable {κ : Type} [DecidableEq κ] (device : Device U32 κ U32) (regions : ℕ)

/-- `main` after `mpu::init`. -/
def mainProtected (bus : Bus κ) (symbols : Symbols) (clocks : Clocks) (features : Features)
    (cells : κ → U32) : Outcome κ :=
  match healthCheck bus symbols clocks cells with
  | none => .memFault
  | some (.fail error, cells) => .healthFailed (HealthStatus.fail error).asStr cells
  | some (.ready, cells) =>
    match bus.writeVolatile flashAcr flashAcrVal cells with
    | none => .memFault
    | some cells =>
      if features.analog || features.digital then .returned (spawned features) cells
      else .noFeatures (spawned features) cells

def main (mpu : Mpu) (symbols : Symbols) (clocks : Clocks) (features : Features)
    (cells : κ → U32) : Outcome κ :=
  mainProtected ⟨device, regions, mpu.writeRegs init⟩ symbols clocks features cells

end

end EmbeddedDaq.FirmwareBoot

import EmbeddedDaq.FirmwareWords
import EmbeddedDaq.GeneralRegions

set_option autoImplicit false

/-!
# The memory protection unit

`init` is the list of its register writes. What the unit does with them is what
the comments of the source say: `RNR` selects the region that `RBAR` and `RASR`
describe, the highest region wins on overlap, and `PRIVDEFENA` leaves privileged
code the default map elsewhere. Fields the firmware never sets (the valid bit of
`RBAR`, the disabled subregions and the type extension of `RASR`) are left out,
and so are the barriers after the last write.
-/
namespace EmbeddedDaq.FirmwareMpu
open FirmwareWords GeneralRegions

def mpuBase : U32 := 0xE000ED90

def mpuCtrl : U32 := mpuBase + 0x04
def mpuRnr : U32 := mpuBase + 0x08
def mpuRbar : U32 := mpuBase + 0x0C
def mpuRasr : U32 := mpuBase + 0x10

def ctrlEnable : U32 := 1 <<< 0
def ctrlPrivdefena : U32 := 1 <<< 2

def rasrEnable : U32 := 1 <<< 0
def rasrXn : U32 := 1 <<< 28

def apNoAccess : U32 := 0b000 <<< 24
def apFull : U32 := 0b011 <<< 24
def apRo : U32 := 0b110 <<< 24

def memNormalCached : U32 := 1 <<< 17
def memDevice : U32 := 1 <<< 16

def sizeField (sizeExp : U32) : U32 := (sizeExp - 1) <<< 1

def size256B : U32 := sizeField 8
def size128KB : U32 := sizeField 17
def size512KB : U32 := sizeField 19
def size512MB : U32 := sizeField 29

abbrev RegWrite := U32 × U32

def configureRegion (region base size ap xn mem : U32) : List RegWrite :=
  [(mpuRnr, region), (mpuRbar, base), (mpuRasr, xn ||| ap ||| mem ||| size ||| rasrEnable)]

def init : List RegWrite :=
  [(mpuCtrl, 0)] ++
    configureRegion 0 0x08000000 size512KB apRo 0 memNormalCached ++
    configureRegion 1 0x20000000 size128KB apFull rasrXn memNormalCached ++
    configureRegion 2 0x40000000 size512MB apFull rasrXn memDevice ++
    configureRegion 3 0x20016000 size256B apNoAccess rasrXn memNormalCached ++
    [(mpuCtrl, ctrlEnable ||| ctrlPrivdefena)]

/-- The registers; each region has its own base and attributes. -/
structure Mpu where
  ctrl : U32
  rnr : U32
  rbar : ℕ → U32
  rasr : ℕ → U32

namespace Mpu

def setRegion (regs : ℕ → U32) (region : U32) (val : U32) (n : ℕ) : U32 :=
  if n = region.toNat then val else regs n

/-- `write_reg` at the unit. -/
def writeReg (m : Mpu) (w : RegWrite) : Mpu :=
  if w.1 = mpuCtrl then { m with ctrl := w.2 }
  else if w.1 = mpuRnr then { m with rnr := w.2 }
  else if w.1 = mpuRbar then { m with rbar := setRegion m.rbar m.rnr w.2 }
  else if w.1 = mpuRasr then { m with rasr := setRegion m.rasr m.rnr w.2 }
  else m

def writeRegs (m : Mpu) (ws : List RegWrite) : Mpu := ws.foldl writeReg m

def enabled (m : Mpu) : Bool := m.ctrl &&& ctrlEnable = ctrlEnable

def privilegedDefault (m : Mpu) : Bool := m.ctrl &&& ctrlPrivdefena = ctrlPrivdefena

end Mpu

section
variable (rasr : U32)

def regionEnabled : Bool := rasr &&& rasrEnable = rasrEnable

/-- The region's size is `2 ^ (SIZE + 1)` bytes, `SIZE` being bits 1 to 5. -/
def sizeExponent : ℕ := ((rasr >>> 1) &&& 0x1F).toNat + 1

def apField : U32 := rasr &&& (0b111 <<< 24)

def executeNever : Bool := rasr &&& rasrXn = rasrXn

end

inductive Access where
  | read
  | write
  | execute
  deriving DecidableEq, Repr

/-- What the permission codes the firmware uses allow, privileged or not. Fetching an instruction
takes the right to read. -/
def permits (rasr : U32) (access : Access) : Bool :=
  match access with
  | .read => apField rasr = apFull || apField rasr = apRo
  | .write => apField rasr = apFull
  | .execute => (apField rasr = apFull || apField rasr = apRo) && !executeNever rasr

/-- `defaultMap`: no region has a say. -/
inductive Verdict where
  | allowed
  | fault
  | defaultMap
  deriving DecidableEq, Repr

namespace Mpu

def covers (m : Mpu) (addr : U32) (n : ℕ) : Bool :=
  regionEnabled (m.rasr n) && inBlock (m.rbar n).toNat (sizeExponent (m.rasr n)) addr.toNat

/-- The unit's answer, with `regions` regions built in. -/
def check (regions : ℕ) (m : Mpu) (privileged : Bool) (access : Access) (addr : U32) : Verdict :=
  if !m.enabled then .defaultMap
  else match highest (m.covers addr) regions with
    | some n => if permits (m.rasr n) access then .allowed else .fault
    | none => if privileged && m.privilegedDefault then .defaultMap else .fault

end Mpu

/-- What a region number, a base and attributes ask for. -/
structure Settings where
  region : U32
  base : U32
  sizeExp : ℕ
  ap : ℕ
  xn : Bool
  mem : ℕ
  /-- From 32 bytes to the whole memory. -/
  sizeExp_range : 5 ≤ sizeExp ∧ sizeExp ≤ 32
  /-- The lowest five bits of `RBAR` are no part of the address. -/
  base_range : 32 ∣ base.toNat
  ap_lt : ap < 8
  mem_lt : mem < 4

namespace Settings

def apBits (s : Settings) : U32 := BitVec.ofNat 32 s.ap <<< 24
def xnBits (s : Settings) : U32 := if s.xn then rasrXn else 0
def memBits (s : Settings) : U32 := BitVec.ofNat 32 s.mem <<< 16
def sizeBits (s : Settings) : U32 := sizeField (BitVec.ofNat 32 s.sizeExp)

def attributes (s : Settings) : U32 :=
  s.xnBits ||| s.apBits ||| s.memBits ||| s.sizeBits ||| rasrEnable

def writes (s : Settings) : List RegWrite :=
  configureRegion s.region s.base s.sizeBits s.apBits s.xnBits s.memBits

def flash : Settings where
  region := 0
  base := 0x08000000
  sizeExp := 19
  ap := 6
  xn := false
  mem := 2
  sizeExp_range := by decide
  base_range := by decide
  ap_lt := by decide
  mem_lt := by decide

def sram : Settings where
  region := 1
  base := 0x20000000
  sizeExp := 17
  ap := 3
  xn := true
  mem := 2
  sizeExp_range := by decide
  base_range := by decide
  ap_lt := by decide
  mem_lt := by decide

def peripherals : Settings where
  region := 2
  base := 0x40000000
  sizeExp := 29
  ap := 3
  xn := true
  mem := 1
  sizeExp_range := by decide
  base_range := by decide
  ap_lt := by decide
  mem_lt := by decide

def stackGuard : Settings where
  region := 3
  base := 0x20016000
  sizeExp := 8
  ap := 0
  xn := true
  mem := 2
  sizeExp_range := by decide
  base_range := by decide
  ap_lt := by decide
  mem_lt := by decide

end Settings

/-- The regions `init` configures, in its order. -/
def table : List Settings := [.flash, .sram, .peripherals, .stackGuard]

theorem init_eq : init = (mpuCtrl, 0) :: (table.flatMap Settings.writes ++
    [(mpuCtrl, ctrlEnable ||| ctrlPrivdefena)]) := rfl

end EmbeddedDaq.FirmwareMpu

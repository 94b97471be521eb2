import EmbeddedDaq.FirmwareBoot
import EmbeddedDaq.MpuProtection

set_option autoImplicit false

namespace EmbeddedDaq.BootOutcome
open FirmwareWords FirmwareMpu GeneralFaultyMemory SharedHealth FirmwareBoot MpuProtection

def canaryAddr (symbols : Symbols) : U32 := symbols.stackStart - 4096

def testWords (symbols : Symbols) : List U32 :=
  (List.range 16).map (wordAddr symbols.sramTestStart)

def CanaryClear (symbols : Symbols) : Prop :=
  (canaryAddr symbols).toNat < guardBase ∨ guardEnd ≤ (canaryAddr symbols).toNat

instance (symbols : Symbols) : Decidable (CanaryClear symbols) :=
  inferInstanceAs (Decidable (_ ∨ _))

def Clear (symbols : Symbols) : Prop :=
  symbols.sramTestEnd.toNat ≤ guardBase ∨ guardEnd ≤ symbols.sramTestStart.toNat

instance (symbols : Symbols) : Decidable (Clear symbols) :=
  inferInstanceAs (Decidable (_ ∨ _))

theorem canaryAddr_toNat (symbols : Symbols) :
    (canaryAddr symbols).toNat = symbols.stackStart.toNat - 4096 := by
  have hroom := symbols.stackStart_room
  have hword : (4096 : U32).toNat = 4096 := rfl
  have hle : (4096 : U32) ≤ symbols.stackStart := by
    rw [BitVec.le_def, hword]
    omega
  rw [canaryAddr, BitVec.toNat_sub_of_le hle, hword]

theorem testSize (symbols : Symbols) :
    ((symbols.sramTestEnd - symbols.sramTestStart) / 4).toNat = 16 := by
  have hend := symbols.end_eq
  have hle : symbols.sramTestStart ≤ symbols.sramTestEnd := by
    rw [BitVec.le_def]
    omega
  rw [BitVec.toNat_udiv, BitVec.toNat_sub_of_le hle, hend, Nat.add_sub_cancel_left]
  rfl

theorem wordAddr_toNat (symbols : Symbols) {i : ℕ} (hi : i < 16) :
    (wordAddr symbols.sramTestStart i).toNat = symbols.sramTestStart.toNat + 4 * i := by
  have hend := symbols.end_eq
  have hram := symbols.end_ram
  have hsmall : 4 * i < 2 ^ 32 := by omega
  rw [wordAddr, BitVec.toNat_add, BitVec.toNat_ofNat, Nat.mod_eq_of_lt hsmall,
    Nat.mod_eq_of_lt (by omega)]

section
variable {κ : Type} {bus : Bus κ}

/-- The bus decides as the map of `init` says. -/
def Protected (bus : Bus κ) : Prop :=
  ∀ access addr, bus.mpu.check bus.regions true access addr = documented true access addr.toNat

theorem refuses_ram (hbus : Protected bus) {access : Access} (hdata : access ≠ .execute)
    {addr : U32} (hlo : 0x20000000 ≤ addr.toNat) (hhi : addr.toNat < 0x20018000) :
    bus.refuses access addr = decide (guardBase ≤ addr.toNat ∧ addr.toNat < guardEnd) := by
  have hdevice : ¬(0x40000000 ≤ addr.toNat ∧ addr.toNat < 0x60000000) := by omega
  have hsram : 0x20000000 ≤ addr.toNat ∧ addr.toNat < 0x20020000 := by omega
  unfold Bus.refuses
  rw [hbus]
  unfold documented guardBase guardEnd
  rw [if_neg hdevice, if_pos hsram, if_neg hdata]
  split
  · next h => simp [h]
  · next h => simp [h]

theorem refuses_word (hbus : Protected bus) {access : Access} (hdata : access ≠ .execute)
    (symbols : Symbols) {i : ℕ} (hi : i < 16) :
    bus.refuses access (wordAddr symbols.sramTestStart i) =
      decide (guardBase ≤ symbols.sramTestStart.toNat + 4 * i ∧
        symbols.sramTestStart.toNat + 4 * i < guardEnd) := by
  have hword := wordAddr_toNat symbols hi
  have hstart := symbols.start_ram
  have hend := symbols.end_eq
  have hram := symbols.end_ram
  rw [refuses_ram hbus hdata (by omega) (by omega), hword]

theorem refuses_word_clear (hbus : Protected bus) {access : Access} (hdata : access ≠ .execute)
    {symbols : Symbols} (hclear : Clear symbols) {i : ℕ} (hi : i < 16) :
    bus.refuses access (wordAddr symbols.sramTestStart i) = false := by
  have hend := symbols.end_eq
  rw [refuses_word hbus hdata symbols hi, decide_eq_false_iff_not]
  unfold Clear at hclear
  omega

theorem refuses_canary (hbus : Protected bus) {access : Access} (hdata : access ≠ .execute)
    (symbols : Symbols) :
    bus.refuses access (canaryAddr symbols) = decide (¬CanaryClear symbols) := by
  have hroom := symbols.stackStart_room
  have hram := symbols.stackStart_ram
  have haddr := canaryAddr_toNat symbols
  rw [refuses_ram hbus hdata (by omega) (by omega), decide_eq_decide]
  unfold CanaryClear
  omega

theorem refuses_flashAcr (hbus : Protected bus) : bus.refuses .write flashAcr = false := by
  unfold Bus.refuses
  rw [hbus]
  decide

variable [DecidableEq κ]

theorem writeVolatile_eq {addr : U32} (val : U32) (cells : κ → U32)
    (h : bus.refuses .write addr = false) :
    bus.writeVolatile addr val cells = some (bus.device.write addr val cells) := by
  unfold Bus.writeVolatile
  rw [h]
  rfl

omit [DecidableEq κ] in
theorem readVolatile_eq {addr : U32} (cells : κ → U32) (h : bus.refuses .read addr = false) :
    bus.readVolatile addr cells = some (bus.device.read addr cells) := by
  unfold Bus.readVolatile
  rw [h]
  rfl

omit [DecidableEq κ] in
theorem stackStart_ne_zero (symbols : Symbols) : symbols.stackStart ≠ 0 := by
  intro h
  have hroom := symbols.stackStart_room
  rw [h] at hroom
  exact absurd hroom (by decide)

theorem checkStackCanary_clear (hbus : Protected bus) {symbols : Symbols}
    (hclear : CanaryClear symbols) (cells : κ → U32) :
    checkStackCanary bus symbols cells =
      some (if bus.device.Keeps (canaryAddr symbols) canaryVal then .ready
          else .fail .stackCanary,
        bus.device.write (canaryAddr symbols) canaryVal cells) := by
  have hallowed : ∀ {access}, access ≠ .execute →
      bus.refuses access (canaryAddr symbols) = false := by
    intro access hdata
    rw [refuses_canary hbus hdata]
    exact decide_eq_false (not_not.mpr hclear)
  have haddr : symbols.stackStart - 4096 = canaryAddr symbols := rfl
  have hread : bus.device.read (canaryAddr symbols)
      (bus.device.write (canaryAddr symbols) canaryVal cells) =
        bus.device.keep (bus.device.select (canaryAddr symbols)) canaryVal := Device.write_select
  unfold checkStackCanary
  simp only [stackStart_ne_zero, haddr, ↓reduceIte,
    writeVolatile_eq _ cells (hallowed (by decide)), readVolatile_eq _ (hallowed (by decide)),
    hread, Option.bind_eq_bind, Option.bind_some]
  by_cases hkeeps : bus.device.Keeps (canaryAddr symbols) canaryVal
  · have hsame : ¬bus.device.keep (bus.device.select (canaryAddr symbols)) canaryVal ≠
        canaryVal := not_not.mpr hkeeps
    rw [if_pos hkeeps, if_neg hsame]
    rfl
  · have hother : bus.device.keep (bus.device.select (canaryAddr symbols)) canaryVal ≠
        canaryVal := hkeeps
    rw [if_neg hkeeps, if_pos hother]
    rfl

omit [DecidableEq κ] in
theorem readBack_eq {base : U32} {cells : κ → U32} {is : List ℕ}
    (hread : ∀ i ∈ is, bus.readVolatile (wordAddr base i) cells =
      some (bus.device.keep (bus.device.select (wordAddr base i)) ramPattern)) :
    readBack bus base cells is =
      some (if ∀ i ∈ is, bus.device.Keeps (wordAddr base i) ramPattern then .ready
        else .fail .ramTest) := by
  induction is with
  | nil => simp [readBack]
  | cons i is ih =>
    have hrest := ih fun j hj => hread j (List.mem_cons_of_mem i hj)
    rw [readBack, hread i List.mem_cons_self]
    simp only [Option.bind_eq_bind, Option.bind_some, hrest, List.forall_mem_cons]
    by_cases hkeeps : bus.device.Keeps (wordAddr base i) ramPattern
    · have hsame : ¬bus.device.keep (bus.device.select (wordAddr base i)) ramPattern ≠
          ramPattern := not_not.mpr hkeeps
      rw [if_neg hsame]
      simp only [hkeeps, true_and]
    · have hother : bus.device.keep (bus.device.select (wordAddr base i)) ramPattern ≠
          ramPattern := hkeeps
      rw [if_pos hother, if_neg fun h => hkeeps h.1]
      rfl

theorem writeLoop_eq (bus : Bus κ) (base : U32) (is : List ℕ) (cells : κ → U32) :
    is.foldlM (fun cells i => bus.writeVolatile (wordAddr base i) ramPattern cells) cells =
      is.foldlM (fun cells i =>
        if bus.refuses .write (wordAddr base i) then none
        else some (bus.device.write (wordAddr base i) ramPattern cells)) cells := rfl

theorem checkRam_clear (hbus : Protected bus) {symbols : Symbols} (hclear : Clear symbols)
    (cells : κ → U32) :
    checkRam bus symbols cells =
      some (if ∀ a ∈ testWords symbols, bus.device.Keeps a ramPattern then .ready
          else .fail .ramTest,
        bus.device.fill ramPattern (testWords symbols) cells) := by
  have hfill : (List.range 16).foldl (fun cells i =>
      bus.device.write (wordAddr symbols.sramTestStart i) ramPattern cells) cells =
        bus.device.fill ramPattern (testWords symbols) cells := by
    rw [Device.fill, testWords, List.foldl_map]
  have hread : ∀ i ∈ List.range 16,
      bus.readVolatile (wordAddr symbols.sramTestStart i)
        (bus.device.fill ramPattern (testWords symbols) cells) =
      some (bus.device.keep (bus.device.select (wordAddr symbols.sramTestStart i))
        ramPattern) := by
    intro i hi
    have hallowed := refuses_word_clear hbus (by decide : Access.read ≠ .execute) hclear
      (List.mem_range.mp hi)
    have hmem : wordAddr symbols.sramTestStart i ∈ testWords symbols := List.mem_map_of_mem hi
    rw [readVolatile_eq _ hallowed, Device.read_fill hmem]
  have hwords : (∀ i ∈ List.range 16,
      bus.device.Keeps (wordAddr symbols.sramTestStart i) ramPattern) ↔
        ∀ a ∈ testWords symbols, bus.device.Keeps a ramPattern := by
    rw [testWords, List.forall_mem_map]
  unfold checkRam
  simp only [testSize]
  rw [if_neg (by decide), writeLoop_eq,
    foldlM_guarded_eq_some fun i hi => refuses_word_clear hbus (by decide) hclear
      (List.mem_range.mp hi), hfill]
  simp only [Option.bind_eq_bind, Option.bind_some, readBack_eq hread, hwords]
  rfl

end

def Ticking (clocks : Clocks) : Prop :=
  clocks.sys.getD 0 ≠ 0 ∧ clocks.pclk1Tim.getD 0 ≠ 0 ∧ clocks.hclk1.getD 0 ≠ 0

theorem checkClock_ready_iff (clocks : Clocks) : checkClock clocks = .ready ↔ Ticking clocks := by
  unfold checkClock Ticking
  by_cases hsys : clocks.sys.getD 0 = 0
  · simp only [hsys, ↓reduceIte, reduceCtorEq, ne_eq, not_true_eq_false, false_and]
  · by_cases htim : clocks.pclk1Tim.getD 0 = 0
    · simp only [hsys, htim, ↓reduceIte, reduceCtorEq, ne_eq, not_true_eq_false, false_and,
        and_false]
    · by_cases hhclk : clocks.hclk1.getD 0 = 0
      · simp only [hsys, htim, hhclk, ↓reduceIte, reduceCtorEq, ne_eq, not_true_eq_false, and_false]
      · simp only [hsys, htim, hhclk, ↓reduceIte, ne_eq, not_false_eq_true, and_self]

structure Passes {κ : Type} (device : Device U32 κ U32) (symbols : Symbols) (clocks : Clocks) :
    Prop where
  ticking : Ticking clocks
  reached : CanaryClear symbols
  canary : device.Keeps (canaryAddr symbols) canaryVal
  clear : Clear symbols
  words : ∀ a ∈ testWords symbols, device.Keeps a ramPattern

theorem passes_iff {κ : Type} {device : Device U32 κ U32} {symbols : Symbols} {clocks : Clocks} :
    Passes device symbols clocks ↔ Ticking clocks ∧ CanaryClear symbols ∧
      device.Keeps (canaryAddr symbols) canaryVal ∧ Clear symbols ∧
        ∀ a ∈ testWords symbols, device.Keeps a ramPattern :=
  ⟨fun h => ⟨h.ticking, h.reached, h.canary, h.clear, h.words⟩,
    fun ⟨ht, hr, hc, hl, hw⟩ => ⟨ht, hr, hc, hl, hw⟩⟩

section
variable {κ : Type} [DecidableEq κ]

def afterCanary (device : Device U32 κ U32) (symbols : Symbols) (cells : κ → U32) : κ → U32 :=
  device.write (canaryAddr symbols) canaryVal cells

def afterTests (device : Device U32 κ U32) (symbols : Symbols) (cells : κ → U32) : κ → U32 :=
  device.fill ramPattern (testWords symbols) (afterCanary device symbols cells)

def afterFlash (device : Device U32 κ U32) (symbols : Symbols) (cells : κ → U32) : κ → U32 :=
  device.write flashAcr flashAcrVal (afterTests device symbols cells)

/-- The cells the tests and the flash setup reach. -/
def Reaches (device : Device U32 κ U32) (symbols : Symbols) (c : κ) : Prop :=
  c = device.select (canaryAddr symbols) ∨ (∃ a ∈ testWords symbols, c = device.select a) ∨
    c = device.select flashAcr

section
variable {device : Device U32 κ U32} {symbols : Symbols} {c : κ}

theorem afterCanary_frame (hc : ¬Reaches device symbols c) (cells : κ → U32) :
    afterCanary device symbols cells c = cells c :=
  Device.write_frame fun h => hc (.inl h)

theorem afterTests_frame (hc : ¬Reaches device symbols c) (cells : κ → U32) :
    afterTests device symbols cells c = cells c := by
  unfold afterTests
  rw [Device.fill_frame fun a ha h => hc (.inr (.inl ⟨a, ha, h⟩)), afterCanary_frame hc]

theorem afterFlash_frame (hc : ¬Reaches device symbols c) (cells : κ → U32) :
    afterFlash device symbols cells c = cells c := by
  unfold afterFlash
  rw [Device.write_frame fun h => hc (.inr (.inr h)), afterTests_frame hc]

end

section
variable {bus : Bus κ} {symbols : Symbols} {clocks : Clocks} {cells : κ → U32}

theorem healthCheck_ticking (hticking : Ticking clocks) :
    healthCheck bus symbols clocks cells =
      (checkStackCanary bus symbols cells).bind fun r =>
        if r.1 ≠ .ready then some r else checkRam bus symbols r.2 := by
  unfold healthCheck
  rw [(checkClock_ready_iff clocks).mpr hticking]
  rfl

theorem healthCheck_kept (hbus : Protected bus) (hticking : Ticking clocks)
    (hreached : CanaryClear symbols) (hkeeps : bus.device.Keeps (canaryAddr symbols) canaryVal) :
    healthCheck bus symbols clocks cells =
      checkRam bus symbols (afterCanary bus.device symbols cells) := by
  rw [healthCheck_ticking hticking, checkStackCanary_clear hbus hreached, if_pos hkeeps]
  rfl

theorem healthCheck_passes (hbus : Protected bus) (h : Passes bus.device symbols clocks) :
    healthCheck bus symbols clocks cells =
      some (.ready, afterTests bus.device symbols cells) := by
  rw [healthCheck_kept hbus h.ticking h.reached h.canary, checkRam_clear hbus h.clear,
    if_pos h.words]
  rfl

end

section
variable (device : Device U32 κ U32) (regions : ℕ) (mpu : Mpu) (symbols : Symbols)
  (clocks : Clocks) (features : Features) (cells : κ → U32)

/-- How `main` may end, and why. -/
inductive Story : Outcome κ → Prop
  | clock (still : ¬Ticking clocks) : Story (.healthFailed (checkClock clocks).asStr cells)
  | canaryGuarded (ticking : Ticking clocks) (guarded : ¬CanaryClear symbols) : Story .memFault
  | canary (ticking : Ticking clocks) (reached : CanaryClear symbols)
      (lost : ¬device.Keeps (canaryAddr symbols) canaryVal) :
      Story (.healthFailed "FAIL:stack\n" (afterCanary device symbols cells))
  | guarded (ticking : Ticking clocks) (reached : CanaryClear symbols)
      (canary : device.Keeps (canaryAddr symbols) canaryVal) (guarded : ¬Clear symbols) :
      Story .memFault
  | words (ticking : Ticking clocks) (reached : CanaryClear symbols)
      (canary : device.Keeps (canaryAddr symbols) canaryVal) (clear : Clear symbols)
      (lost : ¬∀ a ∈ testWords symbols, device.Keeps a ramPattern) :
      Story (.healthFailed "FAIL:ram\n" (afterTests device symbols cells))
  | noFeatures (passes : Passes device symbols clocks)
      (unfeatured : features.analog = false ∧ features.digital = false) :
      Story (.noFeatures (spawned features) (afterFlash device symbols cells))
  | returned (passes : Passes device symbols clocks)
      (featured : features.analog = true ∨ features.digital = true) :
      Story (.returned (spawned features) (afterFlash device symbols cells))

section
variable {device regions mpu symbols clocks cells}

end

omit [DecidableEq κ] in
theorem protected_init (hregions : 4 ≤ regions)
    (hunused : ∀ n, 4 ≤ n → n < regions → regionEnabled (mpu.rasr n) = false) :
    Protected (Bus.mk device regions (mpu.writeRegs init)) :=
  fun access addr => check_init mpu regions true access addr hregions hunused

/-- A board that passes the tests leaves it to the features whether `main` returns. -/
theorem main_passes (hregions : 4 ≤ regions)
    (hunused : ∀ n, 4 ≤ n → n < regions → regionEnabled (mpu.rasr n) = false)
    (h : Passes device symbols clocks) :
    main device regions mpu symbols clocks features cells =
      if features.analog || features.digital then
        .returned (spawned features) (afterFlash device symbols cells)
      else .noFeatures (spawned features) (afterFlash device symbols cells) := by
  have hbus := protected_init device regions mpu hregions hunused
  have hflash := writeVolatile_eq flashAcrVal (afterTests device symbols cells)
    (refuses_flashAcr hbus)
  unfold main mainProtected
  rw [healthCheck_passes hbus h]
  dsimp only
  rw [hflash]
  rfl

end

namespace Story

variable {device : Device U32 κ U32} {symbols : Symbols} {clocks : Clocks} {features : Features}
  {cells : κ → U32} {outcome : Outcome κ}

theorem frame (h : Story device symbols clocks features cells outcome) {after : κ → U32}
    (hafter : outcome.cells = some after) {c : κ} (hc : ¬Reaches device symbols c) :
    after c = cells c := by
  cases h with
  | clock still =>
    obtain rfl := Option.some.inj hafter
    rfl
  | canaryGuarded ticking guarded => cases hafter
  | canary ticking reached lost =>
    obtain rfl := Option.some.inj hafter
    exact afterCanary_frame hc cells
  | guarded ticking reached canary guarded => cases hafter
  | words ticking reached canary clear lost =>
    obtain rfl := Option.some.inj hafter
    exact afterTests_frame hc cells
  | noFeatures passes unfeatured =>
    obtain rfl := Option.some.inj hafter
    exact afterFlash_frame hc cells
  | returned passes featured =>
    obtain rfl := Option.some.inj hafter
    exact afterFlash_frame hc cells

section
variable (h : Story device symbols clocks features cells outcome)
include h

theorem returned_iff : (∃ after, outcome = .returned (spawned features) after) ↔
    Passes device symbols clocks ∧ (features.analog = true ∨ features.digital = true) := by
  cases h with
  | clock still => simp [passes_iff, still]
  | canaryGuarded ticking guarded => simp [passes_iff, guarded]
  | canary ticking reached lost => simp [passes_iff, lost]
  | guarded ticking reached canary guarded => simp [passes_iff, guarded]
  | words ticking reached canary clear lost =>
    simp only [reduceCtorEq, exists_false, passes_iff, lost, and_false, false_and]
  | noFeatures passes unfeatured => simp [unfeatured]
  | returned passes featured => exact ⟨fun _ => ⟨passes, featured⟩, fun _ => ⟨_, rfl⟩⟩

end

end Story

section
variable (device : Device U32 κ U32) (regions : ℕ) (mpu : Mpu) (symbols : Symbols)
  (clocks : Clocks) (features : Features) (cells : κ → U32)

end

end

def soundDevice : Device U32 U32 U32 := ⟨id, fun _ val => val⟩

/-- `flip-link` with the test area as the only static. -/
def flippedSymbols : Symbols where
  stackStart := 0x20017FC0
  sramTestStart := 0x20017FC0
  sramTestEnd := 0x20018000
  stackStart_aligned := by decide
  stackStart_room := by decide
  stackStart_ram := by decide
  start_aligned := by decide
  start_ram := by decide
  end_ram := by decide
  end_eq := rfl

def runningClocks : Clocks := ⟨some 84000000, some 84000000, some 84000000⟩

end EmbeddedDaq.BootOutcome

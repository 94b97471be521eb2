import EmbeddedDaq.FirmwareMpu

set_option autoImplicit false

namespace EmbeddedDaq.MpuProtection
open FirmwareWords GeneralRegions FirmwareMpu

theorem fields_eq : ∀ (e : Fin 32) (a : Fin 8) (xn : Bool) (mem : Fin 4),
    let rasr := (if xn then rasrXn else 0) ||| (BitVec.ofNat 32 a.val <<< 24) |||
      (BitVec.ofNat 32 mem.val <<< 16) ||| sizeField (BitVec.ofNat 32 (e.val + 1)) ||| rasrEnable
    regionEnabled rasr = true ∧ sizeExponent rasr = e.val + 1 ∧
      apField rasr = BitVec.ofNat 32 a.val <<< 24 ∧ executeNever rasr = xn := by
  decide +kernel

theorem attributes_fields (s : Settings) :
    regionEnabled s.attributes = true ∧ sizeExponent s.attributes = s.sizeExp ∧
      apField s.attributes = s.apBits ∧ executeNever s.attributes = s.xn := by
  obtain ⟨hmin, hmax⟩ := s.sizeExp_range
  have hpos : 1 ≤ s.sizeExp := by omega
  have h := fields_eq ⟨s.sizeExp - 1, by omega⟩ ⟨s.ap, s.ap_lt⟩ s.xn ⟨s.mem, s.mem_lt⟩
  simp only [Nat.sub_add_cancel hpos] at h
  exact h

theorem writeRegs_append (m : Mpu) (ws vs : List RegWrite) :
    m.writeRegs (ws ++ vs) = (m.writeRegs ws).writeRegs vs := List.foldl_append

theorem writeReg_ctrl (m : Mpu) (val : U32) :
    m.writeReg (mpuCtrl, val) = { m with ctrl := val } := if_pos rfl

theorem writeRegs_configureRegion (m : Mpu) (region base size ap xn mem : U32) :
    m.writeRegs (configureRegion region base size ap xn mem) =
      { m with
        rnr := region
        rbar := Mpu.setRegion m.rbar region base
        rasr := Mpu.setRegion m.rasr region (xn ||| ap ||| mem ||| size ||| rasrEnable) } := by
  have hrnr : mpuRnr ≠ mpuCtrl := by decide
  have hrbar : mpuRbar ≠ mpuCtrl ∧ mpuRbar ≠ mpuRnr := by decide
  have hrasr : mpuRasr ≠ mpuCtrl ∧ mpuRasr ≠ mpuRnr ∧ mpuRasr ≠ mpuRbar := by decide
  simp only [configureRegion, Mpu.writeRegs, List.foldl_cons, List.foldl_nil, Mpu.writeReg, hrnr,
    hrbar, hrasr, ↓reduceIte]

theorem covers_eq (m : Mpu) (addr : U32) (n : ℕ) : m.covers addr n =
    (regionEnabled (m.rasr n) && inBlock (m.rbar n).toNat (sizeExponent (m.rasr n)) addr.toNat) :=
  rfl

section
variable (m : Mpu) (s : Settings)

theorem writes_eq : m.writeRegs s.writes = { m with
    rnr := s.region
    rbar := Mpu.setRegion m.rbar s.region s.base
    rasr := Mpu.setRegion m.rasr s.region s.attributes } := writeRegs_configureRegion ..

theorem writes_entry : (m.writeRegs s.writes).rbar s.region.toNat = s.base ∧
    (m.writeRegs s.writes).rasr s.region.toNat = s.attributes := by
  rw [writes_eq]
  exact ⟨if_pos rfl, if_pos rfl⟩

theorem writes_frame {n : ℕ} (hn : n ≠ s.region.toNat) :
    (m.writeRegs s.writes).rbar n = m.rbar n ∧ (m.writeRegs s.writes).rasr n = m.rasr n := by
  rw [writes_eq]
  exact ⟨if_neg hn, if_neg hn⟩

end

theorem covers_entry {m : Mpu} {n : ℕ} {s : Settings} (hbase : m.rbar n = s.base)
    (hattributes : m.rasr n = s.attributes) (addr : U32) :
    m.covers addr n = inBlock s.base.toNat s.sizeExp addr.toNat := by
  obtain ⟨henabled, hsize, -, -⟩ := attributes_fields s
  rw [covers_eq, hbase, hattributes, henabled, hsize, Bool.true_and]

theorem inBlock_settings_iff (s : Settings) :
    (∀ addr : U32, inBlock s.base.toNat s.sizeExp addr.toNat = true ↔
      s.base.toNat ≤ addr.toNat ∧ addr.toNat < s.base.toNat + 2 ^ s.sizeExp) ↔
        2 ^ s.sizeExp ∣ s.base.toNat := by
  rw [← inBlock_exact_iff s.base.isLt]
  constructor
  · intro h addr haddr
    have hword : (BitVec.ofNat 32 addr).toNat = addr := by
      rw [BitVec.toNat_ofNat, Nat.mod_eq_of_lt haddr]
    have hat := h (BitVec.ofNat 32 addr)
    rwa [hword] at hat
  · intro h addr
    exact h addr.toNat addr.isLt

/-- A region gets the permissions asked for, and the addresses too if its base is aligned to its
size; the other regions and the switch stay as they are. -/
theorem configureRegion_exact (m : Mpu) (s : Settings) :
    ((∀ addr : U32, (m.writeRegs s.writes).covers addr s.region.toNat = true ↔
      s.base.toNat ≤ addr.toNat ∧ addr.toNat < s.base.toNat + 2 ^ s.sizeExp) ↔
        2 ^ s.sizeExp ∣ s.base.toNat) ∧
      apField ((m.writeRegs s.writes).rasr s.region.toNat) = s.apBits ∧
      executeNever ((m.writeRegs s.writes).rasr s.region.toNat) = s.xn ∧
      (∀ n, n ≠ s.region.toNat → (m.writeRegs s.writes).rasr n = m.rasr n ∧
        ∀ addr, (m.writeRegs s.writes).covers addr n = m.covers addr n) ∧
      (m.writeRegs s.writes).enabled = m.enabled := by
  obtain ⟨-, -, hap, hxn⟩ := attributes_fields s
  obtain ⟨hbase, hattributes⟩ := writes_entry m s
  refine ⟨?_, ?_, ?_, ?_, ?_⟩
  · simp only [covers_entry hbase hattributes]
    exact inBlock_settings_iff s
  · rw [hattributes, hap]
  · rw [hattributes, hxn]
  · intro n hn
    obtain ⟨hbar, hasr⟩ := writes_frame m s hn
    refine ⟨hasr, ?_⟩
    intro addr
    rw [covers_eq, covers_eq, hbar, hasr]
  · rw [writes_eq]
    rfl

def reset : Mpu := ⟨0, 0, fun _ => 0, fun _ => 0⟩

theorem configureRegion_exact_init :
    (∀ addr : U32, (reset.writeRegs Settings.flash.writes).covers addr 0 = true ↔
      0x08000000 ≤ addr.toNat ∧ addr.toNat < 0x08000000 + 2 ^ 19) ∧
    (∀ addr : U32, (reset.writeRegs Settings.sram.writes).covers addr 1 = true ↔
      0x20000000 ≤ addr.toNat ∧ addr.toNat < 0x20000000 + 2 ^ 17) ∧
    (∀ addr : U32, (reset.writeRegs Settings.peripherals.writes).covers addr 2 = true ↔
      0x40000000 ≤ addr.toNat ∧ addr.toNat < 0x40000000 + 2 ^ 29) ∧
    (∀ addr : U32, (reset.writeRegs Settings.stackGuard.writes).covers addr 3 = true ↔
      0x20016000 ≤ addr.toNat ∧ addr.toNat < 0x20016000 + 2 ^ 8) :=
  ⟨(configureRegion_exact reset .flash).1.mpr (by decide),
    (configureRegion_exact reset .sram).1.mpr (by decide),
    (configureRegion_exact reset .peripherals).1.mpr (by decide),
    (configureRegion_exact reset .stackGuard).1.mpr (by decide)⟩

theorem regionWrites_ne_ctrl (s : Settings) : ∀ w ∈ s.writes, w.1 ≠ mpuCtrl := by
  have hrnr : mpuRnr ≠ mpuCtrl := by decide
  have hrbar : mpuRbar ≠ mpuCtrl := by decide
  have hrasr : mpuRasr ≠ mpuCtrl := by decide
  simp only [Settings.writes, configureRegion, List.forall_mem_cons]
  exact ⟨hrnr, hrbar, hrasr, fun w hw => absurd hw List.not_mem_nil⟩

theorem tableWrites_ne_ctrl : ∀ w ∈ table.flatMap Settings.writes, w.1 ≠ mpuCtrl := by
  intro w hw
  obtain ⟨s, -, hs⟩ := List.mem_flatMap.mp hw
  exact regionWrites_ne_ctrl s w hs

theorem writeRegs_ctrl {ws : List RegWrite} (h : ∀ w ∈ ws, w.1 ≠ mpuCtrl) (m : Mpu) :
    (m.writeRegs ws).ctrl = m.ctrl := by
  induction ws generalizing m with
  | nil => rfl
  | cons w ws ih =>
    have hhead : (m.writeReg w).ctrl = m.ctrl := by
      unfold Mpu.writeReg
      rw [if_neg (h w List.mem_cons_self)]
      split
      · rfl
      · split
        · rfl
        · split <;> rfl
    change ((m.writeReg w).writeRegs ws).ctrl = m.ctrl
    rw [ih (fun v hv => h v (List.mem_cons_of_mem w hv)), hhead]

/-- Between the first write and the last the unit is off, whatever it was before. -/
theorem init_off (m : Mpu) (k : ℕ) (hfirst : 0 < k) (hlast : k < init.length) :
    (m.writeRegs (init.take k)).enabled = false := by
  obtain ⟨j, rfl⟩ := Nat.exists_eq_succ_of_ne_zero (Nat.ne_of_gt hfirst)
  have hj : j ≤ (table.flatMap Settings.writes).length := by
    rw [init_eq, List.length_cons, List.length_append, List.length_singleton] at hlast
    omega
  have hmiddle : ∀ w ∈ (table.flatMap Settings.writes).take j, w.1 ≠ mpuCtrl :=
    fun w hw => tableWrites_ne_ctrl w (List.mem_of_mem_take hw)
  have hctrl : (m.writeRegs (init.take (j + 1))).ctrl = 0 := by
    rw [init_eq, List.take_succ_cons, List.take_append_of_le_length hj]
    change ((m.writeReg (mpuCtrl, 0)).writeRegs ((table.flatMap Settings.writes).take j)).ctrl = 0
    rw [writeRegs_ctrl hmiddle, writeReg_ctrl]
  unfold Mpu.enabled
  rw [hctrl]
  rfl

section
variable {entries : List Settings} {n : ℕ}

theorem entries_frame (hn : ∀ s ∈ entries, n ≠ s.region.toNat) (m : Mpu) :
    (m.writeRegs (entries.flatMap Settings.writes)).rbar n = m.rbar n ∧
      (m.writeRegs (entries.flatMap Settings.writes)).rasr n = m.rasr n := by
  induction entries generalizing m with
  | nil => exact ⟨rfl, rfl⟩
  | cons s entries ih =>
    obtain ⟨hbar, hasr⟩ := ih (fun t ht => hn t (List.mem_cons_of_mem s ht)) (m.writeRegs s.writes)
    obtain ⟨hbar', hasr'⟩ := writes_frame m s (hn s List.mem_cons_self)
    rw [List.flatMap_cons, writeRegs_append]
    exact ⟨hbar.trans hbar', hasr.trans hasr'⟩

theorem entries_region (hdistinct : (entries.map fun s => s.region.toNat).Nodup) (m : Mpu)
    {s : Settings} (hs : s ∈ entries) :
    (m.writeRegs (entries.flatMap Settings.writes)).rbar s.region.toNat = s.base ∧
      (m.writeRegs (entries.flatMap Settings.writes)).rasr s.region.toNat = s.attributes := by
  induction entries generalizing m with
  | nil => cases hs
  | cons t entries ih =>
    obtain ⟨hfresh, hrest⟩ := List.nodup_cons.mp hdistinct
    rw [List.flatMap_cons, writeRegs_append]
    rcases List.mem_cons.mp hs with rfl | hlater
    · have hother : ∀ t ∈ entries, s.region.toNat ≠ t.region.toNat := by
        intro t ht heq
        exact hfresh (List.mem_map.mpr ⟨t, ht, heq.symm⟩)
      obtain ⟨hbar, hasr⟩ := entries_frame hother (m.writeRegs s.writes)
      obtain ⟨hbase, hattributes⟩ := writes_entry m s
      exact ⟨hbar.trans hbase, hasr.trans hattributes⟩
    · exact ih hrest (m.writeRegs t.writes) hlater

end

theorem writeRegs_bracket (m : Mpu) (ws : List RegWrite) (before after : U32) :
    m.writeRegs ((mpuCtrl, before) :: (ws ++ [(mpuCtrl, after)])) =
      { ({ m with ctrl := before }).writeRegs ws with ctrl := after } := by
  have hfirst : m.writeRegs ((mpuCtrl, before) :: (ws ++ [(mpuCtrl, after)])) =
      (m.writeReg (mpuCtrl, before)).writeRegs (ws ++ [(mpuCtrl, after)]) := rfl
  rw [hfirst, writeReg_ctrl, writeRegs_append]
  exact writeReg_ctrl _ _

section
variable (m : Mpu)

theorem init_registers (n : ℕ) :
    (m.writeRegs init).rbar n =
        (({ m with ctrl := 0 }).writeRegs (table.flatMap Settings.writes)).rbar n ∧
      (m.writeRegs init).rasr n =
        (({ m with ctrl := 0 }).writeRegs (table.flatMap Settings.writes)).rasr n := by
  rw [init_eq, writeRegs_bracket]
  exact ⟨rfl, rfl⟩

theorem ctrl_switches : (ctrlEnable ||| ctrlPrivdefena) &&& ctrlEnable = ctrlEnable ∧
    (ctrlEnable ||| ctrlPrivdefena) &&& ctrlPrivdefena = ctrlPrivdefena := by decide

theorem init_enabled : (m.writeRegs init).enabled = true ∧
    (m.writeRegs init).privilegedDefault = true := by
  rw [init_eq, writeRegs_bracket]
  exact ⟨decide_eq_true ctrl_switches.1, decide_eq_true ctrl_switches.2⟩

theorem table_distinct : (table.map fun s => s.region.toNat).Nodup := by decide

theorem init_region {s : Settings} (hs : s ∈ table) :
    (m.writeRegs init).rbar s.region.toNat = s.base ∧
      (m.writeRegs init).rasr s.region.toNat = s.attributes := by
  obtain ⟨hbar, hasr⟩ := init_registers m s.region.toNat
  rw [hbar, hasr]
  exact entries_region table_distinct _ hs

theorem table_regions : ∀ s ∈ table, s.region.toNat < 4 := by decide

theorem init_unused {n : ℕ} (hn : 4 ≤ n) : (m.writeRegs init).rasr n = m.rasr n := by
  have hother : ∀ s ∈ table, n ≠ s.region.toNat := by
    intro s hs
    have hlt := table_regions s hs
    omega
  rw [(init_registers m n).2]
  exact (entries_frame hother _).2

theorem table_aligned : ∀ s ∈ table, 2 ^ s.sizeExp ∣ s.base.toNat := by decide

theorem init_covers (addr : U32) {s : Settings} (hs : s ∈ table) :
    (m.writeRegs init).covers addr s.region.toNat =
      decide (s.base.toNat ≤ addr.toNat ∧ addr.toNat < s.base.toNat + 2 ^ s.sizeExp) := by
  obtain ⟨hbase, hattributes⟩ := init_region m hs
  have hexact := (inBlock_settings_iff s).mpr (table_aligned s hs) addr
  rw [covers_entry hbase hattributes, Bool.eq_iff_iff, hexact, decide_eq_true_iff]

end

theorem init_covers_table (m : Mpu) (addr : U32) :
    (m.writeRegs init).covers addr 0 =
        decide (0x08000000 ≤ addr.toNat ∧ addr.toNat < 0x08080000) ∧
      (m.writeRegs init).covers addr 1 =
        decide (0x20000000 ≤ addr.toNat ∧ addr.toNat < 0x20020000) ∧
      (m.writeRegs init).covers addr 2 =
        decide (0x40000000 ≤ addr.toNat ∧ addr.toNat < 0x60000000) ∧
      (m.writeRegs init).covers addr 3 =
        decide (0x20016000 ≤ addr.toNat ∧ addr.toNat < 0x20016100) := by
  have hcovers := fun s hs => init_covers m addr (s := s) hs
  simp only [table, List.forall_mem_cons] at hcovers
  obtain ⟨hflash, hsram, hperipherals, hguard, -⟩ := hcovers
  exact ⟨hflash, hsram, hperipherals, hguard⟩

theorem init_rasr_table (m : Mpu) :
    (m.writeRegs init).rasr 0 = Settings.flash.attributes ∧
      (m.writeRegs init).rasr 1 = Settings.sram.attributes ∧
      (m.writeRegs init).rasr 2 = Settings.peripherals.attributes ∧
      (m.writeRegs init).rasr 3 = Settings.stackGuard.attributes := by
  have hrasr := fun s hs => (init_region m (s := s) hs).2
  simp only [table, List.forall_mem_cons] at hrasr
  obtain ⟨hflash, hsram, hperipherals, hguard, -⟩ := hrasr
  exact ⟨hflash, hsram, hperipherals, hguard⟩

/-- The comments of `init` as a map of the address space. -/
def documented (privileged : Bool) (access : Access) (addr : ℕ) : Verdict :=
  if 0x20016000 ≤ addr ∧ addr < 0x20016100 then .fault
  else if 0x40000000 ≤ addr ∧ addr < 0x60000000 then
    if access = .execute then .fault else .allowed
  else if 0x20000000 ≤ addr ∧ addr < 0x20020000 then
    if access = .execute then .fault else .allowed
  else if 0x08000000 ≤ addr ∧ addr < 0x08080000 then
    if access = .write then .fault else .allowed
  else if privileged then .defaultMap else .fault

def regionVerdict (rasr : U32) (access : Access) : Verdict :=
  if permits rasr access then .allowed else .fault

theorem regionVerdict_table (access : Access) :
    regionVerdict Settings.stackGuard.attributes access = .fault ∧
      regionVerdict Settings.peripherals.attributes access =
        (if access = .execute then .fault else .allowed) ∧
      regionVerdict Settings.sram.attributes access =
        (if access = .execute then .fault else .allowed) ∧
      regionVerdict Settings.flash.attributes access =
        (if access = .write then .fault else .allowed) := by
  cases access <;> decide

/-- The unit set up by `init` decides every access as documented, if whoever ran before left the
regions above unused. -/
theorem check_init (m : Mpu) (regions : ℕ) (privileged : Bool) (access : Access) (addr : U32)
    (hregions : 4 ≤ regions)
    (hunused : ∀ n, 4 ≤ n → n < regions → regionEnabled (m.rasr n) = false) :
    (m.writeRegs init).check regions privileged access addr =
      documented privileged access addr.toNat := by
  obtain ⟨hon, hdefault⟩ := init_enabled m
  obtain ⟨hflash, hsram, hperipherals, hguard⟩ := init_covers_table m addr
  obtain ⟨hflash', hsram', hperipherals', hguard'⟩ := init_rasr_table m
  obtain ⟨hnone, hdevice, hdata, hcode⟩ := regionVerdict_table access
  have hfour : highest ((m.writeRegs init).covers addr) regions =
      highest ((m.writeRegs init).covers addr) 4 := by
    refine highest_below hregions ?_
    intro n hn hlt
    rw [covers_eq, init_unused m hn, hunused n hn hlt, Bool.false_and]
  have hverdict : (m.writeRegs init).check regions privileged access addr =
      (highest ((m.writeRegs init).covers addr) 4).elim
        (if privileged then .defaultMap else .fault)
        (fun n => regionVerdict ((m.writeRegs init).rasr n) access) := by
    unfold Mpu.check
    rw [hon, hfour, hdefault, Bool.and_true]
    cases highest ((m.writeRegs init).covers addr) 4 <;> rfl
  rw [hverdict]
  unfold documented
  simp only [highest]
  rw [hflash, hsram, hperipherals, hguard]
  -- From the highest region down, as the unit decides.
  by_cases h3 : 0x20016000 ≤ addr.toNat ∧ addr.toNat < 0x20016100
  · rw [if_pos (decide_eq_true h3), if_pos h3]
    rw [Option.elim_some, hguard', hnone]
  rw [if_neg (by simpa using h3), if_neg h3]
  by_cases h2 : 0x40000000 ≤ addr.toNat ∧ addr.toNat < 0x60000000
  · rw [if_pos (decide_eq_true h2), if_pos h2]
    rw [Option.elim_some, hperipherals', hdevice]
  rw [if_neg (by simpa using h2), if_neg h2]
  by_cases h1 : 0x20000000 ≤ addr.toNat ∧ addr.toNat < 0x20020000
  · rw [if_pos (decide_eq_true h1), if_pos h1]
    rw [Option.elim_some, hsram', hdata]
  rw [if_neg (by simpa using h1), if_neg h1]
  by_cases h0 : 0x08000000 ≤ addr.toNat ∧ addr.toNat < 0x08080000
  · rw [if_pos (decide_eq_true h0), if_pos h0]
    rw [Option.elim_some, hflash', hcode]
  rw [if_neg (by simpa using h0), if_neg h0, Option.elim_none]

/-- No half-written table ever decides an access: the map of the default holds until the last
write, the documented one from then on. -/
theorem init_protects (m : Mpu) (regions k : ℕ) (hregions : 4 ≤ regions)
    (hunused : ∀ n, 4 ≤ n → n < regions → regionEnabled (m.rasr n) = false) (hfirst : 0 < k)
    (privileged : Bool) (access : Access) (addr : U32) :
    (m.writeRegs (init.take k)).check regions privileged access addr =
      if k < init.length then .defaultMap else documented privileged access addr.toNat := by
  by_cases hlast : k < init.length
  · rw [if_pos hlast]
    unfold Mpu.check
    rw [init_off m k hfirst hlast]
    rfl
  · rw [if_neg hlast, List.take_of_length_le (Nat.le_of_not_lt hlast)]
    exact check_init m regions privileged access addr hregions hunused

theorem regionEnabled_zero : regionEnabled 0 = false := by decide

theorem init_protects_reset :
    (∀ n, 4 ≤ n → n < 8 → regionEnabled (reset.rasr n) = false) ∧ 0 < 14 ∧
      (reset.writeRegs (init.take 14)).check 8 true .execute 0x20017000 =
        if 14 < init.length then .defaultMap else documented true .execute 0x20017000 :=
  ⟨fun _ _ _ => regionEnabled_zero, by decide,
    init_protects reset 8 14 (by decide) (fun _ _ _ => regionEnabled_zero) (by decide) true
      .execute 0x20017000⟩

def guardBase : ℕ := 0x20016000

def guardEnd : ℕ := 0x20016100

/-- The addresses of stack accesses, from above the guard, each at most `step` below the last. -/
structure Descends (step : ℕ) (walk : ℕ → U32) : Prop where
  start : guardEnd ≤ (walk 0).toNat
  steps : ∀ i, (walk i).toNat ≤ (walk (i + 1)).toNat + step

def leap (i : ℕ) : U32 := if i = 0 then 0x20016100 else 0x20015FFF

theorem leap_descends {step : ℕ} (hstep : 257 ≤ step) : Descends step leap := by
  refine ⟨by decide, ?_⟩
  intro i
  have hfirst : (leap 0).toNat = 0x20016100 := rfl
  have hrest : ∀ j, (leap (j + 1)).toNat = 0x20015FFF := fun j => rfl
  cases i with
  | zero =>
    rw [hfirst, hrest]
    omega
  | succ i =>
    rw [hrest, hrest]
    omega

/-- Touching the stack at least once every 256 bytes is exactly what an overflow needs for the
guard to stop it, at whatever depth it started. -/
theorem guard_stops_iff (m : Mpu) (regions : ℕ) (access : Access) (step : ℕ)
    (hdata : access ≠ .execute) (hregions : 4 ≤ regions)
    (hunused : ∀ n, 4 ≤ n → n < regions → regionEnabled (m.rasr n) = false) :
    (∀ walk, Descends step walk → ∀ n, (walk n).toNat < guardBase →
      ∃ i < n, (m.writeRegs init).check regions true access (walk i) = .fault) ↔ step ≤ 256 := by
  have hcheck := fun addr => check_init m regions true access addr hregions hunused
  constructor
  · intro h
    by_contra hlarge
    obtain ⟨i, hi, hfault⟩ := h leap (leap_descends (by omega)) 1 (by decide)
    rw [Nat.lt_one_iff.mp hi, hcheck] at hfault
    have hallowed : documented true access (leap 0).toNat = .allowed := by
      cases access with
      | execute => exact absurd rfl hdata
      | read => decide
      | write => decide
    rw [hallowed] at hfault
    cases hfault
  · intro hstep walk hwalk n hend
    have hsize : guardEnd - guardBase = 256 := rfl
    have hsteps : ∀ i, (walk i).toNat ≤ (walk (i + 1)).toNat + (guardEnd - guardBase) :=
      fun i => (hwalk.steps i).trans (by omega)
    obtain ⟨i, hi, hlo, hhi⟩ := descent_lands (by decide : guardBase ≤ guardEnd)
      (fun i => (walk i).toNat) hwalk.start hsteps hend
    refine ⟨i, hi, ?_⟩
    rw [hcheck]
    exact if_pos ⟨hlo, hhi⟩

theorem guard_stops_iff_reset :
    (∀ walk, Descends 256 walk → ∀ n, (walk n).toNat < guardBase →
      ∃ i < n, (reset.writeRegs init).check 8 true .write (walk i) = .fault) ↔ 256 ≤ 256 :=
  guard_stops_iff reset 8 .write 256 (by decide) (by decide) (fun _ _ _ => regionEnabled_zero)

end EmbeddedDaq.MpuProtection

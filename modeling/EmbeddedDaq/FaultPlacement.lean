import EmbeddedDaq.FaultAgreement
import EmbeddedDaq.GeneralSingleBit
import EmbeddedDaq.InjectionRate

set_option autoImplicit false

namespace EmbeddedDaq.FaultPlacement
open FirmwareWords SharedFault FaultLfsr FaultInjectors FaultAgreement
open GeneralSingleBit LfsrPeriod InjectionRate

/-- Armed to flip a bit at a drawn position of a field. -/
structure RandomFlip (width : ℕ) (inj : Injector) : Prop where
  armed : inj.armed = true
  bitFlip : inj.config.faultType = .bitFlip
  random : width ≤ inj.config.targetBit.toNat

instance (width : ℕ) (inj : Injector) : Decidable (RandomFlip width inj) :=
  decidable_of_iff (inj.armed = true ∧ inj.config.faultType = .bitFlip ∧
      width ≤ inj.config.targetBit.toNat)
    ⟨fun h => ⟨h.1, h.2.1, h.2.2⟩, fun h => ⟨h.armed, h.bitFlip, h.random⟩⟩

def seeded (inj : Injector) (state : U16) : Injector := { inj with lfsr := ⟨state⟩ }

theorem RandomFlip.seeded {width : ℕ} {inj : Injector} (h : RandomFlip width inj) (state : U16) :
    RandomFlip width (seeded inj state) := ⟨h.armed, h.bitFlip, h.random⟩

theorem ofNat_state {k : ℕ} (hpos : 0 < k) (hlt : k < 65536) :
    (BitVec.ofNat 16 k).toNat = k ∧ BitVec.ofNat 16 k ≠ 0 := by
  have hvalue : (BitVec.ofNat 16 k).toNat = k := by
    rw [BitVec.toNat_ofNat]
    omega
  refine ⟨hvalue, ?_⟩
  intro hzero
  rw [hzero] at hvalue
  change 0 = k at hvalue
  omega

def drawnBit (state : U16) : ℕ := (step state).toNat % 8

theorem drawnBit_lt (state : U16) : drawnBit state < 8 := Nat.mod_lt _ (by decide)

theorem nextBit_toNat (l : Lfsr) : l.nextBit.1.toNat = drawnBit l.state := by
  have hmask : (step l.state).toNat &&& 7 = (step l.state).toNat % 8 :=
    Nat.and_two_pow_sub_one_eq_mod _ 3
  change (((step l.state) &&& 7).setWidth 8 : U8).toNat = (step l.state).toNat % 8
  rw [BitVec.toNat_setWidth, BitVec.toNat_and]
  change ((step l.state).toNat &&& 7) % 256 = (step l.state).toNat % 8
  omega

theorem drawnBit_eq (state : U16) : drawnBit state = state.toNat / 2 % 8 := by
  apply Nat.eq_of_testBit_eq
  intro i
  change ((step state).toNat % 2 ^ 3).testBit i = (state.toNat / 2 ^ 1 % 2 ^ 3).testBit i
  rw [Nat.testBit_mod_two_pow, Nat.testBit_mod_two_pow, Nat.testBit_div_two_pow]
  by_cases hi : i < 3
  · have hmoved : (step state).getLsbD i = state.getLsbD (i + 1) := by
      rw [step_bit state (by omega), if_neg (by omega)]
    change (decide (i < 3) && (step state).getLsbD i) = (decide (i < 3) && state.getLsbD (i + 1))
    rw [hmoved]
  · simp [hi]

theorem bitFlip_flipsOnly (byte : U8) {bit : U8} (h : bit.toNat < 8) :
    FlipsOnly bit.toNat byte (bitFlip byte bit) := by
  have hlow : (bit &&& 7).toNat = bit.toNat := by
    rw [BitVec.toNat_and]
    change bit.toNat &&& (2 ^ 3 - 1) = bit.toNat
    rw [Nat.and_two_pow_sub_one_eq_mod, Nat.mod_eq_of_lt h]
  have hflip := flipsOnly_xor (by omega : (bit &&& 7).toNat < 8) byte
  rwa [hlow] at hflip

theorem drawn_flipsOnly (l : Lfsr) (byte : U8) :
    FlipsOnly (drawnBit l.state) byte (bitFlip byte l.nextBit.1) := by
  rw [← nextBit_toNat l]
  apply bitFlip_flipsOnly
  rw [nextBit_toNat]
  exact drawnBit_lt l.state

def byteCalls (p : Profile) (overrun : Bool) (index : ℕ) : List (Injector → U8 → Option U8) :=
  [fun inj byte => (FaultSpi.injectMosi p inj byte).map Prod.fst,
    fun inj byte => (FaultI2c.injectData p inj byte).map Prod.fst,
    fun inj byte => (FaultUartInjector.injectRx p ⟨inj, overrun⟩ byte).map Prod.fst,
    fun inj byte => (FaultCan.injectData p inj byte index).map Prod.fst,
    fun inj byte => (FaultOneWire.injectData p inj byte index).map Prod.fst]

/-- From some nonzero state the call flips bit `b` of any byte and no other bit. -/
def Lands (call : Injector → U8 → Option U8) (inj : Injector) (b : ℕ) : Prop :=
  ∃ state : U16, state ≠ 0 ∧
    ∀ byte, ∃ result, call (seeded inj state) byte = some result ∧
      FlipsOnly b byte result

section
variable {p : Profile} {inj : Injector}

theorem byteCall_eq {overrun : Bool} {index : ℕ} (h : inj.config.faultType = .bitFlip)
    {call : Injector → U8 → Option U8} (hcall : call ∈ byteCalls p overrun index) (byte : U8) :
    call inj byte = (FaultSpi.injectMiso p inj byte).map Prod.fst := by
  have hagree : ∀ {fault : FaultConfig → Lfsr → U8 × Lfsr},
      (∀ l, fault inj.config l = FaultSpi.misoFault byte inj.config l) →
        (inj.inject p byte fault).map Prod.fst =
          (FaultSpi.injectMiso p inj byte).map Prod.fst := by
    intro fault hfault
    exact congrArg (Option.map Prod.fst) (inject_congr hfault)
  simp only [byteCalls, List.mem_cons, List.not_mem_nil, or_false] at hcall
  rcases hcall with rfl | rfl | rfl | rfl | rfl
  · exact hagree fun l => mosiFault_eq (.inl h)
  · exact hagree fun l => rfl
  · exact Option.map_map ..
  · exact hagree fun l => can_dataFault_eq h index
  · exact hagree fun l => oneWire_dataFault_eq (.inl h) index

theorem spoil_random (h : RandomFlip 8 inj) (hpos : 1 ≤ inj.config.probabilityPermille.toNat)
    (hlt : inj.config.probabilityPermille.toNat < 1000) (byte : U8) :
    (inj.spoil byte (FaultSpi.misoFault byte)).1 =
      if Below inj.config.probabilityPermille (step inj.lfsr.state) then
        bitFlip byte (Lfsr.nextBit ⟨step inj.lfsr.state⟩).1
      else byte := by
  have hrandom : ¬inj.config.targetBit < 8 := by
    rw [BitVec.lt_def]
    exact Nat.not_lt.mpr h.random
  rw [Injector.spoil_armed h.armed, shouldInject_draw hpos hlt]
  simp only [decide_eq_true_eq]
  split
  · rw [FaultSpi.misoFault, pickBit, if_neg hrandom, h.bitFlip]
  · rfl

theorem below_iff (permille state : U16) :
    Below permille state ↔ state.toNat % 1024 < permille.toNat := by
  have h := below_ofNat permille state.toNat
  rwa [BitVec.ofNat_toNat, BitVec.setWidth_eq] at h

theorem miso_lands_iff (h : RandomFlip 8 inj)
    (hpos : 1 ≤ inj.config.probabilityPermille.toNat)
    (hlt : inj.config.probabilityPermille.toNat < 1000) {b : ℕ} (hb : b < 8) :
    Lands (fun inj byte => (FaultSpi.injectMiso p inj byte).map Prod.fst) inj b ↔
      2 * b < inj.config.probabilityPermille.toNat ∧ inj.Roomy p 1 := by
  have hspoil : ∀ (state : U16) (byte : U8),
      ((seeded inj state).spoil byte (FaultSpi.misoFault byte)).1 =
        if Below inj.config.probabilityPermille (step state) then
          bitFlip byte (Lfsr.nextBit ⟨step state⟩).1
        else byte := fun state => spoil_random (h.seeded state) hpos hlt
  constructor
  · rintro ⟨state, -, hlands⟩
    obtain ⟨result, hcall, hflips⟩ := hlands 0
    obtain ⟨hresult, hroom⟩ := Injector.inject_fst_eq_some_iff.mp hcall
    rw [differs_of_ne hflips.ne] at hroom
    rw [hspoil] at hresult
    split at hresult
    · rename_i hbelow
      rw [hresult] at hflips
      have hposition : b = drawnBit (step state) :=
        hflips.unique (drawn_flipsOnly ⟨step state⟩ 0)
      rw [drawnBit_eq] at hposition
      rw [below_iff] at hbelow
      exact ⟨by omega, hroom⟩
    · exact absurd hresult hflips.ne
  · rintro ⟨hposition, hroom⟩
    -- Bits 1 to 3 hold `b`; bit 10, above what the gate compares, keeps the state from being zero.
    obtain ⟨htarget, hne⟩ := ofNat_state (k := 1024 + 2 * b) (by omega) (by omega)
    obtain ⟨state, hstate, hstep⟩ := exists_step_eq hne
    refine ⟨state, hstate, ?_⟩
    intro byte
    have hbelow : Below inj.config.probabilityPermille (step state) := by
      rw [hstep, below_iff, htarget]
      omega
    have hdrawn : drawnBit (step state) = b := by
      rw [hstep, drawnBit_eq, htarget]
      omega
    have hlands : FlipsOnly b byte (bitFlip byte (Lfsr.nextBit ⟨step state⟩).1) :=
      hdrawn ▸ drawn_flipsOnly ⟨step state⟩ byte
    refine ⟨_, Injector.inject_fst_eq_some_iff.mpr ⟨rfl, ?_⟩, ?_⟩
    · rw [hspoil, if_pos hbelow, differs_of_ne hlands.ne]
      exact hroom
    · rw [hspoil, if_pos hbelow]
      exact hlands

theorem lands_congr {call call' : Injector → U8 → Option U8}
    (h : ∀ state byte, call (seeded inj state) byte = call' (seeded inj state) byte) (b : ℕ) :
    Lands call inj b ↔ Lands call' inj b := by
  unfold Lands
  simp only [h]

/-- Below certainty a position is reached if and only if its double is below the threshold. -/
theorem random_flip_lands_iff (p : Profile) (overrun : Bool) (index : ℕ) (inj : Injector)
    (h : RandomFlip 8 inj) (hpos : 1 ≤ inj.config.probabilityPermille.toNat)
    (hlt : inj.config.probabilityPermille.toNat ≤ 999) :
    ∀ call ∈ byteCalls p overrun index, ∀ b < 8,
      Lands call inj b ↔ 2 * b < inj.config.probabilityPermille.toNat ∧ inj.Roomy p 1 := by
  intro call hcall b hb
  rw [← miso_lands_iff h hpos (Nat.lt_succ_of_le hlt) hb]
  apply lands_congr
  intro state byte
  exact byteCall_eq (h.seeded state).bitFlip hcall byte

theorem random_flip_lands_six : Lands
    (fun inj byte => (FaultCan.injectData .dev inj byte 7).map Prod.fst)
    (FaultCan.new.configure ⟨.can, .bitFlip, 8, 0, 1, 13⟩).arm 6 :=
  (random_flip_lands_iff .dev false 7 (FaultCan.new.configure ⟨.can, .bitFlip, 8, 0, 1, 13⟩).arm
    (by decide) (by decide) (by decide) _ (by simp [byteCalls]) 6 (by decide)).mpr
    ⟨by decide, .inr (by decide)⟩

/-- At the lowest threshold a flip that passes the gate is one of bit 0. -/
theorem random_flip_misses_one : ¬Lands
    (fun inj byte => (FaultSpi.injectMosi .dev inj byte).map Prod.fst)
    (FaultSpi.new.configure ⟨.spi, .bitFlip, 8, 0, 1, 1⟩).arm 1 := by
  intro h
  have hmiso : Lands (fun inj byte => (FaultSpi.injectMiso .dev inj byte).map Prod.fst)
      (FaultSpi.new.configure ⟨.spi, .bitFlip, 8, 0, 1, 1⟩).arm 1 := by
    refine (lands_congr ?_ 1).mp h
    intro state byte
    exact congrArg (Option.map Prod.fst) (inject_congr fun l => mosiFault_eq (.inl rfl))
  have hposition := ((miso_lands_iff (by decide) (by decide) (by decide) (by decide)).mp hmiso).1
  exact absurd hposition (by decide)

end

def idRun (p : Profile) (inj : Injector) (ids : ℕ → U32) : ℕ → Option Injector
  | 0 => some inj
  | n + 1 => (idRun p inj ids n).bind fun inj => (FaultCan.injectId p inj (ids n)).map Prod.snd

def FlipsId (p : Profile) (inj : Injector) (ids : ℕ → U32) (n b : ℕ) : Prop :=
  ∃ current result next, idRun p inj ids n = some current ∧
    FaultCan.injectId p current (ids n) = some (result, next) ∧
    result.getLsbD b ≠ (ids n).getLsbD b

structure CertainIdFlip (inj : Injector) : Prop extends RandomFlip 29 inj where
  always : 1000 ≤ inj.config.probabilityPermille.toNat

section
variable {p : Profile} {inj : Injector} {ids : ℕ → U32} {n : ℕ}

theorem CertainIdFlip.after (h : CertainIdFlip inj) (l : Lfsr) (n : ℕ) :
    CertainIdFlip (inj.after l n) := ⟨⟨h.armed, h.bitFlip, h.random⟩, h.always⟩

theorem drawn_mod (l : Lfsr) : (l.nextBit.1 % 29).toNat = drawnBit l.state := by
  have hlt := drawnBit_lt l.state
  rw [BitVec.toNat_umod, nextBit_toNat]
  change drawnBit l.state % 29 = drawnBit l.state
  omega

theorem spoil_id (h : CertainIdFlip inj) (id : U32) :
    inj.spoil id (FaultCan.idFault id) =
      (id ^^^ ((1 : U32) <<< (inj.lfsr.nextBit.1 % 29)), ⟨step inj.lfsr.state⟩) := by
  have hrandom : ¬inj.config.targetBit < 29 := by
    rw [BitVec.lt_def]
    exact Nat.not_lt.mpr h.random
  rw [Injector.spoil_sure h.armed h.always, FaultCan.idFault, pickBitMod, if_neg hrandom, h.bitFlip]
  rfl

theorem id_flipsOnly (h : CertainIdFlip inj) (id : U32) :
    FlipsOnly (drawnBit inj.lfsr.state) id (inj.spoil id (FaultCan.idFault id)).1 := by
  have hlt := drawnBit_lt inj.lfsr.state
  rw [spoil_id h, ← drawn_mod inj.lfsr]
  apply flipsOnly_xor
  rw [drawn_mod]
  omega

theorem injectId_eq_some (h : CertainIdFlip inj) {id result : U32} {inj' : Injector}
    (hcall : FaultCan.injectId p inj id = some (result, inj')) :
    FlipsOnly (drawnBit inj.lfsr.state) id result ∧
      inj' = inj.after ⟨step inj.lfsr.state⟩ 1 := by
  have hflips := id_flipsOnly h id
  obtain ⟨rfl, rfl⟩ := Injector.inject_eq_some hcall
  rw [differs_of_ne hflips.ne, spoil_id h]
  rw [spoil_id h] at hflips
  exact ⟨hflips, rfl⟩

theorem injectId_of_roomy (h : CertainIdFlip inj) (hroom : inj.Roomy p 1) (id : U32) :
    ∃ result, FaultCan.injectId p inj id =
      some (result, inj.after ⟨step inj.lfsr.state⟩ 1) := by
  have hdiffers := differs_of_ne (id_flipsOnly h id).ne
  have hcall : FaultCan.injectId p inj id = some ((inj.spoil id (FaultCan.idFault id)).1, _) :=
    Injector.inject_of_roomy (hroom.mono (Nat.le_of_eq hdiffers))
  rw [hdiffers, spoil_id h] at hcall
  exact ⟨_, hcall⟩

theorem idRun_eq_some (h : CertainIdFlip inj) {current : Injector}
    (hrun : idRun p inj ids n = some current) :
    current = inj.after ⟨step^[n] inj.lfsr.state⟩ n := by
  induction n generalizing current with
  | zero =>
    rw [← Option.some.inj hrun]
    exact (Injector.after_zero inj).symm
  | succ n ih =>
    obtain ⟨before, hbefore, hcall⟩ := Option.bind_eq_some_iff.mp hrun
    obtain ⟨⟨result, next⟩, hinject, rfl⟩ := Option.map_eq_some_iff.mp hcall
    rw [ih hbefore] at hinject
    rw [(injectId_eq_some (h.after _ n) hinject).2, Injector.after_after,
      Function.iterate_succ_apply']
    rfl

theorem idRun_of_roomy (h : CertainIdFlip inj) (hroom : inj.Roomy p n) :
    idRun p inj ids n = some (inj.after ⟨step^[n] inj.lfsr.state⟩ n) := by
  induction n with
  | zero => exact congrArg some (Injector.after_zero inj).symm
  | succ n ih =>
    obtain ⟨result, hcall⟩ := injectId_of_roomy (h.after ⟨step^[n] inj.lfsr.state⟩ n)
      (hroom.after _) (ids n)
    rw [idRun, ih (hroom.mono (Nat.le_succ n)), Option.bind_some, hcall, Option.map_some,
      Injector.after_after, Function.iterate_succ_apply']
    rfl

theorem flipsId_drawn (h : CertainIdFlip inj) {b : ℕ} (hflips : FlipsId p inj ids n b) :
    b = drawnBit (step^[n] inj.lfsr.state) := by
  obtain ⟨current, result, next, hrun, hcall, hbit⟩ := hflips
  rw [idRun_eq_some h hrun] at hcall
  exact ((injectId_eq_some (h.after _ n) hcall).1 b).mp hbit

theorem flipsId_of_roomy (h : CertainIdFlip inj) (hroom : inj.Roomy p (n + 1)) :
    FlipsId p inj ids n (drawnBit (step^[n] inj.lfsr.state)) := by
  have hstart : idRun p inj ids n = some (inj.after ⟨step^[n] inj.lfsr.state⟩ n) :=
    idRun_of_roomy h (hroom.mono (Nat.le_succ n))
  obtain ⟨result, hcall⟩ := injectId_of_roomy (h.after ⟨step^[n] inj.lfsr.state⟩ n)
    (hroom.after _) (ids n)
  refine ⟨_, result, _, hstart, hcall, ?_⟩
  exact ((injectId_eq_some (h.after _ n) hcall).1 _).mpr rfl

/-- A draw of three bits reaches the low eight of the identifier, each from every seed. -/
theorem random_id_bit_iff (p : Profile) (inj : Injector) (hflip : inj.config.faultType = .bitFlip)
    (halways : 1000 ≤ inj.config.probabilityPermille.toNat)
    (hrandom : 29 ≤ inj.config.targetBit.toNat) (seed : U16) (ids : ℕ → U32) (b : ℕ) :
    (∃ n, FlipsId p (seeded inj (Lfsr.new seed).state).arm ids n b) ↔ b < 8 := by
  have hcertain : CertainIdFlip (seeded inj (Lfsr.new seed).state).arm :=
    ⟨⟨rfl, hflip, hrandom⟩, halways⟩
  constructor
  · rintro ⟨n, hn⟩
    rw [flipsId_drawn hcertain hn]
    exact drawnBit_lt _
  · intro hb
    obtain ⟨htarget, hne⟩ := ofNat_state (k := 8 + b) (by omega) (by omega)
    obtain ⟨n, ⟨hn, hvisit⟩, -⟩ := state_visited (step_ne_zero (new_ne_zero seed)) hne
    -- Arming has cleared the count, so no draw of the period overflows it.
    have hroom : (seeded inj (Lfsr.new seed).state).arm.Roomy p (n + 1) := by
      right
      change 0 + (n + 1) < 2 ^ 32
      omega
    have hdrawn : drawnBit (step^[n] (Lfsr.new seed).state) = b := by
      rw [drawnBit, ← Function.iterate_succ_apply' step, Function.iterate_succ_apply, hvisit,
        htarget]
      omega
    have hflips : FlipsId p (seeded inj (Lfsr.new seed).state).arm ids n
        (drawnBit (step^[n] (Lfsr.new seed).state)) := flipsId_of_roomy hcertain hroom
    rw [hdrawn] at hflips
    exact ⟨n, hflips⟩

theorem random_id_bit_seven : ∃ n, FlipsId .dev
    (seeded (FaultCan.new.configure ⟨.can, .bitFlip, 29, 0, 1, 1000⟩) (Lfsr.new 0x1234).state).arm
    (fun _ => 0x7FF) n 7 :=
  (random_id_bit_iff .dev (FaultCan.new.configure ⟨.can, .bitFlip, 29, 0, 1, 1000⟩) rfl (by decide)
    (by decide) 0x1234 (fun _ => 0x7FF) 7).mpr (by decide)

/-- Bit 8 is beyond the three bits that are drawn. -/
theorem random_id_misses_eight : ¬∃ n, FlipsId .dev
    (FaultCan.new.configure ⟨.can, .bitFlip, 29, 0, 1, 1000⟩).arm (fun _ => 0) n 8 := by
  rintro ⟨n, hn⟩
  have hcertain : CertainIdFlip (FaultCan.new.configure ⟨.can, .bitFlip, 29, 0, 1, 1000⟩).arm :=
    ⟨by decide, by decide⟩
  have hlt := drawnBit_lt (step^[n] FaultCan.new.lfsr.state)
  have hdrawn : 8 = drawnBit (step^[n] FaultCan.new.lfsr.state) := flipsId_drawn hcertain hn
  omega

end

end EmbeddedDaq.FaultPlacement

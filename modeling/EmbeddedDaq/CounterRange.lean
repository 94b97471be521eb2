import EmbeddedDaq.AdcTaskFront
import EmbeddedDaq.FaultSession
import EmbeddedDaq.GeneralBoundedCounter
import EmbeddedDaq.ReadArithmetic

set_option autoImplicit false

namespace EmbeddedDaq.CounterRange
open FirmwareWords FirmwareAnalog FirmwareTransport FirmwareAdcTask AdcTaskFront
open SharedFault FaultTask FaultSession GeneralRuns GeneralBoundedCounter ReadArithmetic

/-- The words a turn adds to the counter: a read of one word is not averaged. -/
def wordsCounted (turn : Turn) : ℕ := if wordsRead turn < 2 then 0 else wordsRead turn

def samplesRead (turns : List Turn) : ℕ := (turns.map wordsCounted).sum

def adcStates (p : Profile) (transport : Transport) (turns : List Turn) : Option AdcTask :=
  (adcRun p transport turns).map Prod.fst

def sampleCount (s : AdcTask) : ℕ := s.adcSampler.sampleCount.toNat

/-- `sample_count += count` over unbounded integers. -/
def wantedSamples (s : AdcTask) (turn : Turn) : ℕ := sampleCount s + wordsCounted turn

/-- An engine of any configuration, given commands one after the other. -/
def engineStates (p : Profile) (config : FaultConfig) (commands : List FaultCommand) :
    Option FaultEngine :=
  commands.foldlM (fun e cmd => (e.handleCommand p cmd).map Prod.fst)
    (FaultEngine.new.withConfig config)

def fireCount (e : FaultEngine) : ℕ := e.fireCount.toNat

/-- `fire_count` after the command, over unbounded integers. -/
def wantedFires (e : FaultEngine) : FaultCommand → ℕ
  | .arm | .reset => 0
  | .fire => if e.armed then fireCount e + 1 else fireCount e
  | .disarm | .status => fireCount e

def firesAccepted (commands : List FaultCommand) : ℕ :=
  acceptedFires (commands.map FaultCommand.toU8)

section
variable {p : Profile} {turns : List Turn}

theorem samplesRead_append (turns later : List Turn) :
    samplesRead (turns ++ later) = samplesRead turns + samplesRead later := by
  rw [samplesRead, List.map_append, List.sum_append]
  rfl

theorem samplesRead_concat (turns : List Turn) (turn : Turn) :
    samplesRead (turns ++ [turn]) = samplesRead turns + wordsCounted turn := by
  rw [samplesRead_append]
  rfl

theorem samplesRead_replicate (n : ℕ) (turn : Turn) :
    samplesRead (List.replicate n turn) = n * wordsCounted turn := by
  rw [samplesRead, List.map_replicate, List.sum_replicate, Nat.nsmul_eq_mul]

/-- The counter only grows: the whole run decides. -/
theorem samples_staysBelow_iff : StaysBelow samplesRead (2 ^ 32) turns ↔
    samplesRead turns < 2 ^ 32 := by
  constructor
  · intro h
    exact h turns (List.prefix_refl turns)
  · rintro h before ⟨later, rfl⟩
    rw [samplesRead_append] at h
    omega

theorem exists_counted (p : Profile) {s : AnalogSampler} {measurements : List U16} {count : ℕ}
    (hbuffer : measurements.length ≤ 2048) (hcount : count ≤ measurements.length)
    (hlimit : s.sampleCount.toNat + (if count < 2 then 0 else count) < 2 ^ 32) :
    ∃ s', s.updateAnalog p measurements count = some s' ∧
      s'.sampleCount.toNat = s.sampleCount.toNat + if count < 2 then 0 else count := by
  by_cases hshort : count < 2
  · rw [if_pos hshort]
    exact ⟨s, if_pos hshort, rfl⟩
  · rw [if_neg hshort] at hlimit ⊢
    obtain ⟨pa0Mv, pa1Mv, -, -, hupdate⟩ :=
      exists_updateAnalog p s hbuffer hcount (Nat.not_lt.mp hshort)
    have hword : (BitVec.ofNat 32 count).toNat = count := by
      rw [BitVec.toNat_ofNat]
      omega
    have hfits : s.sampleCount.toNat + (BitVec.ofNat 32 count).toNat < 2 ^ 32 := by
      rwa [hword]
    rw [addWord_of_lt p _ _ hfits] at hupdate
    refine ⟨_, hupdate, ?_⟩
    change (s.sampleCount + BitVec.ofNat 32 count).toNat = s.sampleCount.toNat + count
    rw [BitVec.toNat_add_of_lt hfits, hword]

theorem iteration_counts {s : AdcTask} {turn : Turn} (hlimit : wantedSamples s turn < 2 ^ 32) :
    ∃ u es, iteration p s turn = some (u, es) ∧ sampleCount u = wantedSamples s turn := by
  rcases turn with ⟨read, padding⟩
  cases read with
  | overrun k => exact ⟨s, [], rfl, rfl⟩
  | ok n measurements =>
    rw [iteration]
    by_cases hzero : min n 2048 = 0
    · have hnone : wordsCounted ⟨.ok n measurements, padding⟩ = 0 := by
        change (if min n 2048 < 2 then 0 else min n 2048) = 0
        rw [hzero]
        rfl
      refine ⟨s, [], if_pos hzero, ?_⟩
      rw [wantedSamples, hnone, Nat.add_zero]
    · have hlength : measurements.toList.length = 2048 := Vector.length_toList
      have hle : min n 2048 ≤ measurements.toList.length := by
        rw [hlength]
        exact Nat.min_le_right n 2048
      obtain ⟨sampler, hsampler, hcount⟩ :=
        exists_counted p (Nat.le_of_eq hlength) hle hlimit
      obtain ⟨u, es, hprocess, hu⟩ := exists_process padding (Nat.min_le_right n 2048) hsampler
      refine ⟨u, es, (if_neg hzero).trans hprocess, ?_⟩
      rw [sampleCount, hu, hcount]
      rfl

theorem adc_counts (p : Profile) (transport : Transport) :
    Counts (adcStates p transport) sampleCount wantedSamples samplesRead (2 ^ 32)
      (fun turns s => sampleCount s = samplesRead turns) where
  start := ⟨AdcTask.start transport, rfl, rfl⟩
  start_lt := by decide
  value_lt s := s.adcSampler.sampleCount.isLt
  value_eq _ _ h := h
  wanted_eq turns s turn h := by rw [wantedSamples, h, samplesRead_concat]
  next turns s turn hrun h hlimit := by
    rw [samplesRead_concat, ← h] at hlimit
    obtain ⟨u, es, hstep, hu⟩ := iteration_counts (p := p) hlimit
    obtain ⟨⟨s', before⟩, hbefore, rfl⟩ := Option.map_eq_some_iff.mp hrun
    have hnext : adcRun p transport (turns ++ [turn]) = some (u, before ++ es) :=
      run_concat_eq_some.mpr ⟨s', before, es, hbefore, hstep, rfl⟩
    refine ⟨u, ?_, ?_⟩
    · rw [adcStates, hnext]
      rfl
    · rw [hu, wantedSamples, h, samplesRead_concat]

end

section
variable {p : Profile} {config : FaultConfig}

theorem firesAccepted_concat (commands : List FaultCommand) (cmd : FaultCommand) :
    firesAccepted (commands ++ [cmd]) =
      acceptedFires (commands.map FaultCommand.toU8 ++ [cmd.toU8]) := by
  rw [firesAccepted, List.map_append, List.map_singleton]

theorem engine_counts (p : Profile) (config : FaultConfig) :
    Counts (engineStates p config) fireCount wantedFires firesAccepted (2 ^ 32)
      (fun commands e => Tracks (commands.map FaultCommand.toU8) e) where
  start := ⟨FaultEngine.new.withConfig config, rfl, rfl, rfl, rfl⟩
  start_lt := by decide
  value_lt e := e.fireCount.isLt
  value_eq _ _ h := h.fireCount_eq
  wanted_eq commands e cmd h := by
    rw [firesAccepted_concat, acceptedFires_command]
    cases cmd with
    | arm => rfl
    | reset => rfl
    | disarm => exact h.fireCount_eq
    | status => exact h.fireCount_eq
    | fire =>
      rw [wantedFires, fireCount, h.armed_eq, h.fireCount_eq]
      split
      · rfl
      · rfl
  next commands e cmd hrun h hlimit := by
    rw [firesAccepted_concat] at hlimit
    obtain ⟨e', hhandle, htracks⟩ := handleCommand_tracks p h cmd hlimit
    refine ⟨e', ?_, ?_⟩
    · rw [engineStates, List.foldlM_append]
      change (engineStates p config commands).bind _ = some e'
      rw [hrun]
      simp [hhandle]
    · rwa [List.map_append, List.map_singleton]

theorem firesAccepted_arming (n : ℕ) :
    firesAccepted (.arm :: List.replicate n .fire) = n ∧
      armedAfter ((.arm :: List.replicate n .fire).map FaultCommand.toU8) = true := by
  induction n with
  | zero => decide
  | succ n ih =>
    obtain ⟨hcount, harmed⟩ := ih
    rw [List.replicate_succ', ← List.cons_append]
    constructor
    · rw [firesAccepted_concat, acceptedFires_command]
      change firesAccepted _ + _ = n + 1
      rw [hcount, if_pos harmed]
    · rw [List.map_append, List.map_singleton, armedAfter_command]
      exact harmed

end

/-- Each counter keeps to its range, and to the exact count, as long as that count does. -/
theorem counters_in_range_iff (p : Profile) (transport : Transport) (turns : List Turn)
    (config : FaultConfig) (commands : List FaultCommand) :
    (NeverExceeds (adcStates p transport) wantedSamples (2 ^ 32) turns ↔
      samplesRead turns < 2 ^ 32) ∧
    (AlwaysShows (adcStates p transport) sampleCount samplesRead turns ↔
      samplesRead turns < 2 ^ 32) ∧
    (NeverExceeds (engineStates p config) wantedFires (2 ^ 32) commands ↔
      StaysBelow firesAccepted (2 ^ 32) commands) ∧
    (AlwaysShows (engineStates p config) fireCount firesAccepted commands ↔
      StaysBelow firesAccepted (2 ^ 32) commands) := by
  have hadc := adc_counts p transport
  have hengine := engine_counts p config
  rw [hadc.neverExceeds_iff, hadc.alwaysShows_iff, hengine.neverExceeds_iff,
    hengine.alwaysShows_iff, samples_staysBelow_iff]
  exact ⟨Iff.rfl, Iff.rfl, Iff.rfl, Iff.rfl⟩

def fullRead : Turn := ⟨.ok 2048 (Vector.replicate 2048 100), fun _ => 0⟩

def longStream : List Turn := List.replicate 2097152 fullRead

def longArming : List FaultCommand := .arm :: List.replicate 4294967296 .fire

/-- The word 2 ^ 32 and the Fire 2 ^ 32 do not fit. -/
theorem counters_exceed :
    ¬NeverExceeds (adcStates .dev Transport.new) wantedSamples (2 ^ 32) longStream ∧
      ¬AlwaysShows (adcStates .dev Transport.new) sampleCount samplesRead longStream ∧
      ¬NeverExceeds (engineStates .dev (FaultConfig.new .spi .bitFlip)) wantedFires (2 ^ 32)
        longArming := by
  have hadc := adc_counts .dev Transport.new
  have hengine := engine_counts .dev (FaultConfig.new .spi .bitFlip)
  have hsamples : samplesRead longStream = 4294967296 :=
    (samplesRead_replicate 2097152 fullRead).trans (by decide)
  have hfires : firesAccepted longArming = 4294967296 := (firesAccepted_arming 4294967296).1
  have hstream : ¬StaysBelow samplesRead (2 ^ 32) longStream := by
    rw [samples_staysBelow_iff, hsamples]
    decide
  refine ⟨?_, ?_, ?_⟩
  · rwa [hadc.neverExceeds_iff]
  · rwa [hadc.alwaysShows_iff]
  · rw [hengine.neverExceeds_iff]
    intro hbelow
    have hlast := hbelow longArming (List.prefix_refl longArming)
    rw [hfires] at hlast
    exact absurd hlast (by decide)

end EmbeddedDaq.CounterRange

import EmbeddedDaq.FirmwareAdcTask
import Mathlib.Algebra.BigOperators.Group.List.Basic

set_option autoImplicit false

namespace EmbeddedDaq.AdcTaskFront
open FirmwareWords FirmwareAnalog FirmwareTransport SharedPacket FirmwareAdcTask GeneralRuns

def wordsRead (turn : Turn) : ℕ :=
  match turn.read with
  | .overrun _ => 0
  | .ok n _ => min n 2048

structure Front where
  sampler : AnalogSampler
  timestamp : U32

def Front.start : Front := ⟨AnalogSampler.new, 0⟩

def front (s : AdcTask) : Front := ⟨s.adcSampler, s.lastTimestamp⟩

def reading (channel : ChannelId) (timestamp mv : U32) : List PushCall :=
  if !isnan mv then [⟨channel, timestamp, mv⟩] else []

def readings (sampler : AnalogSampler) (timestamp : U32) : List PushCall :=
  reading .analog0 timestamp sampler.pa0Mv ++ reading .analog1 timestamp sampler.pa1Mv

def frontStep (p : Profile) (f : Front) (turn : Turn) : Option (Front × List (List PushCall)) :=
  match turn.read with
  | .overrun _ => some (f, [[]])
  | .ok n measurements =>
    if min n 2048 = 0 then some (f, [[]])
    else do
      let sampler ← f.sampler.updateAnalog p measurements.toList (min n 2048)
      let elapsed ← mulWord p (BitVec.ofNat 32 (min n 2048)) 100
      some (⟨sampler, f.timestamp + elapsed⟩, [readings sampler f.timestamp])

/-- The groups of push calls the turns offer to the packetiser. -/
def offered (p : Profile) (turns : List Turn) : List (List PushCall) :=
  match run (frontStep p) Front.start turns with
  | some (_, groups) => groups
  | none => []

theorem pushReading_eq (s : AdcTask) (channel : ChannelId) (timestamp mv : U32) :
    pushReading s channel timestamp mv =
      ({ s with packet := s.packet.pushAll (reading channel timestamp mv) },
        (reading channel timestamp mv).map .push) := by
  unfold pushReading reading
  split <;> rfl

inductive Outcome (s u : AdcTask) (padding : ℕ → U8) (g : List PushCall) (es : List Event) :
    Prop where
  | skipped (hg : g = []) (hu : u = s) (hes : es = [])
  | kept (hroom : (s.packet.pushAll g).isFull = false)
      (hpacket : u.packet = s.packet.pushAll g) (hseq : u.seq = s.seq)
      (htransport : u.transport = s.transport) (hes : es = g.map .push)
  | handed (hfull : (s.packet.pushAll g).isFull = true) (hpacket : u.packet = SamplePacket.new)
      (hseq : u.seq = s.seq + 1)
      (htransport : u.transport =
        s.transport.sendPacket padding ((s.packet.pushAll g).finalize s.seq))
      (hes : es = g.map .push ++
        [.sendPacket ((s.packet.pushAll g).finalize s.seq) padding])

theorem process_cases {p : Profile} {s u : AdcTask} {padding : ℕ → U8} {ws : List U16}
    {count : ℕ} {es : List Event} (h : process p s padding ws count = some (u, es)) :
    ∃ sampler elapsed, s.adcSampler.updateAnalog p ws count = some sampler ∧
      mulWord p (BitVec.ofNat 32 count) 100 = some elapsed ∧
      front u = ⟨sampler, s.lastTimestamp + elapsed⟩ ∧
      Outcome s u padding (readings sampler s.lastTimestamp) es := by
  simp only [process, pushReading_eq, Option.bind_eq_bind, Option.bind_eq_some_iff] at h
  obtain ⟨sampler, hsampler, elapsed, helapsed, heq⟩ := h
  obtain ⟨rfl, rfl⟩ := Prod.mk.inj (Option.some.inj heq)
  refine ⟨sampler, elapsed, hsampler, helapsed, ?_⟩
  have hpushes : (s.packet.pushAll (reading .analog0 s.lastTimestamp sampler.pa0Mv)).pushAll
      (reading .analog1 s.lastTimestamp sampler.pa1Mv) =
        s.packet.pushAll (readings sampler s.lastTimestamp) :=
    (SamplePacket.pushAll_append _ _ _).symm
  simp only [sendIfFull, hpushes]
  cases hfull : (s.packet.pushAll (readings sampler s.lastTimestamp)).isFull with
  | true =>
    refine ⟨rfl, .handed hfull rfl rfl rfl ?_⟩
    simp only [readings, List.map_append, ↓reduceIte]
  | false =>
    refine ⟨rfl, .kept hfull rfl rfl rfl ?_⟩
    simp only [readings, List.map_append, Bool.false_eq_true, ↓reduceIte, List.append_nil]

theorem iteration_cases {p : Profile} {s u : AdcTask} {turn : Turn} {es : List Event}
    (h : iteration p s turn = some (u, es)) :
    ∃ g, frontStep p (front s) turn = some (front u, [g]) ∧ Outcome s u turn.padding g es := by
  rcases turn with ⟨read, padding⟩
  cases read with
  | overrun k =>
    obtain ⟨rfl, rfl⟩ := Prod.mk.inj (Option.some.inj h)
    exact ⟨[], rfl, .skipped rfl rfl rfl⟩
  | ok n measurements =>
    simp only [iteration] at h
    simp only [frontStep]
    by_cases hzero : min n 2048 = 0
    · rw [if_pos hzero] at h ⊢
      obtain ⟨rfl, rfl⟩ := Prod.mk.inj (Option.some.inj h)
      exact ⟨[], rfl, .skipped rfl rfl rfl⟩
    · rw [if_neg hzero] at h ⊢
      obtain ⟨sampler, elapsed, hsampler, helapsed, hfront, houtcome⟩ :=
        process_cases h
      refine ⟨readings sampler s.lastTimestamp, ?_, houtcome⟩
      rw [hfront]
      change (s.adcSampler.updateAnalog p _ _).bind _ = _
      rw [hsampler, Option.bind_some]
      change (mulWord p _ _).bind _ = _
      rw [helapsed]
      rfl

theorem offered_eq {p : Profile} {turns : List Turn} {f : Front} {groups : List (List PushCall)}
    (h : run (frontStep p) Front.start turns = some (f, groups)) : offered p turns = groups := by
  rw [offered, h]

theorem front_run {p : Profile} {transport : Transport} :
    ∀ turns s es, adcRun p transport turns = some (s, es) →
      run (frontStep p) Front.start turns = some (front s, offered p turns) := by
  refine run_history (fun turns _ s =>
    run (frontStep p) Front.start turns = some (front s, offered p turns)) rfl ?_
  intro turns es s turn u fs ih hstep
  obtain ⟨g, hfront, -⟩ := iteration_cases hstep
  have hrun := run_concat_eq_some.mpr ⟨front s, offered p turns, [g], ih, hfront, rfl⟩
  rw [offered_eq hrun]
  exact hrun

theorem adcRun_induction {p : Profile} {transport : Transport}
    (Inv : List Turn → List Event → AdcTask → Prop) (start : Inv [] [] (AdcTask.start transport))
    (next : ∀ turns es s turn u fs g, Inv turns es s →
      offered p (turns ++ [turn]) = offered p turns ++ [g] →
      Outcome s u turn.padding g fs →
      frontStep p (front s) turn = some (front u, [g]) → Inv (turns ++ [turn]) (es ++ fs) u) :
    ∀ turns s es, adcRun p transport turns = some (s, es) → Inv turns es s := by
  have key : ∀ turns s es, adcRun p transport turns = some (s, es) →
      adcRun p transport turns = some (s, es) ∧ Inv turns es s := by
    refine run_history (fun turns es s => adcRun p transport turns = some (s, es) ∧ Inv turns es s)
      ⟨rfl, start⟩ ?_
    rintro turns es s turn u fs ⟨hrun, ih⟩ hstep
    obtain ⟨g, hfront, houtcome⟩ := iteration_cases hstep
    have hnext := run_concat_eq_some.mpr ⟨s, es, fs, hrun, hstep, rfl⟩
    have hgroups := run_concat_eq_some.mpr
      ⟨front s, offered p turns, [g], front_run turns s es hrun, hfront, rfl⟩
    exact ⟨hnext, next turns es s turn u fs g ih (offered_eq hgroups) houtcome hfront⟩
  intro turns s es h
  exact (key turns s es h).2

theorem mulWord_hundred (p : Profile) {n : ℕ} (hn : n ≤ 2048) :
    mulWord p (BitVec.ofNat 32 n) 100 = some (BitVec.ofNat 32 (100 * n)) := by
  have hsmall : (BitVec.ofNat 32 n).toNat = n := by
    rw [BitVec.toNat_ofNat]
    omega
  have hfits : (BitVec.ofNat 32 n).toNat * (100 : U32).toNat < 2 ^ 32 := by
    rw [hsmall]
    change n * 100 < 2 ^ 32
    omega
  rw [mulWord_of_lt p _ _ hfits]
  congr 1
  apply BitVec.eq_of_toNat_eq
  rw [BitVec.toNat_mul, hsmall, BitVec.toNat_ofNat, Nat.mul_comm]
  rfl

theorem exists_process {p : Profile} {s : AdcTask} {ws : List U16} {count : ℕ}
    {sampler : AnalogSampler} (padding : ℕ → U8) (hcount : count ≤ 2048)
    (h : s.adcSampler.updateAnalog p ws count = some sampler) :
    ∃ u es, process p s padding ws count = some (u, es) ∧ u.adcSampler = sampler := by
  have hreturns : ∃ u es, process p s padding ws count = some (u, es) := by
    simp only [process, h, mulWord_hundred p hcount, Option.bind_eq_bind, Option.bind_some]
    exact ⟨_, _, rfl⟩
  obtain ⟨u, es, hprocess⟩ := hreturns
  obtain ⟨sampler', elapsed, hsampler, -, hfront, -⟩ := process_cases hprocess
  obtain rfl := Option.some.inj (h.symm.trans hsampler)
  exact ⟨u, es, hprocess, congrArg Front.sampler hfront⟩

theorem frontStep_cases {p : Profile} {f f' : Front} {turn : Turn} {groups : List (List PushCall)}
    (h : frontStep p f turn = some (f', groups)) :
    (wordsRead turn = 0 ∧ f' = f ∧ groups = [[]]) ∨
      (∃ sampler, f' = ⟨sampler, f.timestamp + BitVec.ofNat 32 (100 * wordsRead turn)⟩ ∧
        groups = [readings sampler f.timestamp]) := by
  rcases turn with ⟨read, padding⟩
  cases read with
  | overrun k =>
    obtain ⟨rfl, rfl⟩ := Prod.mk.inj (Option.some.inj h)
    exact .inl ⟨rfl, rfl, rfl⟩
  | ok n measurements =>
    simp only [frontStep] at h
    by_cases hzero : min n 2048 = 0
    · rw [if_pos hzero] at h
      obtain ⟨rfl, rfl⟩ := Prod.mk.inj (Option.some.inj h)
      exact .inl ⟨hzero, rfl, rfl⟩
    · rw [if_neg hzero, mulWord_hundred p (Nat.min_le_right n 2048)] at h
      simp only [Option.bind_eq_bind, Option.bind_eq_some_iff, Option.bind_some] at h
      obtain ⟨sampler, -, heq⟩ := h
      obtain ⟨rfl, rfl⟩ := Prod.mk.inj (Option.some.inj heq)
      exact .inr ⟨sampler, rfl, rfl⟩

theorem frontStep_timestamp {p : Profile} {f f' : Front} {turn : Turn}
    {groups : List (List PushCall)} (h : frontStep p f turn = some (f', groups)) :
    f'.timestamp = f.timestamp + BitVec.ofNat 32 (100 * wordsRead turn) := by
  rcases frontStep_cases h with ⟨hwords, rfl, -⟩ | ⟨sampler, rfl, -⟩
  · rw [hwords]
    exact (BitVec.add_zero _).symm
  · rfl

theorem mem_reading_iff {channel : ChannelId} {timestamp mv : U32} {c : PushCall} :
    c ∈ reading channel timestamp mv ↔ isnan mv = false ∧ c = ⟨channel, timestamp, mv⟩ := by
  unfold reading
  cases isnan mv <;> simp

theorem frontStep_stamps {p : Profile} {f f' : Front} {turn : Turn} {g : List PushCall}
    (h : frontStep p f turn = some (f', [g])) : ∀ c ∈ g, c.timestampUs = f.timestamp := by
  intro c hc
  rcases frontStep_cases h with ⟨-, -, hg⟩ | ⟨sampler, -, hg⟩
  · rw [(List.cons.inj hg).1] at hc
    cases hc
  · rw [(List.cons.inj hg).1, readings] at hc
    rcases List.mem_append.mp hc with hc | hc
    · rw [(mem_reading_iff.mp hc).2]
    · rw [(mem_reading_iff.mp hc).2]

end EmbeddedDaq.AdcTaskFront

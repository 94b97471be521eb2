import EmbeddedDaq.AdcTaskStream
import EmbeddedDaq.WireFormat

set_option autoImplicit false

namespace EmbeddedDaq.MillivoltAgreement
open FirmwareWords FirmwareAnalog FirmwareTransport SharedPacket FirmwareAdcTask
open AdcTaskFront AdcTaskStream HostPacket WireFormat

def computedMv (sampler : AnalogSampler) : ChannelId → Option U32
  | .analog0 => some sampler.pa0Mv
  | .analog1 => some sampler.pa1Mv
  | .pwmIn => none

/-- The host reports `mv` for the pushed sample, its fields received unchanged. -/
def Reports (c : PushCall) (mv : U32) : Prop := (hostSample c.sample).toMv 3300 = mv.toNat

instance (c : PushCall) (mv : U32) : Decidable (Reports c mv) :=
  inferInstanceAs (Decidable (_ = _))

theorem isnan_eq_false_iff (mv : U32) : isnan mv = false ↔ 0 < mv.toNat ∧ mv.toNat ≤ 65535 := by
  simp only [isnan, decide_eq_false_iff_not]
  omega

theorem mem_readings {sampler : AnalogSampler} {timestamp : U32} {c : PushCall}
    (h : c ∈ readings sampler timestamp) :
    computedMv sampler c.channel = some c.value ∧ isnan c.value = false := by
  rcases List.mem_append.mp h with h | h
  · obtain ⟨hnan, rfl⟩ := mem_reading_iff.mp h
    exact ⟨rfl, hnan⟩
  · obtain ⟨hnan, rfl⟩ := mem_reading_iff.mp h
    exact ⟨rfl, hnan⟩

theorem iteration_pushed {p : Profile} {s u : AdcTask} {turn : Turn} {es : List Event}
    (h : iteration p s turn = some (u, es)) {c : PushCall} (hc : c ∈ pushed es) :
    computedMv u.adcSampler c.channel = some c.value ∧ isnan c.value = false := by
  obtain ⟨g, hfront, houtcome⟩ := iteration_cases h
  rw [outcome_pushed houtcome] at hc
  rcases frontStep_cases hfront with ⟨-, -, hg⟩ | ⟨sampler, hu, hg⟩
  · rw [(List.cons.inj hg).1] at hc
    cases hc
  · rw [(List.cons.inj hg).1] at hc
    have hsampler : u.adcSampler = sampler := congrArg Front.sampler hu
    rw [hsampler]
    exact mem_readings hc

theorem toMv_lt {s : HostSample} (h : 0 < s.value) : s.toMv 3300 < s.value := by
  unfold HostSample.toMv
  omega

theorem not_reports {c : PushCall} (h : isnan c.value = false) : ¬Reports c c.value := by
  have hpos : 0 < (hostSample c.sample).value := ((isnan_eq_false_iff c.value).mp h).1
  exact Nat.ne_of_lt (toMv_lt hpos)

/-- No pushed reading is reported with the millivolts that were computed for its channel. -/
theorem pushed_not_reported (p : Profile) (s u : AdcTask) (turn : Turn) (es : List Event)
    (h : iteration p s turn = some (u, es)) :
    ∀ c ∈ pushed es, ∃ mv, computedMv u.adcSampler c.channel = some mv ∧ ¬Reports c mv := by
  intro c hc
  obtain ⟨hmv, hnan⟩ := iteration_pushed h hc
  exact ⟨c.value, hmv, not_reports hnan⟩

theorem firstTurn : ∃ u es,
    iteration .release (AdcTask.start Transport.new) (turnOf [100, 100]) =
        some (u, es) ∧
      pushed es = [⟨.analog0, 0, 80⟩, ⟨.analog1, 0, 80⟩] ∧ u.adcSampler = ⟨80, 80, 2⟩ := by
  have h : (iteration .release (AdcTask.start Transport.new)
      (turnOf [100, 100])).map (fun r => (pushed r.2, r.1.adcSampler)) =
        some ([⟨.analog0, 0, 80⟩, ⟨.analog1, 0, 80⟩], ⟨80, 80, 2⟩) := by
    decide +kernel
  obtain ⟨⟨u, es⟩, hstep, heq⟩ := Option.map_eq_some_iff.mp h
  obtain ⟨hpushed, hsampler⟩ := Prod.mk.inj heq
  exact ⟨u, es, hstep, hpushed, hsampler⟩

theorem pushed_not_reported_first : ∃ u es,
    iteration .release (AdcTask.start Transport.new) (turnOf [100, 100]) =
        some (u, es) ∧
      ∀ c ∈ pushed es, ∃ mv, computedMv u.adcSampler c.channel = some mv ∧ ¬Reports c mv := by
  obtain ⟨u, es, hstep, -, -⟩ := firstTurn
  exact ⟨u, es, hstep, pushed_not_reported .release _ u (turnOf [100, 100]) es hstep⟩

/-- Two words of 100 counts are 80 mV; the host reports 64 mV. -/
theorem first_misreported : ∃ u es,
    iteration .release (AdcTask.start Transport.new) (turnOf [100, 100]) =
        some (u, es) ∧
      ⟨.analog0, 0, 80⟩ ∈ pushed es ∧ computedMv u.adcSampler .analog0 = some 80 ∧
      (hostSample (PushCall.sample ⟨.analog0, 0, 80⟩)).toMv 3300 = 64 ∧
      ¬∀ c ∈ pushed es, ∀ mv, computedMv u.adcSampler c.channel = some mv → Reports c mv := by
  obtain ⟨u, es, hstep, hpushed, hsampler⟩ := firstTurn
  have hmem : (⟨.analog0, 0, 80⟩ : PushCall) ∈ pushed es := by
    rw [hpushed]
    exact List.mem_cons_self
  have hmv : computedMv u.adcSampler .analog0 = some 80 := by
    rw [hsampler]
    rfl
  refine ⟨u, es, hstep, hmem, hmv, by decide, ?_⟩
  intro h
  exact absurd (h _ hmem 80 hmv) (by decide)

end EmbeddedDaq.MillivoltAgreement

import EmbeddedDaq.AdcTaskStream

set_option autoImplicit false

namespace EmbeddedDaq.AdcTaskDelivery
open FirmwareWords FirmwareTransport SharedPacket SharedPacketBytes FirmwareAdcTask AdcTaskFront
open AdcTaskStream GeneralRuns GeneralBatching

theorem reading_length (channel : ChannelId) (timestamp mv : U32) :
    (reading channel timestamp mv).length ≤ 1 := by
  unfold reading
  split <;> simp

theorem offered_length {p : Profile} {turns : List Turn} {g : List PushCall}
    (hg : g ∈ offered p turns) : g.length ≤ 2 := by
  have key : ∀ turns f groups, run (frontStep p) Front.start turns = some (f, groups) →
      ∀ g ∈ groups, g.length ≤ 2 := by
    refine run_history (fun _ (groups : List (List PushCall)) _ => ∀ g ∈ groups, g.length ≤ 2)
      (by simp) ?_
    intro turns groups f turn f' new ih hstep g hg
    rcases List.mem_append.mp hg with hg | hg
    · exact ih g hg
    · rcases frontStep_cases hstep with ⟨-, -, rfl⟩ | ⟨sampler, -, rfl⟩
      · simp [List.mem_singleton.mp hg]
      · rw [List.mem_singleton.mp hg, readings, List.length_append]
        have h₀ := reading_length .analog0 f.timestamp sampler.pa0Mv
        have h₁ := reading_length .analog1 f.timestamp sampler.pa1Mv
        omega
  unfold offered at hg
  split at hg
  · rename_i f groups hrun
    exact key turns f groups hrun g hg
  · cases hg

/-- Some turn offers both readings when 31 samples, modulo 32, were pushed before it. -/
def Overfills (p : Profile) (turns : List Turn) : Prop :=
  ∃ before g after, offered p turns = before ++ g :: after ∧
    before.flatten.length % samplesPerPacket = 31 ∧ g.length = 2

theorem fits_iff_not_overfills (p : Profile) (turns : List Turn) :
    Fits samplesPerPacket (offered p turns) ↔ ¬Overfills p turns := by
  constructor
  · rintro hfits ⟨before, g, after, heq, hfill, hg⟩
    have hroom : before.flatten.length % samplesPerPacket + g.length ≤ 32 := hfits before g after heq
    omega
  · intro hnot before g after heq
    have hg : g.length ≤ 2 := offered_length (heq ▸ List.mem_append_right before List.mem_cons_self)
    have hmod : before.flatten.length % samplesPerPacket < 32 := Nat.mod_lt _ (by decide)
    by_contra hlost
    have hover : 32 < before.flatten.length % samplesPerPacket + g.length := Nat.lt_of_not_le hlost
    exact hnot ⟨before, g, after, heq, by omega, by omega⟩

theorem offered_append {p : Profile} {transport : Transport} {before after : List Turn}
    {s : AdcTask} {es : List Event} (h : adcRun p transport (before ++ after) = some (s, es)) :
    ∃ rest, offered p (before ++ after) = offered p before ++ rest := by
  obtain ⟨f, groups, rest, hbefore, -, heq⟩ := run_append_eq_some.mp (front_run _ s es h)
  exact ⟨rest, by rw [heq, offered_eq hbefore]⟩

/-- Every iteration of a run ends with all pushes in packets, unless a turn overfills one. -/
theorem conserved_iff (p : Profile) (transport : Transport) (turns : List Turn) (s : AdcTask)
    (es : List Event) (h : adcRun p transport turns = some (s, es)) :
    (∀ before after u fs, turns = before ++ after → adcRun p transport before = some (u, fs) →
      Conserved fs u) ↔ ¬Overfills p turns := by
  rw [← fits_iff_not_overfills]
  constructor
  · intro hall
    exact (conserved_iff_fits h).mp (hall turns [] s es (List.append_nil turns).symm h)
  · rintro hfits before after u fs rfl hbefore
    obtain ⟨rest, hrest⟩ := offered_append h
    rw [hrest] at hfits
    exact (conserved_iff_fits hbefore).mpr (fits_append_left hfits)

theorem conserved_iff_filling : ∃ s es,
    adcRun .release Transport.new fillingTurns = some (s, es) ∧ (handed es).length = 1 ∧
      ((∀ before after u fs, fillingTurns = before ++ after →
        adcRun .release Transport.new before = some (u, fs) → Conserved fs u) ↔
          ¬Overfills .release fillingTurns) := by
  obtain ⟨⟨s, es⟩, hrun, hone⟩ := Option.map_eq_some_iff.mp
    (show (adcRun .release Transport.new fillingTurns).map (fun r => (handed r.2).length) =
      some 1 by decide +kernel)
  exact ⟨s, es, hrun, hone, conserved_iff .release Transport.new fillingTurns s es hrun⟩

def overfillingTurns : List Turn := List.replicate 31 (turnOf [100, 0]) ++ [turnOf [100, 100]]

theorem overfillingTurns_offered : offered .release overfillingTurns =
    (List.range 31).map (fun i => [⟨.analog0, BitVec.ofNat 32 (200 * i), 80⟩]) ++
      [[⟨.analog0, 6200, 80⟩, ⟨.analog1, 6200, 80⟩]] := by
  decide +kernel

theorem overfillingTurns_overfills : Overfills .release overfillingTurns :=
  ⟨_, _, [], overfillingTurns_offered, by decide, rfl⟩

theorem overfillingTurns_not_conserved : ∃ s es,
    adcRun .release Transport.new overfillingTurns = some (s, es) ∧ ¬Conserved es s := by
  obtain ⟨⟨s, es⟩, hrun⟩ := Option.isSome_iff_exists.mp
    (show (adcRun .release Transport.new overfillingTurns).isSome = true by decide +kernel)
  refine ⟨s, es, hrun, ?_⟩
  rw [conserved_iff_fits hrun, fits_iff_not_overfills]
  exact not_not.mpr overfillingTurns_overfills

/-- The stream on the wire is the packets handed over, each once, in the order of their numbers. -/
structure Delivered (es : List Event) (s : AdcTask) : Prop where
  bytes : s.transport.uart = (sends es).flatMap fun send => asBytes send.2 send.1
  numbered : ∀ (k : ℕ) (pkt : SamplePacket), (handed es)[k]? = some pkt → pkt.seq.toNat = k % 2 ^ 16

theorem run_transport_disabled {p : Profile} {transport : Transport}
    (hoff : transport.enabled = false) :
    ∀ turns s es, adcRun p transport turns = some (s, es) → s.transport = transport := by
  refine adcRun_induction (fun _ _ s => s.transport = transport) rfl ?_
  intro turns es s turn u fs g ih _ houtcome _
  cases houtcome with
  | skipped hg hu hes => rw [hu, ih]
  | kept hroom hpacket hseq htransport hes => rw [htransport, ih]
  | handed hfull hpacket hseq htransport hes =>
    rw [htransport, ih, Transport.sendPacket_disabled hoff]

theorem handed_eq_nil_iff {p : Profile} {transport : Transport} {turns : List Turn} {s : AdcTask}
    {es : List Event} (h : adcRun p transport turns = some (s, es)) :
    handed es = [] ↔ (offered p turns).flatten.length < samplesPerPacket := by
  have hb := run_batched turns s es h
  have hnil := flushed_offers_eq_nil_iff (show 0 < samplesPerPacket by decide)
    ((offered p turns).map (List.map PushCall.sample))
  rw [hb.batches, List.map_eq_nil_iff, ← List.map_flatten, List.length_map] at hnil
  exact hnil

theorem delivered_iff_nothing_handed {es : List Event} {s : AdcTask} (huart : s.transport.uart = []) :
    Delivered es s ↔ handed es = [] := by
  constructor
  · intro hd
    have hbytes := hd.bytes
    rw [huart] at hbytes
    rw [handed, List.map_eq_nil_iff, List.eq_nil_iff_forall_not_mem]
    intro send hmem
    have hempty := List.flatMap_eq_nil_iff.mp hbytes.symm send hmem
    have hlen := asBytes_length send.2 send.1
    rw [hempty] at hlen
    cases hlen
  · intro hnone
    have hsends : sends es = [] := List.map_eq_nil_iff.mp hnone
    refine ⟨by rw [huart, hsends]; rfl, ?_⟩
    intro k pkt hk
    rw [hnone] at hk
    cases hk

theorem analogMain_uart {p : Profile} {turns : List Turn} {s : AdcTask} {es : List Event}
    (h : analogMain p turns = some (s, es)) : s.transport.uart = [] := by
  have hnew : s.transport = Transport.new := run_transport_disabled rfl turns s es h
  rw [hnew]
  rfl

/-- Nothing is ever written, so only a run that fills no packet delivers what it packed. -/
theorem analogMain_delivered_iff (p : Profile) (turns : List Turn) (s : AdcTask)
    (es : List Event) (h : analogMain p turns = some (s, es)) :
    s.transport.uart = [] ∧
      (Delivered es s ↔ (offered p turns).flatten.length < samplesPerPacket) := by
  refine ⟨analogMain_uart h, ?_⟩
  rw [delivered_iff_nothing_handed (analogMain_uart h)]
  exact handed_eq_nil_iff h

theorem analogMain_delivered_iff_filling : ∃ s es, analogMain .release fillingTurns = some (s, es) ∧
    s.transport.uart = [] ∧
      (Delivered es s ↔ (offered .release fillingTurns).flatten.length < samplesPerPacket) := by
  obtain ⟨⟨s, es⟩, hrun⟩ := Option.isSome_iff_exists.mp
    (show (analogMain .release fillingTurns).isSome = true by decide +kernel)
  exact ⟨s, es, hrun, analogMain_delivered_iff .release fillingTurns s es hrun⟩

/-- That packet never leaves the board. -/
theorem fillingTurns_not_delivered : ∃ s es, analogMain .release fillingTurns = some (s, es) ∧
    ¬Delivered es s := by
  obtain ⟨⟨s, es⟩, hrun⟩ := Option.isSome_iff_exists.mp
    (show (analogMain .release fillingTurns).isSome = true by decide +kernel)
  refine ⟨s, es, hrun, ?_⟩
  rw [delivered_iff_nothing_handed (analogMain_uart hrun), handed_eq_nil_iff hrun]
  decide +kernel

end EmbeddedDaq.AdcTaskDelivery

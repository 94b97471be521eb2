import EmbeddedDaq.AdcTaskFront
import EmbeddedDaq.GeneralBatching

set_option autoImplicit false

namespace EmbeddedDaq.AdcTaskStream
open FirmwareWords FirmwareTransport SharedPacket FirmwareAdcTask AdcTaskFront GeneralRuns
open GeneralBatching

def pushed : List Event → List PushCall
  | [] => []
  | .push c :: es => c :: pushed es
  | .sendPacket _ _ :: es => pushed es

/-- The calls of `send_packet`, with the padding each packet was sent with. -/
def sends : List Event → List (SamplePacket × (ℕ → U8))
  | [] => []
  | .push _ :: es => sends es
  | .sendPacket pkt padding :: es => (pkt, padding) :: sends es

def handed (es : List Event) : List SamplePacket := (sends es).map Prod.fst

def episodes (calls : List PushCall) : List Event → List (List PushCall × SamplePacket)
  | [] => []
  | .push c :: es => episodes (calls ++ [c]) es
  | .sendPacket pkt _ :: es => (calls, pkt) :: episodes [] es

def openCalls (calls : List PushCall) : List Event → List PushCall
  | [] => calls
  | .push c :: es => openCalls (calls ++ [c]) es
  | .sendPacket _ _ :: es => openCalls [] es

theorem pushed_append (es fs : List Event) : pushed (es ++ fs) = pushed es ++ pushed fs := by
  induction es with
  | nil => rfl
  | cons e es ih => cases e <;> simp only [List.cons_append, pushed, ih]

theorem sends_append (es fs : List Event) : sends (es ++ fs) = sends es ++ sends fs := by
  induction es with
  | nil => rfl
  | cons e es ih => cases e <;> simp only [List.cons_append, sends, ih]

theorem handed_append (es fs : List Event) : handed (es ++ fs) = handed es ++ handed fs := by
  simp only [handed, sends_append, List.map_append]

theorem openCalls_append (calls : List PushCall) (es fs : List Event) :
    openCalls calls (es ++ fs) = openCalls (openCalls calls es) fs := by
  induction es generalizing calls with
  | nil => rfl
  | cons e es ih => cases e <;> exact ih _

theorem episodes_append (calls : List PushCall) (es fs : List Event) :
    episodes calls (es ++ fs) = episodes calls es ++ episodes (openCalls calls es) fs := by
  induction es generalizing calls with
  | nil => rfl
  | cons e es ih =>
    cases e with
    | push c => exact ih _
    | sendPacket pkt padding => exact congrArg ((calls, pkt) :: ·) (ih [])

@[simp] theorem pushed_pushes (g : List PushCall) : pushed (g.map .push) = g := by
  induction g with
  | nil => rfl
  | cons c g ih => simp only [List.map_cons, pushed, ih]

@[simp] theorem sends_pushes (g : List PushCall) : sends (g.map .push) = [] := by
  induction g with
  | nil => rfl
  | cons c g ih => exact ih

@[simp] theorem handed_pushes (g : List PushCall) : handed (g.map .push) = [] := by
  rw [handed, sends_pushes, List.map_nil]

@[simp] theorem openCalls_pushes (calls g : List PushCall) :
    openCalls calls (g.map .push) = calls ++ g := by
  induction g generalizing calls with
  | nil => exact (List.append_nil calls).symm
  | cons c g ih =>
    rw [List.map_cons, openCalls, ih, List.append_assoc, List.singleton_append]

@[simp] theorem episodes_pushes (calls g : List PushCall) : episodes calls (g.map .push) = [] := by
  induction g generalizing calls with
  | nil => rfl
  | cons c g ih => exact ih _

theorem episodes_packets (calls : List PushCall) (es : List Event) :
    (episodes calls es).map Prod.snd = handed es := by
  induction es generalizing calls with
  | nil => rfl
  | cons e es ih =>
    cases e with
    | push c => exact ih _
    | sendPacket pkt padding => exact congrArg (pkt :: ·) (ih [])

/-- Every packet, sent or open, is built from the pushes of its own episode. -/
structure Tracks (es : List Event) (s : AdcTask) : Prop where
  packet : s.packet = SamplePacket.new.pushAll (openCalls [] es)
  room : s.packet.isFull = false
  seq : s.seq = BitVec.ofNat 16 (episodes [] es).length
  sent : ∀ (k : ℕ) calls pkt, (episodes [] es)[k]? = some (calls, pkt) →
    pkt = (SamplePacket.new.pushAll calls).finalize (BitVec.ofNat 16 k) ∧
      (SamplePacket.new.pushAll calls).isFull = true

theorem start_tracks (transport : Transport) : Tracks [] (AdcTask.start transport) :=
  ⟨rfl, SamplePacket.new_isFull, rfl, by intro k calls pkt h; cases h⟩

theorem step_tracks {es fs : List Event} {s u : AdcTask} {padding : ℕ → U8} {g : List PushCall}
    (h : Tracks es s) (ho : Outcome s u padding g fs) : Tracks (es ++ fs) u := by
  cases ho with
  | skipped hg hu hes =>
    subst hu hes
    rwa [List.append_nil]
  | kept hroom hpacket hseq htransport hes =>
    subst hes
    refine ⟨?_, ?_, ?_, ?_⟩
    · rw [hpacket, h.packet, openCalls_append, openCalls_pushes, SamplePacket.pushAll_append]
    · rw [hpacket]
      exact hroom
    · rw [hseq, h.seq, episodes_append, episodes_pushes, List.append_nil]
    · rw [episodes_append, episodes_pushes, List.append_nil]
      exact h.sent
  | handed hfull hpacket hseq htransport hes =>
    subst hes
    have hbuilt : s.packet.pushAll g = SamplePacket.new.pushAll (openCalls [] es ++ g) := by
      rw [h.packet, SamplePacket.pushAll_append]
    have hepisodes : episodes [] (es ++ (g.map .push ++
        [.sendPacket ((s.packet.pushAll g).finalize s.seq) padding])) =
          episodes [] es ++ [(openCalls [] es ++ g, (s.packet.pushAll g).finalize s.seq)] := by
      simp [episodes_append, episodes]
    refine ⟨?_, ?_, ?_, ?_⟩
    · rw [hpacket, openCalls_append, openCalls_append]
      rfl
    · rw [hpacket]
      exact SamplePacket.new_isFull
    · rw [hseq, hepisodes, List.length_append, List.length_singleton, h.seq]
      exact (BitVec.ofNat_add _ 1).symm
    · intro k calls pkt hk
      rw [hepisodes] at hk
      rcases Nat.lt_or_ge k (episodes [] es).length with hlt | hge
      · rw [List.getElem?_append_left hlt] at hk
        exact h.sent k calls pkt hk
      · rw [List.getElem?_append_right hge] at hk
        obtain ⟨hidx, heq⟩ := List.getElem?_eq_some_iff.mp hk
        have hkl : k = (episodes [] es).length := by
          rw [List.length_singleton] at hidx
          omega
        subst hkl
        simp only [Nat.sub_self, List.getElem_cons_zero] at heq
        obtain ⟨rfl, rfl⟩ := Prod.mk.inj heq
        rw [← hbuilt, h.seq]
        exact ⟨rfl, hfull⟩

theorem run_tracks {p : Profile} {transport : Transport} :
    ∀ turns s es, adcRun p transport turns = some (s, es) → Tracks es s :=
  adcRun_induction (fun _ es s => Tracks es s) (start_tracks transport)
    fun _ _ _ _ _ _ _ ih _ ho _ => step_tracks ih ho

theorem Tracks.episode {es : List Event} {s : AdcTask} (h : Tracks es s) {k : ℕ}
    {calls : List PushCall} {pkt : SamplePacket} (hk : (episodes [] es)[k]? = some (calls, pkt)) :
    pkt.magic = SamplePacket.packetMagic ∧ pkt.seq.toNat = k % 2 ^ 16 ∧
      pkt.count.toNat = samplesPerPacket ∧ samplesPerPacket ≤ calls.length ∧
      pkt.samples.toList = (calls.take samplesPerPacket).map PushCall.sample := by
  obtain ⟨rfl, hfull⟩ := h.sent k calls pkt hk
  obtain ⟨hcount, hlen, hsamples⟩ := SamplePacket.pushAll_full hfull
  exact ⟨rfl, BitVec.toNat_ofNat k 16, hcount, hlen, hsamples⟩

theorem run_clock {p : Profile} {transport : Transport} :
    ∀ turns s es, adcRun p transport turns = some (s, es) →
      s.lastTimestamp = BitVec.ofNat 32 (100 * (turns.map wordsRead).sum) := by
  refine adcRun_induction
    (fun turns _ s => s.lastTimestamp = BitVec.ofNat 32 (100 * (turns.map wordsRead).sum)) rfl ?_
  intro turns es s turn u fs g ih _ _ hfront
  have hstep : u.lastTimestamp = s.lastTimestamp + BitVec.ofNat 32 (100 * wordsRead turn) :=
    frontStep_timestamp hfront
  rw [hstep, ih, List.map_append, List.map_singleton, List.sum_append, List.sum_singleton,
    Nat.mul_add, BitVec.ofNat_add]

theorem outcome_pushed {s u : AdcTask} {padding : ℕ → U8} {g : List PushCall}
    {fs : List Event} (h : Outcome s u padding g fs) : pushed fs = g := by
  cases h with
  | skipped hg hu hes => rw [hes, hg]; rfl
  | kept hroom hpacket hseq htransport hes => rw [hes, pushed_pushes]
  | handed hfull hpacket hseq htransport hes =>
    rw [hes, pushed_append, pushed_pushes]
    exact List.append_nil g

theorem iteration_stamps {p : Profile} {transport : Transport} {before : List Turn} {turn : Turn}
    {u v : AdcTask} {fs gs : List Event} (hrun : adcRun p transport before = some (u, fs))
    (hstep : iteration p u turn = some (v, gs)) :
    ∀ c ∈ pushed gs, c.timestampUs.toNat = 100 * (before.map wordsRead).sum % 2 ^ 32 := by
  intro c hc
  obtain ⟨g, hfront, houtcome⟩ := iteration_cases hstep
  rw [outcome_pushed houtcome] at hc
  have hstamp : c.timestampUs = u.lastTimestamp := frontStep_stamps hfront c hc
  rw [hstamp, run_clock before u fs hrun, BitVec.toNat_ofNat]

/-- The packets sent are numbered, full and fresh, and every push is stamped by the words read
before its turn. -/
structure StreamInvariant (p : Profile) (transport : Transport) (turns : List Turn)
    (es : List Event) : Prop where
  packets : ∀ (k : ℕ) (pkt : SamplePacket), (handed es)[k]? = some pkt →
    pkt.magic = 0xDA71 ∧ pkt.seq.toNat = k % 2 ^ 16 ∧ pkt.count.toNat = 32 ∧
      ∃ calls, (episodes [] es)[k]? = some (calls, pkt) ∧ 32 ≤ calls.length ∧
        pkt.samples.toList = (calls.take 32).map PushCall.sample
  stamps : ∀ before turn after u v fs gs, turns = before ++ turn :: after →
    adcRun p transport before = some (u, fs) → iteration p u turn = some (v, gs) →
      ∀ c ∈ pushed gs, c.timestampUs.toNat = 100 * (before.map wordsRead).sum % 2 ^ 32

theorem run_streamInvariant (p : Profile) (transport : Transport) (turns : List Turn) (s : AdcTask)
    (es : List Event) (h : adcRun p transport turns = some (s, es)) :
    StreamInvariant p transport turns es := by
  constructor
  · intro k pkt hk
    rw [← episodes_packets [], List.getElem?_map, Option.map_eq_some_iff] at hk
    obtain ⟨⟨calls, pkt⟩, hepisode, rfl⟩ := hk
    obtain ⟨hmagic, hseq, hcount, hlen, hsamples⟩ := (run_tracks turns s es h).episode hepisode
    exact ⟨hmagic, hseq, hcount, calls, hepisode, hlen, hsamples⟩
  · intro before turn after u v fs gs _ hrun hstep
    exact iteration_stamps hrun hstep

def measurementsOf (words : List U16) : Vector U16 2048 :=
  ⟨⟨(words ++ List.replicate 2048 0).take 2048⟩, by
    change ((words ++ List.replicate 2048 0).take 2048).length = 2048
    rw [List.length_take, List.length_append, List.length_replicate]
    omega⟩

def turnOf (words : List U16) : Turn := ⟨.ok words.length (measurementsOf words), fun _ => 0⟩

def fillingTurns : List Turn := List.replicate 16 (turnOf [100, 100])

theorem fillingTurns_streamInvariant : ∃ s es,
    adcRun .release Transport.new fillingTurns = some (s, es) ∧
      StreamInvariant .release Transport.new fillingTurns es := by
  obtain ⟨⟨s, es⟩, hrun⟩ := Option.isSome_iff_exists.mp
    (show (adcRun .release Transport.new fillingTurns).isSome = true by decide +kernel)
  exact ⟨s, es, hrun, run_streamInvariant .release Transport.new fillingTurns s es hrun⟩

/-- The packetiser is a batching of the offered groups with 32 slots. -/
structure Batched (p : Profile) (turns : List Turn) (es : List Event) (s : AdcTask) : Prop where
  wellFormed : s.packet.WellFormed
  pushes : pushed es = (offered p turns).flatten
  batches : offers samplesPerPacket ((offered p turns).map (List.map PushCall.sample)) =
    ⟨(handed es).map SamplePacket.filled, s.packet.filled⟩

theorem isFull_pushAll_iff {pkt : SamplePacket} (hp : pkt.WellFormed) (g : List PushCall) :
    (pkt.pushAll g).isFull = true ↔
      samplesPerPacket ≤ (pkt.filled ++ g.map PushCall.sample).length := by
  rw [SamplePacket.isFull_iff (SamplePacket.pushAll_wellFormed hp g),
    SamplePacket.pushAll_filled hp, List.length_take]
  omega

theorem run_batched {p : Profile} {transport : Transport} :
    ∀ turns s es, adcRun p transport turns = some (s, es) → Batched p turns es s := by
  refine adcRun_induction (fun turns es s => Batched p turns es s)
    ⟨SamplePacket.new_wellFormed, rfl, rfl⟩ ?_
  intro turns es s turn u fs g ih hoffered houtcome _
  have hpushes : pushed (es ++ fs) = (offered p (turns ++ [turn])).flatten := by
    rw [pushed_append, ih.pushes, outcome_pushed houtcome, hoffered, List.flatten_append,
      List.flatten_singleton]
  have hbatches : offers samplesPerPacket
      ((offered p (turns ++ [turn])).map (List.map PushCall.sample)) =
        offer samplesPerPacket ⟨(handed es).map SamplePacket.filled, s.packet.filled⟩
          (g.map PushCall.sample) := by
    rw [hoffered, List.map_append, List.map_singleton, offers_concat, ih.batches]
  have hwhole := isFull_pushAll_iff ih.wellFormed g
  have hpushed := SamplePacket.pushAll_filled ih.wellFormed g
  have hwf := SamplePacket.pushAll_wellFormed ih.wellFormed g
  cases houtcome with
  | skipped hg hu hes =>
    subst hg hu hes
    have hroom : (u.packet.filled ++ []).length < samplesPerPacket := by
      have hpending := (offers_wellFormed (show 0 < samplesPerPacket by decide)
        ((offered p turns).map (List.map PushCall.sample))).pending_lt
      rw [ih.batches] at hpending
      rwa [List.append_nil]
    refine ⟨ih.wellFormed, hpushes, ?_⟩
    rw [hbatches, List.map_nil, offer_of_room hroom, List.append_nil, List.append_nil]
  | kept hroom hpacket hseq htransport hes =>
    have hlt : (s.packet.filled ++ g.map PushCall.sample).length < samplesPerPacket := by
      rw [← Nat.not_le, ← hwhole, hroom]
      exact Bool.false_ne_true
    refine ⟨hpacket ▸ hwf, hpushes, ?_⟩
    rw [hbatches, offer_of_room hlt, hpacket, hpushed, List.take_of_length_le hlt.le, hes,
      handed_append, handed_pushes, List.append_nil]
  | handed hfull hpacket hseq htransport hes =>
    refine ⟨hpacket ▸ SamplePacket.new_wellFormed, hpushes, ?_⟩
    have hlast : handed fs = [(s.packet.pushAll g).finalize s.seq] := by
      rw [hes, handed_append, handed_pushes]
      rfl
    rw [hbatches, offer_of_full (hwhole.mp hfull), hpacket, SamplePacket.new_filled,
      handed_append, hlast, List.map_append, List.map_singleton, SamplePacket.finalize_filled,
      hpushed]

def delivered (es : List Event) (s : AdcTask) : List Sample :=
  (handed es).flatMap SamplePacket.filled ++ s.packet.filled

/-- Every push is in a packet, once and in call order. -/
def Conserved (es : List Event) (s : AdcTask) : Prop :=
  delivered es s = (pushed es).map PushCall.sample

theorem conserved_iff_fits {p : Profile} {transport : Transport} {turns : List Turn} {s : AdcTask}
    {es : List Event} (h : adcRun p transport turns = some (s, es)) :
    Conserved es s ↔ Fits samplesPerPacket (offered p turns) := by
  have hb := run_batched turns s es h
  have hcontents : contents (offers samplesPerPacket
      ((offered p turns).map (List.map PushCall.sample))) = delivered es s := by
    rw [hb.batches, contents, delivered, List.flatMap_def]
  rw [← fits_map PushCall.sample, ← contents_offers_iff (by decide), hcontents, Conserved,
    hb.pushes, List.map_flatten]

end EmbeddedDaq.AdcTaskStream

import EmbeddedDaq.AdcTaskStream
import EmbeddedDaq.FirmwareTransportTask

set_option autoImplicit false

namespace EmbeddedDaq.TransportTaskStream
open FirmwareWords FirmwareTransport SharedPacket SharedPacketBytes SharedConfig GeneralRuns
open FirmwareAdcTask (Event)
open FirmwareTransportTask AdcTaskStream

/-- The pushes of iteration `j`, counted from zero. -/
def turnCalls (j : ℕ) : List PushCall :=
  [⟨.analog0, BitVec.ofNat 32 (100 * (j + 1)), 0⟩,
    ⟨.analog1, BitVec.ofNat 32 (100 * (j + 1)), 2048⟩]

/-- The pushes of `n` iterations from iteration `first` on. -/
def callsFrom (first n : ℕ) : List PushCall := (List.range' first n).flatMap turnCalls

/-- The packet of iterations `16 * k` to `16 * k + 15`. -/
def packetNo (k : ℕ) : SamplePacket :=
  (SamplePacket.new.pushAll (callsFrom (16 * k) 16)).finalize (BitVec.ofNat 16 k)

theorem callsFrom_length (first n : ℕ) : (callsFrom first n).length = 2 * n := by
  induction n generalizing first with
  | zero => rfl
  | succ n ih =>
    have h := ih (first + 1)
    rw [callsFrom] at h ⊢
    rw [List.range'_succ, List.flatMap_cons, List.length_append, h]
    change 2 + 2 * n = 2 * (n + 1)
    omega

theorem callsFrom_succ (first n : ℕ) :
    callsFrom first (n + 1) = callsFrom first n ++ turnCalls (first + n) := by
  rw [callsFrom, List.range'_concat, List.flatMap_append, Nat.one_mul]
  simp [callsFrom]

theorem callsFrom_split (m n : ℕ) : callsFrom 0 (m + n) = callsFrom 0 m ++ callsFrom m n := by
  unfold callsFrom
  rw [← List.flatMap_append, ← List.range'_append_1, Nat.zero_add]

theorem pushAll_isFull (calls : List PushCall) :
    (SamplePacket.new.pushAll calls).isFull = decide (samplesPerPacket ≤ calls.length) := by
  rw [Bool.eq_iff_iff, decide_eq_true_iff, isFull_pushAll_iff SamplePacket.new_wellFormed,
    SamplePacket.new_filled, List.nil_append, List.length_map]

theorem getSampleValue_eq (p : Profile) :
    getSampleValue p 0 = some 0 ∧ getSampleValue p 1 = some 2048 := by
  cases p <;> decide

structure After (n : ℕ) (es : List Event) (s : TransportTask) : Prop where
  packet : s.packet = SamplePacket.new.pushAll (callsFrom (16 * (n / 16)) (n % 16))
  seq : s.seq = BitVec.ofNat 16 (n / 16)
  timestampCounter : s.timestampCounter = BitVec.ofNat 32 (100 * n)
  pushes : pushed es = callsFrom 0 n
  packets : handed es = (List.range (n / 16)).map packetNo

def paired (s : TransportTask) : TransportTask :=
  { s with
    timestampCounter := s.timestampCounter + 100
    packet := (s.packet.push .analog0 (s.timestampCounter + 100) 0).push .analog1
      (s.timestampCounter + 100) 2048 }

theorem iteration_eq (p : Profile) (s : TransportTask) (padding : ℕ → U8) :
    iteration p s padding =
      some ((sendIfFull (paired s) padding).1,
        [.push ⟨.analog0, s.timestampCounter + 100, 0⟩,
          .push ⟨.analog1, s.timestampCounter + 100, 2048⟩] ++
          (sendIfFull (paired s) padding).2) := by
  obtain ⟨hfirst, hsecond⟩ := getSampleValue_eq p
  rw [iteration, hfirst, hsecond]
  rfl

section
variable {s : TransportTask} {n : ℕ} {es : List Event}

theorem After.paired_packet (h : After n es s) :
    (paired s).packet = SamplePacket.new.pushAll (callsFrom (16 * (n / 16)) (n % 16 + 1)) := by
  have hstamp : s.timestampCounter + 100 = BitVec.ofNat 32 (100 * (n + 1)) := by
    rw [h.timestampCounter, Nat.mul_succ, BitVec.ofNat_add]
    rfl
  rw [callsFrom_succ, SamplePacket.pushAll_append, Nat.div_add_mod, ← h.packet, turnCalls, ← hstamp]
  rfl

theorem After.paired_isFull (h : After n es s) :
    (paired s).packet.isFull = decide (n % 16 = 15) := by
  rw [h.paired_packet, pushAll_isFull, callsFrom_length, decide_eq_decide]
  change 32 ≤ 2 * (n % 16 + 1) ↔ _
  omega

theorem After.next (h : After n es s) (p : Profile) (padding : ℕ → U8) :
    ∃ u fs, iteration p s padding = some (u, fs) ∧ After (n + 1) (es ++ fs) u := by
  refine ⟨_, _, iteration_eq p s padding, ?_⟩
  have hstamp : s.timestampCounter + 100 = BitVec.ofNat 32 (100 * (n + 1)) := by
    rw [h.timestampCounter, Nat.mul_succ, BitVec.ofNat_add]
    rfl
  have hpushes : callsFrom 0 (n + 1) = callsFrom 0 n ++ turnCalls n := by
    rw [callsFrom_succ, Nat.zero_add]
  have hfull := h.paired_isFull
  have hpacket := h.paired_packet
  by_cases hlast : n % 16 = 15
  · rw [decide_eq_true hlast] at hfull
    have hquot : (n + 1) / 16 = n / 16 + 1 := by omega
    have hrem : (n + 1) % 16 = 0 := by omega
    have hsent : (paired s).packet.finalize (paired s).seq = packetNo (n / 16) := by
      rw [hpacket, hlast]
      exact congrArg _ h.seq
    simp only [sendIfFull, hfull, ↓reduceIte, hsent]
    refine ⟨?_, ?_, hstamp, ?_, ?_⟩
    · rw [hrem]
      rfl
    · rw [hquot, BitVec.ofNat_add]
      exact congrArg (· + 1) h.seq
    · rw [pushed_append, h.pushes, hpushes, hstamp]
      rfl
    · rw [handed_append, h.packets, hquot, List.range_succ, List.map_append]
      rfl
  · rw [decide_eq_false hlast] at hfull
    have hquot : (n + 1) / 16 = n / 16 := by omega
    have hrem : (n + 1) % 16 = n % 16 + 1 := by omega
    simp only [sendIfFull, hfull, Bool.false_eq_true, ↓reduceIte]
    refine ⟨?_, ?_, hstamp, ?_, ?_⟩
    · rw [hquot, hrem, hpacket]
    · rw [hquot]
      exact h.seq
    · rw [pushed_append, h.pushes, hpushes, hstamp]
      rfl
    · rw [handed_append, h.packets, hquot]
      exact List.append_nil _

end

def sentBytes (transport : Transport) (es : List Event) : List U8 :=
  if transport.enabled then (sends es).flatMap fun send => asBytes send.2 send.1 else []

theorem sentBytes_append (transport : Transport) (es fs : List Event) :
    sentBytes transport (es ++ fs) = sentBytes transport es ++ sentBytes transport fs := by
  unfold sentBytes
  rw [sends_append]
  split
  · rw [List.flatMap_append]
  · rfl

theorem sendIfFull_transport (s : TransportTask) (padding : ℕ → U8) :
    (sendIfFull s padding).1.transport.enabled = s.transport.enabled ∧
      (sendIfFull s padding).1.transport.uart =
        s.transport.uart ++ sentBytes s.transport (sendIfFull s padding).2 := by
  unfold sendIfFull sentBytes Transport.sendPacket
  cases s.packet.isFull <;> cases henabled : s.transport.enabled <;> simp [sends, henabled]

theorem iteration_transport {p : Profile} {s u : TransportTask} {padding : ℕ → U8} {fs : List Event}
    (h : iteration p s padding = some (u, fs)) :
    u.transport.enabled = s.transport.enabled ∧
      u.transport.uart = s.transport.uart ++ sentBytes s.transport fs := by
  rw [iteration_eq] at h
  obtain ⟨rfl, rfl⟩ := Prod.mk.inj (Option.some.inj h)
  exact sendIfFull_transport (paired s) padding

section
variable {p : Profile} {transport : Transport} {configPadding : ℕ → U8}

theorem start_after (transport : Transport) (configPadding : ℕ → U8) :
    After 0 [] (TransportTask.start transport configPadding) := ⟨rfl, rfl, rfl, rfl, rfl⟩

theorem run_after (p : Profile) (transport : Transport) (configPadding : ℕ → U8)
    (paddings : List (ℕ → U8)) :
    ∃ s es, transportTask p transport configPadding paddings = some (s, es) ∧
      After paddings.length es s := by
  refine run_total (fun _ => True) (fun paddings es s => After paddings.length es s)
    (fun _ _ _ => trivial) (start_after transport configPadding) ?_ paddings trivial
  intro paddings es s padding _ h
  obtain ⟨u, fs, hstep, hnext⟩ := h.next p padding
  exact ⟨u, fs, hstep, by rwa [List.length_append, List.length_singleton]⟩

/-- The settings are always sent, the packets only by an enabled transport. -/
theorem run_uart : ∀ paddings s es,
    transportTask p transport configPadding paddings = some (s, es) →
      s.transport.enabled = transport.enabled ∧
        s.transport.uart = transport.uart ++ AcquisitionConfig.default.rawBytes configPadding ++
          sentBytes transport es := by
  refine run_history (fun _ es (s : TransportTask) => s.transport.enabled = transport.enabled ∧
    s.transport.uart = transport.uart ++ AcquisitionConfig.default.rawBytes configPadding ++
      sentBytes transport es) ⟨rfl, ?_⟩ ?_
  · unfold sentBytes
    split <;> exact (List.append_nil _).symm
  · rintro paddings es s padding u fs ⟨henabled, huart⟩ hstep
    obtain ⟨henabled', huart'⟩ := iteration_transport hstep
    have hsame : sentBytes s.transport fs = sentBytes transport fs := by
      unfold sentBytes
      rw [henabled]
    refine ⟨henabled'.trans henabled, ?_⟩
    rw [huart', huart, hsame, sentBytes_append, List.append_assoc _ (sentBytes transport es)]

end

theorem packetNo_spec (k : ℕ) :
    (packetNo k).magic = SamplePacket.packetMagic ∧ (packetNo k).seq.toNat = k % 2 ^ 16 ∧
      (packetNo k).count.toNat = samplesPerPacket := by
  have hfull : (SamplePacket.new.pushAll (callsFrom (16 * k) 16)).isFull = true := by
    rw [pushAll_isFull, callsFrom_length]
    rfl
  have hcount := (SamplePacket.pushAll_full hfull).1
  unfold packetNo
  generalize SamplePacket.new.pushAll (callsFrom (16 * k) 16) = built at hcount ⊢
  exact ⟨rfl, BitVec.toNat_ofNat k 16, hcount⟩

theorem packetNo_filled (k : ℕ) :
    (packetNo k).filled = (callsFrom (16 * k) 16).map PushCall.sample := by
  rw [packetNo, SamplePacket.finalize_filled, SamplePacket.new_pushAll_filled,
    List.take_of_length_le]
  rw [List.length_map, callsFrom_length]

theorem packets_filled (q : ℕ) :
    ((List.range q).map packetNo).flatMap SamplePacket.filled =
      (callsFrom 0 (16 * q)).map PushCall.sample := by
  induction q with
  | zero => rfl
  | succ q ih =>
    rw [List.range_succ, List.map_append, List.flatMap_append, ih, Nat.mul_succ, callsFrom_split,
      List.map_append]
    simp [packetNo_filled]

/-- The whole run of the task: no sample is ever dropped, and every sixteenth iteration hands over
the packet of its stretch. -/
theorem transportTask_stream (p : Profile) (transport : Transport) (configPadding : ℕ → U8)
    (paddings : List (ℕ → U8)) :
    ∃ s es, transportTask p transport configPadding paddings = some (s, es) ∧
      pushed es = (List.range paddings.length).flatMap turnCalls ∧
      handed es = (List.range (paddings.length / 16)).map packetNo ∧
      (handed es).flatMap SamplePacket.filled ++ s.packet.filled =
        (pushed es).map PushCall.sample ∧
      s.transport.uart = transport.uart ++ AcquisitionConfig.default.rawBytes configPadding ++
        (if transport.enabled then (sends es).flatMap fun send => asBytes send.2 send.1
          else []) := by
  obtain ⟨s, es, hrun, h⟩ := run_after p transport configPadding paddings
  refine ⟨s, es, hrun, ?_, h.packets, ?_, (run_uart paddings s es hrun).2⟩
  · rw [h.pushes, callsFrom, List.range_eq_range']
  · have hsplit : callsFrom 0 paddings.length = callsFrom 0 (16 * (paddings.length / 16)) ++
        callsFrom (16 * (paddings.length / 16)) (paddings.length % 16) := by
      rw [← callsFrom_split, Nat.div_add_mod]
    have hopen : s.packet.filled =
        (callsFrom (16 * (paddings.length / 16)) (paddings.length % 16)).map PushCall.sample := by
      rw [h.packet, SamplePacket.new_pushAll_filled, List.take_of_length_le]
      rw [List.length_map, callsFrom_length]
      change _ ≤ 32
      omega
    rw [h.packets, packets_filled, hopen, h.pushes, hsplit, List.map_append]

end EmbeddedDaq.TransportTaskStream

import EmbeddedDaq.HostArrivals
import EmbeddedDaq.HostGrammar
import EmbeddedDaq.HostRun
import EmbeddedDaq.TransportTaskStream
import EmbeddedDaq.WireFormat

set_option autoImplicit false

namespace EmbeddedDaq.Telemetry
open FirmwareWords FirmwareTransport SharedPacket SharedPacketBytes SharedConfig HostPacket
  HostClient HostScan HostArrivals HostRun WireFormat GeneralWindowSearch GeneralLittleEndian
open FirmwareAdcTask (Event AdcTask Turn adcRun)
open FirmwareTransportTask (transportTask)
open AdcTaskFront AdcTaskStream
open TransportTaskStream (packetNo packetNo_spec run_after run_uart)

/-- The bytes of one write, with what its padding held. -/
def writeBytes (send : SamplePacket × (ℕ → U8)) : List Byte := asBytes send.2 send.1

def Numbered (packets : List (SamplePacket × (ℕ → U8))) : Prop :=
  ∀ (k : ℕ) send, packets[k]? = some send → send.1.magic = SamplePacket.packetMagic ∧
    send.1.seq.toNat = k % 2 ^ 16 ∧ send.1.count.toNat = samplesPerPacket

/-- The client receives `n` packets numbered from zero, takes them for full ones, and warns about
those at which the numbers start over. -/
def ReceivesNumbered (n : ℕ) (polls : List (List Byte)) : Prop :=
  ∃ pkts, Received polls pkts ∧
    pkts.map (fun pkt => (pkt.seq, pkt.count)) = (List.range n).map (fun k => (k % 2 ^ 16, 32)) ∧
    (run (pkts.map .packet)).receptions.map Prod.snd =
      (List.range n).map fun k => decide (0 < k ∧ k % 2 ^ 16 = 0)

theorem window_head (data : List Byte) :
    magicOf (window packetSize 0 data) = magicOf data ∧
      seqOf (window packetSize 0 data) = seqOf data ∧
      countOf (window packetSize 0 data) = countOf data := by
  rw [window, List.drop_zero]
  have hslice : ∀ a b, b ≤ 6 → slice a b (data.take packetSize) = slice a b data := by
    intro a b hb
    have hsize : 6 ≤ packetSize := by decide
    exact HostGrammar.slice_take (Nat.le_trans hb hsize)
  unfold magicOf seqOf countOf
  rw [hslice 0 2 (by omega), hslice 2 4 (by omega), hslice 4 6 (by omega)]
  exact ⟨rfl, rfl, rfl⟩

section
variable {send : SamplePacket × (ℕ → U8)} {k : ℕ}

theorem decoded_write (send : SamplePacket × (ℕ → U8)) :
    (decoded (window packetSize 0 (writeBytes send))).seq = send.1.seq.toNat ∧
      (decoded (window packetSize 0 (writeBytes send))).count = send.1.count.toNat := by
  obtain ⟨-, hseq, hcount⟩ := window_head (writeBytes send)
  unfold decoded
  dsimp only
  rw [hseq, hcount, writeBytes]
  exact ⟨seqOf_asBytes send.2 send.1, countOf_asBytes send.2 send.1⟩

theorem write_valid (hmagic : send.1.magic = SamplePacket.packetMagic)
    (hcount : send.1.count.toNat = samplesPerPacket) :
    packetSize ≤ (writeBytes send).length ∧
      ValidWindow (window packetSize 0 (writeBytes send)) := by
  obtain ⟨hmagic', -, hcount'⟩ := window_head (writeBytes send)
  have hwire : magicOf (writeBytes send) = send.1.magic.toNat := magicOf_asBytes send.2 send.1
  have hfull : countOf (writeBytes send) = send.1.count.toNat := countOf_asBytes send.2 send.1
  refine ⟨?_, ?_, ?_, ?_⟩
  · rw [writeBytes, asBytes_length]
    decide
  · rw [hmagic', hwire, hmagic]
    rfl
  · rw [hcount', hfull, hcount]
    decide
  · rw [hcount', hfull, hcount]
    decide

end

theorem Numbered.valid {packets : List (SamplePacket × (ℕ → U8))} (h : Numbered packets) :
    ∀ write ∈ packets.map writeBytes,
      packetSize ≤ write.length ∧ ValidWindow (window packetSize 0 write) := by
  intro write hwrite
  obtain ⟨send, hsend, rfl⟩ := List.mem_map.mp hwrite
  obtain ⟨k, hk⟩ := List.mem_iff_getElem?.mp hsend
  obtain ⟨hmagic, -, hcount⟩ := h k send hk
  exact write_valid hmagic hcount

theorem checked_numbers {pkts : List HostSamplePacket} {first : ℕ} {lastSeq : ℤ}
    (hlast : lastSeq = if first = 0 then (-1 : ℤ) else (((first - 1) % 2 ^ 16 : ℕ) : ℤ))
    (hseq : pkts.map HostSamplePacket.seq = (List.range' first pkts.length).map (· % 2 ^ 16)) :
    (checked lastSeq pkts).map Prod.snd =
      (List.range' first pkts.length).map fun k => decide (0 < k ∧ k % 2 ^ 16 = 0) := by
  induction pkts generalizing first lastSeq with
  | nil => rfl
  | cons pkt pkts ih =>
    rw [List.length_cons, List.range'_succ, List.map_cons, List.map_cons] at hseq
    obtain ⟨hhead, htail⟩ := List.cons.inj hseq
    have hrest : (checked pkt.seq pkts).map Prod.snd =
        (List.range' (first + 1) pkts.length).map fun k => decide (0 < k ∧ k % 2 ^ 16 = 0) := by
      refine ih ?_ htail
      rw [if_neg (Nat.succ_ne_zero first), Nat.add_sub_cancel, hhead]
    have hwarn : ((pkt.seq : ℤ) ≤ lastSeq) ↔ (0 < first ∧ first % 2 ^ 16 = 0) := by
      rw [hlast, hhead]
      split <;> omega
    rw [List.length_cons, List.range'_succ, List.map_cons, ← hrest, checked, List.map_cons,
      decide_eq_decide.mpr hwarn]

theorem receptions_packets (c : Client) (pkts : List HostSamplePacket) :
    (runLoop c (pkts.map .packet)).receptions = checked c.lastSeq pkts := by
  induction pkts generalizing c with
  | nil => rfl
  | cons pkt pkts ih =>
    rw [List.map_cons, runLoop_packet, checked, ← receive_warns c pkt]
    exact congrArg (List.cons _) (ih (c.receive pkt).1)

theorem decoded_numbers {packets : List (SamplePacket × (ℕ → U8))} {first : ℕ}
    (h : ∀ (k : ℕ) send, packets[k]? = some send →
      send.1.seq.toNat = (first + k) % 2 ^ 16 ∧ send.1.count.toNat = samplesPerPacket) :
    (packets.map fun send => decoded (window packetSize 0 (writeBytes send))).map
      (fun pkt => (pkt.seq, pkt.count)) =
        (List.range' first packets.length).map (fun k => (k % 2 ^ 16, 32)) := by
  apply List.ext_getElem
  · simp
  · intro k hk hk'
    have hlt : k < packets.length := by simpa using hk
    obtain ⟨hseq, hcount⟩ := h k packets[k] (List.getElem?_eq_getElem hlt)
    obtain ⟨hseq', hcount'⟩ := decoded_write packets[k]
    simp only [List.getElem_map, List.getElem_range', Nat.one_mul, Prod.mk.injEq]
    exact ⟨hseq'.trans hseq, hcount'.trans hcount⟩

theorem seqs_of_numbers {pkts : List HostSamplePacket} {first n : ℕ}
    (h : pkts.map (fun pkt => (pkt.seq, pkt.count)) =
      (List.range' first n).map (fun k => (k % 2 ^ 16, 32))) :
    pkts.length = n ∧
      pkts.map HostSamplePacket.seq = (List.range' first n).map (· % 2 ^ 16) := by
  have hlength := congrArg List.length h
  have hfirst := congrArg (List.map Prod.fst) h
  rw [List.length_map, List.length_map, List.length_range'] at hlength
  exact ⟨hlength, by simpa only [List.map_map, Function.comp_def] using hfirst⟩

theorem receivesNumbered {packets : List (SamplePacket × (ℕ → U8))} {polls : List (List Byte)}
    (hnumbered : Numbered packets)
    (hreceived : Received polls (packets.map fun send =>
      decoded (window packetSize 0 (writeBytes send)))) :
    ReceivesNumbered packets.length polls := by
  have hspec : ∀ (k : ℕ) send, packets[k]? = some send →
      send.1.seq.toNat = (0 + k) % 2 ^ 16 ∧ send.1.count.toNat = samplesPerPacket := by
    intro k send hk
    rw [Nat.zero_add]
    exact (hnumbered k send hk).2
  have hnumbers := decoded_numbers hspec
  obtain ⟨hlength, hseqs⟩ := seqs_of_numbers hnumbers
  rw [← List.range_eq_range'] at hnumbers
  refine ⟨_, hreceived, hnumbers, ?_⟩
  rw [← hlength] at hseqs
  have hchecked := checked_numbers (show Client.init.lastSeq = _ from rfl) hseqs
  rw [run, receptions_packets, hchecked, hlength, ← List.range_eq_range']

section
variable {p : Profile} {transport : Transport}

theorem adc_uart (henabled : transport.enabled = true) :
    ∀ turns s es, adcRun p transport turns = some (s, es) →
      s.transport.enabled = true ∧
        s.transport.uart = transport.uart ++ (sends es).flatMap writeBytes := by
  refine adcRun_induction (fun _ es s => s.transport.enabled = true ∧
    s.transport.uart = transport.uart ++ (sends es).flatMap writeBytes)
    ⟨henabled, (List.append_nil _).symm⟩ ?_
  rintro turns es s turn u fs g ⟨hon, huart⟩ _ houtcome _
  cases houtcome with
  | skipped hg hu hes =>
    rw [hu, hes, List.append_nil]
    exact ⟨hon, huart⟩
  | kept hroom hpacket hseq htransport hes =>
    rw [htransport, hes, sends_append, sends_pushes, List.append_nil]
    exact ⟨hon, huart⟩
  | handed hfull hpacket hseq htransport hes =>
    rw [htransport, hes, sends_append, sends_append, sends_pushes, List.nil_append,
      List.flatMap_append, ← List.append_assoc, ← huart]
    simp [Transport.sendPacket, hon, sends, writeBytes]

theorem adc_numbered {turns : List Turn} {s : AdcTask} {es : List Event}
    (h : adcRun p transport turns = some (s, es)) : Numbered (sends es) := by
  intro k send hk
  have hhanded : (handed es)[k]? = some send.1 := by rw [handed, List.getElem?_map, hk]; rfl
  rw [← episodes_packets [], List.getElem?_map, Option.map_eq_some_iff] at hhanded
  obtain ⟨⟨calls, pkt⟩, hepisode, hpkt⟩ := hhanded
  obtain ⟨hmagic, hseq, hcount, -, -⟩ := (run_tracks turns s es h).episode hepisode
  rw [← hpkt]
  exact ⟨hmagic, hseq, hcount⟩

end

/-- The acquisition task with its transport enabled, to the client's warnings. -/
theorem adc_telemetry (p : Profile) (turns : List Turn) (s : AdcTask) (es : List Event)
    (groups : List (List (List Byte))) (idle : List (List Byte))
    (hrun : adcRun p (Transport.new.setEnabled true) turns = some (s, es))
    (harrive : List.Forall₂ (Arrives []) ((sends es).map writeBytes) groups)
    (hidle : idle.flatten = []) :
    (groups.flatten ++ idle).flatten = s.transport.uart ∧
      ReceivesNumbered (handed es).length (groups.flatten ++ idle) := by
  have hnumbered := adc_numbered hrun
  constructor
  · rw [List.flatten_append, hidle, arrivals_flatten harrive, (adc_uart rfl turns s es hrun).2,
      List.append_nil, List.flatMap_def]
    rfl
  · have hreceived := received_writes harrive hnumbered.valid hidle
    rw [List.map_map] at hreceived
    have hlength : (handed es).length = (sends es).length := List.length_map _
    rw [hlength]
    exact receivesNumbered hnumbered hreceived

/-- Sixteen reads fill one packet; each of two arrives cut at its byte 300. -/
theorem adc_telemetry_filling : ∃ s es,
    adcRun .release (Transport.new.setEnabled true) (fillingTurns ++ fillingTurns) = some (s, es) ∧
      (handed es).length = 2 ∧
      ((eachCut 300 ((sends es).map writeBytes)).flatten ++ [[]]).flatten = s.transport.uart ∧
      ReceivesNumbered (handed es).length
        ((eachCut 300 ((sends es).map writeBytes)).flatten ++ [[]]) := by
  obtain ⟨⟨s, es⟩, hrun, htwo⟩ := Option.map_eq_some_iff.mp
    (show (adcRun .release (Transport.new.setEnabled true) (fillingTurns ++ fillingTurns)).map
      (fun r => (handed r.2).length) = some 2 by decide +kernel)
  have hfits : ∀ write ∈ (sends es).map writeBytes, 300 ≤ write.length := by
    intro write hwrite
    obtain ⟨send, -, rfl⟩ := List.mem_map.mp hwrite
    rw [writeBytes, asBytes_length]
    decide
  exact ⟨s, es, hrun, htwo, adc_telemetry .release (fillingTurns ++ fillingTurns) s es _ [[]] hrun
    (eachCut_arrive (by decide) hfits) rfl⟩

theorem task_numbered {es : List Event} {n : ℕ}
    (h : handed es = (List.range n).map packetNo) : Numbered (sends es) := by
  intro k send hk
  have hhanded : (handed es)[k]? = some send.1 := by rw [handed, List.getElem?_map, hk]; rfl
  rw [h, List.getElem?_map, Option.map_eq_some_iff] at hhanded
  obtain ⟨k', hrange, hpkt⟩ := hhanded
  obtain ⟨hlt, rfl⟩ := List.getElem?_eq_some_iff.mp hrange
  rw [← hpkt, List.getElem_range]
  exact packetNo_spec k

theorem rawBytes_default (pad : ℕ → U8) : AcquisitionConfig.default.rawBytes pad =
    [0x10, 0x27, 0, 0, 0x03, pad 5, 0, 0x10] := by
  rw [AcquisitionConfig.rawBytes_eq]
  rfl

/-- The settings never look like a header, not even with the packet behind them. -/
theorem settings_silent (pad : ℕ → U8) : Silent (AcquisitionConfig.default.rawBytes pad) := by
  rw [rawBytes_default]
  intro j h
  match j with
  | 5 => exact fun hnext => absurd (Option.some.inj hnext) (by decide)
  | 0 | 1 | 2 | 3 | 4 | 6 | 7 => exact absurd (Option.some.inj h) (by decide)
  | j + 8 => cases h

/-- The transport task with its transport enabled, to the client's warnings. -/
theorem transportTask_telemetry (p : Profile) (configPadding : ℕ → U8) (paddings : List (ℕ → U8))
    (s : FirmwareTransportTask.TransportTask) (es : List Event) (groups : List (List (List Byte)))
    (idle : List (List Byte))
    (hrun : transportTask p (Transport.new.setEnabled true) configPadding paddings = some (s, es))
    (harrive : ArriveAfter (AcquisitionConfig.default.rawBytes configPadding)
      ((sends es).map writeBytes) groups)
    (hidle : idle.flatten = []) :
    (groups.flatten ++ idle).flatten = s.transport.uart ∧
      ReceivesNumbered (paddings.length / 16) (groups.flatten ++ idle) := by
  obtain ⟨s', es', hrun', hafter⟩ :=
    run_after p (Transport.new.setEnabled true) configPadding paddings
  obtain ⟨rfl, rfl⟩ := Prod.mk.inj (Option.some.inj (hrun'.symm.trans hrun))
  have hnumbered := task_numbered hafter.packets
  constructor
  · rw [List.flatten_append, hidle, arriveAfter_flatten harrive,
      (run_uart paddings _ _ hrun).2, List.append_nil, ← List.flatMap_def]
    rfl
  · have hreceived :=
      received_after (settings_silent configPadding) harrive hnumbered.valid hidle
    rw [List.map_map] at hreceived
    have hlength : (sends es').length = paddings.length / 16 := by
      have h := congrArg List.length hafter.packets
      rwa [handed, List.length_map, List.length_map, List.length_range] at h
    rw [← hlength]
    exact receivesNumbered hnumbered hreceived

/-- The settings and the first packet, in one poll. -/
theorem transportTask_telemetry_first : ∃ s es send,
    transportTask .dev (Transport.new.setEnabled true) (fun _ => 0x71)
        (List.replicate 16 fun _ => 0) = some (s, es) ∧
      sends es = [send] ∧
      AcquisitionConfig.default.rawBytes (fun _ => 0x71) ++ writeBytes send = s.transport.uart ∧
      ReceivesNumbered 1
        [AcquisitionConfig.default.rawBytes (fun _ => 0x71) ++ writeBytes send] := by
  obtain ⟨s, es, hrun, hafter⟩ :=
    run_after .dev (Transport.new.setEnabled true) (fun _ => 0x71) (List.replicate 16 fun _ => 0)
  have hone : (sends es).map Prod.fst = [packetNo 0] := hafter.packets
  obtain ⟨send, hsend, -⟩ := List.map_eq_singleton_iff.mp hone
  have harrive : ArriveAfter (AcquisitionConfig.default.rawBytes fun _ => 0x71)
      ((sends es).map writeBytes)
      [[AcquisitionConfig.default.rawBytes (fun _ => 0x71) ++ writeBytes send]] := by
    rw [hsend]
    exact ⟨arrives_together _ _, .nil⟩
  obtain ⟨huart, hreceives⟩ := transportTask_telemetry .dev (fun _ => 0x71)
    (List.replicate 16 fun _ => 0) s es _ [] hrun harrive rfl
  rw [List.append_nil, List.flatten_singleton] at huart hreceives
  rw [List.flatten_singleton] at huart
  rw [List.length_replicate] at hreceives
  exact ⟨s, es, send, hrun, hsend, huart, hreceives⟩

end EmbeddedDaq.Telemetry

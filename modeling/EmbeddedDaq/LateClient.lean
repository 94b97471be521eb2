import EmbeddedDaq.Telemetry

set_option autoImplicit false

namespace EmbeddedDaq.LateClient
open FirmwareWords FirmwareTransport SharedPacket SharedPacketBytes HostPacket HostClient
open HostArrivals HostRun Telemetry GeneralLittleEndian GeneralReprC GeneralWindowSearch
open FirmwareAdcTask (Event AdcTask Turn adcRun)
open AdcTaskFront AdcTaskStream

/-- The client receives `n` packets, the first of them numbered `first`, and warns about those
behind it at which the numbers start over. -/
def ReceivesFrom (first n : ℕ) (polls : List (List Byte)) : Prop :=
  ∃ pkts, Received polls pkts ∧
    pkts.map (fun pkt => (pkt.seq, pkt.count)) =
      (List.range' first n).map (fun k => (k % 2 ^ 16, 32)) ∧
    (run (pkts.map .packet)).receptions.map Prod.snd =
      (List.range' first n).map fun k => decide (first < k ∧ k % 2 ^ 16 = 0)

/-- Nothing was received before the first packet, so its number is not compared with any. -/
theorem joined_numbers {pkts : List HostSamplePacket} {first : ℕ}
    (hseq : pkts.map HostSamplePacket.seq = (List.range' first pkts.length).map (· % 2 ^ 16)) :
    (checked (-1) pkts).map Prod.snd =
      (List.range' first pkts.length).map fun k => decide (first < k ∧ k % 2 ^ 16 = 0) := by
  cases pkts with
  | nil => rfl
  | cons pkt pkts =>
    rw [List.length_cons, List.range'_succ, List.map_cons, List.map_cons] at hseq
    obtain ⟨hhead, htail⟩ := List.cons.inj hseq
    have hlast : (pkt.seq : ℤ) = if first + 1 = 0 then (-1 : ℤ)
        else (((first + 1 - 1) % 2 ^ 16 : ℕ) : ℤ) := by
      rw [if_neg (Nat.succ_ne_zero first), Nat.add_sub_cancel, hhead]
    have hnever : ¬((pkt.seq : ℤ) ≤ -1) := by omega
    have hlater : (List.range' (first + 1) pkts.length).map
        (fun k => decide (0 < k ∧ k % 2 ^ 16 = 0)) =
          (List.range' (first + 1) pkts.length).map
            fun k => decide (first < k ∧ k % 2 ^ 16 = 0) := by
      refine List.map_congr_left ?_
      intro k hk
      have hlower := (List.mem_range'_1.mp hk).1
      rw [decide_eq_decide]
      omega
    rw [List.length_cons, List.range'_succ, List.map_cons, checked, List.map_cons,
      checked_numbers hlast htail, hlater, decide_eq_false hnever,
      decide_eq_false fun h => Nat.lt_irrefl first h.1]

theorem receivesFrom {packets : List (SamplePacket × (ℕ → U8))} {polls : List (List Byte)}
    {first : ℕ}
    (hnumbered : ∀ (k : ℕ) send, packets[k]? = some send →
      send.1.seq.toNat = (first + k) % 2 ^ 16 ∧ send.1.count.toNat = samplesPerPacket)
    (hreceived : Received polls (packets.map fun send =>
      decoded (window packetSize 0 (writeBytes send)))) :
    ReceivesFrom first packets.length polls := by
  have hnumbers := decoded_numbers hnumbered
  obtain ⟨hlength, hseqs⟩ := seqs_of_numbers hnumbers
  refine ⟨_, hreceived, hnumbers, ?_⟩
  rw [← hlength] at hseqs
  have hchecked := joined_numbers hseqs
  rw [hlength] at hchecked
  rw [run, receptions_packets]
  exact hchecked

theorem stream_from {packets : List (SamplePacket × (ℕ → U8))} {i offset : ℕ}
    {send : SamplePacket × (ℕ → U8)} (hsend : packets[i]? = some send) (hoffset : offset ≤ 520) :
    (packets.flatMap writeBytes).drop (520 * i + offset) =
      (writeBytes send).drop offset ++ ((packets.drop (i + 1)).map writeBytes).flatten := by
  obtain ⟨hi, rfl⟩ := List.getElem?_eq_some_iff.mp hsend
  have hbefore : ((packets.take i).flatMap writeBytes).length = 520 * i := by
    have hlength : ∀ packet, (writeBytes packet).length = 520 := fun packet => asBytes_length _ _
    simp only [List.length_flatMap, hlength, List.map_const', List.sum_replicate_nat,
      List.length_take]
    rw [Nat.min_eq_left (Nat.le_of_lt hi), Nat.mul_comm]
  have hsplit : packets = packets.take i ++ packets[i] :: packets.drop (i + 1) := by
    rw [List.getElem_cons_drop, List.take_append_drop]
  have hfits : offset ≤ (writeBytes packets[i]).length := by
    rw [writeBytes, asBytes_length]
    exact hoffset
  conv_lhs => rw [hsplit]
  rw [List.flatMap_append, List.flatMap_cons, ← hbefore, List.drop_length_add_append,
    List.drop_append_of_le_length hfits, List.flatMap_def]

/-- A client that opens the port at any byte of a packet, the rest of which is silent, receives
every packet behind it, and warns exactly where the numbers start over. -/
theorem adc_telemetry_joined (p : Profile) (turns : List Turn) (s : AdcTask) (es : List Event)
    (i offset : ℕ) (send : SamplePacket × (ℕ → U8)) (groups : List (List (List Byte)))
    (idle : List (List Byte))
    (hrun : adcRun p (Transport.new.setEnabled true) turns = some (s, es))
    (hsend : (sends es)[i]? = some send) (hoffset : offset ≤ 520)
    (hsilent : Silent ((writeBytes send).drop offset))
    (harrive : ArriveAfter ((writeBytes send).drop offset)
      (((sends es).drop (i + 1)).map writeBytes) groups)
    (hidle : idle.flatten = []) :
    (groups.flatten ++ idle).flatten = s.transport.uart.drop (520 * i + offset) ∧
      ReceivesFrom (i + 1) ((handed es).length - (i + 1)) (groups.flatten ++ idle) := by
  have hnumbered := adc_numbered hrun
  have hspec : ∀ (k : ℕ) packet, ((sends es).drop (i + 1))[k]? = some packet →
      packet.1.magic = SamplePacket.packetMagic ∧
        packet.1.seq.toNat = (i + 1 + k) % 2 ^ 16 ∧ packet.1.count.toNat = samplesPerPacket := by
    intro k packet hk
    rw [List.getElem?_drop] at hk
    exact hnumbered (i + 1 + k) packet hk
  constructor
  · rw [List.flatten_append, hidle, List.append_nil, arriveAfter_flatten harrive,
      (adc_uart rfl turns s es hrun).2]
    exact (stream_from hsend hoffset).symm
  · have hvalid : ∀ write ∈ ((sends es).drop (i + 1)).map writeBytes,
        packetSize ≤ write.length ∧ HostScan.ValidWindow (window packetSize 0 write) := by
      intro write hwrite
      obtain ⟨packet, hpacket, rfl⟩ := List.mem_map.mp hwrite
      obtain ⟨k, hk⟩ := List.mem_iff_getElem?.mp hpacket
      obtain ⟨hmagic, -, hcount⟩ := hspec k packet hk
      exact write_valid hmagic hcount
    have hreceived := received_after hsilent harrive hvalid hidle
    rw [List.map_map] at hreceived
    have hlength : (handed es).length - (i + 1) = ((sends es).drop (i + 1)).length := by
      rw [List.length_drop, handed, List.length_map]
    rw [hlength]
    exact receivesFrom (fun k packet hk => (hspec k packet hk).2) hreceived

/-- The port is opened before the last four samples of the first of two packets. -/
theorem adc_telemetry_joined_second : ∃ s es send,
    adcRun .release (Transport.new.setEnabled true) (fillingTurns ++ fillingTurns) = some (s, es) ∧
      (sends es)[0]? = some send ∧ ((writeBytes send).drop 456).length = 64 ∧
      ∃ polls, polls.flatten = s.transport.uart.drop (520 * 0 + 456) ∧ polls.length = 3 ∧
        ReceivesFrom 1 1 polls := by
  obtain ⟨⟨s, es⟩, hrun, hfacts⟩ := Option.map_eq_some_iff.mp
    (show (adcRun .release (Transport.new.setEnabled true) (fillingTurns ++ fillingTurns)).map
      (fun r => ((sends r.2).length,
        (sends r.2).all fun send => decide (Silent (fill (fun i => send.2 (8 + 16 * 28 + i))
          ((send.1.samples.toList.drop 28).flatMap fun s => (sampleImage s).cells))))) =
          some (2, true) by decide +kernel)
  obtain ⟨htwo, hquiet⟩ := Prod.mk.inj hfacts
  obtain ⟨first, second, hsends⟩ := List.length_eq_two.mp htwo
  have hsilent : Silent ((writeBytes first).drop (8 + 16 * 28)) := by
    rw [writeBytes, asBytes_drop _ _ (by decide)]
    refine of_decide_eq_true (List.all_eq_true.mp hquiet first ?_)
    rw [hsends]
    exact List.mem_cons_self
  have hlength : ∀ send, (writeBytes send).length = 520 := fun send => asBytes_length _ _
  have hlater : ((sends es).drop (0 + 1)).map writeBytes = [writeBytes second] := by
    rw [hsends]
    rfl
  have hcount : (handed es).length - (0 + 1) = 1 := by
    rw [handed, hsends]
    rfl
  have hfirst : (sends es)[0]? = some first := by
    rw [hsends]
    rfl
  have harrive : ArriveAfter ((writeBytes first).drop 456)
      (((sends es).drop (0 + 1)).map writeBytes)
      [[(writeBytes first).drop 456, (writeBytes second).take 300,
        (writeBytes second).drop 300]] := by
    rw [hlater]
    exact ⟨arrives_cut _ _ (by decide) (by rw [hlength]; decide), .nil⟩
  obtain ⟨hbytes, hreceives⟩ := adc_telemetry_joined .release (fillingTurns ++ fillingTurns) s es 0
    456 first _ [] hrun hfirst (by decide) hsilent harrive rfl
  rw [hcount] at hreceives
  refine ⟨s, es, first, hrun, hfirst, ?_, _, hbytes, rfl, hreceives⟩
  rw [List.length_drop, hlength]

end EmbeddedDaq.LateClient

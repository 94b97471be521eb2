import EmbeddedDaq.HostReception

set_option autoImplicit false

namespace EmbeddedDaq.HostLossless
open HostPacket HostClient HostScan HostReception GeneralLittleEndian GeneralWhileLoop
  GeneralWindowSearch

/-- Some number of polls brings exactly the first `b` bytes. -/
def Boundary (polls : List (List Byte)) (b : ℕ) : Prop :=
  ∃ n, (polls.take n).flatten.length = b

def WellFormedBytes (data : List Byte) : Prop :=
  data.length = packetSize ∧ ValidWindow data

/-- Successive calls return what the parser makes of these packets, and no more. -/
def Delivered (polls packets : List (List Byte)) : Prop :=
  ∃ pkts, packets.mapM HostSamplePacket.fromBytes = .ok pkts ∧ Received polls pkts

theorem take_flatten_mono {m n : ℕ} (h : m ≤ n) (polls : List (List Byte)) :
    (polls.take m).flatten.length ≤ (polls.take n).flatten.length := by
  obtain ⟨d, rfl⟩ := Nat.exists_eq_add_of_le h
  rw [List.take_add, List.flatten_append, List.length_append]
  exact Nat.le_add_right _ _

theorem boundary_zero (polls : List (List Byte)) : Boundary polls 0 :=
  ⟨0, rfl⟩

theorem boundary_append (before rest : List (List Byte)) (b : ℕ) :
    Boundary (before ++ rest) (before.flatten.length + b) ↔ Boundary rest b := by
  constructor
  · rintro ⟨n, hn⟩
    rw [List.take_append, List.flatten_append, List.length_append] at hn
    rcases Nat.le_total before.length n with hle | hle
    · rw [List.take_of_length_le hle] at hn
      exact ⟨n - before.length, by omega⟩
    · have hsplit := congrArg (fun l => l.flatten.length) (List.take_append_drop n before)
      rw [List.flatten_append, List.length_append] at hsplit
      rw [Nat.sub_eq_zero_of_le hle, List.take_zero, List.flatten_nil, List.length_nil] at hn
      obtain rfl : b = 0 := by omega
      exact boundary_zero rest
  · rintro ⟨n, rfl⟩
    refine ⟨before.length + n, ?_⟩
    rw [List.take_length_add_append, List.flatten_append, List.length_append]

theorem pollLoop_consumes {fuel : ℕ} {buffer : List Byte} {polls rest : List (List Byte)}
    {pkt : HostSamplePacket} (h : pollLoop fuel buffer polls = some (.ok pkt, rest)) :
    ∃ before, polls = before ++ rest ∧ packetSize ≤ buffer.length + before.flatten.length := by
  induction polls generalizing buffer with
  | nil => exact absurd (Prod.mk.inj (Option.some.inj h)).1 (by simp [timedOut])
  | cons data polls ih =>
    by_cases hdata : 0 < data.length
    · cases hscan : runLoop (scanStep 0) fuel (buffer ++ data) with
      | none => simp only [pollLoop, hdata, hscan, ↓reduceIte, reduceCtorEq] at h
      | some scanned =>
        have hlen := scan_within ⟨fuel, hscan⟩
        rw [List.length_append] at hlen
        cases scanned with
        | packet found left =>
          rw [pollLoop_packet hdata hscan] at h
          obtain ⟨-, rfl⟩ := Prod.mk.inj (Option.some.inj h)
          refine ⟨[data], rfl, ?_⟩
          rw [List.flatten_singleton]
          exact hlen
        | exhausted left =>
          have hleft : left.length ≤ buffer.length + data.length := hlen
          rw [pollLoop_exhausted hdata hscan] at h
          obtain ⟨before, rfl, hbefore⟩ := ih h
          refine ⟨data :: before, rfl, ?_⟩
          rw [List.flatten_cons, List.length_append]
          omega
    · have hnil : data = [] := List.eq_nil_of_length_eq_zero (by omega)
      rw [hnil, pollLoop_idle] at h
      obtain ⟨before, rfl, hbefore⟩ := ih h
      exact ⟨data :: before, rfl, by rwa [hnil]⟩

theorem call_consumes {polls rest : List (List Byte)} {pkt : HostSamplePacket}
    (h : WaitReturns polls (.ok pkt) rest) :
    ∃ before, polls = before ++ rest ∧ packetSize ≤ before.flatten.length := by
  obtain ⟨fuel, hfuel⟩ := h
  obtain ⟨before, hpolls, hlen⟩ := pollLoop_consumes hfuel
  rw [List.length_nil, Nat.zero_add] at hlen
  exact ⟨before, hpolls, hlen⟩

theorem received_length {polls : List (List Byte)} {pkts : List HostSamplePacket}
    (h : Received polls pkts) : pkts.length * packetSize ≤ polls.flatten.length := by
  induction h with
  | done call => simp
  | next call later ih =>
    obtain ⟨before, rfl, hlen⟩ := call_consumes call
    rw [List.length_cons, Nat.succ_mul, List.flatten_append, List.length_append]
    omega

theorem received_boundary {polls : List (List Byte)} {pkts : List HostSamplePacket}
    (h : Received polls pkts) (hlen : polls.flatten.length = pkts.length * packetSize) :
    ∀ i ≤ pkts.length, Boundary polls (i * packetSize) := by
  induction h with
  | done call =>
    intro i hi
    obtain rfl : i = 0 := Nat.le_zero.mp hi
    rw [Nat.zero_mul]
    exact boundary_zero _
  | @next polls rest pkt pkts call later ih =>
    obtain ⟨before, rfl, hbefore⟩ := call_consumes call
    have hlater := received_length later
    rw [List.length_cons, Nat.succ_mul, List.flatten_append, List.length_append] at hlen
    have hexact : before.flatten.length = packetSize := by omega
    intro i hi
    cases i with
    | zero =>
      rw [Nat.zero_mul]
      exact boundary_zero _
    | succ i =>
      rw [Nat.succ_mul, Nat.add_comm, ← hexact, boundary_append, hexact]
      exact ih (by omega) i (Nat.le_of_succ_le_succ hi)

theorem first_packet {data : List Byte} (h : WellFormedBytes data) (later : List Byte) :
    First packetSize ValidWindow (data ++ later) 0 ∧
      window packetSize 0 (data ++ later) = data := by
  have hlen : 0 + packetSize ≤ data.length := by
    rw [h.1, Nat.zero_add]
  have hwindow : window packetSize 0 data = data := by
    rw [window, List.drop_zero, List.take_of_length_le (Nat.le_of_eq h.1)]
  refine ⟨First.append ⟨⟨hlen, ?_⟩, ?_⟩ later, ?_⟩
  · rw [hwindow]
    exact h.2
  · intro j hj
    exact absurd hj (Nat.not_lt_zero j)
  · rw [window_append hlen, hwindow]

theorem call_packet {data : List Byte} (h : WellFormedBytes data) {polls : List (List Byte)}
    {later : List Byte} (hpolls : polls.flatten = data ++ later)
    (hboundary : Boundary polls packetSize) :
    ∃ before rest, polls = before ++ rest ∧ before.flatten.length = packetSize ∧
      WaitReturns polls (.ok (decoded data)) rest := by
  obtain ⟨hfirst, hwindow⟩ := first_packet h later
  rw [← hpolls] at hfirst hwindow
  obtain ⟨before, last, rest, hsplit, hnone, hhit, hcall⟩ :=
    call_first hfirst (fun j hj => absurd hj (Nat.not_lt_zero j))
  rw [hwindow] at hcall
  have hassoc : polls = (before ++ [last]) ++ rest := by
    rw [hsplit, List.append_assoc, List.singleton_append]
  refine ⟨before ++ [last], rest, hassoc, ?_, hcall⟩
  have hge := hhit.1
  -- before the last poll less than a packet had arrived
  have hshort : before.flatten.length < packetSize := by
    by_contra hlong
    have hflat : polls.flatten = before.flatten ++ (last :: rest).flatten := by
      rw [hsplit, List.flatten_append]
    rw [hflat] at hfirst
    exact hnone 0 ((hit_append (by omega) _).mp hfirst.1)
  have htake : polls.take before.length = before := by
    rw [hsplit, List.take_left]
  have hnext : polls.take (before.length + 1) = before ++ [last] := by
    rw [hassoc]
    exact List.take_left' (List.length_append ..)
  obtain ⟨n, hn⟩ := hboundary
  rcases Nat.lt_or_ge before.length n with hlt | hle
  · have hupper := take_flatten_mono hlt polls
    rw [Nat.succ_eq_add_one, hnext] at hupper
    omega
  · have hlower := take_flatten_mono hle polls
    rw [htake] at hlower
    omega

theorem received_of_boundaries {packets : List (List Byte)}
    (hpackets : ∀ data ∈ packets, WellFormedBytes data) {polls : List (List Byte)}
    (hflat : polls.flatten = packets.flatten)
    (hboundary : ∀ i ≤ packets.length, Boundary polls (i * packetSize)) :
    Received polls (packets.map decoded) := by
  induction packets generalizing polls with
  | nil =>
    refine Received.done (call_timeout ?_ ?_) <;>
    · rw [hflat]
      exact no_hit_nil _
  | cons data packets ih =>
    have hone := hboundary 1 (by simp)
    rw [Nat.one_mul] at hone
    obtain ⟨before, rest, rfl, hexact, hcall⟩ :=
      call_packet (hpackets data List.mem_cons_self) hflat hone
    refine Received.next hcall (ih (fun d hd => hpackets d (List.mem_cons_of_mem data hd)) ?_ ?_)
    · have hdata := (hpackets data List.mem_cons_self).1
      rw [List.flatten_append, List.flatten_cons] at hflat
      exact (List.append_inj hflat (hexact.trans hdata.symm)).2
    · intro i hi
      have hsucc := hboundary (i + 1) (by rw [List.length_cons]; omega)
      rwa [Nat.succ_mul, Nat.add_comm, ← hexact, boundary_append, hexact] at hsucc

theorem mapM_decoded {packets : List (List Byte)}
    (hpackets : ∀ data ∈ packets, WellFormedBytes data) :
    packets.mapM HostSamplePacket.fromBytes = .ok (packets.map decoded) :=
  mapM_ok _ decoded packets fun data hdata =>
    fromBytes_valid (hpackets data hdata).1 (hpackets data hdata).2

theorem delivered_iff_received {packets : List (List Byte)}
    (hpackets : ∀ data ∈ packets, WellFormedBytes data) (polls : List (List Byte)) :
    Delivered polls packets ↔ Received polls (packets.map decoded) := by
  rw [Delivered, mapM_decoded hpackets]
  constructor
  · rintro ⟨pkts, hpkts, h⟩
    rw [Except.ok.inj hpkts]
    exact h
  · intro h
    exact ⟨_, rfl, h⟩

theorem flatten_length_packets {packets : List (List Byte)}
    (hpackets : ∀ data ∈ packets, WellFormedBytes data) :
    packets.flatten.length = packets.length * packetSize := by
  induction packets with
  | nil => rw [List.flatten_nil, List.length_nil, List.length_nil, Nat.zero_mul]
  | cons data packets ih =>
    have hdata := (hpackets data List.mem_cons_self).1
    have hrest := ih fun d hd => hpackets d (List.mem_cons_of_mem data hd)
    rw [List.flatten_cons, List.length_append, List.length_cons, Nat.succ_mul, hdata, hrest,
      Nat.add_comm]

theorem boundaries_of_delivered {packets : List (List Byte)}
    (hpackets : ∀ data ∈ packets, WellFormedBytes data) {polls : List (List Byte)}
    (hflat : polls.flatten = packets.flatten) (h : Delivered polls packets) :
    ∀ i ≤ packets.length, Boundary polls (i * packetSize) := by
  have hreceived := (delivered_iff_received hpackets polls).mp h
  have hlen : polls.flatten.length = (packets.map decoded).length * packetSize := by
    rw [hflat, flatten_length_packets hpackets, List.length_map]
  have hbound := received_boundary hreceived hlen
  rwa [List.length_map] at hbound

/-- Nothing is lost exactly when every packet ends where a poll ends. -/
theorem delivered_iff_aligned (packets : List (List Byte))
    (hpackets : ∀ data ∈ packets, WellFormedBytes data) (polls : List (List Byte))
    (hflat : polls.flatten = packets.flatten) :
    Delivered polls packets ↔ ∀ i ≤ packets.length, Boundary polls (i * packetSize) := by
  constructor
  · exact boundaries_of_delivered hpackets hflat
  · intro hboundary
    exact (delivered_iff_received hpackets polls).mpr
      (received_of_boundaries hpackets hflat hboundary)

theorem onePacket_header (seq : Byte) {a b : ℕ} (h : b ≤ 6) :
    slice a b (onePacket seq) = slice a b [0x71, 0xDA, seq, 0, 1, 0] := by
  rw [onePacket]
  exact slice_append h _

theorem onePacket_wellFormed (seq : Byte) : WellFormedBytes (onePacket seq) := by
  have hmagic : magicOf (onePacket seq) = packetMagic := by
    have hbytes : slice 0 2 [0x71, 0xDA, seq, 0, 1, 0] = [0x71, 0xDA] := rfl
    rw [magicOf, onePacket_header seq (by decide), hbytes]
    rfl
  have hcount : countOf (onePacket seq) = 1 := by
    rw [countOf, onePacket_header seq (by decide)]
    rfl
  refine ⟨onePacket_length seq, hmagic, ?_, ?_⟩
  · rw [hcount]
    exact Nat.one_pos
  · rw [hcount]
    decide

theorem twoPackets_wellFormed : ∀ data ∈ [onePacket 0, onePacket 1], WellFormedBytes data := by
  intro data hdata
  rcases List.mem_pair.mp hdata with rfl | rfl
  · exact onePacket_wellFormed 0
  · exact onePacket_wellFormed 1

theorem delivered_iff_aligned_two :
    Delivered [onePacket 0, onePacket 1] [onePacket 0, onePacket 1] ↔
      ∀ i ≤ [onePacket 0, onePacket 1].length,
        Boundary [onePacket 0, onePacket 1] (i * packetSize) :=
  delivered_iff_aligned [onePacket 0, onePacket 1] twoPackets_wellFormed
    [onePacket 0, onePacket 1] rfl

/-- Two packets that arrive in one poll: the second is lost. -/
theorem onePoll_not_delivered :
    (∀ data ∈ [onePacket 0, onePacket 1], WellFormedBytes data) ∧
      [onePacket 0 ++ onePacket 1].flatten = [onePacket 0, onePacket 1].flatten ∧
      ¬Delivered [onePacket 0 ++ onePacket 1] [onePacket 0, onePacket 1] := by
  have hflat : [onePacket 0 ++ onePacket 1].flatten = [onePacket 0, onePacket 1].flatten := by
    rw [List.flatten_singleton, List.flatten_cons, List.flatten_singleton]
  refine ⟨twoPackets_wellFormed, hflat, ?_⟩
  intro h
  obtain ⟨n, hn⟩ := boundaries_of_delivered twoPackets_wellFormed hflat h 1 (by simp)
  have hpos := packetSize_pos
  cases n with
  | zero =>
    rw [List.take_zero, List.flatten_nil, List.length_nil] at hn
    omega
  | succ n =>
    rw [List.take_succ_cons, List.take_nil, List.flatten_singleton, List.length_append,
      onePacket_length, onePacket_length] at hn
    omega

end EmbeddedDaq.HostLossless

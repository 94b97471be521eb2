import EmbeddedDaq.HostArrivals
import EmbeddedDaq.HostLossless

set_option autoImplicit false

namespace EmbeddedDaq.HostPhantoms
open HostPacket HostClient HostScan HostReception HostArrivals HostLossless GeneralLittleEndian
  GeneralWindowSearch

/-- One of the successive calls returns this packet. -/
inductive Receives : List (List Byte) → HostSamplePacket → Prop
  | now {polls rest : List (List Byte)} {pkt : HostSamplePacket}
      (call : WaitReturns polls (.ok pkt) rest) : Receives polls pkt
  | later {polls rest : List (List Byte)} {first pkt : HostSamplePacket}
      (call : WaitReturns polls (.ok first) rest) (again : Receives rest pkt) :
      Receives polls pkt

/-- One of the successive calls returns this packet; calls before it may have raised instead. -/
inductive ReceivesRetrying : List (List Byte) → HostSamplePacket → Prop
  | now {polls rest : List (List Byte)} {pkt : HostSamplePacket}
      (call : WaitReturns polls (.ok pkt) rest) : ReceivesRetrying polls pkt
  | later {polls rest : List (List Byte)} {first pkt : HostSamplePacket}
      (call : WaitReturns polls (.ok first) rest) (again : ReceivesRetrying rest pkt) :
      ReceivesRetrying polls pkt
  | retry {polls rest : List (List Byte)} {e : PyError} {pkt : HostSamplePacket}
      (call : WaitReturns polls (.error e) []) (again : ReceivesRetrying rest pkt) :
      ReceivesRetrying (polls ++ rest) pkt

/-- Whatever is returned, in any chunking of the stream, is one of the packets. -/
def NoPhantoms (returned : List (List Byte) → HostSamplePacket → Prop)
    (packets : List (List Byte)) (stream : List Byte) : Prop :=
  ∀ polls, polls.flatten = stream → ∀ pkt, returned polls pkt → pkt ∈ packets.map decoded

/-- The window one call finds: the first valid one, with no empty one before it. -/
def Found (stream : List Byte) (k : ℕ) : Prop :=
  First packetSize ValidWindow stream k ∧ ∀ j < k, ¬Hit packetSize EmptyWindow stream j

/-- The windows that some chunking of the stream makes a call return. -/
def Exposed (stream : List Byte) (j : ℕ) : Prop :=
  ∃ k, Found stream k ∧ (j = k ∨ k + packetSize ≤ j ∧ Hit packetSize ValidWindow stream j)

theorem call_found {polls rest : List (List Byte)} {pkt : HostSamplePacket}
    (h : WaitReturns polls (.ok pkt) rest) :
    ∃ k, Found polls.flatten k ∧ pkt = decoded (window packetSize k polls.flatten) ∧
      ∃ d, k + packetSize ≤ d ∧ d ≤ polls.flatten.length ∧
        rest.flatten = polls.flatten.drop d := by
  by_cases hsome : ∃ k, Hit packetSize ValidWindow polls.flatten k
  · obtain ⟨i, hi⟩ := hsome
    obtain ⟨k, -, hk⟩ := exists_first hi
    by_cases hempty : ∃ j < k, Hit packetSize EmptyWindow polls.flatten j
    · obtain ⟨j, hj, hhit⟩ := hempty
      obtain ⟨e, hej, he⟩ := exists_first hhit
      exact absurd ⟨rest, h⟩
        (not_returned_of_empty he (fun j hlt => hk.2 j (by omega)) (.ok pkt))
    · have hnone : ∀ j < k, ¬Hit packetSize EmptyWindow polls.flatten j :=
        fun j hj hhit => hempty ⟨j, hj, hhit⟩
      obtain ⟨before, data, left, hsplit, -, hhit, hcall⟩ := call_first hk hnone
      obtain ⟨hpkt, hrest⟩ := h.unique hcall
      have hflat : polls.flatten = (before ++ [data]).flatten ++ left.flatten := by
        rw [hsplit, ← List.flatten_append, List.append_assoc, List.singleton_append]
      refine ⟨k, ⟨hk, hnone⟩, Except.ok.inj hpkt, (before ++ [data]).flatten.length, hhit.1, ?_, ?_⟩
      · rw [hflat, List.length_append]
        exact Nat.le_add_right _ _
      · rw [hflat, List.drop_left, hrest]
  · have hvalid := not_exists.mp hsome
    by_cases hempty : ∃ j, Hit packetSize EmptyWindow polls.flatten j
    · obtain ⟨j, hj⟩ := hempty
      obtain ⟨e, -, he⟩ := exists_first hj
      exact absurd ⟨rest, h⟩ (not_returned_of_empty he (fun j _ => hvalid j) (.ok pkt))
    · have htimeout := call_timeout hvalid (not_exists.mp hempty)
      exact absurd (h.unique htimeout).1 (by simp [timedOut])

theorem receives_exposed {polls : List (List Byte)} {pkt : HostSamplePacket}
    (h : Receives polls pkt) :
    ∃ j, Exposed polls.flatten j ∧ pkt = decoded (window packetSize j polls.flatten) := by
  induction h with
  | now call =>
    obtain ⟨k, hfound, hpkt, -⟩ := call_found call
    exact ⟨k, ⟨k, hfound, .inl rfl⟩, hpkt⟩
  | @later polls rest first pkt call again ih =>
    obtain ⟨k, hfound, -, d, hd, hlen, hrest⟩ := call_found call
    obtain ⟨i, ⟨m, hm, hi⟩, rfl⟩ := ih
    rw [hrest] at hm hi ⊢
    have hhit : Hit packetSize ValidWindow (polls.flatten.drop d) i := by
      rcases hi with rfl | ⟨-, hhit⟩
      · exact hm.1.1
      · exact hhit
    refine ⟨d + i, ⟨k, hfound, .inr ⟨by omega, (hit_drop hlen).mp hhit⟩⟩, ?_⟩
    rw [window_drop]

theorem found_start {stream : List Byte} (h : Hit packetSize ValidWindow stream 0) :
    Found stream 0 := by
  refine ⟨⟨h, ?_⟩, ?_⟩
  · exact fun j hj => absurd hj (Nat.not_lt_zero j)
  · exact fun j hj => absurd hj (Nat.not_lt_zero j)

theorem call_poll {data : List Byte} {k : ℕ} (h : Found data k) (polls : List (List Byte)) :
    WaitReturns (data :: polls) (.ok (decoded (window packetSize k data))) polls := by
  have hcall : ∃ fuel, pollLoop fuel (residue packetSize []) (data :: polls) =
      some (.ok (decoded (window packetSize k data)), polls) :=
    pollLoop_found (no_hit_nil ValidWindow) h.1 h.2
  rwa [residue_empty] at hcall

theorem Found.take {stream : List Byte} {j k : ℕ} (h : Found stream k) (hle : k + packetSize ≤ j) :
    Found (stream.take j) k ∧ window packetSize k (stream.take j) = window packetSize k stream := by
  have hlen := h.1.1.1
  have hcut : k + packetSize ≤ (stream.take j).length := by
    rw [List.length_take]
    omega
  have hback : ∀ {P : List Byte → Prop} {i : ℕ}, i ≤ k →
      (Hit packetSize P (stream.take j) i ↔ Hit packetSize P stream i) := by
    intro P i hi
    have hsplit : Hit packetSize P (stream.take j ++ stream.drop j) i ↔
        Hit packetSize P (stream.take j) i := hit_append (by omega) (stream.drop j)
    rw [List.take_append_drop] at hsplit
    exact hsplit.symm
  refine ⟨⟨⟨(hback (Nat.le_refl k)).mpr h.1.1, ?_⟩, ?_⟩, ?_⟩
  · intro i hi hhit
    exact h.1.2 i hi ((hback (Nat.le_of_lt hi)).mp hhit)
  · intro i hi hhit
    exact h.2 i hi ((hback (Nat.le_of_lt hi)).mp hhit)
  · have hwindow := window_append hcut (stream.drop j)
    rw [List.take_append_drop] at hwindow
    exact hwindow.symm

/-- Cutting the stream before a window behind the first one makes the next call return it. -/
theorem exposed_receives {stream : List Byte} {j : ℕ} (h : Exposed stream j) :
    ∃ polls, polls.flatten = stream ∧
      Receives polls (decoded (window packetSize j stream)) := by
  obtain ⟨k, hfound, rfl | ⟨hbehind, hhit⟩⟩ := h
  · exact ⟨[stream], List.flatten_singleton, .now (call_poll hfound [])⟩
  · have hlen := hhit.1
    have hflat : [stream.take j, stream.drop j].flatten = stream := by simp
    have hsecond : Found (stream.drop j) 0 := found_start ((hit_drop (by omega)).mpr hhit)
    have hwindow : window packetSize 0 (stream.drop j) = window packetSize j stream := rfl
    have hcall := call_poll hsecond []
    rw [hwindow] at hcall
    exact ⟨_, hflat, .later (call_poll (hfound.take hbehind).1 _) (.now hcall)⟩

theorem hit_behind {stream : List Byte} {d i : ℕ} (hd : d ≤ stream.length)
    (h : Hit packetSize ValidWindow (stream.drop d) i) :
    ∃ j, Hit packetSize ValidWindow stream j ∧
      decoded (window packetSize i (stream.drop d)) = decoded (window packetSize j stream) := by
  refine ⟨d + i, (hit_drop hd).mp h, ?_⟩
  rw [window_drop]

theorem retrying_hit {polls : List (List Byte)} {pkt : HostSamplePacket}
    (h : ReceivesRetrying polls pkt) :
    ∃ j, Hit packetSize ValidWindow polls.flatten j ∧
      pkt = decoded (window packetSize j polls.flatten) := by
  induction h with
  | now call =>
    obtain ⟨k, hfound, hpkt, -⟩ := call_found call
    exact ⟨k, hfound.1.1, hpkt⟩
  | later call again ih =>
    obtain ⟨k, -, -, d, -, hlen, hrest⟩ := call_found call
    obtain ⟨i, hi, rfl⟩ := ih
    rw [hrest] at hi ⊢
    exact hit_behind hlen hi
  | @retry polls rest e pkt call again ih =>
    obtain ⟨i, hi, rfl⟩ := ih
    have hrest : (polls ++ rest).flatten.drop polls.flatten.length = rest.flatten := by
      rw [List.flatten_append, List.drop_left]
    have hlen : polls.flatten.length ≤ (polls ++ rest).flatten.length := by
      rw [List.flatten_append, List.length_append]
      exact Nat.le_add_right _ _
    rw [← hrest] at hi ⊢
    exact hit_behind hlen hi

theorem byte_times_out (b : Byte) : WaitReturns [[b]] timedOut [] := by
  have hnone : ∀ {P : List Byte → Prop} (j : ℕ), ¬Hit packetSize P [[b]].flatten j := by
    intro P j hhit
    have hlen := hhit.1
    have hsize : packetSize = 326 := rfl
    rw [List.flatten_singleton, List.length_singleton] at hlen
    omega
  exact call_timeout hnone hnone

theorem hit_retrying {stream : List Byte} {j : ℕ} (h : Hit packetSize ValidWindow stream j) :
    ∃ polls, polls.flatten = stream ∧
      ReceivesRetrying polls (decoded (window packetSize j stream)) := by
  induction j generalizing stream with
  | zero => exact ⟨[stream], List.flatten_singleton, .now (call_poll (found_start h) [])⟩
  | succ j ih =>
    cases stream with
    | nil => exact absurd h (no_hit_nil ValidWindow (j + 1))
    | cons b stream =>
      have hone : 1 ≤ (b :: stream).length := Nat.le_add_left 1 stream.length
      have hrest : Hit packetSize ValidWindow stream j := by
        apply (hit_drop hone).mpr
        rwa [Nat.add_comm]
      obtain ⟨polls, hflat, hreceives⟩ := ih hrest
      have hjoined : ([[b]] ++ polls).flatten = b :: stream := by
        rw [List.flatten_append, List.flatten_singleton, hflat, List.singleton_append]
      exact ⟨_, hjoined, .retry (byte_times_out b) hreceives⟩

theorem noPhantoms_iff {returned : List (List Byte) → HostSamplePacket → Prop}
    {reached : List Byte → ℕ → Prop}
    (hsound : ∀ {polls pkt}, returned polls pkt →
      ∃ j, reached polls.flatten j ∧ pkt = decoded (window packetSize j polls.flatten))
    (hcomplete : ∀ {stream j}, reached stream j →
      ∃ polls, polls.flatten = stream ∧ returned polls (decoded (window packetSize j stream)))
    (packets : List (List Byte)) (stream : List Byte) :
    NoPhantoms returned packets stream ↔
      ∀ j, reached stream j → decoded (window packetSize j stream) ∈ packets.map decoded := by
  constructor
  · intro h j hj
    obtain ⟨polls, hflat, hreturned⟩ := hcomplete hj
    exact h polls hflat _ hreturned
  · rintro h polls rfl pkt hreturned
    obtain ⟨j, hj, rfl⟩ := hsound hreturned
    exact h j hj

theorem border_window {packets : List (List Byte)}
    (hpackets : ∀ data ∈ packets, WellFormedBytes data) {i : ℕ}
    (h : packetSize * i + packetSize ≤ packets.flatten.length) :
    window packetSize (packetSize * i) packets.flatten ∈ packets := by
  induction packets generalizing i with
  | nil =>
    have hpos := packetSize_pos
    rw [List.flatten_nil, List.length_nil] at h
    omega
  | cons data packets ih =>
    have hdata := (hpackets data List.mem_cons_self).1
    rw [List.flatten_cons] at h ⊢
    cases i with
    | zero =>
      have hwindow : window packetSize 0 data = data := by
        rw [window, List.drop_zero, List.take_of_length_le (Nat.le_of_eq hdata)]
      rw [Nat.mul_zero, window_append (by omega), hwindow]
      exact List.mem_cons_self
    | succ i =>
      rw [List.length_append, Nat.mul_succ, hdata] at h
      have hrest := ih (fun d hd => hpackets d (List.mem_cons_of_mem data hd)) (i := i) (by omega)
      have hdrop : window packetSize (packetSize * (i + 1)) (data ++ packets.flatten) =
          window packetSize (packetSize * i) packets.flatten := by
        rw [Nat.mul_succ, Nat.add_comm, ← hdata, window_length_add]
      rw [hdrop]
      exact List.mem_cons_of_mem data hrest

theorem valid_window_sent {packets : List (List Byte)}
    (hpackets : ∀ data ∈ packets, WellFormedBytes data) {before suffix : List Byte}
    (hsuffix : packets.flatten = before ++ suffix) {j : ℕ}
    (h : Hit packetSize ValidWindow suffix j) (hborder : packetSize ∣ before.length + j) :
    window packetSize j suffix ∈ packets := by
  obtain ⟨i, hi⟩ := hborder
  have hwindow : window packetSize j suffix =
      window packetSize (packetSize * i) packets.flatten := by
    rw [← hi, hsuffix, window_length_add]
  rw [hwindow]
  apply border_window hpackets
  have hlen := h.1
  rw [hsuffix, List.length_append]
  omega

/-- Every returned packet was sent exactly if all valid windows of the suffix decode to packets that
were, as they do on packet borders; the exposed ones decide if no call raises before. -/
theorem no_phantoms (packets : List (List Byte)) (hpackets : ∀ data ∈ packets, WellFormedBytes data)
    (before suffix : List Byte) (hsuffix : packets.flatten = before ++ suffix) :
    ((∀ j, Hit packetSize ValidWindow suffix j → packetSize ∣ before.length + j) →
      NoPhantoms ReceivesRetrying packets suffix) ∧
    (NoPhantoms ReceivesRetrying packets suffix ↔
      ∀ j, Hit packetSize ValidWindow suffix j →
        decoded (window packetSize j suffix) ∈ packets.map decoded) ∧
    (NoPhantoms Receives packets suffix ↔
      ∀ j, Exposed suffix j → decoded (window packetSize j suffix) ∈ packets.map decoded) := by
  have hretrying := noPhantoms_iff retrying_hit hit_retrying packets suffix
  refine ⟨?_, hretrying, noPhantoms_iff receives_exposed exposed_receives packets suffix⟩
  intro hborders
  apply hretrying.mpr
  intro j hhit
  exact List.mem_map_of_mem (valid_window_sent hpackets hsuffix hhit (hborders j hhit))

def headless : List Byte := List.replicate 320 0 ++ onePacket 1

theorem zeros_silent : Silent (List.replicate 320 0) := by
  intro j hj
  rw [List.getElem?_replicate] at hj
  split at hj
  · exact absurd (Option.some.inj hj) (by decide)
  · cases hj

theorem headless_no_magic {j : ℕ} (hj : j < 320) :
    magicOf (window packetSize j headless) ≠ packetMagic :=
  zeros_silent.no_magic (by decide) (by rwa [List.length_replicate])

theorem no_phantoms_two :
    NoPhantoms ReceivesRetrying [onePacket 0, onePacket 1] headless ∧
      Receives [headless] (decoded (onePacket 1)) := by
  have hsuffix : [onePacket 0, onePacket 1].flatten = [0x71, 0xDA, 0, 0, 1, 0] ++ headless := by
    rw [List.flatten_cons, List.flatten_singleton, onePacket, List.append_assoc, headless]
  have hfirst := first_packet (onePacket_wellFormed 1) []
  rw [List.append_nil] at hfirst
  constructor
  · apply (no_phantoms _ twoPackets_wellFormed _ _ hsuffix).1
    intro j hhit
    have hlen := hhit.1
    rw [headless, List.length_append, List.length_replicate, onePacket_length] at hlen
    rcases Nat.lt_or_ge j 320 with hj | hj
    · exact absurd hhit.2.1 (headless_no_magic hj)
    · obtain rfl : j = 320 := by omega
      exact ⟨1, rfl⟩
  · have hvalid : ValidWindow (window packetSize 0 (onePacket 1)) := hfirst.1.1.2
    have hfound : Found headless 320 := by
      constructor
      · have hstart := zeros_silent.first (Nat.le_of_eq (onePacket_length 1).symm) hvalid
        rwa [List.length_replicate] at hstart
      · exact fun j hj hhit => headless_no_magic hj hhit.2.1
    have hwindow : window packetSize 320 headless = onePacket 1 := by
      have hshift := window_length_add packetSize 0 (List.replicate 320 0) (onePacket 1)
      rwa [List.length_replicate, hfirst.2] at hshift
    have hcall := call_poll hfound []
    rw [hwindow] at hcall
    exact .now hcall

/-- A sample whose channel and time stamp look like a header with number 9. -/
def forgedSample : List Byte := [0x71, 0xDA, 9, 0, 1, 0] ++ List.replicate 314 0

def forgedPacket : List Byte := [0x71, 0xDA, 0, 0, 1, 0] ++ forgedSample

theorem forgedPacket_wellFormed : WellFormedBytes forgedPacket := by
  refine ⟨?_, ?_⟩
  · decide +kernel
  · decide +kernel

/-- Joining behind the header of that packet, the client returns one that was never sent. -/
theorem forged_phantom :
    (∀ data ∈ [forgedPacket, onePacket 1], WellFormedBytes data) ∧
      [forgedPacket, onePacket 1].flatten =
        [0x71, 0xDA, 0, 0, 1, 0] ++ (forgedSample ++ onePacket 1) ∧
      ∃ pkt, Receives [forgedSample ++ onePacket 1] pkt ∧
        pkt ∉ [forgedPacket, onePacket 1].map decoded := by
  refine ⟨?_, by simp [forgedPacket], ?_⟩
  · intro data hdata
    rcases List.mem_pair.mp hdata with rfl | rfl
    · exact forgedPacket_wellFormed
    · exact onePacket_wellFormed 1
  · have hfound : Found (forgedSample ++ onePacket 1) 0 :=
      found_start ⟨by decide +kernel, by decide +kernel⟩
    refine ⟨_, .now (call_poll hfound []), ?_⟩
    intro hmem
    have hseq := List.mem_map_of_mem (f := HostSamplePacket.seq) hmem
    revert hseq
    decide +kernel

end EmbeddedDaq.HostPhantoms

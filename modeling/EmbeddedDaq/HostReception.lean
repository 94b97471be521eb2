import EmbeddedDaq.HostScan

set_option autoImplicit false

namespace EmbeddedDaq.HostReception
open HostPacket HostClient HostScan GeneralLittleEndian GeneralWhileLoop GeneralWindowSearch

theorem packetSize_pos : 0 < packetSize := by decide

theorem residue_empty : residue packetSize ([] : List Byte) = [] := List.drop_nil

theorem window_residue_append (xs ys : List Byte) (k : ℕ) :
    window packetSize k (residue packetSize xs ++ ys) =
      window packetSize (xs.length + 1 - packetSize + k) (xs ++ ys) := by
  rw [residue_append_eq packetSize_pos, window_drop]

theorem scan_residue {xs data : List Byte}
    (hvalid : ∀ k, ¬Hit packetSize ValidWindow (xs ++ data) k)
    (hempty : ∀ k, ¬Hit packetSize EmptyWindow (xs ++ data) k) :
    Returns (scanStep 0) (residue packetSize xs ++ data)
      (.exhausted (residue packetSize (xs ++ data))) := by
  rw [← residue_residue_append packetSize_pos]
  refine scan_exhausted ?_ ?_
  · intro k hhit
    exact hvalid _ ((hit_residue_append packetSize_pos data k).mp hhit)
  · intro k hhit
    exact hempty _ ((hit_residue_append packetSize_pos data k).mp hhit)

theorem pollLoop_continue {xs data : List Byte} {polls : List (List Byte)}
    {result : CallResult × List (List Byte)}
    (hvalid : ∀ k, ¬Hit packetSize ValidWindow (xs ++ data) k)
    (hempty : ∀ k, ¬Hit packetSize EmptyWindow (xs ++ data) k)
    (h : ∃ fuel, pollLoop fuel (residue packetSize (xs ++ data)) polls = some result) :
    ∃ fuel, pollLoop fuel (residue packetSize xs) (data :: polls) = some result := by
  obtain ⟨fuel, hfuel⟩ := h
  by_cases hdata : 0 < data.length
  · obtain ⟨m, hm⟩ := scan_residue hvalid hempty
    refine ⟨max m fuel, ?_⟩
    rw [pollLoop_exhausted hdata (runLoop_mono hm (Nat.le_max_left m fuel))]
    exact pollLoop_mono hfuel (Nat.le_max_right m fuel)
  · have hnil : data = [] := List.eq_nil_of_length_eq_zero (by omega)
    rw [hnil, List.append_nil] at hfuel
    rw [hnil]
    exact ⟨fuel, (pollLoop_idle _ _ _).trans hfuel⟩

theorem pollLoop_found {xs data : List Byte} {polls : List (List Byte)} {k : ℕ}
    (hnone : ∀ j, ¬Hit packetSize ValidWindow xs j)
    (hfirst : First packetSize ValidWindow (xs ++ data) k)
    (hempty : ∀ j < k, ¬Hit packetSize EmptyWindow (xs ++ data) j) :
    ∃ fuel, pollLoop fuel (residue packetSize xs) (data :: polls) =
      some (.ok (decoded (window packetSize k (xs ++ data))), polls) := by
  have hdata : 0 < data.length := by
    by_contra hzero
    have hnil : data = [] := List.eq_nil_of_length_eq_zero (by omega)
    rw [hnil, List.append_nil] at hfirst
    exact hnone k hfirst.1
  have hbeyond := hit_beyond hnone hfirst.1
  obtain ⟨i, rfl⟩ := Nat.exists_eq_add_of_le hbeyond
  have hscan : Returns (scanStep 0) (residue packetSize xs ++ data)
      (.packet (decoded (window packetSize i (residue packetSize xs ++ data)))
        ((residue packetSize xs ++ data).drop (i + packetSize))) := by
    refine scan_found ((first_residue_append packetSize_pos hnone data i).mpr hfirst) ?_
    intro j hj hhit
    exact hempty _ (by omega) ((hit_residue_append packetSize_pos data j).mp hhit)
  obtain ⟨fuel, hfuel⟩ := hscan
  rw [window_residue_append] at hfuel
  exact ⟨fuel, pollLoop_packet hdata hfuel polls⟩

theorem pollLoop_first {xs : List Byte} {polls : List (List Byte)} {k : ℕ}
    (hnone : ∀ j, ¬Hit packetSize ValidWindow xs j)
    (hfirst : First packetSize ValidWindow (xs ++ polls.flatten) k)
    (hempty : ∀ j < k, ¬Hit packetSize EmptyWindow (xs ++ polls.flatten) j) :
    ∃ before data rest, polls = before ++ data :: rest ∧
      (∀ j, ¬Hit packetSize ValidWindow (xs ++ before.flatten) j) ∧
      Hit packetSize ValidWindow (xs ++ (before ++ [data]).flatten) k ∧
      ∃ fuel, pollLoop fuel (residue packetSize xs) polls =
        some (.ok (decoded (window packetSize k (xs ++ polls.flatten))), rest) := by
  induction polls generalizing xs with
  | nil =>
    rw [List.flatten_nil, List.append_nil] at hfirst
    exact absurd hfirst.1 (hnone k)
  | cons data polls ih =>
    rw [List.flatten_cons, ← List.append_assoc] at hfirst hempty ⊢
    by_cases hhit : ∃ j, Hit packetSize ValidWindow (xs ++ data) j
    · obtain ⟨j, hj⟩ := hhit
      obtain ⟨i, -, hi⟩ := exists_first hj
      obtain rfl : i = k := (hi.append polls.flatten).unique hfirst
      have hlen := hi.1.1
      have hrefused : ∀ j < i, ¬Hit packetSize EmptyWindow (xs ++ data) j := by
        intro j hj hhit
        exact hempty j hj (hhit.append polls.flatten)
      refine ⟨[], data, polls, rfl, ?_, ?_, ?_⟩
      · simpa using hnone
      · simpa using hi.1
      · rw [window_append hlen]
        exact pollLoop_found hnone hi hrefused
    · have hvalid : ∀ j, ¬Hit packetSize ValidWindow (xs ++ data) j := not_exists.mp hhit
      have hbeyond := hit_beyond hvalid hfirst.1
      have hrefused : ∀ j, ¬Hit packetSize EmptyWindow (xs ++ data) j := by
        intro j hhit
        have hlen := hhit.1
        exact hempty j (by omega) (hhit.append polls.flatten)
      obtain ⟨before, last, rest, hpolls, hbefore, hlast, hcall⟩ := ih hvalid hfirst hempty
      refine ⟨data :: before, last, rest, ?_, ?_, ?_, pollLoop_continue hvalid hrefused hcall⟩
      · rw [hpolls, List.cons_append]
      · rwa [List.flatten_cons, ← List.append_assoc]
      · rwa [List.cons_append, List.flatten_cons, ← List.append_assoc]

theorem pollLoop_timeout {xs : List Byte} {polls : List (List Byte)}
    (hvalid : ∀ j, ¬Hit packetSize ValidWindow (xs ++ polls.flatten) j)
    (hempty : ∀ j, ¬Hit packetSize EmptyWindow (xs ++ polls.flatten) j) :
    ∃ fuel, pollLoop fuel (residue packetSize xs) polls = some (timedOut, []) := by
  induction polls generalizing xs with
  | nil => exact ⟨0, rfl⟩
  | cons data polls ih =>
    rw [List.flatten_cons, ← List.append_assoc] at hvalid hempty
    refine pollLoop_continue ?_ ?_ (ih hvalid hempty)
    · intro k hhit
      exact hvalid k (hhit.append polls.flatten)
    · intro k hhit
      exact hempty k (hhit.append polls.flatten)

theorem pollLoop_stuck {xs : List Byte} {polls : List (List Byte)} {k : ℕ}
    (hnone : ∀ j, ¬Hit packetSize EmptyWindow xs j)
    (hfirst : First packetSize EmptyWindow (xs ++ polls.flatten) k)
    (hvalid : ∀ j < k, ¬Hit packetSize ValidWindow (xs ++ polls.flatten) j) (fuel : ℕ) :
    pollLoop fuel (residue packetSize xs) polls = none := by
  induction polls generalizing xs with
  | nil =>
    rw [List.flatten_nil, List.append_nil] at hfirst
    exact absurd hfirst.1 (hnone k)
  | cons data polls ih =>
    rw [List.flatten_cons, ← List.append_assoc] at hfirst hvalid
    by_cases hdata : 0 < data.length
    · by_cases hhit : ∃ j, Hit packetSize EmptyWindow (xs ++ data) j
      · obtain ⟨j, hj⟩ := hhit
        obtain ⟨i, -, hi⟩ := exists_first hj
        obtain rfl : i = k := (hi.append polls.flatten).unique hfirst
        have hlen := hi.1.1
        obtain ⟨d, rfl⟩ := Nat.exists_eq_add_of_le (hit_beyond hnone hi.1)
        have hscan : Diverges (scanStep 0) (residue packetSize xs ++ data) := by
          refine scan_diverges ((first_residue_append packetSize_pos hnone data d).mpr hi) ?_
          intro j hj hhit
          have hback := (hit_residue_append packetSize_pos data j).mp hhit
          exact hvalid _ (by omega) (hback.append polls.flatten)
        simp only [pollLoop, hdata, hscan fuel, ↓reduceIte]
      · have hempty : ∀ j, ¬Hit packetSize EmptyWindow (xs ++ data) j := not_exists.mp hhit
        have hbeyond := hit_beyond hempty hfirst.1
        have hrefused : ∀ j, ¬Hit packetSize ValidWindow (xs ++ data) j := by
          intro j hhit
          have hlen := hhit.1
          exact hvalid j (by omega) (hhit.append polls.flatten)
        cases hscan : runLoop (scanStep 0) fuel (residue packetSize xs ++ data) with
        | none => simp only [pollLoop, hdata, hscan, ↓reduceIte]
        | some scanned =>
          obtain rfl := Returns.unique ⟨fuel, hscan⟩ (scan_residue hrefused hempty)
          rw [pollLoop_exhausted hdata hscan]
          exact ih hempty hfirst hvalid
    · have hnil : data = [] := List.eq_nil_of_length_eq_zero (by omega)
      rw [hnil, List.append_nil] at hfirst hvalid
      rw [hnil, pollLoop_idle]
      exact ih hnone hfirst hvalid

theorem no_hit_nil (P : List Byte → Prop) (k : ℕ) : ¬Hit packetSize P [] k := by
  intro h
  have hlen := h.1
  have hpos := packetSize_pos
  rw [List.length_nil] at hlen
  omega

theorem call_first {polls : List (List Byte)} {k : ℕ}
    (hfirst : First packetSize ValidWindow polls.flatten k)
    (hempty : ∀ j < k, ¬Hit packetSize EmptyWindow polls.flatten j) :
    ∃ before data rest, polls = before ++ data :: rest ∧
      (∀ j, ¬Hit packetSize ValidWindow before.flatten j) ∧
      Hit packetSize ValidWindow (before ++ [data]).flatten k ∧
      WaitReturns polls (.ok (decoded (window packetSize k polls.flatten))) rest := by
  have h := pollLoop_first (no_hit_nil ValidWindow) hfirst hempty
  rw [residue_empty] at h
  exact h

theorem call_timeout {polls : List (List Byte)}
    (hvalid : ∀ j, ¬Hit packetSize ValidWindow polls.flatten j)
    (hempty : ∀ j, ¬Hit packetSize EmptyWindow polls.flatten j) :
    WaitReturns polls timedOut [] := by
  have h : ∃ fuel, pollLoop fuel (residue packetSize []) polls = some (timedOut, []) :=
    pollLoop_timeout hvalid hempty
  rw [residue_empty] at h
  exact h

/-- Every empty window starts behind a valid one. -/
def NoEmptyBefore (stream : List Byte) : Prop :=
  ∀ j, Hit packetSize EmptyWindow stream j → ∃ k < j, Hit packetSize ValidWindow stream k

def Returned (polls : List (List Byte)) (result : CallResult) : Prop :=
  ∃ rest, WaitReturns polls result rest

theorem Returned.unique {polls : List (List Byte)} {result result' : CallResult}
    (h : Returned polls result) (h' : Returned polls result') : result = result' := by
  obtain ⟨_, h⟩ := h
  obtain ⟨_, h'⟩ := h'
  exact (h.unique h').1

theorem NoEmptyBefore.before_first {stream : List Byte} (h : NoEmptyBefore stream) {k : ℕ}
    (hk : First packetSize ValidWindow stream k) :
    ∀ j < k, ¬Hit packetSize EmptyWindow stream j := by
  intro j hj hhit
  obtain ⟨i, hi, hvalid⟩ := h j hhit
  exact hk.2 i (by omega) hvalid

theorem NoEmptyBefore.none {stream : List Byte} (h : NoEmptyBefore stream)
    (hnone : ∀ k, ¬Hit packetSize ValidWindow stream k) :
    ∀ j, ¬Hit packetSize EmptyWindow stream j := by
  intro j hhit
  obtain ⟨i, -, hvalid⟩ := h j hhit
  exact hnone i hvalid

theorem returned_first {polls : List (List Byte)} {k : ℕ} (hempty : NoEmptyBefore polls.flatten)
    (hk : First packetSize ValidWindow polls.flatten k) :
    Returned polls (.ok (decoded (window packetSize k polls.flatten))) := by
  obtain ⟨_, _, rest, -, -, -, hcall⟩ := call_first hk (hempty.before_first hk)
  exact ⟨rest, hcall⟩

theorem returned_timeout {polls : List (List Byte)} (hempty : NoEmptyBefore polls.flatten)
    (hnone : ∀ k, ¬Hit packetSize ValidWindow polls.flatten k) : Returned polls timedOut :=
  ⟨[], call_timeout hnone (hempty.none hnone)⟩

theorem returned_iff {polls : List (List Byte)} (hempty : NoEmptyBefore polls.flatten)
    (result : CallResult) :
    Returned polls result ↔
      (∃ k, First packetSize ValidWindow polls.flatten k ∧
        result = HostSamplePacket.fromBytes (window packetSize k polls.flatten)) ∨
      (∀ k, ¬Hit packetSize ValidWindow polls.flatten k) ∧ result = timedOut := by
  by_cases hsome : ∃ k, Hit packetSize ValidWindow polls.flatten k
  · obtain ⟨j, hj⟩ := hsome
    obtain ⟨k, -, hk⟩ := exists_first hj
    have hdecoded := fromBytes_valid (window_length hk.1.1) hk.1.2
    constructor
    · intro h
      refine .inl ⟨k, hk, ?_⟩
      rw [hdecoded]
      exact h.unique (returned_first hempty hk)
    · rintro (⟨i, hi, rfl⟩ | ⟨hnone, -⟩)
      · rw [hi.unique hk, hdecoded]
        exact returned_first hempty hk
      · exact absurd hj (hnone j)
  · have hnone : ∀ k, ¬Hit packetSize ValidWindow polls.flatten k := not_exists.mp hsome
    constructor
    · intro h
      exact .inr ⟨hnone, h.unique (returned_timeout hempty hnone)⟩
    · rintro (⟨k, hk, -⟩ | ⟨-, rfl⟩)
      · exact absurd hk.1 (hnone k)
      · exact returned_timeout hempty hnone

/-- The condition on empty windows is needed: a stream that breaks it hangs the call. -/
theorem not_returned_of_empty {polls : List (List Byte)} {k : ℕ}
    (hfirst : First packetSize EmptyWindow polls.flatten k)
    (hvalid : ∀ j < k, ¬Hit packetSize ValidWindow polls.flatten j) (result : CallResult) :
    ¬Returned polls result := by
  rintro ⟨rest, fuel, hfuel⟩
  have hstuck := pollLoop_stuck (no_hit_nil EmptyWindow) hfirst hvalid fuel
  rw [residue_empty] at hstuck
  exact nomatch hfuel.symm.trans hstuck

/-- One call returns the first valid packet of the stream, however it is cut. -/
theorem waitForPacket_chunking (stream : List Byte) (hempty : NoEmptyBefore stream)
    (polls : List (List Byte)) (hpolls : polls.flatten = stream) :
    (∀ pkt, Returned polls (.ok pkt) ↔ ∃ k, First packetSize ValidWindow stream k ∧
        HostSamplePacket.fromBytes (window packetSize k stream) = .ok pkt) ∧
      (Returned polls timedOut ↔ ∀ k, ¬Hit packetSize ValidWindow stream k) ∧
      ∀ polls', polls'.flatten = stream →
        ∀ result, Returned polls result ↔ Returned polls' result := by
  subst hpolls
  refine ⟨?_, ?_, ?_⟩
  · intro pkt
    rw [returned_iff hempty]
    constructor
    · rintro (⟨k, hk, hpkt⟩ | ⟨-, hpkt⟩)
      · exact ⟨k, hk, hpkt.symm⟩
      · exact absurd hpkt (by simp [timedOut])
    · rintro ⟨k, hk, hpkt⟩
      exact .inl ⟨k, hk, hpkt.symm⟩
  · rw [returned_iff hempty]
    constructor
    · rintro (⟨k, hk, hpkt⟩ | ⟨hnone, -⟩)
      · rw [fromBytes_valid (window_length hk.1.1) hk.1.2] at hpkt
        exact absurd hpkt (by simp [timedOut])
      · exact hnone
    · intro hnone
      exact .inr ⟨hnone, rfl⟩
  · intro polls' hpolls' result
    rw [returned_iff hempty, ← hpolls', returned_iff (by rw [hpolls']; exact hempty)]

def onePacket (seq : Byte) : List Byte :=
  [0x71, 0xDA, seq, 0, 1, 0] ++ List.replicate 320 0

theorem onePacket_length (seq : Byte) : (onePacket seq).length = packetSize := by
  rw [onePacket, List.length_append, List.length_replicate]
  rfl

theorem garbage_noEmptyBefore : NoEmptyBefore (0x71 :: onePacket 5) := by
  intro j hhit
  have hlen := hhit.1
  rw [List.length_cons, onePacket_length] at hlen
  obtain rfl | rfl : j = 0 ∨ j = 1 := by omega
  · exact absurd hhit.2 (by decide +kernel)
  · exact absurd hhit.2 (by decide +kernel)

theorem garbage_hit : Hit packetSize ValidWindow (0x71 :: onePacket 5) 1 :=
  ⟨by decide +kernel, by decide +kernel⟩

/-- One byte of garbage and a packet cut inside its magic. -/
theorem waitForPacket_chunking_garbage :
    ¬Returned [[0x71, 0x71], (onePacket 5).drop 1] timedOut := by
  intro h
  have hnone := (waitForPacket_chunking (0x71 :: onePacket 5) garbage_noEmptyBefore
    [[0x71, 0x71], (onePacket 5).drop 1] (by decide +kernel)).2.1.mp h
  exact hnone 1 garbage_hit

def Settled : ScanResult → Prop
  | .packet _ _ => True
  | .exhausted rest => rest.length < packetSize

theorem residue_short (buffer : List Byte) : (residue packetSize buffer).length < packetSize := by
  have hpos := packetSize_pos
  unfold residue
  rw [List.length_drop]
  omega

theorem scan_settles {buffer : List Byte} (h : NoEmptyBefore buffer) :
    ∃ result, Returns (scanStep 0) buffer result ∧ Settled result := by
  by_cases hsome : ∃ k, Hit packetSize ValidWindow buffer k
  · obtain ⟨j, hj⟩ := hsome
    obtain ⟨k, -, hk⟩ := exists_first hj
    exact ⟨_, scan_found hk (h.before_first hk), trivial⟩
  · have hnone := not_exists.mp hsome
    exact ⟨_, scan_exhausted hnone (h.none hnone), residue_short buffer⟩

/-- The scan of a buffer ends unless an empty window comes before every valid one. -/
theorem scan_terminates_iff (buffer : List Byte) :
    (∃ result, Returns (scanStep 0) buffer result ∧ Settled result) ↔ NoEmptyBefore buffer := by
  constructor
  · rintro ⟨result, ⟨fuel, hfuel⟩, -⟩ j hj
    by_contra hnone
    obtain ⟨k, hkj, hk⟩ := exists_first hj
    have hdiverges : Diverges (scanStep 0) buffer := by
      apply scan_diverges hk
      intro i hi hvalid
      exact hnone ⟨i, by omega, hvalid⟩
    exact nomatch hfuel.symm.trans (hdiverges fuel)
  · exact scan_settles

def emptyPacket : List Byte := [0x71, 0xDA, 0, 0, 0, 0] ++ List.replicate 320 0

/-- A whole packet without samples keeps the scan busy for ever. -/
theorem emptyPacket_scan : Diverges (scanStep 0) emptyPacket ∧
    ¬∃ result, Returns (scanStep 0) emptyPacket result ∧ Settled result := by
  have hstuck : Diverges (scanStep 0) emptyPacket :=
    Diverges.stuck (scanStep_empty ⟨by decide +kernel, by decide +kernel⟩)
  refine ⟨hstuck, ?_⟩
  rintro ⟨result, ⟨fuel, hfuel⟩, -⟩
  exact nomatch hfuel.symm.trans (hstuck fuel)

end EmbeddedDaq.HostReception

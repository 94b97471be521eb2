import EmbeddedDaq.HostRun

set_option autoImplicit false

namespace EmbeddedDaq.DisconnectRule
open HostPacket HostRun

def isFailure : WaitOutcome → Bool
  | .packet _ => false
  | .failure _ => true

def failures (outcomes : List WaitOutcome) : ℕ := outcomes.countP isFailure

def FailureAt (outcomes : List WaitOutcome) (i : ℕ) : Prop :=
  ∃ message, outcomes[i]? = some (.failure message)

structure LeavesAt (s : Session) (n : ℕ) : Prop where
  left : s.left = true
  last : s.log.length = n + 1
  message : ∃ entry, s.log[n]? = some entry ∧ Line.tooManyErrors ∈ entry.2

def SixInARow (outcomes : List WaitOutcome) (n : ℕ) : Prop :=
  5 ≤ n ∧ ∀ i, n ≤ i + 5 → i ≤ n → FailureAt outcomes i

def FirstSixInARow (outcomes : List WaitOutcome) (n : ℕ) : Prop :=
  SixInARow outcomes n ∧ ∀ m < n, ¬SixInARow outcomes m

def SixthFailure (outcomes : List WaitOutcome) (n : ℕ) : Prop :=
  FailureAt outcomes n ∧ failures (outcomes.take n) = 5

section
variable {c : Client} {message : String} {outcomes : List WaitOutcome} {n : ℕ}

theorem runLoop_leaves (h : 5 ≤ c.errorCount) (message : String) (outcomes : List WaitOutcome) :
    runLoop c (.failure message :: outcomes) =
      ⟨{ c with errorCount := c.errorCount + 1 },
        [(.failure message, [.error message, .tooManyErrors])], true⟩ := by
  have hlast : 5 < c.errorCount + 1 := by omega
  simp only [runLoop, turn, Client.fail, hlast, ↓reduceIte]

theorem runLoop_stays (h : c.errorCount < 5) (message : String) (outcomes : List WaitOutcome) :
    runLoop c (.failure message :: outcomes) =
      { runLoop { c with errorCount := c.errorCount + 1 } outcomes with
        log := (.failure message, [.error message]) ::
          (runLoop { c with errorCount := c.errorCount + 1 } outcomes).log } := by
  have hearly : ¬5 < c.errorCount + 1 := by omega
  simp only [runLoop, turn, Client.fail, hearly, ↓reduceIte]

theorem log_pos_of_left (h : (runLoop c outcomes).left = true) :
    0 < (runLoop c outcomes).log.length := by
  cases outcomes with
  | nil => cases h
  | cons outcome outcomes =>
    unfold runLoop
    split <;> exact Nat.succ_pos _

theorem leavesAt_cons {s : Session} {entry : WaitOutcome × List Line}
    (hs : s.left = true → 0 < s.log.length) :
    LeavesAt { s with log := entry :: s.log } n ↔ ∃ m, n = m + 1 ∧ LeavesAt s m := by
  constructor
  · intro h
    have hlast : s.log.length + 1 = n + 1 := h.last
    have hpos := hs h.left
    obtain ⟨m, rfl⟩ : ∃ m, n = m + 1 := ⟨n - 1, by omega⟩
    exact ⟨m, rfl, h.left, by omega, h.message⟩
  · rintro ⟨m, rfl, h⟩
    exact ⟨h.left, congrArg Nat.succ h.last, h.message⟩

theorem sixth_cons {outcome : WaitOutcome} {k : ℕ} (h : isFailure outcome = true → k < 5) :
    FailureAt (outcome :: outcomes) n ∧ k + failures ((outcome :: outcomes).take n) = 5 ↔
      ∃ m, n = m + 1 ∧ FailureAt outcomes m ∧
        k + (isFailure outcome).toNat + failures (outcomes.take m) = 5 := by
  have htake : ∀ m, failures ((outcome :: outcomes).take (m + 1)) =
      (isFailure outcome).toNat + failures (outcomes.take m) := by
    intro m
    rw [List.take_succ_cons, failures, List.countP_cons, Nat.add_comm, failures]
    cases isFailure outcome <;> rfl
  constructor
  · rintro ⟨hfailure, hcount⟩
    cases n with
    | zero =>
      obtain ⟨message, hsome⟩ := hfailure
      obtain rfl := Option.some.inj hsome
      have hlt := h rfl
      have hnone : failures ((WaitOutcome.failure message :: outcomes).take 0) = 0 := rfl
      omega
    | succ m =>
      rw [htake] at hcount
      exact ⟨m, rfl, hfailure, by omega⟩
  · rintro ⟨m, rfl, hfailure, hcount⟩
    rw [htake]
    exact ⟨hfailure, by omega⟩

/-- Packets do not touch the counter: the loop is left at the failure that brings it to six. -/
theorem runLoop_leavesAt_iff (h : c.errorCount ≤ 5) : LeavesAt (runLoop c outcomes) n ↔
    FailureAt outcomes n ∧ c.errorCount + failures (outcomes.take n) = 5 := by
  induction outcomes generalizing c n with
  | nil =>
    constructor
    · intro hleaves
      cases hleaves.left
    · rintro ⟨⟨message, hsome⟩, -⟩
      cases hsome
  | cons outcome outcomes ih =>
    cases outcome with
    | packet pkt =>
      have hkept : (c.receive pkt).1.errorCount ≤ 5 := h
      have hpacket : isFailure (.packet pkt) = true → c.errorCount < 5 := by
        intro hfalse
        cases hfalse
      rw [runLoop_packet, leavesAt_cons log_pos_of_left, sixth_cons hpacket]
      simp only [ih hkept]
      rfl
    | failure message =>
      by_cases hlast : 5 ≤ c.errorCount
      · rw [runLoop_leaves hlast]
        constructor
        · intro hleaves
          have hzero : 1 = n + 1 := hleaves.last
          obtain rfl : n = 0 := by omega
          exact ⟨⟨message, rfl⟩, Nat.le_antisymm h hlast⟩
        · rintro ⟨-, hcount⟩
          cases n with
          | zero => exact ⟨rfl, rfl, _, rfl, by simp⟩
          | succ m =>
            have hfirst : failures ((WaitOutcome.failure message :: outcomes).take (m + 1)) =
                failures (outcomes.take m) + 1 := List.countP_cons_of_pos rfl
            omega
      · have hroom : c.errorCount < 5 := Nat.not_le.mp hlast
        have hnext : c.errorCount + 1 ≤ 5 := hroom
        rw [runLoop_stays hroom, leavesAt_cons log_pos_of_left, sixth_cons fun _ => hroom]
        simp only [ih (c := { c with errorCount := c.errorCount + 1 }) hnext]
        rfl

theorem run_leavesAt_iff : LeavesAt (run outcomes) n ↔ SixthFailure outcomes n := by
  have hfresh : Client.init.errorCount ≤ 5 := by decide
  rw [run, runLoop_leavesAt_iff hfresh, SixthFailure]
  change _ ∧ 0 + failures (outcomes.take n) = 5 ↔ _
  rw [Nat.zero_add]

theorem failures_take_succ : failures (outcomes.take (n + 1)) =
    failures (outcomes.take n) + ((outcomes[n]?.map isFailure).getD false).toNat := by
  unfold failures
  rw [List.take_add_one, List.countP_append]
  cases outcomes[n]? with
  | none => rfl
  | some outcome => cases outcome <;> rfl

theorem failures_take_of_failure (h : FailureAt outcomes n) :
    failures (outcomes.take (n + 1)) = failures (outcomes.take n) + 1 := by
  obtain ⟨message, hsome⟩ := h
  rw [failures_take_succ, hsome]
  rfl

theorem failures_take_of_not_failure (h : ¬FailureAt outcomes n) :
    failures (outcomes.take (n + 1)) = failures (outcomes.take n) := by
  rw [failures_take_succ]
  cases hsome : outcomes[n]? with
  | none => rfl
  | some outcome =>
    cases outcome with
    | packet pkt => rfl
    | failure message => exact absurd ⟨message, hsome⟩ h

theorem failures_take_mono {m : ℕ} (h : m ≤ n) :
    failures (outcomes.take m) ≤ failures (outcomes.take n) :=
  (List.take_sublist_take_left h).countP_le

theorem six_le_failures (h : SixInARow outcomes n) : 6 ≤ failures (outcomes.take (n + 1)) := by
  obtain ⟨hn, hall⟩ := h
  have hcount : ∀ k ≤ 6, k ≤ failures (outcomes.take (n - 5 + k)) := by
    intro k hk
    induction k with
    | zero => exact Nat.zero_le _
    | succ k ih =>
      have hfailure := hall (n - 5 + k) (by omega) (by omega)
      have hprevious := ih (by omega)
      rw [← Nat.add_assoc, failures_take_of_failure hfailure]
      omega
  have hend : n - 5 + 6 = n + 1 := by omega
  exact hend ▸ hcount 6 (Nat.le_refl 6)

theorem exists_sixthFailure (h : 6 ≤ failures (outcomes.take (n + 1))) :
    ∃ m ≤ n, SixthFailure outcomes m := by
  induction n with
  | zero =>
    have hone : failures (outcomes.take (0 + 1)) = failures (outcomes.take 0) +
        ((outcomes[0]?.map isFailure).getD false).toNat := failures_take_succ
    have hnone : failures (outcomes.take 0) = 0 := rfl
    have hle := Bool.toNat_le ((outcomes[0]?.map isFailure).getD false)
    omega
  | succ n ih =>
    by_cases hbefore : 6 ≤ failures (outcomes.take (n + 1))
    · obtain ⟨m, hm, hsixth⟩ := ih hbefore
      exact ⟨m, hm.trans (Nat.le_succ n), hsixth⟩
    · by_cases hfailure : FailureAt outcomes (n + 1)
      · rw [failures_take_of_failure hfailure] at h
        exact ⟨n + 1, Nat.le_refl _, hfailure, by omega⟩
      · rw [failures_take_of_not_failure hfailure] at h
        exact absurd h hbefore

end

/-- The client leaves at the first six failures in a row, and nowhere else, exactly if the sixth
failure of the session is the end of such a row. -/
theorem leaves_after_six_iff (outcomes : List WaitOutcome) :
    (∀ n, LeavesAt (run outcomes) n ↔ FirstSixInARow outcomes n) ↔
      ∀ n, SixthFailure outcomes n → SixInARow outcomes n := by
  simp only [run_leavesAt_iff]
  constructor
  · intro h n hsixth
    exact ((h n).mp hsixth).1
  · intro h n
    constructor
    · intro hsixth
      refine ⟨h n hsixth, ?_⟩
      intro m hm hrow
      have hsix := six_le_failures hrow
      have hmono : failures (outcomes.take (m + 1)) ≤ failures (outcomes.take n) :=
        failures_take_mono hm
      have hfive := hsixth.2
      omega
    · rintro ⟨hrow, hfirst⟩
      obtain ⟨m, hm, hsixth⟩ := exists_sixthFailure (six_le_failures hrow)
      rcases Nat.lt_or_eq_of_le hm with hlt | rfl
      · exact absurd (h m hsixth) (hfirst m hlt)
      · exact hsixth

def timeouts (n : ℕ) : List WaitOutcome :=
  List.replicate n (.failure "Timeout waiting for valid packet (waited 5.0s)")

def recovered : List WaitOutcome := timeouts 5 ++ .packet ⟨packetMagic, 0, 0, []⟩ :: timeouts 1

theorem leaves_after_recovery : LeavesAt (run recovered) 6 ∧
    ¬∀ n, LeavesAt (run recovered) n ↔ FirstSixInARow recovered n := by
  have hleaves : LeavesAt (run recovered) 6 := ⟨rfl, rfl, _, rfl, by simp⟩
  refine ⟨hleaves, ?_⟩
  intro h
  obtain ⟨message, hpacket⟩ := ((h 6).mp hleaves).1.2 5 (by decide) (by decide)
  cases hpacket

end EmbeddedDaq.DisconnectRule

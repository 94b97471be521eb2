import EmbeddedDaq.HostPacket

set_option autoImplicit false

/-!
# The main loop of the host client

`runLoop` is the `while` of `DAQHostClient.run` on what successive calls of
`wait_for_packet` give; the end of the list is the Ctrl+C. A `Line` is one call
of `print`; the wall-clock time it may show is an argument of its text.
-/
namespace EmbeddedDaq.HostRun
open HostPacket

/-- A `TimeoutError` and a `SerialException` are treated alike. -/
inductive WaitOutcome where
  | packet (pkt : HostSamplePacket)
  | failure (message : String)
  deriving DecidableEq, Repr

inductive Line where
  | lossWarning (seq : ℕ) (lastSeq : ℤ)
  | packet (seq count : ℕ)
  | sample (i : ℕ) (s : HostSample)
  | average (name : String) (avgMv samples : ℕ)
  | pwmInput (samples : ℕ)
  | error (message : String)
  | tooManyErrors
  deriving DecidableEq, Repr

def channelName (channel : ℕ) : String :=
  match channel with
  | 0 => "Analog0"
  | 1 => "Analog1"
  | 2 => "PWM In"
  | _ => s!"Channel{channel}"

/-- `Sample.__str__`. -/
def sampleText (s : HostSample) : String :=
  s!"{channelName s.channel}: {s.value} counts ({s.toMv 3300} mV) @ {s.timestampUs} us"

def Line.text (timestamp : String) : Line → String
  | .lossWarning seq lastSeq =>
    s!"Warning: Sequence number {seq} <= {lastSeq}, possible packet loss"
  | .packet seq count => s!"\n[{timestamp}] Packet #{seq} (count: {count}):"
  | .sample i s => s!"  [{i}] {sampleText s}"
  | .average name avgMv samples => s!"  {name} avg: ~{avgMv} mV ({samples} samples)"
  | .pwmInput samples => s!"  PWM Input: {samples} samples"
  | .error message => s!"\nError: {message}"
  | .tooManyErrors => "Too many consecutive errors, disconnecting"

structure Client where
  lastSeq : ℤ
  packetCount : ℕ
  errorCount : ℕ
  deriving DecidableEq, Repr

def Client.init : Client := ⟨-1, 0, 0⟩

def sequenceCheck (lastSeq : ℤ) (seq : ℕ) : List Line :=
  if (seq : ℤ) ≤ lastSeq then [.lossWarning seq lastSeq] else []

def averageLine (name : String) (samples : List HostSample) : List Line :=
  if samples = [] then []
  else [.average name ((samples.map (HostSample.toMv · 3300)).sum / samples.length) samples.length]

def pwmLine (samples : List HostSample) : List Line :=
  if samples = [] then [] else [.pwmInput samples.length]

def packetLines (pkt : HostSamplePacket) : List Line :=
  .packet pkt.seq pkt.count :: pkt.samples.mapIdx .sample ++
    averageLine "Analog0" (pkt.samples.filter (·.channel = 0)) ++
    averageLine "Analog1" (pkt.samples.filter (·.channel = 1)) ++
    pwmLine (pkt.samples.filter (·.channel = 2))

def Client.receive (c : Client) (pkt : HostSamplePacket) : Client × List Line :=
  ({ c with lastSeq := pkt.seq, packetCount := c.packetCount + 1 },
    sequenceCheck c.lastSeq pkt.seq ++ packetLines pkt)

/-- The `except` branch; the flag is its `break`. -/
def Client.fail (c : Client) (message : String) : Client × List Line × Bool :=
  let c := { c with errorCount := c.errorCount + 1 }
  if 5 < c.errorCount then (c, [.error message, .tooManyErrors], true)
  else (c, [.error message], false)

def turn (c : Client) : WaitOutcome → Client × List Line × Bool
  | .packet pkt => ((c.receive pkt).1, (c.receive pkt).2, false)
  | .failure message => c.fail message

structure Session where
  client : Client
  log : List (WaitOutcome × List Line)
  left : Bool
  deriving DecidableEq, Repr

def runLoop (c : Client) : List WaitOutcome → Session
  | [] => ⟨c, [], false⟩
  | outcome :: outcomes =>
    match turn c outcome with
    | (c', lines, true) => ⟨c', [(outcome, lines)], true⟩
    | (c', lines, false) =>
      let s := runLoop c' outcomes
      { s with log := (outcome, lines) :: s.log }

/-- `DAQHostClient.run` on a fresh client that could connect. -/
def run (outcomes : List WaitOutcome) : Session := runLoop Client.init outcomes

def Line.isLossWarning : Line → Bool
  | .lossWarning _ _ => true
  | _ => false

/-- A received packet, and whether the warning was printed on it. -/
def reception : WaitOutcome × List Line → Option (HostSamplePacket × Bool)
  | (.packet pkt, lines) => some (pkt, lines.any Line.isLossWarning)
  | (.failure _, _) => none

def Session.receptions (s : Session) : List (HostSamplePacket × Bool) :=
  s.log.filterMap reception

/-- The packets a client that last saw `lastSeq` receives, each with the outcome of the check. -/
def checked : ℤ → List HostSamplePacket → List (HostSamplePacket × Bool)
  | _, [] => []
  | lastSeq, pkt :: pkts => (pkt, decide ((pkt.seq : ℤ) ≤ lastSeq)) :: checked pkt.seq pkts

theorem packetLines_quiet (pkt : HostSamplePacket) :
    (packetLines pkt).any Line.isLossWarning = false := by
  have hsamples : (pkt.samples.mapIdx Line.sample).any Line.isLossWarning = false := by
    rw [List.any_eq_false]
    intro line hline
    obtain ⟨i, hi, rfl⟩ := List.mem_mapIdx.mp hline
    exact Bool.false_ne_true
  have haverage : ∀ name samples, (averageLine name samples).any Line.isLossWarning = false := by
    intro name samples
    unfold averageLine
    split <;> rfl
  have hpwm : ∀ samples, (pwmLine samples).any Line.isLossWarning = false := by
    intro samples
    unfold pwmLine
    split <;> rfl
  unfold packetLines
  simp only [List.any_append, List.any_cons, hsamples, haverage, hpwm, Bool.or_false]
  rfl

theorem sequenceCheck_warns (lastSeq : ℤ) (seq : ℕ) :
    (sequenceCheck lastSeq seq).any Line.isLossWarning = decide ((seq : ℤ) ≤ lastSeq) := by
  unfold sequenceCheck
  by_cases h : (seq : ℤ) ≤ lastSeq
  · rw [if_pos h, decide_eq_true h]
    rfl
  · rw [if_neg h, decide_eq_false h]
    rfl

theorem receive_warns (c : Client) (pkt : HostSamplePacket) :
    (c.receive pkt).2.any Line.isLossWarning = decide ((pkt.seq : ℤ) ≤ c.lastSeq) := by
  unfold Client.receive
  rw [List.any_append, packetLines_quiet, Bool.or_false]
  exact sequenceCheck_warns c.lastSeq pkt.seq

theorem fail_lastSeq (c : Client) (message : String) : (c.fail message).1.lastSeq = c.lastSeq := by
  unfold Client.fail
  dsimp only
  split <;> rfl

theorem runLoop_packet (c : Client) (pkt : HostSamplePacket) (outcomes : List WaitOutcome) :
    runLoop c (.packet pkt :: outcomes) =
      { runLoop (c.receive pkt).1 outcomes with
        log := (.packet pkt, (c.receive pkt).2) :: (runLoop (c.receive pkt).1 outcomes).log } :=
  rfl

theorem runLoop_failure (c : Client) (message : String) (outcomes : List WaitOutcome) :
    (runLoop c (.failure message :: outcomes)).receptions = [] ∨
      ∃ c' : Client, c'.lastSeq = c.lastSeq ∧
        (runLoop c (.failure message :: outcomes)).receptions =
          (runLoop c' outcomes).receptions := by
  rcases hfail : c.fail message with ⟨c', lines, left⟩
  have hseq := fail_lastSeq c message
  rw [hfail] at hseq
  cases left with
  | true =>
    left
    simp only [runLoop, turn, hfail]
    rfl
  | false =>
    right
    refine ⟨c', hseq, ?_⟩
    simp only [runLoop, turn, hfail]
    rfl

/-- Failures do not touch the check: every packet is compared with the one received before it. -/
theorem receptions_runLoop (c : Client) (outcomes : List WaitOutcome) :
    (runLoop c outcomes).receptions =
      checked c.lastSeq ((runLoop c outcomes).receptions.map Prod.fst) := by
  induction outcomes generalizing c with
  | nil => rfl
  | cons outcome outcomes ih =>
    cases outcome with
    | packet pkt =>
      have hlog : (runLoop c (.packet pkt :: outcomes)).receptions =
          (pkt, (c.receive pkt).2.any Line.isLossWarning) ::
            (runLoop (c.receive pkt).1 outcomes).receptions := by
        rw [runLoop_packet]
        rfl
      rw [hlog, receive_warns]
      exact congrArg (List.cons _) (ih (c.receive pkt).1)
    | failure message =>
      rcases runLoop_failure c message outcomes with hleft | ⟨c', hseq, hrest⟩
      · rw [hleft]
        rfl
      · rw [hrest, ← hseq]
        exact ih c'

theorem checked_getElem? {lastSeq : ℤ} {pkts : List HostSamplePacket} {i : ℕ}
    {pkt pkt' : HostSamplePacket} (h : pkts[i]? = some pkt) (h' : pkts[i + 1]? = some pkt') :
    (checked lastSeq pkts)[i + 1]? = some (pkt', decide (pkt'.seq ≤ pkt.seq)) := by
  induction pkts generalizing lastSeq i with
  | nil => cases h
  | cons first pkts ih =>
    rw [checked, List.getElem?_cons_succ]
    rw [List.getElem?_cons_succ] at h'
    cases i with
    | zero =>
      obtain rfl := Option.some.inj h
      cases pkts with
      | nil => cases h'
      | cons second pkts =>
        obtain rfl := Option.some.inj h'
        simp [checked]
    | succ i =>
      rw [List.getElem?_cons_succ] at h
      exact ih h h'

theorem receptions_warned {outcomes : List WaitOutcome} {i : ℕ} {pkt pkt' : HostSamplePacket}
    {warned warned' : Bool} (h : (run outcomes).receptions[i]? = some (pkt, warned))
    (h' : (run outcomes).receptions[i + 1]? = some (pkt', warned')) :
    warned' = decide (pkt'.seq ≤ pkt.seq) := by
  have hfirst : ((run outcomes).receptions.map Prod.fst)[i]? = some pkt := by
    rw [List.getElem?_map, h]
    rfl
  have hsecond : ((run outcomes).receptions.map Prod.fst)[i + 1]? = some pkt' := by
    rw [List.getElem?_map, h']
    rfl
  have hchecked := @checked_getElem? Client.init.lastSeq _ _ _ _ hfirst hsecond
  have hrun := receptions_runLoop Client.init outcomes
  unfold run at h'
  unfold run at hchecked
  rw [← hrun, h'] at hchecked
  exact (Prod.mk.inj (Option.some.inj hchecked)).2

end EmbeddedDaq.HostRun

import EmbeddedDaq.DisconnectRule

set_option autoImplicit false

/-!
# A whole run of the host client

`run` opens the port outside its `try`, loops until something ends the loop, and
closes the port in its `finally`. A `KeyboardInterrupt` and an exception that no
clause names end the loop from outside, between two outcomes of `wait_for_packet`.
-/
namespace EmbeddedDaq.HostSession
open HostPacket HostRun DisconnectRule

/-- How `connect` fares. The constructor or a flush may raise a `SerialException`, which is caught,
or anything else, an interrupt among it, which is not. -/
inductive Connection where
  | connected
  | refused (message : String)
  | flushFailed (message : String)
  | constructorRaised
  | flushRaised
  deriving DecidableEq, Repr

inductive Stop where
  | keyboardInterrupt
  | otherException
  deriving DecidableEq, Repr

inductive Close where
  | closes
  | raises
  deriving DecidableEq, Repr

/-- One call of `print` outside `turn`, or a line of it. -/
inductive Printed where
  | starting
  | protocol
  | pressCtrlC
  | connected
  | connectFailed (message : String)
  | body (line : Line)
  | stopping
  | summary (packets errors : ℕ)
  deriving DecidableEq, Repr

def Printed.text (port : String) (baudrate : ℕ) (timestamp : String) : Printed → String
  | .starting => "Starting DAQ Host Client..."
  | .protocol => s!"Protocol: 0x{hex4 packetMagic}, Packet size: {packetSize} bytes"
  | .pressCtrlC => "Press Ctrl+C to stop"
  | .connected => s!"Connected to {port} at {baudrate} baud"
  | .connectFailed message => s!"Failed to connect to {port}: {message}"
  | .body line => line.text timestamp
  | .stopping => "\nStopping..."
  | .summary packets errors => s!"\nSummary: {packets} packets received, {errors} errors"

/-- The client with its port; `serialOpen` says that `self.serial` holds one it has opened. -/
structure DaqHostClient where
  client : Client
  serialOpen : Bool
  deriving DecidableEq, Repr

def DaqHostClient.new : DaqHostClient := ⟨Client.init, false⟩

/-- The port is assigned before it is flushed; `none` is an exception that leaves `connect`. -/
def connect (h : DaqHostClient) : Connection → Option Bool × DaqHostClient × List Printed
  | .connected => (some true, { h with serialOpen := true }, [.connected])
  | .refused message => (some false, h, [.connectFailed message])
  | .flushFailed message => (some false, { h with serialOpen := true }, [.connectFailed message])
  | .constructorRaised => (none, h, [])
  | .flushRaised => (none, { h with serialOpen := true }, [])

/-- The flag is whether it returns; a `close` that raises leaves the port assigned. -/
def disconnect (h : DaqHostClient) (close : Close) : Bool × DaqHostClient :=
  if h.serialOpen then
    match close with
    | .closes => (true, { h with serialOpen := false })
    | .raises => (false, h)
  else (true, h)

/-- `exitCode` is `none` where an exception leaves `run`. -/
structure Ended where
  exitCode : Option ℕ
  host : DaqHostClient
  printed : List Printed
  deriving DecidableEq, Repr

def summary (h : DaqHostClient) : Printed := .summary h.client.packetCount h.client.errorCount

def bodyLines (s : Session) : List Printed := (s.log.flatMap Prod.snd).map .body

/-- The `finally` and what follows it, an exception being under way unless `caught`. -/
def finish (h : DaqHostClient) (close : Close) (caught : Bool) (shown : List Printed) : Ended :=
  match disconnect h close with
  | (true, h) => if caught then ⟨some 0, h, shown ++ [summary h]⟩ else ⟨none, h, shown⟩
  | (false, h) => ⟨none, h, shown⟩

/-- `DAQHostClient.run`; `stop` strikes when the outcomes are used up. -/
def runSession (h : DaqHostClient) (connection : Connection) (outcomes : List WaitOutcome)
    (stop : Stop) (close : Close) : Ended :=
  let opening := [.starting, .protocol, .pressCtrlC]
  match connect h connection with
  | (none, h, lines) => ⟨none, h, opening ++ lines⟩
  | (some false, h, lines) => ⟨some 1, h, opening ++ lines⟩
  | (some true, h, lines) =>
    let s := runLoop h.client outcomes
    let h := { h with client := s.client }
    let shown := opening ++ lines ++ bodyLines s
    if s.left then finish h close true shown
    else match stop with
      | .keyboardInterrupt => finish h close true (shown ++ [.stopping])
      | .otherException => finish h close false shown

def countBody (kind : Line → Bool) (printed : List Printed) : ℕ :=
  printed.countP fun
    | .body line => kind line
    | _ => false

def isPacketLine : Line → Bool
  | .packet _ _ => true
  | _ => false

def isErrorLine : Line → Bool
  | .error _ => true
  | _ => false

theorem countBody_append (kind : Line → Bool) (xs ys : List Printed) :
    countBody kind (xs ++ ys) = countBody kind xs + countBody kind ys := List.countP_append

theorem countBody_bodyLines (kind : Line → Bool) (s : Session) :
    countBody kind (bodyLines s) = (s.log.flatMap Prod.snd).countP kind := List.countP_map

/-- Of a packet's lines only the first is of a kind that samples, averages and PWM lines are not. -/
theorem countP_packetLines {kind : Line → Bool} (hsample : ∀ i s, kind (.sample i s) = false)
    (haverage : ∀ name avgMv n, kind (.average name avgMv n) = false)
    (hpwm : ∀ n, kind (.pwmInput n) = false) (pkt : HostSamplePacket) :
    (packetLines pkt).countP kind = (kind (.packet pkt.seq pkt.count)).toNat := by
  have hsamples : (pkt.samples.mapIdx Line.sample).countP kind = 0 := by
    rw [List.countP_eq_zero]
    intro line hline
    obtain ⟨i, hi, rfl⟩ := List.mem_mapIdx.mp hline
    rw [hsample]
    exact Bool.false_ne_true
  have haverages : ∀ name samples, (averageLine name samples).countP kind = 0 := by
    intro name samples
    unfold averageLine
    split
    · rfl
    · rw [List.countP_singleton, haverage]
      rfl
  have hpwms : ∀ samples, (pwmLine samples).countP kind = 0 := by
    intro samples
    unfold pwmLine
    split
    · rfl
    · rw [List.countP_singleton, hpwm]
      rfl
  unfold packetLines
  rw [List.countP_append, List.countP_append, List.countP_append, List.countP_cons, hsamples,
    haverages, haverages, hpwms]
  cases kind (.packet pkt.seq pkt.count) <;> rfl

theorem countP_sequenceCheck {kind : Line → Bool}
    (hwarning : ∀ seq lastSeq, kind (.lossWarning seq lastSeq) = false) (lastSeq : ℤ) (seq : ℕ) :
    (sequenceCheck lastSeq seq).countP kind = 0 := by
  unfold sequenceCheck
  split
  · rw [List.countP_singleton, hwarning]
    rfl
  · rfl

theorem receive_packetLine (c : Client) (pkt : HostSamplePacket) :
    (c.receive pkt).2.countP isPacketLine = 1 := by
  change (sequenceCheck c.lastSeq pkt.seq ++ packetLines pkt).countP isPacketLine = 1
  rw [List.countP_append, countP_sequenceCheck fun _ _ => rfl,
    countP_packetLines (fun _ _ => rfl) (fun _ _ _ => rfl) fun _ => rfl]
  rfl

theorem receive_errorLine (c : Client) (pkt : HostSamplePacket) :
    (c.receive pkt).2.countP isErrorLine = 0 := by
  change (sequenceCheck c.lastSeq pkt.seq ++ packetLines pkt).countP isErrorLine = 0
  rw [List.countP_append, countP_sequenceCheck fun _ _ => rfl,
    countP_packetLines (fun _ _ => rfl) (fun _ _ _ => rfl) fun _ => rfl]
  rfl

structure Tallies (c : Client) (outcomes : List WaitOutcome) (s : Session) : Prop where
  packets : s.client.packetCount = c.packetCount + countBody isPacketLine (bodyLines s)
  errors : s.client.errorCount = c.errorCount + countBody isErrorLine (bodyLines s)
  limit : s.client.errorCount ≤ 6
  left : s.left = true ↔ 6 ≤ c.errorCount + failures outcomes

theorem bodyLines_cons (entry : WaitOutcome × List Line) (s : Session) (kind : Line → Bool) :
    countBody kind (bodyLines { s with log := entry :: s.log }) =
      entry.2.countP kind + countBody kind (bodyLines s) := by
  rw [countBody_bodyLines, countBody_bodyLines, List.flatMap_cons, List.countP_append]

theorem runLoop_tallies (c : Client) (outcomes : List WaitOutcome) (h : c.errorCount ≤ 5) :
    Tallies c outcomes (runLoop c outcomes) := by
  induction outcomes generalizing c with
  | nil =>
    refine ⟨rfl, rfl, by change c.errorCount ≤ 6; omega, ?_⟩
    change false = true ↔ 6 ≤ c.errorCount + 0
    constructor
    · exact nofun
    · omega
  | cons outcome outcomes ih =>
    cases outcome with
    | packet pkt =>
      have hrest := ih (c.receive pkt).1 h
      have hfailures : failures (.packet pkt :: outcomes) = failures outcomes :=
        List.countP_cons_of_neg Bool.false_ne_true
      rw [runLoop_packet]
      refine ⟨?_, ?_, hrest.limit, ?_⟩
      · rw [bodyLines_cons, receive_packetLine, ← Nat.add_assoc]
        exact hrest.packets
      · rw [bodyLines_cons, receive_errorLine, Nat.zero_add]
        exact hrest.errors
      · rw [hfailures]
        exact hrest.left
    | failure message =>
      have hfailures : failures (.failure message :: outcomes) = failures outcomes + 1 :=
        List.countP_cons_of_pos rfl
      by_cases hlast : 5 ≤ c.errorCount
      · rw [runLoop_leaves hlast]
        refine ⟨rfl, rfl, Nat.succ_le_succ h, ?_⟩
        rw [hfailures]
        exact ⟨fun _ => by omega, fun _ => rfl⟩
      · have hroom : c.errorCount < 5 := Nat.not_le.mp hlast
        have hrest := ih { c with errorCount := c.errorCount + 1 } hroom
        rw [runLoop_stays hroom]
        refine ⟨?_, ?_, hrest.limit, ?_⟩
        · rw [bodyLines_cons]
          change _ = c.packetCount + (0 + _)
          rw [Nat.zero_add]
          exact hrest.packets
        · rw [bodyLines_cons]
          change _ = c.errorCount + (1 + _)
          rw [← Nat.add_assoc]
          exact hrest.errors
        · rw [hfailures, Nat.add_comm (failures outcomes), ← Nat.add_assoc]
          exact hrest.left

def openingLines : List Printed := [.starting, .protocol, .pressCtrlC, .connected]

/-- The loop of a connected run ended without an exception under way. -/
def ended (outcomes : List WaitOutcome) (stop : Stop) : Bool :=
  (runLoop Client.init outcomes).left || stop = .keyboardInterrupt

def shownLines (outcomes : List WaitOutcome) (stop : Stop) : List Printed :=
  openingLines ++ bodyLines (runLoop Client.init outcomes) ++
    if !(runLoop Client.init outcomes).left && stop = .keyboardInterrupt then [.stopping] else []

section
variable (outcomes : List WaitOutcome) (stop : Stop) (close : Close)

theorem runSession_connected : runSession DaqHostClient.new .connected outcomes stop close =
    finish ⟨(runLoop Client.init outcomes).client, true⟩ close (ended outcomes stop)
      (shownLines outcomes stop) := by
  unfold runSession ended shownLines
  simp only [connect, DaqHostClient.new]
  cases (runLoop Client.init outcomes).left with
  | true =>
    simp only [↓reduceIte, Bool.true_or, Bool.not_true, Bool.false_and, Bool.false_eq_true,
      List.append_nil]
    rfl
  | false =>
    cases stop with
    | keyboardInterrupt => rfl
    | otherException =>
      simp only [Bool.false_eq_true, ↓reduceIte, Bool.false_or, reduceCtorEq, decide_false,
        Bool.not_false, Bool.true_and, List.append_nil]
      rfl

theorem runSession_closes : runSession DaqHostClient.new .connected outcomes stop .closes =
    if ended outcomes stop then
      ⟨some 0, ⟨(runLoop Client.init outcomes).client, false⟩, shownLines outcomes stop ++
        [.summary (runLoop Client.init outcomes).client.packetCount
          (runLoop Client.init outcomes).client.errorCount]⟩
    else ⟨none, ⟨(runLoop Client.init outcomes).client, false⟩, shownLines outcomes stop⟩ :=
  runSession_connected outcomes stop .closes

@[simp] theorem runSession_raises :
    runSession DaqHostClient.new .connected outcomes stop .raises =
      ⟨none, ⟨(runLoop Client.init outcomes).client, true⟩, shownLines outcomes stop⟩ :=
  runSession_connected outcomes stop .raises

@[simp] theorem runSession_refused (message : String) :
    runSession DaqHostClient.new (.refused message) outcomes stop close =
      ⟨some 1, ⟨Client.init, false⟩,
        [.starting, .protocol, .pressCtrlC, .connectFailed message]⟩ := rfl

@[simp] theorem runSession_flushFailed (message : String) :
    runSession DaqHostClient.new (.flushFailed message) outcomes stop close =
      ⟨some 1, ⟨Client.init, true⟩,
        [.starting, .protocol, .pressCtrlC, .connectFailed message]⟩ := rfl

@[simp] theorem runSession_constructorRaised :
    runSession DaqHostClient.new .constructorRaised outcomes stop close =
      ⟨none, ⟨Client.init, false⟩, [.starting, .protocol, .pressCtrlC]⟩ := rfl

@[simp] theorem runSession_flushRaised :
    runSession DaqHostClient.new .flushRaised outcomes stop close =
      ⟨none, ⟨Client.init, true⟩, [.starting, .protocol, .pressCtrlC]⟩ := rfl

theorem tallies : Tallies Client.init outcomes (runLoop Client.init outcomes) :=
  runLoop_tallies Client.init outcomes (by decide)

theorem ended_iff : ended outcomes stop = true ↔
    stop = .keyboardInterrupt ∨ 6 ≤ failures outcomes := by
  have hleft := (tallies outcomes).left
  change _ ↔ 6 ≤ 0 + failures outcomes at hleft
  rw [Nat.zero_add] at hleft
  rw [ended, Bool.or_eq_true, hleft, decide_eq_true_iff, or_comm]

theorem shownLines_count (kind : Line → Bool) : countBody kind (shownLines outcomes stop) =
    countBody kind (bodyLines (runLoop Client.init outcomes)) := by
  have hopening : countBody kind openingLines = 0 := rfl
  have hstopping : countBody kind (if !(runLoop Client.init outcomes).left &&
      stop = .keyboardInterrupt then [.stopping] else []) = 0 := by
    split <;> rfl
  rw [shownLines, countBody_append, countBody_append, hopening, hstopping, Nat.zero_add,
    Nat.add_zero]

theorem summary_not_shown (packets errors : ℕ) :
    .summary packets errors ∉ shownLines outcomes stop := by
  simp only [shownLines, openingLines, bodyLines, List.mem_append, List.mem_map, not_or]
  refine ⟨⟨by simp, ?_⟩, ?_⟩
  · rintro ⟨line, -, hline⟩
    cases hline
  · split <;> simp

theorem serialOpen_iff (connection : Connection) :
    (runSession DaqHostClient.new connection outcomes stop close).host.serialOpen = true ↔
      (∃ message, connection = .flushFailed message) ∨ connection = .flushRaised ∨
        connection = .connected ∧ close = .raises := by
  cases connection with
  | connected =>
    cases close with
    | closes =>
      rw [runSession_closes]
      split <;> simp
    | raises => simp
  | refused message => simp
  | flushFailed message => simp
  | constructorRaised => simp
  | flushRaised => simp

theorem exitZero_iff (connection : Connection) :
    (runSession DaqHostClient.new connection outcomes stop close).exitCode = some 0 ↔
      connection = .connected ∧ close = .closes ∧
        (stop = .keyboardInterrupt ∨ 6 ≤ failures outcomes) := by
  cases connection with
  | connected =>
    rw [← ended_iff]
    cases close with
    | closes =>
      rw [runSession_closes]
      split
      · next h => simp [h]
      · next h => simp [h]
    | raises => simp
  | refused message => simp
  | flushFailed message => simp
  | constructorRaised => simp
  | flushRaised => simp

theorem exitOne_iff (connection : Connection) :
    (runSession DaqHostClient.new connection outcomes stop close).exitCode = some 1 ↔
      ∃ message, connection = .refused message ∨ connection = .flushFailed message := by
  cases connection with
  | connected =>
    cases close with
    | closes =>
      rw [runSession_closes]
      split <;> simp
    | raises => simp
  | refused message => simp
  | flushFailed message => simp
  | constructorRaised => simp
  | flushRaised => simp

theorem raises_iff (connection : Connection) :
    (runSession DaqHostClient.new connection outcomes stop close).exitCode = none ↔
      connection = .constructorRaised ∨ connection = .flushRaised ∨
        connection = .connected ∧
          (close = .raises ∨ stop = .otherException ∧ failures outcomes < 6) := by
  cases connection with
  | connected =>
    have hended := ended_iff outcomes stop
    cases close with
    | closes =>
      rw [runSession_closes]
      cases stop with
      | keyboardInterrupt =>
        rw [if_pos (hended.mpr (.inl rfl))]
        simp
      | otherException =>
        by_cases hsix : 6 ≤ failures outcomes
        · rw [if_pos (hended.mpr (.inr hsix))]
          simpa using hsix
        · have hnot : ¬ended outcomes .otherException = true := by
            rw [hended]
            simpa using hsix
          rw [if_neg hnot]
          simpa using hsix
    | raises => simp
  | refused message => simp
  | flushFailed message => simp
  | constructorRaised => simp
  | flushRaised => simp

theorem summary_iff (connection : Connection) (packets errors : ℕ) :
    .summary packets errors ∈
        (runSession DaqHostClient.new connection outcomes stop close).printed ↔
      (runSession DaqHostClient.new connection outcomes stop close).exitCode = some 0 ∧
        packets = countBody isPacketLine
          (runSession DaqHostClient.new connection outcomes stop close).printed ∧
        errors = countBody isErrorLine
          (runSession DaqHostClient.new connection outcomes stop close).printed := by
  cases connection with
  | connected =>
    obtain ⟨hpackets, herrors, -, -⟩ := tallies outcomes
    change _ = 0 + _ at hpackets herrors
    rw [Nat.zero_add] at hpackets herrors
    have hquiet := summary_not_shown outcomes stop packets errors
    cases close with
    | closes =>
      rw [runSession_closes]
      split
      · have hcount : ∀ kind m n,
            countBody kind (shownLines outcomes stop ++ [.summary m n]) =
              countBody kind (bodyLines (runLoop Client.init outcomes)) := by
          intro kind m n
          rw [countBody_append, shownLines_count]
          rfl
        simp [hquiet, hcount, hpackets, herrors]
      · simp [hquiet]
    | raises => simp [hquiet]
  | refused message => simp
  | flushFailed message => simp
  | constructorRaised => simp
  | flushRaised => simp

theorem errorLines_le (connection : Connection) :
    countBody isErrorLine
      (runSession DaqHostClient.new connection outcomes stop close).printed ≤ 6 := by
  cases connection with
  | connected =>
    obtain ⟨-, herrors, hlimit, -⟩ := tallies outcomes
    change _ = 0 + _ at herrors
    have hshown : countBody isErrorLine (shownLines outcomes stop) ≤ 6 := by
      rw [shownLines_count]
      omega
    cases close with
    | closes =>
      rw [runSession_closes]
      split
      · dsimp only
        rw [countBody_append]
        exact hshown
      · exact hshown
    | raises =>
      rw [runSession_raises]
      exact hshown
  | refused message => exact Nat.zero_le 6
  | flushFailed message => exact Nat.zero_le 6
  | constructorRaised => exact Nat.zero_le 6
  | flushRaised => exact Nat.zero_le 6

end

structure Accounts (connection : Connection) (outcomes : List WaitOutcome) (stop : Stop)
    (close : Close) (r : Ended) : Prop where
  serialOpen : r.host.serialOpen = true ↔ (∃ message, connection = .flushFailed message) ∨
    connection = .flushRaised ∨ connection = .connected ∧ close = .raises
  exitZero : r.exitCode = some 0 ↔ connection = .connected ∧ close = .closes ∧
    (stop = .keyboardInterrupt ∨ 6 ≤ failures outcomes)
  exitOne : r.exitCode = some 1 ↔
    ∃ message, connection = .refused message ∨ connection = .flushFailed message
  raises : r.exitCode = none ↔ connection = .constructorRaised ∨ connection = .flushRaised ∨
    connection = .connected ∧ (close = .raises ∨ stop = .otherException ∧ failures outcomes < 6)
  summary : ∀ packets errors, .summary packets errors ∈ r.printed ↔ r.exitCode = some 0 ∧
    packets = countBody isPacketLine r.printed ∧ errors = countBody isErrorLine r.printed
  limit : countBody isErrorLine r.printed ≤ 6

/-- Every run accounts for itself, whatever `connect`, the loop and `close` come to. -/
theorem run_accounts (connection : Connection) (outcomes : List WaitOutcome) (stop : Stop)
    (close : Close) :
    Accounts connection outcomes stop close
      (runSession DaqHostClient.new connection outcomes stop close) where
  serialOpen := serialOpen_iff outcomes stop close connection
  exitZero := exitZero_iff outcomes stop close connection
  exitOne := exitOne_iff outcomes stop close connection
  raises := raises_iff outcomes stop close connection
  summary := summary_iff outcomes stop close connection
  limit := errorLines_le outcomes stop close connection

end EmbeddedDaq.HostSession

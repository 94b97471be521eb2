import EmbeddedDaq.HostPacket
import EmbeddedDaq.GeneralWhileLoop

set_option autoImplicit false

/-!
# The receive loop of the host client

A poll is what `serial.read(in_waiting)` returns, `[]` when nothing is waiting;
the end of the list of polls is the deadline. The buffer is local to a call.
-/
namespace EmbeddedDaq.HostClient
open HostPacket GeneralLittleEndian GeneralWhileLoop

/-- `del buffer[a:b]`. -/
def deleteSlice (a b : ℕ) (buffer : List Byte) : List Byte :=
  buffer.take a ++ buffer.drop b

/-- How the inner loop ends: a packet is returned, or too few bytes are left. -/
inductive ScanResult where
  | packet (pkt : HostSamplePacket) (buffer : List Byte)
  | exhausted (buffer : List Byte)
  deriving DecidableEq, Repr

def scanStep (offset : ℕ) (buffer : List Byte) : List Byte ⊕ ScanResult :=
  if offset + packetSize ≤ buffer.length then
    match HostSamplePacket.fromBytes (slice offset (offset + packetSize) buffer) with
    | .ok pkt =>
      if pkt.isValid then
        .inr (.packet pkt (deleteSlice offset (offset + packetSize) buffer))
      else .inl buffer -- neither `offset` nor `buffer` changes: the loop never ends
    | .error _ => .inl (deleteSlice offset (offset + 1) buffer)
  else .inr (.exhausted buffer)

abbrev CallResult := Except PyError HostSamplePacket

def timedOut : CallResult :=
  .error (.timeoutError "Timeout waiting for valid packet (waited 5.0s)")

/-- The polling loop; with a result come the polls that are left to the next call. -/
def pollLoop (fuel : ℕ) : List Byte → List (List Byte) → Option (CallResult × List (List Byte))
  | _, [] => some (timedOut, [])
  | buffer, data :: polls =>
    if 0 < data.length then
      match runLoop (scanStep 0) fuel (buffer ++ data) with
      | none => none
      | some (.packet pkt _) => some (.ok pkt, polls)
      | some (.exhausted buffer) => pollLoop fuel buffer polls
    else pollLoop fuel buffer polls

def waitForPacket (fuel : ℕ) (polls : List (List Byte)) :
    Option (CallResult × List (List Byte)) :=
  pollLoop fuel [] polls

def WaitReturns (polls : List (List Byte)) (result : CallResult) (rest : List (List Byte)) : Prop :=
  ∃ fuel, waitForPacket fuel polls = some (result, rest)

/-- What successive calls return, up to the first that raises. -/
inductive Received : List (List Byte) → List HostSamplePacket → Prop
  | done {polls rest : List (List Byte)} {e : PyError} (call : WaitReturns polls (.error e) rest) :
      Received polls []
  | next {polls rest : List (List Byte)} {pkt : HostSamplePacket} {pkts : List HostSamplePacket}
      (call : WaitReturns polls (.ok pkt) rest) (later : Received rest pkts) :
      Received polls (pkt :: pkts)

theorem pollLoop_idle (fuel : ℕ) (buffer : List Byte) (polls : List (List Byte)) :
    pollLoop fuel buffer ([] :: polls) = pollLoop fuel buffer polls := by
  simp only [pollLoop, List.length_nil, Nat.lt_irrefl, ↓reduceIte]

theorem pollLoop_packet {fuel : ℕ} {buffer data rest : List Byte} {pkt : HostSamplePacket}
    (hdata : 0 < data.length)
    (hscan : runLoop (scanStep 0) fuel (buffer ++ data) = some (.packet pkt rest))
    (polls : List (List Byte)) : pollLoop fuel buffer (data :: polls) = some (.ok pkt, polls) := by
  simp only [pollLoop, hdata, hscan, ↓reduceIte]

theorem pollLoop_exhausted {fuel : ℕ} {buffer data rest : List Byte} (hdata : 0 < data.length)
    (hscan : runLoop (scanStep 0) fuel (buffer ++ data) = some (.exhausted rest))
    (polls : List (List Byte)) :
    pollLoop fuel buffer (data :: polls) = pollLoop fuel rest polls := by
  simp only [pollLoop, hdata, hscan, ↓reduceIte]

theorem pollLoop_mono {fuel more : ℕ} {buffer : List Byte} {polls : List (List Byte)}
    {result : CallResult × List (List Byte)} (h : pollLoop fuel buffer polls = some result)
    (hle : fuel ≤ more) : pollLoop more buffer polls = some result := by
  induction polls generalizing buffer with
  | nil => exact h
  | cons data polls ih =>
    by_cases hdata : 0 < data.length
    · cases hscan : runLoop (scanStep 0) fuel (buffer ++ data) with
      | none => simp only [pollLoop, hdata, hscan, ↓reduceIte, reduceCtorEq] at h
      | some scanned =>
        have hmore := runLoop_mono hscan hle
        cases scanned with
        | packet pkt rest =>
          rw [pollLoop_packet hdata hscan] at h
          rw [pollLoop_packet hdata hmore, h]
        | exhausted rest =>
          rw [pollLoop_exhausted hdata hscan] at h
          rw [pollLoop_exhausted hdata hmore]
          exact ih h
    · have hnil : data = [] := List.eq_nil_of_length_eq_zero (by omega)
      rw [hnil, pollLoop_idle] at h ⊢
      exact ih h

theorem WaitReturns.unique {polls rest rest' : List (List Byte)} {result result' : CallResult}
    (h : WaitReturns polls result rest) (h' : WaitReturns polls result' rest') :
    result = result' ∧ rest = rest' := by
  obtain ⟨m, hm⟩ := h
  obtain ⟨n, hn⟩ := h'
  have hm' := pollLoop_mono hm (Nat.le_max_left m n)
  have hn' := pollLoop_mono hn (Nat.le_max_right m n)
  exact Prod.mk.inj (Option.some.inj (hm'.symm.trans hn'))

theorem Received.unique {polls : List (List Byte)} {pkts pkts' : List HostSamplePacket}
    (h : Received polls pkts) (h' : Received polls pkts') : pkts = pkts' := by
  induction h generalizing pkts' with
  | done call =>
    cases h' with
    | done call' => rfl
    | next call' later' => exact absurd (call.unique call').1 (by simp)
  | next call later ih =>
    cases h' with
    | done call' => exact absurd (call.unique call').1 (by simp)
    | next call' later' =>
      obtain ⟨hpkt, hrest⟩ := call.unique call'
      subst hrest
      rw [Except.ok.inj hpkt, ih later']

end EmbeddedDaq.HostClient

import EmbeddedDaq.ConsoleReception
import EmbeddedDaq.FaultSession

set_option autoImplicit false

namespace EmbeddedDaq.ConsoleSession
open FirmwareWords GeneralRuns GeneralWaveform GeneralPacedFrames GeneralSerialReceiver
open SharedFault FaultUart FaultTask FaultConsole UartBaud ConsoleReception

/-- From a command's start edge to the end of its reply, at the latest. -/
def commandTicks : ℕ := margin + 20 * bitTicks

def garbled (reply : U8) : U8 := reply ||| 0x80

theorem commandTicks_eq : commandTicks = 37177600 := rfl

theorem terminalBit_le_commandTicks : 10 * terminalBit ≤ commandTicks := by
  rw [commandTicks_eq, terminalBit_eq]
  omega

section
variable {p : Profile} {wave : ℕ → Level} {latency d : ℕ} {c mid last : Console}

theorem consoleTurn_eq_some (h : consoleTurn p wave c d = some mid) :
    ∃ engine replies, faultTurn p c.engine (readByte wave bitTicks d).1 = some (engine, replies) ∧
      mid = ⟨engine, Tx.write bitTicks (skipTo c.tx (d + 10 * bitTicks)) replies⟩ := by
  unfold consoleTurn at h
  dsimp only at h
  rw [readByte_now] at h
  obtain ⟨⟨engine, replies⟩, hturn, hmid⟩ := Option.map_eq_some_iff.mp h
  exact ⟨engine, replies, hturn, hmid.symm⟩

theorem faultTurn_replies {e e' : FaultEngine} {byte : U8} {replies : List U8}
    (h : faultTurn p e byte = some (e', replies)) :
    replies = [] ∨ ∃ result : FaultResult, replies = [result.toU8] := by
  unfold faultTurn at h
  split at h
  · exact .inl (Prod.mk.inj (Option.some.inj h)).2.symm
  · obtain ⟨r, -, heq⟩ := Option.map_eq_some_iff.mp h
    exact .inr ⟨r.2, (Prod.mk.inj heq).2.symm⟩

theorem write_before {t : ℕ} {tx : Tx} {data : List U8} (h : t < tx.now) :
    (tx.write bitTicks data).wave t = tx.wave t := by
  rw [write_eq_holds, Driver.holds_before h]

theorem serves_past (h : Serves p wave latency c last) {t : ℕ} (ht : t < c.tx.now + 10 * bitTicks) :
    last.tx.wave t = c.tx.wave t := by
  induction h with
  | waiting idle => rfl
  | @turn c mid last d start handled rest ih =>
    obtain ⟨engine, replies, -, rfl⟩ := consoleTurn_eq_some handled
    obtain ⟨edge, hfirst, hedge, -, -⟩ := start
    have hlater := hfirst.later
    have hread : t < (skipTo c.tx (d + 10 * bitTicks)).now := by
      rw [skipTo_now]
      omega
    have hmid : t < (Tx.write bitTicks (skipTo c.tx (d + 10 * bitTicks)) replies).now +
        10 * bitTicks := by
      rw [write_now]
      omega
    rw [ih hmid, write_before hread, skipTo_wave]

end

theorem decodedByte_reply (result : FaultResult) :
    decodedByte result.toU8 = garbled result.toU8 := by
  cases result <;> decide

section
variable {tx : Tx} {line : ℕ → Level} {quiet start : ℕ}

theorem reply_received {byte : U8} {bytes : List U8}
    (hquiet : ∀ t, quiet ≤ t → tx.wave t = .high) (hlater : quiet < start)
    (hline : ∀ t < start + 20 * bitTicks,
      line t = (Tx.writeByte bitTicks (skipTo tx start) byte).wave t)
    (hrest : Receives (isHigh line) halfBit (stopSample halfBit start) bytes) :
    Receives (isHigh line) halfBit quiet (decodedByte byte :: bytes) := by
  have hslot : ∀ j t, j < (frame byte).length → start + j * bitTicks ≤ t →
      t < start + (j + 1) * bitTicks →
      isHigh line t = decide ((frame byte)[j]? = some .high) := by
    intro j t hj hlower hupper
    have hten : (j + 1) * bitTicks ≤ 10 * bitTicks := Nat.mul_le_mul_right _ hj
    unfold isHigh
    rw [hline t (by omega), writeByte_eq_holds, Driver.holds_slot hj hlower hupper,
      List.getElem?_eq_getElem hj]
    simp only [Option.some_inj]
  have hbefore : ∀ t, quiet ≤ t → t < start → isHigh line t = true := by
    intro t ht hstart
    unfold isHigh
    rw [hline t (by omega), writeByte_eq_holds, Driver.holds_before hstart, skipTo_wave,
      hquiet t ht, decide_eq_true rfl]
  have hfall : FirstFall (isHigh line) quiet start := by
    refine ⟨Nat.le_of_lt hlater, ⟨?_, ?_⟩, ?_⟩
    · exact hslot 0 start (Nat.zero_lt_succ _) (by omega) (by rw [bitTicks_eq]; omega)
    · intro t ht
      exact hbefore t (by omega) (by omega)
    · intro t ht hstart hfalls
      exact nomatch (hbefore t ht hstart).symm.trans hfalls.1
  have hsampled : sampled (isHigh line) halfBit start = decodedByte byte := by
    apply byteOf_congr
    intro i hi
    obtain ⟨hj, hlower, hupper⟩ := sampledSlot_spec hi
    exact hslot _ _ (by rwa [frame_length]) (by omega) (by omega)
  have hstop : isHigh line (stopSample halfBit start) = true := by
    unfold isHigh stopSample
    rw [hline _ (by rw [bitTicks_eq, halfBit_eq]; omega), decide_eq_true_iff]
    apply writeByte_after
    rw [writeByte_now, skipTo_now, bitTicks_eq, halfBit_eq]
    omega
  rw [← hsampled]
  exact .byte hfall hstop hrest

theorem reply_quiet (byte : U8) {t : ℕ} (ht : stopSample halfBit start ≤ t) :
    (Tx.writeByte bitTicks (skipTo tx start) byte).wave t = .high := by
  apply writeByte_after
  rw [stopSample, halfBit_eq] at ht
  rw [writeByte_now, skipTo_now, bitTicks_eq]
  omega

end

section
variable {p : Profile} {latency : ℕ} {d : Driver Level} {c last : Console}
  {sent : List (ℕ × U8)} {quiet : ℕ}

theorem serves_session {quiet : ℕ} (hlatency : latency < margin)
    (hidle : ∀ t, c.tx.now ≤ t → d.wave t = .high) (hspaced : Spaced commandTicks c.tx.now sent)
    (hquiet : ∀ t, quiet ≤ t → c.tx.wave t = .high) (hready : quiet < c.tx.now + 10 * bitTicks)
    (h : Serves p (lineFrom d sent) latency c last) :
    ∃ replies, faultTaskEntry p c.engine (sent.map Prod.snd) = some (last.engine, replies) ∧
      Receives (isHigh last.tx.wave) halfBit quiet (replies.map garbled) := by
  generalize hline : lineFrom d sent = line at h
  induction h generalizing d sent quiet with
  | @waiting c idle =>
    subst hline
    cases sent with
    | nil =>
      refine ⟨[], rfl, .idle ?_⟩
      intro t ht hfalls
      have hlow : isHigh c.tx.wave t = false := hfalls.1
      rw [isHigh, hquiet t ht] at hlow
      exact nomatch hlow
    | cons s sent =>
      have hfirst := lineFrom_firstLow terminalBit_le_commandTicks hidle hspaced
      exact nomatch (idle s.1 hfirst.later).symm.trans hfirst.low
  | @turn c mid last d' start handled rest ih =>
    subst hline
    obtain ⟨engine, replies, hturn, rfl⟩ := consoleTurn_eq_some handled
    cases sent with
    | nil => exact absurd start (not_noticed hidle)
    | cons s sent =>
      have hlater := hspaced.1
      obtain ⟨hlower, hupper, hbyte, hstop⟩ :=
        noticed_byte hlatency terminalBit_le_commandTicks hidle hspaced start
      rw [hbyte] at hturn
      have hnow : (Tx.write bitTicks (skipTo c.tx (d' + 10 * bitTicks)) replies).now =
          d' + 10 * bitTicks + replies.length * (10 * bitTicks) := write_now _ _ _
      have hidle' := afterFrame_idle_from (d := d) hstop
      rcases faultTurn_replies hturn with rfl | ⟨result, rfl⟩
      · rw [List.length_nil, Nat.zero_mul, Nat.add_zero] at hnow
        have hspaced' : Spaced commandTicks (d' + 10 * bitTicks) sent :=
          hspaced.2.earlier (by rw [commandTicks]; omega)
        rw [← hnow] at hidle' hspaced'
        obtain ⟨replies, hrun, hreceived⟩ :=
          ih hidle' hspaced' hquiet (by rw [hnow]; omega) (lineFrom_cons d s sent).symm
        exact ⟨replies, run_cons_eq_some.mpr ⟨engine, [], replies, hturn, hrun, rfl⟩, hreceived⟩
      · rw [List.length_singleton, Nat.one_mul] at hnow
        have hspaced' : Spaced commandTicks (d' + 10 * bitTicks + 10 * bitTicks) sent :=
          hspaced.2.earlier (by rw [commandTicks]; omega)
        have hidle'' := fun t ht => hidle' t (Nat.le_trans (Nat.le_add_right _ (10 * bitTicks)) ht)
        rw [← hnow] at hspaced' hidle''
        obtain ⟨replies, hrun, hreceived⟩ := ih hidle'' hspaced'
          (fun t ht => reply_quiet result.toU8 ht)
          (by rw [hnow, stopSample, halfBit_eq, bitTicks_eq]; omega) (lineFrom_cons d s sent).symm
        refine ⟨result.toU8 :: replies,
          run_cons_eq_some.mpr ⟨engine, [result.toU8], replies, hturn, hrun, rfl⟩, ?_⟩
        rw [List.map_cons, ← decodedByte_reply]
        refine reply_received hquiet (by omega) ?_ hreceived
        intro t ht
        exact serves_past rest (by rw [hnow]; omega)

theorem exists_serves {e : FaultEngine} {replies : List U8}
    (hidle : ∀ t, c.tx.now ≤ t → d.wave t = .high) (hspaced : Spaced commandTicks c.tx.now sent)
    (hrun : faultTaskEntry p c.engine (sent.map Prod.snd) = some (e, replies)) :
    ∃ last, Serves p (lineFrom d sent) latency c last := by
  induction sent generalizing d c replies with
  | nil => exact ⟨c, .waiting hidle⟩
  | cons s sent ih =>
    obtain ⟨engine, reply, later, hturn, hrest, -⟩ := run_cons_eq_some.mp hrun
    have hfirst := lineFrom_firstLow terminalBit_le_commandTicks hidle hspaced
    have hstart := hfirst.noticed 0
    obtain ⟨-, -, hbyte, hstop⟩ := noticed_byte (by rw [margin_eq]; omega)
      terminalBit_le_commandTicks hidle hspaced hstart
    have hmid : consoleTurn p (lineFrom d (s :: sent)) c s.1 =
        some ⟨engine, Tx.write bitTicks (skipTo c.tx (s.1 + 10 * bitTicks)) reply⟩ := by
      unfold consoleTurn
      dsimp only
      rw [readByte_now, hbyte, hturn]
      rfl
    have hnow : (Tx.write bitTicks (skipTo c.tx (s.1 + 10 * bitTicks)) reply).now =
        s.1 + 10 * bitTicks + reply.length * (10 * bitTicks) := write_now _ _ _
    have hlength : reply.length * (10 * bitTicks) ≤ 10 * bitTicks := by
      rcases faultTurn_replies hturn with rfl | ⟨result, rfl⟩
      · rw [List.length_nil, Nat.zero_mul]
        exact Nat.zero_le _
      · rw [List.length_singleton, Nat.one_mul]
    have hidle' := afterFrame_idle_from (d := d) (Nat.le_trans hstop (Nat.le_add_right _
      (reply.length * (10 * bitTicks))))
    have hspaced' : Spaced commandTicks
        (s.1 + 10 * bitTicks + reply.length * (10 * bitTicks)) sent :=
      hspaced.2.earlier (by rw [commandTicks]; omega)
    rw [← hnow] at hidle' hspaced'
    obtain ⟨last, hlast⟩ := ih (c := ⟨engine, _⟩) hidle' hspaced' hrest
    exact ⟨last, .turn (hstart.sooner (Nat.zero_le latency)) hmid hlast⟩

end

/-- A terminal that spaces its commands drives the engine through exactly the session it types, and
receives every reply with its top bit set. -/
theorem console_session (p : Profile) (latency start : ℕ) (sent : List (ℕ × U8))
    (e e' : FaultEngine) (replies : List U8) (hlatency : latency < margin)
    (hspaced : Spaced commandTicks start sent)
    (hrun : faultTaskEntry p e (sent.map Prod.snd) = some (e', replies)) :
    (∃ last, Serves p (terminalLine sent) latency ⟨e, idleTx start⟩ last) ∧
      ∀ last, Serves p (terminalLine sent) latency ⟨e, idleTx start⟩ last →
        last.engine = e' ∧
          Receives (isHigh last.tx.wave) halfBit 0 (replies.map (· ||| 0x80)) := by
  have hidle : ∀ t, start ≤ t → (idleTx 0).wave t = .high := fun t _ => idleTx_high 0 t
  refine ⟨exists_serves hidle hspaced hrun, ?_⟩
  intro last h
  have hquiet : ∀ t, 0 ≤ t → (idleTx start).wave t = .high := fun t _ => idleTx_high start t
  obtain ⟨replies', hsession, hreceived⟩ := serves_session hlatency hidle hspaced hquiet
    (by rw [bitTicks_eq]; omega) h
  obtain ⟨rfl, rfl⟩ := Prod.mk.inj (Option.some.inj (hsession.symm.trans hrun))
  exact ⟨rfl, hreceived⟩

/-- Arm and Fire, 174 us apart. -/
theorem console_session_fire :
    ∃ last, Serves .dev (terminalLine [(0, 0x01), (40000000, 0x03)]) 300000
        ⟨FaultEngine.new, idleTx 0⟩ last ∧
      last.engine = ⟨FaultConfig.new .spi .bitFlip, true, true, 1⟩ ∧
      Receives (isHigh last.tx.wave) halfBit 0 [0x81, 0x83] := by
  have hspaced : Spaced commandTicks 0 [((0, 0x01) : ℕ × U8), (40000000, 0x03)] :=
    ⟨Nat.le_refl 0, by rw [commandTicks_eq]; omega, trivial⟩
  have hrun : faultTaskEntry .dev FaultEngine.new [0x01, 0x03] =
      some (⟨FaultConfig.new .spi .bitFlip, true, true, 1⟩, [0x01, 0x03]) := by decide
  obtain ⟨⟨last, hlast⟩, hall⟩ := console_session .dev 300000 0
    [(0, 0x01), (40000000, 0x03)] FaultEngine.new _ _ (by rw [margin_eq]; omega) hspaced hrun
  exact ⟨last, hlast, hall last hlast⟩

end EmbeddedDaq.ConsoleSession

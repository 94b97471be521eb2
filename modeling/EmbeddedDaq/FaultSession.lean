import EmbeddedDaq.FaultTask
import Mathlib.Data.List.Basic

set_option autoImplicit false

namespace EmbeddedDaq.FaultSession
open FirmwareWords SharedFault FaultTask GeneralRuns

def Arming (b : U8) : Prop := b = 0x01 ∨ b = 0x02 ∨ b = 0x05

instance (b : U8) : Decidable (Arming b) := inferInstanceAs (Decidable (_ ∨ _ ∨ _))

def latestArming (bytes : List U8) : Option U8 := (bytes.filter fun b => Arming b).getLast?

def armedAfter (bytes : List U8) : Bool := latestArming bytes = some 0x01

/-- A Fire byte at `i` finds the engine armed and neither Arm nor Reset follows. -/
def CountsAt (bytes : List U8) (i : ℕ) : Prop :=
  bytes[i]? = some 0x03 ∧ armedAfter (bytes.take i) = true ∧
    ∀ b ∈ bytes.drop (i + 1), b ≠ 0x01 ∧ b ≠ 0x05

instance (bytes : List U8) (i : ℕ) : Decidable (CountsAt bytes i) :=
  inferInstanceAs (Decidable (_ ∧ _ ∧ _))

def acceptedFires (bytes : List U8) : ℕ :=
  (List.range bytes.length).countP fun i => CountsAt bytes i

def fires (bytes : List U8) : ℕ := bytes.count 0x03

def replyTo (before : List U8) : FaultCommand → FaultResult
  | .arm => .armed
  | .disarm => .disarmed
  | .fire => if armedAfter before then .fired else .error
  | .status =>
    if 0 < acceptedFires before then .completed
    else if armedAfter before then .armed else .disarmed
  | .reset => .disarmed

def replyBytes (before : List U8) (b : U8) : List U8 :=
  ((commandOf b).map fun cmd => (replyTo before cmd).toU8).toList

def expectedReplies (bytes : List U8) : List U8 :=
  (List.range bytes.length).flatMap fun i => (bytes[i]?.map (replyBytes (bytes.take i))).getD []

theorem commandOf_eq_some (b : U8) (cmd : FaultCommand) :
    commandOf b = some cmd ↔ b = cmd.toU8 := by
  revert b
  cases cmd <;> decide +kernel

theorem commandOf_eq_none (b : U8) : commandOf b = none ↔ ¬(0x01 ≤ b ∧ b ≤ 0x05) := by
  revert b
  decide +kernel

theorem faultTurn_command (p : Profile) (e : FaultEngine) (cmd : FaultCommand) :
    faultTurn p e cmd.toU8 = (e.handleCommand p cmd).map fun r => (r.1, [r.2.toU8]) := by
  rw [faultTurn, (commandOf_eq_some cmd.toU8 cmd).mpr rfl]

theorem latestArming_concat (bytes : List U8) (b : U8) :
    latestArming (bytes ++ [b]) = if Arming b then some b else latestArming bytes := by
  rw [latestArming, List.filter_append]
  by_cases h : Arming b
  · simp only [List.filter_cons, h, decide_true, ↓reduceIte, List.filter_nil,
      List.getLast?_concat]
  · simp only [List.filter_cons, h, decide_false, Bool.false_eq_true, ↓reduceIte,
      List.filter_nil, List.append_nil, latestArming]

theorem countsAt_concat {bytes : List U8} {i : ℕ} (hi : i < bytes.length) (b : U8) :
    CountsAt (bytes ++ [b]) i ↔ CountsAt bytes i ∧ b ≠ 0x01 ∧ b ≠ 0x05 := by
  rw [CountsAt, CountsAt, List.getElem?_append_left hi,
    List.take_append_of_le_length (Nat.le_of_lt hi), List.drop_append_of_le_length hi]
  constructor
  · rintro ⟨hfire, harmed, hafter⟩
    refine ⟨⟨hfire, harmed, ?_⟩, hafter b (by simp)⟩
    intro c hc
    exact hafter c (List.mem_append_left [b] hc)
  · rintro ⟨⟨hfire, harmed, hafter⟩, hb⟩
    refine ⟨hfire, harmed, ?_⟩
    intro c hc
    rcases List.mem_append.mp hc with hc | hc
    · exact hafter c hc
    · exact List.mem_singleton.mp hc ▸ hb

theorem countsAt_last (bytes : List U8) (b : U8) :
    CountsAt (bytes ++ [b]) bytes.length ↔ b = 0x03 ∧ armedAfter bytes = true := by
  rw [CountsAt, List.getElem?_concat_length, List.take_left,
    List.drop_of_length_le (by simp)]
  simp

theorem acceptedFires_concat (bytes : List U8) (b : U8) :
    acceptedFires (bytes ++ [b]) =
      if b = 0x01 ∨ b = 0x05 then 0
      else acceptedFires bytes + if b = 0x03 ∧ armedAfter bytes = true then 1 else 0 := by
  have hlast : [bytes.length].countP (fun i => CountsAt (bytes ++ [b]) i) =
      if b = 0x03 ∧ armedAfter bytes = true then 1 else 0 := by
    simp only [List.countP_singleton, decide_eq_true_eq, countsAt_last]
  rw [acceptedFires, List.length_append, List.length_singleton, List.range_succ,
    List.countP_append, hlast]
  by_cases hclear : b = 0x01 ∨ b = 0x05
  · have hzero : (List.range bytes.length).countP (fun i => CountsAt (bytes ++ [b]) i) = 0 := by
      refine List.countP_eq_zero.mpr ?_
      intro i hi
      rw [decide_eq_true_eq, countsAt_concat (List.mem_range.mp hi)]
      rintro ⟨-, h₁, h₂⟩
      exact hclear.elim h₁ h₂
    have hfire : ¬(b = 0x03 ∧ armedAfter bytes = true) := by
      rintro ⟨rfl, -⟩
      exact absurd hclear (by decide)
    rw [if_pos hclear, hzero, if_neg hfire]
  · have hkeep : (List.range bytes.length).countP (fun i => CountsAt (bytes ++ [b]) i) =
        acceptedFires bytes := by
      refine List.countP_congr ?_
      intro i hi
      rw [decide_eq_true_eq, decide_eq_true_eq, countsAt_concat (List.mem_range.mp hi)]
      exact and_iff_left (not_or.mp hclear)
    rw [if_neg hclear, hkeep]

theorem fires_concat (bytes : List U8) (b : U8) :
    fires (bytes ++ [b]) = fires bytes + if b = 0x03 then 1 else 0 := by
  rw [fires, fires, List.count_append, List.count_singleton]
  simp only [beq_iff_eq]

theorem acceptedFires_le_fires (bytes : List U8) : acceptedFires bytes ≤ fires bytes := by
  induction bytes using List.reverseRecOn with
  | nil => exact Nat.le_refl 0
  | append_singleton bytes b ih =>
    rw [acceptedFires_concat, fires_concat]
    by_cases hclear : b = 0x01 ∨ b = 0x05
    · rw [if_pos hclear]
      exact Nat.zero_le _
    · rw [if_neg hclear]
      by_cases hfire : b = 0x03
      · rw [if_pos hfire]
        split <;> omega
      · rw [if_neg hfire, if_neg (fun h => hfire h.1)]
        exact ih

theorem expectedReplies_concat (bytes : List U8) (b : U8) :
    expectedReplies (bytes ++ [b]) = expectedReplies bytes ++ replyBytes bytes b := by
  rw [expectedReplies, List.length_append, List.length_singleton, List.range_succ,
    List.flatMap_append]
  congr 1
  · refine List.flatMap_congr ?_
    intro i hi
    have hlt := List.mem_range.mp hi
    rw [List.getElem?_append_left hlt, List.take_append_of_le_length (Nat.le_of_lt hlt)]
  · rw [List.flatMap_singleton, List.getElem?_concat_length, List.take_left]
    rfl

structure Tracks (bytes : List U8) (e : FaultEngine) : Prop where
  armed_eq : e.armed = armedAfter bytes
  fired_eq : e.fired = decide (0 < acceptedFires bytes)
  fireCount_eq : e.fireCount.toNat = acceptedFires bytes

theorem tracks_new : Tracks [] FaultEngine.new := ⟨rfl, rfl, rfl⟩

theorem Tracks.unmoved {bytes : List U8} {e : FaultEngine} (h : Tracks bytes e) {b : U8}
    (harmed : armedAfter (bytes ++ [b]) = armedAfter bytes)
    (haccepted : acceptedFires (bytes ++ [b]) = acceptedFires bytes) :
    Tracks (bytes ++ [b]) e := by
  refine ⟨?_, ?_, ?_⟩
  · rw [harmed, h.armed_eq]
  · rw [haccepted, h.fired_eq]
  · rw [haccepted, h.fireCount_eq]

theorem armedAfter_concat (bytes : List U8) (b : U8) :
    armedAfter (bytes ++ [b]) = if Arming b then decide (b = 0x01) else armedAfter bytes := by
  rw [armedAfter, latestArming_concat]
  split
  · simp only [Option.some.injEq]
  · rfl

theorem armedAfter_command (bytes : List U8) (cmd : FaultCommand) :
    armedAfter (bytes ++ [cmd.toU8]) = match cmd with
      | .arm => true
      | .disarm | .reset => false
      | .fire | .status => armedAfter bytes := by
  rw [armedAfter_concat]
  cases cmd <;> rfl

theorem acceptedFires_command (bytes : List U8) (cmd : FaultCommand) :
    acceptedFires (bytes ++ [cmd.toU8]) = match cmd with
      | .arm | .reset => 0
      | .fire => acceptedFires bytes + if armedAfter bytes = true then 1 else 0
      | .disarm | .status => acceptedFires bytes := by
  rw [acceptedFires_concat]
  cases cmd <;> simp [FaultCommand.toU8]

theorem Tracks.handle_status {bytes : List U8} {e : FaultEngine} (h : Tracks bytes e)
    (p : Profile) : e.handleCommand p .status = some (e, replyTo bytes .status) := by
  rw [FaultEngine.handleCommand, replyTo, h.fired_eq, h.armed_eq]
  simp only [decide_eq_true_eq]

theorem Tracks.handle_fire {bytes : List U8} {e : FaultEngine} (h : Tracks bytes e) (p : Profile)
    (hlimit : acceptedFires (bytes ++ [FaultCommand.fire.toU8]) < 2 ^ 32) :
    ∃ e', e.handleCommand p .fire = some (e', replyTo bytes .fire) ∧
      Tracks (bytes ++ [FaultCommand.fire.toU8]) e' := by
  have harmed := armedAfter_command bytes .fire
  have haccepted := acceptedFires_command bytes .fire
  by_cases hready : e.armed = true
  · have hafter : armedAfter bytes = true := h.armed_eq ▸ hready
    simp only [hafter, ↓reduceIte] at haccepted
    have hlt : e.fireCount.toNat + (1 : U32).toNat < 2 ^ 32 := by
      rw [h.fireCount_eq]
      exact haccepted ▸ hlimit
    refine ⟨{ e with fired := true, fireCount := e.fireCount + 1 }, ?_, ?_, ?_, ?_⟩
    · simp only [FaultEngine.handleCommand, hready, Bool.not_true, Bool.false_eq_true,
        ↓reduceIte, addWord_of_lt p _ _ hlt, Option.map_some, replyTo, hafter]
    · rw [harmed]
      exact h.armed_eq
    · rw [haccepted]
      exact (decide_eq_true (Nat.succ_pos _)).symm
    · rw [haccepted, ← h.fireCount_eq]
      exact BitVec.toNat_add_of_lt hlt
  · have hafter : armedAfter bytes = false := by
      rw [← h.armed_eq]
      exact Bool.eq_false_iff.mpr hready
    simp only [hafter, Bool.false_eq_true, ↓reduceIte, Nat.add_zero] at haccepted
    refine ⟨e, ?_, h.unmoved harmed haccepted⟩
    simp only [FaultEngine.handleCommand, Bool.eq_false_iff.mpr hready, Bool.not_false,
      ↓reduceIte, replyTo, hafter, Bool.false_eq_true]

theorem handleCommand_tracks (p : Profile) {bytes : List U8} {e : FaultEngine}
    (h : Tracks bytes e) (cmd : FaultCommand)
    (hlimit : acceptedFires (bytes ++ [cmd.toU8]) < 2 ^ 32) :
    ∃ e', e.handleCommand p cmd = some (e', replyTo bytes cmd) ∧
      Tracks (bytes ++ [cmd.toU8]) e' := by
  have harmed := armedAfter_command bytes cmd
  have haccepted := acceptedFires_command bytes cmd
  cases cmd with
  | arm =>
    refine ⟨_, rfl, ?_, ?_, ?_⟩
    · rw [harmed]
    · rw [haccepted]
      rfl
    · rw [haccepted]
      rfl
  | disarm =>
    refine ⟨_, rfl, ?_, ?_, ?_⟩
    · rw [harmed]
    · rw [haccepted]
      exact h.fired_eq
    · rw [haccepted]
      exact h.fireCount_eq
  | fire => exact h.handle_fire p hlimit
  | status => exact ⟨e, h.handle_status p, h.unmoved harmed haccepted⟩
  | reset =>
    refine ⟨_, rfl, ?_, ?_, ?_⟩
    · rw [harmed]
    · rw [haccepted]
      rfl
    · rw [haccepted]
      rfl

theorem faultTurn_tracks (p : Profile) {bytes : List U8} {e : FaultEngine}
    (h : Tracks bytes e) (b : U8) (hfires : fires (bytes ++ [b]) < 2 ^ 32) :
    ∃ e', faultTurn p e b = some (e', replyBytes bytes b) ∧ Tracks (bytes ++ [b]) e' := by
  cases hcmd : commandOf b with
  | none =>
    have harming : ¬Arming b := by
      rintro (rfl | rfl | rfl) <;> cases hcmd
    have hclear : ¬(b = 0x01 ∨ b = 0x05) := by
      rintro (rfl | rfl) <;> cases hcmd
    have hfire : ¬(b = 0x03 ∧ armedAfter bytes = true) := by
      rintro ⟨rfl, -⟩
      cases hcmd
    have haccepted : acceptedFires (bytes ++ [b]) = acceptedFires bytes := by
      rw [acceptedFires_concat, if_neg hclear, if_neg hfire, Nat.add_zero]
    refine ⟨e, ?_, h.unmoved ?_ haccepted⟩
    · rw [faultTurn, replyBytes, hcmd]
      rfl
    · rw [armedAfter_concat, if_neg harming]
  | some cmd =>
    obtain rfl := (commandOf_eq_some b cmd).mp hcmd
    have hlimit := Nat.lt_of_le_of_lt (acceptedFires_le_fires (bytes ++ [cmd.toU8])) hfires
    obtain ⟨e', hhandle, htracks⟩ := handleCommand_tracks p h cmd hlimit
    refine ⟨e', ?_, htracks⟩
    rw [faultTurn_command, hhandle, replyBytes, hcmd]
    rfl

theorem replyBytes_length (bytes : List U8) (b : U8) :
    (replyBytes bytes b).length = if 0x01 ≤ b ∧ b ≤ 0x05 then 1 else 0 := by
  rw [replyBytes]
  cases hcmd : commandOf b with
  | none =>
    rw [if_neg ((commandOf_eq_none b).mp hcmd)]
    rfl
  | some cmd =>
    have hrange : 0x01 ≤ b ∧ b ≤ 0x05 := by
      by_contra hout
      rw [(commandOf_eq_none b).mpr hout] at hcmd
      cases hcmd
    rw [if_pos hrange]
    rfl

theorem expectedReplies_length (bytes : List U8) :
    (expectedReplies bytes).length = bytes.countP fun b => 0x01 ≤ b ∧ b ≤ 0x05 := by
  induction bytes using List.reverseRecOn with
  | nil => rfl
  | append_singleton bytes b ih =>
    rw [expectedReplies_concat, List.length_append, ih, replyBytes_length, List.countP_append,
      List.countP_singleton]
    simp only [decide_eq_true_eq]

theorem session_tracks (p : Profile) (bytes : List U8) (hfires : fires bytes < 2 ^ 32) :
    ∃ e replies, faultTaskEntry p FaultEngine.new bytes = some (e, replies) ∧
      Tracks bytes e ∧ replies = expectedReplies bytes := by
  refine run_total (fun bytes => fires bytes < 2 ^ 32)
    (fun bytes replies e => Tracks bytes e ∧ replies = expectedReplies bytes)
    ?_ ⟨tracks_new, rfl⟩ ?_ bytes hfires
  · intro bytes b h
    rw [fires_concat] at h
    exact Nat.lt_of_le_of_lt (Nat.le_add_right _ _) h
  · rintro bytes replies e b hlt ⟨htracks, rfl⟩
    obtain ⟨e', hturn, hnext⟩ := faultTurn_tracks p htracks b hlt
    exact ⟨e', _, hturn, hnext, (expectedReplies_concat bytes b).symm⟩

/-- What a session shows: its replies, the engine reached and the bytes that do not move it. -/
structure SessionInvariant (p : Profile) (bytes : List U8) (e : FaultEngine)
    (replies : List U8) : Prop where
  replies_eq : replies = expectedReplies bytes
  replies_length : replies.length = bytes.countP fun b => 0x01 ≤ b ∧ b ≤ 0x05
  armed_iff : e.isArmed = true ↔ latestArming bytes = some 0x01
  fireCount_eq : e.fireCount.toNat = acceptedFires bytes
  shouldInject_iff : e.shouldInject = true ↔ e.isArmed = true ∧ 0 < acceptedFires bytes
  other_unchanged : ∀ b, ¬(0x01 ≤ b ∧ b ≤ 0x05) → faultTurn p e b = some (e, [])
  refused_unchanged : e.isArmed = false →
    faultTurn p e 0x03 = some (e, [FaultResult.error.toU8])
  status_unchanged : faultTurn p e 0x04 = some (e, [(replyTo bytes .status).toU8])

theorem Tracks.status {bytes : List U8} {e : FaultEngine} (h : Tracks bytes e) (p : Profile) :
    faultTurn p e 0x04 = some (e, [(replyTo bytes .status).toU8]) :=
  (faultTurn_command p e .status).trans (by rw [h.handle_status p]; rfl)

theorem refused_turn (p : Profile) {e : FaultEngine} (h : e.armed = false) :
    faultTurn p e 0x03 = some (e, [FaultResult.error.toU8]) := by
  have hhandle : e.handleCommand p .fire = some (e, .error) := by
    simp only [FaultEngine.handleCommand, h, Bool.not_false, ↓reduceIte]
  exact (faultTurn_command p e .fire).trans (by rw [hhandle]; rfl)

/-- The command session, for both build profiles. -/
theorem session_spec (p : Profile) (bytes : List U8) (hfires : fires bytes < 2 ^ 32) :
    ∃ e replies, faultTaskEntry p FaultEngine.new bytes = some (e, replies) ∧
      SessionInvariant p bytes e replies := by
  obtain ⟨e, replies, hrun, htracks, hreplies⟩ := session_tracks p bytes hfires
  refine ⟨e, replies, hrun, hreplies, ?_, ?_, htracks.fireCount_eq, ?_, ?_, ?_,
    htracks.status p⟩
  · rw [hreplies, expectedReplies_length]
  · rw [FaultEngine.isArmed, htracks.armed_eq, armedAfter, decide_eq_true_iff]
  · rw [FaultEngine.shouldInject, FaultEngine.isArmed, Bool.and_eq_true, htracks.fired_eq,
      decide_eq_true_iff]
  · intro b hb
    rw [faultTurn, (commandOf_eq_none b).mpr hb]
  · exact refused_turn p

theorem session_spec_commands :
    ∃ e replies, faultTaskEntry .dev FaultEngine.new [0x01, 0x03, 0x7F, 0x04, 0x02, 0x03, 0x05] =
        some (e, replies) ∧
      SessionInvariant .dev [0x01, 0x03, 0x7F, 0x04, 0x02, 0x03, 0x05] e replies :=
  session_spec .dev [0x01, 0x03, 0x7F, 0x04, 0x02, 0x03, 0x05] (by decide)

example : (faultTaskEntry .dev FaultEngine.new
    [0x01, 0x03, 0x7F, 0x04, 0x02, 0x03, 0x05]).map Prod.snd =
      some [0x01, 0x03, 0x06, 0x02, 0x05, 0x02] := by decide

end EmbeddedDaq.FaultSession

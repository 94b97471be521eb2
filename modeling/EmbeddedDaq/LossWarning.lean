import EmbeddedDaq.HostRun
import Mathlib.Data.List.Chain

set_option autoImplicit false

namespace EmbeddedDaq.LossWarning
open HostPacket HostRun

def seqSpace : ℕ := 2 ^ 16

/-- `ks` are the packets of the sender that the client received, with gaps below `seqSpace`. -/
structure Delivered (ks : List ℕ) (receptions : List (HostSamplePacket × Bool)) : Prop where
  numbered : receptions.map (·.1.seq) = ks.map (· % seqSpace)
  increasing : ks.IsChain fun k k' => k < k' ∧ k' ≤ k + seqSpace

/-- A packet but the first is warned about exactly if the one before it was not received. -/
def WarnsExactly (ks : List ℕ) (receptions : List (HostSamplePacket × Bool)) : Prop :=
  ∀ i k k' r, ks[i]? = some k → ks[i + 1]? = some k' → receptions[i + 1]? = some r →
    (r.2 = true ↔ k + 1 < k')

/-- Neighbours of one round, or a gap that reaches into a later round. -/
def Signalled (k k' : ℕ) : Prop :=
  (k' = k + 1 ∧ ¬seqSpace ∣ k') ∨ (k + 1 < k' ∧ k / seqSpace < k' / seqSpace)

theorem mod_le_mod_iff {k k' : ℕ} (hlt : k < k') (hle : k' ≤ k + seqSpace) :
    k' % seqSpace ≤ k % seqSpace ↔ k / seqSpace < k' / seqSpace := by
  unfold seqSpace at *
  omega

theorem signalled_iff {k k' : ℕ} (hlt : k < k') :
    (k / seqSpace < k' / seqSpace ↔ k + 1 < k') ↔ Signalled k k' := by
  unfold Signalled seqSpace
  omega

section
variable {ks : List ℕ} {receptions : List (HostSamplePacket × Bool)} {i k k' : ℕ}

theorem Delivered.step (h : Delivered ks receptions) (hk : ks[i]? = some k)
    (hk' : ks[i + 1]? = some k') : k < k' ∧ k' ≤ k + seqSpace := by
  obtain ⟨hi, rfl⟩ := List.getElem?_eq_some_iff.mp hk
  obtain ⟨hi', rfl⟩ := List.getElem?_eq_some_iff.mp hk'
  exact h.increasing.getElem i hi'

theorem Delivered.seq (h : Delivered ks receptions) {r : HostSamplePacket × Bool}
    (hk : ks[i]? = some k) (hr : receptions[i]? = some r) : r.1.seq = k % seqSpace := by
  have hseq := congrArg (·[i]?) h.numbered
  simp only [List.getElem?_map, hk, hr, Option.map_some] at hseq
  exact Option.some.inj hseq

theorem Delivered.exists_reception (h : Delivered ks receptions) (hk : ks[i]? = some k) :
    ∃ r, receptions[i]? = some r := by
  have hlen := congrArg List.length h.numbered
  rw [List.length_map, List.length_map] at hlen
  obtain ⟨hi, -⟩ := List.getElem?_eq_some_iff.mp hk
  exact ⟨_, List.getElem?_eq_getElem (hlen ▸ hi)⟩

end

theorem warned_iff {outcomes : List WaitOutcome} {ks : List ℕ}
    (h : Delivered ks (run outcomes).receptions) {i k k' : ℕ} {r : HostSamplePacket × Bool}
    (hk : ks[i]? = some k) (hk' : ks[i + 1]? = some k')
    (hr : (run outcomes).receptions[i + 1]? = some r) :
    r.2 = true ↔ k / seqSpace < k' / seqSpace := by
  obtain ⟨⟨pkt, warned⟩, hfirst⟩ := h.exists_reception hk
  obtain ⟨pkt', warned'⟩ := r
  have hseq : pkt.seq = k % seqSpace := h.seq hk hfirst
  have hseq' : pkt'.seq = k' % seqSpace := h.seq hk' hr
  obtain ⟨hlt, hle⟩ := h.step hk hk'
  change warned' = true ↔ _
  rw [receptions_warned hfirst hr, hseq, hseq', decide_eq_true_iff]
  exact mod_le_mod_iff hlt hle

/-- The warnings of a run are exact just when every two packets in a row are `Signalled`. -/
theorem warnsExactly_iff (outcomes : List WaitOutcome) (ks : List ℕ)
    (h : Delivered ks (run outcomes).receptions) :
    WarnsExactly ks (run outcomes).receptions ↔ ks.IsChain Signalled := by
  rw [List.isChain_iff_getElem]
  constructor
  · intro hexact i hi
    have hk : ks[i]? = some ks[i] := List.getElem?_eq_getElem (by omega)
    have hk' : ks[i + 1]? = some ks[i + 1] := List.getElem?_eq_getElem hi
    obtain ⟨r, hr⟩ := h.exists_reception hk'
    rw [← signalled_iff (h.step hk hk').1, ← warned_iff h hk hk' hr]
    exact hexact i _ _ r hk hk' hr
  · intro hsignalled i k k' r hk hk' hr
    rw [warned_iff h hk hk' hr, signalled_iff (h.step hk hk').1]
    obtain ⟨hi', hget'⟩ := List.getElem?_eq_some_iff.mp hk'
    obtain ⟨hi, hget⟩ := List.getElem?_eq_some_iff.mp hk
    have := hsignalled i hi'
    rwa [hget, hget'] at this

/-- The `k`-th packet of the sender, with one sample. -/
def packetNo (k : ℕ) : WaitOutcome := .packet ⟨packetMagic, k % seqSpace, 1, [⟨0, 0, 100, 0⟩]⟩

/-- A gap across the border of a round is noticed. -/
theorem warnsExactly_across_border :
    WarnsExactly [65000, 66000] (run [packetNo 65000, packetNo 66000]).receptions := by
  apply (warnsExactly_iff _ _ ⟨rfl, by simp [seqSpace]⟩).mpr
  simp [Signalled, seqSpace]

/-- A lost second packet is not noticed, and a run without loss warns at the wrap-around. -/
theorem not_warnsExactly :
    (Delivered [0, 2] (run [packetNo 0, packetNo 2]).receptions ∧
        ¬WarnsExactly [0, 2] (run [packetNo 0, packetNo 2]).receptions) ∧
      Delivered [65535, 65536] (run [packetNo 65535, packetNo 65536]).receptions ∧
        ¬WarnsExactly [65535, 65536] (run [packetNo 65535, packetNo 65536]).receptions := by
  refine ⟨⟨⟨rfl, by simp [seqSpace]⟩, ?_⟩, ⟨rfl, by simp [seqSpace]⟩, ?_⟩
  · intro h
    exact absurd (h 0 0 2 _ rfl rfl rfl) (by decide)
  · intro h
    exact absurd (h 0 65535 65536 _ rfl rfl rfl) (by decide)

end EmbeddedDaq.LossWarning

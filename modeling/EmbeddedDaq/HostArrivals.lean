import EmbeddedDaq.HostReception

set_option autoImplicit false

namespace EmbeddedDaq.HostArrivals
open HostPacket HostClient HostScan HostReception GeneralLittleEndian GeneralWhileLoop
open GeneralWindowSearch

/-- The bytes of a write, behind those of `lead`, arrive in these polls. -/
structure Arrives (lead write : List Byte) (polls : List (List Byte)) : Prop where
  bytes : polls.flatten = lead ++ write
  together : ∃ before last, polls = before ++ [last] ∧
    before.flatten.length < lead.length + packetSize

theorem flatten_length_take_le (polls : List (List Byte)) {m n : ℕ} (h : m ≤ n) :
    (polls.take m).flatten.length ≤ (polls.take n).flatten.length := by
  rw [← Nat.add_sub_cancel' h, List.take_add, List.flatten_append, List.length_append]
  exact Nat.le_add_right _ _

/-- Two prefixes, the first of which ends before `n` bytes and the second after, end at one poll. -/
theorem same_poll {before before' rest rest' : List (List Byte)} {last last' : List Byte} {n : ℕ}
    (hpolls : before ++ last :: rest = before' ++ last' :: rest')
    (hshort : before.flatten.length < n) (hlong : n ≤ (before ++ [last]).flatten.length)
    (hshort' : before'.flatten.length < n) (hlong' : n ≤ (before' ++ [last']).flatten.length) :
    rest = rest' := by
  have htake : ∀ (b : List (List Byte)) l r, (b ++ l :: r).take b.length = b := by
    intro b l r
    exact List.take_left
  have htake' : ∀ (b : List (List Byte)) l r, (b ++ l :: r).take (b.length + 1) = b ++ [l] := by
    intro b l r
    rw [List.append_cons]
    exact List.take_left' (List.length_append ..)
  have hdrop : ∀ (b : List (List Byte)) l r, (b ++ l :: r).drop (b.length + 1) = r := by
    intro b l r
    rw [List.append_cons]
    exact List.drop_left' (List.length_append ..)
  have hlength : before.length = before'.length := by
    rcases Nat.lt_trichotomy before.length before'.length with hlt | heq | hgt
    · have hle := flatten_length_take_le (before ++ last :: rest) (Nat.succ_le_of_lt hlt)
      rw [Nat.succ_eq_add_one, htake', hpolls, htake] at hle
      omega
    · exact heq
    · have hle := flatten_length_take_le (before' ++ last' :: rest') (Nat.succ_le_of_lt hgt)
      rw [Nat.succ_eq_add_one, htake', ← hpolls, htake] at hle
      omega
  have hdropped := congrArg (List.drop (before.length + 1)) hpolls
  rw [hdrop, hlength, hdrop] at hdropped
  exact hdropped

section
variable {lead write : List Byte} {polls : List (List Byte)}

theorem call_arrival (h : Arrives lead write polls)
    (hfirst : First packetSize ValidWindow (lead ++ write) lead.length)
    (hempty : ∀ j < lead.length, ¬Hit packetSize EmptyWindow (lead ++ write) j)
    (rest : List (List Byte)) :
    WaitReturns (polls ++ rest) (.ok (decoded (window packetSize 0 write))) rest := by
  obtain ⟨before, last, rfl, hshort⟩ := h.together
  have hlength := hfirst.1.1
  have hbytes : ((before ++ [last]) ++ rest).flatten = (lead ++ write) ++ rest.flatten := by
    rw [List.flatten_append, h.bytes]
  have hwhole : First packetSize ValidWindow ((before ++ [last]) ++ rest).flatten lead.length := by
    rw [hbytes]
    exact hfirst.append _
  have hrefused : ∀ j < lead.length,
      ¬Hit packetSize EmptyWindow ((before ++ [last]) ++ rest).flatten j := by
    intro j hj hhit
    rw [hbytes, hit_append (by omega)] at hhit
    exact hempty j hj hhit
  obtain ⟨before', last', rest', hsplit, hnone, hhit, hcall⟩ := call_first hwhole hrefused
  have hwindow : window packetSize lead.length ((before ++ [last]) ++ rest).flatten =
      window packetSize 0 write := by
    rw [hbytes, window_append hlength, ← Nat.add_zero lead.length, window_length_add]
  have hshort' : before'.flatten.length < lead.length + packetSize := by
    by_contra hlong
    have hflat : ((before ++ [last]) ++ rest).flatten =
        before'.flatten ++ (last' :: rest').flatten := by
      rw [hsplit, List.flatten_append]
    rw [hflat] at hwhole
    exact hnone lead.length ((hit_append (by omega) _).mp hwhole.1)
  have hlong : lead.length + packetSize ≤ (before ++ [last]).flatten.length := by
    rw [h.bytes]
    exact hlength
  have hpolls : before ++ last :: rest = before' ++ last' :: rest' := by
    rw [← hsplit, List.append_assoc, List.singleton_append]
  obtain rfl := same_poll hpolls hshort hlong hshort' hhit.1
  rwa [hwindow] at hcall

/-- No two bytes of `lead` look like the start of a header. -/
def Silent (lead : List Byte) : Prop :=
  ∀ j : ℕ, lead[j]? = some 0x71 → lead[j + 1]? ≠ some 0xDA

theorem silent_nil : Silent [] := by
  intro j h
  cases h

theorem silent_cons {a : Byte} {rest : List Byte} :
    Silent (a :: rest) ↔ (a = 0x71 → rest[0]? ≠ some 0xDA) ∧ Silent rest := by
  constructor
  · intro h
    exact ⟨fun ha => h 0 (congrArg some ha), fun j hj => h (j + 1) hj⟩
  · rintro ⟨hhead, hrest⟩ j hj
    cases j with
    | zero => exact hhead (Option.some.inj hj)
    | succ j => exact hrest j hj

instance decidableSilent : (lead : List Byte) → Decidable (Silent lead)
  | [] => isTrue silent_nil
  | a :: rest =>
    have : Decidable (Silent rest) := decidableSilent rest
    decidable_of_iff ((a = 0x71 → rest[0]? ≠ some 0xDA) ∧ Silent rest) silent_cons.symm

theorem magicOf_bytes {data : List Byte} (h : magicOf data = packetMagic) :
    data[0]? = some 0x71 ∧ data[1]? = some 0xDA := by
  match data with
  | [] => exact absurd h (by decide)
  | [a] =>
    have hone : magicOf [a] = a.toNat + 256 * 0 := rfl
    rw [hone] at h
    have ha := a.isLt
    unfold packetMagic at h
    omega
  | a :: b :: rest =>
    have htwo : magicOf (a :: b :: rest) = a.toNat + 256 * (b.toNat + 256 * 0) := rfl
    rw [htwo] at h
    have ha := a.isLt
    have hb := b.isLt
    unfold packetMagic at h
    have hlow : a = 0x71 := BitVec.eq_of_toNat_eq (show a.toNat = 0x71 by omega)
    have hhigh : b = 0xDA := BitVec.eq_of_toNat_eq (show b.toNat = 0xDA by omega)
    rw [hlow, hhigh]
    exact ⟨rfl, rfl⟩

/-- What follows a silent lead may not complete a header that its last byte starts. -/
theorem Silent.no_magic (h : Silent lead) (hwrite : write[0]? ≠ some 0xDA) {j : ℕ}
    (hj : j < lead.length) : magicOf (window packetSize j (lead ++ write)) ≠ packetMagic := by
  intro hmagic
  obtain ⟨hlow, hhigh⟩ := magicOf_bytes hmagic
  have hfirst : lead[j]? = some 0x71 := by
    rwa [window, List.getElem?_take_of_lt (by decide), List.getElem?_drop, Nat.add_zero,
      List.getElem?_append_left hj] at hlow
  rw [window, List.getElem?_take_of_lt (by decide), List.getElem?_drop] at hhigh
  rcases Nat.lt_or_ge (j + 1) lead.length with hinside | hend
  · rw [List.getElem?_append_left hinside] at hhigh
    exact h j hfirst hhigh
  · rw [List.getElem?_append_right hend, Nat.sub_eq_zero_of_le hj] at hhigh
    exact hwrite hhigh

theorem validWindow_head (hvalid : ValidWindow (window packetSize 0 write)) :
    write[0]? ≠ some 0xDA := by
  have hlow := (magicOf_bytes hvalid.1).1
  rw [window, List.getElem?_take_of_lt (by decide), List.drop_zero] at hlow
  rw [hlow]
  decide

theorem Silent.first (h : Silent lead) (hlength : packetSize ≤ write.length)
    (hvalid : ValidWindow (window packetSize 0 write)) :
    First packetSize ValidWindow (lead ++ write) lead.length := by
  refine ⟨⟨?_, ?_⟩, ?_⟩
  · rw [List.length_append]
    exact Nat.add_le_add_left hlength _
  · rwa [← Nat.add_zero lead.length, window_length_add]
  · intro j hj hhit
    exact h.no_magic (validWindow_head hvalid) hj hhit.2.1

theorem received_idle {idle : List (List Byte)} (h : idle.flatten = []) : Received idle [] := by
  refine .done (call_timeout ?_ ?_)
  · rw [h]
    exact no_hit_nil _
  · rw [h]
    exact no_hit_nil _

end

/-- Writes that arrive one by one, the first of them behind `lead`. -/
def ArriveAfter (lead : List Byte) : List (List Byte) → List (List (List Byte)) → Prop
  | [], [polls] => polls.flatten = lead
  | write :: writes, polls :: groups =>
    Arrives lead write polls ∧ List.Forall₂ (Arrives []) writes groups
  | _, _ => False

section
variable {lead : List Byte} {writes : List (List Byte)} {groups : List (List (List Byte))}
  {idle : List (List Byte)}

theorem received_writes (harrive : List.Forall₂ (Arrives []) writes groups)
    (hwrites : ∀ write ∈ writes,
      packetSize ≤ write.length ∧ ValidWindow (window packetSize 0 write))
    (hidle : idle.flatten = []) :
    Received (groups.flatten ++ idle)
      (writes.map fun write => decoded (window packetSize 0 write)) := by
  induction harrive with
  | nil => exact received_idle hidle
  | @cons write polls writes groups hhead htail ih =>
    obtain ⟨hlength, hvalid⟩ := hwrites write List.mem_cons_self
    have hcall := call_arrival hhead (silent_nil.first hlength hvalid)
      (fun j hj => absurd hj (Nat.not_lt_zero j)) (groups.flatten ++ idle)
    rw [List.flatten_cons, List.append_assoc, List.map_cons]
    exact .next hcall (ih fun w hw => hwrites w (List.mem_cons_of_mem write hw))

theorem received_after (hsilent : Silent lead) (harrive : ArriveAfter lead writes groups)
    (hwrites : ∀ write ∈ writes,
      packetSize ≤ write.length ∧ ValidWindow (window packetSize 0 write))
    (hidle : idle.flatten = []) :
    Received (groups.flatten ++ idle)
      (writes.map fun write => decoded (window packetSize 0 write)) := by
  match writes, groups, harrive with
  | [], [polls], hlead =>
    have hflat : ([polls].flatten ++ idle).flatten = lead := by
      rw [List.flatten_append, hidle, List.flatten_singleton, hlead, List.append_nil]
    have hnone : ∀ k, k + packetSize ≤ lead.length →
        magicOf (window packetSize k lead) ≠ packetMagic := by
      intro k hk
      have hpos := packetSize_pos
      have hno : magicOf (window packetSize k (lead ++ [])) ≠ packetMagic :=
        hsilent.no_magic (by decide) (by omega)
      rwa [List.append_nil] at hno
    refine .done (call_timeout ?_ ?_)
    · intro k hhit
      rw [hflat] at hhit
      exact hnone k hhit.1 hhit.2.1
    · intro k hhit
      rw [hflat] at hhit
      exact hnone k hhit.1 hhit.2.1
  | write :: writes, polls :: groups, ⟨hhead, htail⟩ =>
    obtain ⟨hlength, hvalid⟩ := hwrites write List.mem_cons_self
    have hcall := call_arrival hhead (hsilent.first hlength hvalid)
      (fun j hj hhit => hsilent.no_magic (validWindow_head hvalid) hj hhit.2.1)
      (groups.flatten ++ idle)
    rw [List.flatten_cons, List.append_assoc, List.map_cons]
    exact .next hcall
      (received_writes htail (fun w hw => hwrites w (List.mem_cons_of_mem write hw)) hidle)

theorem arrives_together (lead write : List Byte) : Arrives lead write [lead ++ write] := by
  refine ⟨List.flatten_singleton, [], lead ++ write, rfl, ?_⟩
  exact Nat.lt_of_lt_of_le packetSize_pos (Nat.le_add_left _ _)

theorem arrives_cut (lead write : List Byte) {n : ℕ} (hn : n < packetSize)
    (hfits : n ≤ write.length) : Arrives lead write [lead, write.take n, write.drop n] := by
  constructor
  · simp
  · refine ⟨[lead, write.take n], write.drop n, rfl, ?_⟩
    rw [List.flatten_cons, List.flatten_singleton, List.length_append, List.length_take_of_le hfits]
    exact Nat.add_lt_add_left hn _

def eachCut (n : ℕ) (writes : List (List Byte)) : List (List (List Byte)) :=
  writes.map fun write => [[], write.take n, write.drop n]

theorem eachCut_arrive {n : ℕ} (hn : n < packetSize)
    (hfits : ∀ write ∈ writes, n ≤ write.length) :
    List.Forall₂ (Arrives []) writes (eachCut n writes) := by
  induction writes with
  | nil => exact .nil
  | cons write writes ih =>
    exact .cons (arrives_cut [] write hn (hfits write List.mem_cons_self))
      (ih fun w hw => hfits w (List.mem_cons_of_mem write hw))

theorem arrivals_flatten (h : List.Forall₂ (Arrives []) writes groups) :
    groups.flatten.flatten = writes.flatten := by
  induction h with
  | nil => rfl
  | cons hhead htail ih =>
    rw [List.flatten_cons, List.flatten_append, hhead.bytes, ih, List.flatten_cons, List.nil_append]

theorem arriveAfter_flatten (h : ArriveAfter lead writes groups) :
    groups.flatten.flatten = lead ++ writes.flatten := by
  match writes, groups, h with
  | [], [polls], hlead =>
    rw [List.flatten_singleton, hlead, List.flatten_nil, List.append_nil]
  | write :: writes, polls :: groups, ⟨hhead, htail⟩ =>
    rw [List.flatten_cons, List.flatten_append, hhead.bytes, arrivals_flatten htail,
      List.flatten_cons, List.append_assoc]

end

end EmbeddedDaq.HostArrivals

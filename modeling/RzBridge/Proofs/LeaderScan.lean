import RzBridge.Lib.RoundRobin
import RzBridge.Proofs.Solo

/-!
# Which leader connection a write gets

`next_leader_conn` wraps around the slots by hand; what it returns is the first open slot in cyclic order
after the last one used, and `last_leader_id` moves there (`nextLeaderConn_eq`). So the open slots take turns
(`leader_slots_take_turns`), as long as the slots can be numbered by a `u32`.
-/

namespace RzBridge
open Machine RoundRobin

variable {cfg : Config} {closed : Nat → Bool} {slots : List (Option Connection)}

/-- Slot `i` holds an open connection. -/
def openSlot (closed : Nat → Bool) (slots : List (Option Connection)) (i : Nat) : Bool :=
  match slots[i]? with
  | some (some c) => !closed c.id
  | _ => false

theorem openSlot_iff {i : Nat} :
    openSlot closed slots i = true ↔ ∃ c, slots[i]? = some (some c) ∧ closed c.id = false := by
  unfold openSlot
  split
  next c hc => simp [hc]
  next hno => simpa using fun c hc => absurd hc (hno c)

/-- The slots that hold an open connection. -/
def openSlots (closed : Nat → Bool) (slots : List (Option Connection)) : List Nat :=
  (List.range slots.length).filter (openSlot closed slots)

/-- The addition of `u32` overflows only where the index wraps around anyway. -/
theorem wrapIdx_next {n last : Nat} (hlast : last < n) (hfit : n ≤ 2 ^ 32) :
    wrapIdx n ((last + 1) % 2 ^ 32) = (last + 1) % n := by
  rcases Nat.lt_or_eq_of_le (hlast.trans_le hfit : last + 1 ≤ 2 ^ 32) with hlt | heq
  · rw [Nat.mod_eq_of_lt hlt, wrapIdx_succ hlast]
  · obtain rfl : n = last + 1 := le_antisymm (hfit.trans_eq heq.symm) hlast
    rw [← heq, Nat.mod_self]
    exact if_neg (Nat.not_le_of_gt (Nat.succ_pos last))

theorem scanLeader_eq {left next : Nat} (hn : next < cfg.connPerRoomzinNode) :
    (scanLeader cfg closed slots left next).map (·.1) =
        (walk cfg.connPerRoomzinNode left next).find? (openSlot closed slots) ∧
      ∀ i c, scanLeader cfg closed slots left next = some (i, c) → slots[i]? = some (some c) := by
  induction left generalizing next with
  | zero => exact ⟨rfl, fun i c h => by cases h⟩
  | succ left ih =>
    have hstep := ih (Nat.mod_lt (next + 1) (Nat.zero_lt_of_lt hn))
    rw [walk_succ hn, List.find?_cons]
    simp only [scanLeader, wrapIdx_succ hn]
    split
    next c hc =>
      cases hcl : closed c.id with
      | true =>
        have hshut : openSlot closed slots next = false := by simp [openSlot, hc, hcl]
        rw [hshut]
        exact hstep
      | false =>
        have hopen : openSlot closed slots next = true := openSlot_iff.2 ⟨c, hc, hcl⟩
        rw [hopen]
        exact ⟨rfl, fun i c' h => by cases h; exact hc⟩
    next hno =>
      have hshut : openSlot closed slots next = false := by
        rw [Bool.eq_false_iff, ne_eq, openSlot_iff]
        rintro ⟨c, hc, -⟩
        exact hno c hc
      rw [hshut]
      exact hstep

theorem nextLeaderConn_of_scan {h : Handler} {i : Nat} {c : Connection} (hc : h.leaderConns[i]? = some (some c))
    (hscan : scanLeader cfg closed h.leaderConns (min cfg.connPerRoomzinNode h.leaderConns.length)
      (wrapIdx cfg.connPerRoomzinNode ((h.loadBalancer.lastLeaderId + 1) % 2 ^ 32)) = some (i, c)) :
    nextLeaderConn cfg closed h =
      (some c, { h with loadBalancer := { h.loadBalancer with lastLeaderId := i % 2 ^ 32 } }) := by
  have hmem := List.mem_of_getElem? hc
  unfold nextLeaderConn
  dsimp only
  rw [if_neg, hscan]
  rintro (hnil | hany)
  · rw [hnil] at hmem
    cases hmem
  · exact hany (List.any_eq_true.2 ⟨some c, hmem, rfl⟩)

section
variable {h : Handler} (hlen : h.leaderConns.length = cfg.connPerRoomzinNode)
  (hfit : cfg.connPerRoomzinNode ≤ 2 ^ 32) (hlast : h.loadBalancer.lastLeaderId < max cfg.connPerRoomzinNode 1)

include hlen hfit hlast in
/-- A selection takes the first open slot after the last one used. -/
theorem nextLeaderConn_eq : nextLeaderConn cfg closed h =
    match next (openSlot closed h.leaderConns) cfg.connPerRoomzinNode h.loadBalancer.lastLeaderId with
    | none => (none, h)
    | some i =>
      (h.leaderConns[i]?.join, { h with loadBalancer := { h.loadBalancer with lastLeaderId := i } }) := by
  by_cases hz : cfg.connPerRoomzinNode = 0
  · have hnil : h.leaderConns = [] := List.eq_nil_of_length_eq_zero (hlen.trans hz)
    rw [nextLeaderConn, if_pos (.inl hnil), hz]
    rfl
  have hn : h.loadBalancer.lastLeaderId < cfg.connPerRoomzinNode := by omega
  obtain ⟨hfind, hslot⟩ := @scanLeader_eq cfg closed h.leaderConns cfg.connPerRoomzinNode _
    (Nat.mod_lt (h.loadBalancer.lastLeaderId + 1) (Nat.pos_of_ne_zero hz))
  have hstart := wrapIdx_next hn hfit
  rw [next, circle, ← hfind]
  cases hscan : scanLeader cfg closed h.leaderConns cfg.connPerRoomzinNode
      ((h.loadBalancer.lastLeaderId + 1) % cfg.connPerRoomzinNode) with
  | none =>
    unfold nextLeaderConn
    dsimp only
    split
    · rfl
    · rw [hstart, hlen, min_self, hscan]
      rfl
  | some found =>
    obtain ⟨i, c⟩ := found
    have hc := hslot i c hscan
    have hi : i < 2 ^ 32 := ((List.getElem?_eq_some_iff.1 hc).1.trans_eq hlen).trans_le hfit
    rw [nextLeaderConn_of_scan hc (by rw [hstart, hlen, min_self, hscan]), Nat.mod_eq_of_lt hi]
    simp only [Option.map_some, hc, Option.join_some]

end

/-- `m` selections in a row: what each returns and the slot it leaves as the last one used. -/
def nextLeaderConns (cfg : Config) (closed : Nat → Bool) : Nat → Handler → List (Option Connection × Nat)
  | 0, _ => []
  | m + 1, h =>
    ((nextLeaderConn cfg closed h).1, (nextLeaderConn cfg closed h).2.loadBalancer.lastLeaderId) ::
      nextLeaderConns cfg closed m (nextLeaderConn cfg closed h).2

section
variable {h : Handler} (hlen : h.leaderConns.length = cfg.connPerRoomzinNode)
  (hfit : cfg.connPerRoomzinNode ≤ 2 ^ 32) (hlast : h.loadBalancer.lastLeaderId < cfg.connPerRoomzinNode)

include hlen hfit hlast in
theorem nextLeaderConns_eq {m : Nat} (hm : 0 < (openSlots closed h.leaderConns).length) :
    nextLeaderConns cfg closed m h =
      (turns (openSlot closed h.leaderConns) cfg.connPerRoomzinNode m h.loadBalancer.lastLeaderId).map
        fun i => (h.leaderConns[i]?.join, i) := by
  induction m generalizing h with
  | zero => rfl
  | succ m ih =>
    have hone := @nextLeaderConn_eq cfg closed h hlen hfit (hlast.trans_le (le_max_left ..))
    rw [nextLeaderConns, turns]
    split
    next hnone =>
      -- then no slot is open
      obtain ⟨i, hi⟩ := List.exists_mem_of_length_pos hm
      obtain ⟨hi, hopen⟩ := List.mem_filter.1 hi
      have hshut := (next_eq_none_iff hlast).1 hnone i ((List.mem_range.1 hi).trans_eq hlen)
      exact absurd (hopen.symm.trans hshut) (by decide)
    next i hsome =>
      rw [hsome] at hone
      dsimp only at hone
      have hi : i < cfg.connPerRoomzinNode := by
        obtain ⟨d, -, rfl, -⟩ := next_eq_some_iff.1 hsome
        exact Nat.mod_lt _ (Nat.zero_lt_of_lt hlast)
      rw [hone, List.map_cons]
      exact congrArg _ (ih (h := { h with loadBalancer := { h.loadBalancer with lastLeaderId := i } }) hlen hi hm)

end

/-- `next_leader_conn` on any slots: it returns a connection if and only if a slot is open, then the one of
the first open slot after the last one used, where `last_leader_id` moves and nothing else changes; and as
many selections in a row as there are open slots use each of them once. -/
theorem leader_slots_take_turns (cfg : Config) (closed : Nat → Bool) (h : Handler)
    (hlen : h.leaderConns.length = cfg.connPerRoomzinNode)
    (hlast : h.loadBalancer.lastLeaderId < max cfg.connPerRoomzinNode 1)
    (hfit : cfg.connPerRoomzinNode ≤ 2 ^ 32) :
    ((nextLeaderConn cfg closed h).1.isSome = true ↔ ∃ i, openSlot closed h.leaderConns i = true) ∧
    (∀ c, (nextLeaderConn cfg closed h).1 = some c → ∃ d i, d < cfg.connPerRoomzinNode ∧
      i = (h.loadBalancer.lastLeaderId + 1 + d) % cfg.connPerRoomzinNode ∧
      h.leaderConns[i]? = some (some c) ∧ closed c.id = false ∧
      (∀ d' < d, openSlot closed h.leaderConns
        ((h.loadBalancer.lastLeaderId + 1 + d') % cfg.connPerRoomzinNode) = false) ∧
      (nextLeaderConn cfg closed h).2 = { h with loadBalancer := { h.loadBalancer with lastLeaderId := i } }) ∧
    ((nextLeaderConn cfg closed h).1 = none → (nextLeaderConn cfg closed h).2 = h) ∧
    ∃ order : List Nat, order.Perm (openSlots closed h.leaderConns) ∧
      nextLeaderConns cfg closed (openSlots closed h.leaderConns).length h =
        order.map fun i => (h.leaderConns[i]?.join, i) := by
  have hone := @nextLeaderConn_eq cfg closed h hlen hfit hlast
  have hslot : ∀ i, openSlot closed h.leaderConns i = true → i < cfg.connPerRoomzinNode := by
    intro i hi
    obtain ⟨c, hc, -⟩ := openSlot_iff.1 hi
    exact (List.getElem?_eq_some_iff.1 hc).1.trans_eq hlen
  have hrounds : ∃ order : List Nat, order.Perm (openSlots closed h.leaderConns) ∧
      nextLeaderConns cfg closed (openSlots closed h.leaderConns).length h =
        order.map fun i => (h.leaderConns[i]?.join, i) := by
    rcases Nat.eq_zero_or_pos (openSlots closed h.leaderConns).length with hz | hpos
    · exact ⟨[], by rw [List.eq_nil_of_length_eq_zero hz], by rw [hz]; rfl⟩
    · obtain ⟨i, hi⟩ := List.exists_mem_of_length_pos hpos
      have hn : h.loadBalancer.lastLeaderId < cfg.connPerRoomzinNode := by
        have := hslot i (List.of_mem_filter hi)
        omega
      refine ⟨_, ?_, nextLeaderConns_eq hlen hfit hn hpos⟩
      have hturns := turns_perm (p := openSlot closed h.leaderConns) hn
      rw [List.countP_eq_length_filter, ← hlen] at hturns
      exact hlen ▸ hturns
  cases hnext : next (openSlot closed h.leaderConns) cfg.connPerRoomzinNode h.loadBalancer.lastLeaderId with
  | none =>
    rw [hnext] at hone
    dsimp only at hone
    rw [hone]
    refine ⟨⟨fun hsome => (Bool.false_ne_true hsome).elim, ?_⟩, fun c hc => ?_, fun _ => rfl, hrounds⟩
    · rintro ⟨i, hi⟩
      have hn : h.loadBalancer.lastLeaderId < cfg.connPerRoomzinNode := by
        have := hslot i hi
        omega
      exact absurd (hi.symm.trans ((next_eq_none_iff hn).1 hnext i (hslot i hi))) (by decide)
    · cases hc
  | some i =>
    rw [hnext] at hone
    dsimp only at hone
    obtain ⟨d, hd, hi, hopen, hbefore⟩ := next_eq_some_iff.1 hnext
    obtain ⟨c, hc, hcl⟩ := openSlot_iff.1 hopen
    rw [hc, Option.join_some] at hone
    rw [hone]
    refine ⟨⟨fun _ => ⟨i, hopen⟩, fun _ => rfl⟩, fun c' hc' => ?_, fun hnone => ?_, hrounds⟩
    · cases hc'
      exact ⟨d, i, hd, hi, hc, hcl, hbefore, rfl⟩
    · cases hnone

/-- A leader with an empty slot between two connections. -/
def threeSlots : Handler :=
  { leaderConns := [some ⟨0, "l"⟩, none, some ⟨1, "l"⟩], leaderHost := some "l" }

theorem leader_slots_take_turns_three :
    (nextLeaderConn { connPerRoomzinNode := 3 } (fun _ => false) threeSlots).1.isSome = true ∧
    ∃ order : List Nat, order.Perm [0, 2] ∧
      nextLeaderConns { connPerRoomzinNode := 3 } (fun _ => false) 2 threeSlots =
        order.map fun i => (threeSlots.leaderConns[i]?.join, i) := by
  obtain ⟨hsome, -, -, horder⟩ := leader_slots_take_turns { connPerRoomzinNode := 3 } (fun _ => false) threeSlots
    rfl (by decide) (by decide)
  exact ⟨hsome.2 ⟨0, rfl⟩, horder⟩

/-- `n` empty slots before one connection. -/
def lastSlot (n : Nat) : Handler := { leaderConns := List.replicate n none ++ [some ⟨0, "l"⟩] }

theorem openSlot_lastSlot {n i : Nat} : openSlot (fun _ => false) (lastSlot n).leaderConns i = true ↔ i = n := by
  rw [openSlot_iff]
  constructor
  · rintro ⟨c, hc, -⟩
    rw [lastSlot, List.getElem?_append] at hc
    split at hc
    next hlt =>
      have hmem := List.mem_of_getElem? hc
      cases (List.mem_replicate.1 hmem).2
    next hge =>
      have hlt := (List.getElem?_eq_some_iff.1 hc).1
      simp only [List.length_replicate, List.length_singleton] at hge hlt
      omega
  · rintro rfl
    exact ⟨⟨0, "l"⟩, by simp [lastSlot], rfl⟩

theorem length_lastSlot (n : Nat) : (lastSlot n).leaderConns.length = n + 1 := by
  simp [lastSlot]

theorem nextLeaderConn_lastSlot (n : Nat) :
    (nextLeaderConn { connPerRoomzinNode := n + 1 } (fun _ => false) (lastSlot n)).1 = some ⟨0, "l"⟩ ∧
    (nextLeaderConn { connPerRoomzinNode := n + 1 } (fun _ => false) (lastSlot n)).2.loadBalancer.lastLeaderId =
      n % 2 ^ 32 := by
  have hlen := length_lastSlot n
  have hstart : wrapIdx (n + 1) ((0 + 1) % 2 ^ 32) < n + 1 := wrapIdx_lt (Nat.succ_pos n)
  obtain ⟨hfind, hslot⟩ := @scanLeader_eq { connPerRoomzinNode := n + 1 } (fun _ => false)
    (lastSlot n).leaderConns (n + 1) _ hstart
  -- the walk goes all the way around, so it meets the last slot
  have hn : (walk (n + 1) (n + 1) (wrapIdx (n + 1) ((0 + 1) % 2 ^ 32))).find?
      (openSlot (fun _ => false) (lastSlot n).leaderConns) = some n := by
    cases hf : (walk (n + 1) (n + 1) (wrapIdx (n + 1) ((0 + 1) % 2 ^ 32))).find?
        (openSlot (fun _ => false) (lastSlot n).leaderConns) with
    | none =>
      have hin := (circle_perm hstart).mem_iff.2 (List.mem_range.2 (Nat.lt_succ_self n))
      exact absurd (openSlot_lastSlot.2 rfl) (List.find?_eq_none.1 hf n hin)
    | some i => rw [openSlot_lastSlot.1 (List.find?_some hf)]
  rw [hn] at hfind
  obtain ⟨⟨i, c⟩, hscan, rfl⟩ := Option.map_eq_some_iff.1 hfind
  have hslot := hslot i c hscan
  have hc : ⟨0, "l"⟩ = c := by simpa [lastSlot] using hslot
  rw [nextLeaderConn_of_scan hslot (by rw [hlen, min_self]; exact hscan), hc]
  exact ⟨rfl, rfl⟩

/-- With a slot that no `u32` numbers, `last_leader_id` becomes another one. -/
theorem leader_slot_truncated : (lastSlot (2 ^ 32)).leaderConns.length = 2 ^ 32 + 1 ∧
    (∀ i, openSlot (fun _ => false) (lastSlot (2 ^ 32)).leaderConns i = true ↔ i = 2 ^ 32) ∧
    (nextLeaderConn { connPerRoomzinNode := 2 ^ 32 + 1 } (fun _ => false) (lastSlot (2 ^ 32))).1 =
      some ⟨0, "l"⟩ ∧
    (nextLeaderConn { connPerRoomzinNode := 2 ^ 32 + 1 } (fun _ => false)
      (lastSlot (2 ^ 32))).2.loadBalancer.lastLeaderId = 0 := by
  obtain ⟨hret, hlast⟩ := nextLeaderConn_lastSlot (2 ^ 32)
  exact ⟨length_lastSlot _, fun i => openSlot_lastSlot, hret, hlast.trans (Nat.mod_self _)⟩

end RzBridge

import RzBridge.Proofs.LeaderSelect

/-!
# The selection of a write is atomic

`next_leader_conn` keeps the load balancer from the moment it reads `last_leader_id` on, so nobody moves that
meanwhile (`Placed`), and the slots it is through with stay shut. When it returns it does what it would do alone in
that moment, and so the writes of all clients together take turns with the slots.
-/

namespace RzBridge
open Machine CircularWait RoundRobin

variable {cfg : Config} {s s' : Sys} {l : SysLabel} {k : Nat}

/-! ### Where a scan stands -/

/-- The slots that a scan of `n` slots is through with and the ones ahead are once around, from behind the slot
`last`. -/
structure Placed (n last : Nat) (pc : SelPc) : Prop where
  start : ∀ i, pc = .lSlots i → 0 < n → i = (last + 1) % n
  around : ∀ rest, pc.ahead n = some rest → ∃ seen, circle n ((last + 1) % n) = seen ++ rest

theorem Placed.of_none {n last : Nat} {pc : SelPc} (hs : pc.slot = none) (ha : pc.ahead n = none) :
    Placed n last pc where
  start i hi := by
    rw [hi] at hs
    cases hs
  around rest hr := by
    rw [ha] at hr
    cases hr

theorem Placed.fNext {n last : Nat} (left : Nat) : Placed n last (fNext left) := by
  unfold RzBridge.fNext
  split <;> exact .of_none rfl rfl

theorem SelMove.placed {closed : Nat → Bool} {now : Nat} {h h' : Handler} {pc pc' : SelPc}
    (hb : SelMove cfg closed now h pc h' pc') (hfit : cfg.connPerRoomzinNode ≤ 2 ^ 32)
    (hlen : h.leaderConns.length = cfg.connPerRoomzinNode)
    (hlast : h.loadBalancer.lastLeaderId < max cfg.connPerRoomzinNode 1)
    (hsc : Scanned cfg.connPerRoomzinNode closed h.leaderConns pc)
    (hi : Placed cfg.connPerRoomzinNode h.loadBalancer.lastLeaderId pc) :
    Placed cfg.connPerRoomzinNode h.loadBalancer.lastLeaderId pc' := by
  -- the slot at which the scan stands goes over to those it is through with
  have next : ∀ left i, pc.slot = some i →
      pc.ahead cfg.connPerRoomzinNode = some (walk cfg.connPerRoomzinNode (left + 1) i) →
      0 < cfg.connPerRoomzinNode ∧
        ∃ seen, circle cfg.connPerRoomzinNode ((h.loadBalancer.lastLeaderId + 1) % cfg.connPerRoomzinNode) =
          seen ++ walk cfg.connPerRoomzinNode left ((i + 1) % cfg.connPerRoomzinNode) := by
    intro left i hslot hahead
    obtain ⟨seen, hseen⟩ := hi.around _ hahead
    rcases Nat.eq_zero_or_pos cfg.connPerRoomzinNode with hz | hn
    · -- there is no way around without slots
      have hl := congrArg List.length hseen
      simp [circle, walk, hz] at hl
    · refine ⟨hn, seen ++ [i], ?_⟩
      rw [hseen, walk_succ (hsc.slot i hslot hn), List.append_assoc]
      rfl
  cases hb with
  | fLen | fSkip | fOver => exact .fNext _
  | lLock =>
    refine ⟨fun i hi hn => ?_, fun rest hr => by cases hr⟩
    cases hi
    exact wrapIdx_next (by omega) hfit
  | lSlots i hn =>
    refine ⟨fun i hi => (by cases hi), fun rest hr => ⟨[], ?_⟩⟩
    cases hr
    rw [hlen, min_self, List.nil_append]
    rcases Nat.eq_zero_or_pos cfg.connPerRoomzinNode with hz | hpos
    · rw [hz]
      rfl
    · rw [hi.start i rfl hpos]
      rfl
  | lStale left i c hs hc =>
    refine ⟨fun i hi => (by cases hi), fun rest hr => ?_⟩
    cases hr
    exact (next left i rfl rfl).2
  | lAbsent left i hs =>
    refine ⟨fun i hi => (by cases hi), fun rest hr => ?_⟩
    cases hr
    obtain ⟨hn, haround⟩ := next left i rfl rfl
    rw [wrapIdx_succ (hsc.slot i rfl hn)]
    exact haround
  | lClean left i c start =>
    refine ⟨fun i hi => (by cases hi), fun rest hr => ?_⟩
    cases hr
    rcases Nat.eq_zero_or_pos cfg.connPerRoomzinNode with hz | hn
    · obtain ⟨seen, hseen⟩ := hi.around _ rfl
      have hleft : left = 0 := by
        have hl := congrArg List.length hseen
        simp only [circle, walk, hz, List.length_append, List.length_map, List.length_range] at hl
        omega
      exact ⟨[], by rw [hleft, hz]; rfl⟩
    · rw [wrapIdx_succ (hsc.slot i rfl hn)]
      exact hi.around _ rfl
  | _ => exact .of_none rfl rfl

/-! ### Who moves the load balancer -/

theorem Sys.lastLeaderId_step (hs : s.step cfg l = some s') :
    s'.handler.loadBalancer.lastLeaderId = s.handler.loadBalancer.lastLeaderId ∨
      ∃ k sel left next c, l = .sel k ∧ s.sels[k]? = some sel ∧ sel.pc = .lScan (left + 1) next ∧
        s.handler.leaderConns[next]? = some (some c) ∧
        s'.handler.loadBalancer.lastLeaderId = next % 2 ^ 32 ∧
        s'.sels = s.sels.set k { pc := .ret (some c) } := by
  cases Sys.Move.of_step hs with
  | sel k sel handler pc' hk hw hb =>
    generalize hpc : sel.pc = pc at hb
    cases hb with
    | lFound left next c hslot hopen => exact .inr ⟨k, sel, left, next, c, rfl, hk, hpc, hslot, rfl, rfl⟩
    | _ => exact .inl rfl
  | sync i handler pc' hw hb =>
    generalize s.sync.pc = pc at hb
    exact .inl (by cases hb <;> rfl)
  | _ => exact .inl rfl

/-- The scan of every selection goes around from behind the slot last used. -/
structure Sys.Turning (cfg : Config) (s : Sys) : Prop where
  last : s.handler.loadBalancer.lastLeaderId < max cfg.connPerRoomzinNode 1
  placed : ∀ sel ∈ s.sels, Placed cfg.connPerRoomzinNode s.handler.loadBalancer.lastLeaderId sel.pc

theorem SelPc.holds_loadBalancer {n : Nat} {pc : SelPc} (h : pc.slot ≠ none ∨ pc.ahead n ≠ none) :
    (Lock.loadBalancer, Mode.write) ∈ pc.outer := by
  cases pc with
  | lSlots | lScan | lClean => exact List.mem_cons_self
  | _ => rcases h with h | h <;> exact absurd rfl h

theorem Sys.Turning.step (h : s.Turning cfg) (hfit : cfg.connPerRoomzinNode ≤ 2 ^ 32) (hl : LeaderInv cfg s)
    (hsc : s.Scanning cfg) (hx : Exclusive s.poolHolds) (hs : s.step cfg l = some s') : s'.Turning cfg := by
  rcases Sys.lastLeaderId_step hs with hsame | ⟨k, sel, left, next, c, rfl, hk, hpc, hslot, hlast, hsels⟩
  · refine ⟨hsame ▸ h.last, fun sel' hsel' => ?_⟩
    rw [hsame]
    rcases Sys.sel_of_step hs hsel' with ⟨sel, hsel, hpc⟩ | hstart | ⟨sel, hsel, hb⟩
    · rw [hpc]
      exact h.placed sel hsel
    · rcases hstart with hpc | hpc | hpc <;> rw [hpc] <;> exact .of_none rfl rfl
    · exact hb.placed hfit hl.len h.last (hsc sel hsel) (h.placed sel hsel)
  · have hlt : next < cfg.connPerRoomzinNode := (List.getElem?_eq_some_iff.1 hslot).1.trans_eq hl.len
    have hle := Nat.mod_le next (2 ^ 32)
    refine ⟨by omega, fun sel' hsel' => ?_⟩
    obtain ⟨k', hk'⟩ := List.mem_iff_getElem?.1 hsel'
    rw [hsels] at hk'
    by_cases hkk : k' = k
    · rw [hkk, List.getElem?_set_self (List.getElem?_eq_some_iff.1 hk).1] at hk'
      cases hk'
      exact .of_none rfl rfl
    · rw [List.getElem?_set_ne (Ne.symm hkk)] at hk'
      by_cases hnone : sel'.pc.slot = none ∧ sel'.pc.ahead cfg.connPerRoomzinNode = none
      · exact .of_none hnone.1 hnone.2
      · -- two scans would hold the load balancer
        have hheld : (Lock.loadBalancer, Mode.write) ∈ s.poolHolds (some k) :=
          Sys.poolHolds_of_outer hk (by rw [hpc]; exact List.mem_cons_self)
        have hheld' := Sys.poolHolds_of_outer hk' (SelPc.holds_loadBalancer (not_and_or.1 hnone))
        exact absurd hheld' (hx.not_write (t := some k) (u := some k') (by simpa using Ne.symm hkk) hheld)

theorem Sys.Turning.of_reach (hfit : cfg.connPerRoomzinNode ≤ 2 ^ 32)
    (h : Reach (Sys.step cfg) (Sys.init cfg) s) : s.Turning cfg := by
  refine h.induct (I := Sys.Turning cfg) ⟨?_, by simp [Sys.init]⟩ fun _ _ _ hr hi hs =>
    hi.step hfit (.of_reach hr) (.of_reach hr) (Sys.exclusive_of_reach hr) hs
  show 0 < max cfg.connPerRoomzinNode 1
  omega

/-! ### At its return -/

/-- The piece in which the selection of a write returns does what `next_leader_conn` does alone. -/
theorem SelMove.leader_atomic {closed : Nat → Bool} {now : Nat} {h h' : Handler} {pc : SelPc} {r : Option Connection}
    {L F : String → Prop} (hb : SelMove cfg closed now h pc h' (.ret r)) (hpc : pc.Aimed L F s true)
    (hfit : cfg.connPerRoomzinNode ≤ 2 ^ 32) (hlen : h.leaderConns.length = cfg.connPerRoomzinNode)
    (hlast : h.loadBalancer.lastLeaderId < max cfg.connPerRoomzinNode 1)
    (hsc : Scanned cfg.connPerRoomzinNode closed h.leaderConns pc)
    (hpl : Placed cfg.connPerRoomzinNode h.loadBalancer.lastLeaderId pc) :
    nextLeaderConn cfg closed h = (r, h') := by
  have hone := @nextLeaderConn_eq cfg closed h hlen hfit hlast
  have hres := hb.leader_ret hpc hsc
  have nothing : (∀ i, openSlot closed h.leaderConns i = false) → nextLeaderConn cfg closed h = (none, h) := by
    intro hshut
    rw [hone]
    split
    next => rfl
    next i hnext =>
      obtain ⟨-, -, -, hopen, -⟩ := next_eq_some_iff.1 hnext
      rw [hshut i] at hopen
      cases hopen
  generalize hpc' : SelPc.ret r = pc' at hb
  cases hb with
  | lNone next hn =>
    cases hpc'
    exact nothing (hres.1.1 rfl)
  | lOver next =>
    cases hpc'
    exact nothing (hres.1.1 rfl)
  | lFound left i c hslot hopen =>
    cases hpc'
    have hi : i < cfg.connPerRoomzinNode := (List.getElem?_eq_some_iff.1 hslot).1.trans_eq hlen
    have hn := Nat.zero_lt_of_lt hi
    obtain ⟨seen, hseen⟩ := hpl.around _ rfl
    have hnd : (seen ++ walk cfg.connPerRoomzinNode (left + 1) i).Nodup :=
      hseen ▸ (circle_perm (Nat.mod_lt _ hn)).nodup_iff.2 List.nodup_range
    have hshut : ∀ j ∈ seen, ¬ openSlot closed h.leaderConns j = true := fun j hj => by
      rw [hsc.shut _ rfl j fun hj' => (List.disjoint_of_nodup_append hnd) hj hj']
      exact Bool.false_ne_true
    have hnext : next (openSlot closed h.leaderConns) cfg.connPerRoomzinNode h.loadBalancer.lastLeaderId = some i := by
      have hyes : openSlot closed h.leaderConns i = true := openSlot_iff.2 ⟨c, hslot, hopen⟩
      rw [next, hseen, List.find?_append, List.find?_eq_none.2 hshut, walk_succ hi, List.find?_cons_of_pos hyes]
      rfl
    rw [hone, hnext]
    simp only [hslot, Option.join_some, Nat.mod_eq_of_lt (hi.trans_le hfit)]
  | fLen | fSkip | fOver | fFound => cases (hpc : true = false)
  | _ => cases hpc'

theorem Sys.returns_of_step {sel' : Sel} {r : Option Connection} (hs : s.step cfg (.sel k) = some s')
    (hk' : s'.sels[k]? = some sel') (hret : sel'.pc = .ret r) :
    ∃ sel, s.sels[k]? = some sel ∧ SelMove cfg s.closed s.mux.now s.handler sel.pc s'.handler (.ret r) := by
  cases Sys.Move.of_step hs with
  | selStart _ sel call hk _ _ _ =>
    rw [List.getElem?_set_self (List.getElem?_eq_some_iff.1 hk).1] at hk'
    cases hk'
    cases hcw : call.isWrite <;> simp [hcw] at hret
  | selReturn _ sel _ mux hk _ _ =>
    rw [List.getElem?_set_self (List.getElem?_eq_some_iff.1 hk).1] at hk'
    cases hk'
    cases hret
  | sel _ sel handler pc' hk _ hb =>
    rw [List.getElem?_set_self (List.getElem?_eq_some_iff.1 hk).1] at hk'
    cases hk'
    obtain rfl : pc' = .ret r := hret
    exact ⟨sel, hk, hb⟩

theorem Sys.atomic_of_move (h : Reach (Sys.step cfg) (Sys.init cfg) s) (hfit : cfg.connPerRoomzinNode ≤ 2 ^ 32)
    {call : Call} {sel : Sel} {handler : Handler} {r : Option Connection} (hc : s.mux.calls[k]? = some call)
    (hw : call.isWrite = true) (hk : s.sels[k]? = some sel)
    (hb : SelMove cfg s.closed s.mux.now s.handler sel.pc handler (.ret r)) :
    nextLeaderConn cfg s.closed s.handler = (r, handler) := by
  have haim := (Sys.routed_of_reach h).aimed.sels k sel call hk hc
  have hmem := List.mem_of_getElem? hk
  have hturn := Sys.Turning.of_reach hfit h
  rw [hw] at haim
  exact hb.leader_atomic haim hfit (LeaderInv.of_reach h).len hturn.last (Sys.Scanning.of_reach h sel hmem)
    (hturn.placed sel hmem)

/-- In every run the selection of a write returns, and leaves behind, what `next_leader_conn` does when it runs
alone in the moment in which it returns. -/
theorem next_leader_conn_atomic (h : Reach (Sys.step cfg) (Sys.init cfg) s) (hfit : cfg.connPerRoomzinNode ≤ 2 ^ 32)
    {call : Call} {sel' : Sel} {r : Option Connection} (hc : s.mux.calls[k]? = some call) (hw : call.isWrite = true)
    (hs : s.step cfg (.sel k) = some s') (hk' : s'.sels[k]? = some sel') (hret : sel'.pc = .ret r) :
    nextLeaderConn cfg s.closed s.handler = (r, s'.handler) := by
  obtain ⟨sel, hk, hb⟩ := Sys.returns_of_step hs hk' hret
  exact Sys.atomic_of_move h hfit hc hw hk hb

/-- The first sync fills two slots. -/
def twoSlotsUp : List SysLabel :=
  (Sys.leaderUp "a" []).take 13 ++ [.sync (.connected true), .acquire .sync, .sync .go, .sync .go]

/-- Two selections run at the same time, a third one after them. -/
def threeWrites : List SysLabel :=
  (Sys.writeCall 0 (prependHeader 7 [1])).take 5 ++ (Sys.writeCall 1 (prependHeader 7 [1])).take 3 ++
    [.acquire (.call 0), .sel 0, .sel 0, .acquire (.call 1), .sel 0, .sel 1, .acquire (.call 1), .sel 1, .sel 1,
      .sel 1] ++
    (Sys.writeCall 2 (prependHeader 7 [1])).take 9

/-- The second write asks for the load balancer while the first one has it. -/
theorem next_leader_conn_atomic_waiting : ∃ s s' : Sys,
    exec (Sys.step { connPerRoomzinNode := 2 }) (Sys.init { connPerRoomzinNode := 2 })
      (twoSlotsUp ++ threeWrites.take 10) = some s ∧
    s.sels.map (·.pc) = [.lScan 2 1, .lLock] ∧ s.step { connPerRoomzinNode := 2 } (.sel 0) = some s' ∧
    nextLeaderConn { connPerRoomzinNode := 2 } s.closed s.handler = (some ⟨1, "a"⟩, s'.handler) := by
  obtain ⟨s, hs, hr, hp⟩ := Reach.of_any (Sys.step { connPerRoomzinNode := 2 }) (Sys.init { connPerRoomzinNode := 2 })
    (twoSlotsUp ++ threeWrites.take 10)
    (fun s => decide (s.sels.map (·.pc) = [.lScan 2 1, .lLock] ∧ (s.mux.calls[0]?).map Call.isWrite = some true ∧
      (s.step { connPerRoomzinNode := 2 } (.sel 0)).bind (fun s' => (s'.sels[0]?).map Sel.pc) =
        some (SelPc.ret (some ⟨1, "a"⟩)))) (by decide +kernel)
  obtain ⟨hpcs, hcall, hret⟩ := of_decide_eq_true hp
  obtain ⟨call, hc, hw⟩ := Option.map_eq_some_iff.1 hcall
  obtain ⟨s', hs', hpc⟩ := Option.bind_eq_some_iff.1 hret
  obtain ⟨sel', hk', hpc'⟩ := Option.map_eq_some_iff.1 hpc
  exact ⟨s, s', hs, hpcs, hs', next_leader_conn_atomic hr (by decide) hc hw hs' hk' hpc'⟩

/-! ### Over a run -/

/-- The slot that the step gives to a write. -/
def Sys.picked (s s' : Sys) : SysLabel → Option Nat
  | .sel k =>
    if (s.mux.calls[k]?).any (·.isWrite) && (s'.sels[k]?).any (fun sel => sel.pc matches .ret (some _)) then
      some s'.handler.loadBalancer.lastLeaderId
    else none
  | _ => none

/-- The slots that the steps of a run give to writes, one after the other. -/
def Sys.picks (cfg : Config) (s : Sys) : List SysLabel → List Nat
  | [] => []
  | l :: ls =>
    match s.step cfg l with
    | none => []
    | some s' => (s.picked s' l).toList ++ picks cfg s' ls

theorem Sys.picked_some {i : Nat} (h : s.picked s' l = some i) :
    ∃ k call sel c, l = .sel k ∧ s.mux.calls[k]? = some call ∧ call.isWrite = true ∧ s'.sels[k]? = some sel ∧
      sel.pc = .ret (some c) ∧ i = s'.handler.loadBalancer.lastLeaderId := by
  unfold Sys.picked at h
  split at h
  next k =>
    split at h
    next hcond =>
      obtain ⟨hcall, hsel⟩ := Bool.and_eq_true_iff.1 hcond
      obtain ⟨call, hk, hw⟩ := (Option.any_eq_true _ _).1 hcall
      obtain ⟨sel, hk', hret⟩ := (Option.any_eq_true _ _).1 hsel
      split at hret
      next c hpc => exact ⟨k, call, sel, c, rfl, hk, hw, hk', hpc, (Option.some.inj h).symm⟩
      next => cases hret
    next => cases h
  next => cases h

/-- The step returns the connection of slot `i` to the call it selects for. -/
def Sys.Hands (s s' : Sys) (l : SysLabel) (i : Nat) : Prop :=
  ∃ k sel c, l = .sel k ∧ s'.sels[k]? = some sel ∧ sel.pc = .ret (some c) ∧
    s.handler.leaderConns[i]? = some (some c)

/-- A step that gives a slot to a write gives it the next open one, and the connection in it. -/
theorem Sys.picked_next (h : Reach (Sys.step cfg) (Sys.init cfg) s) (hfit : cfg.connPerRoomzinNode ≤ 2 ^ 32)
    (hs : s.step cfg l = some s') {i : Nat} (hp : s.picked s' l = some i) :
    next (openSlot s.closed s.handler.leaderConns) cfg.connPerRoomzinNode s.handler.loadBalancer.lastLeaderId =
      some i ∧ s'.handler.loadBalancer.lastLeaderId = i ∧ s.Hands s' l i := by
  obtain ⟨k, call, sel, c, rfl, hc, hw, hk', hret, rfl⟩ := Sys.picked_some hp
  obtain ⟨sel₀, hk, hb⟩ := Sys.returns_of_step hs hk' hret
  have hsolo := Sys.atomic_of_move h hfit hc hw hk hb
  rw [nextLeaderConn_eq (LeaderInv.of_reach h).len hfit (Sys.Turning.of_reach hfit h).last] at hsolo
  split at hsolo
  next => cases (Prod.mk.inj hsolo).1
  next i hnext =>
    obtain ⟨hslot, hhandler⟩ := Prod.mk.inj hsolo
    rw [← hhandler]
    exact ⟨hnext, rfl, k, sel, c, rfl, hk', hret, Option.join_eq_some_iff.1 hslot⟩

theorem Sys.picked_none (h : Reach (Sys.step cfg) (Sys.init cfg) s) (hs : s.step cfg l = some s')
    (hp : s.picked s' l = none) :
    s'.handler.loadBalancer.lastLeaderId = s.handler.loadBalancer.lastLeaderId := by
  refine (Sys.lastLeaderId_step hs).resolve_right ?_
  rintro ⟨k, sel, left, i, c, rfl, hk, hpc, -, -, hsels⟩
  have hlt := (List.getElem?_eq_some_iff.1 hk).1
  obtain ⟨call, hcall⟩ : ∃ call, s.mux.calls[k]? = some call :=
    ⟨_, List.getElem?_eq_getElem (hlt.trans_eq (SelInv.of_reach h).size)⟩
  have haim := (Sys.routed_of_reach h).aimed.sels k sel call hk hcall
  rw [hpc] at haim
  have hw : call.isWrite = true := haim
  simp [Sys.picked, hcall, hw, hsels, hlt] at hp

theorem Sys.picks_eq (h : Reach (Sys.step cfg) (Sys.init cfg) s) (hfit : cfg.connPerRoomzinNode ≤ 2 ^ 32)
    {ls : List SysLabel} {p : Nat → Bool}
    (hsame : AllStates (Sys.step cfg) (fun t => openSlot t.closed t.handler.leaderConns = p) s ls) :
    s.picks cfg ls = turns p cfg.connPerRoomzinNode (s.picks cfg ls).length s.handler.loadBalancer.lastLeaderId := by
  refine log_eq_turns
    (fun t => Reach (Sys.step cfg) (Sys.init cfg) t ∧ openSlot t.closed t.handler.leaderConns = p)
    (fun t last => t.handler.loadBalancer.lastLeaderId = last) Sys.picked (Sys.picks cfg) (fun _ => rfl)
    (fun t l ls => ?_) (fun t l t' last hC hat hs => ⟨fun hnone => ?_, fun i hi => ?_⟩)
    (fun pre t hpre ht => ⟨h.of_exec ht, hsame pre t hpre ht⟩) rfl
  · rw [Sys.picks]
    cases t.step cfg l <;> rfl
  · exact (Sys.picked_none hC.1 hs hnone).trans hat
  · obtain ⟨hnext, hlast, -⟩ := Sys.picked_next hC.1 hfit hs hi
    rw [hC.2, hat] at hnext
    exact ⟨hnext, hlast⟩

theorem mem_openSlots {closed : Nat → Bool} {slots : List (Option Connection)} {i : Nat} :
    i ∈ openSlots closed slots ↔ openSlot closed slots i = true := by
  rw [openSlots, List.mem_filter, List.mem_range, and_iff_right_iff_imp]
  intro hi
  obtain ⟨c, hc, -⟩ := openSlot_iff.1 hi
  exact (List.getElem?_eq_some_iff.1 hc).1

/-- In every stretch of a run in which the same slots are open throughout, as many consecutive selections of writes
as there are open slots, whoever makes them and however they interleave, get each of these slots once: a selection
gets a slot by returning the connection in it. -/
theorem writes_take_turns (h : Reach (Sys.step cfg) (Sys.init cfg) s) (hfit : cfg.connPerRoomzinNode ≤ 2 ^ 32)
    {ls : List SysLabel} (hsame : AllStates (Sys.step cfg) (fun t =>
      openSlots t.closed t.handler.leaderConns = openSlots s.closed s.handler.leaderConns) s ls)
    {before window after : List Nat} (hpicks : s.picks cfg ls = before ++ window ++ after)
    (hw : window.length = (openSlots s.closed s.handler.leaderConns).length) :
    window.Perm (openSlots s.closed s.handler.leaderConns) ∧
      ∀ pre l t t' i, pre ++ [l] <+: ls → exec (Sys.step cfg) s pre = some t → t.step cfg l = some t' →
        t.picked t' l = some i → t.Hands t' l i := by
  refine ⟨?_, fun pre l t t' i _ ht hs hi => (Sys.picked_next (h.of_exec ht) hfit hs hi).2.2⟩
  have hlen := (LeaderInv.of_reach h).len
  have hlast := (Sys.Turning.of_reach hfit h).last
  rcases Nat.eq_zero_or_pos cfg.connPerRoomzinNode with hz | hn
  · have hnil : openSlots s.closed s.handler.leaderConns = [] := by
      rw [openSlots, hlen, hz]
      rfl
    rw [hnil] at hw ⊢
    rw [List.eq_nil_of_length_eq_zero hw]
  · have hpattern : AllStates (Sys.step cfg) (fun t =>
        openSlot t.closed t.handler.leaderConns = openSlot s.closed s.handler.leaderConns) s ls := by
      intro pre t hpre ht
      funext i
      rw [Bool.eq_iff_iff, ← mem_openSlots, ← mem_openSlots, hsame pre t hpre ht]
    have hturns := Sys.picks_eq h hfit hpattern
    rw [hpicks] at hturns
    have hperm := turns_window (by omega) hturns.symm
      (hw.trans (by rw [openSlots, hlen, List.countP_eq_length_filter]))
    rwa [openSlots, hlen]

theorem writes_take_turns_three : ∃ s : Sys,
    exec (Sys.step { connPerRoomzinNode := 2 }) (Sys.init { connPerRoomzinNode := 2 }) twoSlotsUp = some s ∧
    s.picks { connPerRoomzinNode := 2 } threeWrites = [1, 0, 1] ∧
    [1, 0].Perm (openSlots s.closed s.handler.leaderConns) ∧
    [0, 1].Perm (openSlots s.closed s.handler.leaderConns) := by
  obtain ⟨s, hs, hr, hp⟩ := Reach.of_any (Sys.step { connPerRoomzinNode := 2 }) (Sys.init { connPerRoomzinNode := 2 })
    twoSlotsUp (fun s => decide (s.picks { connPerRoomzinNode := 2 } threeWrites = [1, 0, 1] ∧
      openSlots s.closed s.handler.leaderConns = [0, 1]) &&
        threeWrites.inits.all fun pre => (exec (Sys.step { connPerRoomzinNode := 2 }) s pre).all fun t =>
          openSlots t.closed t.handler.leaderConns = [0, 1]) (by decide +kernel)
  obtain ⟨hp, hall⟩ := Bool.and_eq_true_iff.1 hp
  obtain ⟨hpicks, hopen⟩ := of_decide_eq_true hp
  have hsame : AllStates (Sys.step { connPerRoomzinNode := 2 }) (fun t =>
      openSlots t.closed t.handler.leaderConns = openSlots s.closed s.handler.leaderConns) s threeWrites :=
    .of_inits (fun t ht => (of_decide_eq_true ht).trans hopen.symm) hall
  have hfirst : s.picks { connPerRoomzinNode := 2 } threeWrites = [] ++ [1, 0] ++ [1] := hpicks
  have hlast : s.picks { connPerRoomzinNode := 2 } threeWrites = [1] ++ [0, 1] ++ [] := hpicks
  obtain ⟨htwo, -⟩ := writes_take_turns hr (by decide) hsame hfirst (by rw [hopen]; decide)
  exact ⟨s, hs, hpicks, htwo, (writes_take_turns hr (by decide) hsame hlast (by rw [hopen])).1⟩

end RzBridge

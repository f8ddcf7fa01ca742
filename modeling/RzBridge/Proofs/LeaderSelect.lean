import RzBridge.Lib.Exclusion
import RzBridge.Proofs.FollowerLock
import RzBridge.Proofs.LeaderScan
import RzBridge.Proofs.Routing

/-!
# What the selection of a write has seen

`next_leader_conn` looks at one slot after the other and awaits `cleanup` in between. It holds the slots all the
while, so what it has found shut stays shut (`Scanned`), and when it comes back without a connection no slot
holds an open one at that moment.
-/

namespace RzBridge
open Machine CircularWait RoundRobin

variable {cfg : Config} {s s' : Sys} {l : SysLabel}

/-! ### Who holds the locks of the pools -/

/-- What the selection of a call holds, or the sync task. -/
def Sys.poolHolds (s : Sys) : Option Nat → List (Lock × Mode)
  | some k => (s.sels[k]?).elim [] Sel.holds
  | none => s.sync.holds

theorem Sys.poolHolds_of_outer {k : Nat} {sel : Sel} {lm : Lock × Mode} (hk : s.sels[k]? = some sel)
    (ho : lm ∈ sel.pc.outer) : lm ∈ s.poolHolds (some k) := by
  rw [Sys.poolHolds, hk]
  exact List.mem_append_left _ ho

theorem Sel.mem_holds_of_awaits {sel : Sel} {lm : Lock × Mode} (hw : sel.waits = none) (ha : sel.pc.awaits = some lm) :
    lm ∈ sel.holds := by
  cases hheld : sel.held with
  | true => simp [Sel.holds, hheld, ha]
  | false => simp [Sel.waits, hheld, ha] at hw

theorem Sync.mem_holds_of_awaits {t : Sync} {lm : Lock × Mode} (hw : t.waits = none) (ha : t.pc.awaits = some lm) :
    lm ∈ t.holds := by
  cases hheld : t.held with
  | true => simp [Sync.holds, hheld, ha]
  | false => simp [Sync.waits, hheld, ha] at hw

theorem Sel.holds_granted {sel : Sel} {lm a : Lock × Mode} (hw : sel.waits = some lm)
    (ha : a ∈ Sel.holds { sel with held := true }) : a = lm ∨ a ∈ sel.holds := by
  cases hheld : sel.held with
  | true => simp [Sel.waits, hheld] at hw
  | false =>
    have hlm : sel.pc.awaits = some lm := by simpa [Sel.waits, hheld] using hw
    rcases List.mem_append.1 ha with ha | ha
    · exact .inr (List.mem_append_left _ ha)
    · exact .inl (by simpa [hlm] using ha)

theorem Sync.holds_granted {t : Sync} {lm a : Lock × Mode} (hw : t.waits = some lm)
    (ha : a ∈ Sync.holds { t with held := true }) : a = lm ∨ a ∈ t.holds := by
  cases hheld : t.held with
  | true => simp [Sync.waits, hheld] at hw
  | false =>
    have hlm : t.pc.awaits = some lm := by simpa [Sync.waits, hheld] using hw
    rcases List.mem_append.1 ha with ha | ha
    · exact .inr (List.mem_append_left _ ha)
    · exact .inl (by simpa [hlm] using ha)

theorem outer_fNext (left : Nat) : (fNext left).outer = [] := by
  unfold fNext
  split <;> rfl

theorem SelMove.holds {closed : Nat → Bool} {now : Nat} {h h' : Handler} {sel : Sel} {pc' : SelPc}
    (hb : SelMove cfg closed now h sel.pc h' pc') (hw : sel.waits = none) : pc'.outer ⊆ sel.holds := by
  obtain ⟨pc, held⟩ := sel
  have outer : pc.outer ⊆ Sel.holds { pc, held } := List.subset_append_left _ _
  have awaited := fun lm => @Sel.mem_holds_of_awaits { pc, held } lm hw
  dsimp only at hb awaited
  cases hb with
  | fLen | fSkip | fOver => simp [outer_fNext]
  | fTarget => exact List.cons_subset.2 ⟨awaited _ rfl, List.nil_subset _⟩
  | fMap => exact List.cons_subset.2 ⟨outer List.mem_cons_self, List.cons_subset.2 ⟨awaited _ rfl, List.nil_subset _⟩⟩
  | lLock => exact List.cons_subset.2 ⟨awaited _ rfl, List.nil_subset _⟩
  | lSlots => exact List.cons_subset.2 ⟨outer List.mem_cons_self, List.cons_subset.2 ⟨awaited _ rfl, List.nil_subset _⟩⟩
  | fFound | lNone | lOver | lFound => exact List.nil_subset _
  | fStale | fAbsent | fClean | lStale | lAbsent | lClean => exact outer

theorem SyncMove.holds {closed : Nat → Bool} {fresh : Nat} {h h' : Handler} {t : Sync} {pc' : SyncPc} {i : SyncInput}
    (hb : SyncMove cfg closed fresh h t.pc i h' pc') (hw : t.waits = none) : pc'.outer ⊆ t.holds := by
  obtain ⟨pc, held, synced⟩ := t
  have outer : pc.outer ⊆ Sync.holds { pc, held, synced } := List.subset_append_left _ _
  have awaited := fun lm => @Sync.mem_holds_of_awaits { pc, held, synced } lm hw
  dsimp only at hb awaited
  cases hb with
  | writeLock => exact List.cons_subset.2 ⟨awaited _ rfl, List.nil_subset _⟩
  | fastFollowers anyLeader pc' hpc => rcases hpc with rfl | rfl <;> exact List.nil_subset _
  | readHistory | assign | noIndex | hostDone | insertConn | recordHistory => exact outer
  | _ => exact List.nil_subset _

theorem Sys.poolHolds_of_free {t : Option Nat} {lm : Lock × Mode}
    (hf : s.free (t.elim .sync .call) lm = true) {u : Option Nat} (hne : u ≠ t) {hm : Lock × Mode}
    (hh : hm ∈ s.poolHolds u) (hk : hm.1 = lm.1) : Mode.conflicts lm.2 hm.2 = false := by
  cases u with
  | none =>
    refine Sys.free_of hf (u := .sync) (List.mem_cons_self ..) ?_ hh hk
    cases t with
    | none => exact absurd rfl hne
    | some k => exact nofun
  | some k =>
    cases hsel : s.sels[k]? with
    | none =>
      rw [poolHolds, hsel] at hh
      cases hh
    | some sel =>
      rw [poolHolds, hsel] at hh
      refine Sys.free_of hf (Sys.mem_tasks_of_sel hsel) ?_ (Sys.mem_holds_of_sel hsel hh) hk
      cases t with
      | none => exact nofun
      | some k' =>
        rintro ⟨⟩
        exact hne rfl

theorem Sys.poolHolds_set (s' : Sys) {k : Nat} {sel' : Sel} (hk : k < s.sels.length)
    (hsels : s'.sels = s.sels.set k sel') (hsync : s'.sync = s.sync) (u : Option Nat) :
    s'.poolHolds u = if u = some k then sel'.holds else s.poolHolds u := by
  cases u with
  | none => rw [poolHolds, hsync]; rfl
  | some k' =>
    rw [poolHolds, hsels]
    by_cases hkk : k' = k
    · subst hkk
      rw [List.getElem?_set_self hk, if_pos rfl]
      rfl
    · rw [List.getElem?_set_ne (Ne.symm hkk), if_neg (by simpa using hkk)]
      rfl

theorem Sys.exclusive_step (h : Exclusive s.poolHolds) (hs : s.step cfg l = some s') : Exclusive s'.poolHolds := by
  -- a step of one selection that takes no lock
  have shrink : ∀ {k sel sel'}, s.sels[k]? = some sel → sel'.holds ⊆ sel.holds → s'.sels = s.sels.set k sel' →
      s'.sync = s.sync → Exclusive s'.poolHolds := by
    intro k sel sel' hk hsub hsels hsync
    refine h.mono fun u => ?_
    rw [Sys.poolHolds_set s' (List.getElem?_eq_some_iff.1 hk).1 hsels hsync]
    split
    next hu =>
      rw [hu, Sys.poolHolds, hk]
      exact hsub
    next => exact List.Subset.refl _
  cases Sys.Move.of_step hs with
  | lockSync lm hw hf =>
    refine h.grant (t := none) (fun u hne b hb => Sys.poolHolds_of_free hf hne hb)
      (fun a ha => Sync.holds_granted hw ha) fun u hne => ?_
    cases u with
    | none => exact absurd rfl hne
    | some k => exact List.Subset.refl _
  | lockSel k sel lm hk hw hf =>
    have hset := Sys.poolHolds_set { s with sels := s.sels.set k { sel with held := true } }
      (List.getElem?_eq_some_iff.1 hk).1 rfl rfl
    refine h.grant (t := some k) (fun u hne b hb => Sys.poolHolds_of_free hf hne hb) (fun a ha => ?_) ?_
    · rw [hset, if_pos rfl] at ha
      rw [Sys.poolHolds, hk]
      exact Sel.holds_granted hw ha
    · intro u hne
      rw [hset, if_neg hne]
      exact List.Subset.refl _
  | selStart k sel call hk hpc hc hcp =>
    refine shrink hk ?_ rfl rfl
    cases call.isWrite <;> exact List.nil_subset _
  | selReturn k sel r mux hk hpc hm => exact shrink hk (List.nil_subset _) rfl rfl
  | sel k sel handler pc' hk hw hb =>
    refine shrink hk ?_ rfl rfl
    rw [Sel.holds]
    simpa using hb.holds hw
  | sync i handler pc' hw hb =>
    refine h.mono fun u => ?_
    cases u with
    | none =>
      show Sync.holds _ ⊆ s.sync.holds
      rw [Sync.holds]
      simpa using hb.holds hw
    | some k => exact List.Subset.refl _
  | spawn w f mux hm =>
    refine h.mono fun u => ?_
    cases u with
    | none => exact List.Subset.refl _
    | some k =>
      intro a ha
      cases hk : (s.sels ++ [({} : Sel)])[k]? with
      | none =>
        simp only [Sys.poolHolds, hk] at ha
        cases ha
      | some sel =>
        simp only [Sys.poolHolds, hk] at ha
        rcases getElem?_snoc hk with hk | ⟨-, rfl⟩
        · rw [Sys.poolHolds, hk]
          exact ha
        · cases ha
  | _ => exact h

theorem Sys.exclusive_of_reach (h : Reach (Sys.step cfg) (Sys.init cfg) s) : Exclusive s.poolHolds := by
  refine h.induct (I := fun s => Exclusive s.poolHolds) ?_ fun _ _ _ _ hi hs => Sys.exclusive_step hi hs
  intro t u _ a ha
  cases t <;> cases ha

/-! ### What a scan has found shut -/

/-- The slot that a scan looks at next, or has just looked at. -/
def SelPc.slot : SelPc → Option Nat
  | .lSlots next => some next
  | .lScan _ next => some next
  | .lClean _ next _ _ => some next
  | _ => none

/-- The slots that a scan of `n` slots has still to look at. -/
def SelPc.ahead (n : Nat) : SelPc → Option (List Nat)
  | .lScan left next => some (walk n left next)
  | .lClean left next _ _ => some (walk n left ((next + 1) % n))
  | _ => none

/-- Every slot that a scan is through with is shut. -/
structure Scanned (n : Nat) (closed : Nat → Bool) (slots : List (Option Connection)) (pc : SelPc) : Prop where
  slot : ∀ i, pc.slot = some i → 0 < n → i < n
  shut : ∀ rest, pc.ahead n = some rest → ∀ i, i ∉ rest → openSlot closed slots i = false

theorem openSlot_of_length_le {closed : Nat → Bool} {slots : List (Option Connection)} {i : Nat}
    (h : slots.length ≤ i) : openSlot closed slots i = false := by
  rw [openSlot, List.getElem?_eq_none h]

theorem Scanned.of_none {n : Nat} {closed : Nat → Bool} {slots : List (Option Connection)} {pc : SelPc}
    (hs : pc.slot = none) (ha : pc.ahead n = none) : Scanned n closed slots pc where
  slot i hi := by
    rw [hs] at hi
    cases hi
  shut rest hr := by
    rw [ha] at hr
    cases hr

theorem Scanned.fNext {n : Nat} {closed : Nat → Bool} {slots : List (Option Connection)} (left : Nat) :
    Scanned n closed slots (fNext left) := by
  unfold RzBridge.fNext
  split <;> exact .of_none rfl rfl

/-- A piece of a scan finds one more slot shut, or comes back with an open one. -/
theorem SelMove.scanned {closed : Nat → Bool} {now : Nat} {h h' : Handler} {pc pc' : SelPc}
    (hb : SelMove cfg closed now h pc h' pc') (hlen : h.leaderConns.length = cfg.connPerRoomzinNode)
    (hi : Scanned cfg.connPerRoomzinNode closed h.leaderConns pc) :
    Scanned cfg.connPerRoomzinNode closed h.leaderConns pc' := by
  -- without slots there is nothing to find
  have none_open : cfg.connPerRoomzinNode = 0 → ∀ i, openSlot closed h.leaderConns i = false := fun hz i =>
    openSlot_of_length_le (by omega)
  -- the slot at which the scan stands is shut, and it goes on behind it
  have next : ∀ left i, openSlot closed h.leaderConns i = false → pc.slot = some i →
      pc.ahead cfg.connPerRoomzinNode = some (walk cfg.connPerRoomzinNode (left + 1) i) →
      ∀ j, j ∉ walk cfg.connPerRoomzinNode left ((i + 1) % cfg.connPerRoomzinNode) →
        openSlot closed h.leaderConns j = false := by
    intro left i hshut hslot hahead j hj
    rcases Nat.eq_zero_or_pos cfg.connPerRoomzinNode with hz | hn
    · exact none_open hz j
    · by_cases hji : j = i
      · rw [hji]
        exact hshut
      · refine hi.shut _ hahead j ?_
        rw [walk_succ (hi.slot i hslot hn), List.mem_cons, not_or]
        exact ⟨hji, hj⟩
  cases hb with
  | fLen | fSkip | fOver => exact .fNext _
  | lLock =>
    refine ⟨fun i hs hn => ?_, nofun⟩
    cases hs
    exact wrapIdx_lt hn
  | lSlots i hn =>
    refine ⟨hi.slot, fun rest hr j hj => ?_⟩
    cases hr
    rcases Nat.eq_zero_or_pos cfg.connPerRoomzinNode with hz | hpos
    · exact none_open hz j
    · -- the scan goes all the way around
      rw [hlen, min_self] at hj
      have hout : j ∉ List.range cfg.connPerRoomzinNode := fun hm =>
        hj ((circle_perm (hi.slot i rfl hpos)).mem_iff.2 hm)
      rw [List.mem_range] at hout
      exact openSlot_of_length_le (by omega)
  | lStale left i c hs hc =>
    refine ⟨hi.slot, fun rest hr => ?_⟩
    cases hr
    exact next left i (by simp [openSlot, hs, hc]) rfl rfl
  | lAbsent left i hs =>
    have hshut : openSlot closed h.leaderConns i = false := by
      rw [Bool.eq_false_iff, ne_eq, openSlot_iff]
      rintro ⟨c, hc, -⟩
      exact hs c hc
    refine ⟨fun j hj hn => ?_, fun rest hr j hj => ?_⟩
    · cases hj
      exact wrapIdx_lt hn
    · cases hr
      rcases Nat.eq_zero_or_pos cfg.connPerRoomzinNode with hz | hn
      · exact none_open hz j
      · rw [wrapIdx_succ (hi.slot i rfl hn)] at hj
        exact next left i hshut rfl rfl j hj
  | lClean left i c start =>
    refine ⟨fun j hj hn => ?_, fun rest hr j hj => ?_⟩
    · cases hj
      exact wrapIdx_lt hn
    · cases hr
      rcases Nat.eq_zero_or_pos cfg.connPerRoomzinNode with hz | hn
      · exact none_open hz j
      · rw [wrapIdx_succ (hi.slot i rfl hn)] at hj
        exact hi.shut _ rfl j hj
  | _ => exact .of_none rfl rfl

theorem Sys.leaderConns_step (hs : s.step cfg l = some s') :
    s'.handler.leaderConns = s.handler.leaderConns ∨
      s'.sels = s.sels ∧ (Lock.leaderConns, Mode.write) ∈ s.sync.holds := by
  cases Sys.Move.of_step hs with
  | sel k sel handler pc' hk hw hb => exact .inl hb.leader.1
  | sync i handler pc' hw hb =>
    generalize hpc : s.sync.pc = pc at hb
    cases hb with
    | leaderClear host fs => exact .inr ⟨rfl, Sync.mem_holds_of_awaits hw (by rw [hpc]; rfl)⟩
    | leaderFill host fs j required conn => exact .inr ⟨rfl, Sync.mem_holds_of_awaits hw (by rw [hpc]; rfl)⟩
    | _ => exact .inl rfl
  | _ => exact .inl rfl

theorem Sys.shut_step (hl : LeaderInv cfg s) (hs : s.step cfg l = some s')
    (hslots : s'.handler.leaderConns = s.handler.leaderConns) {i : Nat}
    (h : openSlot s.closed s.handler.leaderConns i = false) : openSlot s'.closed s'.handler.leaderConns i = false := by
  rw [hslots, Bool.eq_false_iff, ne_eq, openSlot_iff]
  rintro ⟨c, hc, hopen⟩
  have hclosed : s.closed c.id = true := by
    cases hcl : s.closed c.id with
    | true => rfl
    | false => exact absurd (openSlot_iff.2 ⟨c, hc, hcl⟩) (by simp [h])
  have hval := (hl.slots c (List.mem_of_getElem? hc)).2
  rw [hval.closed_step hclosed hs] at hopen
  cases hopen

def Sys.Scanning (cfg : Config) (s : Sys) : Prop :=
  ∀ sel ∈ s.sels, Scanned cfg.connPerRoomzinNode s.closed s.handler.leaderConns sel.pc

theorem SelPc.holds_of_ahead {n : Nat} {pc : SelPc} {rest : List Nat} (h : pc.ahead n = some rest) :
    (Lock.leaderConns, Mode.write) ∈ pc.outer := by
  cases pc with
  | lScan left next => simp [SelPc.outer]
  | lClean left next c start => simp [SelPc.outer]
  | _ => cases h

theorem Sys.Scanning.step (h : s.Scanning cfg) (hl : LeaderInv cfg s) (hx : Exclusive s.poolHolds)
    (hs : s.step cfg l = some s') : s'.Scanning cfg := by
  intro sel' hsel'
  -- where the selection stands, by what the slots were before the step
  have hold : Scanned cfg.connPerRoomzinNode s.closed s.handler.leaderConns sel'.pc := by
    rcases Sys.sel_of_step hs hsel' with ⟨sel, hsel, hpc⟩ | hstart | ⟨sel, hsel, hb⟩
    · rw [hpc]
      exact h sel hsel
    · rcases hstart with hpc | hpc | hpc <;> rw [hpc] <;> exact .of_none rfl rfl
    · exact hb.scanned hl.len (h sel hsel)
  refine ⟨hold.slot, fun rest hr i hi => ?_⟩
  refine Sys.shut_step hl hs ?_ (hold.shut rest hr i hi)
  rcases Sys.leaderConns_step hs with hslots | ⟨hsels, hsync⟩
  · exact hslots
  · -- the sync task cannot be at the slots while this selection has them
    obtain ⟨k, hk⟩ := List.mem_iff_getElem?.1 hsel'
    rw [hsels] at hk
    have hheld : (Lock.leaderConns, Mode.write) ∈ s.poolHolds (some k) := by
      rw [Sys.poolHolds, hk]
      exact List.mem_append_left _ (SelPc.holds_of_ahead hr)
    exact absurd hsync (hx.not_write (t := some k) (u := none) nofun hheld)

theorem Sys.Scanning.of_reach (h : Reach (Sys.step cfg) (Sys.init cfg) s) : s.Scanning cfg :=
  h.induct (by simp [Sys.Scanning, Sys.init]) fun _ _ _ hr hi hs =>
    hi.step (.of_reach hr) (Sys.exclusive_of_reach hr) hs

/-! ### What a write is told -/

theorem Sys.routed_of_reach (h : Reach (Sys.step cfg) (Sys.init cfg) s) :
    Routed (fun _ => True) (fun _ => True) s :=
  h.induct ⟨.init, .init⟩ fun _ _ _ hr hi hs => hi.step hr (fun _ _ _ => ⟨trivial, fun _ _ => trivial⟩) hs

theorem SelMove.leader_ret {closed : Nat → Bool} {now : Nat} {h h' : Handler} {pc : SelPc} {r : Option Connection}
    {L F : String → Prop} (hb : SelMove cfg closed now h pc h' (.ret r)) (hpc : pc.Aimed L F s true)
    (hi : Scanned cfg.connPerRoomzinNode closed h.leaderConns pc) :
    (r = none ↔ ∀ i, openSlot closed h.leaderConns i = false) ∧
      ∀ x, r = some x → some x ∈ h.leaderConns ∧ closed x.id = false := by
  have nothing : (∀ i, openSlot closed h.leaderConns i = false) → r = none →
      (r = none ↔ ∀ i, openSlot closed h.leaderConns i = false) ∧
        ∀ x, r = some x → some x ∈ h.leaderConns ∧ closed x.id = false := by
    rintro hshut rfl
    exact ⟨⟨fun _ => hshut, fun _ => rfl⟩, nofun⟩
  generalize hpc' : SelPc.ret r = pc' at hb
  cases hb with
  | lNone next hn =>
    cases hpc'
    refine nothing (fun i => ?_) rfl
    rw [Bool.eq_false_iff, ne_eq, openSlot_iff]
    rintro ⟨c, hc, -⟩
    have hmem := List.mem_of_getElem? hc
    rcases hn with hnil | hany
    · rw [hnil] at hmem
      cases hmem
    · exact hany (List.any_eq_true.2 ⟨some c, hmem, rfl⟩)
  | lOver next =>
    cases hpc'
    exact nothing (fun i => hi.shut [] rfl i List.not_mem_nil) rfl
  | lFound left next c hslot hopen =>
    cases hpc'
    refine ⟨⟨nofun, fun hshut => ?_⟩, ?_⟩
    · have hyes : openSlot closed h.leaderConns next = true := openSlot_iff.2 ⟨c, hslot, hopen⟩
      exact absurd (hyes.symm.trans (hshut next)) (by decide)
    · rintro x ⟨rfl⟩
      exact ⟨List.mem_of_getElem? hslot, hopen⟩
  | fLen | fSkip | fOver | fFound => cases (hpc : true = false)
  | _ => cases hpc'

theorem SelMove.selMux_ret {closed : Nat → Bool} {now : Nat} {h h' : Handler} {pc : SelPc} {r : Option Connection}
    (hb : SelMove cfg closed now h pc h' (.ret r)) (m : Mux) : Sys.selMux cfg m pc = m := by
  cases pc with
  | fClean | lClean => cases hb
  | _ => rfl

/-- The selection of a write returns nothing if and only if no slot holds an open connection at the moment it
returns, and what it returns is in a slot and open at that moment. This holds in every run, whatever the other
calls, the sync task and the connections do during the selection. -/
theorem leader_selection_exact (h : Reach (Sys.step cfg) (Sys.init cfg) s) {k : Nat} {call : Call} {sel' : Sel}
    {r : Option Connection} (hc : s.mux.calls[k]? = some call) (hw : call.isWrite = true)
    (hs : s.step cfg (.sel k) = some s') (hk' : s'.sels[k]? = some sel') (hret : sel'.pc = .ret r) :
    (r = none ↔ ∀ i, openSlot s'.closed s'.handler.leaderConns i = false) ∧
      ∀ x, r = some x → some x ∈ s'.handler.leaderConns ∧ s'.closed x.id = false := by
  cases Sys.Move.of_step hs with
  | selStart _ sel call' hk _ _ _ =>
    rw [List.getElem?_set_self (List.getElem?_eq_some_iff.1 hk).1] at hk'
    cases hk'
    cases hcw : call'.isWrite <;> simp [hcw] at hret
  | selReturn _ sel _ mux hk _ _ =>
    rw [List.getElem?_set_self (List.getElem?_eq_some_iff.1 hk).1] at hk'
    cases hk'
    cases hret
  | sel _ sel handler pc' hk _ hb =>
    have haim := (Sys.routed_of_reach h).aimed.sels k sel call hk hc
    have hscan := Sys.Scanning.of_reach h sel (List.mem_of_getElem? hk)
    rw [List.getElem?_set_self (List.getElem?_eq_some_iff.1 hk).1] at hk'
    cases hk'
    obtain rfl : pc' = .ret r := hret
    rw [hw] at haim
    have hclosed : Sys.closed { s with handler, mux := Sys.selMux cfg s.mux sel.pc } = s.closed := by
      rw [hb.selMux_ret]
      rfl
    have hres := hb.leader_ret haim hscan
    rw [← hb.leader.1, ← hclosed] at hres
    exact hres

/-- The only connection to the leader closes while a write is on its way to it. -/
def shutRun : List SysLabel :=
  Sys.leaderUp "a" [] ++ (Sys.writeCall 0 (prependHeader 7 [1])).take 7 ++
    [.mux (.readEnd 0), .mux (.readerStop 0), .sel 0, .acquire (.call 0), .sel 0]

theorem leader_selection_exact_shut : ∃ s s' : Sys, exec (Sys.step {}) (Sys.init {}) shutRun = some s ∧
    s.step {} (.sel 0) = some s' ∧ s'.sels.map (·.pc) = [.ret none] ∧
    ∀ i, openSlot s'.closed s'.handler.leaderConns i = false := by
  obtain ⟨s, hs, hr, hp⟩ := Reach.of_any (Sys.step {}) (Sys.init {}) shutRun
    (fun s => decide (s.mux.calls.map (·.isWrite) = [true] ∧
      (s.step {} (.sel 0)).map (fun s' => s'.sels.map (·.pc)) = some [.ret none])) (by decide +kernel)
  obtain ⟨hcalls, hret⟩ := of_decide_eq_true hp
  obtain ⟨s', hs', hpcs⟩ := Option.map_eq_some_iff.1 hret
  obtain ⟨call, hcall, hw⟩ := List.map_eq_singleton_iff.1 hcalls
  obtain ⟨sel', hsel, hpc⟩ := List.map_eq_singleton_iff.1 hpcs
  have hexact := leader_selection_exact hr (by rw [hcall]; rfl) hw hs' (by rw [hsel]; rfl) hpc
  exact ⟨s, s', hs, hs', hpcs, hexact.1.1 rfl⟩

end RzBridge

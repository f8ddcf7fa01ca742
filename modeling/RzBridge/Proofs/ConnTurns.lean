import RzBridge.Proofs.FollowerSelect
import RzBridge.Proofs.FollowerTurns

/-!
# The connections of a host

The history has for each node the connection index at which its next scan begins. Only who holds the load balancer
moves it, so a scan stands as far behind it as it has tried (`Aligned`), and the reads of all clients together take
turns with the open connections of a node.
-/

namespace RzBridge
open Machine CircularWait RoundRobin Assoc

variable {cfg : Config} {s s' : Sys} {l : SysLabel} {k : Nat} {node : String × Nat}

/-! ### The counter of a node -/

/-- The connection index that a selection has found open at the node when it goes from one point to another. -/
def SelPc.finds (node : String × Nat) : SelPc → SelPc → Option Nat
  | .fScan _ node' j _, .ret (some _) => if node' = node then some j else none
  | _, _ => none

/-- The connection index that the step finds open at the node. -/
def Sys.foundAt (s s' : Sys) (node : String × Nat) : SysLabel → Option Nat
  | .sel k => do
    let sel ← s.sels[k]?
    let sel' ← s'.sels[k]?
    sel.pc.finds node sel'.pc
  | _ => none

theorem Sys.foundAt_sel {sel sel' : Sel} (hk : s.sels[k]? = some sel) (hsels : s'.sels = s.sels.set k sel') :
    s.foundAt s' node (.sel k) = sel.pc.finds node sel'.pc := by
  have hk' : s'.sels[k]? = some sel' := by rw [hsels, List.getElem?_set_self (List.getElem?_eq_some_iff.1 hk).1]
  simp only [Sys.foundAt, hk, hk', Option.bind_eq_bind, Option.bind_some]

theorem finds_fNext (pc : SelPc) (left : Nat) : pc.finds node (fNext left) = none := by
  unfold fNext
  split <;> cases pc <;> rfl

theorem LoadBalancer.lookup_chosen {lb : LoadBalancer} {node' : String × Nat} {j : Nat}
    (h : node' ∈ lb.followerHistory) : (lb.chosen cfg node' j).followerHistory.lookup node =
      if node = node' then (lb.followerHistory.lookup node').map fun _ => (j + 1) % cfg.connPerNode32
      else lb.followerHistory.lookup node := by
  rw [← lookup_replace_eq]
  exact congrArg (AList.lookup node) (if_pos h)

/-- A selection finds connection `j` of the node, in a scan of which it is the `tried`-th. -/
structure Sys.Finds (s s' : Sys) (k : Nat) (node : String × Nat) (j tried : Nat) (c : Connection) : Prop where
  scan : ∃ sel left, s.sels[k]? = some sel ∧ sel.pc = .fScan left node j tried
  filed : s.handler.followers.lookup (node.1, node.2, j) = some c
  isOpen : s.closed c.id = false
  ret : s'.sels = s.sels.set k { pc := .ret (some c) }

/-- The counter of a node moves behind what is found there, and stays as it is else. -/
theorem Sys.counter_step (h : IndexInv cfg s) (hs : s.step cfg l = some s') {q : Nat}
    (hq : s.history.lookup node = some q) :
    s.foundAt s' node l = none ∧ s'.history.lookup node = some q ∨
      ∃ k j tried c, s.Finds s' k node j tried c ∧ s.foundAt s' node l = some j ∧
        s'.history.lookup node = some ((j + 1) % cfg.connPerNode32) := by
  cases Sys.Move.of_step hs with
  | sel k sel handler pc' hk hw hb =>
    have hmem := h.sels sel (List.mem_of_getElem? hk)
    rw [Sys.foundAt_sel hk rfl]
    generalize hpc : sel.pc = pc at hb hmem
    cases hb with
    | fFound left node' j tried c ht hl hc =>
      have hhist : node' ∈ s.history := hmem node' rfl
      by_cases hne : node = node'
      · subst hne
        refine .inr ⟨k, j, tried, c, ⟨⟨sel, left, hk, hpc⟩, hl, hc, rfl⟩, if_pos rfl, ?_⟩
        refine (LoadBalancer.lookup_chosen hhist).trans ?_
        rw [if_pos rfl]
        exact congrArg (Option.map _) hq
      · refine .inl ⟨if_neg (Ne.symm hne), (LoadBalancer.lookup_chosen hhist).trans ?_⟩
        rw [if_neg hne]
        exact hq
    | fLen | fSkip | fOver => exact .inl ⟨finds_fNext _ _, hq⟩
    | _ => exact .inl ⟨rfl, hq⟩
  | selStart k sel call hk hpc hc hcp =>
    rw [Sys.foundAt_sel hk rfl, hpc]
    exact .inl ⟨rfl, hq⟩
  | selReturn k sel r mux hk hpc hm =>
    rw [Sys.foundAt_sel hk rfl, hpc]
    exact .inl ⟨rfl, hq⟩
  | sync i handler pc' hw hb =>
    refine .inl ⟨rfl, ?_⟩
    generalize s.sync.pc = pc at hb
    cases hb with
    | recordHistory fs todo free a name nidx j freeConns conns =>
      have hafter : (if (name, nidx) ∈ s.history then s.history else s.history.insert (name, nidx) j).lookup node =
          some q := by
        split
        next => exact hq
        next hnot =>
          have hne : node ≠ (name, nidx) := by
            rintro rfl
            exact hnot (mem_of_lookup hq)
          exact (AList.lookup_insert_ne hne).trans hq
      exact hafter
    | _ => exact hq
  | rehashHistory history hp => exact .inl ⟨rfl, (AList.perm_lookup hp).trans hq⟩
  | _ => exact .inl ⟨rfl, hq⟩

/-! ### Where a scan stands -/

/-- The node of a scan, the connection index at which it stands, and how many it has tried. -/
def SelPc.stand : SelPc → Option ((String × Nat) × Nat × Nat)
  | .fMap _ node j => some (node, j, 0)
  | .fScan _ node j tried => some (node, j, tried)
  | .fClean _ node j tried _ _ => some (node, j, tried)
  | _ => none

/-- A scan stands as far behind the counter of its node as it has tried, of `n` connection indices. -/
def Aligned (n : Nat) (history : FollowerHistory) (pc : SelPc) : Prop :=
  ∀ node j tried q, pc.stand = some (node, j, tried) → history.lookup node = some q → j = (q + tried) % n

theorem Aligned.of_none {n : Nat} {history : FollowerHistory} {pc : SelPc} (h : pc.stand = none) :
    Aligned n history pc := by
  intro node j tried q hst
  rw [h] at hst
  cases hst

theorem Aligned.fNext {n : Nat} {history : FollowerHistory} (left : Nat) : Aligned n history (fNext left) := by
  unfold RzBridge.fNext
  split <;> exact .of_none rfl

theorem SelMove.aligned {closed : Nat → Bool} {now : Nat} {h h' : Handler} {pc pc' : SelPc}
    (hb : SelMove cfg closed now h pc h' pc')
    (hcount : ∀ node q, h.loadBalancer.followerHistory.lookup node = some q → q < cfg.connPerNode32)
    (hi : Aligned cfg.connPerNode32 h.loadBalancer.followerHistory pc) :
    Aligned cfg.connPerNode32 h'.loadBalancer.followerHistory pc' := by
  -- a scan goes on to the index behind
  have next : ∀ {j tried q : Nat}, q < cfg.connPerNode32 → j = (q + tried) % cfg.connPerNode32 →
      wrapIdx cfg.connPerNode32 (j + 1) = (q + (tried + 1)) % cfg.connPerNode32 := by
    rintro j tried q hq rfl
    rw [wrapIdx_succ (Nat.mod_lt _ (Nat.zero_lt_of_lt hq)), Nat.mod_add_mod, Nat.add_assoc]
  cases hb with
  | fLen | fSkip | fOver => exact .fNext _
  | fTarget left node counter ht =>
    intro node' j tried q hst hl
    cases hst
    cases (LoadBalancer.target_lookup ht).symm.trans hl
    have hlt := hcount node counter hl
    rw [Nat.add_zero, Nat.mod_eq_of_lt hlt, wrapIdx, if_neg (Nat.not_le_of_lt hlt)]
  | fMap left node j => exact hi
  | fStale left node j tried c ht hl hc => exact hi
  | fAbsent left node j tried ht hnone =>
    intro node' j' tried' q hst hl
    cases hst
    exact next (hcount node q hl) (hi node j tried q rfl hl)
  | fClean left node j tried c start =>
    intro node' j' tried' q hst hl
    cases hst
    exact next (hcount node q hl) (hi node j tried q rfl hl)
  | _ => exact .of_none rfl

def Sys.Aligned (cfg : Config) (s : Sys) : Prop :=
  ∀ sel ∈ s.sels, RzBridge.Aligned cfg.connPerNode32 s.history sel.pc

theorem SelPc.node_of_stand {pc : SelPc} {j tried : Nat} (h : pc.stand = some (node, j, tried)) :
    pc.node = some node := by
  cases pc with
  | fMap | fScan | fClean =>
    cases h
    rfl
  | _ => cases h

theorem Sys.Finds.others {j tried : Nat} {c : Connection} (h : s.Finds s' k node j tried c)
    (hx : Exclusive s.poolHolds) {sel' : Sel} (hmem : sel' ∈ s'.sels) : sel'.pc.node = none := by
  obtain ⟨sel, left, hk, hpc⟩ := h.scan
  obtain ⟨k', hk'⟩ := List.mem_iff_getElem?.1 hmem
  rw [h.ret] at hk'
  by_cases hne : k' = k
  · rw [hne, List.getElem?_set_self (List.getElem?_eq_some_iff.1 hk).1] at hk'
    cases hk'
    rfl
  · rw [List.getElem?_set_ne (Ne.symm hne)] at hk'
    have hheld : (Lock.loadBalancer, Mode.write) ∈ s.poolHolds (some k) :=
      Sys.poolHolds_of_outer hk (by rw [hpc]; exact List.mem_cons_self)
    exact Sys.node_of_held hx hheld hne hk'

theorem Sys.Aligned.step (h : s.Aligned cfg) (hi : IndexInv cfg s) (hx : Exclusive s.poolHolds)
    (hs : s.step cfg l = some s') : s'.Aligned cfg := by
  intro sel' hsel'
  rcases Sys.sel_of_step hs hsel' with ⟨sel, hsel, hpc⟩ | hstart | ⟨sel, hsel, hb⟩
  · intro node j tried q hst hl
    have hnode := SelPc.node_of_stand hst
    obtain ⟨q', hq'⟩ := Option.isSome_iff_exists.1
      (AList.lookup_isSome.2 (hi.sels sel hsel node (hpc ▸ hnode)))
    rcases Sys.counter_step hi hs hq' with ⟨-, hsame⟩ | ⟨k, j', tried', c, hfinds, -, -⟩
    · cases hsame.symm.trans hl
      exact h sel hsel node j tried q (hpc ▸ hst) hq'
    · cases (hfinds.others hx hsel').symm.trans hnode
  · rcases hstart with hpc | hpc | hpc <;> rw [hpc] <;> exact .of_none rfl
  · exact hb.aligned hi.counters (h sel hsel)

theorem Sys.Aligned.of_reach (h : Reach (Sys.step cfg) (Sys.init cfg) s) : s.Aligned cfg :=
  h.induct (by simp [Sys.Aligned, Sys.init]) fun _ _ _ hr hi hs =>
    hi.step (IndexInv.of_reach hr) (Sys.exclusive_of_reach hr) hs

/-! ### The open connections of a node -/

/-- The node has an open connection under the index. -/
def Sys.openAt (s : Sys) (node : String × Nat) (j : Nat) : Bool :=
  (s.handler.followers.lookup (node.1, node.2, j)).any fun c => !s.closed c.id

theorem le_ringDist_behind {n q d tried : Nat} (hd : d < tried) (ht : tried < n) :
    n ≤ tried + ringDist n ((q + tried) % n) ((q + d) % n) := by
  have hlt : (q + d) % n < n := Nat.mod_lt _ (Nat.zero_lt_of_lt ht)
  have hon : (q + tried) % n = ((q + d) % n + (tried - d)) % n := by
    rw [Nat.mod_add_mod, Nat.add_assoc, Nat.add_sub_cancel' hd.le]
  rw [hon]
  generalize (q + d) % n = t at hlt
  unfold ringDist
  rcases Nat.lt_or_ge (t + (tried - d)) n with hin | hout
  · rw [Nat.mod_eq_of_lt hin]
    split <;> omega
  · rw [Nat.mod_eq_sub_mod hout, Nat.mod_eq_of_lt (by omega)]
    split <;> omega

/-- What is found is the next open connection from the counter on. -/
theorem Sys.Finds.next {j tried q last : Nat} {c : Connection} (h : s.Finds s' k node j tried c)
    (hr : Reach (Sys.step cfg) (Sys.init cfg) s) (hq : s.history.lookup node = some q)
    (hlast : (last + 1) % cfg.connPerNode32 = q) :
    next (s.openAt node) cfg.connPerNode32 last = some j := by
  obtain ⟨sel, left, hk, hpc⟩ := h.scan
  have hmem := List.mem_of_getElem? hk
  have hahead := (Sys.Trying.of_reach hr sel hmem).ahead node j tried (by rw [hpc]; rfl)
  have hj := Sys.Aligned.of_reach hr sel hmem node j tried q (by rw [hpc]; rfl) hq
  have htried : tried < cfg.connPerNode32 := Nat.lt_of_le_of_lt (Nat.le_add_right ..) (hahead j c h.filed)
  have around : ∀ d, (last + 1 + d) % cfg.connPerNode32 = (q + d) % cfg.connPerNode32 := fun d => by
    rw [← hlast, Nat.mod_add_mod]
  refine next_eq_some_iff.2 ⟨tried, htried, by rw [around, hj], ?_, fun d hd => ?_⟩
  · rw [Sys.openAt, h.filed, Option.any_some, h.isOpen]
    rfl
  · -- nothing is filed under an index that was tried before
    rw [around, Sys.openAt, Option.any_eq_false]
    intro x hl
    have hlt := hahead _ x hl
    rw [hj] at hlt
    have hle := le_ringDist_behind (q := q) hd htried
    omega

/-! ### Over a run -/

/-- The connection indices that the steps of a run find open at the node, one after the other. -/
def Sys.finds (cfg : Config) (node : String × Nat) (s : Sys) : List SysLabel → List Nat
  | [] => []
  | l :: ls =>
    match s.step cfg l with
    | none => []
    | some s' => (s.foundAt s' node l).toList ++ finds cfg node s' ls

end RzBridge

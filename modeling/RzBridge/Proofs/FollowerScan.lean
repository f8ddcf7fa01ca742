import RzBridge.Proofs.FollowerPool
import RzBridge.Proofs.Solo

/-!
# Which follower a read gets

`next_follower_conn` walks the node indices below the length of the history, starting after the last
one used, and for each it looks at the host that the history names first under that index. An open
connection is found exactly when one is filed under a host and index met on this walk
(`nextFollowerConn_some_iff`). `sync_followers` hands out indices below the length of the list it
was given, which need not be below the length of the history.
-/

namespace RzBridge
open Machine Assoc

variable {cfg : Config} {closed : Nat → Bool}

/-! ### Walking around a circle -/

/-- How many steps of `i ↦ wrapIdx n (i + 1)` lead from `i` to `t`. -/
def ringDist (n i t : Nat) : Nat := if i ≤ t then t - i else t + n - i

theorem ringDist_lt {n i t : Nat} (hi : i < n) (ht : t < n) : ringDist n i t < n := by
  unfold ringDist
  split <;> omega

theorem ringDist_next {n i t : Nat} (hi : i < n) (ht : t < n) (hne : i ≠ t) :
    ringDist n (wrapIdx n (i + 1)) t + 1 = ringDist n i t := by
  unfold ringDist wrapIdx
  split <;> split <;> split <;> omega

/-! ### The inner loop -/

theorem scanFollower_keeps {node : String × Nat} {left j : Nat} {fo fo' : FollowerMap}
    {r : Option (Connection × Nat)} (h : scanFollower cfg closed node left j fo = (r, fo'))
    {key : String × Nat × Nat} {x : Connection} (hl : fo.lookup key = some x) (hx : closed x.id = false) :
    fo'.lookup key = some x := by
  induction left generalizing j fo with
  | zero =>
    cases h
    exact hl
  | succ left ih =>
    simp only [scanFollower] at h
    split at h
    next c hc =>
      split at h
      next hcl =>
        refine ih h (lookup_erase_iff.2 ⟨?_, hl⟩)
        rintro rfl
        rw [hc] at hl
        cases Option.some.inj hl
        simp [hcl] at hx
      next =>
        cases h
        exact hl
    next => exact ih h hl

theorem scanFollower_sub {node : String × Nat} {left j : Nat} {fo fo' : FollowerMap}
    {r : Option (Connection × Nat)} (h : scanFollower cfg closed node left j fo = (r, fo'))
    {key : String × Nat × Nat} {x : Connection} (hl : fo'.lookup key = some x) : fo.lookup key = some x := by
  induction left generalizing j fo with
  | zero =>
    cases h
    exact hl
  | succ left ih =>
    simp only [scanFollower] at h
    split at h
    next c hc =>
      split at h
      next => exact (lookup_erase_iff.1 (ih h)).2
      next =>
        cases h
        exact hl
    next => exact ih h

theorem scanFollower_sound {node : String × Nat} {left j j' : Nat} {fo fo' : FollowerMap} {c : Connection}
    (h : scanFollower cfg closed node left j fo = (some (c, j'), fo')) :
    fo.lookup (node.1, node.2, j') = some c ∧ closed c.id = false := by
  induction left generalizing j fo with
  | zero => cases h
  | succ left ih =>
    simp only [scanFollower] at h
    split at h
    next c₀ hc =>
      split at h
      next => exact (ih h).imp_left fun hl => (lookup_erase_iff.1 hl).2
      next hcl =>
        cases h
        exact ⟨hc, by simpa using hcl⟩
    next => exact ih h

theorem scanFollower_complete (node : String × Nat) (left : Nat) {j t : Nat} {fo : FollowerMap}
    {c : Connection} (hj : j < cfg.connPerNode32) (ht : t < cfg.connPerNode32)
    (hl : fo.lookup (node.1, node.2, t) = some c) (hc : closed c.id = false)
    (hd : ringDist cfg.connPerNode32 j t < left) :
    ∃ c' j' fo', scanFollower cfg closed node left j fo = (some (c', j'), fo') := by
  induction left generalizing j fo with
  | zero => omega
  | succ left ih =>
    have hj' : wrapIdx cfg.connPerNode32 (j + 1) < cfg.connPerNode32 := wrapIdx_lt (by omega)
    simp only [scanFollower]
    split
    next c₀ hc₀ =>
      split
      next hcl =>
        have hne : j ≠ t := by
          rintro rfl
          rw [hl] at hc₀
          cases Option.some.inj hc₀
          simp [hcl] at hc
        have := ringDist_next hj ht hne
        refine ih hj' (lookup_erase_iff.2 ⟨?_, hl⟩) (by omega)
        simpa using hne.symm
      next => exact ⟨c₀, j, fo, rfl⟩
    next hnone =>
      have hne : j ≠ t := by
        rintro rfl
        rw [hl] at hnone
        cases hnone
      have := ringDist_next hj ht hne
      exact ih hj' hl (by omega)

/-! ### The outer loop -/

theorem LoadBalancer.target_idx {lb : LoadBalancer} {i counter : Nat} {node : String × Nat}
    (h : lb.target i = some (node, counter)) : node.2 = i ∧ 0 < lb.followerHistory.entries.length := by
  obtain ⟨e, he, hn⟩ := Option.map_eq_some_iff.1 h
  cases hn
  have hp := List.find?_some he
  exact ⟨by simpa using hp, List.length_pos_of_mem (List.mem_of_find?_eq_some he)⟩

/-- How many node indices the walk goes around: those below the length of the history that are `u32`s. -/
def LoadBalancer.ring (lb : LoadBalancer) : Nat := min lb.followerHistory.entries.length (2 ^ 32)

theorem LoadBalancer.nextNode_lt {lb : LoadBalancer} (h : 0 < lb.followerHistory.entries.length) :
    lb.nextNode < lb.ring := by
  unfold nextNode ring wrapIdx
  split <;> omega

theorem LoadBalancer.nextNode_eq {lb : LoadBalancer} (h : lb.lastNodeId < 2 ^ 32) :
    lb.nextNode = wrapIdx lb.ring (lb.lastNodeId + 1) := by
  unfold nextNode ring wrapIdx
  split <;> split <;> omega

/-- An open connection is filed under the host and index that the history leads to. -/
def Handler.Designated (h : Handler) (closed : Nat → Bool) : Prop :=
  ∃ (host : String) (idx counter j : Nat) (c : Connection), idx < h.loadBalancer.ring ∧
    h.loadBalancer.target idx = some ((host, idx), counter) ∧ h.followers.lookup (host, idx, j) = some c ∧
    closed c.id = false

theorem followerLoop_sound {left : Nat} {h h' : Handler} {c : Connection}
    (hr : followerLoop cfg closed left h = (some c, h')) : closed c.id = false ∧ h.Designated closed := by
  induction left generalizing h with
  | zero => cases hr
  | succ left ih =>
    simp only [followerLoop] at hr
    split at hr
    next =>
      obtain ⟨hc, host, idx, counter, j, c', hidx, ht, hl, hc'⟩ := ih hr
      exact ⟨hc, host, idx, counter, j, c', hidx, ht, hl, hc'⟩
    next node counter ht =>
      obtain ⟨hn, hpos⟩ := LoadBalancer.target_idx ht
      split at hr
      next c' j' followers hscan =>
        cases hr
        obtain ⟨hl, hc⟩ := scanFollower_sound hscan
        refine ⟨hc, node.1, node.2, counter, j', c, ?_, ?_, hl, hc⟩
        · rw [hn]
          exact LoadBalancer.nextNode_lt hpos
        · rw [hn]
          exact hn ▸ ht
      next followers hscan =>
        obtain ⟨hc, host, idx, counter, j, c', hidx, ht, hl, hc'⟩ := ih hr
        exact ⟨hc, host, idx, counter, j, c', hidx, ht, scanFollower_sub hscan hl, hc'⟩

theorem followerLoop_complete (left : Nat) {idx counter j : Nat} {h : Handler} {host : String}
    {c : Connection} (hidx : idx < h.loadBalancer.ring)
    (ht : h.loadBalancer.target idx = some ((host, idx), counter))
    (hl : h.followers.lookup (host, idx, j) = some c) (hc : closed c.id = false)
    (hj : j < cfg.connPerNode32) (hd : ringDist h.loadBalancer.ring h.loadBalancer.nextNode idx < left) :
    ∃ c' h', followerLoop cfg closed left h = (some c', h') := by
  induction left generalizing h with
  | zero => omega
  | succ left ih =>
    have hpos : 0 < h.loadBalancer.followerHistory.entries.length := (LoadBalancer.target_idx ht).2
    have hnext : h.loadBalancer.nextNode < h.loadBalancer.ring := LoadBalancer.nextNode_lt hpos
    have hlt : h.loadBalancer.nextNode < 2 ^ 32 := hnext.trans_le (Nat.min_le_right ..)
    -- unless it stops, the loop goes on to the next index, one step closer to `idx`
    have closer : h.loadBalancer.nextNode ≠ idx →
        ringDist h.loadBalancer.ring
          ({ h.loadBalancer with lastNodeId := h.loadBalancer.nextNode } : LoadBalancer).nextNode idx < left := by
      intro hne
      rw [LoadBalancer.nextNode_eq hlt]
      have := ringDist_next hnext hidx hne
      exact Nat.lt_of_succ_lt_succ (this.trans_lt hd)
    simp only [followerLoop]
    split
    next htn =>
      have hne : h.loadBalancer.nextNode ≠ idx := fun he => by
        rw [← he] at ht
        cases htn.symm.trans ht
      exact ih hidx ht hl (closer hne)
    next node counter' htn =>
      split
      next c' j' followers hscan => exact ⟨c', _, rfl⟩
      next followers hscan =>
        have hne : h.loadBalancer.nextNode ≠ idx := by
          intro he
          rw [← he] at ht
          cases htn.symm.trans ht
          have hwrap : wrapIdx cfg.connPerNode32 counter < cfg.connPerNode32 := wrapIdx_lt (by omega)
          rw [← he] at hl
          obtain ⟨c', j', fo', hfound⟩ := scanFollower_complete (host, h.loadBalancer.nextNode)
            cfg.connPerRoomzinNode hwrap hj hl hc ((ringDist_lt hwrap hj).trans_le (Nat.mod_le _ _))
          cases hscan.symm.trans hfound
        exact ih
          (h := { h with followers, loadBalancer := { h.loadBalancer with lastNodeId := h.loadBalancer.nextNode } })
          hidx ht (scanFollower_keeps hscan hl hc) (closer hne)

/-- An undisturbed `next_follower_conn` returns an open connection exactly when one is designated. -/
theorem nextFollowerConn_some_iff {h : Handler}
    (hj : ∀ key x, h.followers.lookup key = some x → key.2.2 < cfg.connPerNode32) :
    (∃ c, (nextFollowerConn cfg closed h).1 = some c ∧ closed c.id = false) ↔ h.Designated closed := by
  constructor
  · rintro ⟨c, hr, -⟩
    have hloop : nextFollowerConn cfg closed h = (some c, (nextFollowerConn cfg closed h).2) := Prod.ext hr rfl
    exact (followerLoop_sound hloop).2
  · rintro ⟨host, idx, counter, j, c, hidx, ht, hl, hc⟩
    have hring : h.loadBalancer.ring ≤ h.loadBalancer.followerHistory.entries.length := Nat.min_le_left ..
    have hnext : h.loadBalancer.nextNode < h.loadBalancer.ring :=
      LoadBalancer.nextNode_lt (LoadBalancer.target_idx ht).2
    obtain ⟨c', h', hr⟩ := followerLoop_complete h.loadBalancer.followerHistory.entries.length hidx ht hl hc
      (hj _ _ hl) ((ringDist_lt hnext hidx).trans_le hring)
    exact ⟨c', by rw [nextFollowerConn, hr], (followerLoop_sound hr).1⟩

/-! ### Read availability -/

/-- With an open connection in the map, an undisturbed `next_follower_conn` returns an open one. -/
def Sys.ReadAvailable (cfg : Config) (s : Sys) : Prop :=
  (∃ e ∈ s.handler.followers.entries, s.closed e.2.id = false) →
    ∃ c, (nextFollowerConn cfg s.closed s.handler).1 = some c ∧ s.closed c.id = false

/-- Some open connection of the map has a node index below the length of the history, and its own
host is the first that the history has under that index. -/
def Sys.OpenIsIndexed (s : Sys) : Prop :=
  ∃ e ∈ s.handler.followers.entries, s.closed e.2.id = false ∧
    e.1.2.1 < s.handler.loadBalancer.followerHistory.entries.length ∧
    (s.handler.loadBalancer.target e.1.2.1).map (·.1) = some (e.1.1, e.1.2.1)

theorem openIsIndexed_iff {s : Sys} (h : NodeInv s) : s.OpenIsIndexed ↔ s.handler.Designated s.closed := by
  constructor
  · rintro ⟨⟨⟨host, idx, j⟩, c⟩, he, hc, hidx, ht⟩
    have hl : s.handler.followers.lookup (host, idx, j) = some c := mem_entries_iff.1 he
    obtain ⟨⟨node, counter⟩, ht, hn⟩ := Option.map_eq_some_iff.1 ht
    dsimp only at hn
    exact ⟨host, idx, counter, j, c, lt_min hidx (h.map _ c hl), hn ▸ ht, hl, hc⟩
  · rintro ⟨host, idx, counter, j, c, hidx, ht, hl, hc⟩
    exact ⟨⟨(host, idx, j), c⟩, mem_entries_iff.2 hl, hc, hidx.trans_le (Nat.min_le_left ..), by rw [ht]; rfl⟩

/-- In every reachable state: a read that runs its selection without interference gets what
`nextFollowerConn` computes, and that is an open connection whenever there is one exactly if one of
them, when there are any, is indexed by the history. -/
theorem read_available_iff {s : Sys} (h : Reach (Sys.step cfg) (Sys.init cfg) s) :
    (s.ReadAvailable cfg ↔
      ((∃ e ∈ s.handler.followers.entries, s.closed e.2.id = false) → s.OpenIsIndexed)) ∧
    ∀ k, s.Alone k → s.sels[k]? = some { pc := .fLen } → ∃ s', Solo cfg k s s' ∧
      s'.sels[k]? = some { pc := .ret (nextFollowerConn cfg s.closed s.handler).1 } := by
  refine ⟨?_, fun k hal hk => ?_⟩
  · rw [openIsIndexed_iff (NodeInv.of_reach h),
      ← nextFollowerConn_some_iff fun key x hl => ((FollowerInv.of_reach h).map key x hl).2.2]
    rfl
  · obtain ⟨s', hsolo, hk', -⟩ := Solo.nextFollowerConn hal hk
    exact ⟨s', hsolo, hk'⟩

/-- Both followers of the first sync could be connected to. -/
theorem read_available_two : ∃ s, exec (Sys.step {}) (Sys.init {})
      (Sys.leaderDown "l" ["a", "b"] true ++ Sys.followersUp [("a", true), ("b", true)]) = some s ∧
    s.handler.followers.keys = [("b", 0, 0), ("a", 1, 0)] ∧
    ∃ c, (nextFollowerConn {} s.closed s.handler).1 = some c ∧ s.closed c.id = false := by
  obtain ⟨s, hs, hr, hp⟩ := Reach.of_any (Sys.step {}) (Sys.init {})
    (Sys.leaderDown "l" ["a", "b"] true ++ Sys.followersUp [("a", true), ("b", true)])
    (fun s => decide (s.handler.followers.keys = [("b", 0, 0), ("a", 1, 0)] ∧
      ∃ e ∈ s.handler.followers.entries, s.closed e.2.id = false ∧
        e.1.2.1 < s.handler.loadBalancer.followerHistory.entries.length ∧
        (s.handler.loadBalancer.target e.1.2.1).map (·.1) = some (e.1.1, e.1.2.1))) (by decide +kernel)
  obtain ⟨hkeys, hind⟩ := of_decide_eq_true hp
  obtain ⟨e, he, hopen, -⟩ := id hind
  exact ⟨s, hs, hkeys, ((read_available_iff hr).1.2 fun _ => hind) ⟨e, he, hopen⟩⟩

/-- Only `a` could be connected to; it has index 1 and the history has one entry, so nothing is found. -/
theorem open_follower_not_found : ∃ s, Reach (Sys.step {}) (Sys.init {}) s ∧
    (∃ e ∈ s.handler.followers.entries, s.closed e.2.id = false) ∧
    (nextFollowerConn {} s.closed s.handler).1 = none := by
  obtain ⟨s, -, hr, hp⟩ := Reach.of_any (Sys.step {}) (Sys.init {})
    (Sys.leaderDown "l" ["a", "b"] true ++ Sys.followersUp [("a", true), ("b", false)])
    (fun s => decide ((∃ e ∈ s.handler.followers.entries, s.closed e.2.id = false) ∧
      (nextFollowerConn {} s.closed s.handler).1 = none)) (by decide +kernel)
  exact ⟨s, hr, of_decide_eq_true hp⟩

end RzBridge

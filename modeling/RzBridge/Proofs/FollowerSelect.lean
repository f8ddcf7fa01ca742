import RzBridge.Proofs.FollowerScan

/-!
# What a follower selection does to the pool

A selection takes closed connections out of the map and turns the counter of the host that it takes a
connection from; the rest of the pool stays (`FollowerSelection`). If it finds nothing, nothing is left of the
hosts that it examined.
-/

namespace RzBridge
open Machine Assoc

variable {cfg : Config} {closed : Nat → Bool}

theorem scanFollower_none (node : String × Nat) (left : Nat) {j t : Nat} {fo fo' : FollowerMap}
    (hj : j < cfg.connPerNode32) (ht : t < cfg.connPerNode32)
    (h : scanFollower cfg closed node left j fo = (none, fo')) (hd : ringDist cfg.connPerNode32 j t < left) :
    fo'.lookup (node.1, node.2, t) = none := by
  induction left generalizing j fo with
  | zero => omega
  | succ left ih =>
    have hj' : wrapIdx cfg.connPerNode32 (j + 1) < cfg.connPerNode32 := wrapIdx_lt (by omega)
    have hnear : j ≠ t → ringDist cfg.connPerNode32 (wrapIdx cfg.connPerNode32 (j + 1)) t < left := by
      intro hne
      have := ringDist_next hj ht hne
      omega
    have hkept : ∀ {fo₁}, scanFollower cfg closed node left (wrapIdx cfg.connPerNode32 (j + 1)) fo₁ = (none, fo') →
        fo₁.lookup (node.1, node.2, j) = none → fo'.lookup (node.1, node.2, t) = none := by
      intro fo₁ h₁ hgone
      by_cases hne : j = t
      · subst hne
        rw [Option.eq_none_iff_forall_ne_some]
        intro c hc
        cases hgone.symm.trans (scanFollower_sub h₁ hc)
      · exact ih hj' h₁ (hnear hne)
    simp only [scanFollower] at h
    split at h
    next c hc =>
      split at h
      next hcl => exact hkept h (AList.lookup_erase _ _)
      next => cases h
    next hnone => exact hkept h hnone

/-- The nodes whose connections `left` iterations of the loop go through as long as they find nothing. -/
def examined : Nat → LoadBalancer → List (String × Nat)
  | 0, _ => []
  | left + 1, lb =>
    let lb := { lb with lastNodeId := lb.nextNode }
    match lb.target lb.lastNodeId with
    | none => examined left lb
    | some (node, _) => node :: examined left lb

/-- What the loop of a selection does to the handler `h` when it returns `r` and leaves `h'`. -/
structure FollowerSelection (cfg : Config) (closed : Nat → Bool) (left : Nat) (h : Handler)
    (r : Option Connection) (h' : Handler) : Prop where
  rest : h' = { h with followers := h'.followers, loadBalancer := h'.loadBalancer }
  sub : ∀ key c, h'.followers.lookup key = some c → h.followers.lookup key = some c
  keeps : ∀ key c, h.followers.lookup key = some c → closed c.id = false → h'.followers.lookup key = some c
  found : ∀ c, r = some c → closed c.id = false ∧ ∃ host i j counter,
    h'.followers.lookup (host, i, j) = some c ∧ i < h.loadBalancer.ring ∧
    h.loadBalancer.followerHistory.lookup (host, i) = some counter ∧
    h'.loadBalancer =
      { h.loadBalancer with
        lastNodeId := i
        followerHistory := h.loadBalancer.followerHistory.replace (host, i) ((j + 1) % cfg.connPerNode32) }
  notFound : r = none → (∃ last, h'.loadBalancer = { h.loadBalancer with lastNodeId := last } ∧
      (last = h.loadBalancer.lastNodeId ∨ last < h.loadBalancer.ring)) ∧
    ∀ node ∈ examined left h.loadBalancer, ∀ t < cfg.connPerNode32,
      h'.followers.lookup (node.1, node.2, t) = none

theorem FollowerSelection.gone {left : Nat} {h h' : Handler} {r : Option Connection} {key : String × Nat × Nat}
    {c : Connection} (hs : FollowerSelection cfg closed left h r h') (hl : h.followers.lookup key = some c)
    (hnone : h'.followers.lookup key = none) : closed c.id = true := by
  by_contra hopen
  cases hnone.symm.trans (hs.keeps key c hl (Bool.eq_false_iff.2 hopen))

theorem FollowerSelection.goOn {left : Nat} {h h' : Handler} {r : Option Connection} {followers : FollowerMap}
    (hpos : 0 < h.loadBalancer.followerHistory.entries.length)
    (hsub : ∀ key c, followers.lookup key = some c → h.followers.lookup key = some c)
    (hkeeps : ∀ key c, h.followers.lookup key = some c → closed c.id = false → followers.lookup key = some c)
    (hex : ∀ node ∈ examined (left + 1) h.loadBalancer,
      node ∈ examined left { h.loadBalancer with lastNodeId := h.loadBalancer.nextNode } ∨
        ∀ t < cfg.connPerNode32, followers.lookup (node.1, node.2, t) = none)
    (hs : FollowerSelection cfg closed left
      { h with followers, loadBalancer := { h.loadBalancer with lastNodeId := h.loadBalancer.nextNode } } r h') :
    FollowerSelection cfg closed (left + 1) h r h' where
  rest := hs.rest
  sub := fun key c hl => hsub key c (hs.sub key c hl)
  keeps := fun key c hl hc => hs.keeps key c (hkeeps key c hl hc) hc
  found := hs.found
  notFound := by
    intro hr
    obtain ⟨⟨last, hlb, hlast⟩, hgone⟩ := hs.notFound hr
    refine ⟨⟨last, hlb, .inr ?_⟩, fun node hn t ht => ?_⟩
    · rcases hlast with rfl | hlast
      · exact LoadBalancer.nextNode_lt hpos
      · exact hlast
    · rcases hex node hn with hn | hn
      · exact hgone node hn t ht
      · rw [Option.eq_none_iff_forall_ne_some]
        intro c hc
        cases (hn t ht).symm.trans (hs.sub _ c hc)

theorem LoadBalancer.target_lookup {lb : LoadBalancer} {i counter : Nat} {node : String × Nat}
    (h : lb.target i = some (node, counter)) : lb.followerHistory.lookup node = some counter := by
  obtain ⟨e, he, hn⟩ := Option.map_eq_some_iff.1 h
  cases hn
  exact mem_entries_iff.1 (List.mem_of_find?_eq_some he)

theorem followerLoop_selects (left : Nat) {h h' : Handler} {r : Option Connection}
    (hleft : left ≤ h.loadBalancer.followerHistory.entries.length)
    (hr : followerLoop cfg closed left h = (r, h')) : FollowerSelection cfg closed left h r h' := by
  induction left generalizing h with
  | zero =>
    cases hr
    refine ⟨rfl, fun _ _ hl => hl, fun _ _ hl _ => hl, fun c hc => ?_, fun _ => ⟨⟨_, rfl, .inl rfl⟩, fun node hn => ?_⟩⟩
    · cases hc
    · cases hn
  | succ left ih =>
    have hpos : 0 < h.loadBalancer.followerHistory.entries.length := Nat.zero_lt_of_lt hleft
    simp only [followerLoop] at hr
    split at hr
    next ht =>
      refine .goOn hpos (fun _ _ (hl : h.followers.lookup _ = some _) => hl) (fun _ _ hl _ => hl)
        (fun node hn => .inl ?_) (ih (Nat.le_of_succ_le hleft) hr)
      simpa only [examined, ht] using hn
    next node counter ht =>
      have hring : node.2 < h.loadBalancer.ring := by
        rw [(LoadBalancer.target_idx ht).1]
        exact LoadBalancer.nextNode_lt hpos
      split at hr
      next c j followers hscan =>
        cases hr
        obtain ⟨hl, hc⟩ := scanFollower_sound hscan
        have hlook : h.loadBalancer.followerHistory.lookup node = some counter := LoadBalancer.target_lookup ht
        refine ⟨rfl, fun _ _ => scanFollower_sub hscan, fun _ _ => scanFollower_keeps hscan, ?_, fun hnone => ?_⟩
        · rintro _ ⟨⟩
          refine ⟨hc, node.1, node.2, j, counter, scanFollower_keeps hscan hl hc, hring, hlook, ?_⟩
          simp only [LoadBalancer.chosen, if_pos (mem_of_lookup hlook)]
        · cases hnone
      next followers hscan =>
        refine .goOn hpos (fun _ _ => scanFollower_sub hscan) (fun _ _ => scanFollower_keeps hscan) ?_
          (ih (Nat.le_of_succ_le hleft) hr)
        intro node' hn
        simp only [examined, ht, List.mem_cons] at hn
        rcases hn with rfl | hn
        · refine .inr fun t hlt => ?_
          have hwrap : wrapIdx cfg.connPerNode32 counter < cfg.connPerNode32 := wrapIdx_lt (Nat.zero_lt_of_lt hlt)
          exact scanFollower_none node' cfg.connPerRoomzinNode hwrap hlt hscan
            ((ringDist_lt hwrap hlt).trans_le (Nat.mod_le _ _))
        · exact .inl hn

theorem mem_history_of_examined {left : Nat} {lb : LoadBalancer} {node : String × Nat}
    (h : node ∈ examined left lb) : node ∈ lb.followerHistory := by
  induction left generalizing lb with
  | zero => cases h
  | succ left ih =>
    simp only [examined] at h
    split at h
    next => exact @ih { lb with lastNodeId := lb.nextNode } h
    next node' counter ht =>
      rcases List.mem_cons.1 h with rfl | h
      · exact mem_of_lookup (LoadBalancer.target_lookup ht)
      · exact @ih { lb with lastNodeId := lb.nextNode } h

/-! ### A selection that runs alone -/

/-- The host has the node index, in the history or in the map. -/
def Handler.HasIndex (h : Handler) (host : String) (i : Nat) : Prop :=
  (host, i) ∈ h.loadBalancer.followerHistory ∨ ∃ j c, h.followers.lookup (host, i, j) = some c

structure PoolInv (cfg : Config) (h : Handler) : Prop where
  oneIndex : ∀ host i i', h.HasIndex host i → h.HasIndex host i' → i = i'
  counters : ∀ node counter, h.loadBalancer.followerHistory.lookup node = some counter →
    counter < cfg.connPerRoomzinNode
  conns : ∀ key c, h.followers.lookup key = some c → key.2.2 < cfg.connPerRoomzinNode
  last : h.loadBalancer.lastNodeId < max 1 h.loadBalancer.followerHistory.entries.length

/-- A `next_follower_conn` that runs alone comes to an end. It takes only closed connections out of the map and
keeps the keys of the history and the bounds of the counters and of `last_node_id`. A connection it returns is
open and in the map, and the counter of its host is the only one that changes; if it returns none, all
connections of the hosts it examined were closed and are gone. -/
theorem follower_selection_sound (cfg : Config) (hfit : cfg.connPerRoomzinNode < 2 ^ 32) (s : Sys) (k : Nat)
    (hal : s.Alone k) (hk : s.sels[k]? = some { pc := .fLen }) (hp : PoolInv cfg s.handler) :
    ∃ s' r, Solo cfg k s s' ∧ s'.sels[k]? = some { pc := .ret r } ∧ s'.closed = s.closed ∧
      (∀ key c, s.handler.followers.lookup key = some c → s'.handler.followers.lookup key = some c ∨
        s'.handler.followers.lookup key = none ∧ s.closed c.id = true) ∧
      (∀ key c, s'.handler.followers.lookup key = some c → s.handler.followers.lookup key = some c) ∧
      s'.handler.loadBalancer.followerHistory.keys = s.handler.loadBalancer.followerHistory.keys ∧
      (∀ node counter, s'.handler.loadBalancer.followerHistory.lookup node = some counter →
        counter < cfg.connPerRoomzinNode) ∧
      s'.handler.loadBalancer.lastNodeId < max 1 s'.handler.loadBalancer.followerHistory.entries.length ∧
      (∀ c, r = some c → s.closed c.id = false ∧ ∃ host i j,
        s'.handler.followers.lookup (host, i, j) = some c ∧ (host, i) ∈ s'.handler.loadBalancer.followerHistory ∧
        s'.handler.loadBalancer.lastNodeId = i ∧
        s'.handler.loadBalancer.followerHistory.lookup (host, i) = some ((j + 1) % cfg.connPerRoomzinNode) ∧
        ∀ node, node ≠ (host, i) → s'.handler.loadBalancer.followerHistory.lookup node =
          s.handler.loadBalancer.followerHistory.lookup node) ∧
      (r = none → ∀ node ∈ examined s.handler.loadBalancer.followerHistory.entries.length s.handler.loadBalancer,
        ∀ i j c, s.handler.followers.lookup (node.1, i, j) = some c →
          s.closed c.id = true ∧ s'.handler.followers.lookup (node.1, i, j) = none) := by
  have h32 : cfg.connPerNode32 = cfg.connPerRoomzinNode := Nat.mod_eq_of_lt hfit
  obtain ⟨s', hsolo, hk', hh', hcl⟩ := @Solo.nextFollowerConn cfg s k hal hk
  set r := (nextFollowerConn cfg s.closed s.handler).1 with hr
  have hs : FollowerSelection cfg s.closed s.handler.loadBalancer.followerHistory.entries.length s.handler r
      s'.handler := followerLoop_selects _ le_rfl (Prod.ext hr.symm hh'.symm)
  clear_value r
  have hring : s.handler.loadBalancer.ring ≤ s.handler.loadBalancer.followerHistory.entries.length :=
    Nat.min_le_left ..
  refine ⟨s', r, hsolo, hk', hcl, fun key c hl => ?_, hs.sub, ?_⟩
  · cases hl' : s'.handler.followers.lookup key with
    | none => exact .inr ⟨rfl, hs.gone hl hl'⟩
    | some c' => exact .inl ((hs.sub key c' hl').symm.trans hl)
  cases r with
  | none =>
    obtain ⟨⟨last, hlb, hlast⟩, hexamined⟩ := hs.notFound rfl
    rw [hlb]
    refine ⟨rfl, hp.counters, ?_, fun c hc => ?_, fun _ node hn i j c hl => ?_⟩
    · rcases hlast with rfl | hlast
      · exact hp.last
      · exact (hlast.trans_le hring).trans_le (le_max_right ..)
    · cases hc
    · obtain rfl : i = node.2 :=
        hp.oneIndex node.1 i node.2 (.inr ⟨j, c, hl⟩) (.inl (mem_history_of_examined hn))
      have hnone := hexamined node hn j ((hp.conns _ c hl).trans_eq h32.symm)
      exact ⟨hs.gone hl hnone, hnone⟩
  | some c =>
    obtain ⟨hc, host, i, j, counter, hl, hi, hlook, hlb⟩ := hs.found c rfl
    have hj : j < cfg.connPerRoomzinNode := hp.conns _ c (hs.sub _ c hl)
    rw [hlb]
    refine ⟨AList.keys_replace .., fun node n hn => ?_, ?_, fun c' hc' => ?_, fun hnone => ?_⟩
    · rcases lookup_replace hn with ⟨-, rfl⟩ | hn
      · rw [h32]
        exact Nat.mod_lt _ (Nat.zero_lt_of_lt hj)
      · exact hp.counters node n hn
    · dsimp only
      rw [length_replace]
      exact (hi.trans_le hring).trans_le (le_max_right ..)
    · cases hc'
      refine ⟨hc, host, i, j, hl, AList.mem_replace.2 (mem_of_lookup hlook), rfl, ?_, fun node hne => ?_⟩
      · rw [lookup_replace_eq, if_pos rfl, hlook, h32]
        rfl
      · rw [lookup_replace_eq, if_neg hne]
    · cases hnone

/-- One follower with one open connection; a read begins to select. -/
def oneFollower : Sys where
  handler :=
    { leaderConns := []
      followers := AList.insert ("a", 0, 0) ⟨0, "a"⟩ ∅
      loadBalancer := { followerHistory := AList.insert ("a", 0) 0 ∅ } }
  sels := [{ pc := .fLen }]
  mux := { conns := [{ addr := "a" }] }

theorem alone_oneFollower : oneFollower.Alone 0 := by
  intro u hu
  cases u with
  | call k =>
    cases k with
    | zero => exact absurd rfl hu
    | succ k => rfl
  | sync => rfl
  | reader c =>
    cases c with
    | zero => rfl
    | succ c => rfl

theorem poolInv_oneFollower {cfg : Config} (h : 0 < cfg.connPerRoomzinNode) : PoolInv cfg oneFollower.handler := by
  have hindex : ∀ host i, oneFollower.handler.HasIndex host i → i = 0 := by
    rintro host i (hin | ⟨j, c, hl⟩)
    · cases List.mem_singleton.1 hin
      rfl
    · cases List.mem_singleton.1 (mem_of_lookup hl)
      rfl
  refine ⟨fun host i i' hi hi' => (hindex host i hi).trans (hindex host i' hi').symm, fun node counter hl => ?_,
    fun key c hl => ?_, by decide⟩
  · cases List.mem_singleton.1 (mem_entries_iff.2 hl : (⟨node, counter⟩ : Sigma fun _ : String × Nat => Nat) ∈ _)
    exact h
  · cases List.mem_singleton.1 (mem_of_lookup hl)
    exact h

/-- Three followers, two connections for each. Of those filed five are there, and only the last one of "c" is open. -/
def threeFollowers : Sys where
  handler :=
    { leaderConns := [none, none]
      followers := AList.insert ("a", 0, 1) ⟨0, "a"⟩ (AList.insert ("b", 1, 0) ⟨1, "b"⟩
        (AList.insert ("b", 1, 1) ⟨2, "b"⟩ (AList.insert ("c", 2, 0) ⟨3, "c"⟩ (AList.insert ("c", 2, 1) ⟨4, "c"⟩ ∅))))
      loadBalancer :=
        { followerHistory := AList.insert ("a", 0) 1 (AList.insert ("b", 1) 1 (AList.insert ("c", 2) 0 ∅)) } }
  sels := [{ pc := .fLen }]
  mux :=
    { conns := [{ addr := "a", closed := true }, { addr := "b", closed := true }, { addr := "b", closed := true },
        { addr := "c", closed := true }, { addr := "c" }] }

theorem alone_threeFollowers : threeFollowers.Alone 0 := by
  intro u hu
  cases u with
  | call k =>
    cases k with
    | zero => exact absurd rfl hu
    | succ k => rfl
  | sync => rfl
  | reader c => match c with
    | 0 | 1 | 2 | 3 | 4 => rfl
    | c + 5 => rfl

theorem mem_threeFollowers {key : String × Nat × Nat} {c : Connection}
    (h : threeFollowers.handler.followers.lookup key = some c) :
    (key, c) ∈ [(("a", 0, 1), ⟨0, "a"⟩), (("b", 1, 0), ⟨1, "b"⟩), (("b", 1, 1), ⟨2, "b"⟩), (("c", 2, 0), ⟨3, "c"⟩),
      (("c", 2, 1), (⟨4, "c"⟩ : Connection))] := by
  have hmem : (key, c) ∈ threeFollowers.handler.followers.entries.map fun e => (e.1, e.2) :=
    List.mem_map.2 ⟨⟨key, c⟩, mem_entries_iff.2 h, rfl⟩
  exact hmem

theorem history_threeFollowers {node : String × Nat} {counter : Nat}
    (h : threeFollowers.handler.loadBalancer.followerHistory.lookup node = some counter) :
    (node, counter) ∈ [(("a", 0), 1), (("b", 1), 1), (("c", 2), 0)] := by
  have hmem : (node, counter) ∈ threeFollowers.handler.loadBalancer.followerHistory.entries.map fun e => (e.1, e.2) :=
    List.mem_map.2 ⟨⟨node, counter⟩, mem_entries_iff.2 h, rfl⟩
  exact hmem

theorem poolInv_threeFollowers : PoolInv { connPerRoomzinNode := 2 } threeFollowers.handler := by
  have hindex : ∀ host i, threeFollowers.handler.HasIndex host i → (host, i) ∈ [("a", 0), ("b", 1), ("c", 2)] := by
    rintro host i (hin | ⟨j, c, hl⟩)
    · exact hin
    · have hmem := mem_threeFollowers hl
      simp only [List.mem_cons, Prod.mk.injEq, List.not_mem_nil, or_false] at hmem ⊢
      tauto
  refine ⟨fun host i i' hi hi' => ?_, fun node counter hl => ?_, fun key c hl => ?_, by decide⟩
  · have h := hindex host i hi
    have h' := hindex host i' hi'
    simp only [List.mem_cons, Prod.mk.injEq, List.not_mem_nil, or_false] at h h'
    grind
  · have h := history_threeFollowers hl
    simp only [List.mem_cons, Prod.mk.injEq, List.not_mem_nil, or_false] at h
    show counter < 2
    omega
  · obtain ⟨host, i, j⟩ := key
    have h := mem_threeFollowers hl
    simp only [List.mem_cons, Prod.mk.injEq, List.not_mem_nil, or_false] at h
    show j < 2
    omega

/-- The read passes over "b", whose connections are closed, and gets the one that is open; the counter of "c" wraps
around and the others stay. -/
theorem follower_selection_sound_three : ∃ s', Solo { connPerRoomzinNode := 2 } 0 threeFollowers s' ∧
    s'.sels[0]? = some { pc := .ret (some ⟨4, "c"⟩) } ∧ s'.handler.followers.lookup ("c", 2, 1) = some ⟨4, "c"⟩ ∧
    s'.handler.loadBalancer.lastNodeId = 2 ∧ s'.handler.loadBalancer.followerHistory.lookup ("c", 2) = some 0 ∧
    s'.handler.loadBalancer.followerHistory.lookup ("a", 0) = some 1 ∧
    s'.handler.loadBalancer.followerHistory.lookup ("b", 1) = some 1 ∧
    (s'.handler.followers.lookup ("a", 0, 1) = some ⟨0, "a"⟩ ∨ s'.handler.followers.lookup ("a", 0, 1) = none) := by
  obtain ⟨s', r, hsolo, hk', -, hkeeps, hsub, -, -, -, hfound, hnone⟩ :=
    follower_selection_sound { connPerRoomzinNode := 2 } (by decide) threeFollowers 0 alone_threeFollowers rfl
      poolInv_threeFollowers
  have hopen : threeFollowers.closed 4 = false := rfl
  cases r with
  | none =>
    obtain ⟨hclosed, -⟩ := hnone rfl ("c", 2) (by decide) 2 1 ⟨4, "c"⟩ rfl
    cases hopen.symm.trans hclosed
  | some c =>
    obtain ⟨hc, host, i, j, hl, -, hlast, hcounter, hothers⟩ := hfound c rfl
    have hmem := mem_threeFollowers (hsub _ _ hl)
    simp only [List.mem_cons, Prod.mk.injEq, List.not_mem_nil, or_false] at hmem
    -- the connections of "a" and "b" and the first one of "c" are closed
    rcases hmem with ⟨-, rfl⟩ | ⟨-, rfl⟩ | ⟨-, rfl⟩ | ⟨-, rfl⟩ | ⟨⟨rfl, rfl, rfl⟩, rfl⟩
    · cases hc
    · cases hc
    · cases hc
    · cases hc
    · refine ⟨s', hsolo, hk', hl, hlast, hcounter, ?_, ?_, ?_⟩
      · exact (hothers ("a", 0) (by decide)).trans rfl
      · exact (hothers ("b", 1) (by decide)).trans rfl
      · exact (hkeeps ("a", 0, 1) ⟨0, "a"⟩ rfl).imp_right And.left

/-- With a number of connections of which a `u32` keeps only the 1, the counter wraps around at once. -/
theorem counter_truncated : PoolInv { connPerRoomzinNode := 2 ^ 32 + 1 } oneFollower.handler ∧
    oneFollower.Alone 0 ∧ oneFollower.sels[0]? = some { pc := .fLen } ∧
    ∃ s', Solo { connPerRoomzinNode := 2 ^ 32 + 1 } 0 oneFollower s' ∧
      s'.sels[0]? = some { pc := .ret (some ⟨0, "a"⟩) } ∧
      s'.handler.followers.lookup ("a", 0, 0) = some ⟨0, "a"⟩ ∧
      s'.handler.loadBalancer.followerHistory.lookup ("a", 0) = some 0 ∧ 0 ≠ (0 + 1) % (2 ^ 32 + 1) := by
  have hres : nextFollowerConn { connPerRoomzinNode := 2 ^ 32 + 1 } oneFollower.closed oneFollower.handler =
      (some ⟨0, "a"⟩, oneFollower.handler) := by
    rfl
  obtain ⟨s', hsolo, hk', hh', -⟩ := @Solo.nextFollowerConn { connPerRoomzinNode := 2 ^ 32 + 1 } _ _
    alone_oneFollower (by rfl)
  rw [hres] at hk' hh'
  refine ⟨poolInv_oneFollower (by decide), alone_oneFollower, rfl, s', hsolo, hk', ?_, ?_, by decide⟩
  · rw [hh']
    rfl
  · rw [hh']
    rfl

end RzBridge

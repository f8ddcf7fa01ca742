import RzBridge.Proofs.SysStep

/-!
# The leader slots

Slots and host are kept behind different synchronisation and `sync_leader` updates them in several
steps with awaits in between. `LeaderInv` says what holds at each of these points: the slots are
empty between clearing them and storing the new host, and from there on the stored host is the one
that is being synced.
-/

namespace RzBridge
open Machine

variable {cfg : Config} {s s' : Sys} {l : SysLabel}

/-- The leader being synced, once it is the stored host. -/
def SyncPc.leader : SyncPc → Option String
  | .leaderSnapshot host _ => some host
  | .leaderConnect host _ _ => some host
  | .leaderFill host _ _ _ _ => some host
  | .leaderRestore host _ _ => some host
  | _ => none

structure LeaderInv (cfg : Config) (s : Sys) : Prop where
  len : s.handler.leaderConns.length = cfg.connPerRoomzinNode
  slots : ∀ x, some x ∈ s.handler.leaderConns → s.handler.leaderHost = some x.addr ∧ s.Valid x
  cleared : ∀ host fs, s.sync.pc = .leaderStore host fs → ∀ x, some x ∉ s.handler.leaderConns
  current : ∀ host, s.sync.pc.leader = some host → s.handler.leaderHost = some host
  filling : ∀ host fs i required x, s.sync.pc = .leaderFill host fs i required x → x.addr = host ∧ s.Valid x

theorem LeaderInv.init (cfg : Config) : LeaderInv cfg (Sys.init cfg) := by
  refine ⟨?_, ?_, ?_, ?_, ?_⟩ <;> simp [Sys.init, Handler.new, SyncPc.leader, List.mem_replicate]

theorem LeaderInv.congr (h : LeaderInv cfg s) (hc : s'.handler.leaderConns = s.handler.leaderConns)
    (hh : s'.handler.leaderHost = s.handler.leaderHost) (hpc : s'.sync.pc = s.sync.pc)
    (hv : ∀ x, s.Valid x → s'.Valid x) : LeaderInv cfg s' := by
  refine ⟨by rw [hc]; exact h.len, ?_, ?_, ?_, ?_⟩
  · intro x hx
    rw [hc] at hx
    rw [hh]
    exact (h.slots x hx).imp_right (hv x)
  · rw [hc, hpc]
    exact h.cleared
  · rw [hh, hpc]
    exact h.current
  · intro host fs i required x hx
    rw [hpc] at hx
    exact (h.filling host fs i required x hx).imp_right (hv x)

theorem SelMove.leader {closed : Nat → Bool} {now : Nat} {h h' : Handler} {pc pc' : SelPc}
    (hb : SelMove cfg closed now h pc h' pc') :
    h'.leaderConns = h.leaderConns ∧ h'.leaderHost = h.leaderHost := by
  cases hb <;> exact ⟨rfl, rfl⟩

theorem LeaderInv.outside (h : LeaderInv cfg s) (hc : s'.handler.leaderConns = s.handler.leaderConns)
    (hh : s'.handler.leaderHost = s.handler.leaderHost) (hpc : s'.sync.pc.leader = none)
    (hst : ∀ host fs, s'.sync.pc ≠ .leaderStore host fs) (hv : ∀ x, s.Valid x → s'.Valid x) :
    LeaderInv cfg s' := by
  refine ⟨by rw [hc]; exact h.len, ?_, ?_, ?_, ?_⟩
  · intro x hx
    rw [hc] at hx
    rw [hh]
    exact (h.slots x hx).imp_right (hv x)
  · exact fun host fs hp => absurd hp (hst host fs)
  · simp [hpc]
  · intro host fs i required x hx
    rw [hx] at hpc
    cases hpc

theorem LeaderInv.sync {i : SyncInput} {handler : Handler} {pc' : SyncPc} (h : LeaderInv cfg s)
    (hb : SyncMove cfg s.closed s.mux.conns.length s.handler s.sync.pc i handler pc')
    (hv : ∀ x, s.Valid x → s'.Valid x) (hs : s'.handler = handler) (hp : s'.sync.pc = pc')
    (hm : s'.mux = Sys.syncMux s.mux s.sync.pc i) : LeaderInv cfg s' := by
  generalize hpc : s.sync.pc = pc at hb hm
  have slots := fun x hx => (h.slots x hx).imp_right (hv x)
  cases hb with
  | leaderSame host fs hh =>
    refine ⟨by rw [hs]; exact h.len, by rw [hs]; exact slots, by simp [hp], ?_, by simp [hp]⟩
    rw [hp, hs]
    rintro _ ⟨rfl⟩
    exact hh
  | leaderClear host fs =>
    refine ⟨by rw [hs]; simpa using h.len, ?_, ?_, by simp [hp, SyncPc.leader], by simp [hp]⟩
    · rw [hs]
      intro x hx
      simp at hx
    · rw [hs]
      intro host' fs' _ x hx
      simp at hx
  | leaderStore host fs =>
    refine ⟨by rw [hs]; exact h.len, ?_, by simp [hp], ?_, by simp [hp]⟩
    · rw [hs]
      intro x hx
      exact absurd hx (h.cleared host fs hpc x)
    · rw [hp, hs]
      rintro _ ⟨rfl⟩
      rfl
  | leaderSnapshot host fs required =>
    refine ⟨by rw [hs]; exact h.len, by rw [hs]; exact slots, by simp [hp], ?_, by simp [hp]⟩
    rw [hp, hs]
    rintro _ ⟨rfl⟩
    exact h.current host (by rw [hpc]; rfl)
  | leaderConnected host fs i required =>
    refine ⟨by rw [hs]; exact h.len, by rw [hs]; exact slots, by simp [hp], ?_, ?_⟩
    · rw [hp, hs]
      rintro _ ⟨rfl⟩
      exact h.current host (by rw [hpc]; rfl)
    · -- the new connection is the last one of the multiplexer
      rw [hp]
      rintro _ _ _ _ _ ⟨⟩
      refine ⟨rfl, { addr := host }, ?_, rfl⟩
      rw [hm]
      simp [Sys.syncMux]
  | leaderFailed host fs i required =>
    refine ⟨by rw [hs]; exact h.len, by rw [hs]; exact slots, by simp [hp], ?_, by simp [hp]⟩
    rw [hp, hs]
    rintro _ ⟨rfl⟩
    exact h.current host (by rw [hpc]; rfl)
  | leaderFill host fs i required conn =>
    have hcur := h.current host (by rw [hpc]; rfl)
    obtain ⟨haddr, hval⟩ := h.filling host fs i required conn hpc
    refine ⟨by rw [hs]; simpa using h.len, ?_, by simp [hp], ?_, by simp [hp]⟩
    · rw [hs]
      intro x hx
      rcases List.mem_or_eq_of_mem_set hx with hx | hx
      · exact slots x hx
      · cases hx
        exact ⟨hcur.trans (by rw [haddr]), hv _ hval⟩
    · rw [hp, hs]
      rintro _ ⟨rfl⟩
      exact hcur
  | leaderRestore host fs required =>
    have hcur := h.current host (by rw [hpc]; rfl)
    refine ⟨by rw [hs]; exact h.len, ?_, by simp [hp], ?_, by simp [hp]⟩
    · rw [hs]
      intro x hx
      have := slots x hx
      exact ⟨hcur.symm.trans this.1, this.2⟩
    · rw [hp, hs]
      rintro _ ⟨rfl⟩
      rfl
  | fastFollowers anyLeader _ hor =>
    rcases hor with rfl | rfl <;> exact h.outside (by rw [hs]) (by rw [hs]) (by rw [hp]; rfl) (by simp [hp]) hv
  | _ => exact h.outside (by rw [hs]) (by rw [hs]) (by rw [hp]; rfl) (by simp [hp]) hv

theorem LeaderInv.step (h : LeaderInv cfg s) (hs : s.step cfg l = some s') : LeaderInv cfg s' := by
  have hv : ∀ x, s.Valid x → s'.Valid x := fun x hx => hx.step hs
  cases Sys.Move.of_step hs with
  | sel k sel handler pc' hk hw hb => exact h.congr hb.leader.1 hb.leader.2 rfl hv
  | sync i handler pc' hw hb => exact h.sync hb hv rfl rfl rfl
  | _ => exact h.congr rfl rfl rfl hv

theorem LeaderInv.of_reach (h : Reach (Sys.step cfg) (Sys.init cfg) s) : LeaderInv cfg s :=
  h.induct (LeaderInv.init cfg) fun _ _ _ _ hi hs => hi.step hs

/-- In every reachable state, whatever point of `sync_leader` the sync task has reached, there are
`conn_per_roomzin_node` slots, every occupied one holds a connection to the stored leader host, and
the scan of `next_leader_conn` returns a connection to the host stored at that moment. -/
theorem writes_only_to_leader (h : Reach (Sys.step cfg) (Sys.init cfg) s) :
    s.handler.leaderConns.length = cfg.connPerRoomzinNode ∧
    (∀ x, some x ∈ s.handler.leaderConns → s.handler.leaderHost = some x.addr ∧
      ∃ conn, s.mux.conns[x.id]? = some conn ∧ conn.addr = x.addr) ∧
    ∀ (k : Nat) (sel sel' : Sel) (left next : Nat) (s' : Sys) (x : Connection), s.sels[k]? = some sel →
      sel.pc = .lScan left next → s.step cfg (.sel k) = some s' → s'.sels[k]? = some sel' →
      sel'.pc = .ret (some x) → s'.handler.leaderHost = some x.addr := by
  have hi := LeaderInv.of_reach h
  refine ⟨hi.len, hi.slots, ?_⟩
  intro k sel sel' left next s' x hk hpc hs hk' hpc'
  obtain ⟨handler, hb⟩ := Sys.found_of_step hs hk (by simp [hpc]) (by simp [hpc]) hk' hpc'
  obtain ⟨-, ⟨_, _, _, _, he, -⟩ | ⟨_, next', -, hslot⟩⟩ := hb.found
  · simp [hpc] at he
  · obtain ⟨handler', pc', hb', rfl⟩ := Sys.selMove_of_step hs hk (by simp [hpc]) (by simp [hpc])
    exact hb'.leader.2.trans (hi.slots x (List.mem_of_getElem? hslot)).1

/-- A write is about to scan the slots that a first sync filled. -/
theorem writes_only_to_leader_first : ∃ s,
    exec (Sys.step {}) (Sys.init {}) (Sys.leaderUp "a" [] ++
      (Sys.writeCall 0 (prependHeader 7 [1])).take 7) = some s ∧
    s.handler.leaderConns = [some ⟨0, "a"⟩] ∧ s.sels.map (·.pc) = [.lScan 1 0] ∧
    s.handler.leaderConns.length = 1 ∧ s.handler.leaderHost = some "a" ∧
    ∀ (sel sel' : Sel) (s' : Sys) (x : Connection), s.sels[0]? = some sel → sel.pc = .lScan 1 0 →
      s.step {} (.sel 0) = some s' → s'.sels[0]? = some sel' → sel'.pc = .ret (some x) →
      s'.handler.leaderHost = some x.addr := by
  obtain ⟨s, hs, hr, hp⟩ := Reach.of_any (Sys.step {}) (Sys.init {})
    (Sys.leaderUp "a" [] ++ (Sys.writeCall 0 (prependHeader 7 [1])).take 7)
    (fun s => decide (s.handler.leaderConns = [some ⟨0, "a"⟩] ∧ s.sels.map (·.pc) = [.lScan 1 0]))
      (by decide +kernel)
  obtain ⟨hc, hpc⟩ := of_decide_eq_true hp
  obtain ⟨hlen, hslots, hret⟩ := writes_only_to_leader hr
  exact ⟨s, hs, hc, hpc, hlen, (hslots ⟨0, "a"⟩ (by simp [hc])).1,
    fun sel sel' s' x hk hpc' hst => hret 0 sel sel' 1 0 s' x hk hpc' hst⟩

end RzBridge

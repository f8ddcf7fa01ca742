import RzBridge.Proofs.SysStep

/-!
# A selection that runs alone

While no other task holds a lock, the pieces of a selection follow each other without interference;
the state they lead to is that of the sequential `nextFollowerConn` or `nextLeaderConn`.
-/

namespace RzBridge
open Machine CircularWait

variable {cfg : Config} {s s' s'' : Sys} {k : Nat}

/-- No task but call `k` holds a lock. -/
def Sys.Alone (s : Sys) (k : Nat) : Prop := ∀ u, u ≠ .call k → s.holds u = []

/-- Call `k` takes `s` to `s'` in steps of its own. -/
def Solo (cfg : Config) (k : Nat) (s s' : Sys) : Prop :=
  ∃ ls : List SysLabel, (∀ l ∈ ls, l = .acquire (.call k) ∨ l = .sel k) ∧ exec (Sys.step cfg) s ls = some s'

theorem Solo.refl : Solo cfg k s s := ⟨[], by simp, rfl⟩

theorem Solo.trans (h : Solo cfg k s s') (h' : Solo cfg k s' s'') : Solo cfg k s s'' := by
  obtain ⟨ls, hls, he⟩ := h
  obtain ⟨ms, hms, he'⟩ := h'
  refine ⟨ls ++ ms, fun l hl => ?_, by rw [exec_append, he]; exact he'⟩
  rcases List.mem_append.1 hl with hl | hl
  · exact hls l hl
  · exact hms l hl

/-! ### What `cleanup` leaves alone -/

theorem Mux.cleanup_map_conns {β : Type*} (g : Conn → β) (hg : ∀ conn d, g { conn with demux := d } = g conn)
    (m : Mux) (c start age c' : Nat) : (demuxCleanup m c start age).conns[c']?.map g = m.conns[c']?.map g := by
  cases h : (demuxCleanup m c start age).conns[c']? with
  | some conn' =>
    obtain ⟨conn, d, hc, rfl, -⟩ := cleanup_conn_back h
    simp [hc, hg]
  | none =>
    rw [List.getElem?_eq_none_iff, (sameSize_cleanup m c start age).1, ← List.getElem?_eq_none_iff] at h
    simp [h]

theorem Mux.cleanup_map_calls {β : Type*} (g : Call → β) (hg : ∀ call s, g { call with slot := s } = g call)
    (m : Mux) (c start age k : Nat) : (demuxCleanup m c start age).calls[k]?.map g = m.calls[k]?.map g := by
  cases h : (demuxCleanup m c start age).calls[k]? with
  | some call' =>
    obtain ⟨call, hk, hf⟩ := cleanup_call_back h
    cases hf with
    | refl => simp [hk]
    | slot s _ => simp [hk, hg]
  | none =>
    rw [List.getElem?_eq_none_iff, (sameSize_cleanup m c start age).2, ← List.getElem?_eq_none_iff] at h
    simp [h]

theorem Sys.selMux_map_conns {β : Type*} (g : Conn → β) (hg : ∀ conn d, g { conn with demux := d } = g conn)
    (m : Mux) (pc : SelPc) (c : Nat) : (selMux cfg m pc).conns[c]?.map g = m.conns[c]?.map g := by
  cases pc with
  | fClean left node j tried x start => exact Mux.cleanup_map_conns g hg m x.id start cfg.cleanupAge c
  | lClean left next x start => exact Mux.cleanup_map_conns g hg m x.id start cfg.cleanupAge c
  | _ => rfl

theorem Sys.selMux_map_calls {β : Type*} (g : Call → β) (hg : ∀ call s, g { call with slot := s } = g call)
    (m : Mux) (pc : SelPc) (k : Nat) : (selMux cfg m pc).calls[k]?.map g = m.calls[k]?.map g := by
  cases pc with
  | fClean left node j tried x start => exact Mux.cleanup_map_calls g hg m x.id start cfg.cleanupAge k
  | lClean left next x start => exact Mux.cleanup_map_calls g hg m x.id start cfg.cleanupAge k
  | _ => rfl

theorem Sys.holds_reader (s : Sys) (c : Nat) :
    s.holds (.reader c) = ((s.mux.conns[c]?).map (·.reader)).elim [] (·.holds c) := by
  cases h : s.mux.conns[c]? <;> simp [Sys.holds, h]

theorem Sys.holds_call (s : Sys) (k : Nat) : s.holds (.call k) =
    (s.sels[k]?).elim [] Sel.holds ++ ((s.mux.calls[k]?).map (·.pc)).elim [] CallPc.holds := by
  cases h : s.mux.calls[k]? <;> simp [Sys.holds, h]

theorem Sys.closed_eq (s : Sys) (c : Nat) : s.closed c = ((s.mux.conns[c]?).map (·.closed)).all id := by
  cases h : s.mux.conns[c]? <;> simp [Sys.closed, h]

/-! ### One piece -/

theorem Sys.Alone.free (h : s.Alone k) (lm : Lock × Mode) : s.free (.call k) lm = true := by
  simp only [Sys.free, List.all_eq_true, Bool.or_eq_true, decide_eq_true_eq]
  intro u _
  by_cases hu : u = .call k
  · exact .inl hu
  · simp [h u hu]

theorem Solo.piece {pc pc' : SelPc} {h' : Handler} (hal : s.Alone k) (hk : s.sels[k]? = some { pc := pc })
    (hb : selBody cfg s.closed s.mux.now s.handler pc = some (h', pc')) :
    ∃ s', Solo cfg k s s' ∧ s'.Alone k ∧ s'.handler = h' ∧ s'.sels[k]? = some { pc := pc' } ∧
      s'.closed = s.closed := by
  have hklt := (List.getElem?_eq_some_iff.1 hk).1
  have hidle : pc ≠ .idle := by
    rintro rfl
    cases hb
  have hret : ∀ r, pc ≠ .ret r := by
    rintro r rfl
    cases hb
  -- the piece proper, once its lock is granted (or if it needs none)
  have body : ∀ (t : Sys) (held : Bool), t.handler = s.handler → t.mux = s.mux → t.sync = s.sync →
      t.sels = s.sels.set k { pc := pc, held := held } → (held = true ∨ pc.awaits = none) →
      ∃ s', t.step cfg (.sel k) = some s' ∧ s'.Alone k ∧ s'.handler = h' ∧ s'.sels[k]? = some { pc := pc' } ∧
        s'.closed = s.closed := by
    intro t held hh hm hsync hsels hheld
    have htk : t.sels[k]? = some { pc := pc, held := held } := by rw [hsels, List.getElem?_set_self hklt]
    have hw : Sel.waits { pc := pc, held := held } = none := by
      rcases hheld with rfl | hn
      · rfl
      · simp [Sel.waits, hn]
    have hcl : t.closed = s.closed := by
      funext c
      rw [Sys.closed_eq, Sys.closed_eq, hm]
    have hb' : selBody cfg t.closed t.mux.now t.handler pc = some (h', pc') := by rw [hcl, hm, hh, hb]
    refine ⟨{ t with handler := h', mux := Sys.selMux cfg t.mux pc, sels := t.sels.set k { pc := pc' } },
      ?_, ?_, rfl, ?_, ?_⟩
    · simp only [Sys.step, Sys.selStep, htk, Option.bind_eq_bind, Option.bind_some, hw, Option.isNone_none]
      cases pc with
      | idle => exact absurd rfl hidle
      | ret r => exact absurd rfl (hret r)
      | _ => simp [hb']
    · intro u hu
      have hs := hal u hu
      cases u with
      | sync =>
        rw [← hs]
        simp [Sys.holds, hsync]
      | reader c =>
        rw [← hs, Sys.holds_reader, Sys.holds_reader,
          Sys.selMux_map_conns (·.reader) (fun _ _ => rfl) t.mux pc c, hm]
      | call k' =>
        have hne : k ≠ k' := fun he => hu (by rw [he])
        rw [← hs, Sys.holds_call, Sys.holds_call,
          Sys.selMux_map_calls (·.pc) (fun _ _ => rfl) t.mux pc k', hm, hsels]
        simp only [List.set_set, List.getElem?_set_ne hne]
    · rw [hsels]
      simp [hklt]
    · funext c
      rw [Sys.closed_eq, Sys.closed_eq, Sys.selMux_map_conns (·.closed) (fun _ _ => rfl) t.mux pc c, hm]
  cases haw : pc.awaits with
  | none =>
    have hset : s.sels = s.sels.set k { pc := pc } := by
      rw [← (List.getElem?_eq_some_iff.1 hk).2, List.set_getElem_self]
    obtain ⟨s', hs', hrest⟩ := body s false rfl rfl rfl hset (.inr haw)
    exact ⟨s', ⟨[.sel k], by simp, by simp [exec_cons, hs']⟩, hrest⟩
  | some lm =>
    -- the lock is granted first
    set t : Sys := { s with sels := s.sels.set k { pc := pc, held := true } } with ht
    obtain ⟨s', hs', hrest⟩ := body t true rfl rfl rfl rfl (.inl rfl)
    refine ⟨s', ⟨[.acquire (.call k), .sel k], by simp, ?_⟩, hrest⟩
    have hw : Sel.waits { pc := pc } = some lm := by simp [Sel.waits, haw]
    have hacq : s.step cfg (.acquire (.call k)) = some t := by
      simp [Sys.step, Sys.acquire, Sys.waits, hk, hw, hal.free lm, ht]
    rw [exec_cons, hacq, Option.bind_some, exec_cons, hs']
    rfl

/-! ### The whole selection -/

theorem Solo.scan {left : Nat} {node : String × Nat} (r : Nat) {j tried : Nat}
    (hr : tried + r = cfg.connPerRoomzinNode) (hal : s.Alone k)
    (hk : s.sels[k]? = some { pc := .fScan left node j tried }) :
    ∃ s', Solo cfg k s s' ∧ s'.Alone k ∧ s'.closed = s.closed ∧
      match scanFollower cfg s.closed node r j s.handler.followers with
      | (some (c, j'), followers) => s'.sels[k]? = some { pc := .ret (some c) } ∧
          s'.handler = { s.handler with followers, loadBalancer := s.handler.loadBalancer.chosen cfg node j' }
      | (none, followers) => s'.sels[k]? = some { pc := fNext left } ∧
          s'.handler = { s.handler with followers } := by
  induction r generalizing s j tried with
  | zero =>
    have hb : selBody cfg s.closed s.mux.now s.handler
      (.fScan left node j tried) = some (s.handler, fNext left) := by
      simp only [selBody]
      rw [if_neg (by omega)]
    obtain ⟨s', hsolo, hal', hh, hk', hcl⟩ := Solo.piece hal hk hb
    exact ⟨s', hsolo, hal', hcl, hk', hh⟩
  | succ r ih =>
    have hlt : tried < cfg.connPerRoomzinNode := by omega
    cases hl : s.handler.followers.lookup (node.1, node.2, j) with
    | none =>
      have hb : selBody cfg s.closed s.mux.now s.handler (.fScan left node j tried) =
          some (s.handler, .fScan left node (wrapIdx cfg.connPerNode32 (j + 1)) (tried + 1)) := by
        simp only [selBody, if_pos hlt, hl]
      obtain ⟨s₁, hsolo, hal₁, hh, hk₁, hcl⟩ := Solo.piece hal hk hb
      obtain ⟨s', hsolo', hal', hcl', hres⟩ := ih (by omega) hal₁ hk₁
      rw [hcl, hh] at hres
      refine ⟨s', hsolo.trans hsolo', hal', hcl'.trans hcl, ?_⟩
      simp only [scanFollower, hl]
      exact hres
    | some c =>
      cases hc : s.closed c.id with
      | false =>
        have hb : selBody cfg s.closed s.mux.now s.handler (.fScan left node j tried) =
            some ({ s.handler with loadBalancer := s.handler.loadBalancer.chosen cfg node j },
              .ret (some c)) := by
          simp only [selBody, if_pos hlt, hl, hc, Bool.false_eq_true, if_false]
        obtain ⟨s', hsolo, hal', hh, hk', hcl⟩ := Solo.piece hal hk hb
        refine ⟨s', hsolo, hal', hcl, ?_⟩
        simp only [scanFollower, hl, hc, Bool.false_eq_true, if_false]
        exact ⟨hk', hh⟩
      | true =>
        -- two pieces: the closed connection is met, then cleaned up and taken out
        have hb : selBody cfg s.closed s.mux.now s.handler (.fScan left node j tried) =
            some (s.handler, .fClean left node j tried c s.mux.now) := by
          simp only [selBody, if_pos hlt, hl, hc, if_true]
        obtain ⟨s₁, hsolo₁, hal₁, hh₁, hk₁, hcl₁⟩ := Solo.piece hal hk hb
        obtain ⟨s₂, hsolo₂, hal₂, hh₂, hk₂, hcl₂⟩ := Solo.piece hal₁ hk₁ rfl
        obtain ⟨s', hsolo', hal', hcl', hres⟩ := ih (by omega) hal₂ hk₂
        rw [hcl₂, hcl₁, hh₂, hh₁] at hres
        refine ⟨s', (hsolo₁.trans hsolo₂).trans hsolo', hal', (hcl'.trans hcl₂).trans hcl₁, ?_⟩
        simp only [scanFollower, hl, hc, if_true]
        exact hres

theorem Solo.loop (left : Nat) (hal : s.Alone k) (hk : s.sels[k]? = some { pc := fNext left }) :
    ∃ s', Solo cfg k s s' ∧ s'.Alone k ∧
      s'.sels[k]? = some { pc := .ret (followerLoop cfg s.closed left s.handler).1 } ∧
      s'.handler = (followerLoop cfg s.closed left s.handler).2 ∧ s'.closed = s.closed := by
  induction left generalizing s with
  | zero => exact ⟨s, .refl, hal, hk, rfl, rfl⟩
  | succ left ih =>
    rw [fNext, if_neg (Nat.succ_ne_zero left)] at hk
    cases ht : s.handler.loadBalancer.target s.handler.loadBalancer.nextNode with
    | none =>
      have ht' : ({ s.handler.loadBalancer with lastNodeId := s.handler.loadBalancer.nextNode } : LoadBalancer).target
          s.handler.loadBalancer.nextNode = none := ht
      obtain ⟨s₁, hsolo, hal₁, hh, hk₁, hcl⟩ := Solo.piece hal hk (by simp only [selBody, ht']; rfl)
      obtain ⟨s', hsolo', hal', hk', hh', hcl'⟩ := ih hal₁ hk₁
      rw [hcl, hh] at hk' hh'
      simp only [followerLoop, ht']
      exact ⟨s', hsolo.trans hsolo', hal', hk', hh', hcl'.trans hcl⟩
    | some target =>
      obtain ⟨node, counter⟩ := target
      have ht' : ({ s.handler.loadBalancer with lastNodeId := s.handler.loadBalancer.nextNode } : LoadBalancer).target
          s.handler.loadBalancer.nextNode = some (node, counter) := ht
      obtain ⟨s₁, hsolo₁, hal₁, hh₁, hk₁, hcl₁⟩ := Solo.piece hal hk (by simp only [selBody, ht']; rfl)
      obtain ⟨s₂, hsolo₂, hal₂, hh₂, hk₂, hcl₂⟩ := Solo.piece hal₁ hk₁ rfl
      obtain ⟨s₃, hsolo₃, hal₃, hcl₃, hres⟩ := Solo.scan cfg.connPerRoomzinNode (Nat.zero_add _) hal₂ hk₂
      have hsolo := (hsolo₁.trans hsolo₂).trans hsolo₃
      rw [hcl₂, hcl₁, hh₂, hh₁] at hres
      simp only [followerLoop, ht']
      split at hres
      next c j' followers hscan =>
        simp only [hscan]
        exact ⟨s₃, hsolo, hal₃, hres.1, hres.2, (hcl₃.trans hcl₂).trans hcl₁⟩
      next followers hscan =>
        obtain ⟨s', hsolo', hal', hk', hh', hcl'⟩ := ih hal₃ hres.1
        rw [hcl₃, hcl₂, hcl₁, hres.2] at hk' hh'
        simp only [hscan]
        exact ⟨s', hsolo.trans hsolo', hal', hk', hh', ((hcl'.trans hcl₃).trans hcl₂).trans hcl₁⟩

/-- A read's selection that is not interfered with computes `nextFollowerConn`. -/
theorem Solo.nextFollowerConn (hal : s.Alone k) (hk : s.sels[k]? = some { pc := .fLen }) :
    ∃ s', Solo cfg k s s' ∧ s'.sels[k]? = some { pc := .ret (nextFollowerConn cfg s.closed s.handler).1 } ∧
      s'.handler = (nextFollowerConn cfg s.closed s.handler).2 ∧ s'.closed = s.closed := by
  obtain ⟨s₁, hsolo, hal₁, hh, hk₁, hcl⟩ := Solo.piece hal hk rfl
  obtain ⟨s', hsolo', -, hk', hh', hcl'⟩ := Solo.loop _ hal₁ hk₁
  rw [hcl, hh] at hk' hh'
  exact ⟨s', hsolo.trans hsolo', hk', hh', hcl'.trans hcl⟩

theorem Solo.scanLeader (left : Nat) {next : Nat} (hal : s.Alone k)
    (hk : s.sels[k]? = some { pc := .lScan left next }) :
    ∃ s', Solo cfg k s s' ∧
      match scanLeader cfg s.closed s.handler.leaderConns left next with
      | some (i, c) => s'.sels[k]? = some { pc := .ret (some c) } ∧
          s'.handler =
            { s.handler with loadBalancer := { s.handler.loadBalancer with lastLeaderId := i % 2 ^ 32 } }
      | none => s'.sels[k]? = some { pc := .ret none } ∧ s'.handler = s.handler := by
  induction left generalizing s next with
  | zero =>
    obtain ⟨s', hsolo, -, hh, hk', -⟩ := Solo.piece hal hk rfl
    exact ⟨s', hsolo, hk', hh⟩
  | succ left ih =>
    -- an empty slot and one past the end are passed over alike
    have pass : (∀ c, s.handler.leaderConns[next]? ≠ some (some c)) →
        selBody cfg s.closed s.mux.now s.handler (.lScan (left + 1) next) =
            some (s.handler, .lScan left (wrapIdx cfg.connPerRoomzinNode (next + 1))) ∧
          RzBridge.scanLeader cfg s.closed s.handler.leaderConns (left + 1) next =
            RzBridge.scanLeader cfg s.closed s.handler.leaderConns left
              (wrapIdx cfg.connPerRoomzinNode (next + 1)) := by
      intro hno
      rcases hslot : s.handler.leaderConns[next]? with _ | _ | c
      · exact ⟨by simp only [selBody, hslot], by simp only [RzBridge.scanLeader, hslot]⟩
      · exact ⟨by simp only [selBody, hslot], by simp only [RzBridge.scanLeader, hslot]⟩
      · exact absurd hslot (hno c)
    by_cases hno : ∀ c, s.handler.leaderConns[next]? ≠ some (some c)
    · obtain ⟨hb, hscan⟩ := pass hno
      obtain ⟨s₁, hsolo₁, hal₁, hh₁, hk₁, hcl₁⟩ := Solo.piece hal hk hb
      obtain ⟨s', hsolo', hres⟩ := ih hal₁ hk₁
      rw [hcl₁, hh₁] at hres
      rw [hscan]
      exact ⟨s', hsolo₁.trans hsolo', hres⟩
    push Not at hno
    obtain ⟨c, hc⟩ := hno
    cases hcl : s.closed c.id with
    | true =>
      have hb : selBody cfg s.closed s.mux.now s.handler (.lScan (left + 1) next) =
          some (s.handler, .lClean left next c s.mux.now) := by
        simp only [selBody, hc, hcl, if_true]
      obtain ⟨s₁, hsolo₁, hal₁, hh₁, hk₁, hcl₁⟩ := Solo.piece hal hk hb
      obtain ⟨s₂, hsolo₂, hal₂, hh₂, hk₂, hcl₂⟩ := Solo.piece hal₁ hk₁ rfl
      obtain ⟨s', hsolo', hres⟩ := ih hal₂ hk₂
      rw [hcl₂, hcl₁, hh₂, hh₁] at hres
      simp only [RzBridge.scanLeader, hc, hcl, if_true]
      exact ⟨s', (hsolo₁.trans hsolo₂).trans hsolo', hres⟩
    | false =>
      have hb : selBody cfg s.closed s.mux.now s.handler (.lScan (left + 1) next) =
          some ({ s.handler with loadBalancer := { s.handler.loadBalancer with lastLeaderId := next % 2 ^ 32 } },
            .ret (some c)) := by
        simp only [selBody, hc, hcl, Bool.false_eq_true, if_false]
      obtain ⟨s', hsolo, -, hh, hk', -⟩ := Solo.piece hal hk hb
      simp only [RzBridge.scanLeader, hc, hcl, Bool.false_eq_true, if_false]
      exact ⟨s', hsolo, hk', hh⟩

/-- A write's selection that is not interfered with computes `nextLeaderConn`. -/
theorem Solo.nextLeaderConn (hal : s.Alone k) (hk : s.sels[k]? = some { pc := .lLock }) :
    ∃ s', Solo cfg k s s' ∧ s'.sels[k]? = some { pc := .ret (nextLeaderConn cfg s.closed s.handler).1 } ∧
      s'.handler = (nextLeaderConn cfg s.closed s.handler).2 := by
  obtain ⟨s₁, hsolo₁, hal₁, hh₁, hk₁, hcl₁⟩ := Solo.piece hal hk rfl
  unfold RzBridge.nextLeaderConn
  dsimp only
  by_cases hempty : s.handler.leaderConns = [] ∨ ¬ s.handler.leaderConns.any (·.isSome) = true
  · obtain ⟨s', hsolo, -, hh, hk', -⟩ := Solo.piece hal₁ hk₁ (by simp only [selBody, hh₁, if_pos hempty]; rfl)
    rw [if_pos hempty]
    exact ⟨s', hsolo₁.trans hsolo, hk', hh⟩
  · obtain ⟨s₂, hsolo₂, hal₂, hh₂, hk₂, hcl₂⟩ :=
      Solo.piece hal₁ hk₁ (by simp only [selBody, hh₁, if_neg hempty]; rfl)
    obtain ⟨s', hsolo', hres⟩ := Solo.scanLeader _ hal₂ hk₂
    rw [hcl₂, hcl₁, hh₂] at hres
    rw [if_neg hempty]
    refine ⟨s', (hsolo₁.trans hsolo₂).trans hsolo', ?_⟩
    generalize RzBridge.scanLeader cfg s.closed s.handler.leaderConns
      (min cfg.connPerRoomzinNode s.handler.leaderConns.length) _ = found at hres ⊢
    cases found with
    | none => exact hres
    | some found => exact hres

end RzBridge

import RzBridge.Lib.Assoc
import RzBridge.Proofs.Solo

/-!
# Waiters nobody will answer

A call that awaits its response is answered by the read loop of its connection or, once the
connection is closed, by the `cleanup` that a selection runs on the connections of the pools. A
connection whose read loop is over and which is in no pool gets neither: a call awaiting on it is an
orphan. The read loop does not drop the senders it leaves in the map, and the pools drop closed
connections without looking at them, so this happens in the three ways that `Sys.KeepsWaiters` rules
out.
-/

namespace RzBridge
open Machine Assoc

variable {cfg : Config} {s s' : Sys} {l : SysLabel}

/-! ### What `cleanup` takes out -/

namespace Mux

theorem expire_lookup {m : Mux} {c : Nat} {conn : Conn} (id : UInt32) (hc : m.conns[c]? = some conn) :
    ∃ conn', (expire m c id).conns[c]? = some conn' ∧
      ∀ id' e, conn'.demux.lookup id' = some e ↔ id' ≠ id ∧ conn.demux.lookup id' = some e := by
  cases hl : conn.demux.lookup id with
  | none =>
    refine ⟨conn, by simp only [expire, hc, hl], fun id' e => ⟨fun h => ⟨?_, h⟩, And.right⟩⟩
    rintro rfl
    rw [hl] at h
    cases h
  | some e =>
    refine ⟨{ conn with demux := conn.demux.erase id }, ?_, fun id' e' => lookup_erase_iff⟩
    simp only [expire, hc, hl]
    exact setConn_self hc

theorem foldl_expire_lookup {m : Mux} {c : Nat} {conn : Conn} (ids : List UInt32)
    (hc : m.conns[c]? = some conn) :
    ∃ conn', (ids.foldl (expire · c) m).conns[c]? = some conn' ∧
      ∀ id e, conn'.demux.lookup id = some e ↔ id ∉ ids ∧ conn.demux.lookup id = some e := by
  induction ids generalizing m conn with
  | nil => exact ⟨conn, hc, by simp⟩
  | cons id ids ih =>
    obtain ⟨conn₁, hc₁, h₁⟩ := expire_lookup id hc
    obtain ⟨conn', hc', h'⟩ := ih hc₁
    refine ⟨conn', hc', fun id' e => ?_⟩
    rw [h', h₁, List.mem_cons, not_or, and_left_comm, and_assoc]

theorem mem_timedOut {demux : DemuxMap} {start age : Nat} {id : UInt32} {e : Tok × Nat}
    (h : demux.lookup id = some e) : id ∈ timedOut demux start age ↔ e.2 + age < start := by
  simp only [timedOut, List.mem_map, List.mem_filter, decide_eq_true_eq]
  constructor
  · rintro ⟨⟨id', e'⟩, ⟨hm, hlt⟩, rfl⟩
    rw [mem_entries_iff.1 hm] at h
    exact Option.some.inj h ▸ hlt
  · exact fun hlt => ⟨⟨id, e⟩, ⟨mem_entries_iff.2 h, hlt⟩, rfl⟩

/-- `cleanup` takes out the entries that are too old and no others. -/
theorem cleanup_lookup {m : Mux} {c : Nat} {conn : Conn} (start age : Nat) (hc : m.conns[c]? = some conn) :
    ∃ conn', (demuxCleanup m c start age).conns[c]? = some conn' ∧
      ∀ id e, conn'.demux.lookup id = some e ↔ ¬ e.2 + age < start ∧ conn.demux.lookup id = some e := by
  obtain ⟨conn', hc', h⟩ := foldl_expire_lookup (timedOut conn.demux start age) hc
  refine ⟨conn', by simpa only [demuxCleanup, hc] using hc', fun id e => ?_⟩
  rw [h]
  exact and_congr_left fun hl => not_congr (mem_timedOut hl)

/-! ### Awaited entries -/

/-- The map of connection `c` holds, under `id` and since `t`, the sender of a call that awaits it. -/
def AwaitedAt (m : Mux) (c : Nat) (id : UInt32) (t : Nat) : Prop :=
  ∃ (k : Nat) (call : Call) (conn : Conn), m.calls[k]? = some call ∧ (∃ id', call.pc = .await c id') ∧
    m.conns[c]? = some conn ∧ conn.demux.lookup id = some (⟨k, call.attempts⟩, t)

/-- The read loop of connection `c` is over. -/
def Terminated (m : Mux) (c : Nat) : Prop := ∃ conn, m.conns[c]? = some conn ∧ conn.reader = .ended

/-- Call `k` is about to queue its frame on connection `c`, its sender registered there. -/
def Submitting (m : Mux) (k c : Nat) : Prop :=
  ∃ (call : Call) (conn : Conn) (id id' : UInt32) (t : Nat), m.calls[k]? = some call ∧ call.pc = .send c id ∧
    m.conns[c]? = some conn ∧ conn.writer ≠ .ended ∧ conn.demux.lookup id' = some (⟨k, call.attempts⟩, t)

end Mux

/-! ### How the multiplexer's steps change them -/

variable {m m' : Mux} {lm : MuxLabel} {c k : Nat}

theorem CallStep.await {call call' : Call} {id : UInt32} (h : CallStep m lm k call call')
    (hp : call'.pc = .await c id) : call'.attempts = call.attempts ∧
      (call.pc = .await c id ∨ lm = .send k ∧ call.pc = .send c id) := by
  -- a failed attempt is over or asleep
  have retried : ∀ e, (call.retry e).pc ≠ .await c id := by
    intro e
    simp only [Call.retry]
    split <;> simp
  cases h with
  | refl => exact ⟨rfl, .inl hp⟩
  | slot s _ => exact ⟨rfl, .inl hp⟩
  | send c' id' hl hp' =>
    cases hp
    exact ⟨rfl, .inr ⟨hl, hp'⟩⟩
  | noConn r _ _ => exact absurd hp (retried _)
  | refused c' id' _ _ => exact absurd hp (retried _)
  | dropped c' id' _ _ => exact absurd hp (retried _)
  | _ => cases hp

theorem ConnStep.lookup {conn conn' : Conn} {id : UInt32} {e : Tok × Nat} (h : ConnStep m lm c conn conn')
    (hl : conn'.demux.lookup id = some e) : conn.demux.lookup id = some e ∨
      ∃ (k : Nat) (call : Call) (id' : UInt32) (t : Nat), m.calls[k]? = some call ∧
        call.pc = .store c id' t true ∧
        e.1 = ⟨k, call.attempts⟩ := by
  cases h with
  | store k call id' t _ hk hp =>
    rcases lookup_insert_iff.1 hl with ⟨rfl, rfl⟩ | ⟨-, hl⟩
    · exact .inr ⟨k, call, id, t, hk, hp, rfl⟩
    · exact .inl hl
  | cleanup start d _ hd => exact .inl (hd id e hl)
  | free _ _ _ => simp at hl
  | loadRemove hdr f tok t _ _ => exact .inl (lookup_erase_iff.1 hl).2
  | _ => exact .inl hl

theorem ConnStep.stays_ended {conn conn' : Conn} (h : ConnStep m lm c conn conn')
    (hr : conn.reader = .ended) :
    conn'.reader = .ended := by
  cases h with
  | readStop buf hr₀ => rcases hr₀ with hr₀ | ⟨_, _, hr₀⟩ <;> simp [hr] at hr₀
  | readerStop _ hr₀ => simp [hr] at hr₀
  | drain hdr f rest hr₀ => simp [hr] at hr₀
  | lockLoad hdr f hr₀ => simp [hr] at hr₀
  | loadRemove hdr f tok t hr₀ => simp [hr] at hr₀
  | deliver hdr f tok closed reader hr₀ => simp [hr] at hr₀
  | _ => exact hr

theorem Mux.AwaitedAt.of_step {id : UInt32} {t : Nat} (h : m'.AwaitedAt c id t)
    (hs : m.step cfg lm = some m') :
    m.AwaitedAt c id t ∨ ∃ k, lm = .send k ∧ m.Submitting k c := by
  obtain ⟨k, call', conn', hk', ⟨id', hp'⟩, hc', hl⟩ := h
  obtain ⟨call, hk, hcall⟩ | ⟨-, w, f, -, rfl⟩ := Mux.step_call hs hk'
  · obtain ⟨conn, hc, hconn⟩ | ⟨-, host, -, rfl⟩ := Mux.step_conn hs hc'
    · obtain ⟨hatt, hpc⟩ := hcall.await hp'
      rw [hatt] at hl
      have hl : conn.demux.lookup id = some (⟨k, call.attempts⟩, t) := by
        refine (hconn.lookup hl).resolve_right ?_
        -- the call that stores its sender in this step does not await it yet
        rintro ⟨k₀, call₀, id₀, t₀, hk₀, hp₀, he⟩
        simp only [Tok.mk.injEq] at he
        obtain ⟨rfl, -⟩ := he
        rw [hk] at hk₀
        cases Option.some.inj hk₀
        rcases hpc with hpc | ⟨-, hpc⟩ <;> rw [hpc] at hp₀ <;> cases hp₀
      rcases hpc with hpc | ⟨rfl, hpc⟩
      · exact .inl ⟨k, call, conn, hk, ⟨id', hpc⟩, hc, hl⟩
      · obtain ⟨call₀, c₀, conn₀, id₀, hk₀, hp₀, hc₀, ⟨-, rfl⟩ | ⟨hw, -⟩⟩ := Mux.callSend_some hs
        · rw [Mux.setCall_calls _ (Mux.lt_of_call hk₀), if_pos rfl] at hk'
          rw [← Option.some.inj hk', Call.retry] at hp'
          dsimp only at hp'
          split at hp' <;> cases hp'
        · rw [hk] at hk₀
          cases Option.some.inj hk₀
          rw [hpc] at hp₀
          cases hp₀
          rw [hc] at hc₀
          cases Option.some.inj hc₀
          exact .inr ⟨k, rfl, call, conn, id', id, t, hk, hpc, hc, hw, hl⟩
    · simp at hl
  · cases hp'

theorem Mux.Submitting.awaited {k : Nat} (h : m.Submitting k c) (hs : m.step cfg (.send k) = some m') :
    ∃ id t, m'.AwaitedAt c id t := by
  obtain ⟨call, conn, id, id', t, hk, hp, hc, hw, hl⟩ := h
  obtain ⟨call₀, c₀, conn₀, id₀, hk₀, hp₀, hc₀, ⟨hw', -⟩ | ⟨-, rfl⟩⟩ :=
    Mux.callSend_some hs <;> rw [hk] at hk₀ <;>
    cases Option.some.inj hk₀ <;> rw [hp] at hp₀ <;> cases hp₀ <;> rw [hc] at hc₀ <;> cases Option.some.inj hc₀
  · exact absurd hw' hw
  · refine ⟨id', t, k, { call with pc := .await c id }, _, ?_, ⟨id, rfl⟩,
      Mux.setConn_self hc, ?_⟩
    · rw [Mux.setCall_calls _ (by simpa using Mux.lt_of_call hk), if_pos rfl]
    · exact hl

theorem Mux.AwaitedAt.readerStop {id : UInt32} {t : Nat} (h : m.AwaitedAt c id t)
    (hs : m.step cfg (.readerStop c) = some m') : m'.AwaitedAt c id t := by
  obtain ⟨k, call, conn, hk, hp, hc, hl⟩ := h
  obtain ⟨conn₀, hc₀, -, rfl⟩ := Mux.readerStop_some hs
  rw [hc] at hc₀
  cases Option.some.inj hc₀
  refine ⟨k, call, _, hk, hp, Mux.setConn_self hc, ?_⟩
  exact hl

theorem Mux.awaitedAt_cleanup {id : UInt32} {t c' start age : Nat} :
    (demuxCleanup m c' start age).AwaitedAt c id t ↔
    m.AwaitedAt c id t ∧ (c = c' → ¬ t + age < start) := by
  have calls := fun k => Mux.cleanup_map_calls (fun call => (call.pc, call.attempts))
    (fun _ _ => rfl) m c' start age k
  -- the map of connection `c` afterwards
  have map : ∀ e : Tok × Nat, (∃ conn', (demuxCleanup m c' start age).conns[c]? = some conn' ∧
      conn'.demux.lookup id = some e) ↔
      (∃ conn, m.conns[c]? = some conn ∧ conn.demux.lookup id = some e) ∧ (c = c' → ¬ e.2 + age < start) := by
    intro e
    by_cases hcc : c = c'
    · subst hcc
      cases hc : m.conns[c]? with
      | none =>
        have : demuxCleanup m c start age = m := by simp only [demuxCleanup, hc]
        simp [this, hc]
      | some conn =>
        obtain ⟨conn', hc', h⟩ := Mux.cleanup_lookup start age hc
        simp [hc', h, and_comm]
    · rw [Mux.cleanup_conn_ne hcc]
      simp [hcc]
  constructor
  · rintro ⟨k, call', conn', hk', ⟨id', hp'⟩, hc', hl⟩
    have hk := calls k
    rw [hk', Option.map_some, eq_comm, Option.map_eq_some_iff] at hk
    obtain ⟨call, hk, he⟩ := hk
    simp only [Prod.mk.injEq] at he
    obtain ⟨⟨conn, hc, hl⟩, hold⟩ := (map _).1 ⟨conn', hc', hl⟩
    exact ⟨⟨k, call, conn, hk, ⟨id', he.1.trans hp'⟩, hc, he.2 ▸ hl⟩, hold⟩
  · rintro ⟨⟨k, call, conn, hk, ⟨id', hp⟩, hc, hl⟩, hold⟩
    have hk' := calls k
    rw [hk, Option.map_some, Option.map_eq_some_iff] at hk'
    obtain ⟨call', hk', he⟩ := hk'
    simp only [Prod.mk.injEq] at he
    obtain ⟨conn', hc', hl⟩ := (map _).2 ⟨⟨conn, hc, hl⟩, hold⟩
    exact ⟨k, call', conn', hk', ⟨id', he.1.trans hp⟩, hc', he.2 ▸ hl⟩

/-! ### The pools -/

/-- Connection `c` is in one of the pools. -/
def Handler.Pooled (h : Handler) (c : Nat) : Prop :=
  (∃ x, some x ∈ h.leaderConns ∧ x.id = c) ∨ ∃ key x, h.followers.lookup key = some x ∧ x.id = c

/-- The pools after a piece of a selection: `cleanup` of a closed connection is followed by its removal. -/
def SelPc.pools (h : Handler) : SelPc → Handler
  | .fClean _ node j _ _ _ => { h with followers := h.followers.erase (node.1, node.2, j) }
  | _ => h

/-- The pools after a piece of the sync task: slots are cleared or overwritten, an index of the map
is overwritten. -/
def SyncPc.pools (h : Handler) : SyncPc → Handler
  | .leaderClear .. => { h with leaderConns := h.leaderConns.map fun _ => none }
  | .leaderFill _ _ i _ conn => { h with leaderConns := h.leaderConns.set i (some conn) }
  | .insertConn _ _ _ _ name nidx (j :: _) (c :: _) =>
    { h with followers := h.followers.insert (name, nidx, j) c }
  | _ => h

/-- The pools after a step. -/
def Sys.poolsAfter (s : Sys) : SysLabel → Handler
  | .sel k => (s.sels[k]?).elim s.handler fun sel => sel.pc.pools s.handler
  | .sync _ => s.sync.pc.pools s.handler
  | _ => s.handler

theorem Handler.pooled_congr {h h' : Handler} (hl : h'.leaderConns = h.leaderConns)
    (hf : h'.followers = h.followers) (c : Nat) : h'.Pooled c ↔ h.Pooled c := by
  simp only [Handler.Pooled, hl, hf]

theorem SelMove.pools {closed : Nat → Bool} {now : Nat} {h h' : Handler} {pc pc' : SelPc}
    (hb : SelMove cfg closed now h pc h' pc') :
    h'.leaderConns = (pc.pools h).leaderConns ∧ h'.followers = (pc.pools h).followers := by
  cases hb <;> exact ⟨rfl, rfl⟩

theorem SyncMove.pools {closed : Nat → Bool} {fresh : Nat} {h h' : Handler} {pc pc' : SyncPc} {i : SyncInput}
    (hb : SyncMove cfg closed fresh h pc i h' pc') :
    h'.leaderConns = (pc.pools h).leaderConns ∧ h'.followers = (pc.pools h).followers := by
  cases hb with
  | hostDone fs todo free assigned name nidx freeConns => cases freeConns <;> exact ⟨rfl, rfl⟩
  | _ => exact ⟨rfl, rfl⟩

theorem Sys.pooled_step (hs : s.step cfg l = some s') (c : Nat) :
    s'.handler.Pooled c ↔ (s.poolsAfter l).Pooled c := by
  cases Sys.Move.of_step hs with
  | selStart k sel call hk hpc _ _ => simp [Sys.poolsAfter, hk, hpc, SelPc.pools]
  | selReturn k sel r mux hk hpc _ => simp [Sys.poolsAfter, hk, hpc, SelPc.pools]
  | sel k sel handler pc' hk hw hb =>
    simp only [Sys.poolsAfter, hk, Option.elim_some]
    exact Handler.pooled_congr hb.pools.1 hb.pools.2 c
  | sync i handler pc' hw hb => exact Handler.pooled_congr hb.pools.1 hb.pools.2 c
  | rehashFollowers followers hperm =>
    simp only [Handler.Pooled, AList.perm_lookup hperm]
    rfl
  | _ => exact Iff.rfl

/-! ### Orphans -/

/-- A call awaits a connection that is in no pool and whose read loop is over. -/
def Sys.Orphan (s : Sys) (c : Nat) : Prop :=
  s.mux.Terminated c ∧ ¬ s.handler.Pooled c ∧ ∃ id t, s.mux.AwaitedAt c id t

/-- The steps by which no waiter is left behind: none takes out of the pools (or overwrites there) a
connection whose read loop is over and whose map keeps, after the `cleanup` that goes with the
removal, the sender of a call that awaits it; no read loop ends on a connection outside the pools
with such a sender in its map; and no call queues its frame on a connection outside the pools whose
read loop is over. -/
structure Sys.KeepsWaiters (cfg : Config) (s : Sys) (l : SysLabel) : Prop where
  removal : ∀ c, s.mux.Terminated c → s.handler.Pooled c → ¬ (s.poolsAfter l).Pooled c → ∀ id t,
    s.mux.AwaitedAt c id t → ∃ start, s.cleans l = some (c, start) ∧ t + cfg.cleanupAge < start
  ending : ∀ c, l = .mux (.readerStop c) → ¬ s.handler.Pooled c → ∀ id t, ¬ s.mux.AwaitedAt c id t
  sending : ∀ k c, l = .mux (.send k) → s.mux.Submitting k c → s.mux.Terminated c → s.handler.Pooled c

theorem Sys.terminated_of_step {c : Nat} (hs : s.step cfg l = some s') (h : s'.mux.Terminated c) :
    s.mux.Terminated c ∨ l = .mux (.readerStop c) := by
  obtain ⟨conn', hc', hr'⟩ := h
  rcases Sys.mux_project hs with he | ⟨l', hm, hl⟩
  · exact .inl ⟨conn', he ▸ hc', hr'⟩
  · obtain ⟨conn, hc, hstep⟩ | ⟨-, host, -, rfl⟩ := Mux.step_conn hm hc'
    · rcases hstep.ended hr' with hr | ⟨rfl, -⟩
      · exact .inl ⟨conn, hc, hr⟩
      · exact .inr (hl.1 rfl)
    · cases hr'

theorem Sys.terminated_step {c : Nat} (hs : s.step cfg l = some s') (h : s.mux.Terminated c) :
    s'.mux.Terminated c := by
  obtain ⟨conn, hc, hr⟩ := h
  rcases Sys.mux_project hs with he | ⟨l', hm, -⟩
  · exact ⟨conn, he ▸ hc, hr⟩
  · obtain ⟨conn', hc', hstep⟩ := Mux.step_conn_fwd hm hc
    exact ⟨conn', hc', hstep.stays_ended hr⟩

theorem Sys.cleans_step {c start : Nat} (hs : s.step cfg l = some s') (hc : s.cleans l = some (c, start)) :
    s'.mux = demuxCleanup s.mux c start cfg.cleanupAge := by
  cases l with
  | sel k =>
    obtain ⟨sel, hk, hpc⟩ := Option.bind_eq_some_iff.1 hc
    unfold SelPc.cleans at hpc
    split at hpc
    next left node j tried x start' hfc =>
      cases hpc
      obtain ⟨handler, pc', -, rfl⟩ := Sys.selMove_of_step hs hk (by simp [hfc]) (by simp [hfc])
      rw [hfc]
      rfl
    next left next x start' hlc =>
      cases hpc
      obtain ⟨handler, pc', -, rfl⟩ := Sys.selMove_of_step hs hk (by simp [hlc]) (by simp [hlc])
      rw [hlc]
      rfl
    next => cases hpc
  | _ => cases hc

theorem Sys.awaited_of_step {c : Nat} {id : UInt32} {t : Nat} (hs : s.step cfg l = some s')
    (h : s'.mux.AwaitedAt c id t) :
    (s.mux.AwaitedAt c id t ∧ ∀ start, s.cleans l = some (c, start) → ¬ t + cfg.cleanupAge < start) ∨
      ∃ k, l = .mux (.send k) ∧ s.mux.Submitting k c := by
  cases hcl : s.cleans l with
  | none =>
    rcases Sys.mux_project hs with he | ⟨l', hm, hl⟩
    · exact .inl ⟨he ▸ h, nofun⟩
    · rcases h.of_step hm with h | ⟨k, rfl, hsub⟩
      · exact .inl ⟨h, nofun⟩
      · exact .inr ⟨k, hl.1 rfl, hsub⟩
  | some x =>
    obtain ⟨c₀, start⟩ := x
    rw [Sys.cleans_step hs hcl, Mux.awaitedAt_cleanup] at h
    refine .inl ⟨h.1, ?_⟩
    rintro start' ⟨rfl⟩
    exact h.2 rfl

/-- A step that takes a connection out of the pools leaves the senders that survive its `cleanup`. -/
theorem Sys.awaited_step {c : Nat} {id : UInt32} {t : Nat} (hs : s.step cfg l = some s')
    (hp : s.handler.Pooled c) (hp' : ¬ (s.poolsAfter l).Pooled c) (h : s.mux.AwaitedAt c id t)
    (hold : ∀ start, s.cleans l = some (c, start) → ¬ t + cfg.cleanupAge < start) :
    s'.mux.AwaitedAt c id t := by
  cases l with
  | sel k =>
    cases hk : s.sels[k]? with
    | none => exact absurd hp (by simpa [Sys.poolsAfter, hk] using hp')
    | some sel =>
      simp only [Sys.poolsAfter, hk, Option.elim_some] at hp'
      cases hpc : sel.pc with
      | fClean left node j tried x start =>
        have hcl : s.cleans (.sel k) = some (x.id, start) := by simp [Sys.cleans, hk, hpc, SelPc.cleans]
        rw [Sys.cleans_step hs hcl, Mux.awaitedAt_cleanup]
        refine ⟨h, ?_⟩
        rintro rfl
        exact hold start hcl
      | _ =>
        rw [hpc] at hp'
        exact absurd hp hp'
  | sync i =>
    cases Sys.Move.of_step hs with
    | sync _ handler pc' hw hb =>
      have hsame : Sys.syncMux s.mux s.sync.pc i = s.mux := by
        unfold Sys.syncMux
        simp only [Sys.poolsAfter] at hp'
        split
        next hpc => rw [hpc] at hp'; exact absurd hp hp'
        next hpc => rw [hpc] at hp'; exact absurd hp hp'
        next => rfl
      rw [← hsame] at h
      exact h
  | _ => exact absurd hp hp'

/-- The step that leaves a waiter behind. -/
theorem keepsWaiters_iff (h : ∀ c, ¬ s.Orphan c) (hs : s.step cfg l = some s') :
    (∀ c, ¬ s'.Orphan c) ↔ s.KeepsWaiters cfg l := by
  constructor
  · intro h'
    refine ⟨?_, ?_, ?_⟩
    · intro c hterm hp hp' id t haw
      by_contra hold
      push Not at hold
      refine h' c ⟨Sys.terminated_step hs hterm, fun hpo => hp' ((Sys.pooled_step hs c).1 hpo), id, t, ?_⟩
      exact Sys.awaited_step hs hp hp' haw fun start hcl => Nat.not_lt.2 (hold start hcl)
    · rintro c rfl hp id t haw
      cases Sys.Move.of_step hs with
      | mux _ mux hm _ _ _ =>
        obtain ⟨conn, hc, -, hmux⟩ := Mux.readerStop_some hm
        refine h' c ⟨⟨{ conn with closed := true, reader := .ended }, ?_, rfl⟩, hp, id, t, haw.readerStop hm⟩
        rw [hmux]
        exact Mux.setConn_self hc
    · rintro k c rfl hsub hterm
      by_contra hp
      cases Sys.Move.of_step hs with
      | mux _ mux hm _ _ _ => exact h' c ⟨Sys.terminated_step hs hterm, hp, hsub.awaited hm⟩
  · rintro hk c ⟨hterm', hp', id, t, haw'⟩
    rw [Sys.pooled_step hs] at hp'
    rcases Sys.awaited_of_step hs haw' with ⟨haw, hold⟩ | ⟨k, rfl, hsub⟩
    · rcases Sys.terminated_of_step hs hterm' with hterm | rfl
      · by_cases hp : s.handler.Pooled c
        · obtain ⟨start, hcl, hlt⟩ := hk.removal c hterm hp hp' id t haw
          exact hold start hcl hlt
        · exact h c ⟨hterm, hp, id, t, haw⟩
      · exact hk.ending c rfl hp' id t haw
    · rcases Sys.terminated_of_step hs hterm' with hterm | hl
      · exact hp' (hk.sending k c rfl hsub hterm)
      · cases hl

/-- A run leaves no waiter behind, in any of its states, exactly when all of its steps keep the waiters. -/
theorem no_orphan_iff_waiters_kept (ls : List SysLabel) :
    AllStates (Sys.step cfg) (fun s => ∀ c, ¬ s.Orphan c) (Sys.init cfg) ls ↔
      AllSteps (Sys.step cfg) (Sys.KeepsWaiters cfg) (Sys.init cfg) ls := by
  refine allStates_iff_allSteps ?_ fun s l s' _ h hs => keepsWaiters_iff h hs
  rintro c ⟨⟨conn, hc, -⟩, -⟩
  simp [Sys.init] at hc

/-- The leader closes its end while a write awaits, and the next sync puts a new connection into the slot. -/
def overwrittenRun : List SysLabel :=
  Sys.leaderUp "a" [] ++ Sys.followersUp [] ++ Sys.writeCall 0 (prependHeader 7 [1]) ++
    ([.mux (.readEnd 0), .mux (.readerStop 0), .sync .slowTick, .sync .go, .sync (.discovered (some ("a", []))),
      .sync .go, .acquire .sync, .sync .go, .sync (.connected true), .acquire .sync, .sync .go] : List SysLabel)

theorem overwritten_leader_orphan : ∃ s c, Reach (Sys.step {}) (Sys.init {}) s ∧ s.Orphan c := by
  obtain ⟨s, -, hr, hp⟩ := Reach.of_any (Sys.step {}) (Sys.init {}) overwrittenRun
    (fun s => (s.mux.conns[0]?).any fun (conn : Conn) => (s.mux.calls[0]?).any fun (call : Call) =>
      decide (conn.reader = .ended ∧ call.pc = .await 0 1 ∧ conn.demux.lookup 1 = some (⟨0, call.attempts⟩, 0) ∧
        s.handler.leaderConns = [some ⟨1, "a"⟩] ∧ s.handler.followers.keys = []))
    (by decide +kernel)
  obtain ⟨conn, hc, hp⟩ := (Option.any_eq_true _ _).1 hp
  obtain ⟨call, hk, hp⟩ := (Option.any_eq_true _ _).1 hp
  obtain ⟨hreader, hpc, hl, hslots, hmap⟩ := of_decide_eq_true hp
  refine ⟨s, 0, hr, ⟨conn, hc, hreader⟩, ?_, 1, 0, 0, call, conn, hk, ⟨1, hpc⟩, hc, hl⟩
  rintro (⟨x, hx, hid⟩ | ⟨key, x, hx, -⟩)
  · simp only [hslots, List.mem_singleton, Option.some.injEq] at hx
    simp [hx] at hid
  · have hmem := AList.mem_keys.1 (mem_of_lookup hx)
    simp [hmap] at hmem

end RzBridge

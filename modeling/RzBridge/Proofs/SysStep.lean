import RzBridge.Sys
import RzBridge.Proofs.MuxStep
import RzBridge.Proofs.PoolStep

/-!
# What a step of the system does

Inversion of `Sys.step`, and its projection onto the multiplexer: whatever the pools do, the
multiplexer makes one of its own steps or none.
-/

namespace RzBridge
open Machine CircularWait

/-- The connection whose demux map a selection is about to clean up, and the instant at which it
called `cleanup`. -/
def SelPc.cleans : SelPc → Option (Nat × Nat)
  | .fClean _ _ _ _ c start => some (c.id, start)
  | .lClean _ _ c start => some (c.id, start)
  | _ => none

namespace Sys

/-- The `cleanup` that a step runs. -/
def cleans (s : Sys) : SysLabel → Option (Nat × Nat)
  | .sel k => (s.sels[k]?).bind fun t => t.pc.cleans
  | _ => none

variable {cfg : Config} {s s' : Sys} {l : SysLabel} {t : Task} {k : Nat} {i : SyncInput}

theorem acquire_some (h : s.acquire cfg t = some s') :
    ∃ lm, s.waits t = some lm ∧ s.free t lm = true ∧
      ((t = .sync ∧ s' = { s with sync := { s.sync with held := true } }) ∨
        (∃ c mux, t = .reader c ∧ s.mux.readerLock c = some mux ∧ s' = { s with mux }) ∨
        (∃ k sel, t = .call k ∧ s.sels[k]? = some sel ∧ sel.waits = some lm ∧
          s' = { s with sels := s.sels.set k { sel with held := true } }) ∨
        ∃ k sel mux, t = .call k ∧ s.sels[k]? = some sel ∧ sel.waits = none ∧
          s.mux.callLockStore k = some mux ∧ s' = { s with mux }) := by
  simp only [acquire, Option.bind_eq_bind, Option.bind_eq_some_iff, Option.guard_eq_some'] at h
  obtain ⟨lm, hw, -, hf, h⟩ := h
  refine ⟨lm, hw, hf, ?_⟩
  cases t with
  | sync => exact .inl ⟨rfl, (Option.some.inj h).symm⟩
  | reader c =>
    obtain ⟨mux, hm, h⟩ := Option.bind_eq_some_iff.1 h
    exact .inr (.inl ⟨c, mux, rfl, hm, (Option.some.inj h).symm⟩)
  | call k =>
    obtain ⟨sel, hs, h⟩ := Option.bind_eq_some_iff.1 h
    cases hsw : sel.waits with
    | some lm' =>
      simp only [hsw, Option.isSome_some, if_true] at h
      have hlm : lm' = lm := by simpa [waits, hs, hsw] using hw
      exact .inr (.inr (.inl ⟨k, sel, rfl, hs, by rw [hsw, hlm], (Option.some.inj h).symm⟩))
    | none =>
      simp only [hsw, Option.isSome_none, Bool.false_eq_true, if_false] at h
      obtain ⟨mux, hm, h⟩ := Option.bind_eq_some_iff.1 h
      exact .inr (.inr (.inr ⟨k, sel, mux, rfl, hs, hsw, hm, (Option.some.inj h).symm⟩))

theorem selStep_some (h : s.selStep cfg k = some s') :
    ∃ sel, s.sels[k]? = some sel ∧
      ((∃ call, sel.pc = .idle ∧ s.mux.calls[k]? = some call ∧ call.pc = .select ∧
          s' = { s with sels := s.sels.set k { pc := if call.isWrite then .lLock else .fLen } }) ∨
        (∃ r mux, sel.pc = .ret r ∧ s.mux.callSelected k (r.map (·.id)) = some mux ∧
          s' = { s with mux, sels := s.sels.set k {} }) ∨
        ∃ handler pc', sel.waits = none ∧ selBody cfg s.closed s.mux.now s.handler sel.pc = some (handler, pc') ∧
          s' = { s with handler, mux := selMux cfg s.mux sel.pc, sels := s.sels.set k { pc := pc' } }) := by
  simp only [selStep, Option.bind_eq_bind, Option.bind_eq_some_iff] at h
  obtain ⟨sel, hs, h⟩ := h
  refine ⟨sel, hs, ?_⟩
  split at h
  next hpc =>
    obtain ⟨call, hc, h⟩ := Option.bind_eq_some_iff.1 h
    simp only [Option.bind_eq_some_iff, Option.guard_eq_some'] at h
    obtain ⟨-, hcp, h⟩ := h
    exact .inl ⟨call, hpc, hc, hcp, (Option.some.inj h).symm⟩
  next r hpc =>
    obtain ⟨mux, hm, h⟩ := Option.bind_eq_some_iff.1 h
    exact .inr (.inl ⟨r, mux, hpc, hm, (Option.some.inj h).symm⟩)
  next pc h1 h2 =>
    simp only [Option.bind_eq_some_iff, Option.guard_eq_some'] at h
    obtain ⟨-, hw, ⟨handler, pc'⟩, hb, h⟩ := h
    exact .inr (.inr ⟨handler, pc', by simpa using hw, hb, (Option.some.inj h).symm⟩)

theorem syncStep_some (h : s.syncStep cfg i = some s') :
    ∃ handler pc, s.sync.waits = none ∧
      syncBody cfg s.closed s.mux.conns.length s.handler s.sync.pc i = some (handler, pc) ∧
      s' = { s with
        handler
        mux := syncMux s.mux s.sync.pc i
        sync := { pc, synced := nextSynced s.sync.synced s.sync.pc pc } } := by
  simp only [syncStep, Option.bind_eq_bind, Option.bind_eq_some_iff, Option.guard_eq_some'] at h
  obtain ⟨-, hw, ⟨handler, pc⟩, hb, h⟩ := h
  exact ⟨handler, pc, by simpa using hw, hb, (Option.some.inj h).symm⟩

theorem muxStep_some {l : MuxLabel} (h : s.step cfg (.mux l) = some s') :
    ∃ mux, s.mux.step cfg l = some mux ∧
      ((∃ w f, l = .spawn w f ∧ s' = { s with mux, sels := s.sels ++ [{}] }) ∨
        (∀ w f, l ≠ .spawn w f) ∧ (internal l = true) ∧ (∀ c, l = .free c → s.referenced c = false) ∧
          s' = { s with mux }) := by
  cases l with
  | spawn w f =>
    simp only [step, Option.bind_eq_bind, Option.bind_eq_some_iff] at h
    obtain ⟨mux, hm, h⟩ := h
    exact ⟨mux, hm, .inl ⟨w, f, rfl, (Option.some.inj h).symm⟩⟩
  | free c =>
    simp only [step, Option.bind_eq_bind, Option.bind_eq_some_iff, Option.guard_eq_some'] at h
    obtain ⟨-, hr, mux, hm, h⟩ := h
    refine ⟨mux, hm, .inr ⟨by simp, rfl, ?_, (Option.some.inj h).symm⟩⟩
    rintro c' ⟨rfl⟩
    simpa using hr
  | _ =>
    simp only [step, Option.bind_eq_bind, Option.bind_eq_some_iff, Option.guard_eq_some'] at h
    obtain ⟨-, hi, mux, hm, h⟩ := h
    exact ⟨mux, hm, .inr ⟨by simp, hi, by simp, (Option.some.inj h).symm⟩⟩

theorem selMux_step (m : Mux) (pc : SelPc) :
    selMux cfg m pc = m ∨ ∃ c start, pc.cleans = some (c, start) ∧
      m.step cfg (.cleanup c start) = some (selMux cfg m pc) := by
  cases pc with
  | fClean left node j tried c start => exact .inr ⟨c.id, start, rfl, rfl⟩
  | lClean left next c start => exact .inr ⟨c.id, start, rfl, rfl⟩
  | _ => exact .inl rfl

theorem syncMux_step (m : Mux) (pc : SyncPc) (i : SyncInput) :
    syncMux m pc i = m ∨ ∃ host, m.step cfg (.connect host) = some (syncMux m pc i) := by
  unfold syncMux
  split
  next host _ _ _ => exact .inr ⟨host, rfl⟩
  next host _ _ => exact .inr ⟨host, rfl⟩
  next => exact .inl rfl

/-- What a step of the system does, one constructor for each kind of step. -/
inductive Move (cfg : Config) (s : Sys) : SysLabel → Sys → Prop
  | lockSync (lm : Lock × Mode) (hw : s.sync.waits = some lm) (hf : s.free .sync lm = true) :
      Move cfg s (.acquire .sync) { s with sync := { s.sync with held := true } }
  | lockReader (c : Nat) (mux : Mux) (hm : s.mux.readerLock c = some mux) :
      Move cfg s (.acquire (.reader c)) { s with mux }
  | lockSel (k : Nat) (sel : Sel) (lm : Lock × Mode) (hk : s.sels[k]? = some sel) (hw : sel.waits = some lm)
      (hf : s.free (.call k) lm = true) :
      Move cfg s (.acquire (.call k)) { s with sels := s.sels.set k { sel with held := true } }
  | lockStore (k : Nat) (sel : Sel) (mux : Mux) (hk : s.sels[k]? = some sel) (hw : sel.waits = none)
      (hm : s.mux.callLockStore k = some mux) : Move cfg s (.acquire (.call k)) { s with mux }
  | selStart (k : Nat) (sel : Sel) (call : Call) (hk : s.sels[k]? = some sel) (hpc : sel.pc = .idle)
      (hc : s.mux.calls[k]? = some call) (hcp : call.pc = .select) :
      Move cfg s (.sel k) { s with sels := s.sels.set k { pc := if call.isWrite then .lLock else .fLen } }
  | selReturn (k : Nat) (sel : Sel) (r : Option Connection) (mux : Mux) (hk : s.sels[k]? = some sel)
      (hpc : sel.pc = .ret r) (hm : s.mux.callSelected k (r.map (·.id)) = some mux) :
      Move cfg s (.sel k) { s with mux, sels := s.sels.set k {} }
  | sel (k : Nat) (sel : Sel) (handler : Handler) (pc' : SelPc) (hk : s.sels[k]? = some sel)
      (hw : sel.waits = none) (hb : SelMove cfg s.closed s.mux.now s.handler sel.pc handler pc') :
      Move cfg s (.sel k)
        { s with handler, mux := selMux cfg s.mux sel.pc, sels := s.sels.set k { pc := pc' } }
  | sync (i : SyncInput) (handler : Handler) (pc' : SyncPc) (hw : s.sync.waits = none)
      (hb : SyncMove cfg s.closed s.mux.conns.length s.handler s.sync.pc i handler pc') :
      Move cfg s (.sync i)
        { s with
          handler
          mux := syncMux s.mux s.sync.pc i
          sync := { pc := pc', synced := nextSynced s.sync.synced s.sync.pc pc' } }
  | spawn (w : Bool) (f : Bytes) (mux : Mux) (hm : s.mux.step cfg (.spawn w f) = some mux) :
      Move cfg s (.mux (.spawn w f)) { s with mux, sels := s.sels ++ [{}] }
  | mux (l : MuxLabel) (mux : Mux) (hm : s.mux.step cfg l = some mux) (hl : ∀ w f, l ≠ .spawn w f)
      (hi : internal l = true) (hr : ∀ c, l = .free c → s.referenced c = false) :
      Move cfg s (.mux l) { s with mux }
  | rehashHistory (history : FollowerHistory)
      (hp : history.entries.Perm s.handler.loadBalancer.followerHistory.entries) :
      Move cfg s (.rehashHistory history)
        { s with handler :=
          { s.handler with loadBalancer := { s.handler.loadBalancer with followerHistory := history } } }
  | rehashFollowers (followers : FollowerMap) (hp : followers.entries.Perm s.handler.followers.entries) :
      Move cfg s (.rehashFollowers followers) { s with handler := { s.handler with followers } }

theorem Move.of_step (h : s.step cfg l = some s') : Move cfg s l s' := by
  cases l with
  | acquire t =>
    obtain ⟨lm, hw, hf, ⟨rfl, rfl⟩ | ⟨c, mux, rfl, hm, rfl⟩ | ⟨k, sel, rfl, hk, hsw, rfl⟩ |
      ⟨k, sel, mux, rfl, hk, hsw, hm, rfl⟩⟩ := acquire_some h
    · exact .lockSync lm hw hf
    · exact .lockReader c mux hm
    · exact .lockSel k sel lm hk hsw hf
    · exact .lockStore k sel mux hk hsw hm
  | sel k =>
    obtain ⟨sel, hk, ⟨call, hpc, hc, hcp, rfl⟩ | ⟨r, mux, hpc, hm, rfl⟩ | ⟨handler, pc', hw, hb, rfl⟩⟩ :=
      selStep_some h
    · exact .selStart k sel call hk hpc hc hcp
    · exact .selReturn k sel r mux hk hpc hm
    · exact .sel k sel handler pc' hk hw (.of_body hb)
  | sync i =>
    obtain ⟨handler, pc, hw, hb, rfl⟩ := syncStep_some h
    exact .sync i handler pc hw (.of_body hb)
  | mux l =>
    obtain ⟨mux, hm, ⟨w, f, rfl, rfl⟩ | ⟨hl, hi, hr, rfl⟩⟩ := muxStep_some h
    · exact .spawn w f mux hm
    · exact .mux l mux hm hl hi hr
  | rehashHistory history =>
    simp only [step, Option.bind_eq_bind, Option.bind_eq_some_iff, Option.guard_eq_some'] at h
    obtain ⟨-, hp, h⟩ := h
    exact (Option.some.inj h) ▸ .rehashHistory history hp
  | rehashFollowers followers =>
    simp only [step, Option.bind_eq_bind, Option.bind_eq_some_iff, Option.guard_eq_some'] at h
    obtain ⟨-, hp, h⟩ := h
    exact (Option.some.inj h) ▸ .rehashFollowers followers hp

/-- A selection after a step is where one was before, or at its start, or where one of its moves has
taken it. -/
theorem sel_of_step (h : s.step cfg l = some s') {sel' : Sel} (hm : sel' ∈ s'.sels) :
    (∃ sel ∈ s.sels, sel'.pc = sel.pc) ∨ (sel'.pc = .idle ∨ sel'.pc = .lLock ∨ sel'.pc = .fLen) ∨
      ∃ sel ∈ s.sels, SelMove cfg s.closed s.mux.now s.handler sel.pc s'.handler sel'.pc := by
  cases Move.of_step h with
  | lockSel k sel lm hk _ _ =>
    rcases List.mem_or_eq_of_mem_set hm with hm | rfl
    · exact .inl ⟨sel', hm, rfl⟩
    · exact .inl ⟨sel, List.mem_of_getElem? hk, rfl⟩
  | selStart k sel call _ _ _ _ =>
    rcases List.mem_or_eq_of_mem_set hm with hm | rfl
    · exact .inl ⟨sel', hm, rfl⟩
    · cases hw : call.isWrite <;> simp
  | selReturn k sel r mux _ _ _ =>
    rcases List.mem_or_eq_of_mem_set hm with hm | rfl
    · exact .inl ⟨sel', hm, rfl⟩
    · exact .inr (.inl (.inl rfl))
  | sel k sel handler pc' hk _ hb =>
    rcases List.mem_or_eq_of_mem_set hm with hm | rfl
    · exact .inl ⟨sel', hm, rfl⟩
    · exact .inr (.inr ⟨sel, List.mem_of_getElem? hk, hb⟩)
  | spawn w f mux _ =>
    rcases List.mem_append.1 hm with hm | hm
    · exact .inl ⟨sel', hm, rfl⟩
    · cases List.mem_singleton.1 hm
      exact .inr (.inl (.inl rfl))
  | _ => exact .inl ⟨sel', hm, rfl⟩

theorem selMove_of_step {sel : Sel} (h : s.step cfg (.sel k) = some s') (hk : s.sels[k]? = some sel)
    (hidle : sel.pc ≠ .idle) (hret : ∀ r, sel.pc ≠ .ret r) :
    ∃ handler pc', SelMove cfg s.closed s.mux.now s.handler sel.pc handler pc' ∧
      s' = { s with handler, mux := selMux cfg s.mux sel.pc, sels := s.sels.set k { pc := pc' } } := by
  cases Move.of_step h with
  | selStart k sel₀ call hk₀ hpc _ _ =>
    rw [hk] at hk₀
    exact absurd hpc (Option.some.inj hk₀ ▸ hidle)
  | selReturn k sel₀ r mux hk₀ hpc _ =>
    rw [hk] at hk₀
    exact absurd hpc (Option.some.inj hk₀ ▸ hret r)
  | sel k sel₀ handler pc' hk₀ _ hb =>
    rw [hk] at hk₀
    cases Option.some.inj hk₀
    exact ⟨handler, pc', hb, rfl⟩

theorem found_of_step {sel sel' : Sel} {x : Connection} (h : s.step cfg (.sel k) = some s')
    (hk : s.sels[k]? = some sel) (hidle : sel.pc ≠ .idle) (hret : ∀ r, sel.pc ≠ .ret r)
    (hk' : s'.sels[k]? = some sel') (hpc' : sel'.pc = .ret (some x)) :
    ∃ handler, SelMove cfg s.closed s.mux.now s.handler sel.pc handler (.ret (some x)) := by
  obtain ⟨handler, pc', hb, rfl⟩ := selMove_of_step h hk hidle hret
  rw [List.getElem?_set_self (List.getElem?_eq_some_iff.1 hk).1, Option.some.injEq] at hk'
  subst hk'
  dsimp only at hpc'
  exact ⟨handler, hpc' ▸ hb⟩

/-- A step of the system is a step of the multiplexer, or leaves it alone; the steps that need
nothing from the pools have their own labels, and a `cleanup` is that of a selection. -/
theorem mux_project (h : s.step cfg l = some s') :
    s'.mux = s.mux ∨ ∃ l', s.mux.step cfg l' = some s'.mux ∧ (internal l' = true → l = .mux l') ∧
      ∀ c start, l' = .cleanup c start → s.cleans l = some (c, start) := by
  cases Move.of_step h with
  | lockReader c mux hm => exact .inr ⟨.lockLoad c, hm, nofun, nofun⟩
  | lockStore k sel mux _ _ hm => exact .inr ⟨.lockStore k, hm, nofun, nofun⟩
  | selReturn k sel r mux _ _ hm => exact .inr ⟨.selected k (r.map Connection.id), hm, nofun, nofun⟩
  | sel k sel handler pc' hk _ _ =>
    refine (selMux_step s.mux sel.pc).imp_right fun ⟨c, start, hc, hm⟩ => ⟨.cleanup c start, hm, nofun, ?_⟩
    rintro _ _ ⟨rfl, rfl⟩
    simp [cleans, hk, hc]
  | sync i handler pc' _ _ =>
    exact (syncMux_step s.mux s.sync.pc i).imp_right fun ⟨host, hm⟩ => ⟨.connect host, hm, nofun, nofun⟩
  | spawn w f mux hm => exact .inr ⟨.spawn w f, hm, fun _ => rfl, nofun⟩
  | mux l mux hm _ hi _ =>
    refine .inr ⟨l, hm, fun _ => rfl, ?_⟩
    rintro c start rfl
    cases hi
  | _ => exact .inl rfl

theorem project_mux {s s' : Sys} (h : Reach (step cfg) s s') : Reach (Mux.step cfg) s.mux s'.mux :=
  h.project (f := Sys.mux) fun _ _ _ hs => (mux_project hs).imp_right fun ⟨l', hm, _⟩ => ⟨l', hm⟩

theorem reach_mux {s : Sys} (h : Reach (step cfg) (init cfg) s) : Reach (Mux.step cfg) {} s.mux := project_mux h

/-- A handle is that of an existing connection to its host. -/
def Valid (s : Sys) (x : Connection) : Prop := ∃ conn, s.mux.conns[x.id]? = some conn ∧ conn.addr = x.addr

theorem addr_of_connStep {m : Mux} {l : MuxLabel} {c : Nat} {conn conn' : Conn}
    (h : ConnStep m l c conn conn') :
    conn'.addr = conn.addr := by
  cases h <;> rfl

theorem Valid.step {x : Connection} (hx : s.Valid x) (h : s.step cfg l = some s') : s'.Valid x := by
  obtain ⟨conn, hc, ha⟩ := hx
  rcases mux_project h with he | ⟨l', hl', -⟩
  · exact ⟨conn, by rw [he, hc], ha⟩
  · obtain ⟨conn', hc', hstep⟩ := Mux.step_conn_fwd hl' hc
    exact ⟨conn', hc', (addr_of_connStep hstep).trans ha⟩

end Sys
end RzBridge

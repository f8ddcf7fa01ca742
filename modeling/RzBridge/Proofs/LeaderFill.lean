import RzBridge.Proofs.FollowerLock
import RzBridge.Proofs.LeaderPool

/-!
# What `sync_leader` fills

`sync_leader` looks once for the slots that are empty or closed and then opens a connection for each, giving up the
lock on the slots in between. Nobody else writes to the slots meanwhile, so each of them is on the list of those
to be filled, or holds a connection that was open at the look or that this sync has opened (`LeaderFilling`).
-/

namespace RzBridge
open Machine

variable {cfg : Config} {s₀ s s' : Sys} {l : SysLabel} {host : String}

/-- The slots that the sync task has still to fill. -/
def SyncPc.toFill : SyncPc → List Nat
  | .leaderConnect _ _ required => required
  | .leaderFill _ _ i required _ => i :: required
  | .leaderRestore _ _ required => required
  | _ => []

/-- The connection was open in slot `i` in `s₀`, or was opened after that. -/
def Sys.FilledBy (s₀ : Sys) (i : Nat) (x : Connection) : Prop :=
  s₀.handler.leaderConns[i]? = some (some x) ∧ s₀.closed x.id = false ∨ s₀.mux.conns.length ≤ x.id

/-- A step of `sync_leader(host)`, or of any other task meanwhile, in which no connection fails to open. -/
def Sys.FillsLeader (host : String) (s : Sys) (l : SysLabel) : Prop :=
  s.sync.pc.leader = some host ∧ (∀ fs, s.sync.pc ≠ .leaderSnapshot host fs) ∧ l ≠ .sync (.connected false)

structure LeaderFilling (s₀ s : Sys) : Prop where
  grown : s₀.mux.conns.length ≤ s.mux.conns.length
  len : s.handler.leaderConns.length = s₀.handler.leaderConns.length
  fresh : ∀ host fs i required x, s.sync.pc = .leaderFill host fs i required x → s₀.mux.conns.length ≤ x.id
  slot : ∀ i < s₀.handler.leaderConns.length, i ∈ s.sync.pc.toFill ∨
    ∃ x, s.handler.leaderConns[i]? = some (some x) ∧ s₀.FilledBy i x

theorem LeaderFilling.keep (h : LeaderFilling s₀ s) (hc : s'.handler.leaderConns = s.handler.leaderConns)
    (hp : s'.sync.pc = s.sync.pc) (hg : s.mux.conns.length ≤ s'.mux.conns.length) : LeaderFilling s₀ s' := by
  refine ⟨h.grown.trans hg, hc ▸ h.len, ?_, ?_⟩
  · rw [hp]
    exact h.fresh
  · rw [hp, hc]
    exact h.slot

theorem LeaderFilling.step (h : LeaderFilling s₀ s) (hcond : s.FillsLeader host l) (hs : s.step cfg l = some s') :
    LeaderFilling s₀ s' := by
  obtain ⟨hpc, hsnap, hok⟩ := hcond
  have hg : s.mux.conns.length ≤ s'.mux.conns.length := by
    rcases Sys.mux_project hs with he | ⟨l', hm, -⟩
    · rw [he]
    · exact (Mux.step_size hm).1
  cases Sys.Move.of_step hs with
  | sel k sel handler pc' hk hw hb => exact h.keep hb.leader.1 rfl hg
  | sync i handler pc' hw hb =>
    have hslot := h.slot
    generalize hpc₀ : s.sync.pc = pc at hb hpc hsnap hslot hg
    cases hb with
    | leaderDone host' fs =>
      refine ⟨h.grown.trans hg, h.len, nofun, fun i hi => .inr ((hslot i hi).resolve_left ?_)⟩
      exact List.not_mem_nil
    | leaderConnected host' fs i required =>
      refine ⟨h.grown.trans hg, h.len, ?_, hslot⟩
      rintro _ _ _ _ _ ⟨⟩
      exact h.grown
    | leaderFailed => exact absurd rfl hok
    | leaderFill host' fs i required conn =>
      refine ⟨h.grown.trans hg, (List.length_set ..).trans h.len, nofun, fun j hj => ?_⟩
      have hfresh := h.fresh host' fs i required conn hpc₀
      by_cases hij : i = j
      · subst hij
        refine .inr ⟨conn, ?_, .inr hfresh⟩
        exact List.getElem?_set_self (h.len ▸ hj)
      · show j ∈ required ∨ ∃ x, (s.handler.leaderConns.set i (some conn))[j]? = some (some x) ∧ _
        rw [List.getElem?_set_ne hij]
        refine (hslot j hj).imp_left fun hmem => ?_
        exact (List.mem_cons.1 hmem).resolve_left (Ne.symm hij)
    | leaderRestore host' fs required => exact ⟨h.grown.trans hg, h.len, nofun, hslot⟩
    | leaderSnapshot host' fs required =>
      cases hpc
      exact absurd rfl (hsnap fs)
    | _ => cases hpc
  | _ => exact h.keep rfl rfl hg

theorem LeaderFilling.start {fs : List String} (hpc : s₀.sync.pc = .leaderSnapshot host fs)
    (hs : s₀.step cfg (.sync .go) = some s) : LeaderFilling s₀ s := by
  obtain ⟨handler, pc, -, hb, rfl⟩ := Sys.syncStep_some hs
  rw [hpc] at hb
  cases hb
  have hmux : Sys.syncMux s₀.mux s₀.sync.pc .go = s₀.mux := by rw [hpc]; rfl
  refine ⟨by rw [hmux], rfl, nofun, fun i hi => ?_⟩
  by_cases hreq : ((s₀.handler.leaderConns.getD i none).all fun c => s₀.closed c.id) = true
  · exact .inl (List.mem_filter.2 ⟨List.mem_range.2 hi, hreq⟩)
  · right
    have hslot : s₀.handler.leaderConns[i]? = some s₀.handler.leaderConns[i] := List.getElem?_eq_getElem hi
    rw [List.getD_eq_getElem?_getD, hslot, Option.getD_some] at hreq
    cases hx : s₀.handler.leaderConns[i] with
    | none =>
      rw [hx] at hreq
      exact absurd rfl hreq
    | some x =>
      rw [hx] at hreq hslot
      exact ⟨x, hslot, .inl ⟨hslot, by simpa using hreq⟩⟩

/-- When `sync_leader(host)` has run its loop and no connection failed to open, every slot holds a connection to
`host`, which was there and open when the sync looked at the slots or has been opened by it. Selections, calls,
read and write loops may run in between and connections may close at any time. -/
theorem leader_slots_filled {fs : List String} {t s₁ : Sys} (h₀ : Reach (Sys.step cfg) (Sys.init cfg) s₀)
    (hpc : s₀.sync.pc = .leaderSnapshot host fs) (ht : s₀.step cfg (.sync .go) = some t)
    (hrun : ReachWith (Sys.step cfg) (Sys.FillsLeader host) t s₁)
    (hend : s₁.sync.pc = .leaderConnect host fs []) {i : Nat} (hi : i < cfg.connPerRoomzinNode) :
    ∃ x, s₁.handler.leaderConns[i]? = some (some x) ∧ x.addr = host ∧ s₀.FilledBy i x := by
  have hfill : LeaderFilling s₀ s₁ :=
    hrun.induct (I := LeaderFilling s₀) (.start hpc ht) fun _ _ _ _ h hc hs => h.step hc hs
  have hinv : LeaderInv cfg s₁ := .of_reach ((h₀.tail _ ht).trans hrun.reach)
  have hlen : i < s₀.handler.leaderConns.length := by
    rw [← hfill.len, hinv.len]
    exact hi
  rcases hfill.slot i hlen with hmem | ⟨x, hx, hfrom⟩
  · rw [hend] at hmem
    exact absurd hmem List.not_mem_nil
  · have hcur := hinv.current host (by rw [hend]; rfl)
    have haddr := (hinv.slots x (List.mem_of_getElem? hx)).1
    exact ⟨x, hx, Option.some.inj (haddr.symm.trans hcur), hfrom⟩

/-- `FillsLeader`, evaluated. -/
def Sys.fillsLeader (host : String) (s : Sys) (l : SysLabel) : Bool :=
  s.sync.pc.leader = some host && (match s.sync.pc with | .leaderSnapshot .. => false | _ => true) &&
    match l with | .sync (.connected false) => false | _ => true

theorem Sys.FillsLeader.of_check (h : s.fillsLeader host l = true) : s.FillsLeader host l := by
  simp only [Sys.fillsLeader, Bool.and_eq_true, decide_eq_true_eq] at h
  obtain ⟨⟨hpc, hsnap⟩, hl⟩ := h
  refine ⟨hpc, fun fs he => ?_, ?_⟩
  · rw [he] at hsnap
    cases hsnap
  · rintro rfl
    cases hl

/-- A write gives up for want of a connection while the first sync connects to the leader. -/
theorem leader_slots_filled_first : ∃ s₀ t s₁ x, Reach (Sys.step {}) (Sys.init {}) s₀ ∧
    s₀.step {} (.sync .go) = some t ∧ ReachWith (Sys.step {}) (Sys.FillsLeader "a") t s₁ ∧
      s₁.handler.leaderConns[0]? = some (some x) ∧ x.addr = "a" ∧ s₀.FilledBy 0 x := by
  obtain ⟨s₀, -, hr₀, hp₀⟩ := Reach.of_any (Sys.step {}) (Sys.init {}) ((Sys.leaderUp "a" []).take 8)
    (fun s => (s.step {} (.sync .go)).any fun t => match s.sync.pc with
      | .leaderSnapshot host fs => host = "a" && fs = [] &&
        (exec (guarded (Sys.fillsLeader "a") (Sys.step {})) t
          (((Sys.writeCall 0 (prependHeader 9 [5])).take 7) ++ ((Sys.leaderUp "a" []).drop 9).take 4)).any
            fun s₁ => match s₁.sync.pc with
              | .leaderConnect host fs required => host = "a" && fs = [] && required = []
              | _ => false
      | _ => false) (by decide +kernel)
  obtain ⟨t, ht, hp⟩ := (Option.any_eq_true _ _).1 hp₀
  split at hp
  next host fs hpc =>
    simp only [Bool.and_eq_true, decide_eq_true_eq] at hp
    obtain ⟨⟨rfl, rfl⟩, hrun⟩ := hp
    obtain ⟨s₁, hs₁, hend⟩ := (Option.any_eq_true _ _).1 hrun
    split at hend
    next host fs required hpc₁ =>
      simp only [Bool.and_eq_true, decide_eq_true_eq] at hend
      obtain ⟨⟨rfl, rfl⟩, rfl⟩ := hend
      have hwith := ReachWith.refl.of_guarded (fun _ _ h => Sys.FillsLeader.of_check h) hs₁
      obtain ⟨x, hx, haddr, hfrom⟩ := leader_slots_filled hr₀ hpc ht hwith hpc₁ (by decide : 0 < 1)
      exact ⟨s₀, t, s₁, x, hr₀, ht, hwith, hx, haddr, hfrom⟩
    next => cases hend
  next => cases hp

end RzBridge

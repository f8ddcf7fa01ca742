import RzBridge.Bridge
import RzBridge.Proofs.Delivery
import RzBridge.Proofs.FollowerPool
import RzBridge.Proofs.LeaderPool
import RzBridge.Proofs.LockOrder
import RzBridge.Proofs.SeedMemory
import RzBridge.Proofs.ServerStep

/-!
# Where requests go

A frame passes through a pool, a selection and a call before a backend connection accepts it, while syncs put
the hosts of one discovery after the other into the pools. `L` and `F` are the hosts that discoveries have
named as leader and as followers: `Sourced` follows them through the sync task into the pools, `Aimed` from the
pools through the selections and the calls to the connections.
-/

namespace RzBridge
open Machine Assoc

variable {cfg : Config} {s s' : Sys} {l : SysLabel} {L F : String → Prop}

/-! ### From the discoveries to the pools -/

/-- The leader that the sync task works on. -/
def SyncPc.leaderHost : SyncPc → Option String
  | .leaderLoad host _ => some host
  | .leaderClear host _ => some host
  | .leaderStore host _ => some host
  | .leaderSnapshot host _ => some host
  | .leaderConnect host _ _ => some host
  | .leaderFill host _ _ _ _ => some host
  | .leaderRestore host _ _ => some host
  | _ => none

/-- The followers that it has not looked at yet. -/
def SyncPc.listed : SyncPc → List String
  | .leaderLoad _ fs => fs
  | .leaderClear _ fs => fs
  | .leaderStore _ fs => fs
  | .leaderSnapshot _ fs => fs
  | .leaderConnect _ fs _ => fs
  | .leaderFill _ fs _ _ _ => fs
  | .leaderRestore _ fs _ => fs
  | .snapshot fs => fs
  | _ => []

structure Sourced (L F : String → Prop) (s : Sys) : Prop where
  leader : ∀ host, s.sync.pc.leaderHost = some host → L host
  listed : ∀ host ∈ s.sync.pc.listed, F host
  pending : ∀ name, s.sync.pc.pending name → F name
  slots : ∀ x, some x ∈ s.handler.leaderConns → L x.addr
  map : ∀ key x, s.handler.followers.lookup key = some x → F key.1

theorem Sourced.init : Sourced L F (Sys.init cfg) := by
  refine ⟨?_, ?_, ?_, ?_, ?_⟩ <;>
    simp [Sys.init, Handler.new, SyncPc.leaderHost, SyncPc.listed, SyncPc.pending, SyncPc.opened, List.mem_replicate]

theorem Sourced.mono {L' F' : String → Prop} (h : Sourced L F s) (hL : ∀ host, L host → L' host)
    (hF : ∀ host, F host → F' host) : Sourced L' F' s where
  leader host hh := hL host (h.leader host hh)
  listed host hh := hF host (h.listed host hh)
  pending name hn := hF name (h.pending name hn)
  slots x hx := hL x.addr (h.slots x hx)
  map key x hx := hF key.1 (h.map key x hx)

theorem Sourced.shrink (h : Sourced L F s) (hp : s'.sync.pc = s.sync.pc)
    (hc : s'.handler.leaderConns = s.handler.leaderConns)
    (hm : ∀ key x, s'.handler.followers.lookup key = some x → s.handler.followers.lookup key = some x) :
    Sourced L F s' := by
  refine ⟨?_, ?_, ?_, ?_, fun key x hl => h.map key x (hm key x hl)⟩
  · rw [hp]
    exact h.leader
  · rw [hp]
    exact h.listed
  · rw [hp]
    exact h.pending
  · rw [hc]
    exact h.slots

section
variable {closed : Nat → Bool} {fresh : Nat} {h h' : Handler} {pc pc' : SyncPc} {i : SyncInput}

theorem SyncMove.leaderHost (hb : SyncMove cfg closed fresh h pc i h' pc') {host : String}
    (hh : pc'.leaderHost = some host) : pc.leaderHost = some host ∨ ∃ fs, i = .discovered (some (host, fs)) := by
  cases hb with
  | discovered host' fs =>
    cases hh
    exact .inr ⟨fs, rfl⟩
  | fastFollowers anyLeader _ hor => rcases hor with rfl | rfl <;> cases hh
  | leaderSame | leaderChanged | leaderClear | leaderStore | leaderSnapshot | leaderConnected | leaderFailed
  | leaderFill | leaderRestore => exact .inl hh
  | _ => cases hh

theorem SyncMove.listed (hb : SyncMove cfg closed fresh h pc i h' pc') {f : String} (hf : f ∈ pc'.listed) :
    f ∈ pc.listed ∨ ∃ host fs, i = .discovered (some (host, fs)) ∧ f ∈ fs := by
  cases hb with
  | discovered host fs => exact .inr ⟨host, fs, rfl, hf⟩
  | fastFollowers anyLeader _ hor => rcases hor with rfl | rfl <;> cases hf
  | leaderSame | leaderChanged | leaderClear | leaderStore | leaderSnapshot | leaderConnected | leaderFailed
  | leaderFill | leaderRestore | leaderDone => exact .inl hf
  | _ => cases hf

theorem SyncPc.pending.target {name : String} (hn : pc.pending name) : ∃ fs, pc.target = some fs := by
  rcases hn with ⟨conns, hn⟩ | ⟨fs, todo, new, rfl, -⟩
  · cases pc <;> first | exact ⟨_, rfl⟩ | cases hn
  · exact ⟨fs, rfl⟩

theorem SyncMove.pending_from (hb : SyncMove cfg closed fresh h pc i h' pc') {name : String}
    (hn : pc'.pending name) : pc.pending name ∨ name ∈ pc.listed ∨
      ∃ key x, h.followers.lookup key = some x ∧ key.1 = name := by
  obtain ⟨fs', ht'⟩ := hn.target
  by_cases ht : ∃ fs, pc.target = some fs
  · obtain ⟨fs, ht⟩ := ht
    exact .inl (hb.pending ht ht' name hn)
  · cases hb with
    | snapshot fs hosts required hr hperm =>
      right
      rcases hn with ⟨conns, hn⟩ | ⟨fs', todo, new, he, hn⟩
      · simp [SyncPc.opened] at hn
      · cases he
        obtain ⟨host, hhost, hrep⟩ := List.mem_flatMap.1 hn
        obtain ⟨-, rfl⟩ := List.mem_replicate.1 hrep
        refine (mem_requiredConns hr (AList.mem_keys.2 (hperm.mem_iff.1 hhost))).imp_right ?_
        rintro ⟨e, he, rfl⟩
        obtain ⟨⟨key, x⟩, hx, rfl⟩ := List.mem_map.1 he
        exact ⟨key, x, mem_entries_iff.1 hx, rfl⟩
    | fastFollowers anyLeader _ hor => rcases hor with rfl | rfl <;> cases ht'
    | connectDone | connected | connectFailed | writeLock | readHistory | assign | noIndex | hostDone
    | insertConn | recordHistory => exact absurd ⟨_, rfl⟩ ht
    | _ => cases ht'

/-- What a move of the sync task puts into the pools. -/
theorem SyncMove.fills (hb : SyncMove cfg closed fresh h pc i h' pc') :
    (∀ x, some x ∈ h'.leaderConns → some x ∈ h.leaderConns ∨
        ∃ host fs j required, pc = .leaderFill host fs j required x) ∧
      ∀ key x, h'.followers.lookup key = some x → h.followers.lookup key = some x ∨ pc.pending key.1 := by
  cases hb with
  | leaderClear host fs =>
    refine ⟨fun x hx => ?_, fun key x hl => .inl hl⟩
    simp at hx
  | leaderFill host fs j required conn =>
    refine ⟨fun x hx => ?_, fun key x hl => .inl hl⟩
    rcases List.mem_or_eq_of_mem_set hx with hx | hx
    · exact .inl hx
    · cases hx
      exact .inr ⟨host, fs, j, required, rfl⟩
  | insertConn fs todo free assigned name nidx j freeConns c conns =>
    refine ⟨fun x hx => .inl hx, fun key x hl => ?_⟩
    rcases lookup_insert_iff.1 hl with ⟨rfl, -⟩ | ⟨-, hl⟩
    · exact .inr (.inl ⟨c :: conns, .inl rfl⟩)
    · exact .inl hl
  | _ => exact ⟨fun x hx => .inl hx, fun key x hl => .inl hl⟩

end

theorem Sourced.step (h : Sourced L F s) (hl : LeaderInv cfg s)
    (hd : ∀ host fs, l = .sync (.discovered (some (host, fs))) → L host ∧ ∀ f ∈ fs, F f)
    (hs : s.step cfg l = some s') : Sourced L F s' := by
  cases Sys.Move.of_step hs with
  | sel k sel handler pc' hk hw hb => exact h.shrink rfl hb.leader.1 fun _ _ hl => hb.followers hl
  | sync i handler pc' hw hb =>
    obtain ⟨hslots, hmap⟩ := hb.fills
    refine ⟨fun host hh => ?_, fun f hf => ?_, fun name hn => ?_, fun x hx => ?_, fun key x hx => ?_⟩
    · rcases hb.leaderHost hh with hh | ⟨fs, rfl⟩
      · exact h.leader host hh
      · exact (hd host fs rfl).1
    · rcases hb.listed hf with hold | ⟨host, fs, rfl, hnew⟩
      · exact h.listed f hold
      · exact (hd host fs rfl).2 f hnew
    · rcases hb.pending_from hn with hn | hn | ⟨key, x, hx, rfl⟩
      · exact h.pending name hn
      · exact h.listed name hn
      · exact h.map key x hx
    · rcases hslots x hx with hx | ⟨host, fs, j, required, hpc⟩
      · exact h.slots x hx
      · rw [(hl.filling host fs j required x hpc).1]
        exact h.leader host (by rw [hpc]; rfl)
    · exact (hmap key x hx).elim (h.map key x) (h.pending key.1)
  | rehashFollowers followers hperm =>
    exact h.shrink rfl rfl fun key x hx => (AList.perm_lookup hperm).symm.trans hx
  | _ => exact h.shrink rfl rfl fun _ _ hx => hx

/-! ### From the pools to the connections -/

/-- A write may go to the host as a leader, a read as a follower. -/
def Aim (L F : String → Prop) (isWrite : Bool) (host : String) : Prop := if isWrite then L host else F host

/-- Where a selection of a write, or of a read, stands. -/
def SelPc.Aimed (L F : String → Prop) (s : Sys) (isWrite : Bool) : SelPc → Prop
  | .idle => True
  | .ret none => True
  | .ret (some x) => s.Valid x ∧ Aim L F isWrite x.addr
  | .lLock => isWrite = true
  | .lSlots _ => isWrite = true
  | .lScan .. => isWrite = true
  | .lClean .. => isWrite = true
  | _ => isWrite = false

structure Aimed (L F : String → Prop) (s : Sys) : Prop where
  opened : ∀ (c : Nat) (conn : Conn), s.mux.conns[c]? = some conn → L conn.addr ∨ F conn.addr
  sels : ∀ (k : Nat) (sel : Sel) (call : Call), s.sels[k]? = some sel → s.mux.calls[k]? = some call →
    sel.pc.Aimed L F s call.isWrite
  calls : ∀ (k : Nat) (call : Call) (c : Nat), s.mux.calls[k]? = some call → call.pc.conn = some c →
    ∃ conn, s.mux.conns[c]? = some conn ∧ Aim L F call.isWrite conn.addr
  accepted : ∀ (c : Nat) (conn : Conn), s.mux.conns[c]? = some conn → ∀ e ∈ conn.accepted,
    ∃ call, s.mux.calls[e.1.call]? = some call ∧ Aim L F call.isWrite conn.addr

theorem Aim.mono {L' F' : String → Prop} {w : Bool} {host : String} (h : Aim L F w host)
    (hL : ∀ host, L host → L' host) (hF : ∀ host, F host → F' host) : Aim L' F' w host := by
  cases w with
  | true => exact hL host h
  | false => exact hF host h

theorem SelPc.Aimed.mono {L' F' : String → Prop} {w : Bool} {pc : SelPc} (h : pc.Aimed L F s w)
    (hL : ∀ host, L host → L' host) (hF : ∀ host, F host → F' host) (hv : ∀ x, s.Valid x → s'.Valid x) :
    pc.Aimed L' F' s' w := by
  unfold SelPc.Aimed at h ⊢
  split at h
  · trivial
  · trivial
  · exact ⟨hv _ h.1, h.2.mono hL hF⟩
  all_goals exact h

theorem Aimed.mono {L' F' : String → Prop} (h : Aimed L F s) (hL : ∀ host, L host → L' host)
    (hF : ∀ host, F host → F' host) : Aimed L' F' s where
  opened c conn hc := (h.opened c conn hc).imp (hL _) (hF _)
  sels k sel call hk hc := (h.sels k sel call hk hc).mono hL hF fun _ hx => hx
  calls k call c hk hp := by
    obtain ⟨conn, hc, ha⟩ := h.calls k call c hk hp
    exact ⟨conn, hc, ha.mono hL hF⟩
  accepted c conn hc e he := by
    obtain ⟨call, hk, ha⟩ := h.accepted c conn hc e he
    exact ⟨call, hk, ha.mono hL hF⟩

theorem Aimed.init : Aimed L F (Sys.init cfg) := by
  refine ⟨?_, ?_, ?_, ?_⟩ <;> simp [Sys.init]

theorem CallStep.conn {m : Mux} {l : MuxLabel} {k c : Nat} {call call' : Call} (h : CallStep m l k call call')
    (hc : call'.pc.conn = some c) : call.pc.conn = some c ∨ l = .selected k (some c) := by
  cases h with
  | refl | slot => exact .inl hc
  | selected c' hl hp =>
    cases hc
    exact .inr hl
  | draw c' conn hl hp | lockStore c' id t hp | store c' id t s hp | send c' id hl hp =>
    cases hc
    exact .inl (by rw [hp]; rfl)
  | noConn | refused | dropped =>
    unfold Call.retry at hc
    dsimp only at hc
    split at hc <;> cases hc
  | _ => cases hc

theorem Sys.syncMux_connects (m : Mux) (pc : SyncPc) (i : SyncInput) :
    syncMux m pc i = m ∨ ∃ host, m.step cfg (.connect host) = some (syncMux m pc i) ∧
      (pc.leaderHost = some host ∨ pc.pending host) := by
  unfold syncMux
  split
  next host fs j required => exact .inr ⟨host, rfl, .inl rfl⟩
  next fs host todo new => exact .inr ⟨host, rfl, .inr (.inr ⟨fs, host :: todo, new, rfl, List.mem_cons_self ..⟩)⟩
  next => exact .inl rfl

/-- A call is given a connection by its selection, which has returned it; a connection is opened by the sync task,
to a host it works on. -/
theorem Sys.mux_causes (hs : s.step cfg l = some s') :
    s'.mux = s.mux ∨ ∃ l', s.mux.step cfg l' = some s'.mux ∧
      (∀ k c, l' = .selected k (some c) → ∃ sel x, s.sels[k]? = some sel ∧ sel.pc = .ret (some x) ∧ x.id = c) ∧
        ∀ host, l' = .connect host → s.sync.pc.leaderHost = some host ∨ s.sync.pc.pending host := by
  cases Sys.Move.of_step hs with
  | selReturn k sel r mux hk hpc hm =>
    refine .inr ⟨.selected k (r.map Connection.id), hm, fun k' c he => ?_, nofun⟩
    simp only [MuxLabel.selected.injEq, Option.map_eq_some_iff] at he
    obtain ⟨rfl, x, rfl, rfl⟩ := he
    exact ⟨sel, x, hk, hpc, rfl⟩
  | lockReader c mux hm => exact .inr ⟨.lockLoad c, hm, nofun, nofun⟩
  | lockStore k sel mux _ _ hm => exact .inr ⟨.lockStore k, hm, nofun, nofun⟩
  | sel k sel handler pc' hk _ _ =>
    exact (Sys.selMux_step s.mux sel.pc).imp_right fun ⟨c, start, _, hm⟩ => ⟨.cleanup c start, hm, nofun, nofun⟩
  | sync i handler pc' _ _ =>
    refine (Sys.syncMux_connects s.mux s.sync.pc i).imp_right fun ⟨host, hm, hh⟩ =>
      ⟨.connect host, hm, nofun, fun host' he => ?_⟩
    cases he
    exact hh
  | spawn w f mux hm => exact .inr ⟨.spawn w f, hm, nofun, nofun⟩
  | mux l mux hm _ hi _ =>
    refine .inr ⟨l, hm, ?_, ?_⟩
    · rintro k c rfl
      cases hi
    · rintro host rfl
      cases hi
  | _ => exact .inl rfl

theorem Sys.sel_at_step {k : Nat} {sel' : Sel} (hs : s.step cfg l = some s') (hk : s'.sels[k]? = some sel') :
    sel'.pc = .idle ∨ ∃ sel, s.sels[k]? = some sel ∧ (sel'.pc = sel.pc ∨
      (∃ call, s.mux.calls[k]? = some call ∧ sel'.pc = if call.isWrite then .lLock else .fLen) ∨
        SelMove cfg s.closed s.mux.now s.handler sel.pc s'.handler sel'.pc) := by
  have set : ∀ {k₀ x}, s'.sels = s.sels.set k₀ x → k = k₀ ∧ sel' = x ∨ s.sels[k]? = some sel' := by
    intro k₀ x hsels
    rw [hsels, List.getElem?_set] at hk
    split at hk
    · split at hk
      · exact .inl ⟨Eq.symm ‹_›, (Option.some.inj hk).symm⟩
      · cases hk
    · exact .inr hk
  cases Sys.Move.of_step hs with
  | lockSel k₀ sel lm hk₀ hw hf =>
    rcases set rfl with ⟨rfl, rfl⟩ | hold
    · exact .inr ⟨sel, hk₀, .inl rfl⟩
    · exact .inr ⟨sel', hold, .inl rfl⟩
  | selStart k₀ sel call hk₀ hpc hc hcp =>
    rcases set rfl with ⟨rfl, rfl⟩ | hold
    · exact .inr ⟨sel, hk₀, .inr (.inl ⟨call, hc, rfl⟩)⟩
    · exact .inr ⟨sel', hold, .inl rfl⟩
  | selReturn k₀ sel r mux hk₀ hpc hm =>
    rcases set rfl with ⟨rfl, rfl⟩ | hold
    · exact .inl rfl
    · exact .inr ⟨sel', hold, .inl rfl⟩
  | sel k₀ sel handler pc' hk₀ hw hb =>
    rcases set rfl with ⟨rfl, rfl⟩ | hold
    · exact .inr ⟨sel, hk₀, .inr (.inr hb)⟩
    · exact .inr ⟨sel', hold, .inl rfl⟩
  | spawn w f mux hm =>
    rcases getElem?_snoc hk with hold | ⟨-, rfl⟩
    · exact .inr ⟨sel', hold, .inl rfl⟩
    · exact .inl rfl
  | _ => exact .inr ⟨sel', hk, .inl rfl⟩

theorem SelMove.aimed {h' : Handler} {pc pc' : SelPc} {w : Bool}
    (hb : SelMove cfg s.closed s.mux.now s.handler pc h' pc') (hp : pc.Aimed L F s w) (hso : Sourced L F s)
    (hl : LeaderInv cfg s) (hf : FollowerInv cfg s) : pc'.Aimed L F s w := by
  have next : ∀ left, w = false → (fNext left).Aimed L F s w := by
    intro left hw
    unfold fNext
    split
    · trivial
    · exact hw
  cases hb with
  | fLen | fSkip | fOver => exact next _ hp
  | fFound left node j tried x ht hlk hx =>
    obtain ⟨haddr, hv, -⟩ := hf.map _ x hlk
    have hw : w = false := hp
    refine ⟨hv, ?_⟩
    rw [hw, haddr]
    exact hso.map _ x hlk
  | lFound left next x hx hc =>
    have hw : w = true := hp
    have hslot := List.mem_of_getElem? hx
    refine ⟨(hl.slots x hslot).2, ?_⟩
    rw [hw]
    exact hso.slots x hslot
  | lNone | lOver => trivial
  | _ => exact hp

theorem Aimed.step (h : Aimed L F s) (hso : Sourced L F s) (hl : LeaderInv cfg s) (hf : FollowerInv cfg s)
    (hsel : SelInv s) (hs : s.step cfg l = some s') : Aimed L F s' := by
  -- calls and connections after the step, and what they were before it
  have callBack : ∀ {k call'}, s'.mux.calls[k]? = some call' →
      (∃ call, s.mux.calls[k]? = some call ∧ call'.isWrite = call.isWrite) ∨ s.mux.calls.length ≤ k := by
    intro k call' hk'
    rcases Sys.mux_project hs with he | ⟨l', hm, -⟩
    · exact .inl ⟨call', he ▸ hk', rfl⟩
    · rcases Mux.step_call hm hk' with ⟨call, hk, hstep⟩ | ⟨hlen, -⟩
      · exact .inl ⟨call, hk, hstep.isWrite⟩
      · exact .inr hlen.ge
  refine ⟨?_, ?_, ?_, ?_⟩
  · intro c conn' hc'
    rcases Sys.mux_causes hs with he | ⟨l', hm, -, hopen⟩
    · rw [he] at hc'
      exact h.opened c conn' hc'
    · rcases Mux.step_conn hm hc' with ⟨conn, hc, hstep⟩ | ⟨-, host, hl', rfl⟩
      · rw [Sys.addr_of_connStep hstep]
        exact h.opened c conn hc
      · exact (hopen host hl').imp (hso.leader host) (hso.pending host)
  · intro k sel' call' hk' hc'
    have hv : ∀ x, s.Valid x → s'.Valid x := fun x hx => hx.step hs
    rcases Sys.sel_at_step hs hk' with hidle | ⟨sel, hk, hpc⟩
    · rw [hidle]
      trivial
    · have hlt := (List.getElem?_eq_some_iff.1 hk).1
      rcases callBack hc' with ⟨call, hc, hw⟩ | hlen
      · have hp := h.sels k sel call hk hc
        rw [hw]
        rcases hpc with hpc | ⟨call₀, hc₀, hpc⟩ | hb
        · rw [hpc]
          exact hp.mono (fun _ hx => hx) (fun _ hx => hx) hv
        · cases Option.some.inj (hc.symm.trans hc₀)
          rw [hpc]
          cases hcw : call.isWrite <;> rfl
        · exact (hb.aimed hp hso hl hf).mono (fun _ hx => hx) (fun _ hx => hx) hv
      · rw [hsel.size] at hlt
        exact absurd hlt (Nat.not_lt.2 hlen)
  · intro k call' c hk' hp'
    rcases Sys.mux_causes hs with he | ⟨l', hm, hret, -⟩
    · rw [he] at hk' ⊢
      exact h.calls k call' c hk' hp'
    · rcases Mux.step_call hm hk' with ⟨call, hk, hstep⟩ | ⟨-, w, f, -, rfl⟩
      · have hold : ∃ conn, s.mux.conns[c]? = some conn ∧ Aim L F call.isWrite conn.addr := by
          rcases hstep.conn hp' with hp | hl'
          · exact h.calls k call c hk hp
          · obtain ⟨sel, x, hks, hpc, rfl⟩ := hret k c hl'
            have hp := h.sels k sel call hks hk
            rw [hpc] at hp
            obtain ⟨⟨conn, hconn, haddr⟩, haim⟩ := hp
            exact ⟨conn, hconn, haddr ▸ haim⟩
        obtain ⟨conn, hconn, haim⟩ := hold
        obtain ⟨conn', hconn', hcs⟩ := Mux.step_conn_fwd hm hconn
        refine ⟨conn', hconn', ?_⟩
        rw [hstep.isWrite, Sys.addr_of_connStep hcs]
        exact haim
      · cases hp'
  · intro c conn' hc' e he
    rcases Sys.mux_project hs with heq | ⟨l', hm, -⟩
    · rw [heq] at hc' ⊢
      exact h.accepted c conn' hc' e he
    · have hold : ∃ call, s.mux.calls[e.1.call]? = some call ∧ Aim L F call.isWrite conn'.addr := by
        rcases Mux.step_conn hm hc' with ⟨conn, hc, hstep⟩ | ⟨-, host, -, rfl⟩
        · rw [Sys.addr_of_connStep hstep]
          obtain hacc | ⟨k, call, id, -, hk, hp, hacc⟩ := hstep.accepted
          · exact h.accepted c conn hc e (hacc ▸ he)
          · rw [hacc] at he
            rcases List.mem_append.1 he with he | he
            · exact h.accepted c conn hc e he
            · obtain rfl := List.mem_singleton.1 he
              obtain ⟨conn₀, hc₀, haim⟩ := h.calls k call c hk (by rw [hp]; rfl)
              cases Option.some.inj (hc.symm.trans hc₀)
              exact ⟨call, hk, haim⟩
        · cases he
      obtain ⟨call, hk, haim⟩ := hold
      obtain ⟨call', hk', hcs⟩ := Mux.step_call_fwd hm hk
      exact ⟨call', hk', hcs.isWrite ▸ haim⟩

/-! ### The bridge -/

structure Routed (L F : String → Prop) (s : Sys) : Prop where
  sourced : Sourced L F s
  aimed : Aimed L F s

theorem Routed.mono {L' F' : String → Prop} (h : Routed L F s) (hL : ∀ host, L host → L' host)
    (hF : ∀ host, F host → F' host) : Routed L' F' s :=
  ⟨h.sourced.mono hL hF, h.aimed.mono hL hF⟩

theorem Routed.step (h : Routed L F s) (hr : Reach (Sys.step cfg) (Sys.init cfg) s)
    (hd : ∀ host fs, l = .sync (.discovered (some (host, fs))) → L host ∧ ∀ f ∈ fs, F f)
    (hs : s.step cfg l = some s') : Routed L F s' :=
  ⟨h.sourced.step (.of_reach hr) hd hs,
    h.aimed.step h.sourced (.of_reach hr) (.of_reach hr) (.of_reach hr) hs⟩

theorem Routed.serverStep {t t' : Server} {lm : ServerLabel} (h : Routed L F t.sys)
    (hr : Reach (Sys.step cfg) (Sys.init cfg) t.sys)
    (hd : ∀ host fs, lm = .sys (.sync (.discovered (some (host, fs)))) → L host ∧ ∀ f ∈ fs, F f)
    (hs : t.step cfg lm = some t') : Routed L F t'.sys := by
  cases Server.Move.of_step hs with
  | dispatch i x client f sys queued _ _ _ hsys => exact h.step hr (fun _ _ he => absurd he (by simp)) hsys
  | sys l sys _ hsys => exact h.step hr (fun host fs he => hd host fs (by rw [he])) hsys
  | _ => exact h

namespace Bridge

variable {b b' : Bridge} {lb : BridgeLabel}

theorem step_some (h : b.step cfg lb = some b') :
    (∃ x, lb = .discover x ∧
        b.server.step cfg (.sys (.sync (.discovered
          ((discover x b.knownNodeIds).topology.map fun t => (t.leader, t.followers))))) = some b'.server ∧
        b'.knownNodeIds = (discover x b.knownNodeIds).knownNodeIds ∧
        b'.discoveries = b.discoveries ++ [(x, b.knownNodeIds)]) ∨
      ∃ l, lb = .server l ∧ b.server.step cfg l = some b'.server ∧ (∀ t, l ≠ .sys (.sync (.discovered t))) ∧
        b'.knownNodeIds = b.knownNodeIds ∧ b'.discoveries = b.discoveries := by
  cases lb with
  | discover x =>
    obtain ⟨server, hs, he⟩ := Option.bind_eq_some_iff.1 h
    cases he
    exact .inl ⟨x, rfl, hs, rfl, rfl⟩
  | server l =>
    unfold step at h
    split at h
    case h_2 => cases h
    case h_1 => simp_all
    case h_3 l' hne he =>
      cases he
      obtain ⟨server, hs, he⟩ := Option.bind_eq_some_iff.1 h
      cases he
      exact .inr ⟨l, rfl, hs, fun t ht => hne t (by rw [ht]), rfl, rfl⟩

/-- A discovery of the run has named the host as the leader. -/
def Led (b : Bridge) (host : String) : Prop :=
  ∃ e ∈ b.discoveries, ∃ topo, (discover e.1 e.2).topology = some topo ∧ topo.leader = host

/-- A discovery of the run has named the host among the followers. -/
def Followed (b : Bridge) (host : String) : Prop :=
  ∃ e ∈ b.discoveries, ∃ topo, (discover e.1 e.2).topology = some topo ∧ host ∈ topo.followers

theorem reach_server (h : Reach (step cfg) (init cfg) b) : Reach (Server.step cfg) (Server.init cfg) b.server := by
  refine h.project (f := Bridge.server) fun b lb b' hs => .inr ?_
  obtain ⟨x, -, hs, -⟩ | ⟨l, -, hs, -⟩ := step_some hs
  · exact ⟨_, hs⟩
  · exact ⟨l, hs⟩

theorem routed_step (hi : Routed b.Led b.Followed b.server.sys) (hr : Reach (step cfg) (init cfg) b)
    (hs : b.step cfg lb = some b') : Routed b'.Led b'.Followed b'.server.sys := by
  have hsys := Server.reach_sys (reach_server hr)
  obtain ⟨x, -, hserver, -, hd⟩ | ⟨l, -, hserver, hne, -, hd⟩ := step_some hs
  · have hled : ∀ host, b.Led host → b'.Led host := by
      rintro host ⟨e, he, ht⟩
      exact ⟨e, by rw [hd]; exact List.mem_append_left _ he, ht⟩
    have hfol : ∀ host, b.Followed host → b'.Followed host := by
      rintro host ⟨e, he, ht⟩
      exact ⟨e, by rw [hd]; exact List.mem_append_left _ he, ht⟩
    refine (hi.mono hled hfol).serverStep hsys (fun host fs he => ?_) hserver
    have hlast : (x, b.knownNodeIds) ∈ b'.discoveries := by simp [hd]
    simp only [ServerLabel.sys.injEq, SysLabel.sync.injEq, SyncInput.discovered.injEq, Option.map_eq_some_iff] at he
    obtain ⟨topo, ht, he⟩ := he
    cases he
    exact ⟨⟨_, hlast, topo, ht, rfl⟩, fun f hf => ⟨_, hlast, topo, ht, hf⟩⟩
  · have hled : b'.Led = b.Led := by
      funext host
      rw [Led, Led, hd]
    have hfol : b'.Followed = b.Followed := by
      funext host
      rw [Followed, Followed, hd]
    rw [hled, hfol]
    exact hi.serverStep hsys (fun host fs he => absurd he (hne _)) hserver

theorem routed (h : Reach (step cfg) (init cfg) b) : Routed b.Led b.Followed b.server.sys :=
  h.induct (I := fun b => Routed b.Led b.Followed b.server.sys) ⟨.init, .init⟩ fun _ _ _ hr hi hs =>
    routed_step hi hr hs

/-- The results of an attempt that a discovery of the run made. -/
def Probed (b : Bridge) (R : List Probe) : Prop :=
  ∃ x known a seedIds, (x, known) ∈ b.discoveries ∧
    (a = x.known ∧ seedIds = known ∨ a = x.fallback ∧ x.rzid = .ok seedIds) ∧ R = a.results seedIds

/-- A topology that `discover` returns is one that an attempt of its own elected. -/
theorem topology_elected {x : Encounter} {known : List String} {topo : ClusterTopology}
    (h : (discover x known).topology = some topo) :
    ∃ a seedIds, (a = x.known ∧ seedIds = known ∨ a = x.fallback ∧ x.rzid = .ok seedIds) ∧
      ∃ leaderId, Elected (a.results seedIds) leaderId ∧ IsTopology (a.results seedIds) leaderId topo := by
  have elected : ∀ {a : Attempt} {seedIds observed t}, discoverFromSeeds a seedIds = .ok (t, observed) →
      ∃ leaderId, Elected (a.results seedIds) leaderId ∧ IsTopology (a.results seedIds) leaderId t :=
    fun hok => (electLeader_spec _ fun _ hp => Attempt.results_host hp).1 _ (discoverFromSeeds_ok hok).1
  have hd := Discovers.of_discover x known
  generalize discover x known = d at h hd
  cases hd with
  | fromKnown t observed _ hok =>
    cases h
    exact ⟨x.known, known, .inl ⟨rfl, rfl⟩, elected hok⟩
  | fromRzid seedIds t observed _ hrzid hok =>
    cases h
    exact ⟨x.fallback, seedIds, .inr ⟨rfl, hrzid⟩, elected hok⟩
  | failed e _ _ => cases h

theorem Led.elected {host : String} (h : b.Led host) :
    ∃ R leaderId d, b.Probed R ∧ Elected R leaderId ∧ keptAt R host = some d ∧ d.Is "active_leader" leaderId := by
  obtain ⟨⟨x, known⟩, he, topo, ht, rfl⟩ := h
  obtain ⟨a, seedIds, ha, leaderId, hel, hto⟩ := topology_elected ht
  obtain ⟨d, hd, his⟩ := hto.leader
  exact ⟨_, leaderId, d, ⟨x, known, a, seedIds, he, ha, rfl⟩, hel, hd, his⟩

theorem Followed.elected {host : String} (h : b.Followed host) :
    ∃ R leaderId d, b.Probed R ∧ Elected R leaderId ∧ keptAt R host = some d ∧ d.Is "active_follower" leaderId := by
  obtain ⟨⟨x, known⟩, he, topo, ht, hmem⟩ := h
  obtain ⟨a, seedIds, ha, leaderId, hel, hto⟩ := topology_elected ht
  obtain ⟨d, hd, his⟩ := (hto.followers host).1 hmem
  exact ⟨_, leaderId, d, ⟨x, known, a, seedIds, he, ha, rfl⟩, hel, hd, his⟩

/-- RzID knows one node, which resolves to the host `a` and leads. -/
def oneNode : Encounter :=
  let order {α : Type} : Shuffle α := ⟨fun l => l, fun l => .refl l⟩
  let attempt : Attempt :=
    { seedResponses _ := ⟨.ok "a", .ok "active_leader", .ok "n", .ok []⟩
      peerResponses _ := ⟨.error .timeout, .error .timeout, .error .timeout, .error .timeout⟩
      peerOrder := order
      nodeOrder := order
      voteOrder := order }
  ⟨attempt, .ok ["n"], attempt⟩

/-- The bridge discovers it and forwards a write to it. -/
def oneNodeRun : List BridgeLabel :=
  List.flatten
    [[.server (.sys (.sync .slowTick)), .server (.sys (.sync .go)), .discover oneNode],
      ((Sys.leaderUp "a" []).drop 3).map fun l => .server (.sys l),
      [.server .accept], (Server.writeRequest 0 0 (prependHeader 9 [5])).map .server]

theorem knows (h : Reach (step cfg) (init cfg) b) :
    ∀ e ∈ b.discoveries, (discover e.1 e.2).topology ≠ none → b.knownNodeIds ≠ [] := by
  refine h.induct (I := fun b => ∀ e ∈ b.discoveries, (discover e.1 e.2).topology ≠ none → b.knownNodeIds ≠ [])
    (by simp [init]) ?_
  intro b lb b' _ ih hs e he ht
  obtain ⟨x, -, -, hk, hd⟩ | ⟨l, -, -, -, hk, hd⟩ := step_some hs
  · rw [hk]
    rw [hd] at he
    refine (Discovers.of_discover x b.knownNodeIds).ne_nil ?_
    rcases List.mem_append.1 he with he | he
    · exact .inl (ih e he ht)
    · obtain rfl := List.mem_singleton.1 he
      right
      unfold Discovery.topology at ht
      split at ht
      next topo hok => exact ⟨topo, hok⟩
      next => exact absurd rfl ht
  · rw [hk]
    exact ih e (hd ▸ he) ht

/-- In every run of the bridge: connections are opened only to hosts that an attempt at discovery of this run
found to follow the id it elected, active as leader or as follower; and as long as no node ids are known there is
no connection at all. -/
theorem connections_to_elected (h : Reach (step cfg) (init cfg) b) :
    (∀ conn ∈ b.server.sys.mux.conns, ∃ R leaderId d, b.Probed R ∧ Elected R leaderId ∧
      keptAt R conn.addr = some d ∧ (d.Is "active_leader" leaderId ∨ d.Is "active_follower" leaderId)) ∧
      (b.knownNodeIds = [] → b.server.sys.mux.conns = []) := by
  have named : ∀ conn ∈ b.server.sys.mux.conns, b.Led conn.addr ∨ b.Followed conn.addr := by
    intro conn hconn
    obtain ⟨c, hc⟩ := List.mem_iff_getElem?.1 hconn
    exact (routed h).aimed.opened c conn hc
  refine ⟨fun conn hconn => ?_, fun hnil => List.eq_nil_iff_forall_not_mem.2 fun conn hconn => ?_⟩
  · rcases named conn hconn with hh | hh
    · obtain ⟨R, leaderId, d, hR, hel, hd, his⟩ := hh.elected
      exact ⟨R, leaderId, d, hR, hel, hd, .inl his⟩
    · obtain ⟨R, leaderId, d, hR, hel, hd, his⟩ := hh.elected
      exact ⟨R, leaderId, d, hR, hel, hd, .inr his⟩
  · rcases named conn hconn with ⟨e, he, topo, ht, -⟩ | ⟨e, he, topo, ht, -⟩ <;>
      exact knows h e he (by simp [ht]) hnil

theorem connections_to_elected_one : ∃ b, Reach (step {}) (init {}) b ∧ b.server.sys.mux.conns.length = 1 ∧
    ∀ conn ∈ b.server.sys.mux.conns, ∃ R leaderId d, b.Probed R ∧ Elected R leaderId ∧
      keptAt R conn.addr = some d ∧ (d.Is "active_leader" leaderId ∨ d.Is "active_follower" leaderId) := by
  obtain ⟨b, -, hr, hp⟩ := Reach.of_any (step {}) (init {}) oneNodeRun
    (fun b => b.server.sys.mux.conns.length = 1) (by decide +kernel)
  exact ⟨b, hr, of_decide_eq_true hp, (connections_to_elected hr).1⟩

/-- In every run of the bridge, whatever the probes return and however the elections, the syncs and the requests
are interleaved: a backend connection accepts the frame of a write only at a host that, in an attempt at discovery
of this run, was an active leader following the elected id, and the frame of a read only at a host that was an
active follower of it. -/
theorem frames_reach_elected (h : Reach (step cfg) (init cfg) b) {c : Nat} {conn : Conn} {e : Tok × Bytes}
    (hc : b.server.sys.mux.conns[c]? = some conn) (he : e ∈ conn.accepted) :
    ∃ call, b.server.sys.mux.calls[e.1.call]? = some call ∧ ∃ R leaderId d, b.Probed R ∧ Elected R leaderId ∧
      keptAt R conn.addr = some d ∧
        d.Is (if call.isWrite then "active_leader" else "active_follower") leaderId := by
  obtain ⟨call, hk, haim⟩ := (routed h).aimed.accepted c conn hc e he
  refine ⟨call, hk, ?_⟩
  cases hw : call.isWrite with
  | true =>
    rw [hw] at haim
    exact Led.elected haim
  | false =>
    rw [hw] at haim
    exact Followed.elected haim

theorem frames_reach_elected_one : ∃ (b : Bridge) (conn : Conn), Reach (step {}) (init {}) b ∧
    b.server.sys.mux.conns[0]? = some conn ∧ conn.accepted.length = 1 ∧ b.knownNodeIds = ["n"] ∧
    ∀ e ∈ conn.accepted, ∃ call, b.server.sys.mux.calls[e.1.call]? = some call ∧ ∃ R leaderId d, b.Probed R ∧
      Elected R leaderId ∧ keptAt R conn.addr = some d ∧
        d.Is (if call.isWrite then "active_leader" else "active_follower") leaderId := by
  obtain ⟨b, -, hr, hp⟩ := Reach.of_any (step {}) (init {}) oneNodeRun
    (fun b => decide (b.knownNodeIds = ["n"]) && (b.server.sys.mux.conns[0]?).any fun (conn : Conn) =>
      conn.accepted.length = 1) (by decide +kernel)
  obtain ⟨hk, hp⟩ := Bool.and_eq_true_iff.1 hp
  obtain ⟨conn, hc, hlen⟩ := (Option.any_eq_true _ _).1 hp
  exact ⟨b, conn, hr, hc, of_decide_eq_true hlen, of_decide_eq_true hk, fun e he => frames_reach_elected hr hc he⟩

end Bridge
end RzBridge

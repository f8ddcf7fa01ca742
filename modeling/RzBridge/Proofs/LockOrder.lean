import RzBridge.Proofs.SysStep

/-!
# Lock order

A selection of a read takes `load_balancer` and then `followers`; `sync_followers` takes `followers`
and then `load_balancer`. All other nestings follow one order (the pool locks before `leader_conns`,
every one of them before a connection's demux lock), so a set of tasks waiting for each other
contains one selection stopped at its second lock and the sync task stopped at its second lock
(`deadlockFree_iff`). A run is free of circular waits exactly when no task goes for its second lock
while the other one is stopped at its own.
-/

namespace RzBridge
open Machine CircularWait

variable {cfg : Config} {s s' : Sys} {l : SysLabel}

/-! ### Selections and their calls -/

/-- There is one selection for each call, and a call whose selection runs stands at it. -/
structure SelInv (s : Sys) : Prop where
  size : s.sels.length = s.mux.calls.length
  select : ∀ (k : Nat) (sel : Sel) (call : Call), s.sels[k]? = some sel → s.mux.calls[k]? = some call →
    sel.pc ≠ .idle → call.pc = .select

theorem CallStep.select {m : Mux} {l : MuxLabel} {k : Nat} {call call' : Call} (h : CallStep m l k call call')
    (hp : call.pc = .select) (hl : ∀ r, l ≠ .selected k r) : call'.pc = .select := by
  cases h with
  | noConn r hr _ => exact absurd hr (hl r)
  | selected c hr _ => exact absurd hr (hl (some c))
  | slot s _ => exact hp
  | begin _ _ _ => rfl
  | wake _ => rfl
  | refl => exact hp
  | _ => simp_all

theorem SelInv.mux {m' : Mux} (h : SelInv s) (cfg : Config) (l' : MuxLabel)
    (hm : s.mux.step cfg l' = some m') (hl : ∀ k r, l' ≠ .selected k r) (hsp : ∀ w f, l' ≠ .spawn w f)
    (hs : s'.mux = m') (hsels : s'.sels = s.sels) :
    SelInv s' := by
  have hback : ∀ (k : Nat) (call' : Call), m'.calls[k]? = some call' →
      ∃ call, s.mux.calls[k]? = some call ∧ CallStep s.mux l' k call call' := by
    intro k call' hk'
    obtain h | ⟨-, w, f, hl', -⟩ := Mux.step_call hm hk'
    · exact h
    · exact absurd hl' (hsp w f)
  refine ⟨?_, ?_⟩
  · rw [hsels, hs, h.size]
    refine le_antisymm (Mux.step_size hm).2 (Nat.le_of_not_lt fun hlt => ?_)
    obtain ⟨call, hk, -⟩ := hback _ _ (List.getElem?_eq_getElem hlt)
    exact absurd (Mux.lt_of_call hk) (Nat.lt_irrefl _)
  · intro k sel call' hk hk' hpc
    rw [hsels] at hk
    rw [hs] at hk'
    obtain ⟨call, hc, hstep⟩ := hback k call' hk'
    exact hstep.select (h.select k sel call hk hc hpc) (hl k)

theorem SelInv.set {k : Nat} {sel : Sel} (h : SelInv s) (sel' : Sel) (hk : s.sels[k]? = some sel)
    (hpc : sel'.pc ≠ .idle → sel.pc ≠ .idle ∨ ∀ call, s.mux.calls[k]? = some call → call.pc = .select)
    (hm : s'.mux = s.mux) (hsels : s'.sels = s.sels.set k sel') : SelInv s' := by
  refine ⟨by rw [hsels, hm, List.length_set, h.size], ?_⟩
  intro k' x call hx hc hx'
  rw [hm] at hc
  rw [hsels, List.getElem?_set] at hx
  split at hx
  · subst ‹k = k'›
    split at hx
    · cases Option.some.inj hx
      rcases hpc hx' with hne | hsel
      · exact h.select k sel call hk hc hne
      · exact hsel call hc
    · cases hx
  · exact h.select k' x call hx hc hx'

theorem SelInv.step (h : SelInv s) (hs : s.step cfg l = some s') : SelInv s' := by
  cases Sys.Move.of_step hs with
  | lockSync lm hw hf => exact ⟨h.size, h.select⟩
  | lockReader c mux hm => exact h.mux cfg (.lockLoad c) hm (by simp) (by simp) rfl rfl
  | lockSel k sel lm hk hw hf => exact h.set { sel with held := true } hk (fun hp => .inl hp) rfl rfl
  | lockStore k sel mux hk hw hm => exact h.mux cfg (.lockStore k) hm (by simp) (by simp) rfl rfl
  | selStart k sel call hk hpc hc hcp =>
    refine h.set { pc := if call.isWrite then .lLock else .fLen } hk (fun _ => .inr fun call' hc' => ?_) rfl rfl
    rw [hc] at hc'
    exact (Option.some.inj hc') ▸ hcp
  | selReturn k sel r mux hk hpc hm =>
    obtain ⟨call, hc, -, hmux⟩ := Mux.callSelected_some hm
    have hcalls : ∀ k', k' ≠ k → mux.calls[k']? = s.mux.calls[k']? := by
      intro k' hne
      rcases hmux with rfl | ⟨c, conn, -, -, -, rfl⟩ <;>
        rw [Mux.setCall_calls _ (Mux.lt_of_call hc), if_neg hne.symm]
    refine ⟨?_, ?_⟩
    · rcases hmux with rfl | ⟨c, conn, -, -, -, rfl⟩ <;> simpa using h.size
    · intro k' x call' hx hc' hne
      rw [List.getElem?_set] at hx
      split at hx
      · split at hx
        · cases Option.some.inj hx
          exact absurd rfl hne
        · cases hx
      · exact h.select k' x call' hx ((hcalls k' (Ne.symm ‹_›)).symm.trans hc') hne
  | sel k sel handler pc' hk hw hb =>
    have hidle : sel.pc ≠ .idle := by
      intro he
      rw [he] at hb
      cases hb
    have h' : SelInv { s with sels := s.sels.set k { pc := pc' } } :=
      h.set { pc := pc' } hk (fun _ => .inl hidle) rfl rfl
    cases hpc : sel.pc with
    | fClean left node j tried c start =>
      exact h'.mux cfg (.cleanup c.id start) rfl (by simp) (by simp) rfl rfl
    | lClean left next c start =>
      exact h'.mux cfg (.cleanup c.id start) rfl (by simp) (by simp) rfl rfl
    | _ => exact ⟨h'.size, h'.select⟩
  | sync i handler pc' hw hb =>
    have hcalls : (Sys.syncMux s.mux s.sync.pc i).calls = s.mux.calls := by
      unfold Sys.syncMux
      split <;> rfl
    refine ⟨h.size.trans (by rw [hcalls]), fun k sel call hk hc => ?_⟩
    dsimp only at hc
    rw [hcalls] at hc
    exact h.select k sel call hk hc
  | spawn w f mux hm =>
    cases Option.some.inj hm
    refine ⟨by simp [h.size], fun k sel call hk hc hne => ?_⟩
    rcases getElem?_snoc hk with hk | ⟨-, rfl⟩
    · have hlt : k < s.sels.length := (List.getElem?_eq_some_iff.1 hk).1
      rw [List.getElem?_append_left (h.size ▸ hlt)] at hc
      exact h.select k sel call hk hc hne
    · exact absurd rfl hne
  | mux l mux hm hl hi hr =>
    refine h.mux cfg l hm ?_ hl rfl rfl
    rintro k r rfl
    cases hi
  | rehashHistory history hp => exact ⟨h.size, h.select⟩
  | rehashFollowers followers hp => exact ⟨h.size, h.select⟩

theorem SelInv.of_reach (h : Reach (Sys.step cfg) (Sys.init cfg) s) : SelInv s :=
  h.induct ⟨rfl, by simp [Sys.init]⟩ fun _ _ _ _ hi hs => hi.step hs

/-! ### Circular waits -/

/-- A selection holds `load_balancer` and waits for `followers`. -/
def Sys.SelStopped (s : Sys) : Prop :=
  ∃ (k : Nat) (sel : Sel), s.sels[k]? = some sel ∧ sel.held = false ∧ ∃ left node j, sel.pc = .fMap left node j

/-- The points of `sync_followers` at which it asks for `load_balancer`, holding `followers`. -/
def SyncPc.nested : SyncPc → Bool
  | .readHistory .. => true
  | .recordHistory .. => true
  | _ => false

/-- The sync task holds `followers` and waits for `load_balancer`. -/
def Sys.SyncStopped (s : Sys) : Prop := s.sync.held = false ∧ s.sync.pc.nested = true

/-- The nestings of the code: what a waiting task may hold. -/
inductive Nested (s : Sys) : Lock → Lock → Prop
  | balancerFollowers (h : s.SelStopped) : Nested s .followers .loadBalancer
  | followersBalancer (h : s.SyncStopped) : Nested s .loadBalancer .followers
  | balancerLeader : Nested s .leaderConns .loadBalancer
  | demux (c : Nat) (k : Lock) (hk : ∀ c', k ≠ .demux c') : Nested s (.demux c) k

theorem Sync.nested_of_waits {t : Sync} {lm hm : Lock × Mode} (hw : t.waits = some lm) (hh : hm ∈ t.holds) :
    lm.1 = .loadBalancer ∧ hm.1 = .followers ∧ t.held = false ∧ t.pc.nested = true := by
  obtain ⟨pc, held, synced⟩ := t
  cases held with
  | true => cases hw
  | false =>
    simp only [Sync.waits, Sync.holds, Bool.false_eq_true, if_false, List.append_nil] at hw hh
    cases pc <;> simp only [SyncPc.outer, List.not_mem_nil, List.mem_singleton] at hh <;> cases hw <;> subst hh
    all_goals exact ⟨rfl, rfl, rfl, rfl⟩

theorem Sel.nested_of_waits {t : Sel} {lm hm : Lock × Mode} (hw : t.waits = some lm) (hh : hm ∈ t.holds) :
    (lm.1 = .followers ∧ hm.1 = .loadBalancer ∧ t.held = false ∧ ∃ left node j, t.pc = .fMap left node j) ∨
      (lm.1 = .leaderConns ∧ hm.1 = .loadBalancer) ∨ (∃ c, lm.1 = .demux c) ∧ ∀ c, hm.1 ≠ .demux c := by
  obtain ⟨pc, held⟩ := t
  cases held with
  | true => cases hw
  | false =>
    simp only [Sel.waits, Sel.holds, Bool.false_eq_true, if_false, List.append_nil] at hw hh
    cases pc <;> simp only [SelPc.outer, List.not_mem_nil, List.mem_cons, or_false] at hh <;> cases hw
    case false.fMap.refl left node j =>
      subst hh
      exact .inl ⟨rfl, rfl, rfl, left, node, j, rfl⟩
    case false.lSlots.refl next =>
      subst hh
      exact .inr (.inl ⟨rfl, rfl⟩)
    case false.fClean.refl left node j tried c start =>
      refine .inr (.inr ⟨⟨c.id, rfl⟩, ?_⟩)
      rcases hh with rfl | rfl <;> simp
    case false.lClean.refl left next c start =>
      refine .inr (.inr ⟨⟨c.id, rfl⟩, ?_⟩)
      rcases hh with rfl | rfl <;> simp

theorem nested_of_waits (hi : SelInv s) {u : Task} {lm hm : Lock × Mode} (hw : s.waits u = some lm)
    (hh : hm ∈ s.holds u) : Nested s lm.1 hm.1 := by
  cases u with
  | sync =>
    obtain ⟨h₁, h₂, hheld, hn⟩ := Sync.nested_of_waits hw hh
    rw [h₁, h₂]
    exact .followersBalancer ⟨hheld, hn⟩
  | reader c =>
    cases hc : s.mux.conns[c]? with
    | none => simp [Sys.waits, hc] at hw
    | some conn =>
      simp only [Sys.waits, Sys.holds, hc, Option.bind_some, Option.elim_some] at hw hh
      cases hr : conn.reader with
      | lookup hdr f held => cases held <;> simp [hr, ReaderPc.waits, ReaderPc.holds] at hw hh
      | _ => simp [hr, ReaderPc.waits] at hw
  | call k =>
    -- a call that waits in its selection holds nothing else, and one that waits at `store` has no selection running
    cases hk : s.sels[k]? with
    | none =>
      have hn : s.mux.calls[k]? = none := by
        rw [List.getElem?_eq_none_iff, ← hi.size, ← List.getElem?_eq_none_iff]
        exact hk
      simp [Sys.waits, hk, hn] at hw
    | some sel =>
      have hklt := (List.getElem?_eq_some_iff.1 hk).1
      obtain ⟨call, hc⟩ : ∃ call, s.mux.calls[k]? = some call :=
        ⟨_, List.getElem?_eq_getElem (hi.size ▸ hklt)⟩
      simp only [Sys.waits, Sys.holds, hk, hc, Option.bind_some, Option.elim_some] at hw hh
      by_cases hidle : sel.pc = .idle
      · have hsw : sel.waits = none := by simp [Sel.waits, hidle, SelPc.awaits]
        have hsh : sel.holds = [] := by simp [Sel.holds, hidle, SelPc.outer, SelPc.awaits]
        rw [hsw, Option.none_or] at hw
        rw [hsh, List.nil_append] at hh
        cases hpc : call.pc with
        | store c id t held => cases held <;> simp [hpc, CallPc.waits, CallPc.holds] at hw hh
        | _ => simp [hpc, CallPc.waits] at hw
      · have hcp := hi.select k sel call hk hc hidle
        rw [hcp] at hw hh
        simp only [CallPc.waits, CallPc.holds, Option.or_none, List.append_nil] at hw hh
        rcases Sel.nested_of_waits hw hh with ⟨h₁, h₂, hheld, hpc⟩ | ⟨h₁, h₂⟩ | ⟨⟨c, h₁⟩, h₂⟩
        · rw [h₁, h₂]
          exact .balancerFollowers ⟨k, sel, hk, hheld, hpc⟩
        · rw [h₁, h₂]
          exact .balancerLeader
        · rw [h₁]
          exact .demux c hm.1 h₂

/-- Where a lock stands in an order that puts `load_balancer` and `followers` at `a` and `b`. -/
def Lock.rank (a b : Nat) : Lock → Nat
  | .loadBalancer => a
  | .followers => b
  | .leaderConns => 2
  | .demux _ => 3

theorem deadlockFree_of_order (hi : SelInv s) (a b : Nat) (ha : a < 2) (hb : b < 2)
    (hab : s.SelStopped → a < b) (hba : s.SyncStopped → b < a) : DeadlockFree s.holds s.waits := by
  refine deadlockFree_of_rank (fun u => ((s.waits u).elim 0 fun lm => lm.1.rank a b)) ?_
  rintro t u - ⟨k, m, m', hw, hh, -⟩ hu
  obtain ⟨lm, hlm⟩ := Option.ne_none_iff_exists'.1 hu
  have hn : Nested s lm.1 k := nested_of_waits hi hlm hh
  simp only [hw, hlm, Option.elim_some]
  generalize lm.1 = k' at hn
  cases hn with
  | balancerFollowers h => exact hab h
  | followersBalancer h => exact hba h
  | balancerLeader => exact ha
  | demux c k hk =>
    cases k with
    | demux c' => exact absurd rfl (hk c')
    | loadBalancer => simp only [Lock.rank]; omega
    | followers => simp only [Lock.rank]; omega
    | leaderConns => simp [Lock.rank]

/-- The only circular wait the code allows. -/
theorem deadlockFree_iff (hi : SelInv s) :
    DeadlockFree s.holds s.waits ↔ ¬ (s.SelStopped ∧ s.SyncStopped) := by
  constructor
  · rintro h ⟨⟨k, sel, hk, hheld, left, node, j, hpc⟩, hsh, hn⟩
    refine h {.call k, .sync} (isCircularWait_pair (by simp) ?_ ?_)
    · refine ⟨.followers, .write, .write, ?_, ?_, rfl⟩
      · simp [Sys.waits, hk, Sel.waits, hheld, hpc, SelPc.awaits]
      · cases hp : s.sync.pc <;> simp [hp, SyncPc.nested] at hn <;> simp [Sys.holds, Sync.holds, hp, SyncPc.outer]
    · refine ⟨.loadBalancer, .write, .write, ?_, ?_, rfl⟩
      · cases hp : s.sync.pc <;> simp [hp, SyncPc.nested] at hn <;>
          simp [Sys.waits, Sync.waits, hsh, hp, SyncPc.awaits]
      · simp [Sys.holds, hk, Sel.holds, hheld, hpc, SelPc.outer]
  · intro h
    by_cases hsel : s.SelStopped
    · exact deadlockFree_of_order hi 0 1 (by decide) (by decide) (fun _ => by decide)
        (fun hsync => absurd ⟨hsel, hsync⟩ h)
    · exact deadlockFree_of_order hi 1 0 (by decide) (by decide) (fun h => absurd h hsel) (fun _ => by decide)

/-! ### Runs -/

/-- The selection of call `k` has found a target and will ask for `followers` next. -/
def Sys.SelNests (s : Sys) (k : Nat) : Prop :=
  ∃ (sel : Sel) (left : Nat), s.sels[k]? = some sel ∧ sel.pc = .fIter left ∧
    (s.handler.loadBalancer.target s.handler.loadBalancer.nextNode).isSome = true

/-- `sync_followers` holds `followers` and will ask for `load_balancer` next. -/
def SyncPc.nests : SyncPc → Bool
  | .writeLock .. => true
  | .insertConn _ _ _ _ _ _ (_ :: _) (_ :: _) => true
  | _ => false

/-- Neither of the two goes for its second lock while the other one is stopped at its own. -/
def Sys.KeepsOrder (s : Sys) (l : SysLabel) : Prop :=
  (∀ k, l = .sel k → s.SelNests k → ¬ s.SyncStopped) ∧ ∀ i, l = .sync i → s.sync.pc.nests = true → ¬ s.SelStopped

theorem selStopped_set {k : Nat} {sel' : Sel} (hk : k < s.sels.length) (hsels : s'.sels = s.sels.set k sel')
    (h : s'.SelStopped) :
    s.SelStopped ∨ sel'.held = false ∧ ∃ left node j, sel'.pc = .fMap left node j := by
  obtain ⟨k', x, hx, hheld, hpc⟩ := h
  rw [hsels, List.getElem?_set] at hx
  split at hx
  · cases Option.some.inj hx
    exact .inr ⟨hheld, hpc⟩
  · exact .inl ⟨k', x, hx, hheld, hpc⟩

theorem SelMove.to_fMap {closed : Nat → Bool} {now : Nat} {h h' : Handler} {pc : SelPc} {left : Nat}
    {node : String × Nat} {j : Nat} (hb : SelMove cfg closed now h pc h' (.fMap left node j)) :
    (∃ n, pc = .fIter n) ∧ (h.loadBalancer.target h.loadBalancer.nextNode).isSome = true := by
  generalize hpc' : SelPc.fMap left node j = pc' at hb
  cases hb with
  | fTarget n node counter ht => exact ⟨⟨n, rfl⟩, by rw [ht]; rfl⟩
  | fLen => exact absurd hpc' (fNext_ne (by simp) (by simp))
  | fSkip => exact absurd hpc' (fNext_ne (by simp) (by simp))
  | fOver => exact absurd hpc' (fNext_ne (by simp) (by simp))
  | _ => cases hpc'

/-- `sync_followers` asks for `load_balancer` where `nests` says, and nowhere else. -/
theorem SyncMove.nests_iff {closed : Nat → Bool} {fresh : Nat} {h h' : Handler} {pc pc' : SyncPc}
    {i : SyncInput} (hb : SyncMove cfg closed fresh h pc i h' pc') : pc.nests = true ↔ pc'.nested = true := by
  cases hb with
  | fastFollowers anyLeader _ hor => rcases hor with rfl | rfl <;> simp [SyncPc.nests, SyncPc.nested]
  | _ => simp [SyncPc.nests, SyncPc.nested]

/-- The step that closes a circular wait. -/
theorem keepsOrder_iff (hi : SelInv s) (h : DeadlockFree s.holds s.waits) (hs : s.step cfg l = some s') :
    DeadlockFree s'.holds s'.waits ↔ s.KeepsOrder l := by
  rw [deadlockFree_iff hi] at h
  rw [deadlockFree_iff (hi.step hs)]
  -- a step that brings neither task to its second lock changes nothing
  have keep : (s'.SelStopped → s.SelStopped) → (s'.SyncStopped → s.SyncStopped) → s.KeepsOrder l →
      (¬ (s'.SelStopped ∧ s'.SyncStopped) ↔ s.KeepsOrder l) := fun h₁ h₂ hc =>
    iff_of_true (fun hst => h ⟨h₁ hst.1, h₂ hst.2⟩) hc
  cases Sys.Move.of_step hs with
  | sel k sel handler pc' hk hw hb =>
    have hklt := (List.getElem?_eq_some_iff.1 hk).1
    by_cases hmap : ∃ left node j, pc' = .fMap left node j
    · obtain ⟨left, node, j, rfl⟩ := hmap
      obtain ⟨⟨n, hpc⟩, ht⟩ := hb.to_fMap
      have hn : s.SelNests k := ⟨sel, n, hk, hpc, ht⟩
      have hst : Sys.SelStopped { s with
          handler := handler
          mux := Sys.selMux cfg s.mux sel.pc
          sels := s.sels.set k { pc := .fMap left node j } } :=
        ⟨k, { pc := .fMap left node j }, by simp [hklt], rfl, left, node, j, rfl⟩
      constructor
      · intro hno
        refine ⟨?_, by simp⟩
        rintro k' ⟨rfl⟩ - hsync
        exact hno ⟨hst, hsync⟩
      · intro hc hboth
        exact hc.1 k rfl hn hboth.2
    · refine keep (fun hst => ?_) (fun hst => hst) ⟨?_, by simp⟩
      · rcases selStopped_set hklt rfl hst with hst | ⟨-, hpc⟩
        · exact hst
        · exact absurd hpc hmap
      · rintro k' ⟨rfl⟩ ⟨sel₀, n, hk₀, hpc, ht⟩
        rw [hk] at hk₀
        cases Option.some.inj hk₀
        rw [hpc] at hb
        cases hb with
        | fSkip _ ht' => simp [ht'] at ht
        | fTarget _ node counter _ => exact absurd ⟨_, _, _, rfl⟩ hmap
  | sync i handler pc' hw hb =>
    by_cases hn : s.sync.pc.nests = true
    · have hst : pc'.nested = true := hb.nests_iff.1 hn
      constructor
      · intro hno
        refine ⟨by simp, ?_⟩
        rintro i' ⟨rfl⟩ - hsel
        exact hno ⟨hsel, rfl, hst⟩
      · intro hc hboth
        exact hc.2 i rfl hn hboth.1
    · have hst : pc'.nested ≠ true := fun h => hn (hb.nests_iff.2 h)
      exact keep (fun hst => hst) (fun hs' => absurd hs'.2 hst) ⟨by simp, fun _ _ h => absurd h hn⟩
  | lockSync lm hw hf => exact keep (fun hst => hst) (fun hst => absurd hst.1 (by simp)) ⟨by simp, by simp⟩
  | lockSel k sel lm hk hw hf =>
    refine keep (fun hst => ?_) (fun hst => hst) ⟨by simp, by simp⟩
    rcases selStopped_set (List.getElem?_eq_some_iff.1 hk).1 rfl hst with hst | ⟨hheld, -⟩
    · exact hst
    · cases hheld
  | selStart k sel call hk hpc hc hcp =>
    refine keep (fun hst => ?_) (fun hst => hst) ⟨?_, by simp⟩
    · rcases selStopped_set (List.getElem?_eq_some_iff.1 hk).1 rfl hst with hst | ⟨-, left, node, j, hpc'⟩
      · exact hst
      · dsimp only at hpc'
        split at hpc' <;> cases hpc'
    · rintro k' ⟨rfl⟩ ⟨sel₀, n, hk₀, hpc₀, -⟩
      rw [hk] at hk₀
      cases Option.some.inj hk₀
      rw [hpc] at hpc₀
      cases hpc₀
  | selReturn k sel r mux hk hpc hm =>
    refine keep (fun hst => ?_) (fun hst => hst) ⟨?_, by simp⟩
    · rcases selStopped_set (List.getElem?_eq_some_iff.1 hk).1 rfl hst with hst | ⟨-, left, node, j, hpc'⟩
      · exact hst
      · cases hpc'
    · rintro k' ⟨rfl⟩ ⟨sel₀, n, hk₀, hpc₀, -⟩
      rw [hk] at hk₀
      cases Option.some.inj hk₀
      rw [hpc] at hpc₀
      cases hpc₀
  | spawn w f mux hm =>
    refine keep (fun hst => ?_) (fun hst => hst) ⟨by simp, by simp⟩
    obtain ⟨k, x, hx, hheld, left, node, j, hpc⟩ := hst
    rcases getElem?_snoc hx with hx | ⟨-, rfl⟩
    · exact ⟨k, x, hx, hheld, left, node, j, hpc⟩
    · cases hpc
  | _ => exact keep (fun hst => hst) (fun hst => hst) ⟨by simp, by simp⟩

/-- A run of the system is free of circular waits throughout exactly when none of its steps takes a
task to its second lock while the other one is stopped. -/
theorem deadlock_free_iff_order_kept (ls : List SysLabel) :
    AllStates (Sys.step cfg) (fun s => DeadlockFree s.holds s.waits) (Sys.init cfg) ls ↔
      AllSteps (Sys.step cfg) Sys.KeepsOrder (Sys.init cfg) ls := by
  refine allStates_iff_allSteps ?_ fun s l s' hr h hs => keepsOrder_iff (SelInv.of_reach hr) h hs
  rw [deadlockFree_iff (SelInv.of_reach .refl)]
  rintro ⟨⟨k, sel, hk, -⟩, -⟩
  simp [Sys.init] at hk

/-- A read has `load_balancer` and wants `followers`, the sync task the other way round. -/
theorem read_and_sync_deadlock : ∃ s, Reach (Sys.step {}) (Sys.init {}) s ∧
    IsCircularWait s.holds s.waits {.call 0, .sync} := by
  obtain ⟨s, -, hr, hp⟩ := Reach.of_any (Sys.step {}) (Sys.init {})
    (Sys.leaderDown "l" ["a"] true ++ Sys.followersUp [("a", true)] ++
      (Sys.readCall 0 (prependHeader 7 [1])).take 7 ++ Sys.leaderDown "l" ["a"] false ++
        (Sys.followersUp []).take 5)
    (fun s => decide (s.waits (.call 0) = some (.followers, .write) ∧ (.followers, .write) ∈ s.holds .sync ∧
      s.waits .sync = some (.loadBalancer, .write) ∧
        (.loadBalancer, .write) ∈ s.holds (.call 0))) (by decide +kernel)
  obtain ⟨hw, hh, hw', hh'⟩ := of_decide_eq_true hp
  exact ⟨s, hr, isCircularWait_pair (by simp) ⟨_, _, _, hw, hh, rfl⟩ ⟨_, _, _, hw', hh', rfl⟩⟩

end RzBridge

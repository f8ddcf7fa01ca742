import RzBridge.Proofs.FollowerIndex

/-!
# The lock on the follower map

A selection and the sync task do not hold the follower map at the same time. So what a selection finds
closed in the map is what it takes out: between the lookup and the removal it awaits `cleanup`, but it
holds the map all the while.
-/

namespace RzBridge
open Machine CircularWait Assoc

variable {cfg : Config} {s s' : Sys} {l : SysLabel}

/-! ### Exclusion -/

/-- A selection holds the follower map. -/
def Sel.HoldsMap (sel : Sel) : Prop := (.followers, .write) ∈ sel.holds

/-- The sync task holds the follower map, in either mode. -/
def Sync.HoldsMap (t : Sync) : Prop := ∃ m, (.followers, m) ∈ t.holds

/-- No selection holds the follower map together with the sync task. -/
def Sys.MapExcl (s : Sys) : Prop := ∀ sel ∈ s.sels, sel.HoldsMap → ¬ s.sync.HoldsMap

theorem Sys.free_of {t u : Task} {lm hm : Lock × Mode} (h : s.free t lm = true) (hu : u ∈ s.tasks) (hne : u ≠ t)
    (hh : hm ∈ s.holds u) (hk : hm.1 = lm.1) : Mode.conflicts lm.2 hm.2 = false := by
  have hall := List.all_eq_true.1 h u hu
  rw [Bool.or_eq_true, decide_eq_true_eq] at hall
  have hno := List.all_eq_true.1 (hall.resolve_left hne) hm hh
  simpa [hk] using hno

theorem Sys.mem_tasks_of_sel {k : Nat} {sel : Sel} (hk : s.sels[k]? = some sel) : Task.call k ∈ s.tasks := by
  have hlt := (List.getElem?_eq_some_iff.1 hk).1
  simp only [Sys.tasks, List.mem_cons, List.mem_append, List.mem_map, List.mem_range]
  exact .inr (.inl ⟨k, hlt.trans_le (Nat.le_max_left _ _), rfl⟩)

theorem Sys.mem_holds_of_sel {k : Nat} {sel : Sel} {hm : Lock × Mode} (hk : s.sels[k]? = some sel)
    (hh : hm ∈ sel.holds) : hm ∈ s.holds (.call k) := by
  rw [Sys.holds, hk]
  exact List.mem_append_left _ hh

theorem SelMove.holdsMap {closed : Nat → Bool} {now : Nat} {h h' : Handler} {sel : Sel} {pc' : SelPc}
    (hb : SelMove cfg closed now h sel.pc h' pc') (hw : sel.waits = none) (hh : Sel.HoldsMap { pc := pc' }) :
    sel.HoldsMap := by
  obtain ⟨pc, held⟩ := sel
  have next : ∀ left, ¬ Sel.HoldsMap { pc := fNext left } := by
    intro left
    unfold fNext
    split <;> simp [Sel.HoldsMap, Sel.holds, SelPc.outer]
  dsimp only at hb
  cases hb with
  | fLen => exact absurd hh (next _)
  | fSkip left ht => exact absurd hh (next _)
  | fOver left node j tried ht => exact absurd hh (next _)
  | fMap left node j =>
    -- the piece awaited the map, so it ran with the map granted
    have hheld : held = true := by
      cases held with
      | true => rfl
      | false => cases hw
    simp [Sel.HoldsMap, Sel.holds, SelPc.outer, SelPc.awaits, hheld]
  | fStale left node j tried c ht hl hc => simp [Sel.HoldsMap, Sel.holds, SelPc.outer]
  | fAbsent left node j tried ht hl => simp [Sel.HoldsMap, Sel.holds, SelPc.outer]
  | fClean left node j tried c start => simp [Sel.HoldsMap, Sel.holds, SelPc.outer]
  | _ => simp [Sel.HoldsMap, Sel.holds, SelPc.outer] at hh

theorem SyncMove.holdsMap {closed : Nat → Bool} {fresh : Nat} {h h' : Handler} {t : Sync} {pc' : SyncPc}
    {i : SyncInput} {synced : Option (List String)} (hb : SyncMove cfg closed fresh h t.pc i h' pc')
    (hw : t.waits = none) (hh : Sync.HoldsMap { pc := pc', synced }) : t.HoldsMap := by
  obtain ⟨pc, held, synced'⟩ := t
  obtain ⟨m, hm⟩ := hh
  dsimp only at hb
  cases hb with
  | writeLock fs new =>
    have hheld : held = true := by
      cases held with
      | true => rfl
      | false => cases hw
    exact ⟨.write, by simp [Sync.holds, SyncPc.outer, SyncPc.awaits, hheld]⟩
  | readHistory fs hosts new free hperm => exact ⟨.write, by simp [Sync.holds, SyncPc.outer]⟩
  | assign fs name conns todo free free' a a' nidx ha => exact ⟨.write, by simp [Sync.holds, SyncPc.outer]⟩
  | noIndex fs name conns todo free a ha => exact ⟨.write, by simp [Sync.holds, SyncPc.outer]⟩
  | hostDone fs todo free a name nidx freeConns => exact ⟨.write, by simp [Sync.holds, SyncPc.outer]⟩
  | insertConn fs todo free a name nidx j freeConns c conns => exact ⟨.write, by simp [Sync.holds, SyncPc.outer]⟩
  | recordHistory fs todo free a name nidx j freeConns conns => exact ⟨.write, by simp [Sync.holds, SyncPc.outer]⟩
  | fastFollowers anyLeader _ hor =>
    rcases hor with rfl | rfl <;> simp [Sync.holds, SyncPc.outer] at hm
  | _ => simp [Sync.holds, SyncPc.outer] at hm

theorem Sys.MapExcl.step (h : s.MapExcl) (hs : s.step cfg l = some s') : s'.MapExcl := by
  -- a step that changes one selection, which holds the map afterwards only if it held it before
  have set : ∀ {k sel sel'}, s.sels[k]? = some sel → (sel'.HoldsMap → sel.HoldsMap) → s'.sels = s.sels.set k sel' →
      s'.sync = s.sync → s'.MapExcl := by
    intro k sel sel' hk hsel hsels hsync x hx hxh
    rw [hsync]
    rw [hsels] at hx
    rcases List.mem_or_eq_of_mem_set hx with hx | rfl
    · exact h x hx hxh
    · exact h sel (List.mem_of_getElem? hk) (hsel hxh)
  cases Sys.Move.of_step hs with
  | lockSync lm hw hf =>
    intro sel hsel hsh hsync
    obtain ⟨k, hk⟩ := List.mem_iff_getElem?.1 hsel
    obtain ⟨m, hm⟩ := hsync
    simp only [Sync.holds, if_true, List.mem_append, Option.mem_toList] at hm
    rcases hm with hm | hm
    · exact h sel hsel hsh ⟨m, List.mem_append_left _ hm⟩
    · have hlm : lm = (.followers, m) := by
        cases hheld : s.sync.held with
        | true => simp [Sync.waits, hheld] at hw
        | false =>
          simp only [Sync.waits, hheld, Bool.false_eq_true, if_false] at hw
          rw [hm] at hw
          exact (Option.some.inj hw).symm
      have hno := Sys.free_of hf (Sys.mem_tasks_of_sel hk) (by simp) (Sys.mem_holds_of_sel hk hsh) (by rw [hlm])
      rw [hlm] at hno
      cases m <;> cases hno
  | lockSel k sel lm hk hw hf =>
    intro x hx hxh hsync
    rcases List.mem_or_eq_of_mem_set hx with hx | rfl
    · exact h x hx hxh hsync
    · obtain ⟨m, hm⟩ := hsync
      simp only [Sel.HoldsMap, Sel.holds, if_true, List.mem_append, Option.mem_toList] at hxh
      rcases hxh with hxh | hxh
      · exact h sel (List.mem_of_getElem? hk) (List.mem_append_left _ hxh) ⟨m, hm⟩
      · have hlm : lm = (.followers, .write) := by
          cases hheld : sel.held with
          | true => simp [Sel.waits, hheld] at hw
          | false =>
            simp only [Sel.waits, hheld, Bool.false_eq_true, if_false] at hw
            rw [hxh] at hw
            exact (Option.some.inj hw).symm
        have hm' : (.followers, m) ∈ s.holds .sync := hm
        have hno := Sys.free_of hf (List.mem_cons_self ..) (by simp) hm' (by rw [hlm])
        rw [hlm] at hno
        cases m <;> cases hno
  | selStart k sel call hk hpc hc hcp =>
    refine set hk (fun hh => ?_) rfl rfl
    cases hcw : call.isWrite <;> simp [Sel.HoldsMap, Sel.holds, SelPc.outer, hcw] at hh
  | selReturn k sel r mux hk hpc hm =>
    refine set hk (fun hh => ?_) rfl rfl
    simp [Sel.HoldsMap, Sel.holds, SelPc.outer] at hh
  | sel k sel handler pc' hk hw hb => exact set hk (hb.holdsMap hw) rfl rfl
  | sync i handler pc' hw hb => exact fun x hx hxh hsync => h x hx hxh (hb.holdsMap hw hsync)
  | spawn w f mux hm =>
    intro x hx hxh
    rcases List.mem_append.1 hx with hx | hx
    · exact h x hx hxh
    · cases List.mem_singleton.1 hx
      simp [Sel.HoldsMap, Sel.holds, SelPc.outer] at hxh
  | _ => exact h

theorem Sys.MapExcl.of_reach (h : Reach (Sys.step cfg) (Sys.init cfg) s) : s.MapExcl :=
  h.induct (by simp [Sys.MapExcl, Sys.init]) fun _ _ _ _ hi hs => hi.step hs

/-! ### What a selection takes out -/

theorem closed_of_connStep {m : Mux} {l : MuxLabel} {c : Nat} {conn conn' : Conn} (h : ConnStep m l c conn conn')
    (hc : conn.closed = true) : conn'.closed = true := by
  cases h with
  | deliver hdr f tok closed reader hr hcl =>
    rcases hcl with ⟨rfl, -⟩ | ⟨rfl, -⟩
    · rfl
    · exact hc
  | readerStop hl hr => rfl
  | writerStop hw => rfl
  | _ => exact hc

theorem Sys.Valid.closed_step {x : Connection} (hx : s.Valid x) (hc : s.closed x.id = true)
    (hs : s.step cfg l = some s') : s'.closed x.id = true := by
  obtain ⟨conn, hconn, -⟩ := hx
  rw [Sys.closed, hconn, Option.all_some] at hc
  rcases Sys.mux_project hs with he | ⟨l', hl', -⟩
  · rw [Sys.closed, he, hconn]
    exact hc
  · obtain ⟨conn', hconn', hstep⟩ := Mux.step_conn_fwd hl' hconn
    rw [Sys.closed, hconn']
    exact closed_of_connStep hstep hc

/-- A selection in `cleanup` holds on to a key of the map that has a closed connection, if any. -/
def Sys.CleansClosed (s : Sys) : Prop :=
  ∀ sel ∈ s.sels, ∀ left node j tried c start, sel.pc = .fClean left node j tried c start →
    ∀ x, s.handler.followers.lookup (node.1, node.2, j) = some x → s.closed x.id = true

theorem SelMove.to_fClean {closed : Nat → Bool} {now : Nat} {h h' : Handler} {pc : SelPc} {left : Nat}
    {node : String × Nat} {j tried : Nat} {c : Connection} {start : Nat}
    (hb : SelMove cfg closed now h pc h' (.fClean left node j tried c start)) :
    h.followers.lookup (node.1, node.2, j) = some c ∧ closed c.id = true := by
  generalize hpc' : SelPc.fClean left node j tried c start = pc' at hb
  cases hb with
  | fStale left node j tried c ht hl hc =>
    cases hpc'
    exact ⟨hl, hc⟩
  | fLen => exact absurd hpc' (fNext_ne (by simp) (by simp))
  | fSkip => exact absurd hpc' (fNext_ne (by simp) (by simp))
  | fOver => exact absurd hpc' (fNext_ne (by simp) (by simp))
  | _ => cases hpc'

/-- What the map has after a step it had before, unless the sync task is filing connections. -/
theorem Sys.followers_of_step (hs : s.step cfg l = some s') {key : String × Nat × Nat} {x : Connection}
    (hl : s'.handler.followers.lookup key = some x) :
    s.handler.followers.lookup key = some x ∨ s.sync.HoldsMap ∧ s'.sels = s.sels := by
  cases Sys.Move.of_step hs with
  | sel k sel handler pc' hk hw hb => exact .inl (hb.followers hl)
  | sync i handler pc' hw hb =>
    generalize hpc : s.sync.pc = pc at hb
    cases hb with
    | insertConn fs todo free a name nidx j freeConns c conns =>
      exact .inr ⟨⟨.write, by simp [Sync.holds, hpc, SyncPc.outer]⟩, rfl⟩
    | _ => exact .inl hl
  | rehashFollowers followers hperm => exact .inl ((AList.perm_lookup hperm).symm.trans hl)
  | _ => exact .inl hl

theorem Sys.CleansClosed.step (h : s.CleansClosed) (hx : s.MapExcl) (hf : FollowerInv cfg s)
    (hs : s.step cfg l = some s') : s'.CleansClosed := by
  intro sel' hsel' left node j tried c start hpc x hl
  have hold : s.handler.followers.lookup (node.1, node.2, j) = some x := by
    rcases Sys.followers_of_step hs hl with hl | ⟨hmap, hsels⟩
    · exact hl
    · -- the sync task cannot be filing while this selection has the map
      have hsel : sel'.HoldsMap := by simp [Sel.HoldsMap, Sel.holds, hpc, SelPc.outer]
      exact absurd hmap (hx sel' (hsels ▸ hsel') hsel)
  have hclosed : s.closed x.id = true := by
    rcases Sys.sel_of_step hs hsel' with ⟨sel, hsel, hpc'⟩ | hstart | ⟨sel, hsel, hb⟩
    · exact h sel hsel left node j tried c start (hpc'.symm.trans hpc) x hold
    · rcases hstart with hpc' | hpc' | hpc' <;> rw [hpc'] at hpc <;> cases hpc
    · rw [hpc] at hb
      obtain ⟨hl', hc⟩ := hb.to_fClean
      rw [hold] at hl'
      rw [Option.some.inj hl']
      exact hc
  exact (hf.map _ x hold).2.1.closed_step hclosed hs

theorem Sys.CleansClosed.of_reach (h : Reach (Sys.step cfg) (Sys.init cfg) s) : s.CleansClosed :=
  h.induct (by simp [Sys.CleansClosed, Sys.init]) fun _ _ _ hr hi hs =>
    hi.step (Sys.MapExcl.of_reach hr) (FollowerInv.of_reach hr) hs

end RzBridge

import RzBridge.Proofs.FollowerLock
import RzBridge.Proofs.IndexClash

/-!
# Whether `sync_followers` fills up the pool

`sync_followers(fs)` opens for each host what it lacks, counting the connections that the map has for it,
open or not, and files the new ones where no open connection is. When nothing fails and nothing closes
meanwhile, the open connections of a host and those on their way to the map add up to the same number
from the snapshot to the end (`Filling`), unless the host is skipped for want of a node index. So a host
of `fs` ends up with all its connections exactly when those it had were open and it got an index.
-/

namespace RzBridge
open Machine Assoc Numbering

variable {cfg : Config} {s s' : Sys} {l : SysLabel} {fs : List String}

/-- The open connections filed under `host`. -/
def Sys.openCount (s : Sys) (host : String) : Nat :=
  s.handler.followers.entries.countP fun e => e.1.1 = host ∧ s.closed e.2.id = false

/-- A step during `sync_followers(fs)` in which no connection fails to open and none is closed. -/
def Sys.Calm (cfg : Config) (fs : List String) (s : Sys) (l : SysLabel) : Prop :=
  s.sync.pc.target = some fs ∧ l ≠ .sync (.connected false) ∧
    ∀ s', s.step cfg l = some s' → ∀ c, s.closed c = false → s'.closed c = false

theorem Sys.Calm.closed_eq {x : Connection} (h : s.Calm cfg fs l) (hs : s.step cfg l = some s') (hx : s.Valid x) :
    s'.closed x.id = s.closed x.id := by
  cases hc : s.closed x.id with
  | true => exact hx.closed_step hc hs
  | false => exact h.2.2 s' hs x.id hc

theorem Sys.Calm.countP_eq {followers : FollowerMap} (h : s.Calm cfg fs l) (hs : s.step cfg l = some s')
    (hv : ∀ key x, followers.lookup key = some x → s.Valid x) (host : String) :
    (followers.entries.countP fun e => e.1.1 = host ∧ s'.closed e.2.id = false) =
      followers.entries.countP fun e => e.1.1 = host ∧ s.closed e.2.id = false := by
  refine List.countP_congr fun e he => ?_
  rw [h.closed_eq hs (hv e.1 e.2 (mem_entries_iff.1 he))]

/-- The open connections of a host and those on their way to the map add up to `total`, or to less when
some were lost; `enough` is what makes sure that none are. -/
structure Filling (total : String → Nat) (enough : Prop) (s : Sys) : Prop where
  opened : ∀ name conns, s.sync.pc.opened name conns → ∀ x ∈ conns, s.closed x.id = false
  nodup : s.sync.pc.freeConns.Nodup
  free : ∀ name nidx, s.sync.pc.filing = some (name, nidx) → ∀ j ∈ s.sync.pc.freeConns,
    ∀ x, s.handler.followers.lookup (name, nidx, j) = some x → s.closed x.id = true
  le : ∀ host, s.openCount host + s.sync.pc.pendingCount host ≤ total host
  ge : enough → ∀ host, total host ≤ s.openCount host + s.sync.pc.pendingCount host

variable {total : String → Nat} {enough : Prop}

theorem Filling.opened_step (h : Filling total enough s) (hc : s.Calm cfg fs l) (hs : s.step cfg l = some s')
    (hf : FollowerInv cfg s) {name : String} {conns : List Connection} (ho : s.sync.pc.opened name conns) :
    ∀ x ∈ conns, s'.closed x.id = false := by
  intro x hx
  rw [hc.closed_eq hs (hf.opened name conns ho x hx).2]
  exact h.opened name conns ho x hx

theorem Filling.move (h : Filling total enough s) (hc : s.Calm cfg fs l) (hs : s.step cfg l = some s')
    (hf : FollowerInv cfg s)
    (hm : ∀ key x, s'.handler.followers.lookup key = some x → s.handler.followers.lookup key = some x)
    (hn : ∀ host, (s'.handler.followers.entries.countP fun e => e.1.1 = host ∧ s.closed e.2.id = false) =
      s.openCount host)
    (hopened : ∀ name conns, s'.sync.pc.opened name conns → ∀ x ∈ conns, s'.closed x.id = false)
    (hnodup : s'.sync.pc.freeConns.Nodup)
    (hfree : ∀ name nidx, s'.sync.pc.filing = some (name, nidx) → ∀ j ∈ s'.sync.pc.freeConns,
      ∀ x, s.handler.followers.lookup (name, nidx, j) = some x → s.closed x.id = true)
    (hle : ∀ host, s'.sync.pc.pendingCount host ≤ s.sync.pc.pendingCount host)
    (hge : enough → ∀ host, s.sync.pc.pendingCount host ≤ s'.sync.pc.pendingCount host) :
    Filling total enough s' := by
  have hcount : ∀ host, s'.openCount host = s.openCount host := fun host =>
    (hc.countP_eq hs (fun key x hl => (hf.map key x (hm key x hl)).2.1) host).trans (hn host)
  refine ⟨hopened, hnodup, fun name nidx hfi j hj x hl => ?_, fun host => ?_, fun he host => ?_⟩
  · have hl' := hm _ x hl
    exact (hf.map _ x hl').2.1.closed_step (hfree name nidx hfi j hj x hl') hs
  · rw [hcount]
    exact (Nat.add_le_add_left (hle host) _).trans (h.le host)
  · rw [hcount]
    exact (h.ge he host).trans (Nat.add_le_add_left (hge he host) _)

theorem Filling.keep (h : Filling total enough s) (hc : s.Calm cfg fs l) (hs : s.step cfg l = some s')
    (hf : FollowerInv cfg s) (hp : s'.sync.pc = s.sync.pc)
    (hm : ∀ key x, s'.handler.followers.lookup key = some x → s.handler.followers.lookup key = some x)
    (hn : ∀ host, (s'.handler.followers.entries.countP fun e => e.1.1 = host ∧ s.closed e.2.id = false) =
      s.openCount host) : Filling total enough s' := by
  refine h.move hc hs hf hm hn ?_ ?_ ?_ ?_ ?_
  · rw [hp]
    exact fun name conns ho => h.opened_step hc hs hf ho
  · rw [hp]
    exact h.nodup
  · rw [hp]
    exact h.free
  · rw [hp]
    exact fun host => Nat.le_refl _
  · rw [hp]
    exact fun _ host => Nat.le_refl _

theorem closed_of_freeConnIds {closed : Nat → Bool} {followers : FollowerMap} {name : String} {nidx j : Nat}
    {x : Connection} (hj : j ∈ freeConnIds cfg closed followers name)
    (hl : followers.lookup (name, nidx, j) = some x) : closed x.id = true := by
  have hno := (List.mem_filter.1 hj).2
  simp only [Bool.not_eq_true', List.contains_eq_mem, decide_eq_false_iff_not] at hno
  by_contra hopen
  refine hno (List.mem_map.2 ⟨⟨(name, nidx, j), x⟩, List.mem_filter.2 ⟨mem_entries_iff.2 hl, ?_⟩, rfl⟩)
  simpa using hopen

theorem countP_insert_open {closed : Nat → Bool} {followers : FollowerMap} {key : String × Nat × Nat}
    {c : Connection} (hc : closed c.id = false)
    (hfree : ∀ x, followers.lookup key = some x → closed x.id = true) (host : String) :
    ((followers.insert key c).entries.countP fun e => e.1.1 = host ∧ closed e.2.id = false) =
      (followers.entries.countP fun e => e.1.1 = host ∧ closed e.2.id = false) + if key.1 = host then 1 else 0 := by
  rw [countP_insert, countP_erase_of_not _ fun x hl => by simp [hfree x hl]]
  simp [hc]

theorem Filling.insertConn {fs' : List String} {todo : List (String × List Connection)} {free freeConns : List Nat}
    {a : AList fun _ : String => Nat} {name : String} {nidx j : Nat} {c : Connection} {conns : List Connection}
    (h : Filling total enough s) (hc : s.Calm cfg fs l) (hs : s.step cfg l = some s') (hf : FollowerInv cfg s)
    (hpc : s.sync.pc = .insertConn fs' todo free a name nidx (j :: freeConns) (c :: conns))
    (hm : s'.handler.followers = s.handler.followers.insert (name, nidx, j) c)
    (hp : s'.sync.pc = .recordHistory fs' todo free a name nidx j freeConns conns) : Filling total enough s' := by
  have hown : s.sync.pc.opened name (c :: conns) := by
    rw [hpc]
    exact .inl rfl
  have hfree : ∀ j' ∈ j :: freeConns, ∀ x, s.handler.followers.lookup (name, nidx, j') = some x →
      s.closed x.id = true := fun j' hj' => h.free name nidx (by rw [hpc]; rfl) j' (by rw [hpc]; exact hj')
  have hnodup : (j :: freeConns).Nodup := by
    have hn := h.nodup
    rw [hpc] at hn
    exact hn
  have hcount : ∀ host, s'.openCount host = s.openCount host + if name = host then 1 else 0 := by
    intro host
    rw [Sys.openCount, hm]
    refine (hc.countP_eq hs (fun key x hl => ?_) host).trans
      (countP_insert_open (h.opened name _ hown c (List.mem_cons_self ..)) (hfree j (List.mem_cons_self ..)) host)
    rcases lookup_insert_iff.1 hl with ⟨-, rfl⟩ | ⟨-, hl⟩
    · exact (hf.opened name _ hown _ (List.mem_cons_self ..)).2
    · exact (hf.map key x hl).2.1
  have hpend : ∀ host, s.sync.pc.pendingCount host =
      s'.sync.pc.pendingCount host + if name = host then 1 else 0 := by
    intro host
    rw [hpc, hp]
    exact queued_tail name c conns todo host
  refine ⟨?_, ?_, ?_, fun host => ?_, fun he host => ?_⟩
  · rw [hp]
    rintro n cs (he | hn) x hx
    · cases he
      exact h.opened_step hc hs hf hown x (List.mem_cons_of_mem c hx)
    · exact h.opened_step hc hs hf (by rw [hpc]; exact .inr hn) x hx
  · rw [hp]
    exact (List.nodup_cons.1 hnodup).2
  · rw [hp, hm]
    rintro _ _ ⟨rfl, rfl⟩ j' hj' x hl
    rcases lookup_insert_iff.1 hl with ⟨he, -⟩ | ⟨-, hl⟩
    · cases he
      exact absurd hj' (List.nodup_cons.1 hnodup).1
    · exact (hf.map _ x hl).2.1.closed_step (hfree j' (List.mem_cons_of_mem j hj') x hl) hs
  · have hl := h.le host
    rw [hpend host] at hl
    rw [hcount host]
    omega
  · have hg := h.ge he host
    rw [hpend host] at hg
    rw [hcount host]
    omega

theorem Filling.sync {i : SyncInput} {handler : Handler} {pc' : SyncPc} (h : Filling total enough s)
    (hc : s.Calm cfg fs (.sync i)) (hs : s.step cfg (.sync i) = some s') (hf : FollowerInv cfg s)
    (hsh : ShortfallInv cfg s)
    (hskip : enough → ∀ fs name conns todo free a, s.sync.pc = .nextHost fs ((name, conns) :: todo) free a →
      assignNode s.handler.followers name free a ≠ none)
    (hb : SyncMove cfg s.closed s.mux.conns.length s.handler s.sync.pc i handler pc')
    (hh : s'.handler = handler) (hp : s'.sync.pc = pc') (hm : s'.mux = Sys.syncMux s.mux s.sync.pc i) :
    Filling total enough s' := by
  have htarget := hc.1
  have hfree := h.free
  have hnodup := h.nodup
  have slots := hsh.slots
  have opened : ∀ name conns, s.sync.pc.opened name conns → ∀ x ∈ conns, s'.closed x.id = false :=
    fun name conns ho => h.opened_step hc hs hf ho
  -- the map stays: the connections of a host move on, without loss if there is enough
  have within : handler.followers = s.handler.followers →
      (∀ name conns, pc'.opened name conns → ∀ x ∈ conns, s'.closed x.id = false) → pc'.freeConns.Nodup →
      (∀ name nidx, pc'.filing = some (name, nidx) → ∀ j ∈ pc'.freeConns,
        ∀ x, s.handler.followers.lookup (name, nidx, j) = some x → s.closed x.id = true) →
      (∀ host, pc'.pendingCount host ≤ s.sync.pc.pendingCount host) →
      (enough → ∀ host, s.sync.pc.pendingCount host ≤ pc'.pendingCount host) → Filling total enough s' := by
    intro hfo
    rw [← hh] at hfo
    rw [← hp]
    exact h.move hc hs hf (by rw [hfo]; exact fun _ _ hl => hl) (by rw [hfo]; exact fun _ => rfl)
  generalize hpc : s.sync.pc = pc at hb hm htarget hfree hnodup slots opened within
  cases hb with
  | connectDone fs new =>
    exact within rfl opened .nil (by simp [SyncPc.filing]) (fun host => Nat.le_add_left _ _)
      fun _ host => by simp [SyncPc.pendingCount]
  | connected fs host' todo new =>
    refine within rfl (fun name conns hn x hx => ?_) .nil (by simp [SyncPc.filing])
      (fun host => (pendingCount_connected ..).le) fun _ host => (pendingCount_connected ..).ge
    rcases mem_pushConn hn hx with ⟨rfl, rfl⟩ | ⟨cs, hcs, hx⟩
    · simp [Sys.closed, hm, Sys.syncMux]
    · exact opened name cs hcs x hx
  | connectFailed fs host' todo new => exact absurd rfl hc.2.1
  | writeLock fs new =>
    exact within rfl opened .nil (by simp [SyncPc.filing]) (fun _ => Nat.le_refl _) fun _ _ => Nat.le_refl _
  | readHistory fs hosts new free hperm =>
    refine within rfl (fun name conns hn x hx => ?_) .nil (by simp [SyncPc.filing])
      (fun host => (queued_hosts hperm host).le) fun _ host => (queued_hosts hperm host).ge
    obtain ⟨host, -, he⟩ := List.mem_map.1 hn
    simp only [Prod.mk.injEq] at he
    obtain ⟨rfl, rfl⟩ := he
    cases hl : new.lookup host with
    | none => simp [hl] at hx
    | some cs => exact opened host cs hl x (by simpa [hl] using hx)
  | allDone fs free a =>
    exact within rfl (by simp [SyncPc.opened]) .nil (by simp [SyncPc.filing]) (fun _ => Nat.zero_le _)
      fun _ _ => Nat.le_refl _
  | assign fs name conns todo free free' a a' nidx ha =>
    refine within rfl (fun n cs hn => opened n cs (List.mem_cons.2 hn)) (List.nodup_range.filter _) ?_
      (fun _ => Nat.le_refl _) fun _ _ => Nat.le_refl _
    rintro _ _ ⟨rfl, rfl⟩ j hj x hl
    exact closed_of_freeConnIds hj hl
  | noIndex fs name conns todo free a ha =>
    refine within rfl (fun n cs hn => opened n cs (List.mem_cons_of_mem _ hn)) .nil (by simp [SyncPc.filing])
      (fun _ => Nat.le_add_left _ _) fun he => ?_
    exact absurd ha (hskip he fs name conns todo free a hpc)
  | hostDone fs todo free a name nidx freeConns =>
    refine within rfl (fun n cs hn => opened n cs (.inr hn)) .nil (by simp [SyncPc.filing])
      (fun _ => Nat.le_add_left _ _) fun _ host => ?_
    show queued ((name, []) :: todo) host ≤ queued todo host
    rw [queued_cons]
    simp
  | noConnIndex fs todo free a name nidx c conns => simp [SyncPc.filingConns, SyncPc.freeConns] at slots
  | insertConn fs todo free a name nidx j freeConns c conns =>
    exact h.insertConn hc hs hf hpc (by rw [hh]) hp
  | recordHistory fs todo free a name nidx j freeConns conns =>
    exact within rfl opened hnodup hfree (fun _ => Nat.le_refl _) fun _ _ => Nat.le_refl _
  | _ => simp [SyncPc.target] at htarget

theorem Filling.step (h : Filling total enough s) (hr : Reach (Sys.step cfg) (Sys.init cfg) s)
    (hc : s.Calm cfg fs l) (hs : s.step cfg l = some s')
    (hskip : enough → ∀ fs name conns todo free a, s.sync.pc = .nextHost fs ((name, conns) :: todo) free a →
      assignNode s.handler.followers name free a ≠ none) : Filling total enough s' := by
  have hf := FollowerInv.of_reach hr
  cases Sys.Move.of_step hs with
  | sel k sel handler pc' hk hw hb =>
    refine h.keep hc hs hf rfl (fun _ _ hl => hb.followers hl) fun host => ?_
    show handler.followers.entries.countP _ = s.openCount host
    generalize hpc : sel.pc = pc at hb
    cases hb with
    | fClean left node j tried c start =>
      -- what is taken out is closed
      refine countP_erase_of_not _ fun x hl => ?_
      have hx := Sys.CleansClosed.of_reach hr sel (List.mem_of_getElem? hk) left node j tried c start hpc x hl
      simp [hx]
    | _ => rfl
  | sync i handler pc' hw hb => exact h.sync hc hs hf (ShortfallInv.of_reach hr) hskip hb rfl rfl rfl
  | rehashFollowers followers hperm =>
    exact h.keep hc hs hf rfl (fun key x hl => (AList.perm_lookup hperm).symm.trans hl) fun host => hperm.countP_eq _
  | _ => exact h.keep hc hs hf rfl (fun _ _ hl => hl) fun host => rfl

/-! ### From the snapshot to the write lock -/

/-- `sync_followers` opens connections, or waits to file them. -/
def SyncPc.opening : SyncPc → Bool
  | .connect .. => true
  | .writeLock .. => true
  | _ => false

/-- The hosts that connections are opened for and that the history does not know are among `news`, and it
knows none of these. -/
structure Opening (total : String → Nat) (news : List String) (s : Sys) : Prop where
  filling : Filling total True s
  mem : ∀ name, s.sync.pc.pending name → s.indexOf name = none → name ∈ news
  unknown : ∀ name ∈ news, s.indexOf name = none

theorem SyncMove.opening {closed : Nat → Bool} {fresh : Nat} {h h' : Handler} {pc pc' : SyncPc} {i : SyncInput}
    (hb : SyncMove cfg closed fresh h pc i h' pc') (ht : pc.target = some fs) (ho : pc'.opening = true) :
    pc.opening = true ∧ h' = h ∧ ∀ name, pc'.pending name → pc.pending name := by
  have hpending : ∀ name, pc'.pending name → pc.pending name := by
    obtain ⟨fs', ht'⟩ : ∃ fs', pc'.target = some fs' := by
      cases pc' <;> simp [SyncPc.opening] at ho <;> exact ⟨_, rfl⟩
    exact hb.pending ht ht'
  cases hb with
  | connectDone fs new => exact ⟨rfl, rfl, hpending⟩
  | connected fs host todo new => exact ⟨rfl, rfl, hpending⟩
  | connectFailed fs host todo new => exact ⟨rfl, rfl, hpending⟩
  | snapshot fs hosts required hr hp => cases ht
  | fastFollowers anyLeader _ hor => cases ht
  | _ => cases ho

theorem Opening.step {news : List String} (h : s.sync.pc.opening = true → Opening total news s)
    (hr : Reach (Sys.step cfg) (Sys.init cfg) s) (hc : s.Calm cfg fs l) (hs : s.step cfg l = some s')
    (ho : s'.sync.pc.opening = true) : Opening total news s' := by
  have hi := IndexInv.of_reach hr
  have hi' := IndexInv.of_reach (hr.tail l hs)
  -- the step of a selection, a call or a connection
  have keep : (∀ i, l ≠ .sync i) → s'.sync.pc = s.sync.pc → Opening total news s' := by
    intro hl hp
    have ho' : s.sync.pc.opening = true := hp ▸ ho
    have hindex := hi.indexOf_congr hi' (Sys.history_keys hi hs hl)
    obtain ⟨hfill, hmem, hun⟩ := h ho'
    refine ⟨hfill.step hr hc hs fun _ _ _ _ _ _ _ hpc => ?_, ?_, ?_⟩
    · rw [hpc] at ho'
      cases ho'
    · rw [hp, hindex]
      exact hmem
    · rw [hindex]
      exact hun
  cases Sys.Move.of_step hs with
  | sync i handler pc' hw hb =>
    obtain ⟨ho', rfl, hpend⟩ := hb.opening hc.1 ho
    obtain ⟨hfill, hmem, hun⟩ := h ho'
    refine ⟨hfill.step hr hc hs fun _ _ _ _ _ _ _ hpc => ?_, fun name hn => hmem name (hpend name hn), hun⟩
    rw [hpc] at ho'
    cases ho'
  | _ => exact keep (by simp) rfl

/-! ### From the write lock to the end -/

/-- While node indices are handed out, of which `count` were free at the start. -/
structure Drawing (total : String → Nat) (news : List String) (count : Nat) (s : Sys) : Prop where
  filling : Filling total (news.length ≤ count) s
  past : s.sync.pc.opening = false
  supply : ∀ names had free, s.toNumber = some (names, had, free) → Supply news count names had free

variable {news : List String} {count : Nat}

theorem Drawing.no_skip (h : Drawing total news count s) (he : news.length ≤ count) (fs : List String) (name : String)
    (conns : List Connection) (todo : List (String × List Connection)) (free : List Nat)
    (a : AList fun _ : String => Nat) (hpc : s.sync.pc = .nextHost fs ((name, conns) :: todo) free a) :
    assignNode s.handler.followers name free a ≠ none := by
  intro hnone
  obtain ⟨hl, rfl⟩ := assignNode_none hnone
  have hsup : Supply news count (name :: todo.map (·.1)) a.lookup [] :=
    h.supply _ _ _ (by simp only [Sys.toNumber, hpc, List.map_cons])
  exact absurd (hsup.short hl) (Nat.not_lt.2 he)

theorem Drawing.sync {i : SyncInput} {handler : Handler} {pc' : SyncPc} (h : Drawing total news count s)
    (hnews : news.Nodup) (hi : IndexInv cfg s) (hc : s.Calm cfg fs (.sync i))
    (hb : SyncMove cfg s.closed s.mux.conns.length s.handler s.sync.pc i handler pc')
    (hp : s'.sync.pc = pc') : ∀ names had free, s'.toNumber = some (names, had, free) →
      Supply news count names had free := by
  have hsup := h.supply
  have hpast := h.past
  have htarget := hc.1
  unfold Sys.toNumber at hsup
  generalize hpc : s.sync.pc = pc at hb hsup hpast htarget
  intro names had free he
  cases hb with
  | writeLock fs new => cases hpast
  | readHistory fs hosts new free' hperm =>
    simp only [Sys.toNumber, hp, Option.some.injEq, Prod.mk.injEq, List.map_map] at he
    obtain ⟨rfl, rfl, rfl⟩ := he
    have hnames : hosts.map (Prod.fst ∘ fun host => (host, (new.lookup host).getD [])) = hosts := List.map_id hosts
    rw [hnames]
    exact (hsup _ _ _ rfl).perm hperm
  | assign fs name conns todo free₀ free' a a' nidx ha =>
    simp only [Sys.toNumber, hp, Option.some.injEq, Prod.mk.injEq] at he
    obtain ⟨rfl, rfl, rfl⟩ := he
    have hmap := hi.map_assigned (by rw [hpc]; rfl) (by rw [hpc]; rfl) name
    have hsup' : Supply news count (name :: todo.map (·.1)) a.lookup free₀ := hsup _ _ _ rfl
    rcases assignNode_cases ha hmap with ⟨hl, rfl, rfl⟩ | ⟨hnone, rfl, rfl⟩
    · exact hsup'.tail
    · exact hsup'.draw hnews hnone (AList.lookup_insert ..) fun host hne => AList.lookup_insert_ne hne
  | noIndex fs name conns todo free₀ a ha =>
    simp only [Sys.toNumber, hp, Option.some.injEq, Prod.mk.injEq] at he
    obtain ⟨rfl, rfl, rfl⟩ := he
    have hsup' : Supply news count (name :: todo.map (·.1)) a.lookup free₀ := hsup _ _ _ rfl
    exact hsup'.tail
  | hostDone fs todo free₀ a name nidx freeConns =>
    simp only [Sys.toNumber, hp] at he
    exact hsup names had free he
  | insertConn fs todo free₀ a name nidx j freeConns c conns =>
    simp only [Sys.toNumber, hp] at he
    exact hsup names had free he
  | recordHistory fs todo free₀ a name nidx j freeConns conns =>
    simp only [Sys.toNumber, hp] at he
    exact hsup names had free he
  | fastFollowers anyLeader _ hor => cases htarget
  | _ => simp [Sys.toNumber, hp] at he

theorem Drawing.step (h : Drawing total news count s) (hnews : news.Nodup)
    (hr : Reach (Sys.step cfg) (Sys.init cfg) s) (hc : s.Calm cfg fs l) (hs : s.step cfg l = some s') :
    Drawing total news count s' := by
  have hi := IndexInv.of_reach hr
  have hfill := h.filling.step hr hc hs h.no_skip
  have keep : (∀ i, l ≠ .sync i) → s'.sync.pc = s.sync.pc → Drawing total news count s' := by
    intro hl hp
    have hindex := hi.indexOf_congr (IndexInv.of_reach (hr.tail l hs)) (Sys.history_keys hi hs hl)
    refine ⟨hfill, hp ▸ h.past, ?_⟩
    rw [Sys.toNumber, hp, hindex]
    exact h.supply
  cases Sys.Move.of_step hs with
  | sync i handler pc' hw hb =>
    refine ⟨hfill, Bool.eq_false_iff.2 fun ho => ?_, h.sync hnews hi hc hb rfl⟩
    have hbefore := (hb.opening hc.1 ho).1
    rw [h.past] at hbefore
    cases hbefore
  | _ => exact keep (by simp) rfl

/-! ### The whole run -/

/-- A run of `sync_followers(fs)` amid everything else, in which every connection opens and none closes:
it takes its snapshot in `s₀`, has the map locked for writing in `s₁` and has returned in `s₂`. -/
structure Sys.SyncsFollowers (cfg : Config) (fs : List String) (s₀ s₁ s₂ : Sys) : Prop where
  reach : Reach (Sys.step cfg) (Sys.init cfg) s₀
  snapshot : s₀.sync.pc = .snapshot fs
  opens : ∃ hosts t, s₀.step cfg (.sync (.order hosts)) = some t ∧
    ReachWith (Sys.step cfg) (Sys.Calm cfg fs) t s₁
  locks : ∃ new, s₁.sync.pc = .writeLock fs new
  files : ∃ t u free a, s₁.step cfg (.sync .go) = some t ∧ ReachWith (Sys.step cfg) (Sys.Calm cfg fs) t u ∧
    u.sync.pc = .nextHost fs [] free a ∧ u.step cfg (.sync .go) = some s₂

/-- The hosts of the list that the history does not know. -/
def Sys.unknownHosts (s : Sys) (fs : List String) : List String := fs.filter fun host => (s.indexOf host).isNone

theorem snapshot_step {hosts : List String} (hr : Reach (Sys.step cfg) (Sys.init cfg) s)
    (hpc : s.sync.pc = .snapshot fs) (hs : s.step cfg (.sync (.order hosts)) = some s') :
    s'.handler = s.handler ∧ s'.mux = s.mux ∧ ∃ required : AList fun _ : String => Nat,
      requiredConns cfg fs (s.handler.followers.entries.map fun e => (e.1.1, e.1.2.1)) = some required ∧
      hosts.Perm required.keys ∧ s'.sync.pc =
        .connect fs (hosts.flatMap fun host => List.replicate ((required.lookup host).getD 0) host) ∅ := by
  cases Sys.Move.of_step hs with
  | sync i handler pc' hw hb =>
    rw [hpc] at hb
    cases hb with
    | overflow fs hosts hnone =>
      have hsome := requiredConns_snapshot (IndexInv.of_reach hr) (FollowerInv.of_reach hr) fs
      rw [hnone] at hsome
      cases hsome
    | snapshot fs hosts required hreq hperm => exact ⟨rfl, by simp [Sys.syncMux, hpc], required, hreq, hperm, rfl⟩

theorem Opening.of_snapshot {hosts : List String} (hr : Reach (Sys.step cfg) (Sys.init cfg) s)
    (hpc : s.sync.pc = .snapshot fs) (hs : s.step cfg (.sync (.order hosts)) = some s') :
    Opening (fun host => s'.openCount host + s'.sync.pc.pendingCount host) (s.unknownHosts fs) s' := by
  have hi := IndexInv.of_reach hr
  obtain ⟨hh, hm, required, hreq, hperm, hpc'⟩ := snapshot_step hr hpc hs
  have hindex : s'.indexOf = s.indexOf := by
    funext host
    rw [Sys.indexOf, Sys.indexOf, Sys.history, Sys.history, hh]
  refine ⟨⟨?_, ?_, ?_, fun _ => Nat.le_refl _, fun _ _ => Nat.le_refl _⟩, fun name hn hnone => ?_, fun name hn => ?_⟩
  · simp [hpc', SyncPc.opened]
  · simp [hpc', SyncPc.freeConns]
  · simp [hpc', SyncPc.filing]
  · rw [hindex] at hnone
    refine List.mem_filter.2 ⟨?_, by simp [hnone]⟩
    rw [hpc'] at hn
    rcases hn with ⟨conns, hn⟩ | ⟨_, todo, _, he, hn⟩
    · simp [SyncPc.opened] at hn
    · cases he
      obtain ⟨host, hhost, hrep⟩ := List.mem_flatMap.1 hn
      obtain ⟨-, rfl⟩ := List.mem_replicate.1 hrep
      rcases mem_requiredConns hreq (AList.mem_keys.2 (hperm.mem_iff.1 hhost)) with hf | ⟨e, he, rfl⟩
      · exact hf
      · -- a host of the map has an index in the history
        obtain ⟨⟨key, x⟩, hx, rfl⟩ := List.mem_map.1 he
        have hnode := (hi.map key x (mem_entries_iff.1 hx)).resolve_right (by simp [hpc, SyncPc.recording])
        rw [hi.indexOf_iff.2 hnode] at hnone
        cases hnone
  · rw [hindex]
    exact Option.isNone_iff_eq_none.1 (List.mem_filter.1 hn).2

theorem Drawing.of_opening {new : NewConns} (h : Opening total news s) (hr : Reach (Sys.step cfg) (Sys.init cfg) s)
    (hpc : s.sync.pc = .writeLock fs new) (hs : s.step cfg (.sync .go) = some s') :
    Drawing total news (freeNodeIds fs s.handler.followers).length s' := by
  have hmove : s'.handler = s.handler ∧ s'.mux = s.mux ∧
      s'.sync.pc = .readHistory fs new (freeNodeIds fs s.handler.followers) := by
    cases Sys.Move.of_step hs with
    | sync i handler pc' hw hb =>
      rw [hpc] at hb
      cases hb with
      | writeLock fs new => exact ⟨rfl, by simp [Sys.syncMux, hpc], rfl⟩
  obtain ⟨hh, hm, hpc'⟩ := hmove
  have hindex : s'.indexOf = s.indexOf := by
    funext host
    rw [Sys.indexOf, Sys.indexOf, Sys.history, Sys.history, hh]
  have hcalm : s.Calm cfg fs (.sync .go) := by
    refine ⟨by rw [hpc]; rfl, by simp, fun t ht c hc => ?_⟩
    rw [hs] at ht
    rw [← Option.some.inj ht, Sys.closed, hm]
    exact hc
  have hfill : Filling total True s' := h.filling.step hr hcalm hs fun _ _ _ _ _ _ _ he => by
    rw [hpc] at he
    cases he
  refine ⟨⟨hfill.opened, hfill.nodup, hfill.free, hfill.le, fun _ => hfill.ge trivial⟩, by rw [hpc']; rfl, ?_⟩
  intro names had free he
  simp only [Sys.toNumber, hpc', Option.some.injEq, Prod.mk.injEq] at he
  obtain ⟨rfl, rfl, rfl⟩ := he
  rw [hindex]
  refine ⟨?_, fun name hn hnone => ?_⟩
  · rw [List.countP_eq_zero.2 fun name hn => by simp [h.unknown name hn], Nat.zero_add]
  · obtain ⟨conns, hl⟩ := exists_lookup (AList.mem_keys.2 hn)
    exact h.mem name (.inl ⟨conns, by rw [hpc]; exact hl⟩) hnone

/-- All connections of the host are open. -/
def Sys.AllOpen (s : Sys) (host : String) : Prop :=
  ∀ i j x, s.handler.followers.lookup (host, i, j) = some x → s.closed x.id = false

theorem openCount_eq (s : Sys) (host : String) : s.openCount host =
    (s.handler.followers.entries.filter fun e => e.1.1 = host).countP fun e => s.closed e.2.id = false := by
  rw [List.countP_filter, Sys.openCount]
  refine List.countP_congr fun e _ => ?_
  simp [and_comm]

theorem openCount_congr (hh : s'.handler = s.handler) (hm : s'.mux = s.mux) (host : String) :
    s'.openCount host = s.openCount host := by
  have hclosed : s'.closed = s.closed := by
    funext c
    rw [Sys.closed, Sys.closed, hm]
  rw [Sys.openCount, Sys.openCount, hh, hclosed]

theorem hostCount_eq (followers : FollowerMap) (host : String) :
    hostCount followers host = (followers.entries.filter fun e => e.1.1 = host).length :=
  List.countP_eq_length_filter

theorem openCount_le (s : Sys) (host : String) : s.openCount host ≤ hostCount s.handler.followers host := by
  rw [openCount_eq, hostCount_eq]
  exact List.countP_le_length

theorem allOpen_iff (s : Sys) (host : String) :
    s.AllOpen host ↔ s.openCount host = hostCount s.handler.followers host := by
  rw [openCount_eq, hostCount_eq, List.countP_eq_length]
  constructor
  · rintro h ⟨⟨host', i, j⟩, x⟩ he
    obtain ⟨hmem, hhost⟩ := List.mem_filter.1 he
    obtain rfl : host' = host := of_decide_eq_true hhost
    exact decide_eq_true (h i j x (mem_entries_iff.1 hmem))
  · intro h i j x hl
    exact of_decide_eq_true (h ⟨(host, i, j), x⟩ (List.mem_filter.2 ⟨mem_entries_iff.2 hl, by simp⟩))

/-- What a run of `sync_followers` makes of the open connections of a host: it keeps them and adds what the
host lacked, open or not; it adds nothing to no host when there are indices for all that need one, and
when every unknown host has come into the map then there were. -/
theorem Sys.SyncsFollowers.totals {s₀ s₁ s₂ : Sys} (h : Sys.SyncsFollowers cfg fs s₀ s₁ s₂) (hfs : fs.Nodup) :
    (∀ host ∈ fs, s₂.openCount host + hostCount s₀.handler.followers host ≤
      cfg.connPerNode32 + s₀.openCount host) ∧
    ((s₀.unknownHosts fs).length ≤ (freeNodeIds fs s₁.handler.followers).length → ∀ host ∈ fs,
      cfg.connPerNode32 + s₀.openCount host ≤ s₂.openCount host + hostCount s₀.handler.followers host) ∧
    ((∀ host ∈ s₀.unknownHosts fs, s₂.HasConn host) →
      (s₀.unknownHosts fs).length ≤ (freeNodeIds fs s₁.handler.followers).length) ∧
    Reach (Sys.step cfg) (Sys.init cfg) s₂ := by
  obtain ⟨hosts, t, hst, hopens⟩ := h.opens
  obtain ⟨new, hlock⟩ := h.locks
  obtain ⟨t', u, free, a, hst', hfiles, hend, hst₂⟩ := h.files
  have hrt : Reach (Sys.step cfg) (Sys.init cfg) t := h.reach.tail _ hst
  have hr₁ : Reach (Sys.step cfg) (Sys.init cfg) s₁ := hrt.trans hopens.reach
  have hrt' : Reach (Sys.step cfg) (Sys.init cfg) t' := hr₁.tail _ hst'
  have hru : Reach (Sys.step cfg) (Sys.init cfg) u := hrt'.trans hfiles.reach
  have hnews : (s₀.unknownHosts fs).Nodup := hfs.filter _
  set total : String → Nat := fun host => t.openCount host + t.sync.pc.pendingCount host with htotal
  -- the two stretches of the run, with the invariant of each
  have hopening : s₁.sync.pc.opening = true → Opening total (s₀.unknownHosts fs) s₁ :=
    hopens.induct (fun _ => Opening.of_snapshot h.reach h.snapshot hst) fun _ _ _ hr hi hc hs =>
      Opening.step hi (hrt.trans hr.reach) hc hs
  have hdrawing : Drawing total (s₀.unknownHosts fs) (freeNodeIds fs s₁.handler.followers).length u :=
    hfiles.induct (Drawing.of_opening (hopening (by rw [hlock]; rfl)) hr₁ hlock hst') fun _ _ _ hr hi hc hs =>
      hi.step hnews (hrt'.trans hr.reach) hc hs
  -- the first and the last step leave the map and the connections alone
  obtain ⟨hh, hm, required, hreq, hperm, hpct⟩ := snapshot_step h.reach h.snapshot hst
  have hsame : s₂.handler = u.handler ∧ s₂.mux = u.mux := by
    cases Sys.Move.of_step hst₂ with
    | sync i handler pc' hw hb =>
      rw [hend] at hb
      cases hb with
      | allDone fs free a => exact ⟨rfl, by simp [Sys.syncMux, hend]⟩
  have hcount : ∀ host, s₂.openCount host = u.openCount host := openCount_congr hsame.1 hsame.2
  have hpend : ∀ host, u.sync.pc.pendingCount host = 0 := by
    intro host
    rw [hend]
    rfl
  have hstart : ∀ host ∈ fs, total host + hostCount s₀.handler.followers host =
      cfg.connPerNode32 + s₀.openCount host := by
    intro host hhost
    have hle := hostCount_le (IndexInv.of_reach h.reach) (FollowerInv.of_reach h.reach) host
    have hadd := requiredConns_add hreq host (by rw [countP_snapshot]; exact hle)
    rw [countP_snapshot, if_neg fun he => he.2 hhost] at hadd
    have hto : t.sync.pc.pendingCount host = (required.lookup host).getD 0 := by
      rw [hpct]
      exact count_todo hperm host
    have hoo : t.openCount host = s₀.openCount host := openCount_congr hh hm host
    rw [htotal]
    dsimp only
    rw [hto, hoo]
    omega
  refine ⟨fun host hhost => ?_, fun he host hhost => ?_, fun hall => ?_, hru.tail _ hst₂⟩
  · have hle := hdrawing.filling.le host
    have heq := hstart host hhost
    rw [hpend, Nat.add_zero] at hle
    rw [hcount]
    omega
  · have hge := hdrawing.filling.ge he host
    have heq := hstart host hhost
    rw [hpend, Nat.add_zero] at hge
    rw [hcount]
    omega
  · have hsup : Supply (s₀.unknownHosts fs) (freeNodeIds fs s₁.handler.followers).length [] a.lookup free :=
      hdrawing.supply _ _ _ (by simp only [Sys.toNumber, hend, List.map_nil])
    refine hsup.enough fun host hhost => ?_
    obtain ⟨i, j, x, hl⟩ := hall host hhost
    rw [hsame.1] at hl
    have hassigned := (IndexInv.of_reach hru).map_assigned (by rw [hend]; rfl) (by rw [hend]; rfl) host i j x hl
    exact Option.isSome_iff_exists.2 ⟨i, hassigned⟩

theorem hasConn_of_hostCount {host : String} (h : 0 < hostCount s.handler.followers host) : s.HasConn host := by
  obtain ⟨⟨⟨host', i, j⟩, x⟩, he, hhost⟩ := List.countP_pos_iff.1 h
  obtain rfl : host' = host := of_decide_eq_true hhost
  exact ⟨i, j, x, mem_entries_iff.1 he⟩

/-- A run of `sync_followers(fs)` in which every connection opens and none closes leaves every host of
`fs` with `conn_per_roomzin_node` connections, all open, exactly when that number fits a `u32`, the
connections that the hosts had at the snapshot were open, and there were as many free node indices
below `fs.len()`, when the map was locked, as there are hosts in `fs` that the history does not know. -/
theorem followers_converge_iff {s₀ s₁ s₂ : Sys} (h : Sys.SyncsFollowers cfg fs s₀ s₁ s₂) (hfs : fs.Nodup) :
    (∀ host ∈ fs, hostCount s₂.handler.followers host = cfg.connPerRoomzinNode ∧ s₂.AllOpen host) ↔
      (fs = [] ∨ cfg.connPerRoomzinNode < 2 ^ 32) ∧ (∀ host ∈ fs, s₀.AllOpen host) ∧
      (cfg.connPerRoomzinNode = 0 ∨
        (s₀.unknownHosts fs).length ≤ (freeNodeIds fs s₁.handler.followers).length) := by
  obtain ⟨hupper, hlower, hindices, hr₂⟩ := h.totals hfs
  have hcap := hostCount_le (IndexInv.of_reach hr₂) (FollowerInv.of_reach hr₂)
  constructor
  · intro hconv
    refine ⟨?_, fun host hhost => ?_, ?_⟩
    · cases hlist : fs with
      | nil => exact .inl rfl
      | cons host rest =>
        obtain ⟨hn, -⟩ := hconv host (by simp [hlist])
        have hle := hcap host
        rw [hn] at hle
        exact .inr (hle.trans_lt (Nat.mod_lt _ (by decide)))
    · obtain ⟨hn, hopen⟩ := hconv host hhost
      have hu := hupper host hhost
      have hle := openCount_le s₀ host
      have hmod : cfg.connPerNode32 ≤ cfg.connPerRoomzinNode := Nat.mod_le _ _
      rw [(allOpen_iff s₂ host).1 hopen, hn] at hu
      rw [allOpen_iff]
      omega
    · by_cases hzero : cfg.connPerRoomzinNode = 0
      · exact .inl hzero
      · refine .inr (hindices fun host hhost => hasConn_of_hostCount ?_)
        rw [(hconv host (List.mem_filter.1 hhost).1).1]
        exact Nat.pos_of_ne_zero hzero
  · rintro ⟨hfit, hopen, henough⟩ host hhost
    have hn : cfg.connPerNode32 = cfg.connPerRoomzinNode := by
      rcases hfit with rfl | hlt
      · cases hhost
      · exact Nat.mod_eq_of_lt hlt
    have hle := hcap host
    have hle' := openCount_le s₂ host
    rcases henough with hzero | henough
    · have h0 : hostCount s₂.handler.followers host = 0 := by omega
      exact ⟨by omega, (allOpen_iff s₂ host).2 (by omega)⟩
    · have hl := hlower henough host hhost
      rw [(allOpen_iff s₀ host).1 (hopen host hhost)] at hl
      exact ⟨by omega, (allOpen_iff s₂ host).2 (by omega)⟩

/-! ### Runs -/

/-- `Calm`, evaluated. -/
def Sys.calm (cfg : Config) (fs : List String) (s : Sys) (l : SysLabel) : Bool :=
  s.sync.pc.target = some fs && (match l with | .sync (.connected false) => false | _ => true) &&
    (s.step cfg l).all fun s' => (List.range s.mux.conns.length).all fun c => s.closed c || !s'.closed c

theorem Sys.Calm.of_check (h : s.calm cfg fs l = true) : s.Calm cfg fs l := by
  simp only [Sys.calm, Bool.and_eq_true, decide_eq_true_eq] at h
  obtain ⟨⟨ht, hl⟩, hall⟩ := h
  refine ⟨ht, ?_, fun s' hs c hc => ?_⟩
  · rintro rfl
    cases hl
  · have hlt : c < s.mux.conns.length := by
      by_contra hge
      simp [Sys.closed, List.getElem?_eq_none (Nat.le_of_not_lt hge)] at hc
    rw [hs, Option.all_some, List.all_eq_true] at hall
    simpa [hc] using hall c (List.mem_range.2 hlt)

def SyncPc.atSnapshot (fs : List String) : SyncPc → Bool
  | .snapshot fs' => fs' = fs
  | _ => false

def SyncPc.atWriteLock (fs : List String) : SyncPc → Bool
  | .writeLock fs' _ => fs' = fs
  | _ => false

def SyncPc.atEnd (fs : List String) : SyncPc → Bool
  | .nextHost fs' [] _ _ => fs' = fs
  | _ => false

/-- The run of `sync_followers(fs)` that the labels make: those before its snapshot, the order of its hosts,
those up to the write lock and those up to its last step. -/
def Sys.syncRun (cfg : Config) (fs : List String) (before : List SysLabel) (hosts : List String)
    (opening filing : List SysLabel) : Option (Sys × Sys × Sys) := do
  let s₀ ← exec (Sys.step cfg) (Sys.init cfg) before
  guard (s₀.sync.pc.atSnapshot fs)
  let t ← s₀.step cfg (.sync (.order hosts))
  let s₁ ← exec (guarded (Sys.calm cfg fs) (Sys.step cfg)) t opening
  guard (s₁.sync.pc.atWriteLock fs)
  let t' ← s₁.step cfg (.sync .go)
  let u ← exec (guarded (Sys.calm cfg fs) (Sys.step cfg)) t' filing
  guard (u.sync.pc.atEnd fs)
  let s₂ ← u.step cfg (.sync .go)
  some (s₀, s₁, s₂)

theorem Sys.SyncsFollowers.of_run {before opening filing : List SysLabel} {hosts : List String} {s₀ s₁ s₂ : Sys}
    (h : Sys.syncRun cfg fs before hosts opening filing = some (s₀, s₁, s₂)) :
    Sys.SyncsFollowers cfg fs s₀ s₁ s₂ := by
  simp only [Sys.syncRun, Option.bind_eq_bind, Option.bind_eq_some_iff, Option.guard_eq_some', Option.some.injEq,
    Prod.mk.injEq] at h
  obtain ⟨_, hs₀, -, hsnap, t, hst, _, hs₁, -, hlock, t', hst', u, hu, -, hend, _, hst₂, rfl, rfl, rfl⟩ := h
  have calm : ∀ (s : Sys) l, s.calm cfg fs l = true → s.Calm cfg fs l := fun _ _ h => .of_check h
  refine ⟨Reach.refl.of_exec hs₀, ?_, ⟨hosts, t, hst, ReachWith.refl.of_guarded calm hs₁⟩, ?_, ?_⟩
  · unfold SyncPc.atSnapshot at hsnap
    split at hsnap
    next fs' hpc => rw [hpc, of_decide_eq_true hsnap]
    next => cases hsnap
  · unfold SyncPc.atWriteLock at hlock
    split at hlock
    next fs' new hpc => exact ⟨new, by rw [hpc, of_decide_eq_true hlock]⟩
    next => cases hlock
  · unfold SyncPc.atEnd at hend
    split at hend
    next fs' free a hpc =>
      refine ⟨t', u, free, a, hst', ReachWith.refl.of_guarded calm hu, ?_, hst₂⟩
      rw [hpc, of_decide_eq_true hend]
    next => cases hend

/-- The first sync finds two followers and connects to both. -/
theorem followers_converge_iff_first : ∃ s₀ s₁ s₂, Sys.SyncsFollowers {} ["a", "b"] s₀ s₁ s₂ ∧
    ∀ host ∈ ["a", "b"], hostCount s₂.handler.followers host = 1 ∧ s₂.AllOpen host := by
  have hrun : (Sys.syncRun {} ["a", "b"] (Sys.leaderDown "l" ["a", "b"] true ++ [.acquire .sync]) ["a", "b"]
      [.sync (.connected true), .sync (.connected true), .sync .go, .acquire .sync]
      [.acquire .sync, .sync (.order ["a", "b"]), .sync .go, .sync .go, .acquire .sync, .sync .go, .sync .go,
        .sync .go, .sync .go, .acquire .sync, .sync .go, .sync .go]).any (fun (s₀, s₁, _) =>
      s₀.handler.followers.keys = [] && decide ((s₀.unknownHosts ["a", "b"]).length ≤
        (freeNodeIds ["a", "b"] s₁.handler.followers).length)) = true := by decide +kernel
  obtain ⟨⟨s₀, s₁, s₂⟩, hrun, hp⟩ := (Option.any_eq_true _ _).1 hrun
  simp only [Bool.and_eq_true, decide_eq_true_eq] at hp
  have h := Sys.SyncsFollowers.of_run hrun
  refine ⟨s₀, s₁, s₂, h, (followers_converge_iff h (by decide)).2 ⟨.inr (by decide), ?_, .inr hp.2⟩⟩
  intro host _ i j x hl
  have hmem := AList.mem_keys.1 (mem_of_lookup hl)
  rw [hp.1] at hmem
  cases hmem

/-- The connection of `a` has closed and the next sync leaves it as it is; and `c` gets no connection when the
two hosts it replaces have the node indices. -/
theorem followers_not_filled :
    (∃ s₀ s₁ s₂ x, Sys.SyncsFollowers {} ["a"] s₀ s₁ s₂ ∧
      s₂.handler.followers.lookup ("a", 0, 0) = some x ∧ s₂.closed x.id = true) ∧
    ∃ s₀ s₁ s₂, Sys.SyncsFollowers {} ["c"] s₀ s₁ s₂ ∧ (∀ host ∈ ["c"], s₀.AllOpen host) ∧
      hostCount s₂.handler.followers "c" = 0 := by
  have hrun : (Sys.syncRun {} ["a"] (Sys.leaderDown "l" ["a"] true ++ Sys.followersUp [("a", true)] ++
      [.mux (.readEnd 0), .mux (.readerStop 0)] ++ Sys.leaderDown "l" ["a"] false ++ [.acquire .sync]) []
      [.sync .go, .acquire .sync] [.acquire .sync, .sync (.order [])]).any (fun (_, _, s₂) =>
      s₂.handler.followers.lookup ("a", 0, 0) = some ⟨0, "a"⟩ && s₂.closed 0) = true := by decide +kernel
  have hrun' : (Sys.syncRun {} ["c"] (Sys.leaderDown "l" ["a", "b"] true ++
      Sys.followersUp [("a", true), ("b", true)] ++ Sys.leaderDown "l" ["c"] false ++ [.acquire .sync]) ["c"]
      [.sync (.connected true), .sync .go, .acquire .sync]
      [.acquire .sync, .sync (.order ["c"]), .sync .go]).any (fun (s₀, _, s₂) =>
      (s₀.handler.followers.entries.all fun e => e.1.1 ≠ "c") && hostCount s₂.handler.followers "c" = 0) = true := by
    decide +kernel
  obtain ⟨⟨s₀, s₁, s₂⟩, hrun, hp⟩ := (Option.any_eq_true _ _).1 hrun
  obtain ⟨⟨t₀, t₁, t₂⟩, hrun', hp'⟩ := (Option.any_eq_true _ _).1 hrun'
  simp only [Bool.and_eq_true, decide_eq_true_eq, List.all_eq_true] at hp hp'
  refine ⟨⟨s₀, s₁, s₂, ⟨0, "a"⟩, .of_run hrun, hp⟩, t₀, t₁, t₂, .of_run hrun', ?_, hp'.2⟩
  intro host hhost i j x hl
  cases List.mem_singleton.1 hhost
  exact absurd rfl (hp'.1 ⟨("c", i, j), x⟩ (mem_entries_iff.2 hl))

end RzBridge

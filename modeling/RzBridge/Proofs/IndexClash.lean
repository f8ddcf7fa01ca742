import RzBridge.Lib.Numbering
import RzBridge.Proofs.FollowerIndex

/-!
# Two hosts with one node index

`sync_followers` takes the free node indices from the map, but lets a host without a connection there
reclaim the index that the history has for it, whoever has that index by now. The hosts of the map
keep distinct indices in every run in which, whenever the indices are assigned, a host that comes back
finds its old index unused: no host of the map has it, no other host that comes back has had it, and it
is not among the free indices that the hosts without a history are about to draw.
-/

namespace RzBridge
open Machine Assoc Numbering

variable {cfg : Config} {s s' : Sys} {l : SysLabel}

/-- The host has a connection in the map. -/
def Sys.HasConn (s : Sys) (host : String) : Prop := ∃ i j x, s.handler.followers.lookup (host, i, j) = some x

/-- The host has the node index `i` in the map, or the sync task files connections there for it. -/
def Sys.Taken (s : Sys) (host : String) (i : Nat) : Prop :=
  (∃ j x, s.handler.followers.lookup (host, i, j) = some x) ∨ s.sync.pc.filing = some (host, i)

/-- The index that the history has for a host. -/
def Sys.indexOf (s : Sys) (host : String) : Option Nat := (assignedNodeIds s.history).lookup host

theorem IndexInv.indexOf_iff (h : IndexInv cfg s) {host : String} {i : Nat} :
    s.indexOf host = some i ↔ (host, i) ∈ s.history :=
  ⟨assignedNodeIds_lookup, fun hi => assignedNodeIds_of_mem (fun i' hi' => h.unique host i i' hi hi') hi⟩

/-- When the sync task takes the map to assign indices, the hosts that come back find theirs unused. -/
def Sys.ReturnsClear (s : Sys) (l : SysLabel) : Prop :=
  ∀ fs new, s.sync.pc = .writeLock fs new → l = .sync .go → ∀ name ∈ new, ¬ s.HasConn name →
    ∀ i, s.indexOf name = some i →
      (∀ key x, s.handler.followers.lookup key = some x → key.2.1 ≠ i) ∧
      (∀ other ∈ new, s.indexOf other = some i → other = name) ∧
      i ∉ draws new.keys s.indexOf (freeNodeIds fs s.handler.followers)

/-- The hosts that are still to get an index, the indices assigned and the free indices. -/
def Sys.toNumber (s : Sys) : Option (List String × (String → Option Nat) × List Nat) :=
  match s.sync.pc with
  | .readHistory _ new free => some (new.keys, s.indexOf, free)
  | .nextHost _ todo free a => some (todo.map (·.1), a.lookup, free)
  | .insertConn _ todo free a _ _ _ _ => some (todo.map (·.1), a.lookup, free)
  | .recordHistory _ todo free a _ _ _ _ _ => some (todo.map (·.1), a.lookup, free)
  | _ => none

structure ClashInv (s : Sys) : Prop where
  distinct : Distinct s.Taken
  clear : ∀ names had free, s.toNumber = some (names, had, free) → Clear s.Taken names had free

theorem ClashInv.mono (h : ClashInv s) (ht : ∀ host i, s'.Taken host i → s.Taken host i)
    (hn : s'.toNumber = s.toNumber ∨ s'.toNumber = none) : ClashInv s' := by
  refine ⟨h.distinct.mono ht, fun names had free he => ?_⟩
  rcases hn with hn | hn <;> rw [hn] at he
  · exact (h.clear names had free he).mono ht
  · cases he

theorem taken_mono (hm : ∀ key x, s'.handler.followers.lookup key = some x → s.handler.followers.lookup key = some x)
    (hf : s'.sync.pc.filing = s.sync.pc.filing ∨ s'.sync.pc.filing = none) (host : String) (i : Nat)
    (h : s'.Taken host i) : s.Taken host i := by
  rcases h with ⟨j, x, hl⟩ | hfi
  · exact .inl ⟨j, x, hm _ x hl⟩
  · rcases hf with hf | hf <;> rw [hf] at hfi
    · exact .inr hfi
    · cases hfi

theorem IndexInv.indexOf_congr (h : IndexInv cfg s) (h' : IndexInv cfg s')
    (hh : ∀ node, node ∈ s'.history ↔ node ∈ s.history) : s'.indexOf = s.indexOf := by
  funext host
  refine Option.ext fun i => ?_
  show s'.indexOf host = some i ↔ s.indexOf host = some i
  rw [h'.indexOf_iff, h.indexOf_iff, hh]

theorem ClashInv.keep (h : ClashInv s) (hi : s'.indexOf = s.indexOf)
    (hm : ∀ key x, s'.handler.followers.lookup key = some x → s.handler.followers.lookup key = some x)
    (hp : s'.sync.pc = s.sync.pc) : ClashInv s' := by
  refine h.mono (taken_mono hm (.inl (by rw [hp]))) (.inl ?_)
  rw [Sys.toNumber, Sys.toNumber, hp, hi]

theorem Sys.history_keys (hi : IndexInv cfg s) (hs : s.step cfg l = some s') (hl : ∀ i, l ≠ .sync i)
    (node : String × Nat) : node ∈ s'.history ↔ node ∈ s.history := by
  cases Sys.Move.of_step hs with
  | sel k sel handler pc' hk hw hb => exact hb.history_keys (hi.sels sel (List.mem_of_getElem? hk)) node
  | sync i handler pc' hw hb => exact absurd rfl (hl i)
  | rehashHistory history hperm => exact AList.mem_of_perm hperm
  | _ => exact Iff.rfl

/-- The condition is what makes the numbering clear when the map is taken. -/
theorem clear_of_returns {fs : List String} {new : NewConns} (hi : IndexInv cfg s) (hd : Distinct s.Taken)
    (hpc : s.sync.pc = .writeLock fs new) (hc : s.ReturnsClear (.sync .go)) :
    Clear s.Taken new.keys s.indexOf (freeNodeIds fs s.handler.followers) := by
  have hmap : ∀ host i, s.Taken host i → ∃ j x, s.handler.followers.lookup (host, i, j) = some x := by
    rintro host i (hl | hfi)
    · exact hl
    · simp [hpc, SyncPc.filing] at hfi
  have hnew : ∀ {name}, name ∈ new.keys → name ∈ new := fun h => AList.mem_keys.2 h
  -- a host of the map has there the index of the history
  have hindex : ∀ name i, s.indexOf name = some i → s.HasConn name → s.Taken name i := by
    rintro name i hidx ⟨i', j, x, hl⟩
    have he : i' = i := hi.index_unique (.inr ⟨j, x, hl⟩) (.inl (hi.indexOf_iff.1 hidx))
    exact .inl ⟨j, x, he ▸ hl⟩
  have hfree : ∀ i ∈ draws new.keys s.indexOf (freeNodeIds fs s.handler.followers), ∀ host, ¬ s.Taken host i := by
    intro i hi host ht
    obtain ⟨j, x, hl⟩ := hmap host i ht
    have hmem := (List.mem_filter.1 (List.mem_of_mem_drop hi)).2
    simp only [Bool.not_eq_true', List.contains_eq_mem, decide_eq_false_iff_not] at hmem
    exact hmem (List.mem_map.2 ⟨⟨(host, i, j), x⟩, mem_entries_iff.2 hl, rfl⟩)
  refine ⟨new.nodupKeys, List.nodup_range.filter _, fun name hn i hidx host ht => ?_,
    fun name hn other ho i hidx hidx' => ?_, fun name hn i hidx hdraw => ?_, hfree⟩
  · by_cases hconn : s.HasConn name
    · exact hd host name i ht (hindex name i hidx hconn)
    · obtain ⟨j, x, hl⟩ := hmap host i ht
      exact absurd rfl ((hc fs new hpc rfl name (hnew hn) hconn i hidx).1 _ x hl)
  · by_cases hconn : s.HasConn name
    · by_cases hconn' : s.HasConn other
      · exact hd name other i (hindex name i hidx hconn) (hindex other i hidx' hconn')
      · exact (hc fs new hpc rfl other (hnew ho) hconn' i hidx').2.1 name (hnew hn) hidx
    · exact ((hc fs new hpc rfl name (hnew hn) hconn i hidx).2.1 other (hnew ho) hidx').symm
  · by_cases hconn : s.HasConn name
    · exact hfree i hdraw name (hindex name i hidx hconn)
    · exact (hc fs new hpc rfl name (hnew hn) hconn i hidx).2.2 hdraw

theorem ClashInv.sync {i : SyncInput} {handler : Handler} {pc' : SyncPc} (h : ClashInv s) (hi : IndexInv cfg s)
    (hc : s.ReturnsClear (.sync i))
    (hb : SyncMove cfg s.closed s.mux.conns.length s.handler s.sync.pc i handler pc')
    (hs : s'.handler = handler) (hp : s'.sync.pc = pc') : ClashInv s' := by
  have hclear := h.clear
  unfold Sys.toNumber at hclear
  generalize hpc : s.sync.pc = pc at hb hclear
  have assigned : ∀ {a}, pc.assigned = some a → pc.recording = none → ∀ name i j x,
      s.handler.followers.lookup (name, i, j) = some x → a.lookup name = some i :=
    fun ha hr => hi.map_assigned (hpc ▸ ha) (hpc ▸ hr)
  -- the map and the node being filed under stay, or the latter is done with
  have same : handler.followers = s.handler.followers → (pc'.filing = pc.filing ∨ pc'.filing = none) →
      ∀ host i, s'.Taken host i → s.Taken host i := by
    intro hf hfi
    refine taken_mono (by rw [hs, hf]; exact fun _ _ hl => hl) ?_
    rw [hp, hpc]
    exact hfi
  have outside : handler.followers = s.handler.followers → pc'.filing = none → s'.toNumber = none → ClashInv s' :=
    fun hf hfi hn => h.mono (same hf (.inr hfi)) (.inr hn)
  cases hb with
  | writeLock fs new =>
    have ht := same rfl (.inl rfl)
    refine ⟨h.distinct.mono ht, fun names had free he => ?_⟩
    simp only [Sys.toNumber, hp, Option.some.injEq, Prod.mk.injEq] at he
    obtain ⟨rfl, rfl, rfl⟩ := he
    have hindex : s'.indexOf = s.indexOf := by
      funext host
      rw [Sys.indexOf, Sys.indexOf, Sys.history, hs]
      rfl
    rw [hindex]
    exact (clear_of_returns hi h.distinct hpc hc).mono ht
  | readHistory fs hosts new free hperm =>
    have ht := same rfl (.inl rfl)
    refine ⟨h.distinct.mono ht, fun names had free he => ?_⟩
    simp only [Sys.toNumber, hp, Option.some.injEq, Prod.mk.injEq, List.map_map] at he
    obtain ⟨rfl, rfl, rfl⟩ := he
    have hnames : hosts.map (Prod.fst ∘ fun host => (host, (new.lookup host).getD [])) = hosts := List.map_id hosts
    rw [hnames]
    exact ((hclear _ _ _ rfl).perm hperm).mono ht
  | assign fs name conns todo free free' a a' nidx ha =>
    have hcl : Clear s.Taken (name :: todo.map (·.1)) a.lookup free := hclear _ _ _ rfl
    have ht : ∀ host i, s'.Taken host i → s.Taken host i ∨ host = name ∧ i = nidx := by
      rintro host i (⟨j, x, hl⟩ | hfi)
      · rw [hs] at hl
        exact .inl (.inl ⟨j, x, hl⟩)
      · rw [hp] at hfi
        cases hfi
        exact .inr ⟨rfl, rfl⟩
    rcases assignNode_cases ha (assigned rfl rfl name) with ⟨hl, rfl, rfl⟩ | ⟨hnone, rfl, rfl⟩
    · refine ⟨h.distinct.add (hcl.own name (List.mem_cons_self ..) nidx hl) ht, fun names had free he => ?_⟩
      simp only [Sys.toNumber, hp, Option.some.injEq, Prod.mk.injEq] at he
      obtain ⟨rfl, rfl, rfl⟩ := he
      exact hcl.reclaim hl ht
    · have hdraws : draws (name :: todo.map (·.1)) a.lookup (free' ++ [nidx]) =
          draws (todo.map (·.1)) a.lookup free' ++ [nidx] := draws_cons_none hnone
      have hdraw : nidx ∈ draws (name :: todo.map (·.1)) a.lookup (free' ++ [nidx]) := by simp [hdraws]
      refine ⟨h.distinct.add (fun host hh => absurd hh (hcl.unused nidx hdraw host)) ht, fun names had free he => ?_⟩
      simp only [Sys.toNumber, hp, Option.some.injEq, Prod.mk.injEq] at he
      obtain ⟨rfl, rfl, rfl⟩ := he
      exact hcl.draw hnone (fun host hne => AList.lookup_insert_ne hne) ht
  | noIndex fs name conns todo free a ha =>
    have ht := same rfl (.inl rfl)
    obtain ⟨-, rfl⟩ := assignNode_none ha
    refine ⟨h.distinct.mono ht, fun names had free he => ?_⟩
    simp only [Sys.toNumber, hp, Option.some.injEq, Prod.mk.injEq] at he
    obtain ⟨rfl, rfl, rfl⟩ := he
    have hcl : Clear s.Taken (name :: todo.map (·.1)) a.lookup [] := hclear _ _ _ rfl
    exact hcl.skip.mono ht
  | hostDone fs todo free a name nidx freeConns =>
    refine h.mono (same rfl (.inr rfl)) (.inl ?_)
    simp only [Sys.toNumber, hp, hpc]
  | insertConn fs todo free a name nidx j freeConns c conns =>
    refine h.mono ?_ (.inl (by simp only [Sys.toNumber, hp, hpc]))
    rintro host i (⟨j', x, hl⟩ | hfi)
    · rw [hs] at hl
      rcases lookup_insert_iff.1 hl with ⟨he, -⟩ | ⟨-, hl⟩
      · cases he
        exact .inr (by rw [hpc]; rfl)
      · exact .inl ⟨j', x, hl⟩
    · rw [hp] at hfi
      exact .inr (by rw [hpc]; exact hfi)
  | recordHistory fs todo free a name nidx j freeConns conns =>
    refine h.mono (same rfl (.inl rfl)) (.inl ?_)
    simp only [Sys.toNumber, hp, hpc]
  | fastFollowers anyLeader _ hor =>
    rcases hor with rfl | rfl <;> exact outside rfl rfl (by simp only [Sys.toNumber, hp])
  | _ => exact outside rfl rfl (by simp only [Sys.toNumber, hp])

theorem ClashInv.step (h : ClashInv s) (hi : IndexInv cfg s) (hf : FollowerInv cfg s) (hc : s.ReturnsClear l)
    (hs : s.step cfg l = some s') : ClashInv s' := by
  have hindex : (∀ i, l ≠ .sync i) → s'.indexOf = s.indexOf :=
    fun hl => hi.indexOf_congr (hi.step hf hs) (Sys.history_keys hi hs hl)
  cases Sys.Move.of_step hs with
  | sel k sel handler pc' hk hw hb => exact h.keep (hindex (by simp)) (fun _ _ hl => hb.followers hl) rfl
  | sync i handler pc' hw hb => exact h.sync hi hc hb rfl rfl
  | rehashFollowers followers hperm =>
    exact h.keep (hindex (by simp)) (fun key x hl => (AList.perm_lookup hperm).symm.trans hl) rfl
  | _ => exact h.keep (hindex (by simp)) (fun _ _ hl => hl) rfl

theorem ClashInv.of_reachWith (h : ReachWith (Sys.step cfg) Sys.ReturnsClear (Sys.init cfg) s) : ClashInv s := by
  refine h.induct ⟨?_, by simp [Sys.init, Sys.toNumber]⟩ fun _ _ _ hr hi hc hs =>
    hi.step (IndexInv.of_reach hr.reach) (FollowerInv.of_reach hr.reach) hc hs
  rintro host host' i (⟨j, x, hl⟩ | hfi) _
  · simp [Sys.init, Handler.new] at hl
  · simp [Sys.init, SyncPc.filing] at hfi

/-- `ReturnsClear`, evaluated. -/
def Sys.returnsClear (s : Sys) (_ : SysLabel) : Bool :=
  match s.sync.pc with
  | .writeLock fs new => new.keys.all fun name =>
    s.handler.followers.entries.any (·.1.1 = name) || (s.indexOf name).all fun i =>
      (s.handler.followers.entries.all fun e => e.1.2.1 ≠ i) &&
      (new.keys.all fun other => other = name || s.indexOf other ≠ some i) &&
      !(draws new.keys s.indexOf (freeNodeIds fs s.handler.followers)).contains i
  | _ => true

theorem Sys.ReturnsClear.of_check (h : s.returnsClear l = true) : s.ReturnsClear l := by
  intro fs new hpc _ name hn hconn i hi
  simp only [Sys.returnsClear, hpc, List.all_eq_true] at h
  have hname := h name (AList.mem_keys.1 hn)
  have hany : s.handler.followers.entries.any (fun e => e.1.1 = name) = false := by
    refine Bool.eq_false_iff.2 fun ht => hconn ?_
    obtain ⟨⟨⟨host, n, j⟩, x⟩, he, hh⟩ := List.any_eq_true.1 ht
    obtain rfl : host = name := of_decide_eq_true hh
    exact ⟨n, j, x, mem_entries_iff.1 he⟩
  simp only [hany, hi, Bool.false_or, Option.all_some, Bool.and_eq_true, List.all_eq_true, decide_eq_true_eq,
    Bool.or_eq_true, Bool.not_eq_true', List.contains_eq_mem, decide_eq_false_iff_not] at hname
  obtain ⟨⟨hmap, hother⟩, hdraw⟩ := hname
  refine ⟨fun key x hl => hmap ⟨key, x⟩ (mem_entries_iff.2 hl), fun other ho hidx => ?_, hdraw⟩
  exact (hother other (AList.mem_keys.1 ho)).resolve_right (absurd hidx)

end RzBridge

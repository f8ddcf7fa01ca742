import RzBridge.Pool

/-!
# The pieces of the selections and of the sync task, case by case

`SelMove` and `SyncMove` list what a piece can do, one constructor for each branch of the code;
everything about runs of the pools is a case analysis on them.
-/

namespace RzBridge

theorem wrapIdx_lt {n i : Nat} (hn : 0 < n) : wrapIdx n i < n := by
  unfold wrapIdx
  split <;> omega

theorem wrapIdx_succ {n i : Nat} (hi : i < n) : wrapIdx n (i + 1) = (i + 1) % n := by
  unfold wrapIdx
  split
  next hge =>
    obtain rfl : n = i + 1 := by omega
    rw [Nat.mod_self]
  next hlt => rw [Nat.mod_eq_of_lt (Nat.lt_of_not_ge hlt)]

/-- A piece of a selection takes the handler `h` to its first index and the call to its second. -/
inductive SelMove (cfg : Config) (closed : Nat → Bool) (now : Nat) (h : Handler) :
    SelPc → Handler → SelPc → Prop
  | fLen : SelMove cfg closed now h .fLen h (fNext h.loadBalancer.followerHistory.entries.length)
  | fSkip (left : Nat) (ht : h.loadBalancer.target h.loadBalancer.nextNode = none) :
      SelMove cfg closed now h (.fIter left)
        { h with loadBalancer := { h.loadBalancer with lastNodeId := h.loadBalancer.nextNode } }
        (fNext (left - 1))
  | fTarget (left : Nat) (node : String × Nat) (counter : Nat)
      (ht : h.loadBalancer.target h.loadBalancer.nextNode = some (node, counter)) :
      SelMove cfg closed now h (.fIter left)
        { h with loadBalancer := { h.loadBalancer with lastNodeId := h.loadBalancer.nextNode } }
        (.fMap (left - 1) node (wrapIdx cfg.connPerNode32 counter))
  | fMap (left : Nat) (node : String × Nat) (j : Nat) :
      SelMove cfg closed now h (.fMap left node j) h (.fScan left node j 0)
  | fOver (left : Nat) (node : String × Nat) (j tried : Nat) (ht : ¬ tried < cfg.connPerRoomzinNode) :
      SelMove cfg closed now h (.fScan left node j tried) h (fNext left)
  | fStale (left : Nat) (node : String × Nat) (j tried : Nat) (c : Connection)
      (ht : tried < cfg.connPerRoomzinNode)
      (hl : h.followers.lookup (node.1, node.2, j) = some c) (hc : closed c.id = true) :
      SelMove cfg closed now h (.fScan left node j tried) h (.fClean left node j tried c now)
  | fFound (left : Nat) (node : String × Nat) (j tried : Nat) (c : Connection)
      (ht : tried < cfg.connPerRoomzinNode)
      (hl : h.followers.lookup (node.1, node.2, j) = some c) (hc : closed c.id = false) :
      SelMove cfg closed now h (.fScan left node j tried)
        { h with loadBalancer := h.loadBalancer.chosen cfg node j } (.ret (some c))
  | fAbsent (left : Nat) (node : String × Nat) (j tried : Nat) (ht : tried < cfg.connPerRoomzinNode)
      (hl : h.followers.lookup (node.1, node.2, j) = none) :
      SelMove cfg closed now h (.fScan left node j tried) h
        (.fScan left node (wrapIdx cfg.connPerNode32 (j + 1)) (tried + 1))
  | fClean (left : Nat) (node : String × Nat) (j tried : Nat) (c : Connection) (start : Nat) :
      SelMove cfg closed now h (.fClean left node j tried c start)
        { h with followers := h.followers.erase (node.1, node.2, j) }
        (.fScan left node (wrapIdx cfg.connPerNode32 (j + 1)) (tried + 1))
  | lLock : SelMove cfg closed now h .lLock h
      (.lSlots (wrapIdx cfg.connPerRoomzinNode ((h.loadBalancer.lastLeaderId + 1) % 2 ^ 32)))
  | lNone (next : Nat) (hn : h.leaderConns = [] ∨ ¬ h.leaderConns.any (·.isSome)) :
      SelMove cfg closed now h (.lSlots next) h (.ret none)
  | lSlots (next : Nat) (hn : ¬ (h.leaderConns = [] ∨ ¬ h.leaderConns.any (·.isSome))) :
      SelMove cfg closed now h (.lSlots next) h
      (.lScan (min cfg.connPerRoomzinNode h.leaderConns.length) next)
  | lOver (next : Nat) : SelMove cfg closed now h (.lScan 0 next) h (.ret none)
  | lStale (left next : Nat) (c : Connection) (hs : h.leaderConns[next]? = some (some c))
      (hc : closed c.id = true) :
      SelMove cfg closed now h (.lScan (left + 1) next) h (.lClean left next c now)
  | lFound (left next : Nat) (c : Connection) (hs : h.leaderConns[next]? = some (some c))
      (hc : closed c.id = false) :
      SelMove cfg closed now h (.lScan (left + 1) next)
        { h with loadBalancer := { h.loadBalancer with lastLeaderId := next % 2 ^ 32 } } (.ret (some c))
  | lAbsent (left next : Nat) (hs : ∀ c, h.leaderConns[next]? ≠ some (some c)) :
      SelMove cfg closed now h (.lScan (left + 1) next) h
        (.lScan left (wrapIdx cfg.connPerRoomzinNode (next + 1)))
  | lClean (left next : Nat) (c : Connection) (start : Nat) :
      SelMove cfg closed now h (.lClean left next c start) h
        (.lScan left (wrapIdx cfg.connPerRoomzinNode (next + 1)))

variable {cfg : Config} {closed : Nat → Bool} {now fresh : Nat} {h h' : Handler}

theorem SelMove.of_body {pc pc' : SelPc} (hb : selBody cfg closed now h pc = some (h', pc')) :
    SelMove cfg closed now h pc h' pc' := by
  cases pc with
  | idle => cases hb
  | ret r => cases hb
  | fLen =>
    cases hb
    exact .fLen
  | fIter left =>
    simp only [selBody] at hb
    split at hb <;> cases hb
    next ht => exact .fSkip left ht
    next node counter ht => exact .fTarget left node counter ht
  | fMap left node j =>
    cases hb
    exact .fMap left node j
  | fScan left node j tried =>
    simp only [selBody] at hb
    split at hb
    next ht =>
      split at hb
      next c hl =>
        split at hb <;> cases hb
        next hc => exact .fStale left node j tried c ht hl hc
        next hc => exact .fFound left node j tried c ht hl (by simpa using hc)
      next hl =>
        cases hb
        exact .fAbsent left node j tried ht hl
    next ht =>
      cases hb
      exact .fOver left node j tried ht
  | fClean left node j tried c start =>
    cases hb
    exact .fClean left node j tried c start
  | lLock =>
    cases hb
    exact .lLock
  | lSlots next =>
    simp only [selBody] at hb
    split at hb <;> cases hb
    next hn => exact .lNone next hn
    next hn => exact .lSlots next hn
  | lScan left next =>
    cases left with
    | zero =>
      cases hb
      exact .lOver next
    | succ left =>
      simp only [selBody] at hb
      split at hb
      next c hs =>
        split at hb <;> cases hb
        next hc => exact .lStale left next c hs hc
        next hc => exact .lFound left next c hs (by simpa using hc)
      next hs =>
        cases hb
        exact .lAbsent left next hs
  | lClean left next c start =>
    cases hb
    exact .lClean left next c start

theorem fNext_ne {left : Nat} {pc : SelPc} (hret : pc ≠ .ret none) (hiter : ∀ n, pc ≠ .fIter n) :
    pc ≠ fNext left := by
  unfold fNext
  split
  · exact hret
  · exact hiter left

/-- A selection returns what an index of the map or a slot holds, found open. -/
theorem SelMove.found {pc : SelPc} {x : Connection} (hb : SelMove cfg closed now h pc h' (.ret (some x))) :
    closed x.id = false ∧
      ((∃ left node j tried, pc = .fScan left node j tried ∧
        h.followers.lookup (node.1, node.2, j) = some x) ∨
        ∃ left next, pc = .lScan left next ∧ h.leaderConns[next]? = some (some x)) := by
  generalize hpc' : SelPc.ret (some x) = pc' at hb
  cases hb with
  | fFound left node j tried c ht hl hc =>
    cases hpc'
    exact ⟨hc, .inl ⟨left, node, j, tried, rfl, hl⟩⟩
  | lFound left next c hs hc =>
    cases hpc'
    exact ⟨hc, .inr ⟨left + 1, next, rfl, hs⟩⟩
  | fLen => exact absurd hpc' (fNext_ne (by simp) (by simp))
  | fSkip => exact absurd hpc' (fNext_ne (by simp) (by simp))
  | fOver => exact absurd hpc' (fNext_ne (by simp) (by simp))
  | _ => cases hpc'

/-- A piece of the sync task on the input `i`. -/
inductive SyncMove (cfg : Config) (closed : Nat → Bool) (fresh : Nat) (h : Handler) :
    SyncPc → SyncInput → Handler → SyncPc → Prop
  | fastTick : SyncMove cfg closed fresh h .idle .fastTick h .fastLeader
  | slowTick : SyncMove cfg closed fresh h .idle .slowTick h .enter
  | fastLeader (anyLeader : Bool) : SyncMove cfg closed fresh h .fastLeader .go h (.fastFollowers anyLeader)
  | fastFollowers (anyLeader : Bool) (pc : SyncPc) (hpc : pc = .enter ∨ pc = .idle) :
      SyncMove cfg closed fresh h (.fastFollowers anyLeader) .go h pc
  | skip (hs : h.syncing = true) : SyncMove cfg closed fresh h .enter .go h .idle
  | enter (hs : h.syncing = false) : SyncMove cfg closed fresh h .enter .go
      { h with syncing := true } .discover
  | undiscovered : SyncMove cfg closed fresh h .discover (.discovered none) h .leave
  | discovered (host : String) (fs : List String) :
      SyncMove cfg closed fresh h .discover (.discovered (some (host, fs))) h (.leaderLoad host fs)
  | leaderSame (host : String) (fs : List String) (hh : h.leaderHost = some host) :
      SyncMove cfg closed fresh h (.leaderLoad host fs) .go h (.leaderSnapshot host fs)
  | leaderChanged (host : String) (fs : List String) (hh : h.leaderHost ≠ some host) :
      SyncMove cfg closed fresh h (.leaderLoad host fs) .go h (.leaderClear host fs)
  | leaderClear (host : String) (fs : List String) :
      SyncMove cfg closed fresh h (.leaderClear host fs) .go
        { h with leaderConns := h.leaderConns.map fun _ => none } (.leaderStore host fs)
  | leaderStore (host : String) (fs : List String) :
      SyncMove cfg closed fresh h (.leaderStore host fs) .go { h with leaderHost := some host }
        (.leaderSnapshot host fs)
  | leaderSnapshot (host : String) (fs : List String) (required : List Nat) :
      SyncMove cfg closed fresh h (.leaderSnapshot host fs) .go h (.leaderConnect host fs required)
  | leaderDone (host : String) (fs : List String) :
      SyncMove cfg closed fresh h (.leaderConnect host fs []) .go h (.snapshot fs)
  | leaderConnected (host : String) (fs : List String) (i : Nat) (required : List Nat) :
      SyncMove cfg closed fresh h (.leaderConnect host fs (i :: required)) (.connected true) h
        (.leaderFill host fs i required ⟨fresh, host⟩)
  | leaderFailed (host : String) (fs : List String) (i : Nat) (required : List Nat) :
      SyncMove cfg closed fresh h (.leaderConnect host fs (i :: required)) (.connected false) h
        (.leaderConnect host fs required)
  | leaderFill (host : String) (fs : List String) (i : Nat) (required : List Nat) (conn : Connection) :
      SyncMove cfg closed fresh h (.leaderFill host fs i required conn) .go
        { h with leaderConns := h.leaderConns.set i (some conn) } (.leaderRestore host fs required)
  | leaderRestore (host : String) (fs : List String) (required : List Nat) :
      SyncMove cfg closed fresh h (.leaderRestore host fs required) .go { h with leaderHost := some host }
        (.leaderConnect host fs required)
  | overflow (fs hosts : List String)
      (hr : requiredConns cfg fs (h.followers.entries.map fun e => (e.1.1, e.1.2.1)) = none) :
      SyncMove cfg closed fresh h (.snapshot fs) (.order hosts) h .panicked
  | snapshot (fs hosts : List String) (required : AList fun _ : String => Nat)
      (hr : requiredConns cfg fs (h.followers.entries.map fun e => (e.1.1, e.1.2.1)) = some required)
      (hp : hosts.Perm required.keys) :
      SyncMove cfg closed fresh h (.snapshot fs) (.order hosts) h
        (.connect fs (hosts.flatMap fun host => List.replicate ((required.lookup host).getD 0) host) ∅)
  | connectDone (fs : List String) (new : NewConns) :
      SyncMove cfg closed fresh h (.connect fs [] new) .go h (.writeLock fs new)
  | connected (fs : List String) (host : String) (todo : List String) (new : NewConns) :
      SyncMove cfg closed fresh h (.connect fs (host :: todo) new) (.connected true) h
        (.connect fs todo (pushConn new host ⟨fresh, host⟩))
  | connectFailed (fs : List String) (host : String) (todo : List String) (new : NewConns) :
      SyncMove cfg closed fresh h (.connect fs (host :: todo) new) (.connected false) h (.connect fs todo new)
  | writeLock (fs : List String) (new : NewConns) :
      SyncMove cfg closed fresh h (.writeLock fs new) .go h (.readHistory fs new (freeNodeIds fs h.followers))
  | readHistory (fs hosts : List String) (new : NewConns) (free : List Nat) (hp : hosts.Perm new.keys) :
      SyncMove cfg closed fresh h (.readHistory fs new free) (.order hosts) h
        (.nextHost fs (hosts.map fun host => (host, (new.lookup host).getD [])) free
          (assignedNodeIds h.loadBalancer.followerHistory))
  | allDone (fs : List String) (free : List Nat) (assigned : AList fun _ : String => Nat) :
      SyncMove cfg closed fresh h (.nextHost fs [] free assigned) .go h .leave
  | assign (fs : List String) (name : String) (conns : List Connection)
      (todo : List (String × List Connection))
      (free free' : List Nat) (assigned assigned' : AList fun _ : String => Nat) (nidx : Nat)
      (ha : assignNode h.followers name free assigned = some (nidx, free', assigned')) :
      SyncMove cfg closed fresh h (.nextHost fs ((name, conns) :: todo) free assigned) .go h
        (.insertConn fs todo free' assigned' name nidx (freeConnIds cfg closed h.followers name) conns)
  | noIndex (fs : List String) (name : String) (conns : List Connection)
      (todo : List (String × List Connection))
      (free : List Nat) (assigned : AList fun _ : String => Nat)
      (ha : assignNode h.followers name free assigned = none) :
      SyncMove cfg closed fresh h (.nextHost fs ((name, conns) :: todo) free assigned) .go h
        (.nextHost fs todo free assigned)
  | hostDone (fs : List String) (todo : List (String × List Connection)) (free : List Nat)
      (assigned : AList fun _ : String => Nat) (name : String) (nidx : Nat) (freeConns : List Nat) :
      SyncMove cfg closed fresh h (.insertConn fs todo free assigned name nidx freeConns []) .go h
        (.nextHost fs todo free assigned)
  | noConnIndex (fs : List String) (todo : List (String × List Connection)) (free : List Nat)
      (assigned : AList fun _ : String => Nat) (name : String) (nidx : Nat) (c : Connection)
      (conns : List Connection) :
      SyncMove cfg closed fresh h (.insertConn fs todo free assigned name nidx []
      (c :: conns)) .go h .panicked
  | insertConn (fs : List String) (todo : List (String × List Connection)) (free : List Nat)
      (assigned : AList fun _ : String => Nat) (name : String) (nidx j : Nat) (freeConns : List Nat)
      (c : Connection) (conns : List Connection) :
      SyncMove cfg closed fresh h (.insertConn fs todo free assigned name nidx (j :: freeConns)
      (c :: conns)) .go
        { h with followers := h.followers.insert (name, nidx, j) c }
        (.recordHistory fs todo free assigned name nidx j freeConns conns)
  | recordHistory (fs : List String) (todo : List (String × List Connection)) (free : List Nat)
      (assigned : AList fun _ : String => Nat) (name : String) (nidx j : Nat) (freeConns : List Nat)
      (conns : List Connection) :
      SyncMove cfg closed fresh h (.recordHistory fs todo free assigned name nidx j freeConns conns) .go
        { h with
          loadBalancer :=
            { h.loadBalancer with
              followerHistory :=
                if (name, nidx) ∈ h.loadBalancer.followerHistory then h.loadBalancer.followerHistory
                else h.loadBalancer.followerHistory.insert (name, nidx) j } }
        (.insertConn fs todo free assigned name nidx freeConns conns)
  | leave : SyncMove cfg closed fresh h .leave .go { h with syncing := false } .idle

theorem SyncMove.of_body {pc pc' : SyncPc} {i : SyncInput}
    (hb : syncBody cfg closed fresh h pc i = some (h', pc')) :
    SyncMove cfg closed fresh h pc i h' pc' := by
  unfold syncBody at hb
  split at hb
  next => cases hb; exact .fastTick
  next => cases hb; exact .slowTick
  next => cases hb; exact .fastLeader _
  next anyLeader =>
    split at hb <;> cases hb
    · exact .fastFollowers anyLeader _ (.inl rfl)
    · exact .fastFollowers anyLeader _ (.inr rfl)
  next =>
    split at hb <;> cases hb
    next hs => exact .skip hs
    next hs => exact .enter (by simpa using hs)
  next => cases hb; exact .undiscovered
  next host fs => cases hb; exact .discovered host fs
  next host fs =>
    split at hb <;> cases hb
    next hh => exact .leaderSame host fs hh
    next hh => exact .leaderChanged host fs hh
  next host fs => cases hb; exact .leaderClear host fs
  next host fs => cases hb; exact .leaderStore host fs
  next host fs => cases hb; exact .leaderSnapshot host fs _
  next host fs => cases hb; exact .leaderDone host fs
  next host fs i required ok =>
    cases ok <;> cases hb
    · exact .leaderFailed host fs i required
    · exact .leaderConnected host fs i required
  next host fs i required conn => cases hb; exact .leaderFill host fs i required conn
  next host fs required => cases hb; exact .leaderRestore host fs required
  next fs hosts =>
    split at hb
    next hr => cases hb; exact .overflow fs hosts hr
    next required hr =>
      split at hb
      next hp => cases hb; exact .snapshot fs hosts required hr hp
      next => cases hb
  next fs new => cases hb; exact .connectDone fs new
  next fs host todo new ok =>
    cases ok <;> cases hb
    · exact .connectFailed fs host todo new
    · exact .connected fs host todo new
  next fs new => cases hb; exact .writeLock fs new
  next fs new free hosts =>
    split at hb
    next hp => cases hb; exact .readHistory fs hosts new free hp
    next => cases hb
  next fs free assigned => cases hb; exact .allDone fs free assigned
  next fs name conns todo free assigned =>
    split at hb
    next nidx free' assigned' ha =>
      cases hb; exact .assign fs name conns todo free free' assigned assigned' nidx ha
    next ha => cases hb; exact .noIndex fs name conns todo free assigned ha
  next fs todo free assigned name nidx freeConns =>
    cases hb; exact .hostDone fs todo free assigned name nidx freeConns
  next fs todo free assigned name nidx c conns =>
    cases hb; exact .noConnIndex fs todo free assigned name nidx c conns
  next fs todo free assigned name nidx j freeConns c conns =>
    cases hb; exact .insertConn fs todo free assigned name nidx j freeConns c conns
  next fs todo free assigned name nidx j freeConns conns =>
    cases hb; exact .recordHistory fs todo free assigned name nidx j freeConns conns
  next => cases hb; exact .leave
  next => cases hb

end RzBridge

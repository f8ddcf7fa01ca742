import RzBridge.Lib.Ranking
import RzBridge.Proofs.EndToEnd

/-!
# `execute` comes to an end

Of the steps of one `execute` call, those of its own code (not of the selections it runs) lower
`Call.rank`, which starts at 21, and its draws lower `Call.drawsLeft`, which starts at 3. A selection that
looks through the follower history makes a number of steps that is not known before it has read the
history's length; `Sys.rank` orders the steps of a call with its selections lexicographically, so that
in every infinite run, however the pools change under it, the call takes finitely many.
-/

namespace RzBridge
open Machine

variable {cfg : Config}

/-! ### The call's own steps -/

def CallPc.rank : CallPc → Nat
  | .start => 7
  | .sleep => 7
  | .select => 6
  | .draw _ => 5
  | .store _ _ _ false => 4
  | .store _ _ _ true => 3
  | .send .. => 2
  | .await .. => 1
  | .done _ => 0

/-- How many steps the call has left at most. -/
def Call.rank (call : Call) : Nat := (2 - call.attempts) * 7 + call.pc.rank

/-- How many ids the call may still draw. -/
def Call.drawsLeft (call : Call) : Nat :=
  match call.pc with
  | .store .. => 2 - call.attempts
  | .send .. => 2 - call.attempts
  | .await .. => 2 - call.attempts
  | .done _ => 0
  | _ => 3 - call.attempts

theorem Call.rank_retry {call : Call} (e : RZError) (h : call.attempts < 3) (hpc : 0 < call.pc.rank) :
    (call.retry e).rank < call.rank := by
  unfold Call.rank Call.retry
  split
  · show (2 - (call.attempts + 1)) * 7 + 0 < _
    omega
  · show (2 - (call.attempts + 1)) * 7 + 7 < _
    omega

theorem Call.retry_pc_ne {call : Call} (e : RZError) (h : call.pc.rank ≠ 7) (h' : call.pc.rank ≠ 0) :
    (call.retry e).pc ≠ call.pc := by
  unfold Call.retry
  dsimp only
  intro heq
  split at heq
  · exact h' (by rw [← heq]; rfl)
  · exact h (by rw [← heq]; rfl)

theorem Call.drawsLeft_retry {call : Call} (e : RZError) (h : call.attempts < 3) (hpc : ∀ r, call.pc ≠ .done r) :
    (call.retry e).drawsLeft ≤ call.drawsLeft := by
  have hle : (call.retry e).drawsLeft ≤ 2 - call.attempts := by
    unfold Call.retry Call.drawsLeft
    split_ifs
    · exact Nat.zero_le _
    · show 3 - (call.attempts + 1) ≤ 2 - call.attempts
      omega
  refine hle.trans ?_
  unfold Call.drawsLeft
  split
  case h_4 r hr => exact absurd hr (hpc r)
  case h_5 => omega
  all_goals exact le_rfl

section

variable {m m' : Mux} {l : MuxLabel} {k : Nat} {call call' : Call}

theorem CallStep.rank (h : CallStep m l k call call') (ht : (∀ r, call.pc ≠ .done r) → call.attempts < 3) :
    (call'.pc = call.pc ∧ call'.attempts = call.attempts) ∨ call'.rank < call.rank := by
  cases h with
  | refl => exact .inl ⟨rfl, rfl⟩
  | slot s hp => exact .inl ⟨rfl, rfl⟩
  | noConn r hl hp => exact .inr (Call.rank_retry _ (ht (by simp [hp])) (by simp [hp, CallPc.rank]))
  | refused c id hl hp => exact .inr (Call.rank_retry _ (ht (by simp [hp])) (by simp [hp, CallPc.rank]))
  | dropped c id hp => exact .inr (Call.rank_retry _ (ht (by simp [hp])) (by simp [hp, CallPc.rank]))
  | reject hp | begin hp | selected c hl hp | draw c conn hl hp | lockStore c id t hp | store c id t s hp
  | send c id hl hp | answer c id b hp | wake hp =>
    right
    simp only [Call.rank, hp, CallPc.rank]
    omega

theorem CallStep.drawsLeft (h : CallStep m l k call call') (ht : (∀ r, call.pc ≠ .done r) → call.attempts < 3) :
    call'.drawsLeft ≤ call.drawsLeft := by
  cases h with
  | refl => exact le_rfl
  | slot s hp => exact le_rfl
  | noConn r hl hp | refused c id hl hp | dropped c id hp =>
    exact Call.drawsLeft_retry _ (ht (by simp [hp])) (by simp [hp])
  | reject hp | begin hp | selected c hl hp | draw c conn hl hp | lockStore c id t hp | store c id t s hp
  | send c id hl hp | answer c id b hp | wake hp =>
    simp only [Call.drawsLeft, hp]
    omega

end

/-- The call whose code a step of the multiplexer runs. -/
def MuxLabel.caller : MuxLabel → Option Nat
  | .start k => some k
  | .selected k _ => some k
  | .draw k => some k
  | .lockStore k => some k
  | .store k => some k
  | .send k => some k
  | .receive k => some k
  | .wake k => some k
  | _ => none

namespace Mux

variable {m m' : Mux} {l : MuxLabel} {k : Nat}

/-- A call that is not there yet has all its steps before it. -/
def rank (m : Mux) (k : Nat) : Nat := (m.calls[k]?).elim 21 Call.rank

def drawsLeft (m : Mux) (k : Nat) : Nat := (m.calls[k]?).elim 3 Call.drawsLeft

theorem caller_moves (hs : m.step cfg l = some m') (hl : l.caller = some k) :
    ∃ call call', m.calls[k]? = some call ∧ m'.calls[k]? = some call' ∧ call'.pc ≠ call.pc := by
  have self : ∀ {call x : Call}, m.calls[k]? = some call → x.pc ≠ call.pc → m' = m.setCall k x →
      ∃ call call', m.calls[k]? = some call ∧ m'.calls[k]? = some call' ∧ call'.pc ≠ call.pc := by
    rintro call x hk hx rfl
    exact ⟨call, x, hk, setCall_self hk, hx⟩
  cases l with
  | start k' =>
    obtain rfl := Option.some.inj hl
    obtain ⟨call, hk, hp, ⟨-, hm⟩ | ⟨-, hm⟩⟩ := callStart_some hs <;> exact self hk (by simp [hp]) hm
  | selected k' r =>
    obtain rfl := Option.some.inj hl
    obtain ⟨call, hk, hp, hm | ⟨c, conn, -, -, -, hm⟩⟩ := callSelected_some hs
    · exact self hk (Call.retry_pc_ne _ (by simp [hp, CallPc.rank]) (by simp [hp, CallPc.rank])) hm
    · exact self hk (by simp [hp]) hm
  | draw k' =>
    obtain rfl := Option.some.inj hl
    obtain ⟨call, c, conn, hk, hp, hc, rfl⟩ := callDraw_some hs
    exact ⟨call, _, hk, setCall_self (m := m.setConn c _) hk, by simp [hp]⟩
  | lockStore k' =>
    obtain rfl := Option.some.inj hl
    obtain ⟨call, c, id, t, hk, hp, hm⟩ := callLockStore_some hs
    exact self hk (by simp [hp]) hm
  | store k' =>
    obtain rfl := Option.some.inj hl
    obtain ⟨call, c, conn, id, t, hk, hp, hc, rfl⟩ := callStore_some hs
    obtain ⟨call', hk', -⟩ := step_call_fwd hs hk
    obtain ⟨y, hy, hf⟩ := demuxStore_call_back hk'
    rw [setCall_self hk] at hy
    obtain rfl := Option.some.inj hy
    exact ⟨call, call', hk, hk', by cases hf <;> simp [hp]⟩
  | send k' =>
    obtain rfl := Option.some.inj hl
    obtain ⟨call, c, conn, id, hk, hp, hc, ⟨-, hm⟩ | ⟨-, rfl⟩⟩ := callSend_some hs
    · exact self hk (Call.retry_pc_ne _ (by simp [hp, CallPc.rank]) (by simp [hp, CallPc.rank])) hm
    · exact ⟨call, _, hk, setCall_self (m := m.setConn c _) hk, by simp [hp]⟩
  | receive k' =>
    obtain rfl := Option.some.inj hl
    obtain ⟨call, c, id, hk, hp, ⟨b, -, hm⟩ | ⟨-, hm⟩⟩ := callReceive_some hs
    · exact self hk (by simp [hp]) hm
    · exact self hk (Call.retry_pc_ne _ (by simp [hp, CallPc.rank]) (by simp [hp, CallPc.rank])) hm
  | wake k' =>
    obtain rfl := Option.some.inj hl
    obtain ⟨call, hk, hp, hm⟩ := callWake_some hs
    exact self hk (by simp [hp]) hm
  | _ => cases hl

theorem rank_step (hm : OutcomeInv m) (hs : m.step cfg l = some m') :
    m'.rank k + (if l.caller = some k then 1 else 0) ≤ m.rank k := by
  cases hk : m.calls[k]? with
  | none =>
    have hl : l.caller ≠ some k := by
      intro hl
      obtain ⟨call, call', hk', -⟩ := caller_moves hs hl
      cases hk.symm.trans hk'
    have hold : m.rank k = 21 := by rw [rank, hk]; rfl
    rw [if_neg hl, hold, rank]
    cases hk' : m'.calls[k]? with
    | none => exact le_rfl
    | some call' =>
      -- the call was made in this step
      obtain ⟨call, hk'', -⟩ | ⟨-, w, f, -, rfl⟩ := step_call hs hk'
      · cases hk.symm.trans hk''
      · exact le_rfl
  | some call =>
    obtain ⟨call', hk', hstep⟩ := step_call_fwd hs hk
    have hold : m.rank k = call.rank := by rw [rank, hk]; rfl
    have hnew : m'.rank k = call'.rank := by rw [rank, hk']; rfl
    rw [hold, hnew]
    obtain ⟨hpc, ha⟩ | hlt := hstep.rank (hm k call hk).tries.2
    · have hl : l.caller ≠ some k := by
        intro hl
        obtain ⟨c₁, c₂, h₁, h₂, hne⟩ := caller_moves hs hl
        obtain rfl := Option.some.inj (hk.symm.trans h₁)
        obtain rfl := Option.some.inj (hk'.symm.trans h₂)
        exact hne hpc
      rw [if_neg hl, Call.rank, Call.rank, hpc, ha]
      exact le_rfl
    · split <;> omega

theorem drawsLeft_step (hm : OutcomeInv m) (hs : m.step cfg l = some m') :
    m'.drawsLeft k + (if l = .draw k then 1 else 0) ≤ m.drawsLeft k := by
  cases hk : m.calls[k]? with
  | none =>
    have hl : l ≠ .draw k := by
      rintro rfl
      obtain ⟨call, _, _, hk', -⟩ := callDraw_some hs
      cases hk.symm.trans hk'
    have hold : m.drawsLeft k = 3 := by rw [drawsLeft, hk]; rfl
    rw [if_neg hl, hold, drawsLeft]
    cases hk' : m'.calls[k]? with
    | none => exact le_rfl
    | some call' =>
      obtain ⟨call, hk'', -⟩ | ⟨-, w, f, -, rfl⟩ := step_call hs hk'
      · cases hk.symm.trans hk''
      · exact le_rfl
  | some call =>
    obtain ⟨call', hk', hstep⟩ := step_call_fwd hs hk
    have hold : m.drawsLeft k = call.drawsLeft := by rw [drawsLeft, hk]; rfl
    have hnew : m'.drawsLeft k = call'.drawsLeft := by rw [drawsLeft, hk']; rfl
    have htries := (hm k call hk).tries.2
    rw [hold, hnew]
    by_cases hl : l = .draw k
    · subst hl
      obtain ⟨call₁, c, conn, hk₁, hp, hc, rfl⟩ := callDraw_some hs
      obtain rfl := Option.some.inj (hk.symm.trans hk₁)
      rw [setCall_self (m := m.setConn c _) hk] at hk'
      obtain rfl := Option.some.inj hk'
      have h3 := htries (by simp [hp])
      simp only [Call.drawsLeft, hp, if_true]
      omega
    · rw [if_neg hl]
      exact hstep.drawsLeft htries

end Mux

/-! ### With the selections -/

namespace SelPc

/-- Before the selection, before it has read the length of the history, after. -/
def phase : SelPc → Nat
  | .idle => 2
  | .fLen => 1
  | _ => 0

/-- How many pieces a selection has left at most, with `n` connections for each node. -/
def work (n : Nat) : SelPc → Nat
  | .fLen => 1
  | .fIter left => left * (2 * n + 5)
  | .fMap left _ _ => left * (2 * n + 5) + (2 * n + 2)
  | .fScan left _ _ tried => left * (2 * n + 5) + (2 * (n - tried) + 1)
  | .fClean left _ _ tried _ _ => left * (2 * n + 5) + 2 * (n - tried)
  | .lLock => 2 * n + 6
  | .lSlots _ => 2 * n + 4
  | .lScan left _ => 2 * left + 2
  | .lClean left _ _ _ => 2 * left + 3
  | _ => 0

/-- An iteration that is to come, and a closed connection found within the loop's bound. -/
def Bounded (n : Nat) : SelPc → Prop
  | .fIter left => 0 < left
  | .fClean _ _ _ tried _ _ => tried < n
  | _ => True

end SelPc

theorem bounded_fNext (n left : Nat) : (fNext left).Bounded n := by
  unfold fNext
  split
  · trivial
  next h => exact Nat.pos_of_ne_zero h

theorem work_fNext_le (n left : Nat) : (fNext left).work n ≤ left * (2 * n + 5) ∧ (fNext left).phase = 0 := by
  unfold fNext
  split
  · exact ⟨Nat.zero_le _, rfl⟩
  · exact ⟨le_rfl, rfl⟩

theorem SelMove.bounded {closed : Nat → Bool} {now : Nat} {h h' : Handler} {pc pc' : SelPc}
    (hb : SelMove cfg closed now h pc h' pc') : pc'.Bounded cfg.connPerRoomzinNode := by
  cases hb with
  | fLen | fSkip | fOver => exact bounded_fNext _ _
  | fStale left node j tried c ht => exact ht
  | _ => trivial

theorem SelMove.work {closed : Nat → Bool} {now : Nat} {h h' : Handler} {pc pc' : SelPc}
    (hb : SelMove cfg closed now h pc h' pc') (hok : pc.Bounded cfg.connPerRoomzinNode) :
    pc'.phase < pc.phase ∨
      pc'.phase = pc.phase ∧ pc'.work cfg.connPerRoomzinNode < pc.work cfg.connPerRoomzinNode := by
  cases hb with
  | fLen =>
    left
    rw [(work_fNext_le cfg.connPerRoomzinNode _).2]
    exact Nat.one_pos
  | fSkip left =>
    obtain ⟨n, rfl⟩ : ∃ n, left = n + 1 := Nat.exists_eq_succ_of_ne_zero (Nat.pos_iff_ne_zero.1 hok)
    obtain ⟨hle, hph⟩ := work_fNext_le cfg.connPerRoomzinNode n
    right
    refine ⟨hph, hle.trans_lt ?_⟩
    show n * _ < (n + 1) * _
    rw [Nat.succ_mul n]
    omega
  | fTarget left =>
    obtain ⟨n, rfl⟩ : ∃ n, left = n + 1 := Nat.exists_eq_succ_of_ne_zero (Nat.pos_iff_ne_zero.1 hok)
    right
    refine ⟨rfl, ?_⟩
    show n * _ + _ < (n + 1) * _
    rw [Nat.succ_mul n]
    omega
  | fOver left =>
    obtain ⟨hle, hph⟩ := work_fNext_le cfg.connPerRoomzinNode left
    right
    refine ⟨hph, hle.trans_lt ?_⟩
    show _ < left * _ + (_ + 1)
    omega
  | fClean left node j tried =>
    right
    refine ⟨rfl, ?_⟩
    have hlt : tried < cfg.connPerRoomzinNode := hok
    show left * _ + (2 * (cfg.connPerRoomzinNode - (tried + 1)) + 1) < left * _ + 2 * (cfg.connPerRoomzinNode - tried)
    omega
  | fMap | fStale | fFound | fAbsent | lLock | lNone | lSlots | lOver | lStale | lFound | lAbsent | lClean =>
    right
    refine ⟨rfl, ?_⟩
    simp only [SelPc.work]
    omega

/-- The call whose code, or whose selection's code, a step runs. -/
def SysLabel.caller : SysLabel → Option Nat
  | .acquire (.call k) => some k
  | .sel k => some k
  | .mux l => l.caller
  | _ => none

def Sel.rank (n : Nat) (t : Sel) : ℕ ×ₗ ℕ :=
  toLex (t.pc.phase, 2 * t.pc.work n + if t.waits.isSome then 1 else 0)

namespace Sys

variable {s s' : Sys} {l : SysLabel} {k : Nat}

/-- The selection of call `k`; one that is not there yet is at its start. -/
def selOf (s : Sys) (k : Nat) : Sel := (s.sels[k]?).getD {}

def rank (cfg : Config) (k : Nat) (s : Sys) : ℕ ×ₗ ℕ ×ₗ ℕ :=
  toLex (s.mux.rank k, (s.selOf k).rank cfg.connPerRoomzinNode)

def SelsBounded (cfg : Config) (s : Sys) : Prop := ∀ t ∈ s.sels, t.pc.Bounded cfg.connPerRoomzinNode

theorem SelsBounded.of_reach (h : Reach (Sys.step cfg) (Sys.init cfg) s) : s.SelsBounded cfg := by
  refine h.induct (I := SelsBounded cfg) (by simp [SelsBounded, Sys.init]) ?_
  intro s l s' _ ih hs t ht
  obtain ⟨t₀, ht₀, he⟩ | he | ⟨t₀, -, hb⟩ := sel_of_step hs ht
  · rw [he]
    exact ih t₀ ht₀
  · rcases he with he | he | he <;> rw [he] <;> trivial
  · exact hb.bounded

theorem muxRank_le (hm : OutcomeInv s.mux) (hs : s.step cfg l = some s') : s'.mux.rank k ≤ s.mux.rank k := by
  rcases mux_project hs with he | ⟨l', hl', -⟩
  · rw [he]
  · have hstep := Mux.rank_step (k := k) hm hl'
    omega

theorem selOf_set {t : Sel} {k' : Nat} (hs : s'.sels = s.sels.set k' t) (h : k' ≠ k) :
    s'.selOf k = s.selOf k := by
  rw [selOf, selOf, hs, List.getElem?_set_ne h]

theorem selOf_self (s' : Sys) {t t' : Sel} (hk : s.sels[k]? = some t) (hs : s'.sels = s.sels.set k t') :
    s.selOf k = t ∧ s'.selOf k = t' := by
  rw [selOf, selOf, hs, List.getElem?_set_self (List.getElem?_eq_some_iff.1 hk).1, hk]
  exact ⟨rfl, rfl⟩

theorem rank_le (hm : s'.mux.rank k ≤ s.mux.rank k)
    (hsel : (s'.selOf k).rank cfg.connPerRoomzinNode ≤ (s.selOf k).rank cfg.connPerRoomzinNode) :
    s'.rank cfg k ≤ s.rank cfg k := by
  rw [rank, rank, Prod.Lex.toLex_le_toLex]
  exact hm.lt_or_eq.imp_right fun he => ⟨he, hsel⟩

theorem rank_lt_of_mux (hm : s'.mux.rank k < s.mux.rank k) : s'.rank cfg k < s.rank cfg k := by
  rw [rank, rank, Prod.Lex.toLex_lt_toLex]
  exact .inl hm

theorem rank_lt_of_sel (hm : s'.mux.rank k ≤ s.mux.rank k)
    (hsel : (s'.selOf k).rank cfg.connPerRoomzinNode < (s.selOf k).rank cfg.connPerRoomzinNode) :
    s'.rank cfg k < s.rank cfg k := by
  rw [rank, rank, Prod.Lex.toLex_lt_toLex]
  exact hm.lt_or_eq.imp_right fun he => ⟨he, hsel⟩

/-- Every step leaves the rank of a call as it is or lowers it, and a step of the call lowers it. -/
theorem rank_step (hr : Reach (Sys.step cfg) (Sys.init cfg) s) (hs : s.step cfg l = some s') :
    s'.rank cfg k ≤ s.rank cfg k ∧ (l.caller = some k → s'.rank cfg k < s.rank cfg k) := by
  have hout : OutcomeInv s.mux := .of_reach (reach_mux hr)
  have hmux : s'.mux.rank k ≤ s.mux.rank k := muxRank_le hout hs
  have hmove : ∀ l', s.mux.step cfg l' = some s'.mux → l'.caller = some k → s'.mux.rank k < s.mux.rank k := by
    intro l' hl' hc
    have hstep := Mux.rank_step (k := k) hout hl'
    rw [if_pos hc] at hstep
    omega
  -- a step that the selection of the call takes no part in
  have other : s'.selOf k = s.selOf k → l.caller ≠ some k →
      s'.rank cfg k ≤ s.rank cfg k ∧ (l.caller = some k → s'.rank cfg k < s.rank cfg k) := fun he hl =>
    ⟨rank_le hmux (he ▸ le_rfl), fun hc => absurd hc hl⟩
  have own : s'.rank cfg k < s.rank cfg k →
      s'.rank cfg k ≤ s.rank cfg k ∧ (l.caller = some k → s'.rank cfg k < s.rank cfg k) := fun h =>
    ⟨h.le, fun _ => h⟩
  cases Move.of_step hs with
  | lockSync | lockReader | sync | rehashHistory | rehashFollowers => exact other rfl (by simp [SysLabel.caller])
  | lockSel k' sel lm hk hw hf =>
    by_cases hkk : k' = k
    · subst hkk
      obtain ⟨h1, h2⟩ := selOf_self { s with sels := s.sels.set k' { sel with held := true } } hk rfl
      refine own (rank_lt_of_sel hmux ?_)
      rw [h1, h2, Sel.rank, Sel.rank, Prod.Lex.toLex_lt_toLex, hw]
      exact .inr ⟨rfl, by simp [Sel.waits]⟩
    · exact other (selOf_set rfl hkk) (by simpa [SysLabel.caller] using hkk)
  | lockStore k' sel mux hk hw hm =>
    by_cases hkk : k' = k
    · subst hkk
      exact own (rank_lt_of_mux (hmove (.lockStore k') hm rfl))
    · exact other rfl (by simpa [SysLabel.caller] using hkk)
  | selStart k' sel call hk hpc hc hcp =>
    by_cases hkk : k' = k
    · subst hkk
      obtain ⟨h1, h2⟩ := selOf_self
        { s with sels := s.sels.set k' { pc := if call.isWrite then .lLock else .fLen } } hk rfl
      refine own (rank_lt_of_sel hmux ?_)
      rw [h1, h2, Sel.rank, Sel.rank, Prod.Lex.toLex_lt_toLex, hpc]
      left
      cases call.isWrite <;> simp [SelPc.phase]
    · exact other (selOf_set rfl hkk) (by simpa [SysLabel.caller] using hkk)
  | selReturn k' sel r mux hk hpc hm =>
    by_cases hkk : k' = k
    · subst hkk
      exact own (rank_lt_of_mux (hmove (.selected k' (r.map Connection.id)) hm rfl))
    · exact other (selOf_set rfl hkk) (by simpa [SysLabel.caller] using hkk)
  | sel k' sel handler pc' hk hw hb =>
    by_cases hkk : k' = k
    · subst hkk
      obtain ⟨h1, h2⟩ := selOf_self
        { s with handler, mux := selMux cfg s.mux sel.pc, sels := s.sels.set k' { pc := pc' } } hk rfl
      refine own (rank_lt_of_sel hmux ?_)
      have hok := SelsBounded.of_reach hr sel (List.mem_of_getElem? hk)
      rw [h1, h2, Sel.rank, Sel.rank, Prod.Lex.toLex_lt_toLex, hw]
      refine (hb.work hok).imp_right fun ⟨hp, hlt⟩ => ⟨hp, ?_⟩
      show 2 * pc'.work _ + (if _ then 1 else 0) < 2 * sel.pc.work _ + 0
      split <;> omega
    · exact other (selOf_set rfl hkk) (by simpa [SysLabel.caller] using hkk)
  | spawn w f mux hm =>
    refine other ?_ (by simp [SysLabel.caller, MuxLabel.caller])
    show ((s.sels ++ [({} : Sel)])[k]?).getD {} = (s.sels[k]?).getD {}
    rcases Nat.lt_trichotomy k s.sels.length with hlt | heq | hgt
    · rw [List.getElem?_append_left hlt]
    · rw [heq, List.getElem?_concat_length, List.getElem?_eq_none (le_refl _)]
      rfl
    · rw [List.getElem?_eq_none (by simpa using Nat.succ_le_of_lt hgt), List.getElem?_eq_none hgt.le]
  | mux l' mux hm hl hi hr' =>
    refine ⟨rank_le hmux le_rfl, fun hc => rank_lt_of_mux (hmove l' hm hc)⟩

end Sys

/-- However the calls, the sync task and the loops of the connections are interleaved, and however long the
follower history is when a selection reads its length, an `execute` call takes finitely many steps in
every infinite run: neither its retries nor its searches go on for ever. It may wait for ever for a lock or a
response. -/
theorem execute_steps_finite (r : Run (Sys.step cfg) (Sys.init cfg)) (k : Nat) :
    {n | (r.label n).caller = some k}.Finite :=
  r.finite_of_rank (p := fun l => l.caller = some k) (Sys.rank cfg k) (fun _ _ _ hr hs => (Sys.rank_step hr hs).1)
    fun _ _ _ hr hs hc => (Sys.rank_step hr hs).2 hc

/-- Time goes on after a write that awaits its response. -/
theorem execute_steps_finite_waiting : ∃ r : Run (Sys.step {}) (Sys.init {}),
    (r.state 0).mux.calls.map (·.pc) = [.await 0 1] ∧ {n | (r.label n).caller = some 0}.Finite := by
  obtain ⟨s, -, hr, hp⟩ := Reach.of_any (Sys.step {}) (Sys.init {})
    (Sys.leaderUp "a" [] ++ Sys.writeCall 0 (prependHeader 7 [1]))
    (fun s => decide (s.mux.calls.map (·.pc) = [.await 0 1])) (by decide +kernel)
  let r : Run (Sys.step {}) (Sys.init {}) :=
    { state := fun n => { s with mux := { s.mux with now := s.mux.now + n } }
      label := fun _ => .mux (.tick 1)
      start := hr
      next := fun n => rfl }
  exact ⟨r, of_decide_eq_true hp, execute_steps_finite r 0⟩

/-- The step runs code of call `k` outside of its selection: a step of the call alone, the grant of the demux lock
or the return of the selection to it. -/
def Sys.runs (s : Sys) (k : Nat) : SysLabel → Bool
  | .mux l => l.caller = some k
  | .acquire (.call k') => k' = k && (s.sels[k']?).all fun sel => sel.waits.isNone
  | .sel k' => k' = k && (s.sels[k']?).any fun sel => (sel.pc matches .ret _)
  | _ => false

theorem Sys.runs_moves {s s' : Sys} {l : SysLabel} {k : Nat} (hs : s.step cfg l = some s') (h : s.runs k l = true) :
    ∃ l', s.mux.step cfg l' = some s'.mux ∧ l'.caller = some k := by
  cases Move.of_step hs with
  | lockSel k' sel lm hk hw => simp [Sys.runs, hk, hw] at h
  | lockStore k' sel mux hk hw hm =>
    obtain rfl : k' = k := by simpa [Sys.runs, hk, hw] using h
    exact ⟨.lockStore k', hm, rfl⟩
  | selStart k' sel call hk hpc => simp [Sys.runs, hk, hpc] at h
  | selReturn k' sel r mux hk hpc hm =>
    obtain rfl : k' = k := by simpa [Sys.runs, hk, hpc] using h
    exact ⟨.selected k' (r.map Connection.id), hm, rfl⟩
  | sel k' sel handler pc' hk hw hb =>
    obtain ⟨-, hret⟩ := Bool.and_eq_true_iff.1 h
    rw [hk, Option.any_some] at hret
    split at hret
    next r hpc =>
      rw [hpc] at hb
      cases hb
    next => cases hret
  | spawn w f mux hm => simp [Sys.runs, MuxLabel.caller] at h
  | mux l' mux hm => exact ⟨l', hm, by simpa [Sys.runs] using h⟩
  | _ => cases h

/-- A step of the multiplexer alone that passes the test. -/
def SysLabel.isMux (p : MuxLabel → Bool) : SysLabel → Bool
  | .mux l => p l
  | _ => false

/-- A rank of the multiplexer bounds the steps that lower it in the runs of the system. -/
theorem Sys.countP_isMux_le {μ : Mux → Nat} {p : MuxLabel → Bool} {s : Sys} {ls : List SysLabel}
    (he : exec (Sys.step cfg) (Sys.init cfg) ls = some s)
    (hμ : ∀ m l m', OutcomeInv m → m.step cfg l = some m' → μ m' + (if p l then 1 else 0) ≤ μ m) :
    ls.countP (SysLabel.isMux p) ≤ μ {} := by
  have hle := exec_countP_le (μ := fun s => μ s.mux) (p := SysLabel.isMux p) he fun s l s' hr hs => ?_
  · exact (Nat.le_add_right _ _).trans hle
  · have hout : OutcomeInv s.mux := .of_reach (Sys.reach_mux hr)
    cases l with
    | mux l =>
      obtain ⟨mux, hm, ⟨w, f, rfl, rfl⟩ | ⟨-, -, -, rfl⟩⟩ := Sys.muxStep_some hs <;> exact hμ _ _ _ hout hm
    | _ =>
      rcases Sys.mux_project hs with heq | ⟨l', hl', -⟩
      · exact Nat.le_of_eq (congrArg μ heq)
      · exact (Nat.le_add_right _ _).trans (hμ _ l' _ hout hl')

/-- In every run, a call's own code takes at most 21 steps outside of its selections, and at most three of them
draw an id. -/
theorem execute_bounded {s : Sys} {ls : List SysLabel} (he : exec (Sys.step cfg) (Sys.init cfg) ls = some s)
    (k : Nat) :
    countSteps (Sys.step cfg) (Sys.runs · k) (Sys.init cfg) ls ≤ 21 ∧
      ls.countP (SysLabel.isMux fun l => l = .draw k) ≤ 3 := by
  constructor
  · refine countSteps_le (μ := fun s => s.mux.rank k) he fun s l s' hr hs => ?_
    have hout : OutcomeInv s.mux := .of_reach (Sys.reach_mux hr)
    by_cases hrun : s.runs k l = true
    · obtain ⟨l', hl', hc⟩ := Sys.runs_moves hs hrun
      have hstep := Mux.rank_step (k := k) hout hl'
      rw [if_pos hc] at hstep
      rwa [if_pos hrun]
    · rw [if_neg hrun]
      exact Sys.muxRank_le hout hs
  · refine Sys.countP_isMux_le (μ := fun m => m.drawsLeft k) he fun m l m' hm hs => ?_
    simpa using Mux.drawsLeft_step (k := k) hm hs

/-- Twelve steps until the second attempt of the call awaits its response. -/
theorem execute_bounded_retried : ∃ s, exec (Sys.step {}) (Sys.init {}) retriedRun = some s ∧
    retriedRun.countP (SysLabel.isMux fun l => l = .draw 1) = 2 ∧
    countSteps (Sys.step {}) (Sys.runs · 1) (Sys.init {}) retriedRun = 12 ∧
    countSteps (Sys.step {}) (Sys.runs · 1) (Sys.init {}) retriedRun ≤ 21 ∧
    retriedRun.countP (SysLabel.isMux fun l => l = .draw 1) ≤ 3 := by
  obtain ⟨s, hs, -, -⟩ := Reach.of_any (Sys.step {}) (Sys.init {}) retriedRun (fun _ => true) (by decide +kernel)
  exact ⟨s, hs, by decide +kernel, by decide +kernel, execute_bounded hs 1⟩

end RzBridge

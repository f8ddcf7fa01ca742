import RzBridge.Proofs.MuxInvStep
import RzBridge.Proofs.SysStep

/-!
# Delivery: nobody gets another caller's bytes, nothing is forwarded twice

What the ownership invariant says about runs of the whole system. `MuxInv` holds in every reachable
state in which fewer than `2 ^ 32` ids were drawn on each connection; a second invariant,
`SubmitInv`, counts the frames accepted for a call: none before the call awaits its response, and
from then on the call never goes back to its retry loop.
-/

namespace RzBridge
open Machine

variable {cfg : Config}

/-! ### The bound along a run -/

theorem Mux.Bounded.of_step {m m' : Mux} {l : MuxLabel} (h : m'.Bounded) (hs : m.step cfg l = some m') :
    m.Bounded := by
  intro c conn hc
  obtain ⟨conn', hc', hstep⟩ := Mux.step_conn_fwd hs hc
  exact hstep.draws.length_le.trans_lt (h c conn' hc')

instance (m : Mux) : Decidable m.Bounded :=
  decidable_of_iff (∀ conn ∈ m.conns, conn.draws.length < 2 ^ 32)
    ⟨fun h _ conn hc => h conn (List.mem_of_getElem? hc), fun h conn hc => by
      obtain ⟨c, hc⟩ := List.mem_iff_getElem?.1 hc
      exact h c conn hc⟩

theorem MuxInv.of_reach {m : Mux} (h : Reach (Mux.step cfg) {} m) (hb : m.Bounded) : MuxInv m := by
  revert hb
  refine h.induct (I := fun m => m.Bounded → MuxInv m) (fun _ => MuxInv.init) ?_
  intro m l m' hr ih hs hb
  exact (ih (hb.of_step hs)).step (FrameInv.of_reach hr) hb hs

/-! ### Submissions -/

/-- The current attempt's frame was accepted, or the call is over. -/
def CallPc.submitted : CallPc → Bool
  | .await .. => true
  | .done _ => true
  | _ => false

/-- Entry number `i` of the frames accepted on connection `c` is one of call `k`. -/
def SubmittedAt (conns : List Conn) (k c i : Nat) : Prop :=
  ∃ (conn : Conn) (tok : Tok) (f : Bytes),
    conns[c]? = some conn ∧ conn.accepted[i]? = some (tok, f) ∧ tok.call = k

structure SubmitInv (m : Mux) : Prop where
  known : ∀ k c i, SubmittedAt m.conns k c i → k < m.calls.length
  notYet : ∀ (k : Nat) (call : Call), m.calls[k]? = some call → call.pc.submitted = false →
    ∀ c i, ¬ SubmittedAt m.conns k c i
  once : ∀ k c c' i i', SubmittedAt m.conns k c i → SubmittedAt m.conns k c' i' → c = c' ∧ i = i'

/-- The list of accepted frames grows only in `send_raw`. -/
theorem ConnStep.accepted {m : Mux} {l : MuxLabel} {c : Nat} {conn conn' : Conn}
    (h : ConnStep m l c conn conn') : conn'.accepted = conn.accepted ∨
      ∃ k call id, l = .send k ∧ m.calls[k]? = some call ∧ call.pc = .send c id ∧
        conn'.accepted = conn.accepted ++ [(⟨k, call.attempts⟩, call.frame)] := by
  cases h with
  | accept k call id hl hk hp hw => exact .inr ⟨k, call, id, hl, hk, hp, rfl⟩
  | _ => exact .inl rfl

theorem CallStep.submitted {m : Mux} {l : MuxLabel} {k : Nat} {call call' : Call}
    (h : CallStep m l k call call') (hd : ∀ c id, call.pc = .await c id → call.slot ≠ .dropped)
    (hp' : call'.pc.submitted = false) : call.pc.submitted = false := by
  cases h with
  | dropped c id hp hs => exact absurd hs (hd c id hp)
  | refl => exact hp'
  | slot s hp => exact hp'
  | answer c id b hp hs => simp [CallPc.submitted] at hp'
  | _ => simp_all [CallPc.submitted]

theorem SubmittedAt.of_step {m m' : Mux} {l : MuxLabel} {k c i : Nat} (hs : m.step cfg l = some m')
    (h : SubmittedAt m'.conns k c i) : SubmittedAt m.conns k c i ∨
      ∃ call conn id, l = .send k ∧ m.calls[k]? = some call ∧ call.pc = .send c id ∧ m.conns[c]? = some conn ∧
        i = conn.accepted.length := by
  obtain ⟨conn', tok, f, hc', hi, rfl⟩ := h
  obtain ⟨conn, hc, hstep⟩ | ⟨-, host, -, rfl⟩ := Mux.step_conn hs hc'
  · obtain he | ⟨k, call, id, hl, hk, hp, he⟩ := hstep.accepted
    · exact .inl ⟨conn, tok, f, hc, he ▸ hi, rfl⟩
    · rw [he] at hi
      rcases getElem?_snoc hi with hi | ⟨hlast, hnew⟩
      · exact .inl ⟨conn, tok, f, hc, hi, rfl⟩
      · cases hnew
        exact .inr ⟨call, conn, id, hl, hk, hp, hc, hlast⟩
  · simp at hi

theorem SubmitInv.step {m m' : Mux} {l : MuxLabel} (h : SubmitInv m) (hm : MuxInv m)
    (hs : m.step cfg l = some m') : SubmitInv m' := by
  have size := (Mux.step_size hs).2
  -- a call whose frame is being accepted had none accepted before
  have fresh : ∀ {k call id c}, m.calls[k]? = some call → call.pc = .send c id →
      ∀ c' i', ¬ SubmittedAt m.conns k c' i' := fun hk hp => h.notYet _ _ hk (by rw [hp]; rfl)
  refine ⟨?_, ?_, ?_⟩
  · intro k c i hi
    obtain hi | ⟨call, conn, id, -, hk, -⟩ := hi.of_step hs
    · exact (h.known k c i hi).trans_le size
    · exact (Mux.lt_of_call hk).trans_le size
  · intro k call' hk' hp' c i hi
    obtain ⟨call, hk, hstep⟩ | ⟨rfl, -⟩ := Mux.step_call hs hk'
    · have hp := hstep.submitted (fun _ _ hp => hm.not_dropped hk hp) hp'
      obtain hi | ⟨call₀, conn, id, rfl, hk₀, hpc, hc, -⟩ := hi.of_step hs
      · exact h.notYet k call hk hp c i hi
      · -- the call of an accepted frame is past `send` now, or was refused and has nothing accepted
        obtain ⟨call₁, c₁, conn₁, id₁, hk₁, hp₁, hc₁, ⟨-, rfl⟩ | ⟨-, rfl⟩⟩ := Mux.callSend_some hs
        · exact fresh hk₁ hp₁ c i hi
        · rw [Mux.setCall_calls _ (by simpa using Mux.lt_of_call hk₁), if_pos rfl] at hk'
          simp [← Option.some.inj hk', CallPc.submitted] at hp'
    · obtain hi | ⟨call, conn, id, -, hk, -⟩ := hi.of_step hs
      · exact absurd (h.known _ c i hi) (Nat.lt_irrefl _)
      · exact absurd (Mux.lt_of_call hk) (Nat.lt_irrefl _)
  · intro k c c' i i' hi hi'
    obtain hi | ⟨call, conn, id, -, hk, hp, hc, rfl⟩ := hi.of_step hs <;>
      obtain hi' | ⟨call', conn', id', -, hk', hp', hc', rfl⟩ := hi'.of_step hs
    · exact h.once k c c' i i' hi hi'
    · exact absurd hi (fresh hk' hp' c i)
    · exact absurd hi' (fresh hk hp c' i')
    · rw [hk] at hk'
      cases Option.some.inj hk'
      rw [hp] at hp'
      cases hp'
      rw [hc] at hc'
      cases Option.some.inj hc'
      exact ⟨rfl, rfl⟩

theorem SubmitInv.of_reach {m : Mux} (h : Reach (Mux.step cfg) {} m) (hb : m.Bounded) : SubmitInv m := by
  revert hb
  refine h.induct (I := fun m => m.Bounded → SubmitInv m) (fun _ => ⟨?_, ?_, ?_⟩) ?_
  · rintro k c i ⟨conn, -, -, hc, -⟩
    simp at hc
  · simp
  · rintro k c c' i i' ⟨conn, -, -, hc, -⟩
    simp at hc
  · intro m l m' hr ih hs hb
    exact (ih (hb.of_step hs)).step (MuxInv.of_reach hr (hb.of_step hs)) hs

/-! ### Runs of the system -/

/-- Which bytes go where: a frame accepted on a connection is the caller's with the id that attempt
drew there (and drew nowhere else) patched in; a long answer is a frame received under the id of the
call's last attempt, handed to that attempt, with the caller's own id patched in; and a frame is
handed out once. -/
theorem multiplexer_transparent {s : Sys} (h : Reach (Sys.step cfg) (Sys.init cfg) s) (hb : s.mux.Bounded) :
    (∀ (c : Nat) (conn : Conn) (tok : Tok) (f : Bytes), s.mux.conns[c]? = some conn →
      (tok, f) ∈ conn.accepted →
      ∃ id call, s.mux.calls[tok.call]? = some call ∧ f = setClrid id call.shardFrame ∧ DrawnAt conn id tok ∧
        ∀ (c' : Nat) (conn' : Conn) id', s.mux.conns[c']? = some conn' → DrawnAt conn' id' tok →
          c' = c ∧ id' = id) ∧
    (∀ (k : Nat) (call : Call) (r : Bytes), s.mux.calls[k]? = some call → call.pc = .done (.ok r) →
      9 ≤ r.length →
      ∃ c conn id idx hdr f, call.last = some (c, id) ∧ s.mux.conns[c]? = some conn ∧
        DrawnAt conn id ⟨k, call.attempts⟩ ∧ conn.received[idx]? = some (hdr, f) ∧ hdr.clrId = id ∧
        (idx, ⟨k, call.attempts⟩) ∈ conn.delivered ∧ r = setClrid call.originalClrid f) ∧
    ∀ (c : Nat) (conn : Conn) (idx : Nat) (tok tok' : Tok), s.mux.conns[c]? = some conn →
      (idx, tok) ∈ conn.delivered → (idx, tok') ∈ conn.delivered → tok = tok' := by
  have hm : MuxInv s.mux := MuxInv.of_reach (Sys.reach_mux h) hb
  refine ⟨?_, ?_, ?_⟩
  · intro c conn tok f hc he
    obtain ⟨id, call, hd, hk, -, hf⟩ := ((FrameInv.of_reach (Sys.reach_mux h)).conns c conn hc).accepted
      (tok, f) he
    refine ⟨id, call, hk, hf, hd, ?_⟩
    rintro c' conn' id' hc' ⟨i', hi', rfl⟩
    obtain ⟨i, hi, rfl⟩ := hd
    obtain ⟨rfl, rfl⟩ := (hm.calls tok.call call hk).uniq c' c conn' conn i' i tok.attempt hc' hc hi' hi
    exact ⟨rfl, rfl⟩
  · intro k call r hk hp hr
    rcases (hm.calls k call hk).done r hp with rfl |
      ⟨c, id, conn, f, hl, hc, hd, ⟨idx, hdr, hrec, hid, hdel⟩, rfl⟩
    · simp at hr
    · exact ⟨c, conn, id, idx, hdr, f, hl, hc, hd, hrec, hid, hdel, rfl⟩
  · intro c conn idx tok tok' hc h₁ h₂
    exact congrArg Prod.snd ((hm.conns c conn hc).delivered_inj _ h₁ _ h₂ rfl)

/-- Two writes share the leader's connection and are answered in the opposite order. -/
def sharedRun : List SysLabel :=
  Sys.leaderUp "a" [] ++ Sys.writeCall 0 (prependHeader 7 [1]) ++ Sys.writeCall 1 (prependHeader 8 [2]) ++
    Sys.reply 0 (prependHeader 2 [2, 0x4F, 0x4B, 1, 0]) ++ Sys.reply 0 (prependHeader 1 [2, 0x4F, 0x4B, 0, 0]) ++
    [.mux (.receive 0), .mux (.receive 1)]

theorem multiplexer_transparent_shared : ∃ s, exec (Sys.step {}) (Sys.init {}) sharedRun = some s ∧
    s.mux.Bounded ∧ s.mux.calls.map (·.pc) =
      [.done (.ok (prependHeader 7 [2, 0x4F, 0x4B, 0, 0])),
        .done (.ok (prependHeader 8 [2, 0x4F, 0x4B, 1, 0]))] ∧
    ∀ (k : Nat) (call : Call) (r : Bytes), s.mux.calls[k]? = some call → call.pc = .done (.ok r) →
      9 ≤ r.length →
      ∃ c conn id idx hdr f, call.last = some (c, id) ∧ s.mux.conns[c]? = some conn ∧
        DrawnAt conn id ⟨k, call.attempts⟩ ∧ conn.received[idx]? = some (hdr, f) ∧ hdr.clrId = id ∧
        (idx, ⟨k, call.attempts⟩) ∈ conn.delivered ∧ r = setClrid call.originalClrid f := by
  obtain ⟨s, hs, hr, hp⟩ := Reach.of_any (Sys.step {}) (Sys.init {}) sharedRun
    (fun s => decide (s.mux.Bounded ∧ s.mux.calls.map (·.pc) =
      [.done (.ok (prependHeader 7 [2, 0x4F, 0x4B, 0, 0])), .done (.ok (prependHeader 8 [2, 0x4F, 0x4B, 1, 0]))]))
    (by decide +kernel)
  obtain ⟨hb, hc⟩ := of_decide_eq_true hp
  exact ⟨s, hs, hb, hc, (multiplexer_transparent hr hb).2.1⟩

/-- A call's frame is accepted by `send_raw` at most once, however often the call retries. -/
theorem forwarded_at_most_once {s : Sys} (h : Reach (Sys.step cfg) (Sys.init cfg) s) (hb : s.mux.Bounded) :
    ∀ (c c' : Nat) (conn conn' : Conn) (i i' : Nat) (tok tok' : Tok) (f f' : Bytes),
      s.mux.conns[c]? = some conn → s.mux.conns[c']? = some conn' → conn.accepted[i]? = some (tok, f) →
      conn'.accepted[i']? = some (tok', f') → tok.call = tok'.call → c = c' ∧ i = i' := by
  intro c c' conn conn' i i' tok tok' f f' hc hc' hi hi' htok
  exact (SubmitInv.of_reach (Sys.reach_mux h) hb).once tok.call c c' i i' ⟨conn, tok, f, hc, hi, rfl⟩
    ⟨conn', tok', f', hc', hi', htok.symm⟩

/-- Call 1 has a connection whose write loop stops before it can queue its frame; it retries on the connection
that the next sync opens. -/
def retriedRun : List SysLabel :=
  Sys.leaderUp "a" [] ++ Sys.followersUp [] ++ Sys.writeCall 0 (prependHeader 7 [1]) ++
    (Sys.writeCall 1 (prependHeader 8 [2])).dropLast ++
    [.mux (.take 0), .mux (.writeFail 0 3), .mux (.writerStop 0), .mux (.writerDrop 0), .mux (.send 1),
      .sync .slowTick, .sync .go, .sync (.discovered (some ("a", []))), .sync .go, .acquire .sync, .sync .go,
      .sync (.connected true), .acquire .sync, .sync .go, .sync .go, .sync .go, .mux (.wake 1)] ++
    (Sys.writeCall 1 []).drop 2

theorem forwarded_at_most_once_retried : ∃ s, exec (Sys.step {}) (Sys.init {}) retriedRun = some s ∧
    s.mux.Bounded ∧ s.mux.calls.map (·.attempts) = [0, 1] ∧
    s.mux.conns.map (·.accepted.map (·.1)) = [[⟨0, 0⟩], [⟨1, 1⟩]] ∧
    ∀ (c c' : Nat) (conn conn' : Conn) (i i' : Nat) (tok tok' : Tok) (f f' : Bytes),
      s.mux.conns[c]? = some conn → s.mux.conns[c']? = some conn' → conn.accepted[i]? = some (tok, f) →
      conn'.accepted[i']? = some (tok', f') → tok.call = tok'.call → c = c' ∧ i = i' := by
  obtain ⟨s, hs, hr, hp⟩ := Reach.of_any (Sys.step {}) (Sys.init {}) retriedRun
    (fun s => decide (s.mux.Bounded ∧ s.mux.calls.map (·.attempts) = [0, 1] ∧
      s.mux.conns.map (·.accepted.map (·.1)) = [[⟨0, 0⟩], [⟨1, 1⟩]])) (by decide +kernel)
  obtain ⟨hb, ha, hc⟩ := of_decide_eq_true hp
  exact ⟨s, hs, hb, ha, hc, forwarded_at_most_once hr hb⟩

end RzBridge

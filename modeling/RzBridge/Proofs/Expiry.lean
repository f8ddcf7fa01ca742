import RzBridge.Proofs.Delivery
import RzBridge.Proofs.FollowerLock
import RzBridge.Proofs.LeaderPool
import RzBridge.Proofs.ShardFrame

/-!
# A `cleanup` is never early

The empty response of a `cleanup` reaches only calls whose current attempt drew its id more than twice
`timeout_sec` ago, on a connection that is closed. `Cleaning` is what a selection knows when it goes to
clean up; `Expiry` follows one attempt from its draw on.
-/

namespace RzBridge
open Machine

variable {cfg : Config}

/-! ### The clock -/

theorem foldl_now {m : Mux} {α : Type*} (f : Mux → α → Mux) (hf : ∀ m a, (f m a).now = m.now) (l : List α) :
    (l.foldl f m).now = m.now := by
  induction l generalizing m with
  | nil => rfl
  | cons a l ih => exact ih.trans (hf m a)

theorem expire_now (m : Mux) (c : Nat) (id : UInt32) : (expire m c id).now = m.now := by
  unfold expire
  split
  · rfl
  · split <;> rfl

theorem Mux.now_le_of_step {m m' : Mux} {l : MuxLabel} (hs : m.step cfg l = some m') : m.now ≤ m'.now := by
  cases Mux.Effect.of_step hs with
  | tick d => exact Nat.le_add_right _ _
  | store k c call conn id t =>
    unfold demuxStore
    split <;> exact le_rfl
  | cleanup c start age =>
    unfold demuxCleanup
    split
    · exact le_rfl
    · exact (foldl_now _ (fun m id => expire_now m c id) _).ge
  | free c conn conn' toks => exact (foldl_now (m := m.setConn c conn') Mux.dropSender (fun _ _ => rfl) toks).ge
  | _ => exact le_rfl

/-- Connection `c` is closed. -/
def Mux.ClosedAt (m : Mux) (c : Nat) : Prop := ∃ conn, m.conns[c]? = some conn ∧ conn.closed = true

theorem Mux.ClosedAt.step {m m' : Mux} {l : MuxLabel} {c : Nat} (h : m.ClosedAt c) (hs : m.step cfg l = some m') :
    m'.ClosedAt c := by
  obtain ⟨conn, hc, hcl⟩ := h
  obtain ⟨conn', hc', hstep⟩ := Mux.step_conn_fwd hs hc
  exact ⟨conn', hc', closed_of_connStep hstep hcl⟩

/-! ### Who cleans up -/

/-- A selection cleans up a closed connection, from an instant that has come. -/
def Sys.Cleaning (s : Sys) : Prop :=
  ∀ t ∈ s.sels, ∀ c start, t.pc.cleans = some (c, start) → start ≤ s.mux.now ∧ s.mux.ClosedAt c

theorem cleans_fNext (left : Nat) : (fNext left).cleans = none := by
  unfold fNext
  split <;> rfl

/-- A selection goes to clean up a connection of the pools that it has just found closed. -/
theorem SelMove.cleans {closed : Nat → Bool} {now : Nat} {h h' : Handler} {pc pc' : SelPc} {c start : Nat}
    (hb : SelMove cfg closed now h pc h' pc') (hc : pc'.cleans = some (c, start)) :
    start = now ∧ closed c = true ∧ ((∃ key x, h.followers.lookup key = some x ∧ x.id = c) ∨
      ∃ x, some x ∈ h.leaderConns ∧ x.id = c) := by
  cases hb with
  | fStale left node j tried x ht hl hx =>
    cases hc
    exact ⟨rfl, hx, .inl ⟨_, x, hl, rfl⟩⟩
  | lStale left next x hl hx =>
    cases hc
    exact ⟨rfl, hx, .inr ⟨x, List.mem_of_getElem? hl, rfl⟩⟩
  | fLen | fSkip | fOver =>
    rw [cleans_fNext] at hc
    cases hc
  | _ => cases hc

theorem Sys.Cleaning.step {s s' : Sys} {l : SysLabel} (h : s.Cleaning) (hf : FollowerInv cfg s)
    (hl : LeaderInv cfg s) (hs : s.step cfg l = some s') : s'.Cleaning := by
  have hnow : s.mux.now ≤ s'.mux.now := by
    rcases mux_project hs with he | ⟨l', hm, -⟩
    · rw [he]
    · exact Mux.now_le_of_step hm
  have hkeep : ∀ {c}, s.mux.ClosedAt c → s'.mux.ClosedAt c := by
    intro c hc
    rcases mux_project hs with he | ⟨l', hm, -⟩
    · rwa [he]
    · exact hc.step hm
  intro t ht c start hc
  obtain ⟨t₀, ht₀, he⟩ | he | ⟨t₀, -, hb⟩ := sel_of_step hs ht
  · rw [he] at hc
    obtain ⟨hle, hcl⟩ := h t₀ ht₀ c start hc
    exact ⟨hle.trans hnow, hkeep hcl⟩
  · rcases he with he | he | he <;> rw [he] at hc <;> cases hc
  · obtain ⟨rfl, hclosed, hpool⟩ := hb.cleans hc
    refine ⟨hnow, hkeep ?_⟩
    have hvalid : ∃ x, s.Valid x ∧ x.id = c := by
      obtain ⟨key, x, hx, rfl⟩ | ⟨x, hx, rfl⟩ := hpool
      · exact ⟨x, (hf.map key x hx).2.1, rfl⟩
      · exact ⟨x, (hl.slots x hx).2, rfl⟩
    obtain ⟨x, ⟨conn, hconn, -⟩, rfl⟩ := hvalid
    rw [Sys.closed, hconn] at hclosed
    exact ⟨conn, hconn, by simpa using hclosed⟩

theorem Sys.Cleaning.of_reach {s : Sys} (h : Reach (Sys.step cfg) (Sys.init cfg) s) : s.Cleaning :=
  h.induct (I := Sys.Cleaning) (by simp [Sys.Cleaning, Sys.init]) fun _ _ _ hr hi hs =>
    hi.step (.of_reach hr) (.of_reach hr) hs

theorem Sys.Cleaning.of_cleans {s : Sys} {l : SysLabel} {c start : Nat} (h : s.Cleaning)
    (hc : s.cleans l = some (c, start)) : start ≤ s.mux.now ∧ s.mux.ClosedAt c := by
  unfold Sys.cleans at hc
  split at hc
  next k =>
    obtain ⟨t, ht, hpc⟩ := Option.bind_eq_some_iff.1 hc
    exact h t (List.mem_of_getElem? ht) c start hpc
  next => cases hc

/-! ### What a `cleanup` answers -/

theorem expire_calls_of_ne {m : Mux} {c k : Nat} {id : UInt32} {call : Call} (hk : m.calls[k]? = some call)
    (h : ∀ conn, m.conns[c]? = some conn → ∀ t, conn.demux.lookup id ≠ some (⟨k, call.attempts⟩, t)) :
    (expire m c id).calls[k]? = some call := by
  unfold expire
  split
  · exact hk
  next conn hc =>
    split
    next tok t hl =>
      show (Mux.fillSlot _ tok (.sent [])).calls[k]? = some call
      rw [Mux.fillSlot_calls]
      show (m.calls[k]?).map _ = some call
      rw [hk, Option.map_some, Mux.fillCall_of_ne]
      rintro rfl
      exact h conn hc t hl
    next => exact hk

theorem cleanup_calls {m : Mux} {c start age k : Nat} {call : Call} (hk : m.calls[k]? = some call) :
    (demuxCleanup m c start age).calls[k]? = some call ∨
      ∃ conn id t, m.conns[c]? = some conn ∧ conn.demux.lookup id = some (⟨k, call.attempts⟩, t) ∧ t + age < start := by
  by_cases hold : ∃ conn id t, m.conns[c]? = some conn ∧
      conn.demux.lookup id = some (⟨k, call.attempts⟩, t) ∧ t + age < start
  · exact .inr hold
  left
  unfold demuxCleanup
  split
  · exact hk
  next conn₀ hc₀ =>
    have hids : ∀ id ∈ timedOut conn₀.demux start age, ∀ conn, m.conns[c]? = some conn → ∀ t,
        conn.demux.lookup id ≠ some (⟨k, call.attempts⟩, t) := by
      intro id hid conn hc t hl
      obtain rfl := Option.some.inj (hc₀.symm.trans hc)
      obtain ⟨e, he, rfl⟩ := List.mem_map.1 hid
      obtain ⟨hmem, hlt⟩ := List.mem_filter.1 he
      have he2 := Option.some.inj ((AList.mem_lookup_iff.2 hmem).symm.trans hl)
      have hlt' := of_decide_eq_true hlt
      rw [he2] at hlt'
      exact hold ⟨conn₀, e.1, t, hc₀, hl, hlt'⟩
    clear hold hc₀
    generalize timedOut conn₀.demux start age = ids at hids
    -- what is left in the map after a round was there before
    induction ids generalizing m with
    | nil => exact hk
    | cons id ids ih =>
      refine ih (expire_calls_of_ne hk (hids id List.mem_cons_self)) fun id' hid' conn hc t hl => ?_
      obtain ⟨conn₁, d, hc₁, rfl, hd⟩ := Mux.expire_conn_back hc
      exact hids id' (List.mem_cons_of_mem id hid') conn₁ hc₁ t (hd id' _ hl)

/-! ### One attempt from its draw on -/

/-- The deadline has passed, and connection `c` is closed. -/
def Mux.Late (m : Mux) (c deadline : Nat) : Prop := deadline < m.now ∧ m.ClosedAt c

theorem Mux.Late.step {m m' : Mux} {l : MuxLabel} {c deadline : Nat} (h : m.Late c deadline)
    (hs : m.step cfg l = some m') : m'.Late c deadline :=
  ⟨h.1.trans_le (Mux.now_le_of_step hs), h.2.step hs⟩

/-- Attempt `a` of call `k` drew its id on connection `c` at the instant `t`; if an empty response waits
for it, or was taken by it, it is `Late`. -/
structure Expiry (m : Mux) (k a c t age : Nat) : Prop where
  lt : k < m.calls.length
  after : ∀ call, m.calls[k]? = some call → a < call.attempts ∨ call.attempts = a ∧ call.pc.drawn = true
  storing : ∀ call c' id t' held, m.calls[k]? = some call → call.attempts = a →
    call.pc = .store c' id t' held → c' = c ∧ t' = t
  entry : ∀ (c' : Nat) (conn : Conn) id t', m.conns[c']? = some conn →
    conn.demux.lookup id = some (⟨k, a⟩, t') → c' = c ∧ t' = t
  slot : ∀ call, m.calls[k]? = some call → call.attempts = a → call.pc.listening = true → call.slot = .sent [] →
    m.Late c (t + age)
  done : ∀ call, m.calls[k]? = some call → call.attempts = a → call.pc = .done (.ok []) → m.Late c (t + age)

theorem answer_eq_nil {call : Call} {b : Bytes} (h : Call.answer call b = []) : b = [] := by
  unfold Call.answer at h
  split at h
  next h9 =>
    have hlen := length_setClrid call.originalClrid (Nat.le_trans (by decide : 5 ≤ 9) h9)
    rw [h, List.length_nil] at hlen
    exact absurd h9 (by omega)
  next => exact h

theorem ConnStep.stored {m : Mux} {l : MuxLabel} {c : Nat} {conn conn' : Conn} {id : UInt32} {tok : Tok} {t : Nat}
    (h : ConnStep m l c conn conn') (hl : conn'.demux.lookup id = some (tok, t)) :
    conn.demux.lookup id = some (tok, t) ∨
      ∃ k call, m.calls[k]? = some call ∧ call.pc = .store c id t true ∧ tok = ⟨k, call.attempts⟩ := by
  cases h with
  | store k call id' t' hlab hk hp =>
    rcases Assoc.lookup_insert_iff.1 hl with ⟨rfl, he⟩ | ⟨-, hold⟩
    · cases he
      exact .inr ⟨k, call, hk, hp, rfl⟩
    · exact .inl hold
  | cleanup start d hlab hd => exact .inl (hd id _ hl)
  | free => cases hl
  | loadRemove hdr f tok' t' hr hl' => exact .inl (Assoc.lookup_erase_iff.1 hl).2
  | _ => exact .inl hl

namespace Expiry

variable {m m' : Mux} {l : MuxLabel} {k a c t age : Nat}

/-- A `cleanup` that runs late reaches the attempt only when the attempt is late. -/
theorem cleaned {c' start : Nat} {call : Call} (h : Expiry m k a c t age)
    (hcl : start ≤ m.now ∧ m.ClosedAt c') (hk : m.calls[k]? = some call) (ha : call.attempts = a) :
    (demuxCleanup m c' start age).calls[k]? = some call ∨ m.Late c (t + age) := by
  refine (cleanup_calls hk).imp_right ?_
  rintro ⟨conn, id, t', hc, hl, hlt⟩
  obtain ⟨rfl, rfl⟩ := h.entry c' conn id t' hc (ha ▸ hl)
  exact ⟨hlt.trans_le hcl.1, hcl.2⟩

/-- What is handed to the attempt is a frame, or comes from a `cleanup`. -/
theorem slot_of_step {call call' : Call} (h : Expiry m k a c t cfg.cleanupAge) (hm : MuxInv m)
    (hcl : ∀ c' start, l = .cleanup c' start → start ≤ m.now ∧ m.ClosedAt c')
    (hs : m.step cfg l = some m') (hk : m.calls[k]? = some call) (hk' : m'.calls[k]? = some call')
    (hstep : CallStep m l k call call') (ha : call'.attempts = a) (hl : call'.pc.listening = true)
    (hslot : call'.slot = .sent []) : m.Late c (t + cfg.cleanupAge) := by
  cases hstep with
  | refl => exact h.slot call hk ha hl hslot
  | slot s hp hsrc =>
    cases hsrc with
    | dropped => cases hslot
    | delivered c₀ conn tok hdr f hc hr =>
      cases hslot
      obtain ⟨-, hlast, -⟩ := (hm.conns c₀ conn hc).deliver tok hdr [] hr
      obtain ⟨payload, -, hf⟩ := (hm.conns c₀ conn hc).received _ (List.mem_of_getLast? hlast)
      have hlen := congrArg List.length hf
      rw [length_prependHeader, List.length_nil] at hlen
      omega
    | cleaned c' start hlab =>
      subst hlab
      cases hs
      rcases h.cleaned (hcl c' start rfl) hk ha with hsame | hlate
      · rw [hsame] at hk'
        have he := congrArg Call.slot (Option.some.inj hk')
        exact h.slot call hk ha hp (he.trans hslot)
      · exact hlate
  | draw c₀ conn hlab hp hc => cases hslot
  | lockStore c₀ id t₀ hp => exact h.slot call hk ha (by rw [hp]; rfl) hslot
  | store c₀ id t₀ s hp hs' =>
    rcases hs' with he | he
    · exact h.slot call hk ha (by rw [hp]; rfl) (he.symm.trans hslot)
    · exact absurd (he.symm.trans hslot) (by simp)
  | send c₀ id hlab hp => exact h.slot call hk ha (by rw [hp]; rfl) hslot
  | noConn | refused | dropped =>
    unfold Call.retry at hl
    dsimp only at hl
    split at hl <;> cases hl
  | _ => cases hl

theorem done_of_step {call call' : Call} (h : Expiry m k a c t age) (hk : m.calls[k]? = some call)
    (hstep : CallStep m l k call call') (ha : call'.attempts = a) (hd : call'.pc = .done (.ok [])) :
    m.Late c (t + age) := by
  cases hstep with
  | refl => exact h.done call hk ha hd
  | slot s hp hsrc =>
    have hd : call.pc = .done (.ok []) := hd
    rw [hd] at hp
    cases hp
  | answer c₀ id b hp hb =>
    have hb' : b = [] := answer_eq_nil (Except.ok.inj (CallPc.done.inj hd))
    exact h.slot call hk ha (by rw [hp]; rfl) (hb' ▸ hb)
  | noConn | refused | dropped =>
    unfold Call.retry at hd
    dsimp only at hd
    split at hd <;> cases hd
  | _ => cases hd

theorem after_of_step {call call' : Call} (hstep : CallStep m l k call call')
    (h : a < call.attempts ∨ call.attempts = a ∧ call.pc.drawn = true) :
    a < call'.attempts ∨ call'.attempts = a ∧ call'.pc.drawn = true := by
  have again : ∀ e, a < (call.retry e).attempts ∨ (call.retry e).attempts = a ∧ (call.retry e).pc.drawn = true := by
    intro e
    left
    show a < call.attempts + 1
    omega
  have undrawn : ∀ {P : Prop}, call.pc.drawn = false → a < call.attempts ∨ P := by
    intro P hp
    refine h.imp_right fun ⟨_, hd⟩ => ?_
    rw [hp] at hd
    cases hd
  cases hstep with
  | refl => exact h
  | slot s hp hs => exact h
  | noConn | refused | dropped => exact again _
  | reject hp => exact h.imp_right fun ⟨ha, _⟩ => ⟨ha, rfl⟩
  | «begin» hp | selected c hl hp | wake hp => exact undrawn (by rw [hp]; rfl)
  | draw | lockStore | store | send | answer => exact h.imp_right fun ⟨ha, _⟩ => ⟨ha, rfl⟩

theorem step (h : Expiry m k a c t cfg.cleanupAge) (hm : MuxInv m)
    (hcl : ∀ c' start, l = .cleanup c' start → start ≤ m.now ∧ m.ClosedAt c')
    (hs : m.step cfg l = some m') : Expiry m' k a c t cfg.cleanupAge := by
  have back : ∀ call', m'.calls[k]? = some call' → ∃ call, m.calls[k]? = some call ∧ CallStep m l k call call' := by
    intro call' hk'
    obtain hb | ⟨hlen, -⟩ := Mux.step_call hs hk'
    · exact hb
    · exact absurd h.lt (by omega)
  refine ⟨h.lt.trans_le (Mux.step_size hs).2, ?_, ?_, ?_, ?_, ?_⟩
  · intro call' hk'
    obtain ⟨call, hk, hstep⟩ := back call' hk'
    exact after_of_step hstep (h.after call hk)
  · intro call' c' id t' held hk' ha hpc
    obtain ⟨call, hk, hstep⟩ := back call' hk'
    cases hstep with
    | refl => exact h.storing call' c' id t' held hk ha hpc
    | slot => exact h.storing call c' id t' held hk ha hpc
    | draw c₀ conn hlab hp hc =>
      -- the attempt drew its id already
      obtain hlt | ⟨-, hd⟩ := h.after call hk
      · exact absurd ha hlt.ne'
      · rw [hp] at hd
        cases hd
    | lockStore c₀ id₀ t₀ hp =>
      cases hpc
      exact h.storing call _ _ _ false hk ha hp
    | noConn | refused | dropped =>
      unfold Call.retry at hpc
      dsimp only at hpc
      split at hpc <;> cases hpc
    | _ => cases hpc
  · intro c' conn' id t' hc' hl
    obtain ⟨conn, hc, hstep⟩ | ⟨-, host, -, rfl⟩ := Mux.step_conn hs hc'
    · obtain hold | ⟨k₀, call, hk, hp, htok⟩ := hstep.stored hl
      · exact h.entry c' conn id t' hc hold
      · cases htok
        exact h.storing call c' id t' true hk rfl hp
    · cases hl
  · intro call' hk' ha hl hslot
    obtain ⟨call, hk, hstep⟩ := back call' hk'
    exact (h.slot_of_step hm hcl hs hk hk' hstep ha hl hslot).step hs
  · intro call' hk' ha hd
    obtain ⟨call, hk, hstep⟩ := back call' hk'
    exact (h.done_of_step hk hstep ha hd).step hs

theorem start {call : Call} {id : UInt32} {held : Bool} (hm : MuxInv m) (hk : m.calls[k]? = some call)
    (hp : call.pc = .store c id t held) : Expiry m k call.attempts c t age := by
  have hi := hm.calls k call hk
  have hcall : ∀ call', m.calls[k]? = some call' → call' = call := fun call' hk' =>
    Option.some.inj (hk'.symm.trans hk)
  refine ⟨Mux.lt_of_call hk, ?_, ?_, ?_, ?_, ?_⟩
  · intro call' hk'
    rw [hcall call' hk']
    exact .inr ⟨rfl, by rw [hp]; rfl⟩
  · intro call' c' id' t' held' hk' ha hp'
    rw [hcall call' hk', hp] at hp'
    cases hp'
    exact ⟨rfl, rfl⟩
  · intro c' conn id' t' hc hl
    obtain ⟨rfl, rfl⟩ := hi.at_eq (by rw [hp]; rfl) hc ((hm.conns c' conn hc).demux id' _ t' hl)
    have hnone := ((hi.storing c' id' t held hp).2 conn hc).1
    rw [hnone] at hl
    cases hl
  · intro call' hk' ha hl hslot
    rw [hcall call' hk', (hi.storing c id t held hp).1] at hslot
    cases hslot
  · intro call' hk' ha hd
    rw [hcall call' hk', hp] at hd
    cases hd

end Expiry

/-- `execute` takes an empty response only when more than twice `timeout_sec` have passed since its
attempt drew its id, and only from a connection that is closed. -/
theorem empty_answer_late {s₁ s₂ : Sys} {k c t : Nat} {id : UInt32} {held : Bool} {call₁ call₂ : Call}
    (h₁ : Reach (Sys.step cfg) (Sys.init cfg) s₁) (hk₁ : s₁.mux.calls[k]? = some call₁)
    (hp₁ : call₁.pc = .store c id t held) (h₂ : Reach (Sys.step cfg) s₁ s₂) (hb : s₂.mux.Bounded)
    (hk₂ : s₂.mux.calls[k]? = some call₂) (ha : call₂.attempts = call₁.attempts)
    (hp₂ : call₂.pc = .done (.ok [])) :
    t + cfg.cleanupAge < s₂.mux.now ∧ ∃ conn, s₂.mux.conns[c]? = some conn ∧ conn.closed = true := by
  suffices hi : s₂.mux.Bounded → Expiry s₂.mux k call₁.attempts c t cfg.cleanupAge from
    (hi hb).done call₂ hk₂ ha hp₂
  refine h₂.induct (I := fun s => s.mux.Bounded → Expiry s.mux k call₁.attempts c t cfg.cleanupAge)
    (fun hb => .start (.of_reach (Sys.reach_mux h₁) hb) hk₁ hp₁) ?_
  intro s l s' hr ih hs hb
  have hreach := h₁.trans hr
  rcases Sys.mux_project hs with he | ⟨l', hm, -, hcl⟩
  · rw [he] at hb ⊢
    exact ih hb
  · have hb₀ := hb.of_step hm
    exact (ih hb₀).step (.of_reach (Sys.reach_mux hreach) hb₀)
      (fun c' start he => (Sys.Cleaning.of_reach hreach).of_cleans (hcl c' start he)) hm

/-- A write has drawn its id. -/
def drawnRun : List SysLabel :=
  Sys.leaderUp "a" [] ++ Sys.followersUp [] ++ (Sys.writeCall 0 (prependHeader 9 [5])).take 10

/-- It awaits its response when the leader closes its end; five seconds later the selection of the next
write cleans up. -/
def expiredRun : List SysLabel :=
  (Sys.writeCall 0 []).drop 10 ++
    [.mux (.readEnd 0), .mux (.readerStop 0), .mux (.tick 5000000000), .mux (.spawn true (prependHeader 8 [6])),
      .mux (.start 1), .sel 1, .acquire (.call 1), .sel 1, .acquire (.call 1), .sel 1, .sel 1, .acquire (.call 1),
      .sel 1, .mux (.receive 0)]

theorem empty_answer_late_expired : ∃ (s₁ s₂ : Sys) (call : Call),
    exec (Sys.step {}) (Sys.init {}) drawnRun = some s₁ ∧ exec (Sys.step {}) s₁ expiredRun = some s₂ ∧
      s₂.mux.calls[0]? = some call ∧ call.pc = .done (.ok []) ∧
      0 + Config.cleanupAge {} < s₂.mux.now ∧ ∃ conn, s₂.mux.conns[0]? = some conn ∧ conn.closed = true := by
  obtain ⟨s₁, hs₁, hr₁, hp₁⟩ := Reach.of_any (Sys.step {}) (Sys.init {}) drawnRun
    (fun s => (s.mux.calls[0]?).any fun (call : Call) => call.attempts = 0 ∧ call.pc = .store 0 1 0 false)
    (by decide +kernel)
  obtain ⟨s₂, hs₂, -, hp₂⟩ := Reach.of_any (Sys.step {}) (Sys.init {}) (drawnRun ++ expiredRun)
    (fun s => decide s.mux.Bounded && (s.mux.calls[0]?).any fun (call : Call) =>
      call.attempts = 0 ∧ call.pc = .done (.ok []))
    (by decide +kernel)
  rw [exec_append, hs₁, Option.bind_some] at hs₂
  obtain ⟨call₁, hk₁, hc₁⟩ := (Option.any_eq_true _ _).1 hp₁
  obtain ⟨ha₁, hpc₁⟩ := of_decide_eq_true hc₁
  obtain ⟨hb, hp₂⟩ := Bool.and_eq_true_iff.1 hp₂
  obtain ⟨call₂, hk₂, hc₂⟩ := (Option.any_eq_true _ _).1 hp₂
  obtain ⟨ha₂, hpc₂⟩ := of_decide_eq_true hc₂
  exact ⟨s₁, s₂, call₂, hs₁, hs₂, hk₂, hpc₂, empty_answer_late hr₁ hk₁ hpc₁ (.of_exec .refl hs₂)
    (of_decide_eq_true hb) hk₂ (ha₂.trans ha₁.symm) hpc₂⟩

end RzBridge

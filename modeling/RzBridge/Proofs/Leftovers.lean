import RzBridge.Lib.Assoc
import RzBridge.Proofs.SysStep

/-!
# What `execute` leaves in the demux maps

`execute` registers a sender for each attempt and never takes one out again: the read loop does, or
`cleanup`, or nobody. An attempt that awaited its channel has seen its sender used or dropped, so the
entry is gone by then; an attempt whose `send_raw` was refused moves on with its entry still there.
`SenderInv` follows every sender that is in a map or with a read loop, without a bound on the ids
drawn: a call's current sender is registered in one place only.
-/

namespace RzBridge
open Machine Assoc

variable {cfg : Config} {m m' : Mux} {c k : Nat} {l : MuxLabel}

/-- The current attempt has registered its sender on connection `c` under `id` and is not over. -/
def CallPc.Waits (pc : CallPc) (c : Nat) (id : UInt32) : Prop := pc = .send c id ∨ pc = .await c id

/-- The current attempt has registered its sender (or the call is over). -/
def CallPc.stored : CallPc → Bool
  | .send .. => true
  | .await .. => true
  | .done _ => true
  | _ => false

/-- No map holds the sender `tok`. -/
def Mux.Gone (m : Mux) (tok : Tok) : Prop :=
  ∀ (c : Nat) (conn : Conn) (id : UInt32) (t : Nat), m.conns[c]? = some conn →
    conn.demux.lookup id ≠ some (tok, t)

/-- What an entry on connection `c` under `id` says about the call `call` it belongs to: the attempt `a`
that made it is in flight, or it ended as `R` says. -/
def EntryOf (R : Nat → Nat → Nat → UInt32 → Prop) (k a c : Nat) (id : UInt32) (call : Call) : Prop :=
  a = call.attempts ∧ call.pc.Waits c id ∧ call.slot = .empty ∨ a < call.attempts ∧ R k a c id

/-- Where the senders are, when `R` holds of the attempts that ended with their entry left behind. -/
structure SenderInv (R : Nat → Nat → Nat → UInt32 → Prop) (m : Mux) : Prop where
  entry : ∀ (c : Nat) (conn : Conn) (id : UInt32) (k a t : Nat), m.conns[c]? = some conn →
    conn.demux.lookup id = some (⟨k, a⟩, t) → ∃ call, m.calls[k]? = some call ∧ EntryOf R k a c id call
  hand : ∀ (c : Nat) (conn : Conn) (k a : Nat) (hdr : Header) (f : Bytes), m.conns[c]? = some conn →
    conn.reader = .deliver ⟨k, a⟩ hdr f → ∃ call, m.calls[k]? = some call ∧
      (a < call.attempts ∨ a = call.attempts ∧ call.pc.stored = true ∧ m.Gone ⟨k, a⟩)
  storing : ∀ (k : Nat) (call : Call) (c : Nat) (id : UInt32) (t : Nat) (held : Bool),
    m.calls[k]? = some call → call.pc = .store c id t held → call.slot = .empty

theorem CallPc.Waits.stored {pc : CallPc} {id : UInt32} (h : pc.Waits c id) : pc.stored = true := by
  rcases h with rfl | rfl <;> rfl

theorem CallPc.Waits.conn {pc : CallPc} {id : UInt32} (h : pc.Waits c id) : pc.conn = some c := by
  rcases h with rfl | rfl <;> rfl

theorem CallPc.Waits.unique {pc : CallPc} {c' : Nat} {id id' : UInt32} (h : pc.Waits c id) (h' : pc.Waits c' id') :
    c' = c ∧ id' = id := by
  rcases h with rfl | rfl <;> rcases h' with h' | h' <;> cases h' <;> exact ⟨rfl, rfl⟩

theorem Mux.Gone.setConn {tok : Tok} {conn conn' : Conn} (h : m.Gone tok) (hc : m.conns[c]? = some conn)
    (hout : ∀ id t, conn'.demux.lookup id ≠ some (tok, t)) : (m.setConn c conn').Gone tok := by
  intro c₁ conn₁ id t hc₁
  rcases Mux.of_setConn hc hc₁ with ⟨rfl, rfl⟩ | ⟨-, hc₁⟩
  · exact hout id t
  · exact h c₁ conn₁ id t hc₁

namespace SenderInv

variable {R R' : Nat → Nat → Nat → UInt32 → Prop} {call call' : Call} {conn conn' : Conn}

theorem init : SenderInv R {} := ⟨by simp, by simp, by simp⟩

theorem mono (h : SenderInv R m) (hR : ∀ k a c id, R k a c id → R' k a c id) : SenderInv R' m where
  entry c conn id k a t hc hl := by
    obtain ⟨call, hk, he⟩ := h.entry c conn id k a t hc hl
    exact ⟨call, hk, he.imp_right fun he => ⟨he.1, hR _ _ _ _ he.2⟩⟩
  hand := h.hand
  storing := h.storing

/-- The entry of an attempt in flight is where its call stands. -/
theorem current {id : UInt32} {t : Nat} (h : SenderInv R m) (hk : m.calls[k]? = some call)
    (hc : m.conns[c]? = some conn) (hl : conn.demux.lookup id = some (⟨k, call.attempts⟩, t)) :
    call.pc.Waits c id ∧ call.slot = .empty := by
  obtain ⟨call₀, hk₀, he⟩ := h.entry c conn id k _ t hc hl
  rw [hk] at hk₀
  cases Option.some.inj hk₀
  rcases he with ⟨-, he⟩ | ⟨hlt, -⟩
  · exact he
  · exact absurd hlt (Nat.lt_irrefl _)

theorem gone_of_erased {id : UInt32} {t : Nat} (h : SenderInv R m) (hk : m.calls[k]? = some call)
    (hc : m.conns[c]? = some conn) (hl : conn.demux.lookup id = some (⟨k, call.attempts⟩, t))
    (hsub : ∀ id e, conn'.demux.lookup id = some e → conn.demux.lookup id = some e)
    (hout : conn'.demux.lookup id = none) : (m.setConn c conn').Gone ⟨k, call.attempts⟩ := by
  intro c₁ conn₁ id₁ t₁ hc₁ hl₁
  have hw := (h.current hk hc hl).1
  rcases Mux.of_setConn hc hc₁ with ⟨rfl, rfl⟩ | ⟨hne, hc₁⟩
  · obtain ⟨-, rfl⟩ := hw.unique (h.current hk hc (hsub _ _ hl₁)).1
    rw [hout] at hl₁
    cases hl₁
  · obtain ⟨rfl, -⟩ := hw.unique (h.current hk hc₁ hl₁).1
    exact hne rfl

/-! ### Connections -/

theorem setConn (h : SenderInv R m) (hc : m.conns[c]? = some conn)
    (hsub : ∀ id e, conn'.demux.lookup id = some e → conn.demux.lookup id = some e)
    (hhand : ∀ tok hdr f, conn'.reader = .deliver tok hdr f → conn.reader = .deliver tok hdr f ∨
      ∃ id t, conn.demux.lookup id = some (tok, t) ∧ conn'.demux.lookup id = none) :
    SenderInv R (m.setConn c conn') := by
  have gone : ∀ tok, m.Gone tok → (m.setConn c conn').Gone tok := fun tok hg =>
    hg.setConn hc fun id t hl => hg c conn id t hc (hsub _ _ hl)
  refine ⟨?_, ?_, h.storing⟩
  · intro c₁ conn₁ id k a t hc₁ hl
    rcases Mux.of_setConn hc hc₁ with ⟨rfl, rfl⟩ | ⟨-, hc₁⟩
    · exact h.entry c conn id k a t hc (hsub _ _ hl)
    · exact h.entry c₁ conn₁ id k a t hc₁ hl
  · intro c₁ conn₁ k a hdr f hc₁ hr
    have old : (∃ (c₀ : Nat) (conn₀ : Conn), m.conns[c₀]? = some conn₀ ∧ conn₀.reader = .deliver ⟨k, a⟩ hdr f) →
        ∃ call, m.calls[k]? = some call ∧
          (a < call.attempts ∨ a = call.attempts ∧ call.pc.stored = true ∧ (m.setConn c conn').Gone ⟨k, a⟩) := by
      rintro ⟨c₀, conn₀, hc₀, hr₀⟩
      obtain ⟨call, hk, hcall⟩ := h.hand c₀ conn₀ k a hdr f hc₀ hr₀
      exact ⟨call, hk, hcall.imp_right fun ⟨ha, hp, hg⟩ => ⟨ha, hp, gone _ hg⟩⟩
    rcases Mux.of_setConn hc hc₁ with ⟨rfl, rfl⟩ | ⟨-, hc₁⟩
    · rcases hhand _ hdr f hr with hr | ⟨id, t, hl, hout⟩
      · exact old ⟨c, conn, hc, hr⟩
      · obtain ⟨call, hk, ⟨rfl, hw, -⟩ | ⟨ha, -⟩⟩ := h.entry c conn id k a t hc hl
        · exact ⟨call, hk, .inr ⟨rfl, hw.stored, h.gone_of_erased hk hc hl hsub hout⟩⟩
        · exact ⟨call, hk, .inl ha⟩
    · exact old ⟨c₁, conn₁, hc₁, hr⟩

theorem quiet (h : SenderInv R m) (hc : m.conns[c]? = some conn) (hd : conn'.demux = conn.demux)
    (hr : ∀ tok hdr f, conn'.reader = .deliver tok hdr f → conn.reader = .deliver tok hdr f) :
    SenderInv R (m.setConn c conn') :=
  h.setConn hc (fun _ _ he => hd ▸ he) fun tok hdr f hf => .inl (hr tok hdr f hf)

/-! ### Calls -/

theorem setCall (h : SenderInv R m) (hk : m.calls[k]? = some call) (hle : call.attempts ≤ call'.attempts)
    (hentry : ∀ c id, call.pc.Waits c id → call.slot = .empty → EntryOf R k call.attempts c id call')
    (hpc : call'.attempts = call.attempts → call.pc.stored = true → call'.pc.stored = true)
    (hstore : ∀ c id t held, call'.pc = .store c id t held → call'.slot = .empty) :
    SenderInv R (m.setCall k call') := by
  have hlt := Mux.lt_of_call hk
  refine ⟨?_, ?_, ?_⟩
  · intro c conn id k₁ a t hc hl
    obtain ⟨call₁, hk₁, he⟩ := h.entry c conn id k₁ a t hc hl
    rw [Mux.setCall_calls call' hlt]
    split
    · subst ‹k = k₁›
      rw [hk] at hk₁
      cases Option.some.inj hk₁
      refine ⟨call', rfl, ?_⟩
      rcases he with ⟨rfl, hw, hs⟩ | ⟨ha, hR⟩
      · exact hentry c id hw hs
      · exact .inr ⟨ha.trans_le hle, hR⟩
    · exact ⟨call₁, hk₁, he⟩
  · intro c conn k₁ a hdr f hc hr
    obtain ⟨call₁, hk₁, hcall⟩ := h.hand c conn k₁ a hdr f hc hr
    rw [Mux.setCall_calls call' hlt]
    split
    · subst ‹k = k₁›
      rw [hk] at hk₁
      cases Option.some.inj hk₁
      refine ⟨call', rfl, ?_⟩
      rcases hcall with ha | ⟨rfl, hst, hg⟩
      · exact .inl (ha.trans_le hle)
      · rcases hle.lt_or_eq with hlt' | heq
        · exact .inl hlt'
        · exact .inr ⟨heq, hpc heq.symm hst, hg⟩
    · exact ⟨call₁, hk₁, hcall⟩
  · intro k₁ call₁ c id t held hk₁ hp
    rcases Mux.of_setCall hk hk₁ with ⟨rfl, rfl⟩ | ⟨-, hk₁⟩
    · exact hstore c id t held hp
    · exact h.storing k₁ call₁ c id t held hk₁ hp

theorem setIdle (h : SenderInv R m) (hk : m.calls[k]? = some call) (hp : call.pc.stored = false)
    (hatt : call'.attempts = call.attempts)
    (hstore : ∀ c id t held, call'.pc = .store c id t held → call'.slot = .empty) :
    SenderInv R (m.setCall k call') := by
  refine h.setCall hk hatt.ge ?_ ?_ hstore
  · intro c id hw
    rw [hw.stored] at hp
    cases hp
  · intro _ hst
    rw [hst] at hp
    cases hp

theorem retry (h : SenderInv R m) (e : RZError) (hk : m.calls[k]? = some call)
    (hentry : ∀ c id, call.pc.Waits c id → call.slot = .empty → R k call.attempts c id) :
    SenderInv R (m.setCall k (call.retry e)) := by
  refine h.setCall hk (Nat.le_succ _) (fun c id hw hs => .inr ⟨Nat.lt_succ_self _, hentry c id hw hs⟩) ?_ ?_
  · intro heq
    exact absurd heq (Nat.succ_ne_self _)
  · intro c id t held hp
    simp only [Call.retry] at hp
    split at hp <;> cases hp

/-! ### Channels -/

theorem fillSlot {tok : Tok} (h : SenderInv R m) (s : Slot)
    (htok : ∀ call, m.calls[tok.call]? = some call → call.attempts = tok.attempt →
      call.pc.stored = true ∧ m.Gone tok) : SenderInv R (m.fillSlot tok s) := by
  have hcalls : ∀ (k : Nat) (call : Call), m.calls[k]? = some call →
      (m.fillSlot tok s).calls[k]? = some (Mux.fillCall tok s k call) := by
    intro k call hk
    rw [Mux.fillSlot_calls, hk]
    rfl
  refine ⟨?_, ?_, ?_⟩
  · intro c conn id k a t hc hl
    obtain ⟨call, hk, he⟩ := h.entry c conn id k a t hc hl
    refine ⟨_, hcalls k call hk, ?_⟩
    by_cases hx : tok = ⟨k, call.attempts⟩
    · subst hx
      rcases he with ⟨rfl, -⟩ | ⟨ha, hR⟩
      · exact absurd hl ((htok call hk rfl).2 c conn id t hc)
      · refine .inr ⟨?_, hR⟩
        rw [Mux.fillCall_attempts]
        exact ha
    · rw [Mux.fillCall_of_ne hx]
      exact he
  · intro c conn k a hdr f hc hr
    obtain ⟨call, hk, hcall⟩ := h.hand c conn k a hdr f hc hr
    refine ⟨_, hcalls k call hk, ?_⟩
    rw [Mux.fillCall_attempts, Mux.fillCall_pc]
    exact hcall
  · intro k call' c id t held hk' hp
    rw [Mux.fillSlot_calls, Option.map_eq_some_iff] at hk'
    obtain ⟨call, hk, rfl⟩ := hk'
    by_cases hx : tok = ⟨k, call.attempts⟩
    · subst hx
      have hst := (htok call hk rfl).1
      rw [Mux.fillCall_pc] at hp
      rw [hp] at hst
      cases hst
    · rw [Mux.fillCall_of_ne hx] at hp ⊢
      exact h.storing k call c id t held hk hp

theorem spend {id : UInt32} {tok : Tok} {t : Nat} (h : SenderInv R m) (s : Slot) (hc : m.conns[c]? = some conn)
    (hl : conn.demux.lookup id = some (tok, t)) :
    SenderInv R ((m.setConn c { conn with demux := conn.demux.erase id }).fillSlot tok s) := by
  have hsub : ∀ id' e, (conn.demux.erase id).lookup id' = some e → conn.demux.lookup id' = some e :=
    fun id' e he => (lookup_erase_iff.1 he).2
  have hinv : SenderInv R (m.setConn c { conn with demux := conn.demux.erase id }) :=
    h.setConn hc hsub fun tok hdr f hr => .inl hr
  refine hinv.fillSlot s ?_
  obtain ⟨k, a⟩ := tok
  rintro call hk rfl
  exact ⟨(h.current hk hc hl).1.stored, h.gone_of_erased hk hc hl hsub (AList.lookup_erase _ _)⟩

theorem expire (h : SenderInv R m) (c : Nat) (id : UInt32) : SenderInv R (expire m c id) := by
  unfold RzBridge.expire
  split
  · exact h
  next conn hc =>
    split
    next tok t hl => exact h.spend (.sent []) hc hl
    next => exact h

theorem cleanup (h : SenderInv R m) (c start age : Nat) : SenderInv R (demuxCleanup m c start age) := by
  unfold demuxCleanup
  split
  · exact h
  next conn hc =>
    generalize timedOut conn.demux start age = ids
    clear hc
    induction ids generalizing m with
    | nil => exact h
    | cons id ids ih => exact ih (h.expire c id)

theorem dropOld {toks : List Tok} (h : SenderInv R m)
    (hold : ∀ tok ∈ toks, ∀ call, m.calls[tok.call]? = some call → call.attempts ≠ tok.attempt) :
    SenderInv R (toks.foldl Mux.dropSender m) := by
  induction toks generalizing m with
  | nil => exact h
  | cons tok toks ih =>
    refine ih (h.fillSlot .dropped fun call hk ha => absurd ha (hold tok List.mem_cons_self call hk)) ?_
    intro tok' ht call' hk'
    rw [Mux.dropSender, Mux.fillSlot_calls, Option.map_eq_some_iff] at hk'
    obtain ⟨call, hk, rfl⟩ := hk'
    rw [Mux.fillCall_attempts]
    exact hold tok' (List.mem_cons_of_mem _ ht) call hk

/-! ### `store` -/

theorem file {id : UInt32} {a : Nat} (h : SenderInv R m) (hk : m.calls[k]? = some call) (ha : a = call.attempts)
    (hc : m.conns[c]? = some conn) (hw : call.pc.Waits c id) (hslot : call.slot = .empty)
    (hfree : ∀ (c : Nat) (conn : Conn) (hdr : Header) (f : Bytes), m.conns[c]? = some conn →
      conn.reader ≠ .deliver ⟨k, a⟩ hdr f)
    (hl : ∀ id' e, conn'.demux.lookup id' = some e →
      id' = id ∧ e.1 = ⟨k, a⟩ ∨ conn.demux.lookup id' = some e)
    (hr : conn'.reader = conn.reader) : SenderInv R (m.setConn c conn') := by
  refine ⟨?_, ?_, h.storing⟩
  · intro c₁ conn₁ id₁ k₁ a₁ t₁ hc₁ hl₁
    rcases Mux.of_setConn hc hc₁ with ⟨rfl, rfl⟩ | ⟨-, hc₁⟩
    · rcases hl id₁ _ hl₁ with ⟨rfl, he⟩ | hl₁
      · cases he
        exact ⟨call, hk, .inl ⟨ha, hw, hslot⟩⟩
      · exact h.entry c conn id₁ k₁ a₁ t₁ hc hl₁
    · exact h.entry c₁ conn₁ id₁ k₁ a₁ t₁ hc₁ hl₁
  · intro c₁ conn₁ k₁ a₁ hdr f hc₁ hr₁
    -- the read loops hold what they held before
    obtain ⟨conn₀, hc₀, hr₀⟩ : ∃ conn₀, m.conns[c₁]? = some conn₀ ∧ conn₀.reader = .deliver ⟨k₁, a₁⟩ hdr f := by
      rcases Mux.of_setConn hc hc₁ with ⟨rfl, rfl⟩ | ⟨-, hc₁⟩
      · exact ⟨conn, hc, hr ▸ hr₁⟩
      · exact ⟨conn₁, hc₁, hr₁⟩
    obtain ⟨call₁, hk₁, hcall⟩ := h.hand c₁ conn₀ k₁ a₁ hdr f hc₀ hr₀
    refine ⟨call₁, hk₁, hcall.imp_right fun ⟨ha₁, hst, hg⟩ => ⟨ha₁, hst, hg.setConn hc fun id₂ t₂ hl₂ => ?_⟩⟩
    rcases hl id₂ _ hl₂ with ⟨-, he⟩ | hl₂
    · cases he
      exact hfree c₁ conn₀ hdr f hc₀ hr₀
    · exact hg c conn id₂ t₂ hc hl₂

theorem fill_setConn (m : Mux) (tok : Tok) (s : Slot) (conn conn' : Conn) (c : Nat) :
    (m.fillSlot tok s).setConn c conn' = ((m.setConn c conn).fillSlot tok s).setConn c conn' := by
  simp only [Mux.setConn, Mux.fillSlot, List.set_set]

theorem fileOver {id : UInt32} {old : Tok} {a t t₀ : Nat} (h : SenderInv R m) (hk : m.calls[k]? = some call)
    (ha : a = call.attempts) (hc : m.conns[c]? = some conn) (hw : call.pc.Waits c id) (hslot : call.slot = .empty)
    (hfree : ∀ (c : Nat) (conn : Conn) (hdr : Header) (f : Bytes), m.conns[c]? = some conn →
      conn.reader ≠ .deliver ⟨k, a⟩ hdr f)
    (hl : conn.demux.lookup id = some (old, t₀)) (hne : old ≠ ⟨k, a⟩) :
    SenderInv R ((m.dropSender old).setConn c { conn with demux := conn.demux.insert id (⟨k, a⟩, t) }) := by
  rw [Mux.dropSender, fill_setConn m old .dropped { conn with demux := conn.demux.erase id }]
  have hspent := h.spend .dropped hc hl
  have hk' : ((m.setConn c { conn with demux := conn.demux.erase id }).fillSlot old .dropped).calls[k]? =
      some call := by
    rw [Mux.fillSlot_calls, Mux.setConn_calls, hk, Option.map_some, Mux.fillCall_of_ne (ha ▸ hne)]
  have hc' : ((m.setConn c { conn with demux := conn.demux.erase id }).fillSlot old .dropped).conns[c]? =
      some { conn with demux := conn.demux.erase id } :=
    Mux.setConn_self hc
  refine hspent.file hk' ha hc' hw hslot ?_ ?_ rfl
  · intro c₁ conn₁ hdr f hc₁
    rw [Mux.fillSlot_conns] at hc₁
    rcases Mux.of_setConn hc hc₁ with ⟨rfl, rfl⟩ | ⟨-, hc₁⟩
    · exact hfree c conn hdr f hc
    · exact hfree c₁ conn₁ hdr f hc₁
  · intro id' e he
    rcases lookup_insert_iff.1 he with ⟨rfl, rfl⟩ | ⟨hid, he⟩
    · exact .inl ⟨rfl, rfl⟩
    · exact .inr (lookup_erase_iff.2 ⟨hid, he⟩)

theorem store {id : UInt32} {t : Nat} (h : SenderInv R m) (hk : m.calls[k]? = some call)
    (hp : call.pc = .store c id t true) (hc : m.conns[c]? = some conn) :
    SenderInv R (demuxStore (m.setCall k { call with pc := .send c id }) c conn id ⟨k, call.attempts⟩ t) := by
  have hst : call.pc.stored = false := by rw [hp]; rfl
  have hslot := h.storing k call c id t true hk hp
  have hmoved : SenderInv R (m.setCall k { call with pc := .send c id }) := by
    refine h.setIdle hk hst rfl ?_
    intro c id t held hp
    cases hp
  -- the sender is new: no read loop has it
  have hfree : ∀ (c : Nat) (conn : Conn) (hdr : Header) (f : Bytes), m.conns[c]? = some conn →
      conn.reader ≠ .deliver ⟨k, call.attempts⟩ hdr f := by
    intro c₁ conn₁ hdr f hc₁ hr₁
    obtain ⟨call₁, hk₁, hcall⟩ := h.hand c₁ conn₁ k _ hdr f hc₁ hr₁
    rw [hk] at hk₁
    cases Option.some.inj hk₁
    rcases hcall with hlt | ⟨-, hst', -⟩
    · exact absurd hlt (Nat.lt_irrefl _)
    · rw [hst] at hst'
      cases hst'
  have hk' : (m.setCall k { call with pc := .send c id }).calls[k]? = some { call with pc := .send c id } :=
    Mux.setCall_self hk
  unfold demuxStore
  split
  next old t₀ hl =>
    have hne : old ≠ ⟨k, call.attempts⟩ := by
      rintro rfl
      have hw := (h.current hk hc hl).1.stored
      rw [hst] at hw
      cases hw
    exact hmoved.fileOver hk' rfl hc (.inl rfl) hslot hfree hl hne
  next hl =>
    refine hmoved.file hk' rfl hc (.inl rfl) hslot hfree ?_ rfl
    intro id' e he
    rcases lookup_insert_iff.1 he with ⟨rfl, rfl⟩ | ⟨-, he⟩
    · exact .inl ⟨rfl, rfl⟩
    · exact .inr he

/-! ### A step -/

theorem spawn (h : SenderInv R m) (w : Bool) (f : Bytes) :
    SenderInv R { m with calls := m.calls ++ [{ isWrite := w, shardFrame := f, frame := f }] } := by
  have old : ∀ {k : Nat} {call : Call}, m.calls[k]? = some call →
      (m.calls ++ [{ isWrite := w, shardFrame := f, frame := f }])[k]? = some call := by
    intro k call hk
    exact (List.getElem?_append_left (Mux.lt_of_call hk)).trans hk
  refine ⟨?_, ?_, ?_⟩
  · intro c conn id k a t hc hl
    obtain ⟨call, hk, he⟩ := h.entry c conn id k a t hc hl
    exact ⟨call, old hk, he⟩
  · intro c conn k a hdr f hc hr
    obtain ⟨call, hk, hcall⟩ := h.hand c conn k a hdr f hc hr
    exact ⟨call, old hk, hcall⟩
  · intro k call c id t held hk hp
    rcases getElem?_snoc hk with hk | ⟨-, rfl⟩
    · exact h.storing k call c id t held hk hp
    · rfl

theorem connect (h : SenderInv R m) (host : String) :
    SenderInv R { m with conns := m.conns ++ [{ addr := host }] } := by
  refine ⟨?_, ?_, h.storing⟩
  · intro c conn id k a t hc hl
    rcases getElem?_snoc hc with hc | ⟨-, rfl⟩
    · exact h.entry c conn id k a t hc hl
    · cases hl
  · intro c conn k a hdr f hc hr
    rcases getElem?_snoc hc with hc | ⟨-, rfl⟩
    · obtain ⟨call, hk, hcall⟩ := h.hand c conn k a hdr f hc hr
      refine ⟨call, hk, hcall.imp_right fun ⟨ha, hst, hg⟩ => ⟨ha, hst, ?_⟩⟩
      intro c₁ conn₁ id₁ t₁ hc₁ hl₁
      rcases getElem?_snoc hc₁ with hc₁ | ⟨-, rfl⟩
      · exact hg c₁ conn₁ id₁ t₁ hc₁ hl₁
      · cases hl₁
    · cases hr

theorem deliver {tok : Tok} {hdr : Header} {f : Bytes} {s : Slot} (h : SenderInv R m) (hc : m.conns[c]? = some conn)
    (hr : conn.reader = .deliver tok hdr f) (hd : conn'.demux = conn.demux)
    (hr' : ∀ tok hdr f, conn'.reader ≠ .deliver tok hdr f) : SenderInv R ((m.setConn c conn').fillSlot tok s) := by
  refine (h.quiet hc hd fun tok hdr f hf => absurd hf (hr' tok hdr f)).fillSlot s ?_
  obtain ⟨k, a⟩ := tok
  rintro call hk rfl
  obtain ⟨call₁, hk₁, hcall⟩ := h.hand c conn k _ hdr f hc hr
  rw [show m.calls[k]? = some call from hk] at hk₁
  cases Option.some.inj hk₁
  rcases hcall with hlt | ⟨-, hst, hg⟩
  · exact absurd hlt (Nat.lt_irrefl _)
  · exact ⟨hst, hg.setConn hc fun id t hl => hg c conn id t hc (hd ▸ hl)⟩

/-- Nobody waits on a connection that is freed: the senders left in its map are those of attempts that
are over. -/
theorem free (h : SenderInv R m) (hc : m.conns[c]? = some conn) (hcalls : ∀ call ∈ m.calls, call.pc.conn ≠ some c) :
    SenderInv R ((conn.demux.entries.map (·.2.1)).foldl Mux.dropSender (m.setConn c { conn with demux := ∅ })) := by
  have hempty : SenderInv R (m.setConn c { conn with demux := ∅ }) := by
    refine h.setConn hc ?_ fun tok hdr f hr => .inl hr
    intro id e he
    cases he
  refine hempty.dropOld ?_
  rintro tok ht call hk ha
  obtain ⟨⟨id, ⟨k, a⟩, t⟩, he, rfl⟩ := List.mem_map.1 ht
  subst ha
  have hw := (h.current hk hc (mem_entries_iff.1 he)).1
  exact hcalls call (List.mem_of_getElem? hk) hw.conn

theorem step (h : SenderInv R m)
    (hR : ∀ (k : Nat) (call : Call) (c : Nat) (conn : Conn) (id : UInt32), l = .send k → m.calls[k]? = some call →
      call.pc = .send c id → m.conns[c]? = some conn → conn.writer = .ended → R k call.attempts c id)
    (hs : m.step cfg l = some m') : SenderInv R m' := by
  cases l with
  | spawn w f =>
    cases Option.some.inj hs
    exact h.spawn w f
  | connect host =>
    cases Option.some.inj hs
    exact h.connect host
  | tick d =>
    cases Option.some.inj hs
    exact ⟨h.entry, h.hand, h.storing⟩
  | start k =>
    obtain ⟨call, hk, hp, ⟨-, rfl⟩ | ⟨-, rfl⟩⟩ := Mux.callStart_some hs
    · exact h.setIdle hk (by rw [hp]; rfl) rfl (by simp)
    · exact h.setIdle hk (by rw [hp]; rfl) rfl (by simp)
  | selected k r =>
    obtain ⟨call, hk, hp, rfl | ⟨c, conn, -, -, -, rfl⟩⟩ := Mux.callSelected_some hs
    · refine h.retry _ hk ?_
      intro c id hw
      have hst := hw.stored
      rw [hp] at hst
      cases hst
    · exact h.setIdle hk (by rw [hp]; rfl) rfl (by simp)
  | draw k =>
    obtain ⟨call, c, conn, hk, hp, hc, rfl⟩ := Mux.callDraw_some hs
    have hconn : SenderInv R (m.setConn c
        { conn with corrId := conn.corrId + 1, draws := conn.draws ++ [⟨k, call.attempts⟩] }) :=
      h.quiet hc rfl fun _ _ _ hr => hr
    exact hconn.setIdle hk (by rw [hp]; rfl) rfl (by simp)
  | lockStore k =>
    obtain ⟨call, c, id, t, hk, hp, rfl⟩ := Mux.callLockStore_some hs
    refine h.setIdle hk (by rw [hp]; rfl) rfl ?_
    intro _ _ _ _ _
    exact h.storing k call c id t false hk hp
  | store k =>
    obtain ⟨call, c, conn, id, t, hk, hp, hc, rfl⟩ := Mux.callStore_some hs
    exact h.store hk hp hc
  | send k =>
    obtain ⟨call, c, conn, id, hk, hp, hc, ⟨hw, rfl⟩ | ⟨-, rfl⟩⟩ := Mux.callSend_some hs
    · refine h.retry _ hk ?_
      intro c' id' hw' _
      have hwait : call.pc.Waits c id := .inl hp
      obtain ⟨rfl, rfl⟩ := hwait.unique hw'
      exact hR k call c' conn id' rfl hk hp hc hw
    · have hconn : SenderInv R (m.setConn c
          { conn with
            queue := conn.queue ++ [call.frame]
            accepted := conn.accepted ++ [(⟨k, call.attempts⟩, call.frame)] }) :=
        h.quiet hc rfl fun _ _ _ hr => hr
      refine hconn.setCall hk (Nat.le_refl _) ?_ (fun _ _ => rfl) (by simp)
      intro c' id' hw' hslot
      have hwait : call.pc.Waits c id := .inl hp
      obtain ⟨rfl, rfl⟩ := hwait.unique hw'
      exact .inl ⟨rfl, .inr rfl, hslot⟩
  | receive k =>
    obtain ⟨call, c, id, hk, hp, ⟨b, hb, rfl⟩ | ⟨hb, rfl⟩⟩ := Mux.callReceive_some hs
    · refine h.setCall hk (Nat.le_refl _) ?_ (fun _ _ => rfl) (by simp)
      intro c' id' _ hslot
      rw [hb] at hslot
      cases hslot
    · refine h.retry _ hk ?_
      intro c' id' _ hslot
      rw [hb] at hslot
      cases hslot
  | wake k =>
    obtain ⟨call, hk, hp, rfl⟩ := Mux.callWake_some hs
    exact h.setIdle hk (by rw [hp]; rfl) rfl (by simp)
  | feed c chunk =>
    obtain ⟨conn, hc, -, rfl⟩ := Mux.readerFeed_some hs
    exact h.quiet hc rfl fun _ _ _ hr => hr
  | readEnd c =>
    obtain ⟨conn, hc, -, rfl⟩ := Mux.readerEnd_some hs
    exact h.quiet hc rfl fun _ _ _ hr => nomatch hr
  | drain c =>
    obtain ⟨conn, hc, -, ⟨e, rest, -, rfl⟩ | ⟨hdr, frame, rest, -, rfl⟩⟩ := Mux.readerDrain_some hs
    · exact h.quiet hc rfl fun _ _ _ hr => nomatch hr
    · exact h.quiet hc rfl fun _ _ _ hr => nomatch hr
  | lockLoad c =>
    obtain ⟨conn, hdr, frame, hc, -, rfl⟩ := Mux.readerLock_some hs
    exact h.quiet hc rfl fun _ _ _ hr => nomatch hr
  | loadRemove c =>
    obtain ⟨conn, hdr, frame, hc, -, ⟨tok, t, hl, rfl⟩ | ⟨-, rfl⟩⟩ := Mux.readerLoadRemove_some hs
    · refine h.setConn hc (fun _ _ he => (lookup_erase_iff.1 he).2) ?_
      intro tok' hdr' f hr
      cases hr
      exact .inr ⟨hdr.clrId, t, hl, AList.lookup_erase _ _⟩
    · exact h.quiet hc rfl fun _ _ _ hr => nomatch hr
  | deliver c =>
    obtain ⟨conn, tok, hdr, frame, closed, reader, hc, hr, hcl, rfl⟩ := Mux.readerDeliver_some hs
    refine h.deliver hc hr rfl ?_
    intro tok' hdr' f hr'
    obtain ⟨-, -, rfl⟩ | ⟨-, -, rfl⟩ := hcl
    · cases hr'
    · cases hr'
  | readerStop c =>
    obtain ⟨conn, hc, -, rfl⟩ := Mux.readerStop_some hs
    exact h.quiet hc rfl fun _ _ _ hr => nomatch hr
  | take c =>
    obtain ⟨conn, frame, queue, hc, -, -, rfl⟩ := Mux.writerTake_some hs
    exact h.quiet hc rfl fun _ _ _ hr => hr
  | wrote c =>
    obtain ⟨conn, frame, hc, -, rfl⟩ := Mux.writerWrote_some hs
    exact h.quiet hc rfl fun _ _ _ hr => hr
  | writeFail c n =>
    obtain ⟨conn, frame, hc, -, rfl⟩ := Mux.writerFail_some hs
    exact h.quiet hc rfl fun _ _ _ hr => hr
  | writerStop c =>
    obtain ⟨conn, hc, -, rfl⟩ := Mux.writerStop_some hs
    exact h.quiet hc rfl fun _ _ _ hr => hr
  | writerDrop c =>
    obtain ⟨conn, hc, -, rfl⟩ := Mux.writerDrop_some hs
    exact h.quiet hc rfl fun _ _ _ hr => hr
  | cleanup c start =>
    cases Option.some.inj hs
    exact h.cleanup c start cfg.cleanupAge
  | free c =>
    obtain ⟨conn, hc, -, -, hcalls, rfl⟩ := Mux.connFree_some hs
    exact h.free hc hcalls

end SenderInv

/-! ### Runs -/

/-- In the run `ls`, attempt `a` of call `k` had registered its sender on connection `c` under `id` when
`send_raw` refused its frame: the write loop had ended. -/
def RefusedAt (cfg : Config) (ls : List SysLabel) (k a c : Nat) (id : UInt32) : Prop :=
  ∃ (pre : List SysLabel) (s : Sys) (call : Call) (conn : Conn), pre ++ [.mux (.send k)] <+: ls ∧
    exec (Sys.step cfg) (Sys.init cfg) pre = some s ∧ s.mux.calls[k]? = some call ∧ call.attempts = a ∧
    call.pc = .send c id ∧ s.mux.conns[c]? = some conn ∧ conn.writer = .ended

variable {ls : List SysLabel} {s s' : Sys}

theorem RefusedAt.mono {ls' : List SysLabel} {a : Nat} {id : UInt32} (h : RefusedAt cfg ls k a c id)
    (hle : ls <+: ls') : RefusedAt cfg ls' k a c id := by
  obtain ⟨pre, s, call, conn, hpre, h⟩ := h
  exact ⟨pre, s, call, conn, hpre.trans hle, h⟩

theorem SenderInv.of_exec (he : exec (Sys.step cfg) (Sys.init cfg) ls = some s) :
    SenderInv (RefusedAt cfg ls) s.mux := by
  refine (exec_induct (I := fun ls s => exec (Sys.step cfg) (Sys.init cfg) ls = some s ∧
    SenderInv (RefusedAt cfg ls) s.mux) he ⟨rfl, .init⟩ ?_).2
  rintro pre s l s' - ⟨hpre, h⟩ hs
  refine ⟨exec_snoc.2 ⟨s, hpre, hs⟩, ?_⟩
  have h := h.mono fun k a c id hr => hr.mono (List.prefix_append pre [l])
  rcases Sys.mux_project hs with heq | ⟨lm, hlm, hint, -⟩
  · rw [heq]
    exact h
  · refine h.step ?_ hlm
    rintro k call c conn id rfl hk hp hc hw
    exact ⟨pre, s, call, conn, hint rfl ▸ List.prefix_refl _, hpre, hk, rfl, hp, hc, hw⟩

/-! ### The connection of a refused frame -/

theorem ConnStep.writer_closed {conn conn' : Conn} (h : ConnStep m l c conn conn')
    (hi : conn.writer = .finish ∨ conn.writer = .ended → conn.closed = true) :
    conn'.writer = .finish ∨ conn'.writer = .ended → conn'.closed = true := by
  intro hw
  cases h with
  | deliver hdr f tok closed reader hr hc =>
    rcases hc with ⟨rfl, -⟩ | ⟨rfl, -⟩
    · rfl
    · exact hi hw
  | readerStop _ _ => rfl
  | take f queue hw' hq => simp at hw
  | wrote f hw' => simp at hw
  | writeFail f n hw' => simp at hw
  | writerStop hw' => rfl
  | writerDrop hw' => exact hi (.inl hw')
  | _ => exact hi hw

theorem ConnStep.writer_ended {conn conn' : Conn} (h : ConnStep m l c conn conn') (hw : conn.writer = .ended) :
    conn'.writer = .ended := by
  cases h with
  | take f queue hw' hq => simp [hw] at hw'
  | wrote f hw' => simp [hw] at hw'
  | writeFail f n hw' => simp [hw] at hw'
  | writerStop hw' => simp [hw] at hw'
  | writerDrop hw' => rfl
  | _ => exact hw

theorem writer_closed (h : Reach (Mux.step cfg) {} m) : ∀ (c : Nat) (conn : Conn), m.conns[c]? = some conn →
    conn.writer = .finish ∨ conn.writer = .ended → conn.closed = true := by
  refine h.induct (I := fun m => ∀ (c : Nat) (conn : Conn), m.conns[c]? = some conn →
    conn.writer = .finish ∨ conn.writer = .ended → conn.closed = true) (by simp) ?_
  intro m l m' _ hi hs c conn' hc'
  obtain ⟨conn, hc, hstep⟩ | ⟨-, host, -, rfl⟩ := Mux.step_conn hs hc'
  · exact hstep.writer_closed (hi c conn hc)
  · rintro (hw | hw) <;> cases hw

theorem writer_ended {conn : Conn} (h : Reach (Mux.step cfg) m m') (hc : m.conns[c]? = some conn)
    (hw : conn.writer = .ended) : ∃ conn', m'.conns[c]? = some conn' ∧ conn'.writer = .ended := by
  refine h.induct (I := fun m => ∃ conn, m.conns[c]? = some conn ∧ conn.writer = .ended) ⟨conn, hc, hw⟩ ?_
  rintro m l m' - ⟨conn, hc, hw⟩ hs
  obtain ⟨conn', hc', hstep⟩ := Mux.step_conn_fwd hs hc
  exact ⟨conn', hc', hstep.writer_ended hw⟩

/-- Call `k` has returned, and the sender of its attempt `a` is still registered on connection `c` under
`id`. -/
def Mux.Leftover (m : Mux) (k a c : Nat) (id : UInt32) : Prop :=
  ∃ (call : Call) (r : Except RZError Bytes) (conn : Conn) (t : Nat), m.calls[k]? = some call ∧
    call.pc = .done r ∧ m.conns[c]? = some conn ∧ conn.demux.lookup id = some (⟨k, a⟩, t)

/-- What an `execute` call that has returned leaves in the maps: the entries of the attempts whose frame
`send_raw` refused, on connections that are closed. -/
theorem leftovers_refused (he : exec (Sys.step cfg) (Sys.init cfg) ls = some s) :
    ∀ (k a c : Nat) (id : UInt32), s.mux.Leftover k a c id →
      RefusedAt cfg ls k a c id ∧
        ∃ conn, s.mux.conns[c]? = some conn ∧ conn.writer = .ended ∧ conn.closed = true := by
  rintro k a c id ⟨call, r, conn, t, hk, hp, hc, hl⟩
  obtain ⟨call₁, hk₁, h⟩ := (SenderInv.of_exec he).entry c conn id k a t hc hl
  rw [hk] at hk₁
  cases Option.some.inj hk₁
  rcases h with ⟨-, hw, -⟩ | ⟨-, hr⟩
  · rw [hp] at hw
    rcases hw with hw | hw <;> cases hw
  · refine ⟨hr, ?_⟩
    obtain ⟨pre, s₁, -, conn₁, hpre, he₁, -, -, -, hc₁, hw₁⟩ := hr
    have hrest : Reach (Mux.step cfg) s₁.mux s.mux :=
      Sys.project_mux (Reach.of_prefix ((List.prefix_append pre _).trans hpre) he₁ he)
    obtain ⟨conn', hc', hw'⟩ := writer_ended hrest hc₁ hw₁
    exact ⟨conn', hc', hw', writer_closed (Sys.reach_mux (Reach.refl.of_exec he)) c conn' hc' (.inr hw')⟩

/-- The next selection of call 0, a write, finds the only connection of the leader closed. -/
def noLeader : List SysLabel :=
  [.mux (.wake 0), .sel 0, .acquire (.call 0), .sel 0, .acquire (.call 0), .sel 0, .sel 0, .acquire (.call 0),
    .sel 0, .sel 0, .sel 0]

/-- Two writes have registered their senders on the leader's connection when its write loop fails on the
frame of the second; the first is refused, finds no connection any more and gives up. -/
def givenUpRun : List SysLabel :=
  Sys.leaderUp "a" [] ++ Sys.followersUp [] ++ (Sys.writeCall 0 (prependHeader 7 [1])).dropLast ++
    Sys.writeCall 1 (prependHeader 8 [2]) ++
    [.mux (.take 0), .mux (.writeFail 0 3), .mux (.writerStop 0), .mux (.writerDrop 0), .mux (.send 0)] ++
    noLeader ++ noLeader

theorem givenUpRun_leftover :
    ∃ s, exec (Sys.step {}) (Sys.init {}) givenUpRun = some s ∧ s.mux.Leftover 0 0 0 1 := by
  obtain ⟨s, hs, -, hp⟩ := Reach.of_any (Sys.step {}) (Sys.init {}) givenUpRun
    (fun s => decide (s.mux.calls[0]?.map Call.pc = some (.done (.error .noLeaderAvailable))) &&
      (s.mux.conns[0]?).any fun conn : Conn => decide (conn.demux.lookup 1 = some ((⟨0, 0⟩ : Tok), 0)))
    (by decide +kernel)
  obtain ⟨hcall, hconn⟩ := Bool.and_eq_true_iff.1 hp
  obtain ⟨call, hk, hpc⟩ := Option.map_eq_some_iff.1 (of_decide_eq_true hcall)
  obtain ⟨conn, hc, hl⟩ := (Option.any_eq_true _ _).1 hconn
  exact ⟨s, hs, call, _, conn, 0, hk, hpc, hc, of_decide_eq_true hl⟩

theorem leftovers_refused_given_up : ∃ s, exec (Sys.step {}) (Sys.init {}) givenUpRun = some s ∧
    s.mux.Leftover 0 0 0 1 ∧ RefusedAt {} givenUpRun 0 0 0 1 ∧
    ∃ conn, s.mux.conns[0]? = some conn ∧ conn.writer = .ended ∧ conn.closed = true := by
  obtain ⟨s, hs, hleft⟩ := givenUpRun_leftover
  exact ⟨s, hs, hleft, leftovers_refused hs 0 0 0 1 hleft⟩

/-- A call can return with an entry of its own left behind. -/
theorem execute_leaves_entry : ¬ ∀ (ls : List SysLabel) (s : Sys), exec (Sys.step {}) (Sys.init {}) ls = some s →
    ∀ (k a c : Nat) (id : UInt32), ¬ s.mux.Leftover k a c id := by
  intro hnone
  obtain ⟨s, hs, hleft⟩ := givenUpRun_leftover
  exact hnone givenUpRun s hs 0 0 0 1 hleft

end RzBridge

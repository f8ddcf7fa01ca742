import RzBridge.Proofs.DrainFrame
import RzBridge.Proofs.FrameInv

/-!
# Who owns a one-shot sender

`MuxInv` follows the sender that an attempt registers: the attempt drew its id on one connection and
no other attempt drew that id there (`ConnFrames.corr`, `CallInv.uniq`), so from `store` on the sender is
in that connection's map under that id, in the hands of its read loop, or spent (`Owned`). It is
never dropped unsent, which is why a call that was accepted by `send_raw` never goes back to its
retry loop. The invariant holds as long as fewer than `2 ^ 32` ids are drawn on each connection.
-/

namespace RzBridge

/-- The read loop received the frame `b` carrying `id` and handed it to `tok`. -/
def Got (conn : Conn) (id : UInt32) (tok : Tok) (b : Bytes) : Prop :=
  ∃ idx hdr, conn.received[idx]? = some (hdr, b) ∧ hdr.clrId = id ∧ (idx, tok) ∈ conn.delivered

/-- The last frame received is `(hdr, f)` and it was not handed to anyone yet. -/
def Pending (conn : Conn) (hdr : Header) (f : Bytes) : Prop :=
  conn.received.getLast? = some (hdr, f) ∧ ∀ e ∈ conn.delivered, e.1 < conn.received.length - 1

/-- Where the sender `tok` registered under `id` is: in the map, with the read loop, or spent. -/
def Owned (conn : Conn) (id : UInt32) (tok : Tok) (slot : Slot) : Prop :=
  (slot = .empty ∧ ∃ t, conn.demux.lookup id = some (tok, t)) ∨
    (slot = .empty ∧ ∃ hdr f, conn.reader = .deliver tok hdr f ∧ hdr.clrId = id) ∨ ∃ b, slot = .sent b

/-- The current attempt has drawn an id (or the call is over). -/
def CallPc.drawn : CallPc → Bool
  | .done _ => true
  | pc => pc.listening

/-- The part of a connection, when there are `n` calls. -/
structure ConnInv (n : Nat) (conn : Conn) : Prop where
  draws_lt : ∀ tok ∈ conn.draws, tok.call < n
  demux : ∀ id tok t, conn.demux.lookup id = some (tok, t) → DrawnAt conn id tok
  lookup : ∀ hdr f held, conn.reader = .lookup hdr f held → Pending conn hdr f
  deliver : ∀ tok hdr f, conn.reader = .deliver tok hdr f → DrawnAt conn hdr.clrId tok ∧ Pending conn hdr f
  received : ∀ e ∈ conn.received, IsShardFrame e.1.clrId e.2
  delivered_lt : ∀ e ∈ conn.delivered, e.1 < conn.received.length
  delivered_inj : ∀ e ∈ conn.delivered, ∀ e' ∈ conn.delivered, e.1 = e'.1 → e = e'

/-- The part of call `k`. -/
structure CallInv (conns : List Conn) (k : Nat) (call : Call) : Prop where
  past : ∀ (c : Nat) (conn : Conn) (i a : Nat), conns[c]? = some conn → conn.draws[i]? = some ⟨k, a⟩ →
    a < call.attempts ∨ a = call.attempts ∧ call.last = some (c, drawId i) ∧ call.pc.drawn = true
  uniq : ∀ (c c' : Nat) (conn conn' : Conn) (i i' a : Nat), conns[c]? = some conn →
    conns[c']? = some conn' → conn.draws[i]? = some ⟨k, a⟩ → conn'.draws[i']? = some ⟨k, a⟩ → c = c' ∧ i = i'
  here : ∀ c id, call.pc.at = some (c, id) → ∃ conn, conns[c]? = some conn ∧
    DrawnAt conn id ⟨k, call.attempts⟩ ∧ call.last = some (c, id)
  storing : ∀ c id t held, call.pc = .store c id t held → call.slot = .empty ∧
    ∀ conn, conns[c]? = some conn → conn.demux.lookup id = none ∧
      ∀ tok hdr f, conn.reader = .deliver tok hdr f → hdr.clrId ≠ id
  owned : ∀ c id, (call.pc = .send c id ∨ call.pc = .await c id) → ∀ conn, conns[c]? = some conn →
    Owned conn id ⟨k, call.attempts⟩ call.slot
  sent : ∀ c id b, call.pc.at = some (c, id) → call.slot = .sent b → b = [] ∨
    ∀ conn, conns[c]? = some conn → Got conn id ⟨k, call.attempts⟩ b
  done : ∀ r, call.pc = .done (.ok r) → r = [] ∨ ∃ c id conn b, call.last = some (c, id) ∧
    conns[c]? = some conn ∧ DrawnAt conn id ⟨k, call.attempts⟩ ∧ Got conn id ⟨k, call.attempts⟩ b ∧
    r = setClrid call.originalClrid b

structure MuxInv (m : Mux) : Prop where
  conns : ∀ (c : Nat) (conn : Conn), m.conns[c]? = some conn → ConnInv m.calls.length conn
  calls : ∀ (k : Nat) (call : Call), m.calls[k]? = some call → CallInv m.conns k call

/-- Fewer than `2 ^ 32` ids have been drawn on each connection. -/
def Mux.Bounded (m : Mux) : Prop :=
  ∀ (c : Nat) (conn : Conn), m.conns[c]? = some conn → conn.draws.length < 2 ^ 32

/-! ### Draws -/

theorem drawId_inj {i j : Nat} (hi : i + 1 < 2 ^ 32) (hj : j + 1 < 2 ^ 32) (h : drawId i = drawId j) :
    i = j := by
  have h' := congrArg UInt32.toNat h
  rw [drawId, drawId, UInt32.toNat_ofNat_of_lt' hi, UInt32.toNat_ofNat_of_lt' hj] at h'
  omega

/-- On one connection an id was drawn by one attempt. -/
theorem DrawnAt.tok_eq {conn : Conn} {id : UInt32} {t t' : Tok} (hb : conn.draws.length < 2 ^ 32)
    (h : DrawnAt conn id t) (h' : DrawnAt conn id t') : t = t' := by
  obtain ⟨i, hi, rfl⟩ := h
  obtain ⟨j, hj, hid⟩ := h'
  have hil : i < conn.draws.length := (List.getElem?_eq_some_iff.1 hi).1
  have hjl : j < conn.draws.length := (List.getElem?_eq_some_iff.1 hj).1
  have hij := drawId_inj (by omega) (by omega) hid
  rw [hij, hj] at hi
  exact (Option.some.inj hi).symm

/-- The history variables of `conn'` extend those of `conn`. -/
structure ConnLe (conn conn' : Conn) : Prop where
  draws : conn.draws <+: conn'.draws
  received : conn.received <+: conn'.received
  delivered : ∀ e ∈ conn.delivered, e ∈ conn'.delivered

theorem DrawnAt.mono {conn conn' : Conn} {id : UInt32} {tok : Tok} (hle : ConnLe conn conn')
    (h : DrawnAt conn id tok) : DrawnAt conn' id tok :=
  h.of_prefix hle.draws

theorem Got.mono {conn conn' : Conn} {id : UInt32} {tok : Tok} {b : Bytes} (hle : ConnLe conn conn')
    (h : Got conn id tok b) : Got conn' id tok b := by
  obtain ⟨idx, hdr, hr, hid, hd⟩ := h
  exact ⟨idx, hdr, getElem?_of_prefix hle.received hr, hid, hle.delivered _ hd⟩

theorem CallInv.at_eq {conns : List Conn} {k : Nat} {call : Call} {c c' : Nat} {conn : Conn} {id id' : UInt32}
    (h : CallInv conns k call) (hat : call.pc.at = some (c, id)) (hc : conns[c']? = some conn)
    (hd : DrawnAt conn id' ⟨k, call.attempts⟩) : c' = c ∧ id' = id := by
  obtain ⟨i, hi, rfl⟩ := hd
  obtain ⟨_, _, _, hlast⟩ := h.here c id hat
  rcases h.past c' conn i _ hc hi with hlt | ⟨-, hl, -⟩
  · exact absurd hlt (Nat.lt_irrefl _)
  · rw [hlast] at hl
    simp only [Option.some.injEq, Prod.mk.injEq] at hl
    exact ⟨hl.1.symm, hl.2.symm⟩

/-! ### Framing

`CallInv.conn_update`: how a call's part of the invariant survives a change of one connection.
`CallInv.idle`: how it survives a move of the call itself to a point where it has no channel. -/

theorem CallInv.conn_update {conns conns' : List Conn} {k c : Nat} {call : Call} {conn conn' : Conn}
    (h : CallInv conns k call) (hc : conns[c]? = some conn)
    (hcs : ∀ c', conns'[c']? = if c = c' then some conn' else conns[c']?) (hle : ConnLe conn conn')
    (hdraws : ∀ (i a : Nat), conn'.draws[i]? = some ⟨k, a⟩ → conn.draws[i]? = some ⟨k, a⟩)
    (hstore : ∀ id t held, call.pc = .store c id t held → conn.demux.lookup id = none →
      (∀ tok hdr f, conn.reader = .deliver tok hdr f → hdr.clrId ≠ id) →
      conn'.demux.lookup id = none ∧ ∀ tok hdr f, conn'.reader = .deliver tok hdr f → hdr.clrId ≠ id)
    (howned : ∀ id, call.pc = .send c id ∨ call.pc = .await c id →
      Owned conn id ⟨k, call.attempts⟩ call.slot → Owned conn' id ⟨k, call.attempts⟩ call.slot) :
    CallInv conns' k call := by
  -- every connection of `conns'` comes from one of `conns` that it extends
  have hback : ∀ (c₁ : Nat) (x : Conn), conns'[c₁]? = some x → ∃ y, conns[c₁]? = some y ∧ ConnLe y x ∧
      (c₁ = c ∧ y = conn ∧ x = conn' ∨ c₁ ≠ c ∧ y = x) := by
    intro c₁ x hx
    rw [hcs] at hx
    split at hx
    · subst ‹c = c₁›
      exact ⟨conn, hc, (Option.some.inj hx) ▸ hle, .inl ⟨rfl, rfl, (Option.some.inj hx).symm⟩⟩
    · exact ⟨x, hx, ⟨List.prefix_refl _, List.prefix_refl _, fun _ he => he⟩, .inr ⟨Ne.symm ‹_›, rfl⟩⟩
  have hfwd : ∀ (c₁ : Nat) (y : Conn), conns[c₁]? = some y → ∃ x, conns'[c₁]? = some x ∧ ConnLe y x := by
    intro c₁ y hy
    rw [hcs]
    split
    · subst ‹c = c₁›
      rw [hc] at hy
      exact ⟨conn', rfl, (Option.some.inj hy) ▸ hle⟩
    · exact ⟨y, hy, ⟨List.prefix_refl _, List.prefix_refl _, fun _ he => he⟩⟩
  have hdraws' : ∀ (c₁ : Nat) (x y : Conn) (i a : Nat), conns'[c₁]? = some x → conns[c₁]? = some y →
      x.draws[i]? = some ⟨k, a⟩ → y.draws[i]? = some ⟨k, a⟩ := by
    intro c₁ x y i a hx hy hi
    obtain ⟨y', hy', -, ⟨rfl, rfl, rfl⟩ | ⟨-, rfl⟩⟩ := hback c₁ x hx <;> rw [hy] at hy' <;>
      cases Option.some.inj hy'
    · exact hdraws i a hi
    · exact hi
  refine ⟨?_, ?_, ?_, ?_, ?_, ?_, ?_⟩
  · intro c₁ x i a hx hi
    obtain ⟨y, hy, -⟩ := hback c₁ x hx
    exact h.past c₁ y i a hy (hdraws' c₁ x y i a hx hy hi)
  · intro c₁ c₂ x₁ x₂ i₁ i₂ a hx₁ hx₂ hi₁ hi₂
    obtain ⟨y₁, hy₁, -⟩ := hback c₁ x₁ hx₁
    obtain ⟨y₂, hy₂, -⟩ := hback c₂ x₂ hx₂
    exact h.uniq c₁ c₂ y₁ y₂ i₁ i₂ a hy₁ hy₂ (hdraws' _ _ _ _ _ hx₁ hy₁ hi₁) (hdraws' _ _ _ _ _ hx₂ hy₂ hi₂)
  · intro c₁ id hat
    obtain ⟨y, hy, hd, hrest⟩ := h.here c₁ id hat
    obtain ⟨x, hx, hle'⟩ := hfwd c₁ y hy
    exact ⟨x, hx, hd.mono hle', hrest⟩
  · intro c₁ id t held hpc
    obtain ⟨hslot, hfree⟩ := h.storing c₁ id t held hpc
    refine ⟨hslot, fun x hx => ?_⟩
    obtain ⟨y, hy, -, ⟨rfl, rfl, rfl⟩ | ⟨-, rfl⟩⟩ := hback c₁ x hx
    · exact hstore id t held hpc (hfree y hy).1 (hfree y hy).2
    · exact hfree y hy
  · intro c₁ id hpc x hx
    obtain ⟨y, hy, -, ⟨rfl, rfl, rfl⟩ | ⟨-, rfl⟩⟩ := hback c₁ x hx
    · exact howned id hpc (h.owned c₁ id hpc y hy)
    · exact h.owned c₁ id hpc y hy
  · intro c₁ id b hat hslot
    refine (h.sent c₁ id b hat hslot).imp_right fun hg x hx => ?_
    obtain ⟨y, hy, hle', -⟩ := hback c₁ x hx
    exact (hg y hy).mono hle'
  · intro r hr
    refine (h.done r hr).imp_right ?_
    rintro ⟨c₁, id, y, b, hl, hy, hd, hg, he⟩
    obtain ⟨x, hx, hle'⟩ := hfwd c₁ y hy
    exact ⟨c₁, id, x, b, hl, hx, hd.mono hle', hg.mono hle', he⟩

theorem CallInv.idle {conns : List Conn} {k : Nat} {call call' : Call} (h : CallInv conns k call)
    (hat : call'.pc.at = none) (hok : ∀ r, call'.pc ≠ .done (.ok r))
    (hatt : call'.attempts = call.attempts ∧ call.pc.drawn = false ∨ call.attempts < call'.attempts) :
    CallInv conns k call' := by
  refine ⟨?_, h.uniq, ?_, ?_, ?_, ?_, ?_⟩
  · intro c conn i a hc hi
    left
    rcases h.past c conn i a hc hi with hlt | ⟨rfl, -, hd⟩
    · omega
    · rcases hatt with ⟨-, hd'⟩ | hlt
      · simp [hd] at hd'
      · exact hlt
  · intro c id hat'
    simp [hat] at hat'
  · intro c id t held hpc
    simp [hpc, CallPc.at] at hat
  · intro c id hpc
    rcases hpc with hpc | hpc <;> simp [hpc, CallPc.at] at hat
  · intro c id b hat'
    simp [hat] at hat'
  · exact fun r hr => absurd hr (hok r)

theorem CallInv.keepAt {conns : List Conn} {k c : Nat} {call : Call} {id : UInt32} {pc : CallPc} {s : Slot}
    (h : CallInv conns k call) (hat : call.pc.at = some (c, id)) (hat' : pc.at = some (c, id))
    (hstoring : ∀ t held, pc = .store c id t held → s = .empty ∧ ∀ conn, conns[c]? = some conn →
      conn.demux.lookup id = none ∧ ∀ tok hdr f, conn.reader = .deliver tok hdr f → hdr.clrId ≠ id)
    (howned : (pc = .send c id ∨ pc = .await c id) → ∀ conn, conns[c]? = some conn →
      Owned conn id ⟨k, call.attempts⟩ s)
    (hsent : ∀ b, s = .sent b → b = [] ∨ ∀ conn, conns[c]? = some conn → Got conn id ⟨k, call.attempts⟩ b) :
    CallInv conns k { call with pc, slot := s } := by
  have hdrawn : pc.drawn = true := by
    cases pc <;> first | rfl | simp [CallPc.at] at hat'
  have hsame : ∀ c' id', pc.at = some (c', id') → c' = c ∧ id' = id := by
    intro c' id' hx
    simpa [eq_comm] using hat'.symm.trans hx
  refine { h with past := ?_, here := ?_, storing := ?_, owned := ?_, sent := ?_, done := ?_ }
  · intro c' x i a hx hi
    exact (h.past c' x i a hx hi).imp_right fun ⟨ha, hl, _⟩ => ⟨ha, hl, hdrawn⟩
  · intro c' id' hx
    exact h.here c' id' (hat.trans (hat'.symm.trans hx))
  · intro c' id' t held hpc
    obtain ⟨rfl, rfl⟩ := hsame c' id' (congrArg CallPc.at hpc)
    exact hstoring t held hpc
  · intro c' id' hpc
    obtain ⟨rfl, rfl⟩ := hsame c' id' (by rcases hpc with hpc | hpc <;> exact congrArg CallPc.at hpc)
    exact howned hpc
  · intro c' id' b hx hs
    obtain ⟨rfl, rfl⟩ := hsame c' id' hx
    exact hsent b hs
  · intro r hr
    have hr : pc = .done (.ok r) := hr
    simp [hr, CallPc.at] at hat'

theorem ConnInv.mono {n n' : Nat} {conn : Conn} (h : ConnInv n conn) (hn : n ≤ n') : ConnInv n' conn :=
  { h with draws_lt := fun tok ht => (h.draws_lt tok ht).trans_le hn }

theorem CallInv.setSlot {conns : List Conn} {k c : Nat} {call : Call} {id : UInt32} {s : Slot}
    (h : CallInv conns k call) (hpc : call.pc = .send c id ∨ call.pc = .await c id)
    (ho : ∀ conn, conns[c]? = some conn → Owned conn id ⟨k, call.attempts⟩ s)
    (hg : ∀ b, s = .sent b → b = [] ∨ ∀ conn, conns[c]? = some conn → Got conn id ⟨k, call.attempts⟩ b) :
    CallInv conns k { call with slot := s } := by
  have hat : call.pc.at = some (c, id) := by rcases hpc with hpc | hpc <;> rw [hpc] <;> rfl
  refine h.keepAt hat hat ?_ (fun _ => ho) hg
  intro t held hpc'
  rcases hpc with hpc | hpc <;> simp [hpc] at hpc'

/-! ### Steps -/

namespace MuxInv

variable {cfg : Config} {m m' : Mux} {c k : Nat} {conn conn' : Conn} {call : Call}

theorem init : MuxInv {} := ⟨by simp, by simp⟩

theorem conn_update (h : MuxInv m) (hc : m.conns[c]? = some conn) (hci : ConnInv m.calls.length conn')
    (hle : ConnLe conn conn') (hdraws : conn'.draws = conn.draws)
    (hstore : ∀ (k : Nat) (call : Call) id t held, m.calls[k]? = some call → call.pc = .store c id t held →
      conn.demux.lookup id = none → (∀ tok hdr f, conn.reader = .deliver tok hdr f → hdr.clrId ≠ id) →
      conn'.demux.lookup id = none ∧ ∀ tok hdr f, conn'.reader = .deliver tok hdr f → hdr.clrId ≠ id)
    (howned : ∀ (k : Nat) (call : Call) id, m.calls[k]? = some call →
      (call.pc = .send c id ∨ call.pc = .await c id) → Owned conn id ⟨k, call.attempts⟩ call.slot →
      Owned conn' id ⟨k, call.attempts⟩ call.slot) :
    MuxInv (m.setConn c conn') := by
  have hcs := Mux.setConn_conns (m := m) conn' (Mux.lt_of_conn hc)
  refine ⟨?_, ?_⟩
  · intro c' x hx
    rw [hcs] at hx
    split at hx
    · exact (Option.some.inj hx) ▸ hci
    · exact h.conns c' x hx
  · intro k call hk
    exact (h.calls k call hk).conn_update hc hcs hle (fun i a hi => hdraws ▸ hi)
      (fun id t held => hstore k call id t held hk) (fun id => howned k call id hk)

/-- The two connections agree on everything the invariant looks at. -/
structure Quiet (conn conn' : Conn) : Prop where
  draws : conn'.draws = conn.draws
  demux : conn'.demux = conn.demux
  received : conn'.received = conn.received
  delivered : conn'.delivered = conn.delivered
  deliver : ∀ tok hdr f, conn'.reader = .deliver tok hdr f ↔ conn.reader = .deliver tok hdr f
  lookup : ∀ hdr f held, conn'.reader = .lookup hdr f held → ∃ held', conn.reader = .lookup hdr f held'

theorem Quiet.drawnAt (h : Quiet conn conn') {id : UInt32} {tok : Tok} :
    DrawnAt conn' id tok ↔ DrawnAt conn id tok := by
  simp only [DrawnAt, h.draws]

theorem Quiet.pending (h : Quiet conn conn') {hdr : Header} {f : Bytes} :
    Pending conn' hdr f ↔ Pending conn hdr f := by
  simp only [Pending, h.received, h.delivered]

theorem quiet (h : MuxInv m) (hc : m.conns[c]? = some conn) (hq : Quiet conn conn') :
    MuxInv (m.setConn c conn') := by
  have hi := h.conns c conn hc
  refine h.conn_update hc ?_ ?_ hq.draws ?_ ?_
  · refine ⟨by rw [hq.draws]; exact hi.draws_lt, ?_, ?_, ?_, ?_, ?_, ?_⟩
    · intro id tok t hl
      rw [hq.demux] at hl
      exact hq.drawnAt.2 (hi.demux id tok t hl)
    · intro hdr f held hr
      obtain ⟨held', hr'⟩ := hq.lookup hdr f held hr
      exact hq.pending.2 (hi.lookup hdr f held' hr')
    · intro tok hdr f hr
      obtain ⟨hd, hp⟩ := hi.deliver tok hdr f ((hq.deliver tok hdr f).1 hr)
      exact ⟨hq.drawnAt.2 hd, hq.pending.2 hp⟩
    · rw [hq.received]; exact hi.received
    · rw [hq.received, hq.delivered]; exact hi.delivered_lt
    · rw [hq.delivered]; exact hi.delivered_inj
  · exact ⟨by rw [hq.draws], by rw [hq.received], by rw [hq.delivered]; exact fun _ he => he⟩
  · intro k call id t held _ _ hn hr
    rw [hq.demux]
    exact ⟨hn, fun tok hdr f hd => hr tok hdr f ((hq.deliver tok hdr f).1 hd)⟩
  · intro k call id _ _ ho
    rcases ho with ⟨hs, t, hl⟩ | ⟨hs, hdr, f, hr, hid⟩ | hs
    · exact .inl ⟨hs, t, by rw [hq.demux]; exact hl⟩
    · exact .inr (.inl ⟨hs, hdr, f, (hq.deliver _ hdr f).2 hr, hid⟩)
    · exact .inr (.inr hs)

theorem outgoing {buf : Bytes} {closed : Bool} {queue : List Bytes} {writer : WriterPc}
    {accepted : List (Tok × Bytes)} {emitted : Bytes} (h : MuxInv m) (hc : m.conns[c]? = some conn) :
    MuxInv (m.setConn c { conn with buf, closed, queue, writer, accepted, emitted }) :=
  h.quiet hc ⟨rfl, rfl, rfl, rfl, fun _ _ _ => Iff.rfl, fun _ _ held hl => ⟨held, hl⟩⟩

theorem call_update {call' : Call} (h : MuxInv m) (hk : m.calls[k]? = some call)
    (hci : CallInv m.conns k call') :
    MuxInv (m.setCall k call') := by
  have hcs := Mux.setCall_calls (m := m) call' (Mux.lt_of_call hk)
  refine ⟨fun c conn hc => (h.conns c conn hc).mono (by rw [Mux.length_setCall]), fun k' x hx => ?_⟩
  rw [hcs] at hx
  split at hx
  · subst ‹k = k'›
    exact (Option.some.inj hx) ▸ hci
  · exact h.calls k' x hx

theorem both {call' : Call} (h : MuxInv m) (hc : m.conns[c]? = some conn) (hk : m.calls[k]? = some call)
    (hci : ConnInv m.calls.length conn') (hcall : CallInv (m.setConn c conn').conns k call')
    (hothers : ∀ k' x, k' ≠ k → m.calls[k']? = some x → CallInv (m.setConn c conn').conns k' x) :
    MuxInv ((m.setConn c conn').setCall k call') := by
  have hcs := Mux.setConn_conns (m := m) conn' (Mux.lt_of_conn hc)
  have hks := Mux.setCall_calls (m := m.setConn c conn') call' (Mux.lt_of_call hk)
  refine ⟨fun c' x hx => ?_, fun k' x hx => ?_⟩
  · rw [Mux.length_setCall]
    rw [Mux.setCall_conns, hcs] at hx
    split at hx
    · exact (Option.some.inj hx) ▸ hci
    · exact h.conns c' x hx
  · rw [hks] at hx
    split at hx
    · subst ‹k = k'›
      exact (Option.some.inj hx) ▸ hcall
    · exact hothers k' x (Ne.symm ‹_›) hx

end MuxInv
end RzBridge

import RzBridge.Proofs.MuxInv

/-!
# Every step keeps the ownership invariant

One lemma for each operation that moves a sender or an id; the rest are `MuxInv.quiet`,
`MuxInv.outgoing` or `CallInv.idle`.
-/

namespace RzBridge
namespace MuxInv

variable {cfg : Config} {m m' : Mux} {c k n : Nat} {conn : Conn} {call : Call} {id : UInt32} {tok : Tok}
  {hdr : Header} {frame rest chunk : Bytes} {r : Option Nat}

/-! ### The read loop -/

theorem drain (h : MuxInv m) (hc : m.conns[c]? = some conn) (hr : conn.reader = .reading)
    (hd : drainStep conn.buf = .frame hdr frame rest) :
    MuxInv (m.setConn c
      { conn with
        buf := rest
        reader := .lookup hdr frame false
        received := conn.received ++ [(hdr, frame)] }) := by
  have hi := h.conns c conn hc
  refine h.conn_update hc { hi with lookup := ?_, deliver := ?_, received := ?_, delivered_lt := ?_ } ?_ rfl ?_ ?_
  · intro hdr' f held hl
    simp only [ReaderPc.lookup.injEq] at hl
    obtain ⟨rfl, rfl, -⟩ := hl
    exact ⟨by simp, fun e he => by simpa using hi.delivered_lt e he⟩
  · intro tok hdr' f hl
    cases hl
  · intro e he
    rcases List.mem_append.1 he with he | he
    · exact hi.received e he
    · rw [List.mem_singleton.1 he]
      exact (drainStep_eq_frame hd).2.1
  · intro e he
    have := hi.delivered_lt e he
    simp only [List.length_append, List.length_singleton]
    omega
  · exact ⟨List.prefix_refl _, List.prefix_append _ _, fun _ he => he⟩
  · intro k call id t held _ _ hn _
    exact ⟨hn, fun tok hdr' f hl => by cases hl⟩
  · intro k call id _ _ ho
    rcases ho with ho | ⟨-, hdr', f, hr', -⟩ | ho
    · exact .inl ho
    · rw [hr] at hr'; cases hr'
    · exact .inr (.inr ho)

theorem loadRemove {t : Nat} (h : MuxInv m) (hc : m.conns[c]? = some conn)
    (hr : conn.reader = .lookup hdr frame true) (hl : conn.demux.lookup hdr.clrId = some (tok, t)) :
    MuxInv (m.setConn c
      { conn with demux := conn.demux.erase hdr.clrId, reader := .deliver tok hdr frame }) := by
  have hi := h.conns c conn hc
  refine h.conn_update hc { hi with demux := ?_, lookup := ?_, deliver := ?_ } ?_ rfl ?_ ?_
  · intro id tok' t' hl'
    by_cases hid : id = hdr.clrId
    · subst hid
      simp at hl'
    · rw [AList.lookup_erase_ne hid] at hl'
      exact hi.demux id tok' t' hl'
  · intro hdr' f held hl'
    cases hl'
  · intro tok' hdr' f hl'
    simp only [ReaderPc.deliver.injEq] at hl'
    obtain ⟨rfl, rfl, rfl⟩ := hl'
    exact ⟨hi.demux _ _ _ hl, hi.lookup _ _ _ hr⟩
  · exact ⟨List.prefix_refl _, List.prefix_refl _, fun _ he => he⟩
  · intro k call id t' held _ _ hn _
    -- the id removed was registered, the call's is not
    have hid : id ≠ hdr.clrId := by
      rintro rfl
      rw [hn] at hl
      cases hl
    refine ⟨by rw [AList.lookup_erase_ne hid]; exact hn, fun tok' hdr' f hl' => ?_⟩
    simp only [ReaderPc.deliver.injEq] at hl'
    obtain ⟨-, rfl, -⟩ := hl'
    exact Ne.symm hid
  · intro k call id _ _ ho
    rcases ho with ⟨hs, t', ht'⟩ | ⟨-, hdr', f, hr', -⟩ | ho
    · by_cases hid : id = hdr.clrId
      · subst hid
        rw [hl] at ht'
        simp only [Option.some.injEq, Prod.mk.injEq] at ht'
        exact .inr (.inl ⟨hs, hdr, frame, by rw [ht'.1], rfl⟩)
      · exact .inl ⟨hs, t', by rw [AList.lookup_erase_ne hid]; exact ht'⟩
    · rw [hr] at hr'; cases hr'
    · exact .inr (.inr ho)

theorem fill {conn' : Conn} {b : Bytes} (h : MuxInv m) (hc : m.conns[c]? = some conn)
    (hci : ConnInv m.calls.length conn') (hle : ConnLe conn conn') (hdraws : conn'.draws = conn.draws)
    (hd : DrawnAt conn id tok)
    (hout : ∀ (k : Nat) (call : Call) (t : Nat) (held : Bool), m.calls[k]? = some call →
      call.pc = .store c id t held → tok ≠ ⟨k, call.attempts⟩)
    (hstore : ∀ id', conn.demux.lookup id' = none → conn'.demux.lookup id' = none)
    (hreader : ∀ tok hdr f, conn'.reader = .deliver tok hdr f → conn.reader = .deliver tok hdr f)
    (howned : ∀ (id' : UInt32) (tok' : Tok), tok' ≠ tok → Owned conn id' tok' .empty →
      Owned conn' id' tok' .empty)
    (hgot : b = [] ∨ Got conn' id tok b) :
    MuxInv ((m.setConn c conn').sendSender tok b) := by
  have hcs := Mux.setConn_conns (m := m) conn' (Mux.lt_of_conn hc)
  refine ⟨fun c' x hx => ?_, fun k x hx => ?_⟩
  · rw [Mux.sendSender, Mux.length_fillSlot]
    rw [Mux.sendSender, Mux.fillSlot_conns, hcs] at hx
    split at hx
    · exact (Option.some.inj hx) ▸ hci
    · exact h.conns c' x hx
  · rw [Mux.sendSender, Mux.fillSlot_calls, Mux.setConn_calls, Option.map_eq_some_iff] at hx
    obtain ⟨call, hk, rfl⟩ := hx
    have hcall := h.calls k call hk
    rw [Mux.sendSender, Mux.fillSlot_conns]
    have hstore' : ∀ id' t held, call.pc = .store c id' t held → conn.demux.lookup id' = none →
        (∀ tok hdr f, conn.reader = .deliver tok hdr f → hdr.clrId ≠ id') →
        conn'.demux.lookup id' = none ∧ ∀ tok hdr f, conn'.reader = .deliver tok hdr f → hdr.clrId ≠ id' :=
      fun id' _ _ _ hn hr => ⟨hstore id' hn, fun tok hdr f hrd => hr tok hdr f (hreader tok hdr f hrd)⟩
    have hdraws' : ∀ (i a : Nat), conn'.draws[i]? = some ⟨k, a⟩ → conn.draws[i]? = some ⟨k, a⟩ :=
      fun i a hi => hdraws ▸ hi
    by_cases htok : tok = ⟨k, call.attempts⟩ ∧ call.pc.listening = true
    · obtain ⟨rfl, hlis⟩ := htok
      rw [Mux.fillCall_self hlis]
      -- the call is at the connection, past `store`
      obtain ⟨c', id', hat⟩ : ∃ c' id', call.pc.at = some (c', id') := by
        cases hpc : call.pc <;> simp [hpc, CallPc.listening] at hlis <;> exact ⟨_, _, rfl⟩
      obtain ⟨rfl, rfl⟩ := hcall.at_eq hat hc hd
      have hpc : call.pc = .send c id ∨ call.pc = .await c id := by
        cases hpc : call.pc with
        | store c₁ id₁ t held =>
          rw [hpc] at hat
          simp only [CallPc.at, Option.some.injEq, Prod.mk.injEq] at hat
          obtain ⟨rfl, rfl⟩ := hat
          exact absurd rfl (hout k call t held hk hpc)
        | send c₁ id₁ => rw [hpc] at hat; simpa [CallPc.at] using hat
        | await c₁ id₁ => rw [hpc] at hat; simpa [CallPc.at] using hat
        | _ => simp [hpc, CallPc.listening] at hlis
      have h1 := hcall.setSlot (s := .sent []) hpc (fun _ _ => .inr (.inr ⟨[], rfl⟩))
        (fun b hb => .inl (by simpa using hb.symm))
      have h2 := h1.conn_update hc hcs hle hdraws' (fun id' t held hpc' => hstore' id' t held hpc')
        (fun _ _ _ => .inr (.inr ⟨[], rfl⟩))
      refine h2.setSlot hpc (fun _ _ => .inr (.inr ⟨b, rfl⟩)) fun b' hb' => ?_
      simp only [Slot.sent.injEq] at hb'
      subst hb'
      refine hgot.imp_right fun hg x hx => ?_
      rw [hcs, if_pos rfl] at hx
      exact (Option.some.inj hx) ▸ hg
    · have hsame : Mux.fillCall tok (.sent b) k call = call := by
        by_cases hlis : call.pc.listening = true
        · exact Mux.fillCall_of_ne fun ht => htok ⟨ht, hlis⟩
        · exact Mux.fillCall_of_not_listening (by simpa using hlis)
      rw [hsame]
      refine hcall.conn_update hc hcs hle hdraws' hstore' fun id' hpc ho => ?_
      have hlis : call.pc.listening = true := by rcases hpc with hpc | hpc <;> rw [hpc] <;> rfl
      have hne : (⟨k, call.attempts⟩ : Tok) ≠ tok := fun ht => htok ⟨ht.symm, hlis⟩
      by_cases hs : call.slot = .empty
      · rw [hs] at ho ⊢
        exact howned id' _ hne ho
      · rcases ho with ⟨hs', -⟩ | ⟨hs', -⟩ | ho
        · exact absurd hs' hs
        · exact absurd hs' hs
        · exact .inr (.inr ho)

theorem deliver {closed : Bool} {reader : ReaderPc} (h : MuxInv m) (hc : m.conns[c]? = some conn)
    (hr : conn.reader = .deliver tok hdr frame) (hrd : reader = .stop ∨ reader = .reading) :
    MuxInv ((m.setConn c
      { conn with
        delivered := conn.delivered ++ [(conn.received.length - 1, tok)]
        closed := closed
        reader := reader }).sendSender tok frame) := by
  have hi := h.conns c conn hc
  obtain ⟨hd, hlast, hpend⟩ := hi.deliver tok hdr frame hr
  have hnd : ∀ tok hdr f, reader ≠ .deliver tok hdr f := by rcases hrd with rfl | rfl <;> simp
  have hnl : ∀ hdr f held, reader ≠ .lookup hdr f held := by rcases hrd with rfl | rfl <;> simp
  have hget : conn.received[conn.received.length - 1]? = some (hdr, frame) := by
    rw [← List.getLast?_eq_getElem?, hlast]
  have hpos : conn.received.length - 1 < conn.received.length := (List.getElem?_eq_some_iff.1 hget).1
  refine h.fill hc
    { hi with
      lookup := fun hdr f held hl => absurd hl (hnl hdr f held)
      deliver := fun tok hdr f hl => absurd hl (hnd tok hdr f)
      delivered_lt := ?_
      delivered_inj := ?_ } ?_ rfl hd ?_ (fun _ hn => hn) (fun tok hdr f hl => absurd hl (hnd tok hdr f)) ?_ ?_
  · intro e he
    rcases List.mem_append.1 he with he | he
    · exact hi.delivered_lt e he
    · rw [List.mem_singleton.1 he]
      exact hpos
  · intro e he e' he' hee
    rcases List.mem_append.1 he with he | he <;> rcases List.mem_append.1 he' with he' | he'
    · exact hi.delivered_inj e he e' he' hee
    · have := hpend e he
      rw [List.mem_singleton.1 he'] at hee
      simp only at hee
      omega
    · have := hpend e' he'
      rw [List.mem_singleton.1 he] at hee
      simp only at hee
      omega
    · rw [List.mem_singleton.1 he, List.mem_singleton.1 he']
  · exact ⟨List.prefix_refl _, List.prefix_refl _, fun e he => List.mem_append_left _ he⟩
  · rintro k call t held hk hpc rfl
    exact ((h.calls k call hk).storing c hdr.clrId t held hpc).2 conn hc |>.2 _ _ _ hr rfl
  · intro id' tok' hne ho
    rcases ho with ho | ⟨-, hdr', f, hr', -⟩ | ho
    · exact .inl ho
    · rw [hr] at hr'
      simp only [ReaderPc.deliver.injEq] at hr'
      exact absurd hr'.1.symm hne
    · exact .inr (.inr ho)
  · exact .inr ⟨_, hdr, hget, rfl, by simp⟩

/-! ### Cleanup and deallocation -/

theorem expire (h : MuxInv m) (c : Nat) (id : UInt32) : MuxInv (expire m c id) := by
  unfold RzBridge.expire
  split
  · exact h
  next conn hc =>
    split
    next tok t hl =>
      have hi := h.conns c conn hc
      have hd := hi.demux id tok t hl
      refine h.fill hc { hi with demux := ?_ } ?_ rfl hd ?_ ?_ (fun _ _ _ hr => hr) ?_ (.inl rfl)
      · intro id' tok' t' hl'
        by_cases hid : id' = id
        · subst hid
          simp at hl'
        · rw [AList.lookup_erase_ne hid] at hl'
          exact hi.demux id' tok' t' hl'
      · exact ⟨List.prefix_refl _, List.prefix_refl _, fun _ he => he⟩
      · intro k call t' held hk hpc _
        have hn := ((h.calls k call hk).storing c id t' held hpc).2 conn hc |>.1
        rw [hl] at hn
        cases hn
      · intro id' hn
        by_cases hid : id' = id
        · subst hid
          simp
        · rw [AList.lookup_erase_ne hid]
          exact hn
      · intro id' tok' hne ho
        rcases ho with ⟨hs, t', hl'⟩ | ho | ho
        · have hid : id' ≠ id := by
            rintro rfl
            rw [hl] at hl'
            simp only [Option.some.injEq, Prod.mk.injEq] at hl'
            exact hne hl'.1.symm
          exact .inl ⟨hs, t', by rw [AList.lookup_erase_ne hid]; exact hl'⟩
        · exact .inr (.inl ho)
        · exact .inr (.inr ho)
    next => exact h

theorem cleanup (h : MuxInv m) (c start age : Nat) : MuxInv (demuxCleanup m c start age) := by
  unfold demuxCleanup
  split
  · exact h
  next conn hc =>
    generalize timedOut conn.demux start age = ids
    clear hc
    induction ids generalizing m with
    | nil => exact h
    | cons id ids ih => exact ih (h.expire c id)

theorem free (h : MuxInv m) (hc : m.conns[c]? = some conn)
    (hcalls : ∀ call ∈ m.calls, call.pc.conn ≠ some c) :
    MuxInv ((conn.demux.entries.map (·.2.1)).foldl Mux.dropSender
      (m.setConn c { conn with demux := ∅ })) := by
  have hi := h.conns c conn hc
  set m₀ := m.setConn c { conn with demux := ∅ } with hm₀
  have hconn : MuxInv m₀ := by
    refine h.conn_update hc { hi with demux := ?_ } ?_ rfl ?_ ?_
    · intro id tok t hl
      simp at hl
    · exact ⟨List.prefix_refl _, List.prefix_refl _, fun _ he => he⟩
    · intro k call id t held hk hpc _ _
      exact absurd (by rw [hpc]; rfl) (hcalls call (List.mem_of_getElem? hk))
    · intro k call id hk hpc _
      refine absurd ?_ (hcalls call (List.mem_of_getElem? hk))
      rcases hpc with hpc | hpc <;> rw [hpc] <;> rfl
  have hsame : ∀ tok id, DrawnAt conn id tok → m₀.dropSender tok = m₀ := by
    intro tok id hd
    have hcl : (m₀.dropSender tok).calls = m₀.calls := by
      refine List.ext_getElem? fun k => ?_
      rw [Mux.dropSender, Mux.fillSlot_calls]
      cases hk : m₀.calls[k]? with
      | none => rfl
      | some call =>
        rw [Option.map_some]
        congr 1
        by_cases hlis : call.pc.listening = true
        · refine Mux.fillCall_of_ne ?_
          rintro rfl
          -- such a call would hold a handle of `c`
          obtain ⟨c', id', hat⟩ : ∃ c' id', call.pc.at = some (c', id') := by
            cases hpc : call.pc <;> simp [hpc, CallPc.listening] at hlis <;> exact ⟨_, _, rfl⟩
          obtain ⟨rfl, -⟩ := (h.calls k call hk).at_eq hat hc hd
          refine hcalls call (List.mem_of_getElem? hk) ?_
          cases hpc : call.pc <;> simp_all [CallPc.at, CallPc.conn]
        · exact Mux.fillCall_of_not_listening (by simpa using hlis)
    calc m₀.dropSender tok = { m₀ with calls := (m₀.dropSender tok).calls } := rfl
      _ = m₀ := by rw [hcl]
  have hdrop : ∀ toks : List Tok, (∀ tok ∈ toks, ∃ id, DrawnAt conn id tok) →
      toks.foldl Mux.dropSender m₀ = m₀ := by
    intro toks
    induction toks with
    | nil => intro _; rfl
    | cons tok toks ih =>
      intro ht
      obtain ⟨id, hd⟩ := ht tok (by simp)
      rw [List.foldl_cons, hsame tok id hd]
      exact ih fun tok' ht' => ht tok' (by simp [ht'])
  rw [hdrop]
  · exact hconn
  · intro tok ht
    obtain ⟨⟨id, tok', t⟩, he, rfl⟩ := List.mem_map.1 ht
    exact ⟨id, hi.demux id tok' t (AList.mem_lookup_iff.2 he)⟩

/-! ### New calls and connections -/

theorem spawn (h : MuxInv m) (w : Bool) (f : Bytes) :
    MuxInv { m with calls := m.calls ++ [{ isWrite := w, shardFrame := f, frame := f }] } := by
  refine ⟨fun c conn hc => (h.conns c conn hc).mono (by simp), fun k x hx => ?_⟩
  · rcases getElem?_snoc hx with hx | ⟨rfl, rfl⟩
    · exact h.calls k x hx
    · have hno : ∀ (c : Nat) (conn : Conn) (i a : Nat), m.conns[c]? = some conn →
          conn.draws[i]? ≠ some ⟨m.calls.length, a⟩ := fun c conn i a hc hi =>
        absurd ((h.conns c conn hc).draws_lt _ (List.mem_of_getElem? hi)) (Nat.lt_irrefl _)
      refine ⟨?_, ?_, ?_, ?_, ?_, ?_, ?_⟩
      · exact fun c conn i a hc hi => absurd hi (hno c conn i a hc)
      · exact fun c _ conn _ i _ a hc _ hi => absurd hi (hno c conn i a hc)
      all_goals simp [CallPc.at]

theorem connect (h : MuxInv m) (host : String) :
    MuxInv { m with conns := m.conns ++ [{ addr := host }] } := by
  have hfwd : ∀ (c : Nat) (x : Conn), m.conns[c]? = some x → (m.conns ++ [{ addr := host }])[c]? = some x :=
    fun c x hx => by rw [List.getElem?_append_left (Mux.lt_of_conn hx), hx]
  refine ⟨fun c x hx => ?_, fun k call hk => ?_⟩
  · rcases getElem?_snoc hx with hx | ⟨-, rfl⟩
    · exact h.conns c x hx
    · constructor <;> simp
  · have hcall := h.calls k call hk
    -- a call in flight is at a connection that existed before
    have hold : ∀ c id, call.pc.at = some (c, id) → ∀ x, (m.conns ++ [{ addr := host }])[c]? = some x →
        m.conns[c]? = some x := by
      intro c id hat x hx
      obtain ⟨y, hy, -⟩ := hcall.here c id hat
      rw [hfwd c y hy] at hx
      rw [hy, hx]
    refine ⟨?_, ?_, ?_, ?_, ?_, ?_, ?_⟩
    · intro c x i a hx hi
      rcases getElem?_snoc hx with hx | ⟨-, rfl⟩
      · exact hcall.past c x i a hx hi
      · simp at hi
    · intro c c' x x' i i' a hx hx' hi hi'
      rcases getElem?_snoc hx with hx | ⟨-, rfl⟩
      · rcases getElem?_snoc hx' with hx' | ⟨-, rfl⟩
        · exact hcall.uniq c c' x x' i i' a hx hx' hi hi'
        · simp at hi'
      · simp at hi
    · intro c id hat
      obtain ⟨y, hy, hrest⟩ := hcall.here c id hat
      exact ⟨y, hfwd c y hy, hrest⟩
    · intro c id t held hpc
      obtain ⟨hslot, hfree⟩ := hcall.storing c id t held hpc
      exact ⟨hslot, fun x hx => hfree x (hold c id (by rw [hpc]; rfl) x hx)⟩
    · intro c id hpc x hx
      refine hcall.owned c id hpc x (hold c id ?_ x hx)
      rcases hpc with hpc | hpc <;> rw [hpc] <;> rfl
    · intro c id b hat hs
      exact (hcall.sent c id b hat hs).imp_right fun hg x hx => hg x (hold c id hat x hx)
    · intro r hr
      refine (hcall.done r hr).imp_right ?_
      rintro ⟨c, id, y, b, hl, hy, hrest⟩
      exact ⟨c, id, y, b, hl, hfwd c y hy, hrest⟩

/-! ### The calls -/

theorem fresh_corrId {tok : Tok} (hcorr : conn.corrId = drawId conn.draws.length)
    (hb : conn.draws.length + 1 < 2 ^ 32) (hd : DrawnAt conn id tok) : id ≠ conn.corrId := by
  obtain ⟨i, hi, rfl⟩ := hd
  have hlt := (List.getElem?_eq_some_iff.1 hi).1
  intro he
  rw [hcorr] at he
  have := drawId_inj (by omega) hb he
  omega

theorem attempt_lt {conns : List Conn} (h : CallInv conns k call) (hpc : call.pc = .draw c) (c' i a : Nat)
    (x : Conn) (hx : conns[c']? = some x) (hi : x.draws[i]? = some ⟨k, a⟩) : a < call.attempts := by
  rcases h.past c' x i a hx hi with hlt | ⟨-, -, hd⟩
  · exact hlt
  · simp [hpc, CallPc.drawn, CallPc.listening] at hd

/-- A connection on which `tok` has drawn the next id. -/
def drawn (conn : Conn) (tok : Tok) : Conn :=
  { conn with corrId := conn.corrId + 1, draws := conn.draws ++ [tok] }

theorem connLe_drawn (conn : Conn) (tok : Tok) : ConnLe conn (drawn conn tok) :=
  ⟨List.prefix_append _ _, List.prefix_refl _, fun _ he => he⟩

theorem connInv_drawn {tok : Tok} (h : ConnInv n conn) (ht : tok.call < n) : ConnInv n (drawn conn tok) := by
  refine { h with draws_lt := ?_, demux := ?_, deliver := ?_ }
  · intro tok' ht'
    rcases List.mem_append.1 ht' with ht' | ht'
    · exact h.draws_lt tok' ht'
    · rw [List.mem_singleton.1 ht']
      exact ht
  · exact fun id tok' t hl => (h.demux id tok' t hl).mono (connLe_drawn conn tok)
  · intro tok' hdr f hr
    exact ⟨(h.deliver tok' hdr f hr).1.mono (connLe_drawn conn tok), (h.deliver tok' hdr f hr).2⟩

theorem draw_cases {conns conns' : List Conn} {c' i a : Nat} {x : Conn} (hc : conns[c]? = some conn)
    (hcs : ∀ c', conns'[c']? = if c = c' then some (drawn conn ⟨k, call.attempts⟩) else conns[c']?)
    (hx : conns'[c']? = some x) (hi : x.draws[i]? = some ⟨k, a⟩) :
    (∃ y, conns[c']? = some y ∧ y.draws[i]? = some ⟨k, a⟩) ∨ c' = c ∧ i = conn.draws.length ∧
      a = call.attempts := by
  rw [hcs] at hx
  split at hx
  · subst ‹c = c'›
    cases Option.some.inj hx
    rcases getElem?_snoc hi with hi | ⟨hie, he⟩
    · exact .inl ⟨conn, hc, hi⟩
    · exact .inr ⟨rfl, hie, congrArg Tok.attempt he⟩
  · exact .inl ⟨x, hx, hi⟩

theorem callInv_drawn {conns conns' : List Conn} {now : Nat} (hcall : CallInv conns k call)
    (hi : ConnInv n conn) (hcorr : conn.corrId = drawId conn.draws.length)
    (hb : conn.draws.length + 1 < 2 ^ 32) (hpc : call.pc = .draw c) (hc : conns[c]? = some conn)
    (hcs : ∀ c', conns'[c']? = if c = c' then some (drawn conn ⟨k, call.attempts⟩) else conns[c']?) :
    CallInv conns' k
      { call with
        frame := setClrid conn.corrId call.frame
        slot := .empty
        last := some (c, conn.corrId)
        pc := .store c conn.corrId now false } := by
  have hcc : conns'[c]? = some (drawn conn ⟨k, call.attempts⟩) := by rw [hcs, if_pos rfl]
  refine ⟨?_, ?_, ?_, ?_, ?_, ?_, ?_⟩
  · intro c' x i a hx hi'
    rcases draw_cases hc hcs hx hi' with ⟨y, hy, hd⟩ | ⟨rfl, rfl, ha⟩
    · exact .inl (attempt_lt hcall hpc c' i a y hy hd)
    · exact .inr ⟨ha, by rw [hcorr], rfl⟩
  · -- two draws of one attempt: both old, both new, or one old and one new, which have different attempts
    intro c₁ c₂ x₁ x₂ i₁ i₂ a hx₁ hx₂ hi₁ hi₂
    rcases draw_cases hc hcs hx₁ hi₁ with ⟨y₁, hy₁, hd₁⟩ | ⟨rfl, rfl, ha⟩
    · rcases draw_cases hc hcs hx₂ hi₂ with ⟨y₂, hy₂, hd₂⟩ | ⟨-, -, ha⟩
      · exact hcall.uniq c₁ c₂ y₁ y₂ i₁ i₂ a hy₁ hy₂ hd₁ hd₂
      · have := attempt_lt hcall hpc c₁ i₁ a y₁ hy₁ hd₁
        omega
    · rcases draw_cases hc hcs hx₂ hi₂ with ⟨y₂, hy₂, hd₂⟩ | ⟨rfl, rfl, -⟩
      · have := attempt_lt hcall hpc c₂ i₂ a y₂ hy₂ hd₂
        omega
      · exact ⟨rfl, rfl⟩
  · intro c' id hat
    simp only [CallPc.at, Option.some.injEq, Prod.mk.injEq] at hat
    obtain ⟨rfl, rfl⟩ := hat
    exact ⟨_, hcc, ⟨conn.draws.length, by simp [drawn], hcorr⟩, rfl⟩
  · intro c' id t held hpc'
    simp only [CallPc.store.injEq] at hpc'
    obtain ⟨rfl, rfl, -, -⟩ := hpc'
    refine ⟨rfl, fun x hx => ?_⟩
    obtain rfl := Option.some.inj (hcc.symm.trans hx)
    refine ⟨?_, fun tok hdr f hr => fresh_corrId hcorr hb (hi.deliver tok hdr f hr).1⟩
    cases hl : conn.demux.lookup conn.corrId with
    | none => exact hl
    | some e => exact absurd rfl (fresh_corrId hcorr hb (hi.demux _ e.1 e.2 hl))
  · intro c' id hpc'
    rcases hpc' with hpc' | hpc' <;> cases hpc'
  · intro c' id b _ hs
    cases hs
  · intro r hr
    cases hr

theorem draw (h : MuxInv m) (hcorr : conn.corrId = drawId conn.draws.length)
    (hb : conn.draws.length + 1 < 2 ^ 32) (hk : m.calls[k]? = some call) (hpc : call.pc = .draw c)
    (hc : m.conns[c]? = some conn) :
    MuxInv ((m.setConn c
        { conn with corrId := conn.corrId + 1, draws := conn.draws ++ [⟨k, call.attempts⟩] }).setCall k
      { call with
        frame := setClrid conn.corrId call.frame
        slot := .empty
        last := some (c, conn.corrId)
        pc := .store c conn.corrId m.now false }) := by
  have hi := h.conns c conn hc
  have hcs := Mux.setConn_conns (m := m) (drawn conn ⟨k, call.attempts⟩) (Mux.lt_of_conn hc)
  refine h.both hc hk (connInv_drawn hi (Mux.lt_of_call hk))
    (callInv_drawn (h.calls k call hk) hi hcorr hb hpc hc hcs) ?_
  intro k' x hne hx
  refine (h.calls k' x hx).conn_update hc hcs (connLe_drawn _ _) ?_
    (fun _ _ _ _ hn hr => ⟨hn, hr⟩) (fun _ _ ho => ho)
  intro i a hi'
  rcases getElem?_snoc hi' with hi' | ⟨-, he⟩
  · exact hi'
  · exact absurd (congrArg Tok.call he) hne

theorem lockStore {t : Nat} (h : MuxInv m) (hk : m.calls[k]? = some call)
    (hpc : call.pc = .store c id t false) :
    MuxInv (m.setCall k { call with pc := .store c id t true }) := by
  have hcall := h.calls k call hk
  have hat : call.pc.at = some (c, id) := by rw [hpc]; rfl
  refine h.call_update hk (hcall.keepAt hat rfl (fun _ _ _ => hcall.storing c id t false hpc) ?_
    (hcall.sent c id · hat))
  rintro (hpc' | hpc') <;> cases hpc'

/-- The sender goes into the map; no sender was registered under the id. -/
theorem store {t : Nat} (h : MuxInv m) (hb : conn.draws.length < 2 ^ 32) (hk : m.calls[k]? = some call)
    (hpc : call.pc = .store c id t true) (hc : m.conns[c]? = some conn) :
    MuxInv (demuxStore (m.setCall k { call with pc := .send c id }) c conn id ⟨k, call.attempts⟩ t) := by
  have hi := h.conns c conn hc
  have hcall := h.calls k call hk
  have hat : call.pc.at = some (c, id) := by rw [hpc]; rfl
  obtain ⟨hslot, hfree⟩ := hcall.storing c id t true hpc
  obtain ⟨hnone, hreader⟩ := hfree conn hc
  obtain ⟨y, hy, hd, -⟩ := hcall.here c id hat
  rw [hc] at hy
  cases Option.some.inj hy
  set conn' : Conn := { conn with demux := conn.demux.insert id (⟨k, call.attempts⟩, t) } with hconn'
  have hm : demuxStore (m.setCall k { call with pc := .send c id }) c conn id ⟨k, call.attempts⟩ t =
      (m.setConn c conn').setCall k { call with pc := .send c id } := by
    simp only [demuxStore, hnone]
    rfl
  have hle : ConnLe conn conn' := ⟨List.prefix_refl _, List.prefix_refl _, fun _ he => he⟩
  have hcs := Mux.setConn_conns (m := m) conn' (Mux.lt_of_conn hc)
  rw [hm]
  refine h.both hc hk { hi with demux := ?_ } ?_ ?_
  · intro id' tok' t' hl
    by_cases hid : id' = id
    · subst hid
      rw [AList.lookup_insert] at hl
      simp only [Option.some.injEq, Prod.mk.injEq] at hl
      exact hl.1 ▸ hd
    · rw [AList.lookup_insert_ne hid] at hl
      exact hi.demux id' tok' t' hl
  · -- as if the channel were spent until the sender is in the map
    have h1 : CallInv m.conns k { call with pc := .send c id, slot := .sent [] } :=
      hcall.keepAt hat rfl (fun _ _ hpc' => by cases hpc') (fun _ _ _ => .inr (.inr ⟨[], rfl⟩))
        fun b hs => .inl (by simpa using hs.symm)
    have h2 := h1.conn_update hc hcs hle (fun _ _ hi' => hi') (fun _ _ _ hpc' => by cases hpc')
      (fun _ _ _ => .inr (.inr ⟨[], rfl⟩))
    have h3 := h2.setSlot (s := .empty) (.inl rfl) (fun x hx => ?_) (fun b hb => by cases hb)
    · have he : ({ call with pc := .send c id } : Call) = { call with pc := .send c id, slot := .empty } := by
        rw [← hslot]
      rw [he]
      exact h3
    · rw [hcs, if_pos rfl] at hx
      cases Option.some.inj hx
      exact .inl ⟨rfl, t, AList.lookup_insert _⟩
  · intro k' x hne hx
    refine (h.calls k' x hx).conn_update hc hcs hle (fun _ _ hi' => hi') ?_ ?_
    · intro id' t' held hpc' hn hr
      refine ⟨?_, hr⟩
      have hid : id' ≠ id := by
        -- else two calls would have drawn one id here
        rintro rfl
        obtain ⟨y, hy, hd', -⟩ := (h.calls k' x hx).here c id' (by rw [hpc']; rfl)
        rw [hc] at hy
        cases Option.some.inj hy
        exact hne (congrArg Tok.call (hd'.tok_eq hb hd))
      rw [AList.lookup_insert_ne hid]
      exact hn
    · intro id' hpc' ho
      rcases ho with ⟨hs, t', hl⟩ | ho | ho
      · have hid : id' ≠ id := by
          rintro rfl
          rw [hnone] at hl
          cases hl
        exact .inl ⟨hs, t', by rw [AList.lookup_insert_ne hid]; exact hl⟩
      · exact .inr (.inl ho)
      · exact .inr (.inr ho)

theorem send (h : MuxInv m) (hk : m.calls[k]? = some call) (hpc : call.pc = .send c id)
    (hc : m.conns[c]? = some conn) :
    MuxInv ((m.setConn c
        { conn with
          queue := conn.queue ++ [call.frame]
          accepted := conn.accepted ++ [(⟨k, call.attempts⟩, call.frame)] }).setCall k
      { call with pc := .await c id }) := by
  have h' : MuxInv (m.setConn c
      { conn with
        queue := conn.queue ++ [call.frame]
        accepted := conn.accepted ++ [(⟨k, call.attempts⟩, call.frame)] }) := h.outgoing hc
  have hcall := h'.calls k call hk
  have hat : call.pc.at = some (c, id) := by rw [hpc]; rfl
  refine h'.call_update hk (hcall.keepAt hat rfl ?_ (fun _ => hcall.owned c id (.inl hpc))
    (hcall.sent c id · hat))
  intro t held hpc'
  cases hpc'

theorem receive {b : Bytes} (h : MuxInv m) (hk : m.calls[k]? = some call) (hpc : call.pc = .await c id)
    (hs : call.slot = .sent b) :
    MuxInv (m.setCall k { call with pc := .done (.ok (Call.answer call b)) }) := by
  have hcall := h.calls k call hk
  have hat : call.pc.at = some (c, id) := by rw [hpc]; rfl
  refine h.call_update hk
    { hcall with past := ?_, here := ?_, storing := ?_, owned := ?_, sent := ?_, done := ?_ }
  · intro c' x i a hx hi
    exact (hcall.past c' x i a hx hi).imp_right fun ⟨ha, hl, _⟩ => ⟨ha, hl, rfl⟩
  · intro c' id' hat'
    cases hat'
  · intro c' id' t' held hpc'
    cases hpc'
  · intro c' id' hpc'
    rcases hpc' with hpc' | hpc' <;> cases hpc'
  · intro c' id' b' hat'
    cases hat'
  · intro r hr
    simp only [CallPc.done.injEq, Except.ok.injEq] at hr
    subst hr
    rcases hcall.sent c id b hat hs with rfl | hg
    · exact .inl rfl
    · obtain ⟨conn, hc, hd, hl⟩ := hcall.here c id hat
      obtain ⟨idx, hdr, hr, hid, hdel⟩ := hg conn hc
      obtain ⟨payload, -, hf⟩ := (h.conns c conn hc).received _ (List.mem_of_getElem? hr)
      have h9 : b.length ≥ 9 := by
        have := congrArg List.length hf
        rw [length_prependHeader] at this
        simp only at this
        omega
      exact .inr ⟨c, id, conn, b, hl, hc, hd, ⟨idx, hdr, hr, hid, hdel⟩, if_pos h9⟩

/-- A call awaiting its channel never finds it closed. -/
theorem not_dropped (h : MuxInv m) (hk : m.calls[k]? = some call) (hpc : call.pc = .await c id) :
    call.slot ≠ .dropped := by
  intro hs
  have hcall := h.calls k call hk
  obtain ⟨conn, hc, -⟩ := hcall.here c id (by rw [hpc]; rfl)
  rcases hcall.owned c id (.inr hpc) conn hc with ⟨hs', -⟩ | ⟨hs', -⟩ | ⟨b, hs'⟩ <;> rw [hs] at hs' <;> cases hs'

theorem retry {e : RZError} (h : MuxInv m) (hk : m.calls[k]? = some call) :
    MuxInv (m.setCall k (call.retry e)) := by
  have hpc : (call.retry e).pc = .done (.error e) ∨ (call.retry e).pc = .sleep := by
    simp only [Call.retry]
    split <;> simp
  refine h.call_update hk ((h.calls k call hk).idle ?_ ?_ (.inr (Nat.lt_succ_self _)))
  · rcases hpc with hpc | hpc <;> rw [hpc] <;> rfl
  · intro r
    rcases hpc with hpc | hpc <;> rw [hpc] <;> simp

/-! ### All steps -/

theorem step {l : MuxLabel} (h : MuxInv m) (hf : FrameInv m) (hb : m'.Bounded) (hs : m.step cfg l = some m') :
    MuxInv m' := by
  cases l with
  | spawn w f => exact (Option.some.inj hs) ▸ h.spawn w f
  | start k =>
    obtain ⟨call, hk, hpc, ⟨-, rfl⟩ | ⟨hok, rfl⟩⟩ := Mux.callStart_some hs
    · exact h.call_update hk ((h.calls k call hk).idle rfl (by simp) (.inl ⟨rfl, by rw [hpc]; rfl⟩))
    · exact h.call_update hk ((h.calls k call hk).idle rfl (by simp) (.inl ⟨rfl, by rw [hpc]; rfl⟩))
  | selected k r =>
    obtain ⟨call, hk, hpc, rfl | ⟨c, conn, -, -, -, rfl⟩⟩ := Mux.callSelected_some hs
    · exact h.retry hk
    · exact h.call_update hk ((h.calls k call hk).idle rfl (by simp) (.inl ⟨rfl, by rw [hpc]; rfl⟩))
  | draw k =>
    obtain ⟨call, c, conn, hk, hpc, hc, rfl⟩ := Mux.callDraw_some hs
    refine h.draw (hf.conns c conn hc).corr ?_ hk hpc hc
    have := hb c _ (by rw [Mux.setCall_conns, Mux.setConn_conns _ (Mux.lt_of_conn hc), if_pos rfl])
    simpa using this
  | lockStore k =>
    obtain ⟨call, c, id, t, hk, hpc, rfl⟩ := Mux.callLockStore_some hs
    exact h.lockStore hk hpc
  | store k =>
    obtain ⟨call, c, conn, id, t, hk, hpc, hc, rfl⟩ := Mux.callStore_some hs
    refine h.store ?_ hk hpc hc
    refine hb c { conn with demux := conn.demux.insert id (⟨k, call.attempts⟩, t) } ?_
    simp only [demuxStore]
    split <;> exact Mux.setConn_self hc
  | send k =>
    obtain ⟨call, c, conn, id, hk, hpc, hc, ⟨-, rfl⟩ | ⟨-, rfl⟩⟩ := Mux.callSend_some hs
    · exact h.retry hk
    · exact h.send hk hpc hc
  | receive k =>
    obtain ⟨call, c, id, hk, hpc, ⟨b, hsl, rfl⟩ | ⟨hsl, rfl⟩⟩ := Mux.callReceive_some hs
    · exact h.receive hk hpc hsl
    · exact absurd hsl (h.not_dropped hk hpc)
  | wake k =>
    obtain ⟨call, hk, hpc, rfl⟩ := Mux.callWake_some hs
    exact h.call_update hk ((h.calls k call hk).idle rfl (by simp) (.inl ⟨rfl, by rw [hpc]; rfl⟩))
  | connect host => exact (Option.some.inj hs) ▸ h.connect host
  | feed c chunk =>
    obtain ⟨conn, hc, hr, rfl⟩ := Mux.readerFeed_some hs
    exact h.outgoing hc
  | readEnd c =>
    obtain ⟨conn, hc, hr, rfl⟩ := Mux.readerEnd_some hs
    exact h.quiet hc ⟨rfl, rfl, rfl, rfl, by simp [hr], by simp⟩
  | drain c =>
    obtain ⟨conn, hc, hr, ⟨e, rest, -, rfl⟩ | ⟨hdr, frame, rest, hd, rfl⟩⟩ := Mux.readerDrain_some hs
    · exact h.quiet hc ⟨rfl, rfl, rfl, rfl, by simp [hr], by simp⟩
    · exact h.drain hc hr hd
  | lockLoad c =>
    obtain ⟨conn, hdr, frame, hc, hr, rfl⟩ := Mux.readerLock_some hs
    exact h.quiet hc ⟨rfl, rfl, rfl, rfl, by simp [hr], by simp [hr]⟩
  | loadRemove c =>
    obtain ⟨conn, hdr, frame, hc, hr, ⟨tok, t, hl, rfl⟩ | ⟨-, rfl⟩⟩ := Mux.readerLoadRemove_some hs
    · exact h.loadRemove hc hr hl
    · exact h.quiet hc ⟨rfl, rfl, rfl, rfl, by simp [hr], by simp⟩
  | deliver c =>
    obtain ⟨conn, tok, hdr, frame, closed, reader, hc, hr, hcl, rfl⟩ := Mux.readerDeliver_some hs
    exact h.deliver hc hr (hcl.imp (fun hx => hx.2.2) fun hx => hx.2.2)
  | readerStop c =>
    obtain ⟨conn, hc, hr, rfl⟩ := Mux.readerStop_some hs
    exact h.quiet hc ⟨rfl, rfl, rfl, rfl, by simp [hr], by simp⟩
  | take c =>
    obtain ⟨conn, frame, queue, hc, -, -, rfl⟩ := Mux.writerTake_some hs
    exact h.outgoing hc
  | wrote c =>
    obtain ⟨conn, frame, hc, -, rfl⟩ := Mux.writerWrote_some hs
    exact h.outgoing hc
  | writeFail c n =>
    obtain ⟨conn, frame, hc, -, rfl⟩ := Mux.writerFail_some hs
    exact h.outgoing hc
  | writerStop c =>
    obtain ⟨conn, hc, -, rfl⟩ := Mux.writerStop_some hs
    exact h.outgoing hc
  | writerDrop c =>
    obtain ⟨conn, hc, -, rfl⟩ := Mux.writerDrop_some hs
    exact h.outgoing hc
  | cleanup c start => exact (Option.some.inj hs) ▸ h.cleanup c start _
  | free c =>
    obtain ⟨conn, hc, -, -, hcalls, rfl⟩ := Mux.connFree_some hs
    exact h.free hc hcalls
  | tick d =>
    cases Option.some.inj hs
    exact ⟨h.conns, h.calls⟩

end MuxInv
end RzBridge

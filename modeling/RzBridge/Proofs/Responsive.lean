import RzBridge.Proofs.BackendCodec
import RzBridge.Proofs.Delivery

/-!
# A response that arrives gets through

A call that awaits its response is registered on its connection (`CallInv.owned`), so nothing that happened
before can be in the way when the response comes in: the read loop of the connection takes it to the call,
however the socket cuts it.
-/

namespace RzBridge
open Machine LittleEndian

variable {cfg : Config} {s : Sys} {m : Mux} {c k : Nat} {conn : Conn} {call : Call} {id : UInt32} {f : Bytes}
  {hdr : Header} {tok : Tok} {t : Nat}

/-! ### What the steps on the way do -/

theorem Sys.step_mux {l : MuxLabel} {mux : Mux} (hi : Sys.internal l = true) (hsp : ∀ w f, l ≠ .spawn w f)
    (hfr : ∀ c, l ≠ .free c) (hm : s.mux.step cfg l = some mux) : s.step cfg (.mux l) = some { s with mux } := by
  unfold Sys.step
  split
  next he => cases he
  next he => cases he
  next he => cases he
  next w f he => exact absurd (SysLabel.mux.inj he) (hsp w f)
  next c he => exact absurd (SysLabel.mux.inj he) (hfr c)
  next l' _ _ he =>
    cases he
    simp [hi, hm]
  next he => cases he
  next he => cases he

theorem Sys.free_setConn (conn' : Conn) (lm : Lock × CircularWait.Mode) :
    ({ s with mux := s.mux.setConn c conn' } : Sys).free (.reader c) lm = s.free (.reader c) lm := by
  have htasks : ({ s with mux := s.mux.setConn c conn' } : Sys).tasks = s.tasks := by
    simp [Sys.tasks]
  have hholds : ∀ u, u ≠ .reader c → ({ s with mux := s.mux.setConn c conn' } : Sys).holds u = s.holds u := by
    intro u hu
    cases u with
    | reader c' =>
      have hne : c ≠ c' := fun he => hu (by rw [he])
      simp [Sys.holds, Mux.setConn, List.getElem?_set_ne hne]
    | _ => rfl
  rw [Sys.free, Sys.free, htasks]
  congr 1
  funext u
  by_cases hu : u = .reader c
  · simp [hu]
  · rw [hholds u hu]

theorem Sys.acquire_reader (hc : s.mux.conns[c]? = some conn) (hr : conn.reader = .lookup hdr f false)
    (hfree : s.free (.reader c) (.demux c, .write) = true) :
    s.step cfg (.acquire (.reader c)) =
      some { s with mux := s.mux.setConn c { conn with reader := .lookup hdr f true } } := by
  have hw : s.waits (.reader c) = some (.demux c, .write) := by simp [Sys.waits, hc, hr, ReaderPc.waits]
  have hlock : s.mux.step cfg (.lockLoad c) =
      some (s.mux.setConn c { conn with reader := .lookup hdr f true }) := by
    simp [Mux.step, Mux.readerLock, hc, hr]
  simp [Sys.step, Sys.acquire, hw, hfree, hlock]

namespace Mux

theorem feed_eq (cfg : Config) {chunk : Bytes} (hc : m.conns[c]? = some conn) (hr : conn.reader = .reading)
    (hd : drainStep conn.buf = .needMore) (hne : chunk ≠ []) :
    m.step cfg (.feed c chunk) = some (m.setConn c { conn with buf := conn.buf ++ chunk }) := by
  simp [step, readerFeed, hc, hr, hd, hne]

theorem drain_eq (cfg : Config) {rest : Bytes} (hc : m.conns[c]? = some conn) (hr : conn.reader = .reading)
    (hd : drainStep conn.buf = .frame hdr f rest) :
    m.step cfg (.drain c) = some (m.setConn c
      { conn with buf := rest, reader := .lookup hdr f false, received := conn.received ++ [(hdr, f)] }) := by
  simp [step, readerDrain, hc, hr, hd]

theorem loadRemove_eq (cfg : Config) (hc : m.conns[c]? = some conn) (hr : conn.reader = .lookup hdr f true)
    (hl : conn.demux.lookup hdr.clrId = some (tok, t)) :
    m.step cfg (.loadRemove c) =
      some (m.setConn c { conn with demux := conn.demux.erase hdr.clrId, reader := .deliver tok hdr f }) := by
  simp [step, readerLoadRemove, hc, hr, hl]

theorem deliver_eq (cfg : Config) (hc : m.conns[c]? = some conn) (hr : conn.reader = .deliver tok hdr f) :
    ∃ conn', m.step cfg (.deliver c) = some ((m.setConn c conn').sendSender tok f) :=
  ⟨_, by simp only [step, readerDeliver, hc, hr, Option.bind_eq_bind, Option.bind_some]; rfl⟩

theorem receive_eq (cfg : Config) (hk : m.calls[k]? = some call) (hpc : call.pc = .await c id)
    (hs : call.slot = .sent f) :
    m.step cfg (.receive k) = some (m.setCall k { call with pc := .done (.ok (Call.answer call f)) }) := by
  simp [step, callReceive, hk, hpc, hs]

theorem setConn_setConn (x y : Conn) : (m.setConn c x).setConn c y = m.setConn c y := by
  simp only [setConn, List.set_set]

theorem setConn_same (hc : m.conns[c]? = some conn) : m.setConn c conn = m := by
  obtain ⟨hlt, rfl⟩ := List.getElem?_eq_some_iff.1 hc
  rw [setConn, List.set_getElem_self]

end Mux

/-! ### The way of a response -/

/-- However the frame is cut, it is in the buffer when its last byte has come in. -/
theorem Sys.feeds (hf : IsShardFrame id f) {chunks : List Bytes} (hc : s.mux.conns[c]? = some conn)
    (hr : conn.reader = .reading) (hne : ∀ chunk ∈ chunks, chunk ≠ []) (hcut : conn.buf ++ chunks.flatten = f) :
    exec (Sys.step cfg) s (chunks.map fun chunk => .mux (.feed c chunk)) =
      some { s with mux := s.mux.setConn c { conn with buf := f } } := by
  induction chunks generalizing s conn with
  | nil =>
    obtain rfl : conn.buf = f := by simpa using hcut
    rw [List.map_nil, exec_nil, Mux.setConn_same hc]
  | cons chunk chunks ih =>
    have hcons := hne chunk List.mem_cons_self
    have hlen : conn.buf.length < f.length := by
      have hpos := List.length_pos_iff.2 hcons
      rw [← hcut, List.length_append, List.flatten_cons, List.length_append]
      omega
    have hbuf : conn.buf = f.take conn.buf.length := by rw [← hcut, List.take_left' rfl]
    have hmore : drainStep conn.buf = .needMore := by
      rw [hbuf]
      exact drainStep_take hf hlen
    have hstep := Sys.step_mux (l := .feed c chunk) rfl (by simp) (by simp) (Mux.feed_eq cfg hc hr hmore hcons)
    have hrest := ih (s := { s with mux := s.mux.setConn c { conn with buf := conn.buf ++ chunk } })
      (Mux.setConn_self hc) hr (fun x hx => hne x (List.mem_cons_of_mem _ hx))
      (by rw [← hcut, List.flatten_cons, List.append_assoc])
    rw [List.map_cons, exec_cons, hstep, Option.bind_some, hrest, Mux.setConn_setConn]

/-- A frame that is in the buffer gets to the sender registered under its id. -/
theorem Sys.handOver (cfg : Config) {rest : Bytes} (hc : s.mux.conns[c]? = some conn) (hr : conn.reader = .reading)
    (hd : drainStep conn.buf = .frame hdr f rest) (hl : conn.demux.lookup hdr.clrId = some (tok, t))
    (hfree : s.free (.reader c) (.demux c, .write) = true) :
    ∃ conn', exec (Sys.step cfg) s
        [.mux (.drain c), .acquire (.reader c), .mux (.loadRemove c), .mux (.deliver c)] =
      some { s with mux := (s.mux.setConn c conn').sendSender tok f } := by
  -- the connection after each of the steps
  let conn₁ : Conn :=
    { conn with buf := rest, reader := .lookup hdr f false, received := conn.received ++ [(hdr, f)] }
  let conn₂ : Conn := { conn₁ with reader := .lookup hdr f true }
  let conn₃ : Conn := { conn₂ with demux := conn₂.demux.erase hdr.clrId, reader := .deliver tok hdr f }
  have hc₁ : (s.mux.setConn c conn₁).conns[c]? = some conn₁ := Mux.setConn_self hc
  have hc₂ : (s.mux.setConn c conn₂).conns[c]? = some conn₂ := Mux.setConn_self hc
  have hc₃ : (s.mux.setConn c conn₃).conns[c]? = some conn₃ := Mux.setConn_self hc
  have h₁ : s.step cfg (.mux (.drain c)) = some { s with mux := s.mux.setConn c conn₁ } :=
    Sys.step_mux rfl (by simp) (by simp) (Mux.drain_eq cfg hc hr hd)
  have h₂ : Sys.step cfg { s with mux := s.mux.setConn c conn₁ } (.acquire (.reader c)) =
      some { s with mux := s.mux.setConn c conn₂ } := by
    have hf := (Sys.free_setConn (s := s) conn₁ (.demux c, .write)).trans hfree
    rw [Sys.acquire_reader hc₁ rfl hf, Mux.setConn_setConn]
  have h₃ : Sys.step cfg { s with mux := s.mux.setConn c conn₂ } (.mux (.loadRemove c)) =
      some { s with mux := s.mux.setConn c conn₃ } := by
    refine Sys.step_mux rfl (by simp) (by simp) ?_
    show (s.mux.setConn c conn₂).step cfg (.loadRemove c) = _
    rw [Mux.loadRemove_eq cfg hc₂ rfl hl, Mux.setConn_setConn]
  obtain ⟨conn', hm⟩ : ∃ conn', (s.mux.setConn c conn₃).step cfg (.deliver c) =
      some ((s.mux.setConn c conn').sendSender tok f) := by
    obtain ⟨conn', hm⟩ := Mux.deliver_eq cfg hc₃ rfl
    exact ⟨conn', by rw [hm, Mux.setConn_setConn]⟩
  have h₄ : Sys.step cfg { s with mux := s.mux.setConn c conn₃ } (.mux (.deliver c)) =
      some { s with mux := (s.mux.setConn c conn').sendSender tok f } := Sys.step_mux rfl (by simp) (by simp) hm
  exact ⟨conn', by simp only [exec_cons, h₁, h₂, h₃, h₄, Option.bind_some, exec_nil]⟩

theorem parseHeader_clrId {payload : Bytes} (hp : parseHeader (prependHeader id payload) = .ok hdr) :
    hdr.clrId = id := by
  unfold parseHeader at hp
  split at hp
  · cases hp
  · split at hp
    · cases hp
    · rw [← Except.ok.inj hp, slice_prependHeader_clrid, u32FromLeBytes_toLeBytes]

/-- A call that awaits its response is in the map, unless the read loop has taken its sender. -/
theorem MuxInv.registered (h : MuxInv m) (hk : m.calls[k]? = some call) (hpc : call.pc = .await c id)
    (hslot : call.slot = .empty) (hc : m.conns[c]? = some conn) (hr : conn.reader = .reading) :
    ∃ t, conn.demux.lookup id = some (⟨k, call.attempts⟩, t) := by
  obtain ⟨-, hl⟩ | ⟨-, _, _, hd, -⟩ | ⟨_, hsent⟩ := (h.calls k call hk).owned c id (.inr hpc) conn hc
  · exact hl
  · rw [hr] at hd
    cases hd
  · rw [hslot] at hsent
    cases hsent

/-- From every reachable state: when the read loop of a connection is at its next frame and the response of a
call that awaits one there comes in, in whatever pieces, the read loop's next steps complete the call with that
response, its own id put back. -/
theorem awaited_reply_delivered (h : Reach (Sys.step cfg) (Sys.init cfg) s) (hb : s.mux.Bounded)
    {payload : Bytes} {chunks : List Bytes} (hk : s.mux.calls[k]? = some call) (hpc : call.pc = .await c id)
    (hslot : call.slot = .empty) (hc : s.mux.conns[c]? = some conn) (hr : conn.reader = .reading)
    (hfree : s.free (.reader c) (.demux c, .write) = true) (hne : ∀ chunk ∈ chunks, chunk ≠ [])
    (hcut : conn.buf ++ chunks.flatten = prependHeader id payload) (hlen : payload.length < 2 ^ 32)
    (hp : parseHeader (prependHeader id payload) = .ok hdr) :
    ∃ s', exec (Sys.step cfg) s ((chunks.map fun chunk => .mux (.feed c chunk)) ++
        [.mux (.drain c), .acquire (.reader c), .mux (.loadRemove c), .mux (.deliver c), .mux (.receive k)]) = some s' ∧
      ∃ call', s'.mux.calls[k]? = some call' ∧
        call'.pc = .done (.ok (prependHeader call.originalClrid payload)) := by
  obtain ⟨t, hl⟩ := (MuxInv.of_reach (Sys.reach_mux h) hb).registered hk hpc hslot hc hr
  have hdrain : drainStep (prependHeader id payload) = .frame hdr (prependHeader id payload) [] := by
    have hd := drainStep_isShardFrame [] hlen hp
    rwa [List.append_nil] at hd
  have hframe : IsShardFrame id (prependHeader id payload) := ⟨payload, hlen, rfl⟩
  have hin : exec (Sys.step cfg) s (chunks.map fun chunk => .mux (.feed c chunk)) =
      some { s with mux := s.mux.setConn c { conn with buf := prependHeader id payload } } :=
    Sys.feeds hframe hc hr hne hcut
  obtain ⟨conn', hout⟩ : ∃ conn', exec (Sys.step cfg)
      { s with mux := s.mux.setConn c { conn with buf := prependHeader id payload } }
      [.mux (.drain c), .acquire (.reader c), .mux (.loadRemove c), .mux (.deliver c)] =
        some { s with mux := (s.mux.setConn c conn').sendSender ⟨k, call.attempts⟩ (prependHeader id payload) } := by
    obtain ⟨conn', hout⟩ := Sys.handOver cfg
      (s := { s with mux := s.mux.setConn c { conn with buf := prependHeader id payload } })
      (Mux.setConn_self hc) hr hdrain (by rw [parseHeader_clrId hp]; exact hl) ((Sys.free_setConn _ _).trans hfree)
    exact ⟨conn', by rw [hout, Mux.setConn_setConn]⟩
  -- the channel of the call is the one filled
  have hk' : ((s.mux.setConn c conn').sendSender ⟨k, call.attempts⟩ (prependHeader id payload)).calls[k]? =
      some { call with slot := .sent (prependHeader id payload) } := by
    have hlisten : call.pc.listening = true := by rw [hpc]; rfl
    rw [Mux.sendSender, Mux.fillSlot_calls, Mux.setConn_calls, hk, Option.map_some, Mux.fillCall_self hlisten]
  let mux := (s.mux.setConn c conn').sendSender ⟨k, call.attempts⟩ (prependHeader id payload)
  let call' : Call :=
    { call with
      slot := .sent (prependHeader id payload)
      pc := .done (.ok (prependHeader call.originalClrid payload)) }
  have hanswer : Call.answer { call with slot := .sent (prependHeader id payload) } (prependHeader id payload) =
      prependHeader call.originalClrid payload := by
    have h9 : (prependHeader id payload).length ≥ 9 := hframe.nine_le
    rw [Call.answer, if_pos h9]
    exact setClrid_prependHeader _ _ _
  have hget : Sys.step cfg { s with mux } (.mux (.receive k)) = some { s with mux := mux.setCall k call' } := by
    have hstep := Mux.receive_eq cfg hk' hpc rfl
    rw [hanswer] at hstep
    exact Sys.step_mux rfl (by simp) (by simp) hstep
  refine ⟨{ s with mux := mux.setCall k call' }, ?_, call', Mux.setCall_self hk', rfl⟩
  show exec (Sys.step cfg) s (_ ++ ([.mux (.drain c), .acquire (.reader c), .mux (.loadRemove c), .mux (.deliver c)] ++
    [.mux (.receive k)])) = _
  rw [exec_append, hin, Option.bind_some, exec_append, hout, Option.bind_some, exec_cons, hget, Option.bind_some,
    exec_nil]

/-- The response comes in three pieces, the first of them within its header. -/
theorem awaited_reply_delivered_cut : ∃ s s' : Sys,
    exec (Sys.step {}) (Sys.init {}) (Sys.leaderUp "a" [] ++ Sys.writeCall 0 (prependHeader 7 [1])) = some s ∧
    exec (Sys.step {}) s
      (([[0xFF, 1, 0, 0], [0, 3, 0, 0, 0, 0], [0, 0]].map fun chunk => .mux (.feed 0 chunk)) ++
        [.mux (.drain 0), .acquire (.reader 0), .mux (.loadRemove 0), .mux (.deliver 0), .mux (.receive 0)]) = some s' ∧
    ∃ call', s'.mux.calls[0]? = some call' ∧ call'.pc = .done (.ok (prependHeader 7 [0, 0, 0])) := by
  obtain ⟨s, hs, hr, hp⟩ := Reach.of_any (Sys.step {}) (Sys.init {})
    (Sys.leaderUp "a" [] ++ Sys.writeCall 0 (prependHeader 7 [1]))
    (fun s => (s.mux.calls[0]?).any (fun call : Call =>
        decide (call.pc = .await 0 1 ∧ call.slot = .empty ∧ call.originalClrid = 7)) &&
      ((s.mux.conns[0]?).any (fun conn : Conn => decide (conn.reader = .reading ∧ conn.buf = [])) &&
        decide (s.mux.Bounded ∧ s.free (.reader 0) (.demux 0, .write) = true))) (by decide +kernel)
  rw [Bool.and_eq_true, Bool.and_eq_true] at hp
  obtain ⟨call, hk, hcall⟩ := (Option.any_eq_true _ _).1 hp.1
  obtain ⟨conn, hc, hconn⟩ := (Option.any_eq_true _ _).1 hp.2.1
  obtain ⟨hpc, hslot, hid⟩ := of_decide_eq_true hcall
  obtain ⟨hread, hbuf⟩ := of_decide_eq_true hconn
  obtain ⟨hb, hfree⟩ := of_decide_eq_true hp.2.2
  have hne : ∀ chunk ∈ ([[0xFF, 1, 0, 0], [0, 3, 0, 0, 0, 0], [0, 0]] : List Bytes), chunk ≠ [] := by decide
  have hcut : conn.buf ++ ([[0xFF, 1, 0, 0], [0, 3, 0, 0, 0, 0], [0, 0]] : List Bytes).flatten =
      prependHeader 1 [0, 0, 0] := by
    rw [hbuf]
    decide
  obtain ⟨s', hs', call', hk', hdone⟩ :=
    awaited_reply_delivered hr hb hk hpc hslot hc hread hfree hne hcut (by decide) rfl
  exact ⟨s, s', hs, hs', call', hk', by rw [hdone, hid]⟩

end RzBridge

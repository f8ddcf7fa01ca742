import RzBridge.Mux

/-!
# What a step of the multiplexer does

One inversion lemma for each operation, how lookups read through the updates, and what a step may do to
the connections and calls (`Effect`). Everything about runs of the multiplexer is derived from these.
-/

namespace RzBridge

theorem getElem?_snoc {α : Type*} {xs : List α} {a x : α} {i : Nat} (h : (xs ++ [a])[i]? = some x) :
    xs[i]? = some x ∨ i = xs.length ∧ x = a := by
  rcases Nat.lt_or_ge i xs.length with hlt | hge
  · rw [List.getElem?_append_left hlt] at h
    exact .inl h
  · rw [List.getElem?_append_right hge] at h
    obtain ⟨hlt, he⟩ := List.getElem?_eq_some_iff.1 h
    have hi : i = xs.length := by simp only [List.length_singleton] at hlt; omega
    exact .inr ⟨hi, by simpa using he.symm⟩

namespace Mux

variable {cfg : Config} {m m' : Mux} {c k n : Nat} {chunk : Bytes} {r : Option Nat}

/-! ### Updates -/

@[simp] theorem setConn_calls (m : Mux) (c : Nat) (x : Conn) : (m.setConn c x).calls = m.calls := rfl
@[simp] theorem setCall_conns (m : Mux) (k : Nat) (x : Call) : (m.setCall k x).conns = m.conns := rfl
@[simp] theorem fillSlot_conns (m : Mux) (tok : Tok) (s : Slot) : (m.fillSlot tok s).conns = m.conns := rfl

theorem setConn_conns (x : Conn) (h : c < m.conns.length) (c' : Nat) :
    (m.setConn c x).conns[c']? = if c = c' then some x else m.conns[c']? := by
  simp only [setConn, List.getElem?_set]
  split <;> simp_all

theorem setCall_calls (x : Call) (h : k < m.calls.length) (k' : Nat) :
    (m.setCall k x).calls[k']? = if k = k' then some x else m.calls[k']? := by
  simp only [setCall, List.getElem?_set]
  split <;> simp_all

theorem lt_of_conn {conn : Conn} (h : m.conns[c]? = some conn) : c < m.conns.length :=
  (List.getElem?_eq_some_iff.1 h).1

theorem lt_of_call {call : Call} (h : m.calls[k]? = some call) : k < m.calls.length :=
  (List.getElem?_eq_some_iff.1 h).1

theorem setConn_self {x conn : Conn} (hc : m.conns[c]? = some conn) : (m.setConn c x).conns[c]? = some x :=
  (setConn_conns x (lt_of_conn hc) c).trans (if_pos rfl)

theorem setCall_self {x call : Call} (hk : m.calls[k]? = some call) : (m.setCall k x).calls[k]? = some x :=
  (setCall_calls x (lt_of_call hk) k).trans (if_pos rfl)

theorem of_setConn {x y conn : Conn} {c' : Nat} (hc : m.conns[c]? = some conn)
    (h : (m.setConn c x).conns[c']? = some y) : c = c' ∧ y = x ∨ c ≠ c' ∧ m.conns[c']? = some y := by
  rw [setConn_conns x (lt_of_conn hc)] at h
  split at h
  · exact .inl ⟨‹c = c'›, (Option.some.inj h).symm⟩
  · exact .inr ⟨‹c ≠ c'›, h⟩

theorem of_setCall {x y call : Call} {k' : Nat} (hk : m.calls[k]? = some call)
    (h : (m.setCall k x).calls[k']? = some y) : k = k' ∧ y = x ∨ k ≠ k' ∧ m.calls[k']? = some y := by
  rw [setCall_calls x (lt_of_call hk)] at h
  split at h
  · exact .inl ⟨‹k = k'›, (Option.some.inj h).symm⟩
  · exact .inr ⟨‹k ≠ k'›, h⟩

/-- What the channel `tok` being filled does to a call. -/
def fillCall (tok : Tok) (s : Slot) (k : Nat) (call : Call) : Call :=
  if k = tok.call ∧ call.attempts = tok.attempt ∧ call.pc.listening then { call with slot := s } else call

@[simp] theorem fillCall_attempts (tok : Tok) (s : Slot) (k : Nat) (call : Call) :
    (fillCall tok s k call).attempts = call.attempts := by
  unfold fillCall
  split <;> rfl

@[simp] theorem fillCall_pc (tok : Tok) (s : Slot) (k : Nat) (call : Call) :
    (fillCall tok s k call).pc = call.pc := by
  unfold fillCall
  split <;> rfl

theorem fillSlot_calls (tok : Tok) (s : Slot) (k : Nat) :
    (m.fillSlot tok s).calls[k]? = m.calls[k]?.map (fillCall tok s k) := by
  simp only [fillSlot, List.getElem?_modify]
  by_cases h : tok.call = k
  · subst h
    simp only [if_true]
    congr 1
    funext call
    simp [fillCall]
  · simp only [h, if_false]
    cases m.calls[k]? <;> simp [fillCall, Ne.symm h]

theorem fillCall_of_not_listening {tok : Tok} {s : Slot} {k : Nat} {call : Call}
    (h : call.pc.listening = false) : fillCall tok s k call = call := by
  simp [fillCall, h]

theorem fillCall_of_ne {tok : Tok} {s : Slot} {k : Nat} {call : Call} (h : tok ≠ ⟨k, call.attempts⟩) :
    fillCall tok s k call = call := by
  refine if_neg fun ⟨h₁, h₂, _⟩ => h ?_
  obtain ⟨a, b⟩ := tok
  simp_all

theorem fillCall_self {s : Slot} {k : Nat} {call : Call} (h : call.pc.listening = true) :
    fillCall ⟨k, call.attempts⟩ s k call = { call with slot := s } := by
  simp [fillCall, h]

/-! ### Inversion -/

theorem callStart_some (h : m.callStart k = some m') : ∃ call, m.calls[k]? = some call ∧ call.pc = .start ∧
    ((call.frame.length < 9 ∨ call.frame.headD 0 ≠ shardMagic) ∧
        m' = m.setCall k { call with pc := .done (.error (.validation "invalid shard frame")) } ∨
      (9 ≤ call.frame.length ∧ call.frame.headD 0 = shardMagic) ∧
        m' = m.setCall k { call with pc := .select }) := by
  simp only [callStart, Option.bind_eq_bind, Option.bind_eq_some_iff, Option.guard_eq_some'] at h
  obtain ⟨call, hk, -, hpc, h⟩ := h
  refine ⟨call, hk, hpc, ?_⟩
  split at h
  next hbad => exact .inl ⟨hbad, (Option.some.inj h).symm⟩
  next hok =>
    push Not at hok
    exact .inr ⟨hok, (Option.some.inj h).symm⟩

theorem callSelected_some (h : m.callSelected k r = some m') :
    ∃ call, m.calls[k]? = some call ∧ call.pc = .select ∧
      (m' = m.setCall k (call.retry call.noConn) ∨
        ∃ c conn, r = some c ∧ m.conns[c]? = some conn ∧ conn.closed = false ∧
          m' = m.setCall k { call with pc := .draw c }) := by
  simp only [callSelected, Option.bind_eq_bind, Option.bind_eq_some_iff, Option.guard_eq_some'] at h
  obtain ⟨call, hk, -, hpc, h⟩ := h
  refine ⟨call, hk, hpc, ?_⟩
  cases r with
  | none => exact .inl (Option.some.inj h).symm
  | some c =>
    obtain ⟨conn, hc, h⟩ := Option.bind_eq_some_iff.1 h
    split at h
    next => exact .inl (Option.some.inj h).symm
    next hcl => exact .inr ⟨c, conn, rfl, hc, by simpa using hcl, (Option.some.inj h).symm⟩

theorem callDraw_some (h : m.callDraw k = some m') :
    ∃ call c conn, m.calls[k]? = some call ∧ call.pc = .draw c ∧ m.conns[c]? = some conn ∧
      m' = (m.setConn c
          { conn with corrId := conn.corrId + 1, draws := conn.draws ++ [⟨k, call.attempts⟩] }).setCall k
        { call with
          frame := setClrid conn.corrId call.frame
          slot := .empty
          last := some (c, conn.corrId)
          pc := .store c conn.corrId m.now false } := by
  simp only [callDraw, Option.bind_eq_bind, Option.bind_eq_some_iff] at h
  obtain ⟨call, hk, h⟩ := h
  split at h
  next c hpc =>
    obtain ⟨conn, hc, h⟩ := Option.bind_eq_some_iff.1 h
    exact ⟨call, c, conn, hk, hpc, hc, (Option.some.inj h).symm⟩
  next => cases h

theorem callLockStore_some (h : m.callLockStore k = some m') :
    ∃ call c id t, m.calls[k]? = some call ∧ call.pc = .store c id t false ∧
      m' = m.setCall k { call with pc := .store c id t true } := by
  simp only [callLockStore, Option.bind_eq_bind, Option.bind_eq_some_iff] at h
  obtain ⟨call, hk, h⟩ := h
  split at h
  next c id t hpc => exact ⟨call, c, id, t, hk, hpc, (Option.some.inj h).symm⟩
  next => cases h

theorem callStore_some (h : m.callStore k = some m') :
    ∃ call c conn id t, m.calls[k]? = some call ∧ call.pc = .store c id t true ∧ m.conns[c]? = some conn ∧
      m' = demuxStore (m.setCall k { call with pc := .send c id }) c conn id ⟨k, call.attempts⟩ t := by
  simp only [callStore, Option.bind_eq_bind, Option.bind_eq_some_iff] at h
  obtain ⟨call, hk, h⟩ := h
  split at h
  next c id t hpc =>
    obtain ⟨conn, hc, h⟩ := Option.bind_eq_some_iff.1 h
    exact ⟨call, c, conn, id, t, hk, hpc, hc, (Option.some.inj h).symm⟩
  next => cases h

theorem callSend_some (h : m.callSend cfg k = some m') :
    ∃ call c conn id, m.calls[k]? = some call ∧ call.pc = .send c id ∧ m.conns[c]? = some conn ∧
      (conn.writer = .ended ∧ m' = m.setCall k (call.retry .timeout) ∨
        conn.writer ≠ .ended ∧
        m' = (m.setConn c
            { conn with
              queue := conn.queue ++ [call.frame]
              accepted := conn.accepted ++ [(⟨k, call.attempts⟩, call.frame)] }).setCall k
          { call with pc := .await c id }) := by
  simp only [callSend, Option.bind_eq_bind, Option.bind_eq_some_iff] at h
  obtain ⟨call, hk, h⟩ := h
  split at h
  next c id hpc =>
    obtain ⟨conn, hc, h⟩ := Option.bind_eq_some_iff.1 h
    refine ⟨call, c, conn, id, hk, hpc, hc, ?_⟩
    split at h
    next hw => exact .inl ⟨hw, (Option.some.inj h).symm⟩
    next hw =>
      simp only [Option.bind_eq_some_iff, Option.guard_eq_some'] at h
      obtain ⟨-, -, h⟩ := h
      exact .inr ⟨hw, (Option.some.inj h).symm⟩
  next => cases h

theorem callReceive_some (h : m.callReceive k = some m') :
    ∃ call c id, m.calls[k]? = some call ∧ call.pc = .await c id ∧
      ((∃ b, call.slot = .sent b ∧ m' = m.setCall k { call with pc := .done (.ok (Call.answer call b)) }) ∨
        call.slot = .dropped ∧ m' = m.setCall k (call.retry .timeout)) := by
  simp only [callReceive, Option.bind_eq_bind, Option.bind_eq_some_iff] at h
  obtain ⟨call, hk, h⟩ := h
  split at h
  next c id hpc =>
    refine ⟨call, c, id, hk, hpc, ?_⟩
    split at h
    next => cases h
    next b hs => exact .inl ⟨b, hs, (Option.some.inj h).symm⟩
    next hs => exact .inr ⟨hs, (Option.some.inj h).symm⟩
  next => cases h

theorem callWake_some (h : m.callWake k = some m') :
    ∃ call, m.calls[k]? = some call ∧ call.pc = .sleep ∧ m' = m.setCall k { call with pc := .select } := by
  simp only [callWake, Option.bind_eq_bind, Option.bind_eq_some_iff, Option.guard_eq_some'] at h
  obtain ⟨call, hk, -, hpc, h⟩ := h
  exact ⟨call, hk, hpc, (Option.some.inj h).symm⟩

theorem readerFeed_some (h : m.readerFeed c chunk = some m') :
    ∃ conn, m.conns[c]? = some conn ∧ conn.reader = .reading ∧
      m' = m.setConn c { conn with buf := conn.buf ++ chunk } := by
  simp only [readerFeed, Option.bind_eq_bind, Option.bind_eq_some_iff, Option.guard_eq_some'] at h
  obtain ⟨conn, hc, -, ⟨hr, -, -⟩, h⟩ := h
  exact ⟨conn, hc, hr, (Option.some.inj h).symm⟩

theorem readerEnd_some (h : m.readerEnd c = some m') :
    ∃ conn, m.conns[c]? = some conn ∧ conn.reader = .reading ∧
      m' = m.setConn c { conn with reader := .stop } := by
  simp only [readerEnd, Option.bind_eq_bind, Option.bind_eq_some_iff, Option.guard_eq_some'] at h
  obtain ⟨conn, hc, -, ⟨hr, -⟩, h⟩ := h
  exact ⟨conn, hc, hr, (Option.some.inj h).symm⟩

theorem readerDrain_some (h : m.readerDrain c = some m') :
    ∃ conn, m.conns[c]? = some conn ∧ conn.reader = .reading ∧
      ((∃ e rest, drainStep conn.buf = .failed e rest ∧
          m' = m.setConn c { conn with buf := rest, reader := .stop }) ∨
        ∃ hdr frame rest, drainStep conn.buf = .frame hdr frame rest ∧
          m' = m.setConn c
            { conn with
              buf := rest
              reader := .lookup hdr frame false
              received := conn.received ++ [(hdr, frame)] }) := by
  simp only [readerDrain, Option.bind_eq_bind, Option.bind_eq_some_iff, Option.guard_eq_some'] at h
  obtain ⟨conn, hc, -, hr, h⟩ := h
  refine ⟨conn, hc, hr, ?_⟩
  split at h
  next => cases h
  next e rest hd => exact .inl ⟨e, rest, hd, (Option.some.inj h).symm⟩
  next hdr frame rest hd => exact .inr ⟨hdr, frame, rest, hd, (Option.some.inj h).symm⟩

theorem readerLock_some (h : m.readerLock c = some m') :
    ∃ conn hdr frame, m.conns[c]? = some conn ∧ conn.reader = .lookup hdr frame false ∧
      m' = m.setConn c { conn with reader := .lookup hdr frame true } := by
  simp only [readerLock, Option.bind_eq_bind, Option.bind_eq_some_iff] at h
  obtain ⟨conn, hc, h⟩ := h
  split at h
  next hdr frame hr => exact ⟨conn, hdr, frame, hc, hr, (Option.some.inj h).symm⟩
  next => cases h

theorem readerLoadRemove_some (h : m.readerLoadRemove c = some m') :
    ∃ conn hdr frame, m.conns[c]? = some conn ∧ conn.reader = .lookup hdr frame true ∧
      ((∃ tok t, conn.demux.lookup hdr.clrId = some (tok, t) ∧
          m' = m.setConn c
            { conn with demux := conn.demux.erase hdr.clrId, reader := .deliver tok hdr frame }) ∨
        conn.demux.lookup hdr.clrId = none ∧ m' = m.setConn c { conn with reader := .stop }) := by
  simp only [readerLoadRemove, Option.bind_eq_bind, Option.bind_eq_some_iff] at h
  obtain ⟨conn, hc, h⟩ := h
  split at h
  next hdr frame hr =>
    refine ⟨conn, hdr, frame, hc, hr, ?_⟩
    split at h
    next tok t hl => exact .inl ⟨tok, t, hl, (Option.some.inj h).symm⟩
    next hl => exact .inr ⟨hl, (Option.some.inj h).symm⟩
  next => cases h

theorem readerDeliver_some (h : m.readerDeliver c = some m') :
    ∃ conn tok hdr frame closed reader, m.conns[c]? = some conn ∧ conn.reader = .deliver tok hdr frame ∧
      (shouldClose hdr frame = true ∧ closed = true ∧ reader = .stop ∨
        shouldClose hdr frame = false ∧ closed = conn.closed ∧ reader = .reading) ∧
      m' = (m.setConn c
        { conn with
          delivered := conn.delivered ++ [(conn.received.length - 1, tok)]
          closed := closed
          reader := reader }).sendSender tok frame := by
  simp only [readerDeliver, Option.bind_eq_bind, Option.bind_eq_some_iff] at h
  obtain ⟨conn, hc, h⟩ := h
  split at h
  next tok hdr frame hr =>
    have h := (Option.some.inj h).symm
    split at h
    next hs => exact ⟨conn, tok, hdr, frame, true, .stop, hc, hr, .inl ⟨hs, rfl, rfl⟩, h⟩
    next hs =>
      exact ⟨conn, tok, hdr, frame, conn.closed, .reading, hc, hr, .inr ⟨by simpa using hs, rfl, rfl⟩, h⟩
  next => cases h

theorem readerStop_some (h : m.readerStop c = some m') :
    ∃ conn, m.conns[c]? = some conn ∧ conn.reader = .stop ∧
      m' = m.setConn c { conn with closed := true, reader := .ended } := by
  simp only [readerStop, Option.bind_eq_bind, Option.bind_eq_some_iff, Option.guard_eq_some'] at h
  obtain ⟨conn, hc, -, hr, h⟩ := h
  exact ⟨conn, hc, hr, (Option.some.inj h).symm⟩

theorem writerTake_some (h : m.writerTake c = some m') :
    ∃ conn frame queue, m.conns[c]? = some conn ∧ conn.writer = .recv ∧ conn.queue = frame :: queue ∧
      m' = m.setConn c { conn with queue := queue, writer := .writing frame } := by
  simp only [writerTake, Option.bind_eq_bind, Option.bind_eq_some_iff, Option.guard_eq_some'] at h
  obtain ⟨conn, hc, -, hw, h⟩ := h
  split at h
  next => cases h
  next frame queue hq => exact ⟨conn, frame, queue, hc, hw, hq, (Option.some.inj h).symm⟩

theorem writerWrote_some (h : m.writerWrote c = some m') :
    ∃ conn frame, m.conns[c]? = some conn ∧ conn.writer = .writing frame ∧
      m' = m.setConn c { conn with emitted := conn.emitted ++ frame, writer := .recv } := by
  simp only [writerWrote, Option.bind_eq_bind, Option.bind_eq_some_iff] at h
  obtain ⟨conn, hc, h⟩ := h
  split at h
  next frame hw => exact ⟨conn, frame, hc, hw, (Option.some.inj h).symm⟩
  next => cases h

theorem writerFail_some (h : m.writerFail c n = some m') :
    ∃ conn frame, m.conns[c]? = some conn ∧ conn.writer = .writing frame ∧
      m' = m.setConn c { conn with emitted := conn.emitted ++ frame.take n, writer := .stop } := by
  simp only [writerFail, Option.bind_eq_bind, Option.bind_eq_some_iff] at h
  obtain ⟨conn, hc, h⟩ := h
  split at h
  next frame hw => exact ⟨conn, frame, hc, hw, (Option.some.inj h).symm⟩
  next => cases h

theorem writerStop_some (h : m.writerStop c = some m') :
    ∃ conn, m.conns[c]? = some conn ∧ conn.writer = .stop ∧
      m' = m.setConn c { conn with closed := true, writer := .finish } := by
  simp only [writerStop, Option.bind_eq_bind, Option.bind_eq_some_iff, Option.guard_eq_some'] at h
  obtain ⟨conn, hc, -, hw, h⟩ := h
  exact ⟨conn, hc, hw, (Option.some.inj h).symm⟩

theorem writerDrop_some (h : m.writerDrop c = some m') :
    ∃ conn, m.conns[c]? = some conn ∧ conn.writer = .finish ∧
      m' = m.setConn c { conn with queue := [], writer := .ended } := by
  simp only [writerDrop, Option.bind_eq_bind, Option.bind_eq_some_iff, Option.guard_eq_some'] at h
  obtain ⟨conn, hc, -, hw, h⟩ := h
  exact ⟨conn, hc, hw, (Option.some.inj h).symm⟩

theorem connFree_some (h : m.connFree c = some m') :
    ∃ conn, m.conns[c]? = some conn ∧ conn.reader = .ended ∧ conn.writer = .ended ∧
      (∀ call ∈ m.calls, call.pc.conn ≠ some c) ∧
      m' = (conn.demux.entries.map (·.2.1)).foldl dropSender (m.setConn c { conn with demux := ∅ }) := by
  simp only [connFree, Option.bind_eq_bind, Option.bind_eq_some_iff, Option.guard_eq_some'] at h
  obtain ⟨conn, hc, -, ⟨hr, hw, hcalls⟩, h⟩ := h
  exact ⟨conn, hc, hr, hw, hcalls, (Option.some.inj h).symm⟩

end Mux

/-! ### One connection, one call

What a step can do to a single connection (`ConnStep`) and to a single call (`CallStep`), whatever
the task that moves. -/

/-- The step makes a loop of connection `c` leave: the socket ended or failed, the read loop got something that
is no frame, or a frame under an id that nobody waits for, or one whose content demands it. -/
inductive Leaves (c : Nat) (conn : Conn) : MuxLabel → Prop
  | readEnd : Leaves c conn (.readEnd c)
  | failed (e : ProtocolError) (rest : Bytes) (hd : drainStep conn.buf = .failed e rest) : Leaves c conn (.drain c)
  | unknown (hdr : Header) (f : Bytes) (hr : conn.reader = .lookup hdr f true)
      (hl : conn.demux.lookup hdr.clrId = none) : Leaves c conn (.loadRemove c)
  | demanded (tok : Tok) (hdr : Header) (f : Bytes) (hr : conn.reader = .deliver tok hdr f)
      (hcl : shouldClose hdr f = true) : Leaves c conn (.deliver c)
  | writeFail (n : Nat) : Leaves c conn (.writeFail c n)

/-- The connection number `c` goes from `conn` to its index in the step `l` from `m`. -/
inductive ConnStep (m : Mux) (l : MuxLabel) (c : Nat) (conn : Conn) : Conn → Prop
  | refl : ConnStep m l c conn conn
  | draw (k : Nat) (call : Call) (hl : l = .draw k) (hk : m.calls[k]? = some call) (hp : call.pc = .draw c) :
      ConnStep m l c conn { conn with corrId := conn.corrId + 1, draws := conn.draws ++ [⟨k, call.attempts⟩] }
  | store (k : Nat) (call : Call) (id : UInt32) (t : Nat) (hl : l = .store k) (hk : m.calls[k]? = some call)
      (hp : call.pc = .store c id t true) :
      ConnStep m l c conn { conn with demux := conn.demux.insert id (⟨k, call.attempts⟩, t) }
  | cleanup (start : Nat) (d : DemuxMap) (hl : l = .cleanup c start)
      (hd : ∀ id e, d.lookup id = some e → conn.demux.lookup id = some e) :
      ConnStep m l c conn { conn with demux := d }
  | free (hl : l = .free c) (hr : conn.reader = .ended) (hcalls : ∀ call ∈ m.calls, call.pc.conn ≠ some c) :
      ConnStep m l c conn { conn with demux := ∅ }
  | accept (k : Nat) (call : Call) (id : UInt32) (hl : l = .send k) (hk : m.calls[k]? = some call)
      (hp : call.pc = .send c id) (hw : conn.writer ≠ .ended) :
      ConnStep m l c conn
        { conn with
          queue := conn.queue ++ [call.frame]
          accepted := conn.accepted ++ [(⟨k, call.attempts⟩, call.frame)] }
  | feed (chunk : Bytes) (hr : conn.reader = .reading) :
      ConnStep m l c conn { conn with buf := conn.buf ++ chunk }
  | readStop (buf : Bytes) (hr : conn.reader = .reading ∨ ∃ hdr f, conn.reader = .lookup hdr f true)
      (hl : Leaves c conn l) :
      ConnStep m l c conn { conn with buf := buf, reader := .stop }
  | drain (hdr : Header) (f rest : Bytes) (hr : conn.reader = .reading)
      (hd : drainStep conn.buf = .frame hdr f rest) (hl : l = .drain c) :
      ConnStep m l c conn
        { conn with buf := rest, reader := .lookup hdr f false, received := conn.received ++ [(hdr, f)] }
  | lockLoad (hdr : Header) (f : Bytes) (hr : conn.reader = .lookup hdr f false) :
      ConnStep m l c conn { conn with reader := .lookup hdr f true }
  | loadRemove (hdr : Header) (f : Bytes) (tok : Tok) (t : Nat) (hr : conn.reader = .lookup hdr f true)
      (hl : conn.demux.lookup hdr.clrId = some (tok, t)) :
      ConnStep m l c conn { conn with demux := conn.demux.erase hdr.clrId, reader := .deliver tok hdr f }
  | deliver (hdr : Header) (f : Bytes) (tok : Tok) (closed : Bool) (reader : ReaderPc)
      (hr : conn.reader = .deliver tok hdr f)
      (hc : closed = true ∧ reader = .stop ∨ closed = conn.closed ∧ reader = .reading)
      (hl : reader = .stop → Leaves c conn l) :
      ConnStep m l c conn
        { conn with
          delivered := conn.delivered ++ [(conn.received.length - 1, tok)]
          closed := closed
          reader := reader }
  | readerStop (hl : l = .readerStop c) (hr : conn.reader = .stop) :
      ConnStep m l c conn { conn with closed := true, reader := .ended }
  | take (f : Bytes) (queue : List Bytes) (hw : conn.writer = .recv) (hq : conn.queue = f :: queue) :
      ConnStep m l c conn { conn with queue := queue, writer := .writing f }
  | wrote (f : Bytes) (hw : conn.writer = .writing f) :
      ConnStep m l c conn { conn with emitted := conn.emitted ++ f, writer := .recv }
  | writeFail (f : Bytes) (n : Nat) (hw : conn.writer = .writing f) (hl : l = .writeFail c n) :
      ConnStep m l c conn { conn with emitted := conn.emitted ++ f.take n, writer := .stop }
  | writerStop (hw : conn.writer = .stop) :
      ConnStep m l c conn { conn with closed := true, writer := .finish }
  | writerDrop (hw : conn.writer = .finish) :
      ConnStep m l c conn { conn with queue := [], writer := .ended }

/-- What the step `l` from `m` may put into a one-shot channel: the frame a read loop hands over,
the empty response of `cleanup`, or nothing when the sender is dropped. -/
inductive SlotSource (m : Mux) (l : MuxLabel) : Slot → Prop
  | dropped : SlotSource m l .dropped
  | delivered (c : Nat) (conn : Conn) (tok : Tok) (hdr : Header) (f : Bytes) (hc : m.conns[c]? = some conn)
      (hr : conn.reader = .deliver tok hdr f) : SlotSource m l (.sent f)
  | cleaned (c start : Nat) (hl : l = .cleanup c start) : SlotSource m l (.sent [])

/-- The call number `k` goes from `call` to its index in the step `l` from `m`. -/
inductive CallStep (m : Mux) (l : MuxLabel) (k : Nat) (call : Call) : Call → Prop
  | refl : CallStep m l k call call
  | slot (s : Slot) (hp : call.pc.listening = true) (hs : SlotSource m l s) :
      CallStep m l k call { call with slot := s }
  | reject (hp : call.pc = .start) :
      CallStep m l k call { call with pc := .done (.error (.validation "invalid shard frame")) }
  | begin (hp : call.pc = .start) (hlen : 9 ≤ call.frame.length) (hm : call.frame.headD 0 = shardMagic) :
      CallStep m l k call { call with pc := .select }
  | noConn (r : Option Nat) (hl : l = .selected k r) (hp : call.pc = .select) :
      CallStep m l k call (call.retry call.noConn)
  | refused (c : Nat) (id : UInt32) (hl : l = .send k) (hp : call.pc = .send c id) :
      CallStep m l k call (call.retry .timeout)
  | dropped (c : Nat) (id : UInt32) (hp : call.pc = .await c id) (hs : call.slot = .dropped) :
      CallStep m l k call (call.retry .timeout)
  | selected (c : Nat) (hl : l = .selected k (some c)) (hp : call.pc = .select) :
      CallStep m l k call { call with pc := .draw c }
  | draw (c : Nat) (conn : Conn) (hl : l = .draw k) (hp : call.pc = .draw c) (hc : m.conns[c]? = some conn) :
      CallStep m l k call
        { call with
          frame := setClrid conn.corrId call.frame
          slot := .empty
          last := some (c, conn.corrId)
          pc := .store c conn.corrId m.now false }
  | lockStore (c : Nat) (id : UInt32) (t : Nat) (hp : call.pc = .store c id t false) :
      CallStep m l k call { call with pc := .store c id t true }
  | store (c : Nat) (id : UInt32) (t : Nat) (s : Slot) (hp : call.pc = .store c id t true)
      (hs : s = call.slot ∨ s = .dropped) (hl : l = .store k) :
      CallStep m l k call { call with pc := .send c id, slot := s }
  | send (c : Nat) (id : UInt32) (hl : l = .send k) (hp : call.pc = .send c id) :
      CallStep m l k call { call with pc := .await c id }
  | answer (c : Nat) (id : UInt32) (b : Bytes) (hp : call.pc = .await c id) (hs : call.slot = .sent b) :
      CallStep m l k call { call with pc := .done (.ok (Call.answer call b)) }
  | wake (hp : call.pc = .sleep) : CallStep m l k call { call with pc := .select }

theorem ConnStep.draws {m : Mux} {l : MuxLabel} {c : Nat} {conn conn' : Conn}
    (h : ConnStep m l c conn conn') :
    conn.draws <+: conn'.draws := by
  cases h with
  | draw k call _ _ _ => exact List.prefix_append conn.draws [⟨k, call.attempts⟩]
  | _ => exact List.prefix_refl _

theorem ConnStep.ended {m : Mux} {l : MuxLabel} {c : Nat} {conn conn' : Conn} (h : ConnStep m l c conn conn')
    (hr' : conn'.reader = .ended) : conn.reader = .ended ∨ l = .readerStop c ∧ conn.reader = .stop := by
  cases h with
  | readerStop hl hr => exact .inr ⟨hl, hr⟩
  | deliver hdr f tok closed reader hr hc =>
    rcases hc with ⟨-, rfl⟩ | ⟨-, rfl⟩
    · cases hr'
    · cases hr'
  | readStop => cases hr'
  | drain => cases hr'
  | lockLoad => cases hr'
  | loadRemove => cases hr'
  | _ => exact .inl hr'

theorem CallStep.shardFrame {m : Mux} {l : MuxLabel} {k : Nat} {call call' : Call}
    (h : CallStep m l k call call') :
    call'.shardFrame = call.shardFrame := by
  cases h <;> rfl

theorem CallStep.isWrite {m : Mux} {l : MuxLabel} {k : Nat} {call call' : Call}
    (h : CallStep m l k call call') : call'.isWrite = call.isWrite := by
  cases h <;> rfl

namespace Mux

variable {cfg : Config} {m m' : Mux} {c k : Nat} {l : MuxLabel}

theorem setConn_back {x conn conn' : Conn} {c' : Nat} (hc : m.conns[c]? = some conn)
    (hx : ConnStep m l c conn x) (h : (m.setConn c x).conns[c']? = some conn') :
    ∃ y, m.conns[c']? = some y ∧ ConnStep m l c' y conn' := by
  rcases of_setConn hc h with ⟨rfl, rfl⟩ | ⟨-, h⟩
  · exact ⟨conn, hc, hx⟩
  · exact ⟨conn', h, .refl⟩

theorem setCall_back {x call call' : Call} {k' : Nat} (hk : m.calls[k]? = some call)
    (hx : CallStep m l k call x) (h : (m.setCall k x).calls[k']? = some call') :
    ∃ y, m.calls[k']? = some y ∧ CallStep m l k' y call' := by
  rcases of_setCall hk h with ⟨rfl, rfl⟩ | ⟨-, h⟩
  · exact ⟨call, hk, hx⟩
  · exact ⟨call', h, .refl⟩

/-- What one-shot senders being used or dropped does to a call, when what they leave in a channel
satisfies `P`. -/
inductive Filled (P : Slot → Prop) (call : Call) : Call → Prop
  | refl : Filled P call call
  | slot (s : Slot) (hp : call.pc.listening = true) (hs : P s) : Filled P call { call with slot := s }

theorem Filled.callStep {call call' : Call} (h : Filled (SlotSource m l) call call') :
    CallStep m l k call call' := by
  cases h with
  | refl => exact .refl
  | slot s hp hs => exact .slot s hp hs

theorem Filled.mono {P Q : Slot → Prop} {call call' : Call} (h : Filled P call call') (hPQ : ∀ s, P s → Q s) :
    Filled Q call call' := by
  cases h with
  | refl => exact .refl
  | slot s hp hs => exact .slot s hp (hPQ s hs)

theorem Filled.trans {P : Slot → Prop} {a b c : Call} (h : Filled P a b) (h' : Filled P b c) :
    Filled P a c := by
  cases h with
  | refl => exact h'
  | slot s hp hs =>
    cases h' with
    | refl => exact .slot s hp hs
    | slot s' _ hs' => exact .slot s' hp hs'

theorem fillCall_filled (tok : Tok) (s : Slot) (k : Nat) (call : Call) :
    Filled (· = s) call (fillCall tok s k call) := by
  unfold fillCall
  split
  next h => exact .slot s h.2.2 rfl
  · exact .refl

theorem fillSlot_back {tok : Tok} {s : Slot} {call' : Call} (h : (m.fillSlot tok s).calls[k]? = some call') :
    ∃ y, m.calls[k]? = some y ∧ Filled (· = s) y call' := by
  rw [fillSlot_calls, Option.map_eq_some_iff] at h
  obtain ⟨y, hy, rfl⟩ := h
  exact ⟨y, hy, fillCall_filled tok s k y⟩

theorem foldl_dropSender_back {toks : List Tok} {call' : Call}
    (h : (toks.foldl dropSender m).calls[k]? = some call') :
    ∃ y, m.calls[k]? = some y ∧ Filled (· = .dropped) y call' := by
  induction toks generalizing m with
  | nil => exact ⟨call', h, .refl⟩
  | cons tok toks ih =>
    obtain ⟨y, hy, hf⟩ := ih h
    obtain ⟨z, hz, hf'⟩ := fillSlot_back hy
    exact ⟨z, hz, hf'.trans hf⟩

theorem foldl_dropSender_conns (toks : List Tok) (m : Mux) : (toks.foldl dropSender m).conns = m.conns := by
  induction toks generalizing m with
  | nil => rfl
  | cons tok toks ih => exact (ih (m.dropSender tok)).trans rfl

theorem expire_conn_back {id : UInt32} {c' : Nat} {conn' : Conn}
    (h : (expire m c id).conns[c']? = some conn') :
    ∃ conn d, m.conns[c']? = some conn ∧ conn' = { conn with demux := d } ∧
      ∀ id e, d.lookup id = some e → conn.demux.lookup id = some e := by
  unfold expire at h
  split at h
  · exact ⟨conn', conn'.demux, h, rfl, fun _ _ he => he⟩
  next conn hc =>
    split at h
    next tok t hl =>
      rw [sendSender, fillSlot_conns, setConn_conns _ (lt_of_conn hc)] at h
      split at h
      · subst ‹c = c'›
        refine ⟨conn, _, hc, (Option.some.inj h).symm, fun id' e he => ?_⟩
        by_cases hid : id' = id
        · subst hid
          simp at he
        · rwa [AList.lookup_erase_ne hid] at he
      · exact ⟨conn', conn'.demux, h, rfl, fun _ _ he => he⟩
    next => exact ⟨conn', conn'.demux, h, rfl, fun _ _ he => he⟩

theorem expire_call_back {id : UInt32} {call' : Call} (h : (expire m c id).calls[k]? = some call') :
    ∃ y, m.calls[k]? = some y ∧ Filled (· = .sent []) y call' := by
  unfold expire at h
  split at h
  · exact ⟨call', h, .refl⟩
  next conn hc =>
    split at h
    next tok t hl =>
      exact fillSlot_back h
    next => exact ⟨call', h, .refl⟩

theorem cleanup_conn_back {start age c' : Nat} {conn' : Conn}
    (h : (demuxCleanup m c start age).conns[c']? = some conn') :
    ∃ conn d, m.conns[c']? = some conn ∧ conn' = { conn with demux := d } ∧
      ∀ id e, d.lookup id = some e → conn.demux.lookup id = some e := by
  unfold demuxCleanup at h
  split at h
  · exact ⟨conn', conn'.demux, h, rfl, fun _ _ he => he⟩
  next conn hc =>
    generalize timedOut conn.demux start age = ids at h
    clear hc
    induction ids generalizing m with
    | nil => exact ⟨conn', conn'.demux, h, rfl, fun _ _ he => he⟩
    | cons id ids ih =>
      obtain ⟨x, d, hx, rfl, hd⟩ := ih h
      obtain ⟨y, d', hy, rfl, hd'⟩ := expire_conn_back hx
      exact ⟨y, d, hy, rfl, fun id' e he => hd' id' e (hd id' e he)⟩

theorem expire_conn_ne {id : UInt32} {c' : Nat} (h : c' ≠ c) : (expire m c id).conns[c']? = m.conns[c']? := by
  unfold expire
  split
  · rfl
  next conn hc =>
    split
    · exact (setConn_conns _ (lt_of_conn hc) c').trans (if_neg h.symm)
    · rfl

theorem cleanup_conn_ne {start age c' : Nat} (h : c' ≠ c) :
    (demuxCleanup m c start age).conns[c']? = m.conns[c']? := by
  unfold demuxCleanup
  split
  · rfl
  next conn hc =>
    generalize timedOut conn.demux start age = ids
    clear hc
    induction ids generalizing m with
    | nil => rfl
    | cons id ids ih => exact (ih (m := expire m c id)).trans (expire_conn_ne h)

theorem cleanup_call_back {start age : Nat} {call' : Call}
    (h : (demuxCleanup m c start age).calls[k]? = some call') :
    ∃ y, m.calls[k]? = some y ∧ Filled (· = .sent []) y call' := by
  unfold demuxCleanup at h
  split at h
  · exact ⟨call', h, .refl⟩
  next conn hc =>
    generalize timedOut conn.demux start age = ids at h
    clear hc
    induction ids generalizing m with
    | nil => exact ⟨call', h, .refl⟩
    | cons id ids ih =>
      obtain ⟨x, hx, hf⟩ := ih h
      obtain ⟨y, hy, hf'⟩ := expire_call_back hx
      exact ⟨y, hy, hf'.trans hf⟩

/-! ### All steps -/

theorem demuxStore_conns {conn : Conn} {id : UInt32} {tok : Tok} {t : Nat} :
    (demuxStore m c conn id tok t).conns =
      (m.setConn c { conn with demux := conn.demux.insert id (tok, t) }).conns := by
  unfold demuxStore
  split <;> rfl

theorem demuxStore_call_back {conn : Conn} {id : UInt32} {tok : Tok} {t : Nat} {call' : Call}
    (h : (demuxStore m c conn id tok t).calls[k]? = some call') :
    ∃ y, m.calls[k]? = some y ∧ Filled (· = .dropped) y call' := by
  unfold demuxStore at h
  split at h
  · exact fillSlot_back h
  · exact ⟨call', h, .refl⟩

/-- What a step does to the connections and the calls: at most one connection and one call move, and the
channels of other calls may be filled. -/
inductive Effect (m : Mux) (l : MuxLabel) : Mux → Prop
  | spawn (w : Bool) (f : Bytes) (hl : l = .spawn w f) :
      Effect m l { m with calls := m.calls ++ [{ isWrite := w, shardFrame := f, frame := f }] }
  | connect (host : String) (hl : l = .connect host) :
      Effect m l { m with conns := m.conns ++ [{ addr := host }] }
  | tick (d : Nat) : Effect m l { m with now := m.now + d }
  | call (k : Nat) (call call' : Call) (hk : m.calls[k]? = some call) (hx : CallStep m l k call call') :
      Effect m l (m.setCall k call')
  | conn (c : Nat) (conn conn' : Conn) (hc : m.conns[c]? = some conn) (hx : ConnStep m l c conn conn') :
      Effect m l (m.setConn c conn')
  | both (k c : Nat) (call call' : Call) (conn conn' : Conn) (hk : m.calls[k]? = some call)
      (hc : m.conns[c]? = some conn) (hx : CallStep m l k call call') (hy : ConnStep m l c conn conn') :
      Effect m l ((m.setConn c conn').setCall k call')
  | store (k c : Nat) (call : Call) (conn : Conn) (id : UInt32) (t : Nat) (hl : l = .store k)
      (hk : m.calls[k]? = some call) (hp : call.pc = .store c id t true) (hc : m.conns[c]? = some conn) :
      Effect m l (demuxStore (m.setCall k { call with pc := .send c id }) c conn id ⟨k, call.attempts⟩ t)
  | deliver (c : Nat) (conn conn' : Conn) (tok : Tok) (hdr : Header) (f : Bytes) (hc : m.conns[c]? = some conn)
      (hr : conn.reader = .deliver tok hdr f) (hx : ConnStep m l c conn conn') :
      Effect m l ((m.setConn c conn').sendSender tok f)
  | cleanup (c start age : Nat) (hl : l = .cleanup c start) : Effect m l (demuxCleanup m c start age)
  | free (c : Nat) (conn conn' : Conn) (toks : List Tok) (hc : m.conns[c]? = some conn)
      (hx : ConnStep m l c conn conn') : Effect m l (toks.foldl dropSender (m.setConn c conn'))

theorem Effect.of_step (hs : m.step cfg l = some m') : Effect m l m' := by
  cases l with
  | spawn w f =>
    cases Option.some.inj hs
    exact .spawn w f rfl
  | start k =>
    obtain ⟨call, hk, hp, ⟨-, rfl⟩ | ⟨hok, rfl⟩⟩ := callStart_some hs
    · exact .call k call _ hk (.reject hp)
    · exact .call k call _ hk (.begin hp hok.1 hok.2)
  | selected k r =>
    obtain ⟨call, hk, hp, rfl | ⟨c, conn, rfl, -, -, rfl⟩⟩ := callSelected_some hs
    · exact .call k call _ hk (.noConn r rfl hp)
    · exact .call k call _ hk (.selected c rfl hp)
  | draw k =>
    obtain ⟨call, c, conn, hk, hp, hc, rfl⟩ := callDraw_some hs
    exact .both k c call _ conn _ hk hc (.draw c conn rfl hp hc) (.draw k call rfl hk hp)
  | lockStore k =>
    obtain ⟨call, c, id, t, hk, hp, rfl⟩ := callLockStore_some hs
    exact .call k call _ hk (.lockStore c id t hp)
  | store k =>
    obtain ⟨call, c, conn, id, t, hk, hp, hc, rfl⟩ := callStore_some hs
    exact .store k c call conn id t rfl hk hp hc
  | send k =>
    obtain ⟨call, c, conn, id, hk, hp, hc, ⟨-, rfl⟩ | ⟨hw, rfl⟩⟩ := callSend_some hs
    · exact .call k call _ hk (.refused c id rfl hp)
    · exact .both k c call _ conn _ hk hc (.send c id rfl hp) (.accept k call id rfl hk hp hw)
  | receive k =>
    obtain ⟨call, c, id, hk, hp, ⟨b, hb, rfl⟩ | ⟨hd, rfl⟩⟩ := callReceive_some hs
    · exact .call k call _ hk (.answer c id b hp hb)
    · exact .call k call _ hk (.dropped c id hp hd)
  | wake k =>
    obtain ⟨call, hk, hp, rfl⟩ := callWake_some hs
    exact .call k call _ hk (.wake hp)
  | connect host =>
    cases Option.some.inj hs
    exact .connect host rfl
  | feed c chunk =>
    obtain ⟨conn, hc, hr, rfl⟩ := readerFeed_some hs
    exact .conn c conn _ hc (.feed chunk hr)
  | readEnd c =>
    obtain ⟨conn, hc, hr, rfl⟩ := readerEnd_some hs
    exact .conn c conn _ hc (.readStop conn.buf (.inl hr) .readEnd)
  | drain c =>
    obtain ⟨conn, hc, hr, ⟨e, rest, hd, rfl⟩ | ⟨hdr, frame, rest, hd, rfl⟩⟩ := readerDrain_some hs
    · exact .conn c conn _ hc (.readStop rest (.inl hr) (.failed e rest hd))
    · exact .conn c conn _ hc (.drain hdr frame rest hr hd rfl)
  | lockLoad c =>
    obtain ⟨conn, hdr, frame, hc, hr, rfl⟩ := readerLock_some hs
    exact .conn c conn _ hc (.lockLoad hdr frame hr)
  | loadRemove c =>
    obtain ⟨conn, hdr, frame, hc, hr, ⟨tok, t, hl, rfl⟩ | ⟨hl, rfl⟩⟩ := readerLoadRemove_some hs
    · exact .conn c conn _ hc (.loadRemove hdr frame tok t hr hl)
    · exact .conn c conn _ hc (.readStop conn.buf (.inr ⟨hdr, frame, hr⟩) (.unknown hdr frame hr hl))
  | deliver c =>
    obtain ⟨conn, tok, hdr, frame, closed, reader, hc, hr, hcl, rfl⟩ := readerDeliver_some hs
    refine .deliver c conn _ tok hdr frame hc hr
      (.deliver hdr frame tok closed reader hr (hcl.imp (fun hx => hx.2) fun hx => hx.2) fun hstop => ?_)
    rcases hcl with ⟨hcl, -⟩ | ⟨-, -, rfl⟩
    · exact .demanded tok hdr frame hr hcl
    · cases hstop
  | readerStop c =>
    obtain ⟨conn, hc, hr, rfl⟩ := readerStop_some hs
    exact .conn c conn _ hc (.readerStop rfl hr)
  | take c =>
    obtain ⟨conn, frame, queue, hc, hw, hq, rfl⟩ := writerTake_some hs
    exact .conn c conn _ hc (.take frame queue hw hq)
  | wrote c =>
    obtain ⟨conn, frame, hc, hw, rfl⟩ := writerWrote_some hs
    exact .conn c conn _ hc (.wrote frame hw)
  | writeFail c n =>
    obtain ⟨conn, frame, hc, hw, rfl⟩ := writerFail_some hs
    exact .conn c conn _ hc (.writeFail frame n hw rfl)
  | writerStop c =>
    obtain ⟨conn, hc, hw, rfl⟩ := writerStop_some hs
    exact .conn c conn _ hc (.writerStop hw)
  | writerDrop c =>
    obtain ⟨conn, hc, hw, rfl⟩ := writerDrop_some hs
    exact .conn c conn _ hc (.writerDrop hw)
  | cleanup c start =>
    cases Option.some.inj hs
    exact .cleanup c start cfg.cleanupAge rfl
  | free c =>
    obtain ⟨conn, hc, hr, -, hcalls, rfl⟩ := connFree_some hs
    exact .free c conn _ _ hc (.free rfl hr hcalls)
  | tick d =>
    cases Option.some.inj hs
    exact .tick d

/-- Every connection after a step is new, or what the step made of a connection before it. -/
theorem step_conn {conn' : Conn} (hs : m.step cfg l = some m') (h : m'.conns[c]? = some conn') :
    (∃ conn, m.conns[c]? = some conn ∧ ConnStep m l c conn conn') ∨
      c = m.conns.length ∧ ∃ host, l = .connect host ∧ conn' = { addr := host } := by
  cases Effect.of_step hs with
  | connect host hl =>
    rcases getElem?_snoc h with h | ⟨hc, he⟩
    · exact .inl ⟨conn', h, .refl⟩
    · exact .inr ⟨hc, host, hl, he⟩
  | conn c₀ conn x hc hx => exact .inl (setConn_back hc hx h)
  | both k c₀ call _ conn x hk hc _ hx => exact .inl (setConn_back hc hx h)
  | store k c₀ call conn id t hl hk hp hc =>
    rw [demuxStore_conns] at h
    exact .inl (setConn_back (m := m) hc (.store k call id t hl hk hp) h)
  | deliver c₀ conn x tok hdr f hc hr hx => exact .inl (setConn_back hc hx h)
  | cleanup c₀ start age hl =>
    obtain ⟨conn, d, hc, rfl, hd⟩ := cleanup_conn_back h
    by_cases hcc : c = c₀
    · subst hcc
      exact .inl ⟨conn, hc, .cleanup start d hl hd⟩
    · rw [cleanup_conn_ne hcc, hc] at h
      exact .inl ⟨conn, hc, (Option.some.inj h) ▸ .refl⟩
  | free c₀ conn x toks hc hx =>
    rw [foldl_dropSender_conns] at h
    exact .inl (setConn_back hc hx h)
  | _ => exact .inl ⟨conn', h, .refl⟩

/-- Every call after a step is new, or what the step made of a call before it. -/
theorem step_call {call' : Call} (hs : m.step cfg l = some m') (h : m'.calls[k]? = some call') :
    (∃ call, m.calls[k]? = some call ∧ CallStep m l k call call') ∨
      k = m.calls.length ∧ ∃ w f, l = .spawn w f ∧ call' = { isWrite := w, shardFrame := f, frame := f } := by
  cases Effect.of_step hs with
  | spawn w f hl =>
    rcases getElem?_snoc h with h | ⟨hk, he⟩
    · exact .inl ⟨call', h, .refl⟩
    · exact .inr ⟨hk, w, f, hl, he⟩
  | call k₀ call x hk hx => exact .inl (setCall_back hk hx h)
  | both k₀ c call x conn _ hk hc hx _ => exact .inl (setCall_back (m := m) hk hx h)
  | store k₀ c call conn id t hl hk hp hc =>
    obtain ⟨y, hy, hf⟩ := demuxStore_call_back h
    cases hf with
    | refl => exact .inl (setCall_back (m := m) hk (.store c id t call.slot hp (.inl rfl) hl) hy)
    | slot s _ hs =>
      -- the sender dropped may be the call's own: then it goes on with its channel closed
      rw [setCall_calls _ (lt_of_call hk)] at hy
      split at hy
      · cases Option.some.inj hy
        subst ‹k₀ = _›
        exact .inl ⟨call, hk, .store c id t s hp (.inr hs) hl⟩
      · exact .inl ⟨y, hy, .slot s ‹_› (hs ▸ .dropped)⟩
  | deliver c conn x tok hdr f hc hr hx =>
    obtain ⟨y, hy, hf⟩ := fillSlot_back h
    exact .inl ⟨y, hy, (hf.mono fun s hs => hs ▸ .delivered c conn tok hdr f hc hr).callStep⟩
  | cleanup c start age hl =>
    obtain ⟨y, hy, hf⟩ := cleanup_call_back h
    exact .inl ⟨y, hy, (hf.mono fun s hs => hs ▸ .cleaned c start hl).callStep⟩
  | free c conn x toks hc hx =>
    obtain ⟨y, hy, hf⟩ := foldl_dropSender_back (m := m.setConn c x) h
    exact .inl ⟨y, hy, (hf.mono fun s hs => hs ▸ .dropped).callStep⟩
  | _ => exact .inl ⟨call', h, .refl⟩

@[simp] theorem length_setConn (x : Conn) : (m.setConn c x).conns.length = m.conns.length := by simp [setConn]
@[simp] theorem length_setCall (x : Call) : (m.setCall k x).calls.length = m.calls.length := by simp [setCall]
@[simp] theorem length_fillSlot (tok : Tok) (s : Slot) :
    (m.fillSlot tok s).calls.length = m.calls.length := by
  simp [fillSlot]

/-- No connection and no call came or went. -/
def SameSize (m m' : Mux) : Prop := m'.conns.length = m.conns.length ∧ m'.calls.length = m.calls.length

theorem SameSize.trans {a b c : Mux} (h : SameSize a b) (h' : SameSize b c) : SameSize a c :=
  ⟨h'.1.trans h.1, h'.2.trans h.2⟩

theorem sameSize_foldl {α : Type*} {f : Mux → α → Mux} (hf : ∀ m a, SameSize m (f m a)) (as : List α) :
    SameSize m (as.foldl f m) := by
  induction as generalizing m with
  | nil => exact ⟨rfl, rfl⟩
  | cons a as ih => exact (hf m a).trans ih

theorem sameSize_dropSender (m : Mux) (tok : Tok) : SameSize m (m.dropSender tok) :=
  ⟨rfl, length_fillSlot tok _⟩

theorem sameSize_expire (c : Nat) (m : Mux) (id : UInt32) : SameSize m (expire m c id) := by
  unfold expire
  split
  · exact ⟨rfl, rfl⟩
  · split
    · exact ⟨length_setConn _, length_fillSlot _ _⟩
    · exact ⟨rfl, rfl⟩

theorem sameSize_cleanup (m : Mux) (c start age : Nat) : SameSize m (demuxCleanup m c start age) := by
  unfold demuxCleanup
  split
  · exact ⟨rfl, rfl⟩
  · exact sameSize_foldl (sameSize_expire c) _

theorem sameSize_demuxStore (m : Mux) (c : Nat) (conn : Conn) (id : UInt32) (tok : Tok) (t : Nat) :
    SameSize m (demuxStore m c conn id tok t) := by
  refine ⟨by rw [demuxStore_conns, length_setConn], ?_⟩
  unfold demuxStore
  split
  · exact length_fillSlot _ _
  · rfl

theorem step_size (hs : m.step cfg l = some m') :
    m.conns.length ≤ m'.conns.length ∧ m.calls.length ≤ m'.calls.length := by
  have same : SameSize m m' → m.conns.length ≤ m'.conns.length ∧ m.calls.length ≤ m'.calls.length :=
    fun h => ⟨h.1.ge, h.2.ge⟩
  cases Effect.of_step hs with
  | spawn w f hl => simp
  | connect host hl => simp
  | tick d => exact ⟨le_rfl, le_rfl⟩
  | call k call x hk hx => exact same ⟨rfl, length_setCall x⟩
  | conn c conn x hc hx => exact same ⟨length_setConn x, rfl⟩
  | both k c call x conn y hk hc hx hy => exact same ⟨length_setConn y, length_setCall x⟩
  | store k c call conn id t hl hk hp hc =>
    exact same (SameSize.trans (b := m.setCall k _) ⟨rfl, length_setCall _⟩ (sameSize_demuxStore _ c conn id _ t))
  | deliver c conn x tok hdr f hc hr hx => exact same ⟨length_setConn x, length_fillSlot tok _⟩
  | cleanup c start age hl => exact same (sameSize_cleanup m c start age)
  | free c conn x toks hc hx =>
    exact same (SameSize.trans (b := m.setConn c x) ⟨length_setConn x, rfl⟩ (sameSize_foldl sameSize_dropSender toks))

theorem step_conn_fwd {conn : Conn} (hs : m.step cfg l = some m') (h : m.conns[c]? = some conn) :
    ∃ conn', m'.conns[c]? = some conn' ∧ ConnStep m l c conn conn' := by
  have hlt : c < m'.conns.length := (lt_of_conn h).trans_le (step_size hs).1
  obtain ⟨y, hy, hstep⟩ | ⟨rfl, -⟩ := step_conn hs (List.getElem?_eq_getElem hlt)
  · rw [h] at hy
    exact ⟨_, List.getElem?_eq_getElem hlt, (Option.some.inj hy) ▸ hstep⟩
  · exact absurd (lt_of_conn h) (Nat.lt_irrefl _)

theorem step_call_fwd {call : Call} (hs : m.step cfg l = some m') (h : m.calls[k]? = some call) :
    ∃ call', m'.calls[k]? = some call' ∧ CallStep m l k call call' := by
  have hlt : k < m'.calls.length := (lt_of_call h).trans_le (step_size hs).2
  obtain ⟨y, hy, hstep⟩ | ⟨rfl, -⟩ := step_call hs (List.getElem?_eq_getElem hlt)
  · rw [h] at hy
    exact ⟨_, List.getElem?_eq_getElem hlt, (Option.some.inj hy) ▸ hstep⟩
  · exact absurd (lt_of_call h) (Nat.lt_irrefl _)

end Mux
end RzBridge

import RzBridge.Lib.Ledger
import RzBridge.Metrics
import RzBridge.Proofs.Buffers
import RzBridge.Proofs.Serving

/-!
# The counters agree with what happened

Every counter is the total of a book that each connection keeps (`Reconciled`): what it read, took off its
buffer and executed, and how it ended. The connections share the counters and are interleaved in any way; a
step changes a counter by as much as the book of the one connection that moves.
-/

namespace RzBridge
open Machine Ledger

variable {cfg : Config}

/-! ### The books of a connection -/

def RouterFrame.isKeepalive (f : RouterFrame) : Bool := f.segment = keepaliveSegment

def isOk : Except RZError Bytes → Bool
  | .ok _ => true
  | .error _ => false

def okLength : Except RZError Bytes → Nat
  | .ok resp => resp.length
  | .error _ => 0

/-- Closed by one of the two timeouts. -/
def ClientPc.timedOut : ClientPc → Bool
  | .closed .idleTimeout => true
  | .closed .frameTimeout => true
  | _ => false

/-- Closed for the size of its buffer or of a frame. -/
def ClientPc.oversized : ClientPc → Bool
  | .closed .bufferTooLarge => true
  | .closed (.frameTooLarge _) => true
  | _ => false

namespace Client

def keepalives (c : Client) : Nat := c.frames.countP RouterFrame.isKeepalive
def executed (c : Client) : Nat := c.returned.countP fun p => isOk p.2
def failed (c : Client) : Nat := c.returned.countP fun p => !isOk p.2
def okBytes (c : Client) : Nat := total (fun p => okLength p.2) c.returned

/-- The bytes in the buffer and in the frames that were taken off it. -/
def held (c : Client) : Nat := total RouterFrame.frameLen c.frames + c.buf.length

end Client

def Served.timedOut (x : Served) : Nat := if x.client.pc.timedOut then 1 else 0
def Served.oversized (x : Served) : Nat := if x.client.pc.oversized then 1 else 0

/-- A change of the counters from `m` to `m'` that goes along with one of a connection from `c` to `c'`. -/
structure Balanced (m m' : BridgeMetrics) (c c' : Client) : Prop where
  bytesReceived : m'.bytesReceived + c.input.length = m.bytesReceived + c'.input.length
  framesReceived : m'.framesReceived + c.frames.length = m.framesReceived + c'.frames.length
  keepalives : m'.keepalivesReceived + c.keepalives = m.keepalivesReceived + c'.keepalives
  executed : m'.framesExecuted + c.executed = m.framesExecuted + c'.executed
  failed : m'.executeErrors + c.failed = m.executeErrors + c'.failed
  bytesSent : m'.bytesSent + c.okBytes = m.bytesSent + c'.okBytes
  timeouts : m'.timeouts + (if c.pc.timedOut then 1 else 0) = m.timeouts + if c'.pc.timedOut then 1 else 0
  clientErrors : m'.clientErrors + m.resyncs + (if c.pc.oversized then 1 else 0) =
    m.clientErrors + m'.resyncs + if c'.pc.oversized then 1 else 0
  held : m'.resyncs + m.bytesReceived + c'.held ≤ m.resyncs + m'.bytesReceived + c.held

/-- The connection has not been closed for a timeout or a size. -/
def ClientPc.quiet (pc : ClientPc) : Prop := pc.timedOut = false ∧ pc.oversized = false

theorem Balanced.refl (m : BridgeMetrics) (c : Client) : Balanced m m c c where
  bytesReceived := rfl
  framesReceived := rfl
  keepalives := rfl
  executed := rfl
  failed := rfl
  bytesSent := rfl
  timeouts := rfl
  clientErrors := rfl
  held := le_rfl

theorem Balanced.close (m : BridgeMetrics) {c : Client} (hq : c.pc.quiet) (cause : CloseCause) :
    Balanced m
      { m with
        timeouts := m.timeouts + if (ClientPc.closed cause).timedOut then 1 else 0
        clientErrors := m.clientErrors + if (ClientPc.closed cause).oversized then 1 else 0 }
      c (c.close cause) :=
  { Balanced.refl m c with
    timeouts := by rw [hq.1]; rfl
    clientErrors := by
      rw [hq.2]
      exact Nat.add_right_comm m.clientErrors _ m.resyncs }

theorem Balanced.dropped (m : BridgeMetrics) {c c' : Client} {n : Nat} (hq : c.pc.quiet) (hq' : c'.pc.quiet)
    (hin : c'.input = c.input) (hf : c'.frames = c.frames) (hr : c'.returned = c.returned)
    (hbuf : c'.buf.length + n ≤ c.buf.length) :
    Balanced m { m with clientErrors := m.clientErrors + n, resyncs := m.resyncs + n } c c' where
  bytesReceived := by rw [hin]
  framesReceived := by rw [hf]
  keepalives := by simp only [Client.keepalives, hf]
  executed := by simp only [Client.executed, hr]
  failed := by simp only [Client.failed, hr]
  bytesSent := by simp only [Client.okBytes, hr]
  timeouts := by rw [hq.1, hq'.1]
  clientErrors := by
    rw [hq.2, hq'.2]
    exact congrArg (· + 0) (by show m.clientErrors + n + m.resyncs = m.clientErrors + (m.resyncs + n); omega)
  held := by
    simp only [Client.held, hf]
    omega

/-! ### What one event does -/

theorem drainIter_frame_held {buf rest : Bytes} {f : RouterFrame} (h : drainIter cfg buf = .frame f rest) :
    f.frameLen + rest.length = buf.length := by
  obtain ⟨-, hrest⟩ := drainIter_frame_le h
  have hle := (tryDecodeRouter_eq_frame (drainIter_eq_frame h)).le
  rw [hrest, List.length_drop]
  omega

theorem drainIter_garbage_lt {buf rest : Bytes} (h : drainIter cfg buf = .garbage rest) :
    rest.length + 1 ≤ buf.length := by
  unfold drainIter at h
  split at h
  · cases h
  · split at h
    · cases h
    · split at h <;> cases h
    next e he =>
      split at h
      next hnil =>
        rw [hnil] at he
        cases he
      next hne =>
        have hpos : 0 < buf.length := List.length_pos_of_ne_nil hne
        dsimp only at h
        split at h
        · cases h
        · cases h
          split
          · simp only [List.length_drop]
            omega
          · simp only [List.length_drop]
            omega

theorem drainIter_resync_lt {buf rest : Bytes} (h : drainIter cfg buf = .resync rest) :
    rest.length + 1 ≤ buf.length := by
  have hs := drainIter_shrinks cfg buf
  rw [h] at hs
  exact hs

theorem Balanced.drain {now : Nat} {c : Client} (m : BridgeMetrics) (hpc : c.pc = .draining) :
    Balanced m (c.meter cfg m (now, .drain)) c (c.drain cfg now) := by
  have hq : c.pc.quiet := by rw [hpc]; exact ⟨rfl, rfl⟩
  unfold Client.meter Client.drain
  cases hi : drainIter cfg c.buf with
  | bufferTooLarge => exact .close m hq .bufferTooLarge
  | needMore =>
    by_cases hlate : now - c.lastFrameTime > cfg.frameTimeout
    · simp only [if_pos hlate]
      exact .close m hq .frameTimeout
    · simp only [if_neg hlate]
      exact .dropped (n := 0) m hq ⟨rfl, rfl⟩ rfl rfl rfl le_rfl
  | frameTooLarge f => exact .close m hq (.frameTooLarge f)
  | frame f rest =>
    have hheld := drainIter_frame_held hi
    have hq' : (if f.segment = keepaliveSegment then .draining else .executing f : ClientPc).quiet := by
      split <;> exact ⟨rfl, rfl⟩
    refine ⟨rfl, ?_, ?_, rfl, rfl, rfl, ?_, ?_, ?_⟩
    · simp only [List.length_append, List.length_singleton]
      omega
    · simp only [Client.keepalives, List.countP_append, List.countP_singleton, RouterFrame.isKeepalive,
        decide_eq_true_eq]
      omega
    · simp only [hq.1, hq'.1]
    · simp only [hq.2, hq'.2]
    · simp only [Client.held, total_append, total_cons, total_nil]
      omega
  | resync rest => exact .dropped (n := 1) m hq hq rfl rfl rfl (drainIter_resync_lt hi)
  | garbage rest => exact .dropped (n := 1) m hq ⟨rfl, rfl⟩ rfl rfl rfl (drainIter_garbage_lt hi)

theorem countP_snoc {α : Type*} (p : α → Bool) (l : List α) (a : α) :
    (l ++ [a]).countP p = l.countP p + if p a then 1 else 0 := by
  rw [List.countP_append, List.countP_singleton]

theorem Balanced.returned (m : BridgeMetrics) {c : Client} {now : Nat} {f : RouterFrame} (r : Except RZError Bytes)
    (hpc : c.pc = .executing f) :
    Balanced m (c.meter cfg m (now, .returned r)) c
      { c with pc := .replying f r, returned := c.returned ++ [(f, r)] } := by
  have hq : c.pc.quiet := by rw [hpc]; exact ⟨rfl, rfl⟩
  have hexec := countP_snoc (fun p : RouterFrame × Except RZError Bytes => isOk p.2) c.returned (f, r)
  have hfail := countP_snoc (fun p : RouterFrame × Except RZError Bytes => !isOk p.2) c.returned (f, r)
  have hsent := total_append (fun p : RouterFrame × Except RZError Bytes => okLength p.2) c.returned [(f, r)]
  refine ⟨?_, ?_, ?_, ?_, ?_, ?_, ?_, ?_, ?_⟩
  case refine_4 =>
    simp only [Client.executed, hexec]
    cases r with
    | ok resp =>
      simp [Client.meter, isOk]
      omega
    | error e => simp [Client.meter, isOk]
  case refine_5 =>
    simp only [Client.failed, hfail]
    cases r with
    | ok resp => simp [Client.meter, isOk]
    | error e =>
      simp [Client.meter, isOk]
      omega
  case refine_6 =>
    simp only [Client.okBytes, hsent]
    cases r <;> simp only [Client.meter, total_cons, total_nil, okLength] <;> omega
  case refine_7 =>
    rw [hq.1]
    cases r <;> rfl
  case refine_8 =>
    rw [hq.2]
    cases r <;> rfl
  all_goals cases r <;> rfl

theorem Balanced.step {now : Nat} {c c' : Client} {e : ClientEvent} (m : BridgeMetrics)
    (hs : c.step cfg (now, e) = some c') : Balanced m (c.meter cfg m (now, e)) c c' := by
  cases Client.Move.of_step hs with
  | close e cause he hpc =>
    have hq : c.pc.quiet := by rw [hpc]; exact ⟨rfl, rfl⟩
    cases e with
    | cancel =>
      cases he
      exact .close m hq .cancelled
    | eof =>
      cases he
      exact .close m hq .peerClosed
    | readError =>
      cases he
      exact .close m hq .readError
    | idle =>
      cases he
      exact .close m hq .idleTimeout
    | _ => cases he
  | read chunk hpc =>
    have hq : c.pc.quiet := by rw [hpc]; exact ⟨rfl, rfl⟩
    refine { Balanced.refl m c with bytesReceived := ?_, timeouts := ?_, clientErrors := ?_, held := ?_ }
    · simp only [Client.meter, List.length_append]
      omega
    · rw [hq.1]
      rfl
    · rw [hq.2]
      rfl
    · simp only [Client.meter, Client.held, List.length_append]
      omega
  | drain hpc => exact .drain m hpc
  | returned f r hpc => exact .returned m r hpc
  | wrote f r hpc =>
    have hq : c.pc.quiet := by rw [hpc]; exact ⟨rfl, rfl⟩
    cases r <;> exact .dropped (n := 0) m hq ⟨rfl, rfl⟩ rfl rfl rfl le_rfl
  | writeFail n f r hpc =>
    have hq : c.pc.quiet := by rw [hpc]; exact ⟨rfl, rfl⟩
    cases r <;> exact .dropped (n := 0) m hq ⟨rfl, rfl⟩ rfl rfl rfl le_rfl

/-! ### What a connection has done and owes -/

theorem frames_length {c : Client} (h : ReplyLog c) :
    c.frames.length = c.keepalives + c.executed + c.failed + if c.pc.inExecute then 1 else 0 := by
  have hsplit : c.frames.length = c.keepalives + (requests c.frames).length := by
    rw [requests, ← List.countP_eq_length_filter,
      List.length_eq_countP_add_countP (l := c.frames) RouterFrame.isKeepalive]
    simp [Client.keepalives, RouterFrame.isKeepalive]
  have hret : c.returned.length = c.executed + c.failed := by
    rw [List.length_eq_countP_add_countP (l := c.returned) fun p => isOk p.2]
    simp [Client.executed, Client.failed]
  have hrun : c.pc.running.length = if c.pc.inExecute then 1 else 0 := by
    cases c.pc <;> rfl
  rw [hsplit, h.asked, Client.asked, hret, hrun]
  omega

theorem replies_length (c : Client) :
    total (fun p => (replyBytes p.1 p.2).length) c.returned = c.okBytes + 31 * c.failed := by
  have hone : ∀ p : RouterFrame × Except RZError Bytes,
      (replyBytes p.1 p.2).length = okLength p.2 + 31 * if !isOk p.2 then 1 else 0 := by
    rintro ⟨f, e | resp⟩ <;> rfl
  simp only [hone]
  rw [total_add, total_mul, total_countP]
  rfl

/-- What a connection has written and is about to write comes from what its calls returned. -/
def Sent (c : Client) : Prop :=
  c.written.length + total (fun p => (replyBytes p.1 p.2).length) c.pc.unwritten ≤
    total (fun p => (replyBytes p.1 p.2).length) c.returned

theorem Sent.quiet {c c' : Client} (h : Sent c) (hw : c'.written = c.written) (hr : c'.returned = c.returned)
    (hu : c'.pc.unwritten = []) : Sent c' := by
  unfold Sent at h ⊢
  rw [hw, hr, hu, total_nil]
  omega

theorem Sent.drain {now : Nat} {c : Client} (h : Sent c) (hpc : c.pc = .draining) : Sent (c.drain cfg now) := by
  unfold Client.drain
  split
  · exact h.quiet rfl rfl rfl
  · split <;> exact h.quiet rfl rfl rfl
  · exact h.quiet rfl rfl rfl
  next f rest hi =>
    refine h.quiet rfl rfl ?_
    show (if f.segment = keepaliveSegment then ClientPc.draining else .executing f).unwritten = []
    split <;> rfl
  · exact h.quiet rfl rfl (by rw [hpc]; rfl)
  · exact h.quiet rfl rfl rfl

theorem Sent.step {now : Nat} {c c' : Client} {e : ClientEvent} (h : Sent c)
    (hs : c.step cfg (now, e) = some c') : Sent c' := by
  cases Client.Move.of_step hs with
  | close e cause he hpc => exact h.quiet rfl rfl rfl
  | read chunk hpc => exact h.quiet rfl rfl rfl
  | drain hpc => exact h.drain hpc
  | returned f r hpc =>
    unfold Sent at h ⊢
    show c.written.length + total _ [(f, r)] ≤ total _ (c.returned ++ [(f, r)])
    rw [total_append]
    omega
  | wrote f r hpc =>
    unfold Sent at h
    rw [hpc] at h
    simp only [ClientPc.unwritten, total_cons, total_nil] at h
    have hlen : (c.written ++ replyBytes f r).length ≤ total (fun p => (replyBytes p.1 p.2).length) c.returned := by
      rw [List.length_append]
      omega
    cases r <;> exact hlen
  | writeFail n f r hpc =>
    unfold Sent at h
    rw [hpc] at h
    simp only [ClientPc.unwritten, total_cons, total_nil] at h
    have hlen : (c.written ++ (replyBytes f r).take n).length ≤
        total (fun p => (replyBytes p.1 p.2).length) c.returned := by
      rw [List.length_append, List.length_take]
      omega
    cases r <;> exact hlen

theorem written_length {c : Client} (h : ReplyLog c) (ho : ∀ o ∈ c.outcomes, o.2 = true) (hu : c.pc.unwritten = []) :
    c.written.length = total (fun p => (replyBytes p.1 p.2).length) c.returned := by
  obtain ⟨done, hd, hw⟩ := h.replied
  rw [hu, List.append_nil] at hd
  rw [hw ho, hd, List.length_flatten, List.map_map]
  rfl

theorem Taken.twelve_le {f : RouterFrame} (h : Taken cfg f) : 12 ≤ f.frameLen := by
  obtain ⟨buf, rest, h⟩ := h
  have hroom := (fields_of_tryDecodeRouter (drainIter_eq_frame h)).room
  omega

/-! ### All connections -/

namespace Metered

variable {s s' : Metered} {l : ServerLabel}

/-- Every counter is the total of a book that the connections keep. -/
structure Reconciled (s : Metered) : Prop where
  bytesReceived : s.metrics.bytesReceived = total (fun x => x.client.input.length) s.server.clients
  framesReceived : s.metrics.framesReceived = total (fun x => x.client.frames.length) s.server.clients
  keepalives : s.metrics.keepalivesReceived = total (fun x => x.client.keepalives) s.server.clients
  executed : s.metrics.framesExecuted = total (fun x => x.client.executed) s.server.clients
  failed : s.metrics.executeErrors = total (fun x => x.client.failed) s.server.clients
  bytesSent : s.metrics.bytesSent = total (fun x => x.client.okBytes) s.server.clients
  timeouts : s.metrics.timeouts = total Served.timedOut s.server.clients
  clientErrors : s.metrics.clientErrors = s.metrics.resyncs + total Served.oversized s.server.clients
  held : s.metrics.resyncs + total (fun x => x.client.held) s.server.clients ≤ s.metrics.bytesReceived

theorem Reconciled.init : Reconciled (init cfg) := ⟨rfl, rfl, rfl, rfl, rfl, rfl, rfl, rfl, le_rfl⟩

theorem Reconciled.set {m : BridgeMetrics} {i k : Nat} {x : Served} {client : Client} (h : Reconciled s)
    (hx : s.server.clients[i]? = some x) (hb : Balanced s.metrics m x.client client) {server : Server}
    (hc : server.clients = s.server.clients.set i ⟨client, k⟩) : Reconciled ⟨server, m⟩ := by
  have herr : total Served.oversized (s.server.clients.set i ⟨client, k⟩) + (if x.client.pc.oversized then 1 else 0) =
      total Served.oversized s.server.clients + if client.pc.oversized then 1 else 0 :=
    total_set Served.oversized ⟨client, k⟩ hx
  have hheld := total_set (fun x : Served => x.client.held) ⟨client, k⟩ hx
  have hce := hb.clientErrors
  have hbh := hb.held
  have hre := h.clientErrors
  have hrh := h.held
  constructor <;> dsimp only <;> rw [hc]
  · exact balance hx h.bytesReceived hb.bytesReceived
  · exact balance hx h.framesReceived hb.framesReceived
  · exact balance hx h.keepalives hb.keepalives
  · exact balance hx h.executed hb.executed
  · exact balance hx h.failed hb.failed
  · exact balance hx h.bytesSent hb.bytesSent
  · exact balance hx h.timeouts hb.timeouts
  · omega
  · dsimp only at hheld
    omega

theorem Reconciled.step (h : Reconciled s) (hs : s.step cfg l = some s') : Reconciled s' := by
  obtain ⟨server, hserver, he⟩ := Option.bind_eq_some_iff.1 hs
  cases he
  cases Server.Move.of_step hserver with
  | accept =>
    refine ⟨?_, ?_, ?_, ?_, ?_, ?_, ?_, ?_, ?_⟩ <;> simp only [total_append, total_cons, total_nil]
    · exact h.bytesReceived
    · exact h.framesReceived
    · exact h.keepalives
    · exact h.executed
    · exact h.failed
    · exact h.bytesSent
    · exact h.timeouts
    · exact h.clientErrors
    · exact h.held
  | client i e x client queued hx ha hc hne =>
    have hm : s.meter cfg (.client i e) = x.client.meter cfg s.metrics (s.server.sys.mux.now, e) := by
      simp only [meter, hx]
    exact h.set hx (hm ▸ Balanced.step s.metrics hc) rfl
  | dispatch i x client f sys queued hx hc hpc hsys =>
    have hm : s.meter cfg (.client i .drain) = x.client.meter cfg s.metrics (s.server.sys.mux.now, .drain) := by
      simp only [meter, hx]
    exact h.set hx (hm ▸ Balanced.step s.metrics hc) rfl
  | _ => exact ⟨h.1, h.2, h.3, h.4, h.5, h.6, h.7, h.8, h.9⟩

theorem Reconciled.of_reach (h : Reach (Metered.step cfg) (Metered.init cfg) s) : Reconciled s :=
  h.induct .init fun _ _ _ _ hi hs => hi.step hs

/-- The counters change nothing of what the server does. -/
theorem reach_server (h : Reach (step cfg) (init cfg) s) : Reach (Server.step cfg) (Server.init cfg) s.server := by
  refine h.project (f := Metered.server) fun s l s' hs => .inr ⟨l, ?_⟩
  obtain ⟨server, hserver, he⟩ := Option.bind_eq_some_iff.1 hs
  cases he
  exact hserver

/-- In every run, with any number of connections interleaved: a frame received is a keepalive, was executed or
failed, or is in `execute`; `bytes_received` and `bytes_sent` count what the connections read and what their
calls returned; every timeout counted closed a connection, and a client error is a resync or closed a connection
that held too much. -/
theorem metrics_reconcile (h : Reach (step cfg) (init cfg) s) :
    s.metrics.framesReceived = s.metrics.keepalivesReceived + s.metrics.framesExecuted + s.metrics.executeErrors +
        s.server.executing ∧
      s.metrics.bytesReceived = total (fun x => x.client.input.length) s.server.clients ∧
      s.metrics.bytesSent = total (fun x => x.client.okBytes) s.server.clients ∧
      s.metrics.timeouts = s.server.clients.countP (fun x => x.client.pc.timedOut) ∧
      s.metrics.clientErrors = s.metrics.resyncs + s.server.clients.countP fun x => x.client.pc.oversized := by
  have hi := Reconciled.of_reach h
  have hlog := ReplyLog.of_reach (reach_server h)
  refine ⟨?_, hi.bytesReceived, hi.bytesSent, hi.timeouts.trans (total_countP _ _), ?_⟩
  · have hframes := total_congr fun x hx => frames_length (hlog x hx)
    rw [total_add, total_add, total_add, total_countP] at hframes
    rw [hi.framesReceived, hi.keepalives, hi.executed, hi.failed, hframes]
    rfl
  · rw [hi.clientErrors]
    exact congrArg _ (total_countP _ _)

/-- One client sends garbage, another a write, which is answered. -/
def meteredRun : List ServerLabel :=
  List.flatten [(Sys.leaderUp "a" []).map .sys, [.accept, .accept, .client 1 (.read [1, 1, 1, 1, 1]), .client 1 .drain],
    Server.writeRequest 0 0 (prependHeader 9 [5]), (Sys.reply 0 (prependHeader 1 [2, 0x4F, 0x4B, 0, 0])).map .sys,
    [.sys (.mux (.receive 0)), .client 0 (.returned (.ok (prependHeader 9 [2, 0x4F, 0x4B, 0, 0]))), .client 0 .wrote]]

theorem metrics_reconcile_garbage : ∃ s, Reach (step {}) (init {}) s ∧ s.metrics.framesReceived = 1 ∧
    s.metrics.clientErrors = 1 ∧
    s.metrics.framesReceived = s.metrics.keepalivesReceived + s.metrics.framesExecuted + s.metrics.executeErrors +
      s.server.executing ∧
    s.metrics.clientErrors = s.metrics.resyncs + s.server.clients.countP fun x => x.client.pc.oversized := by
  obtain ⟨s, -, hr, hp⟩ := Reach.of_any (step {}) (init {}) meteredRun
    (fun s => s.metrics.framesReceived = 1 ∧ s.metrics.clientErrors = 1) (by decide +kernel)
  obtain ⟨hf, hc⟩ := of_decide_eq_true hp
  obtain ⟨h1, -, -, -, h5⟩ := metrics_reconcile hr
  exact ⟨s, hr, hf, hc, h1, h5⟩

/-- In every run: each parse error that was counted cost a byte received of its own, and each frame at least
twelve; the clients were written no more than `bytes_sent` and an error response for each `execute` that failed,
and exactly that once no reply is being written and no write has failed. -/
theorem metrics_paid (h : Reach (step cfg) (init cfg) s) :
    s.metrics.resyncs + 12 * s.metrics.framesReceived ≤ s.metrics.bytesReceived ∧
      total (fun x => x.client.written.length) s.server.clients ≤
        s.metrics.bytesSent + 31 * s.metrics.executeErrors ∧
      ((∀ x ∈ s.server.clients, x.client.pc.unwritten = [] ∧ ∀ o ∈ x.client.outcomes, o.2 = true) →
        total (fun x => x.client.written.length) s.server.clients =
          s.metrics.bytesSent + 31 * s.metrics.executeErrors) := by
  have hi := Reconciled.of_reach h
  have hr := reach_server h
  have howed : s.metrics.bytesSent + 31 * s.metrics.executeErrors =
      total (fun x : Served => total (fun p => (replyBytes p.1 p.2).length) x.client.returned) s.server.clients := by
    simp only [replies_length]
    rw [total_add, total_mul, hi.bytesSent, hi.failed]
  refine ⟨?_, ?_, ?_⟩
  · have hheld : total (fun x : Served => 12 * x.client.frames.length) s.server.clients ≤
        total (fun x => x.client.held) s.server.clients := by
      refine total_le fun x hx => ?_
      have hone : ∀ f ∈ x.client.frames, 12 * 1 ≤ f.frameLen := fun f hf =>
        ((Client.Bounded.of_reach hr x hx).frames f hf).twelve_le
      have hlen : total (fun _ : RouterFrame => 12 * 1) x.client.frames = 12 * x.client.frames.length := by
        rw [total_mul, total_one]
      have hle := total_le hone
      show _ ≤ total RouterFrame.frameLen x.client.frames + x.client.buf.length
      omega
    have := hi.held
    rw [total_mul] at hheld
    rw [hi.framesReceived]
    omega
  · rw [howed]
    refine total_le fun x hx => ?_
    have := Server.client_induct (P := Sent) hr (fun t => le_rfl) (fun _ _ _ _ hc hs => hc.step hs) x hx
    unfold Sent at this
    omega
  · intro hdone
    rw [howed]
    exact total_congr fun x hx => written_length (ReplyLog.of_reach hr x hx) (hdone x hx).2 (hdone x hx).1

theorem metrics_paid_garbage : ∃ s, Reach (step {}) (init {}) s ∧ s.metrics.resyncs = 1 ∧
    s.metrics.resyncs + 12 * s.metrics.framesReceived ≤ s.metrics.bytesReceived ∧
    total (fun x => x.client.written.length) s.server.clients = s.metrics.bytesSent + 31 * s.metrics.executeErrors := by
  obtain ⟨s, -, hr, hp⟩ := Reach.of_any (step {}) (init {}) meteredRun
    (fun s => s.metrics.resyncs = 1 ∧
      ∀ x ∈ s.server.clients, x.client.pc.unwritten = [] ∧ ∀ o ∈ x.client.outcomes, o.2 = true) (by decide +kernel)
  obtain ⟨hre, hdone⟩ := of_decide_eq_true hp
  obtain ⟨hpaid, -, heq⟩ := metrics_paid hr
  exact ⟨s, hr, hre, hpaid, heq hdone⟩

end Metered
end RzBridge

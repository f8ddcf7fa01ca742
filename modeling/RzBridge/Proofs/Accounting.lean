import RzBridge.Proofs.ServerStep

/-!
# Connection accounting

The accept loop counts `active_connections` up, a task of its own counts it down for each message on
the close channel, and `handle_connection` sends that message on whichever way it returns.
`Accounted` relates the counter to the connections and to the messages processed in the run so far;
every step keeps it.
-/

namespace RzBridge
open Machine

/-- `handle_connection` has returned. -/
def ClientPc.ended : ClientPc → Bool
  | .closed _ => true
  | _ => false

/-- The label of a step of the closing task. -/
def ServerLabel.isCloseMsg : ServerLabel → Bool
  | .closeMsg => true
  | _ => false

/-! ### The messages of one connection -/

/-- A connection sends its message when it ends, and only then. -/
def Client.Accounted (c : Client) : Prop := c.closeMsgs = if c.pc.ended then 1 else 0

theorem Client.Accounted.of_open {c : Client} (h : c.closeMsgs = 0) (hpc : c.pc.ended = false) :
    c.Accounted := by
  simp [Client.Accounted, h, hpc]

theorem Client.Accounted.close {c : Client} (h : c.closeMsgs = 0) (cause : CloseCause) :
    (c.close cause).Accounted := by
  simp [Client.Accounted, Client.close, ClientPc.ended, h]

theorem Client.Accounted.drain {cfg : Config} {now : Nat} {c : Client} (h : c.closeMsgs = 0)
    (hpc : c.pc = .draining) : (c.drain cfg now).Accounted := by
  unfold Client.drain
  split
  case h_1 => exact .close h _
  case h_2 =>
    split
    · exact .close h _
    · exact .of_open h rfl
  case h_3 => exact .close h _
  case h_4 f rest _ =>
    have hpc' : (if f.segment = keepaliveSegment then .draining else .executing f : ClientPc).ended = false := by
      split <;> rfl
    exact .of_open h hpc'
  case h_5 => exact .of_open h (by rw [hpc]; rfl)
  case h_6 => exact .of_open h rfl

theorem Client.Accounted.replied {c : Client} (h : c.closeMsgs = 0) (f : RouterFrame)
    (r : Except RZError Bytes) (failedAfter : Option Nat) : (c.replied f r failedAfter).Accounted := by
  unfold Client.replied
  cases r with
  | error e => exact .close h _
  | ok resp =>
    cases failedAfter with
    | none => exact .of_open h rfl
    | some n => exact .close h _

theorem Client.Accounted.step {cfg : Config} {now : Nat} {c c' : Client} {e : ClientEvent} (hc : c.Accounted)
    (hs : c.step cfg (now, e) = some c') : c.pc.ended = false ∧ c'.Accounted := by
  have hmove := Client.Move.of_step hs
  have hopen : c.pc.ended = false := by
    cases hmove with
    | close e cause he hpc => rw [hpc]; rfl
    | read chunk hpc => rw [hpc]; rfl
    | drain hpc => rw [hpc]; rfl
    | returned f r hpc => rw [hpc]; rfl
    | wrote f r hpc => rw [hpc]; rfl
    | writeFail n f r hpc => rw [hpc]; rfl
  have h0 : c.closeMsgs = 0 := by simpa [Client.Accounted, hopen] using hc
  refine ⟨hopen, ?_⟩
  cases hmove with
  | close e cause he hpc => exact .close h0 cause
  | read chunk hpc => exact .of_open h0 rfl
  | drain hpc => exact .drain h0 hpc
  | returned f r hpc => exact .of_open h0 rfl
  | wrote f r hpc => exact .replied h0 f r none
  | writeFail n f r hpc => exact .replied h0 f r (some n)

/-! ### The counter of the server -/

namespace Server

variable {cfg : Config} {s s' : Server} {l : ServerLabel} {ls : List ServerLabel}

/-- The connections whose handler still runs, and those whose handler has returned. -/
def live (s : Server) : Nat := s.clients.countP fun x => !x.client.pc.ended
def ended (s : Server) : Nat := s.clients.countP fun x => x.client.pc.ended

/-- How many close messages a run has processed. -/
def processed (ls : List ServerLabel) : Nat := ls.countP ServerLabel.isCloseMsg

theorem live_add_ended (s : Server) : s.live + s.ended = s.clients.length := by
  have h := List.length_eq_countP_add_countP (l := s.clients) fun x => x.client.pc.ended
  simp only [live, ended]
  simp only [Bool.not_eq_true, Bool.decide_eq_false] at h
  omega

theorem clientStep_counters {i : Nat} {e : ClientEvent} (h : s.clientStep cfg i e = some s') :
    ∃ x client call, s.clients[i]? = some x ∧ x.client.step cfg (s.sys.mux.now, e) = some client ∧
      s'.clients = s.clients.set i ⟨client, call⟩ ∧ s'.active = s.active ∧
        s'.closeQueue = s.closeQueue + (client.closeMsgs - x.client.closeMsgs) := by
  simp only [clientStep, Option.bind_eq_bind, Option.bind_eq_some_iff] at h
  obtain ⟨x, hx, -, -, client, hs, h⟩ := h
  split at h
  · obtain ⟨sys, -, h⟩ := Option.bind_eq_some_iff.1 h
    cases h
    exact ⟨x, client, s.sys.mux.calls.length, hx, hs, rfl, rfl, rfl⟩
  · cases h
    exact ⟨x, client, x.call, hx, hs, rfl, rfl, rfl⟩

/-- The counter against the connections, after a run that processed `n` close messages. -/
structure Accounted (cfg : Config) (n : Nat) (s : Server) : Prop where
  clients : ∀ x ∈ s.clients, x.client.Accounted
  messages : s.ended = s.closeQueue + n
  active : s.active + n = s.clients.length
  bounded : s.active ≤ cfg.maxConnections

theorem Accounted.active_eq {n : Nat} (h : Accounted cfg n s) : s.active = s.live + s.closeQueue := by
  have hlen := s.live_add_ended
  have hmsg := h.messages
  have hact := h.active
  omega

theorem Accounted.init (cfg : Config) : Accounted cfg 0 (init cfg) where
  clients _ hx := absurd hx List.not_mem_nil
  messages := rfl
  active := rfl
  bounded := Nat.zero_le _

theorem Accounted.accept {n : Nat} (h : Accounted cfg n s) : Accounted cfg n (s.accept cfg) := by
  unfold Server.accept
  split
  · exact h
  next hlt =>
    have hmsg := h.messages
    have hact := h.active
    refine ⟨fun x hx => ?_, ?_, ?_, ?_⟩
    · rcases List.mem_append.1 hx with hx | hx
      · exact h.clients x hx
      · obtain rfl := List.mem_singleton.1 hx
        exact .of_open rfl rfl
    · simpa [ended, List.countP_append, Client.new, ClientPc.ended] using hmsg
    · show s.active + 1 + n = (s.clients ++ [_]).length
      rw [List.length_append, List.length_singleton]
      omega
    · show s.active + 1 ≤ cfg.maxConnections
      omega

theorem Accounted.clientStep {n i : Nat} {e : ClientEvent} (h : Accounted cfg n s)
    (hs : s.clientStep cfg i e = some s') : Accounted cfg n s' := by
  obtain ⟨x, client, call, hx, hc, hclients, hactive, hqueue⟩ := clientStep_counters hs
  obtain ⟨hi, hxi⟩ := List.getElem?_eq_some_iff.1 hx
  have hacc := h.clients x (List.mem_of_getElem? hx)
  obtain ⟨hopen, hacc'⟩ := hacc.step hc
  have h0 : x.client.closeMsgs = 0 := by simpa [Client.Accounted, hopen] using hacc
  have hended : s'.ended = s.ended + if client.pc.ended then 1 else 0 := by
    have hcount := List.countP_set (p := fun x : Served => x.client.pc.ended) (a := ⟨client, call⟩) hi
    rw [ended, hclients, hcount, hxi, hopen]
    simp [ended]
  refine ⟨fun y hy => ?_, ?_, ?_, hactive ▸ h.bounded⟩
  · rw [hclients] at hy
    rcases List.mem_or_eq_of_mem_set hy with hy | rfl
    · exact h.clients y hy
    · exact hacc'
  · have hmsg := h.messages
    have hsent : client.closeMsgs = if client.pc.ended then 1 else 0 := hacc'
    omega
  · rw [hactive, hclients, List.length_set]
    exact h.active

theorem Accounted.closeMsg {n : Nat} (hmax : cfg.maxConnections < 2 ^ 64) (h : Accounted cfg n s)
    (hs : s.step cfg .closeMsg = some s') : s'.active + 1 = s.active ∧ Accounted cfg (n + 1) s' := by
  simp only [step, Option.ite_none_left_eq_some, Option.some.injEq] at hs
  obtain ⟨hq, rfl⟩ := hs
  have hact := h.active_eq
  have hlen := h.active
  have hmsg := h.messages
  have hb := h.bounded
  have hsub : (s.active + (2 ^ 64 - 1)) % 2 ^ 64 = s.active - 1 := by omega
  rw [hsub]
  refine ⟨?_, h.clients, ?_, ?_, ?_⟩
  · show s.active - 1 + 1 = s.active
    omega
  · show s.ended = s.closeQueue - 1 + (n + 1)
    omega
  · show s.active - 1 + (n + 1) = s.clients.length
    omega
  · show s.active - 1 ≤ cfg.maxConnections
    omega

theorem processed_snoc (ls : List ServerLabel) (l : ServerLabel) :
    processed (ls ++ [l]) = processed ls + if l.isCloseMsg then 1 else 0 := by
  simp [processed, List.countP_append, List.countP_singleton]

theorem Accounted.step (hmax : cfg.maxConnections < 2 ^ 64) (h : Accounted cfg (processed ls) s)
    (hs : s.step cfg l = some s') : Accounted cfg (processed (ls ++ [l])) s' := by
  rw [processed_snoc]
  cases l with
  | accept =>
    cases hs
    exact h.accept
  | client i e => exact h.clientStep hs
  | closeMsg => exact (h.closeMsg hmax hs).2
  | shutdown =>
    cases hs
    exact ⟨h.clients, h.messages, h.active, h.bounded⟩
  | sys l =>
    cases Move.of_step hs with
    | sys l sys _ _ => exact ⟨h.clients, h.messages, h.active, h.bounded⟩

theorem accounted (hmax : cfg.maxConnections < 2 ^ 64) (he : exec (step cfg) (init cfg) ls = some s) :
    Accounted cfg (processed ls) s :=
  exec_induct (I := fun ls s => Accounted cfg (processed ls) s) he (.init cfg)
    fun _ _ _ _ _ h hs => h.step hmax hs

/-- In every run, `active_connections` is the number of connections admitted less the number of close
messages processed. It is at most `max_connections`, at least the number of live handlers (the
difference being the messages that wait in the channel), and counting it down never wraps; a
connection has sent one close message if its handler has returned and none before. -/
theorem active_connections_accounted (hmax : cfg.maxConnections < 2 ^ 64)
    (he : exec (step cfg) (init cfg) ls = some s) :
    s.active + processed ls = s.clients.length ∧ s.active = s.live + s.closeQueue ∧
      s.active ≤ cfg.maxConnections ∧ (∀ s', s.step cfg .closeMsg = some s' → s'.active + 1 = s.active) ∧
        ∀ x ∈ s.clients, x.client.closeMsgs = if x.client.pc.ended then 1 else 0 := by
  have h := accounted hmax he
  exact ⟨h.active, h.active_eq, h.bounded, fun s' hs => (h.closeMsg hmax hs).1, h.clients⟩

/-- One connection allowed: it ends, its message is processed, and the next one is admitted. -/
theorem active_connections_accounted_reuse :
    ∃ s, exec (step { maxConnections := 1 }) (init { maxConnections := 1 })
        [.accept, .accept, .client 0 .eof, .accept, .closeMsg, .accept] = some s ∧
      s.clients.length = 2 ∧ s.live = 1 ∧ s.active + 1 = 2 ∧ s.active ≤ 1 := by
  obtain ⟨s, he, -, hs⟩ := Reach.of_any (step { maxConnections := 1 }) (init { maxConnections := 1 })
    [.accept, .accept, .client 0 .eof, .accept, .closeMsg, .accept]
    (fun s => s.clients.length = 2 && s.live = 1) (by decide)
  simp only [Bool.and_eq_true, decide_eq_true_eq] at hs
  obtain ⟨hlen, hlive⟩ := hs
  obtain ⟨hact, -, hle, -, -⟩ := active_connections_accounted (by decide) he
  exact ⟨s, he, hlen, hlive, by rw [← hlen]; exact hact, hle⟩

end Server
end RzBridge

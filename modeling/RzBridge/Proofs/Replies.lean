import RzBridge.Proofs.Chunking
import RzBridge.Proofs.ShardFrame

/-!
# One reply per request

A client connection executes one request at a time and writes its reply before it takes the next
frame (`ReplyLog`), so the replies come in the order of the requests. What is written is the frame
that the backend sent with the caller's id restored, an error response, or, when `cleanup` answered
the call, nothing at all: its empty response goes through `execute` and `write_all` unchanged. Every
reply is a complete shard frame with the request's id as long as no `cleanup` answers a call that
still waits.
-/

namespace RzBridge
open Machine LittleEndian

variable {cfg : Config}

/-! ### The client's side -/

/-- The request that is being executed. -/
def ClientPc.running : ClientPc → List RouterFrame
  | .executing f => [f]
  | _ => []

/-- The result whose reply is being written. -/
def ClientPc.unwritten : ClientPc → List (RouterFrame × Except RZError Bytes)
  | .replying f r => [(f, r)]
  | _ => []

/-- The requests, their results and the bytes written go along with each other. -/
structure ReplyLog (c : Client) : Prop where
  order : requests c.frames = c.returned.map Prod.fst ++ c.pc.running
  replied : ∃ done, c.returned = done ++ c.pc.unwritten ∧
    ((∀ o ∈ c.outcomes, o.2 = true) → c.written = (done.map fun p => replyBytes p.1 p.2).flatten)

theorem ReplyLog.idle {c : Client} {buf input : Bytes} {pc : ClientPc} {t t' n : Nat} (h : ReplyLog c)
    (hr : c.pc.running = []) (hu : c.pc.unwritten = []) (hr' : pc.running = []) (hu' : pc.unwritten = []) :
    ReplyLog { c with buf, input, pc, lastFrameTime := t, readSince := t', closeMsgs := n } := by
  refine ⟨h.order.trans (by rw [hr, hr']), ?_⟩
  obtain ⟨done, hd, hw⟩ := h.replied
  exact ⟨done, hd.trans (by rw [hu, hu']), hw⟩

theorem ReplyLog.drain {now : Nat} {c : Client} (h : ReplyLog c) (hpc : c.pc = .draining) :
    ReplyLog (c.drain cfg now) := by
  have hr : c.pc.running = [] := by rw [hpc]; rfl
  have hu : c.pc.unwritten = [] := by rw [hpc]; rfl
  unfold Client.drain
  split
  · exact h.idle hr hu rfl rfl
  · split
    · exact h.idle hr hu rfl rfl
    · exact h.idle hr hu rfl rfl
  · exact h.idle hr hu rfl rfl
  next f rest _ =>
    have ho := h.order
    rw [hr, List.append_nil] at ho
    obtain ⟨done, hd, hw⟩ := h.replied
    rw [hu, List.append_nil] at hd
    by_cases hk : f.segment = keepaliveSegment
    · rw [if_pos hk]
      exact ⟨by simp [ho, requests_keepalive hk, ClientPc.running], done, by simp [hd, ClientPc.unwritten], hw⟩
    · rw [if_neg hk]
      exact ⟨by simp [ho, requests_request hk, ClientPc.running], done, by simp [hd, ClientPc.unwritten], hw⟩
  · exact h.idle hr hu hr hu
  · exact h.idle hr hu rfl rfl

theorem ReplyLog.wrote {c : Client} {f : RouterFrame} {r : Except RZError Bytes} (failedAfter : Option Nat)
    (h : ReplyLog c) (hpc : c.pc = .replying f r) : ReplyLog (c.replied f r failedAfter) := by
  have ho := h.order
  obtain ⟨done, hd, hw⟩ := h.replied
  rw [hpc] at ho hd
  have hlog : ∀ pc : ClientPc, pc.running = [] → pc.unwritten = [] → ∀ n, ReplyLog
      { c with
        outcomes := c.outcomes ++ [(r, failedAfter.isNone)]
        written := c.written ++ (failedAfter.elim (replyBytes f r) fun n => (replyBytes f r).take n)
        pc, closeMsgs := n } := by
    intro pc hr hu n
    refine ⟨ho.trans (by rw [hr]; rfl), c.returned, by simp [hu], fun hall => ?_⟩
    have hnone : failedAfter = none := by simpa using hall (r, failedAfter.isNone) (by simp)
    have hold := hw fun o hmem => hall o (List.mem_append_left _ hmem)
    simp [hnone, hold, hd, ClientPc.unwritten]
  rcases r with e | resp
  · exact hlog _ rfl rfl _
  · cases failedAfter with
    | none => exact hlog _ rfl rfl _
    | some n => exact hlog _ rfl rfl _

theorem ReplyLog.step {c c' : Client} {now : Nat} {e : ClientEvent} (h : ReplyLog c)
    (hs : c.step cfg (now, e) = some c') :
    ReplyLog c' := by
  cases Client.Move.of_step hs with
  | close e cause he hpc => exact h.idle (by rw [hpc]; rfl) (by rw [hpc]; rfl) rfl rfl
  | read chunk hpc => exact h.idle (by rw [hpc]; rfl) (by rw [hpc]; rfl) rfl rfl
  | drain hpc => exact h.drain hpc
  | returned f r hpc =>
    have ho := h.order
    obtain ⟨done, hd, hw⟩ := h.replied
    rw [hpc] at ho hd
    exact ⟨by simp [ho, ClientPc.running], done, by simp [hd, ClientPc.unwritten], hw⟩
  | wrote f r hpc => exact h.wrote none hpc
  | writeFail n f r hpc => exact h.wrote (some n) hpc

theorem ReplyLog.new (t : Nat) : ReplyLog (Client.new t) := ⟨rfl, [], rfl, fun _ => rfl⟩

theorem Client.executing_of_step {c c' : Client} {now : Nat} {e : ClientEvent} {f : RouterFrame}
    (hs : c.step cfg (now, e) = some c') (hpc : c'.pc = .executing f) : e = .drain := by
  cases Client.Move.of_step hs with
  | drain => rfl
  | wrote f r | writeFail n f r => rcases r with e | resp <;> cases hpc
  | _ => cases hpc

theorem Client.returned_of_step {c c' : Client} {now : Nat} {e : ClientEvent}
    (hs : c.step cfg (now, e) = some c') :
    c'.returned = c.returned ∨ ∃ f r, e = .returned r ∧ c.pc = .executing f ∧
      c'.returned = c.returned ++ [(f, r)] := by
  cases Client.Move.of_step hs with
  | drain =>
    refine .inl ?_
    unfold Client.drain
    split
    · rfl
    · split <;> rfl
    all_goals rfl
  | returned f r hpc => exact .inr ⟨f, r, rfl, hpc, rfl⟩
  | wrote f r | writeFail n f r => rcases r with e | resp <;> exact .inl rfl
  | _ => exact .inl rfl

/-! ### `cleanup` and those who wait -/

namespace Mux

/-- Somebody waits at the receiving end of the channel. -/
def waiting (m : Mux) (tok : Tok) : Bool :=
  (m.calls[tok.call]?).any fun call => call.attempts = tok.attempt ∧ call.pc.listening

/-- A `cleanup` of connection `c` called at `start` finds no sender to expire at whose other end
somebody waits. -/
def SparesWaiters (cfg : Config) (m : Mux) (c start : Nat) : Prop :=
  ∀ conn, m.conns[c]? = some conn → ∀ e ∈ conn.demux.entries, e.2.2 + cfg.cleanupAge < start →
    m.waiting e.2.1 = false

theorem fillSlot_not_waiting {m : Mux} {tok : Tok} (s : Slot) (h : m.waiting tok = false) :
    (m.fillSlot tok s).calls = m.calls := by
  refine List.ext_getElem? fun k => ?_
  rw [fillSlot_calls]
  cases hk : m.calls[k]? with
  | none => rfl
  | some call =>
    simp only [Option.map_some, Option.some.injEq]
    refine if_neg fun ⟨hkt, ha, hl⟩ => ?_
    subst hkt
    simp [waiting, hk, ha, hl] at h

theorem expire_not_waiting {m : Mux} {c : Nat} {id : UInt32}
    (h : ∀ conn, m.conns[c]? = some conn → ∀ tok t, conn.demux.lookup id = some (tok, t) →
      m.waiting tok = false) :
    (expire m c id).calls = m.calls := by
  unfold expire
  split
  · rfl
  next conn hc =>
    split
    next tok t hl => exact fillSlot_not_waiting _ (h conn hc tok t hl)
    next => rfl

theorem SparesWaiters.calls_eq {m : Mux} {c start : Nat} (h : m.SparesWaiters cfg c start) :
    (demuxCleanup m c start cfg.cleanupAge).calls = m.calls := by
  unfold demuxCleanup
  split
  · rfl
  next conn₀ hc₀ =>
    have hids : ∀ id ∈ timedOut conn₀.demux start cfg.cleanupAge, ∀ conn, m.conns[c]? = some conn →
        ∀ tok t, conn.demux.lookup id = some (tok, t) → m.waiting tok = false := by
      intro id hid conn hc tok t hl
      obtain rfl := Option.some.inj (hc₀.symm.trans hc)
      obtain ⟨e, he, rfl⟩ := List.mem_map.1 hid
      obtain ⟨hmem, hold⟩ := List.mem_filter.1 he
      have he2 : e.2 = (tok, t) := Option.some.inj ((AList.mem_lookup_iff.2 hmem).symm.trans hl)
      have hw := h conn₀ hc e hmem (of_decide_eq_true hold)
      rwa [he2] at hw
    clear h hc₀
    generalize timedOut conn₀.demux start cfg.cleanupAge = ids at hids
    -- what is left in the map after a round was there before
    induction ids generalizing m with
    | nil => rfl
    | cons id ids ih =>
      have hcalls := expire_not_waiting (hids id List.mem_cons_self)
      refine (ih fun id' hid' conn hc tok t hl => ?_).trans hcalls
      obtain ⟨conn₁, d, hc₁, rfl, hd⟩ := expire_conn_back hc
      have := hids id' (List.mem_cons_of_mem id hid') conn₁ hc₁ tok t (hd id' _ hl)
      rwa [waiting, hcalls]

end Mux

/-! ### Responses are shard frames -/

/-- The frame that the read loop has in its hands. -/
def ReaderPc.frame : ReaderPc → Option Bytes
  | .lookup _ f _ => some f
  | .deliver _ _ f => some f
  | _ => none

structure ResponseInv (m : Mux) : Prop where
  reader : ∀ (c : Nat) (conn : Conn) (f : Bytes), m.conns[c]? = some conn → conn.reader.frame = some f →
    ∃ id, IsShardFrame id f
  slot : ∀ (k : Nat) (call : Call) (b : Bytes), m.calls[k]? = some call → call.pc.listening = true →
    call.slot = .sent b →
    ∃ id, IsShardFrame id b
  done : ∀ (k : Nat) (call : Call) (r : Bytes), m.calls[k]? = some call → call.pc = .done (.ok r) →
    IsShardFrame call.originalClrid r

theorem ResponseInv.init : ResponseInv {} := ⟨by simp, by simp, by simp⟩

theorem ConnStep.reader_frame {m : Mux} {l : MuxLabel} {c : Nat} {conn conn' : Conn} {f : Bytes}
    (h : ConnStep m l c conn conn') (hf : conn'.reader.frame = some f) :
    conn.reader.frame = some f ∨ ∃ id, IsShardFrame id f := by
  cases h with
  | readStop | readerStop => cases hf
  | drain hdr f' rest hr hd =>
    cases hf
    exact .inr ⟨hdr.clrId, (drainStep_eq_frame hd).2.1⟩
  | lockLoad hdr f' hr => cases hf; exact .inl (by rw [hr]; rfl)
  | loadRemove hdr f' tok t hr hl => cases hf; exact .inl (by rw [hr]; rfl)
  | deliver hdr f' tok closed reader hr hc =>
    rcases hc with ⟨-, rfl⟩ | ⟨-, rfl⟩ <;> cases hf
  | _ => exact .inl hf

theorem Call.answer_isShardFrame {call : Call} {b : Bytes} {id : UInt32} (h : IsShardFrame id b) :
    IsShardFrame call.originalClrid (Call.answer call b) := by
  rw [Call.answer, if_pos h.nine_le]
  exact h.setClrid _

theorem ResponseInv.step {m m' : Mux} {l : MuxLabel} (h : ResponseInv m) (hs : m.step cfg l = some m')
    (hl : ∀ c start, l = .cleanup c start → m.SparesWaiters cfg c start) : ResponseInv m' := by
  have hsame : ∀ c start, l = .cleanup c start → m'.calls = m.calls := by
    rintro c start rfl
    cases hs
    exact (hl c start rfl).calls_eq
  refine ⟨fun c conn' f hc' hf => ?_, fun k call' b hk' hlis hslot => ?_, fun k call' r hk' hpc => ?_⟩
  · rcases Mux.step_conn hs hc' with ⟨conn, hc, hstep⟩ | ⟨-, host, -, rfl⟩
    · exact (hstep.reader_frame hf).elim (h.reader c conn f hc) id
    · cases hf
  · rcases Mux.step_call hs hk' with ⟨call, hk, hstep⟩ | ⟨-, w, f, -, rfl⟩
    · have old := h.slot k call b hk
      cases hstep with
      | refl => exact old hlis hslot
      | slot s hp hsrc =>
        cases hsrc with
        | dropped => cases hslot
        | delivered c conn tok hdr f hc hr =>
          obtain rfl : f = b := by simpa using hslot
          exact h.reader c conn f hc (by rw [hr]; rfl)
        | cleaned c start hlc =>
          rw [hsame c start hlc] at hk'
          exact h.slot k _ b hk' hlis hslot
      | lockStore c id t hp => exact old (by rw [hp]; rfl) hslot
      | store c id t s hp hsrc =>
        rcases hsrc with rfl | rfl
        · exact old (by rw [hp]; rfl) hslot
        · cases hslot
      | send c id hl hp => exact old (by rw [hp]; rfl) hslot
      | draw => cases hslot
      | noConn | refused | dropped =>
        unfold Call.retry at hlis
        dsimp only at hlis
        split at hlis <;> cases hlis
      | _ => cases hlis
    · cases hslot
  · rcases Mux.step_call hs hk' with ⟨call, hk, hstep⟩ | ⟨-, w, f, -, rfl⟩
    · cases hstep with
      | refl => exact h.done k call' r hk hpc
      | slot s hp _ => exact h.done k call r hk hpc
      | answer c id b hp hb =>
        cases hpc
        obtain ⟨id', hid⟩ := h.slot k call b hk (by rw [hp]; rfl) hb
        exact Call.answer_isShardFrame hid
      | noConn | refused | dropped =>
        unfold Call.retry at hpc
        dsimp only at hpc
        split at hpc <;> cases hpc
      | _ => cases hpc
    · cases hpc

/-! ### The server -/

/-- The step runs no `cleanup` that answers somebody who still waits. -/
def Server.SparesWaiters (cfg : Config) (s : Server) : ServerLabel → Prop
  | .sys l => ∀ c start, s.sys.cleans l = some (c, start) → s.sys.mux.SparesWaiters cfg c start
  | _ => True

theorem buildErrorResponse_isShardFrame (clrid : UInt32) (errorCode : UInt8) :
    IsShardFrame clrid (buildErrorResponse clrid errorCode) := by
  refine ⟨_, ?_, rfl⟩
  split_ifs <;> simp

/-- The frame executed for a client is that of its call, and every result it got makes a proper reply. -/
structure ServedInv (m : Mux) (x : Served) : Prop where
  running : ∀ f, x.client.pc = .executing f →
    ∃ call, m.calls[x.call]? = some call ∧ call.originalClrid = f.originalClrid
  returned : ∀ p ∈ x.client.returned, IsShardFrame p.1.originalClrid (replyBytes p.1 p.2)
  log : ReplyLog x.client

structure ReplyInv (s : Server) : Prop where
  mux : ResponseInv s.sys.mux
  served : ∀ (i : Nat) (x : Served), s.clients[i]? = some x → ServedInv s.sys.mux x

theorem ServedInv.sysStep {s s' : Sys} {l : SysLabel} {x : Served} (h : ServedInv s.mux x)
    (hs : s.step cfg l = some s') :
    ServedInv s'.mux x := by
  refine ⟨fun f hpc => ?_, h.returned, h.log⟩
  obtain ⟨call, hk, hid⟩ := h.running f hpc
  rcases Sys.mux_project hs with he | ⟨l', hm, -⟩
  · exact ⟨call, he ▸ hk, hid⟩
  · obtain ⟨call', hk', hstep⟩ := Mux.step_call_fwd hm hk
    exact ⟨call', hk', by rw [Call.originalClrid, hstep.shardFrame]; exact hid⟩

theorem ResponseInv.sysStep {s s' : Sys} {l : SysLabel} (h : ResponseInv s.mux)
    (hs : s.step cfg l = some s')
    (hl : ∀ c start, s.cleans l = some (c, start) → s.mux.SparesWaiters cfg c start) :
    ResponseInv s'.mux := by
  rcases Sys.mux_project hs with he | ⟨l', hm, -, hcl⟩
  · exact he ▸ h
  · exact h.step hm fun c start he => hl c start (hcl c start he)

theorem ServedInv.event {s : Server} {x : Served} {e : ClientEvent} {client : Client}
    (hm : ResponseInv s.sys.mux) (h : ServedInv s.sys.mux x) (ha : s.allows x e = true)
    (hs : x.client.step cfg (s.sys.mux.now, e) = some client)
    (hne : e = .drain → ∀ f, client.pc ≠ .executing f) : ServedInv s.sys.mux { x with client } := by
  refine ⟨fun f hpc => absurd hpc (hne (Client.executing_of_step hs hpc) f), fun p hp => ?_, h.log.step hs⟩
  rcases Client.returned_of_step hs with he | ⟨f, r, rfl, hpc, he⟩
  · exact h.returned p (he ▸ hp)
  · change p ∈ client.returned at hp
    rw [he] at hp
    rcases List.mem_append.1 hp with hp | hp
    · exact h.returned p hp
    · obtain rfl := List.mem_singleton.1 hp
      rcases r with e | resp
      · exact buildErrorResponse_isShardFrame _ _
      · obtain ⟨call, hk, hid⟩ := h.running f hpc
        have hdone : call.pc = .done (.ok resp) := by simpa [Server.allows, hk] using ha
        exact hid ▸ hm.done x.call call resp hk hdone

theorem ServedInv.dispatch {s : Server} {x : Served} {client : Client} {f : RouterFrame} {sys : Sys}
    (h : ServedInv s.sys.mux x) (hs : x.client.step cfg (s.sys.mux.now, .drain) = some client)
    (hpc : client.pc = .executing f)
    (hsys : s.sys.step cfg (.mux (.spawn f.isWrite f.shardFrame)) = some sys) :
    ServedInv sys.mux { client, call := s.sys.mux.calls.length } := by
  obtain ⟨rest, hd, -, rfl⟩ := Client.drain_executing hs hpc
  refine ⟨fun f' hpc' => ?_, h.returned, h.log.step hs⟩
  cases hpc'
  obtain ⟨mux, hm, ⟨w, f', he, rfl⟩ | ⟨hne, -⟩⟩ := Sys.muxStep_some hsys
  · cases hm
    refine ⟨_, List.getElem?_concat_length, ?_⟩
    exact (tryDecodeRouter_eq_frame (drainIter_eq_frame hd)).clrid.symm
  · exact absurd rfl (hne _ _)

theorem ReplyInv.init : ReplyInv (Server.init cfg) := ⟨.init, by simp [Server.init]⟩

theorem ReplyInv.step {s s' : Server} {l : ServerLabel} (h : ReplyInv s) (hl : s.SparesWaiters cfg l)
    (hs : s.step cfg l = some s') : ReplyInv s' := by
  cases Server.Move.of_step hs with
  | refuse | closeMsg | shutdown => exact ⟨h.mux, h.served⟩
  | accept =>
    refine ⟨h.mux, fun i x hx => ?_⟩
    rcases List.mem_append.1 (List.mem_of_getElem? hx) with hmem | hmem
    · obtain ⟨j, hj⟩ := List.mem_iff_getElem?.1 hmem
      exact h.served j x hj
    · obtain rfl := List.mem_singleton.1 hmem
      exact ⟨by simp [Client.new], by simp [Client.new], .new _⟩
  | client i e x client queued hx ha hcs hne =>
    refine ⟨h.mux, fun j y hy => ?_⟩
    rcases List.mem_or_eq_of_mem_set (List.mem_of_getElem? hy) with hmem | rfl
    · obtain ⟨j', hj'⟩ := List.mem_iff_getElem?.1 hmem
      exact h.served j' y hj'
    · exact (h.served i x hx).event h.mux ha hcs hne
  | dispatch i x client f sys queued hx hcs hpc hsys =>
    have hmux : ResponseInv sys.mux := h.mux.sysStep hsys (by simp [Sys.cleans])
    refine ⟨hmux, fun j y hy => ?_⟩
    rcases List.mem_or_eq_of_mem_set (List.mem_of_getElem? hy) with hmem | rfl
    · obtain ⟨j', hj'⟩ := List.mem_iff_getElem?.1 hmem
      exact (h.served j' y hj').sysStep hsys
    · exact (h.served i x hx).dispatch hcs hpc hsys
  | sys l sys hne hss => exact ⟨h.mux.sysStep hss hl, fun i x hx => (h.served i x hx).sysStep hss⟩

/-- The bytes written to a client are complete shard frames, one for each request whose `execute`
has returned (but for one whose reply is being written), in the order of the requests and each with
its request's id. -/
structure RepliedInOrder (c : Client) : Prop where
  order : c.returned.map Prod.fst <+: requests c.frames
  replies : ∃ done replies, c.returned = done ++ c.pc.unwritten ∧ c.written = replies.flatten ∧
    List.Forall₂ (fun p reply => IsShardFrame p.1.originalClrid reply) done replies

/-- As long as no `cleanup` answers a call that still waits, every client to whom the writes succeed
gets one reply for each request, in order. -/
theorem replies_in_order {s : Server}
    (h : ReachWith (Server.step cfg) (Server.SparesWaiters cfg) (Server.init cfg) s) {i : Nat} {x : Served}
    (hx : s.clients[i]? = some x) (hw : ∀ o ∈ x.client.outcomes, o.2 = true) : RepliedInOrder x.client := by
  have hinv : ReplyInv s := h.induct .init fun _ _ _ _ hi hl hs => hi.step hl hs
  obtain ⟨-, hret, hlog⟩ := hinv.served i x hx
  obtain ⟨done, hd, hwr⟩ := hlog.replied
  refine ⟨⟨_, hlog.order.symm⟩, done, _, hd, hwr hw, ?_⟩
  rw [List.forall₂_map_right_iff, List.forall₂_same]
  exact fun p hp => hret p (by rw [hd]; exact List.mem_append_left _ hp)

instance (m : Mux) (c start : Nat) : Decidable (m.SparesWaiters cfg c start) :=
  inferInstanceAs (Decidable (∀ conn ∈ m.conns[c]?, ∀ e ∈ conn.demux.entries,
    e.2.2 + cfg.cleanupAge < start → m.waiting e.2.1 = false))

instance (s : Server) (l : ServerLabel) : Decidable (s.SparesWaiters cfg l) :=
  match l with
  | .sys l =>
    decidable_of_iff (∀ x ∈ s.sys.cleans l, s.sys.mux.SparesWaiters cfg x.1 x.2)
      ⟨fun h c start hc => h (c, start) hc, fun h x hx => h x.1 x.2 hx⟩
  | .accept | .client .. | .closeMsg | .shutdown => isTrue trivial

/-- A write that is answered by its backend. -/
theorem replies_in_order_answered :
    ∃ (s : Server) (x : Served), ReachWith (Server.step {}) (Server.SparesWaiters {}) (Server.init {}) s ∧
      s.clients[0]? = some x ∧ x.client.written = prependHeader 9 [2, 0x4F, 0x4B, 0, 0] ∧
        RepliedInOrder x.client := by
  obtain ⟨s, hs, -, hp⟩ := Reach.of_any
    (guarded (fun s l => decide (Server.SparesWaiters {} s l)) (Server.step {})) (Server.init {})
    (List.flatten [(Sys.leaderUp "a" []).map .sys, [.accept], Server.writeRequest 0 0 (prependHeader 9 [5]),
      (Sys.reply 0 (prependHeader 1 [2, 0x4F, 0x4B, 0, 0])).map .sys,
      [.sys (.mux (.receive 0)), .client 0 (.returned (.ok (prependHeader 9 [2, 0x4F, 0x4B, 0, 0]))),
        .client 0 .wrote]])
    (fun s => (s.clients[0]?).any fun x =>
      x.client.written = prependHeader 9 [2, 0x4F, 0x4B, 0, 0] ∧ ∀ o ∈ x.client.outcomes, o.2 = true)
    (by decide +kernel)
  obtain ⟨x, hx, hpx⟩ := (Option.any_eq_true _ _).1 hp
  obtain ⟨hwr, ho⟩ := of_decide_eq_true hpx
  have hr := ReachWith.of_guarded (fun s l hd => of_decide_eq_true hd) .refl hs
  exact ⟨s, x, hr, hx, hwr, replies_in_order hr hx ho⟩

/-- The leader closes its end while a write awaits. Five seconds later the next write makes its
selection clean up the connection, the first client's `execute` returns an empty response, and the
client gets nothing. -/
theorem cleanup_answers_nothing :
    ∃ (s : Server) (x : Served), Reach (Server.step {}) (Server.init {}) s ∧ s.clients[0]? = some x ∧
      (∀ o ∈ x.client.outcomes, o.2 = true) ∧ x.client.returned.map Prod.snd = [.ok []] ∧
        x.client.pc = .draining ∧
      x.client.written = [] ∧ ¬ RepliedInOrder x.client := by
  obtain ⟨s, -, hr, hp⟩ := Reach.of_any (Server.step {}) (Server.init {})
    (List.flatten [(Sys.leaderUp "a" []).map .sys, (Sys.followersUp []).map .sys, [.accept, .accept],
      Server.writeRequest 0 0 (prependHeader 9 [5]),
      ([.mux (.readEnd 0), .mux (.readerStop 0), .mux (.tick 5000000000)] : List SysLabel).map .sys,
      Server.request 1 true (prependHeader 8 [6]),
      ([.mux (.start 1), .sel 1, .acquire (.call 1), .sel 1, .acquire (.call 1), .sel 1, .sel 1,
        .acquire (.call 1), .sel 1,
        .mux (.receive 0)] : List SysLabel).map .sys,
      [.client 0 (.returned (.ok [])), .client 0 .wrote]])
    (fun s => (s.clients[0]?).any fun x => (∀ o ∈ x.client.outcomes, o.2 = true) ∧
      x.client.returned.map Prod.snd = [.ok []] ∧
      x.client.pc = .draining ∧ x.client.written = [])
    (by decide +kernel)
  obtain ⟨x, hx, hpx⟩ := (Option.any_eq_true _ _).1 hp
  obtain ⟨ho, hret, hpc, hwr⟩ := of_decide_eq_true hpx
  refine ⟨s, x, hr, hx, ho, hret, hpc, hwr, fun hi => ?_⟩
  obtain ⟨done, replies, hd, hfl, hall⟩ := hi.replies
  rw [hpc] at hd
  have hlen : done.length = 1 := by
    have := congrArg List.length hret
    simpa [hd, ClientPc.unwritten] using this
  cases hall with
  | nil => cases hlen
  | cons hreply _ =>
    have h9 := hreply.nine_le
    rw [hwr, List.flatten_cons] at hfl
    rw [(List.append_eq_nil_iff.1 hfl.symm).1] at h9
    simp at h9

end RzBridge

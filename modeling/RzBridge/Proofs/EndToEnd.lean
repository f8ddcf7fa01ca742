import RzBridge.Proofs.Buffers
import RzBridge.Proofs.Delivery

/-!
# From a client's request to its answer

What a client gets for a request, followed through the whole bridge: `OutcomeInv` says of every call what
was accepted for it when it ends well and how often it tried when it does not; with the ownership of
senders (`MuxInv`) and of calls (`OwnedBy`) this ties each answer to the frame that one backend sent in
return for this request. Where the backends are functions of the frames they get, the bridge cannot be
told from a direct connection (`answered_as_directly`).
-/

namespace RzBridge
open Machine LittleEndian

variable {cfg : Config}

/-! ### How calls end -/

/-- What is known of call `k` once it has drawn an id, was accepted, or failed. -/
structure CallOutcome (conns : List Conn) (k : Nat) (call : Call) : Prop where
  last : ∀ c id, call.pc.at = some (c, id) → call.last = some (c, id)
  accepted : ∀ c id, call.last = some (c, id) → (call.pc = .await c id ∨ ∃ r, call.pc = .done (.ok r)) →
    ∃ conn, conns[c]? = some conn ∧ (⟨k, call.attempts⟩, call.frame) ∈ conn.accepted ∧
      call.frame = setClrid id call.shardFrame
  failed : ∀ e, call.pc = .done (.error e) → e = .validation "invalid shard frame" ∨
    call.attempts = 3 ∧ (e = call.noConn ∨ e = .timeout)
  tries : call.attempts ≤ 3 ∧ ((∀ r, call.pc ≠ .done r) → call.attempts < 3)

theorem CallOutcome.new (conns : List Conn) (k : Nat) (w : Bool) (f : Bytes) :
    CallOutcome conns k { isWrite := w, shardFrame := f, frame := f } where
  last c id h := by cases h
  accepted c id h := by cases h
  failed e h := by cases h
  tries := ⟨by simp, by simp⟩

variable {conns conns' : List Conn} {k : Nat} {call : Call}

theorem CallOutcome.mono (h : CallOutcome conns k call)
    (hle : ∀ (c : Nat) (conn : Conn), conns[c]? = some conn →
      ∃ conn', conns'[c]? = some conn' ∧ ∀ e ∈ conn.accepted, e ∈ conn'.accepted) :
    CallOutcome conns' k call := by
  refine ⟨h.last, fun c id hl hp => ?_, h.failed, h.tries⟩
  obtain ⟨conn, hc, hacc, hf⟩ := h.accepted c id hl hp
  obtain ⟨conn', hc', hle'⟩ := hle c conn hc
  exact ⟨conn', hc', hle' _ hacc, hf⟩

theorem CallOutcome.move (h : CallOutcome conns k call) {pc : CallPc} (slot : Slot)
    (hat : pc.at = none ∨ pc.at = call.pc.at) (hacc : ∀ c id, pc ≠ .await c id) (hrun : ∀ r, pc ≠ .done r)
    (hwas : ∀ r, call.pc ≠ .done r) : CallOutcome conns k { call with pc, slot } := by
  refine ⟨fun c id hat' => ?_, fun c id _ hp => ?_, fun e hp => absurd hp (hrun _), h.tries.1, fun _ => h.tries.2 hwas⟩
  · rcases hat with hat | hat
    · cases hat.symm.trans hat'
    · exact h.last c id (hat.symm.trans hat')
  · rcases hp with hp | ⟨r, hp⟩
    · exact absurd hp (hacc c id)
    · exact absurd hp (hrun _)

theorem CallOutcome.retry (h : CallOutcome conns k call) {e : RZError} (he : e = call.noConn ∨ e = .timeout)
    (hwas : ∀ r, call.pc ≠ .done r) : CallOutcome conns k (call.retry e) := by
  have hlt := h.tries.2 hwas
  unfold Call.retry
  by_cases h3 : call.attempts + 1 ≥ 3
  · rw [if_pos h3]
    refine ⟨(fun c id hat => by cases hat), fun c id _ hp => ?_, fun e' hp => ?_, ?_, fun hrun => ?_⟩
    · rcases hp with hp | ⟨r, hp⟩ <;> cases hp
    · cases hp
      have h3' : call.attempts + 1 = 3 := by omega
      exact .inr ⟨h3', he⟩
    · show call.attempts + 1 ≤ 3
      omega
    · exact absurd rfl (hrun (.error e))
  · rw [if_neg h3]
    refine ⟨(fun c id hat => by cases hat), fun c id _ hp => ?_, (fun e' hp => by cases hp), ?_, fun _ => ?_⟩
    · rcases hp with hp | ⟨r, hp⟩ <;> cases hp
    · show call.attempts + 1 ≤ 3
      omega
    · show call.attempts + 1 < 3
      omega

theorem CallOutcome.step {m m' : Mux} {l : MuxLabel} {call' : Call} (h₀ : CallOutcome m.conns k call)
    (hs : m.step cfg l = some m') (hstep : CallStep m l k call call') (hframe : CallFrame m.conns k call)
    (hk' : m'.calls[k]? = some call') (hk : m.calls[k]? = some call) : CallOutcome m'.conns k call' := by
  have hfwd : ∀ (c : Nat) (conn : Conn), m.conns[c]? = some conn →
      ∃ conn', m'.conns[c]? = some conn' ∧ ∀ e ∈ conn.accepted, e ∈ conn'.accepted := by
    intro c conn hc
    obtain ⟨conn', hc', hx⟩ := Mux.step_conn_fwd hs hc
    refine ⟨conn', hc', fun e he => ?_⟩
    obtain heq | ⟨_, _, _, -, -, -, heq⟩ := hx.accepted
    · exact heq ▸ he
    · exact heq ▸ List.mem_append_left _ he
  have h := h₀.mono hfwd
  cases hstep with
  | refl => exact h
  | slot s hp => exact ⟨h.last, h.accepted, h.failed, h.tries⟩
  | reject hp =>
    refine ⟨(fun c id hat => by cases hat), fun c id _ hx => ?_, fun e he => ?_, h.tries.1, fun hrun => ?_⟩
    · rcases hx with hx | ⟨r, hx⟩ <;> cases hx
    · cases he
      exact .inl rfl
    · exact absurd rfl (hrun _)
  | begin hp | wake hp => exact h.move call.slot (.inl rfl) (by simp) (by simp) (by simp [hp])
  | noConn r hl hp => exact h.retry (.inl rfl) (by simp [hp])
  | refused c id hl hp | dropped c id hp => exact h.retry (.inr rfl) (by simp [hp])
  | selected c hl hp => exact h.move call.slot (.inl rfl) (by simp) (by simp) (by simp [hp])
  | draw c conn hl hp hc =>
    refine ⟨fun c' id' hat => hat, fun c' id' _ hx => ?_, (fun e he => by cases he), h.tries.1, fun _ => ?_⟩
    · rcases hx with hx | ⟨r, hx⟩ <;> cases hx
    · exact h.tries.2 (by simp [hp])
  | lockStore c id t hp | store c id t s hp =>
    exact h.move _ (.inr (by rw [hp]; rfl)) (by simp) (by simp) (by simp [hp])
  | send c id hl hp =>
    refine ⟨fun c' id' hat => h.last c' id' (by rw [hp]; exact hat), fun c' id' hlast _ => ?_,
      (fun e he => by cases he), h.tries.1, fun _ => h.tries.2 (by simp [hp])⟩
    -- the frame was appended in this very step
    have hcid : (c, id) = (c', id') :=
      Option.some.inj ((h.last c id (by rw [hp]; rfl)).symm.trans hlast)
    cases hcid
    subst hl
    obtain ⟨call₁, c₁, conn₁, id₁, hk₁, hp₁, hc₁, ⟨-, rfl⟩ | ⟨-, rfl⟩⟩ := Mux.callSend_some hs
    · rw [Mux.setCall_self hk₁] at hk'
      obtain rfl := Option.some.inj (hk.symm.trans hk₁)
      have hpc := congrArg Call.pc (Option.some.inj hk')
      simp only [Call.retry] at hpc
      split at hpc <;> cases hpc
    · obtain rfl := Option.some.inj (hk.symm.trans hk₁)
      obtain ⟨rfl, rfl⟩ : c = c₁ ∧ id = id₁ := by simpa using hp.symm.trans hp₁
      refine ⟨_, Mux.setConn_self hc₁, List.mem_append_right _ (List.mem_singleton_self _), ?_⟩
      exact (hframe.drawn c id (by rw [hp]; rfl)).1
  | answer c id b hp hb =>
    refine ⟨(fun c' id' hat => by cases hat), fun c' id' hlast _ => ?_, (fun e he => by cases he),
      h.tries.1, fun hrun => absurd rfl (hrun _)⟩
    have hcid : (c, id) = (c', id') :=
      Option.some.inj ((h.last c id (by rw [hp]; rfl)).symm.trans hlast)
    cases hcid
    exact h.accepted c id hlast (.inl hp)

def OutcomeInv (m : Mux) : Prop :=
  ∀ (k : Nat) (call : Call), m.calls[k]? = some call → CallOutcome m.conns k call

theorem OutcomeInv.of_reach {m : Mux} (h : Reach (Mux.step cfg) {} m) : OutcomeInv m := by
  refine h.induct (I := OutcomeInv) (fun k call hk => by simp at hk) ?_
  intro m l m' hr ih hs k call' hk'
  obtain ⟨call, hk, hstep⟩ | ⟨-, w, f, -, rfl⟩ := Mux.step_call hs hk'
  · exact (ih k call hk).step hs hstep ((FrameInv.of_reach hr).calls k call hk) hk' hk
  · exact .new _ k w f

/-! ### Where an answer comes from -/

/-- Frame number `idx` received on connection `c` was handed to the call of request `n` of client `i`, which
is `f`, and answers it with `r`: it came under the id under which that connection was given the request,
and `r` is this frame with the client's own id. -/
def AnsweredBy (s : Server) (owner : List (Nat × Nat)) (i n : Nat) (f : RouterFrame) (r : Bytes) (c idx : Nat) :
    Prop :=
  ∃ conn tok id hdr b, s.sys.mux.conns[c]? = some conn ∧ owner[tok.call]? = some (i, n) ∧
    (tok, setClrid id f.shardFrame) ∈ conn.accepted ∧ DrawnAt conn id tok ∧
    conn.received[idx]? = some (hdr, b) ∧ hdr.clrId = id ∧ (idx, tok) ∈ conn.delivered ∧
    r = setClrid f.originalClrid b

/-- What a client can get for the request `f`, number `n` of client `i`. -/
inductive Outcome (s : Server) (owner : List (Nat × Nat)) (i n : Nat) (f : RouterFrame) :
    Except RZError Bytes → Prop
  | invalid : Outcome s owner i n f (.error (.validation "invalid shard frame"))
  | unavailable :
      Outcome s owner i n f (.error (if f.isWrite then .noLeaderAvailable else .noFollowerNodeAvailable))
  | timeout : Outcome s owner i n f (.error .timeout)
  /-- from `cleanup` -/
  | empty : Outcome s owner i n f (.ok [])
  | answered (r : Bytes) (c idx : Nat) (h : AnsweredBy s owner i n f r c idx) : Outcome s owner i n f (.ok r)

variable {s : Server} {owner : List (Nat × Nat)}

theorem OwnedBy.answered {i n : Nat} {x : Served} {f : RouterFrame} {r : Except RZError Bytes}
    (h : OwnedBy s owner) (hx : s.clients[i]? = some x) (hr : x.client.returned[n]? = some (f, r)) :
    ∃ (k : Nat) (call : Call), owner[k]? = some (i, n) ∧ s.sys.mux.calls[k]? = some call ∧
      call.isWrite = f.isWrite ∧
      call.shardFrame = f.shardFrame ∧ call.pc = .done r := by
  have hn : n < x.client.returned.length := (List.getElem?_eq_some_iff.1 hr).1
  have hmem : (i, n) ∈ owner := (h.asked i n).2 ⟨x, hx, Nat.lt_add_right _ hn⟩
  obtain ⟨k, hown⟩ := List.mem_iff_getElem?.1 hmem
  have hk : k < s.sys.mux.calls.length := h.len ▸ (List.getElem?_eq_some_iff.1 hown).1
  obtain ⟨g, hw, hf, ⟨r', hr', hp⟩ | ⟨hlast, -⟩⟩ := h.serves k i n _ x hown (List.getElem?_eq_getElem hk) hx
  · rw [hr] at hr'
    cases hr'
    exact ⟨k, _, hown, List.getElem?_eq_getElem hk, hw, hf, hp⟩
  · omega

theorem Taken.originalClrid {f : RouterFrame} {call : Call} (h : Taken cfg f)
    (hf : call.shardFrame = f.shardFrame) : call.originalClrid = f.originalClrid := by
  obtain ⟨buf, hd⟩ := h.decoded
  rw [Call.originalClrid, hf, hd.clrid]

theorem Taken.of_returned (h : Reach (Server.step cfg) (Server.init cfg) s) {x : Served} (hx : x ∈ s.clients)
    {p : RouterFrame × Except RZError Bytes} (hp : p ∈ x.client.returned) : Taken cfg p.1 :=
  ((ReplyLog.of_reach h x hx).taken (Client.Bounded.of_reach h x hx)).1 p hp

theorem OwnedBy.outcome (ho : OwnedBy s owner) (h : Reach (Server.step cfg) (Server.init cfg) s)
    (hb : s.sys.mux.Bounded) {i n : Nat} {x : Served} {f : RouterFrame} {r : Except RZError Bytes}
    (hx : s.clients[i]? = some x) (hr : x.client.returned[n]? = some (f, r)) : Outcome s owner i n f r := by
  have hmux := Sys.reach_mux (Server.reach_sys h)
  have hm : MuxInv s.sys.mux := .of_reach hmux hb
  have htaken := Taken.of_returned h (List.mem_of_getElem? hx) (List.mem_of_getElem? hr)
  obtain ⟨k, call, hown, hk, hw, hf, hp⟩ := ho.answered hx hr
  have hcall := OutcomeInv.of_reach hmux k call hk
  rcases r with e | resp
  · obtain rfl | ⟨-, rfl | rfl⟩ := hcall.failed e hp
    · exact .invalid
    · rw [Call.noConn, hw]
      exact .unavailable
    · exact .timeout
  · obtain rfl | ⟨c, id, conn, b, hl, hc, hd, ⟨idx, hdr, hrec, hid, hdel⟩, rfl⟩ := (hm.calls k call hk).done resp hp
    · exact .empty
    · obtain ⟨conn', hc', hacc, hframe⟩ := hcall.accepted c id hl (.inr ⟨_, hp⟩)
      obtain rfl := Option.some.inj (hc.symm.trans hc')
      rw [hframe, hf] at hacc
      exact .answered _ c idx ⟨conn, _, id, hdr, b, hc, hown, hacc, hd, hrec, hid, hdel,
        by rw [htaken.originalClrid hf]⟩

/-- Everything that any client ever got from `execute` is an error for this request, the empty response of a
`cleanup`, or the frame that a backend sent under the id under which it was given this very request; no
two requests, of one client or of two, are answered from the same frame. -/
theorem answers_come_from_requests (h : Reach (Server.step cfg) (Server.init cfg) s) (hb : s.sys.mux.Bounded) :
    ∃ owner : List (Nat × Nat), OwnedBy s owner ∧
      (∀ (i n : Nat) (x : Served) (f : RouterFrame) (r : Except RZError Bytes), s.clients[i]? = some x →
        x.client.returned[n]? = some (f, r) → Outcome s owner i n f r) ∧
      ∀ (i n i' n' : Nat) (f f' : RouterFrame) (r r' : Bytes) (c idx : Nat), AnsweredBy s owner i n f r c idx →
        AnsweredBy s owner i' n' f' r' c idx → i = i' ∧ n = n' := by
  have hm : MuxInv s.sys.mux := .of_reach (Sys.reach_mux (Server.reach_sys h)) hb
  obtain ⟨owner, ho⟩ := OwnedBy.of_reach h
  refine ⟨owner, ho, fun i n x f r hx hr => ho.outcome h hb hx hr, ?_⟩
  rintro i n i' n' f f' r r' c idx ⟨conn, tok, id, hdr, b, hc, hown, -, -, -, -, hdel, -⟩
    ⟨conn', tok', id', hdr', b', hc', hown', -, -, -, -, hdel', -⟩
  obtain rfl := Option.some.inj (hc.symm.trans hc')
  have htok : tok = tok' := congrArg Prod.snd ((hm.conns c conn hc).delivered_inj _ hdel _ hdel' rfl)
  rw [← htok, hown] at hown'
  exact Prod.mk.inj (Option.some.inj hown')

theorem answers_come_from_requests_first : ∃ (s : Server) (x : Served) (f : RouterFrame)
    (owner : List (Nat × Nat)), exec (Server.step {}) (Server.init {}) answeredFirst = some s ∧
      s.clients[1]? = some x ∧ x.client.returned = [(f, .ok (prependHeader 8 [2, 0x4F, 0x4B, 0, 0]))] ∧
      OwnedBy s owner ∧ Outcome s owner 1 0 f (.ok (prependHeader 8 [2, 0x4F, 0x4B, 0, 0])) := by
  obtain ⟨s, hs, hr, hp⟩ := Reach.of_any (Server.step {}) (Server.init {}) answeredFirst
    (fun s => decide s.sys.mux.Bounded && (s.clients[1]?).any fun x : Served =>
      decide (x.client.returned.map Prod.snd = [.ok (prependHeader 8 [2, 0x4F, 0x4B, 0, 0])])) (by decide +kernel)
  obtain ⟨hb, hp⟩ := Bool.and_eq_true_iff.1 hp
  obtain ⟨x, hx, hret⟩ := (Option.any_eq_true _ _).1 hp
  obtain ⟨⟨f, r⟩, hret, rfl⟩ : ∃ p, x.client.returned = [p] ∧
      p.2 = .ok (prependHeader 8 [2, 0x4F, 0x4B, 0, 0]) := by
    have hmap := of_decide_eq_true hret
    cases hl : x.client.returned with
    | nil => simp [hl] at hmap
    | cons p ps =>
      simp only [hl, List.map_cons, List.cons.injEq, List.map_eq_nil_iff] at hmap
      exact ⟨p, by rw [hmap.2], hmap.1⟩
  obtain ⟨owner, ho, hout, -⟩ := answers_come_from_requests hr (of_decide_eq_true hb)
  exact ⟨s, x, f, owner, hs, hx, hret, ho, hout 1 0 x f _ hx (by rw [hret]; rfl)⟩

/-! ### As if connected directly -/

/-- What a backend that computes its responses with `serve`, from all of a frame but its id, and echoes
the id sends back for `f`. -/
def respond (serve : Bytes → Bytes) (f : Bytes) : Bytes :=
  prependHeader (u32FromLeBytes (slice f 1 5)) (serve (f.drop 5))

theorem drop_setClrid (id : UInt32) {f : Bytes} (h : 5 ≤ f.length) : (setClrid id f).drop 5 = f.drop 5 := by
  have hlen : (f.take 1 ++ u32ToLeBytes id).length = 5 := by
    simp
    omega
  rw [setClrid, patch, List.drop_left' hlen, length_u32ToLeBytes]

/-- Where all that the connections received are the responses of such backends to frames they were given, a
client gets for each request what the backend would have sent to it directly, unless it gets an error or
the empty response of a `cleanup`. -/
theorem answered_as_directly (serve : Bytes → Bytes) (h : Reach (Server.step cfg) (Server.init cfg) s)
    (hb : s.sys.mux.Bounded)
    (hserve : ∀ conn ∈ s.sys.mux.conns, ∀ e ∈ conn.received, ∃ a ∈ conn.accepted, e.2 = respond serve a.2) :
    ∀ x ∈ s.clients, ∀ p ∈ x.client.returned,
      p.2 = .ok (respond serve p.1.shardFrame) ∨ p.2 = .ok [] ∨ ∃ e, p.2 = .error e := by
  rintro x hmem ⟨f, r⟩ hp
  have hmux := Sys.reach_mux (Server.reach_sys h)
  have hm : MuxInv s.sys.mux := .of_reach hmux hb
  obtain ⟨owner, ho⟩ := OwnedBy.of_reach h
  obtain ⟨i, hx⟩ := List.mem_iff_getElem?.1 hmem
  obtain ⟨n, hr⟩ := List.mem_iff_getElem?.1 hp
  obtain ⟨buf, hdec⟩ := (Taken.of_returned h hmem hp).decoded
  cases ho.outcome h hb hx hr with
  | invalid | unavailable | timeout => exact .inr (.inr ⟨_, rfl⟩)
  | empty => exact .inr (.inl rfl)
  | answered resp c idx ha =>
    left
    obtain ⟨conn, tok, id, hdr, b, hc, -, hacc, hd, hrec, hid, -, rfl⟩ := ha
    obtain ⟨a, ha, he⟩ := hserve conn (List.mem_of_getElem? hc) _ (List.mem_of_getElem? hrec)
    change b = respond serve a.2 at he
    -- the frame answered carries the id of the answer, which only this request was given under
    obtain ⟨payload, -, hpay⟩ := (hm.conns c conn hc).received _ (List.mem_of_getElem? hrec)
    change b = prependHeader hdr.clrId payload at hpay
    have hclr : u32FromLeBytes (slice a.2 1 5) = id := by
      have hslice := congrArg (fun b => u32FromLeBytes (slice b 1 5)) (he.symm.trans hpay)
      simpa only [respond, slice_prependHeader_clrid, u32FromLeBytes_toLeBytes, hid] using hslice
    obtain ⟨id', call', hd', hk', hck', ha'⟩ := ((FrameInv.of_reach hmux).conns c conn hc).accepted a ha
    have hid' : id' = id := by
      rw [← hclr, ha']
      exact (clrid_setClrid id' (Nat.le_trans (by decide) hck'.1)).symm
    have htok : a.1 = tok := DrawnAt.tok_eq (hb c conn hc) hd' (hid' ▸ hd)
    have hframe : a.2 = setClrid id f.shardFrame := by
      obtain ⟨id₂, call₂, -, hk₂, hck₂, hf₂⟩ := ((FrameInv.of_reach hmux).conns c conn hc).accepted _ hacc
      rw [htok] at hk'
      obtain rfl := Option.some.inj (hk'.symm.trans hk₂)
      -- both are the frame of one call, under the same id
      have h5 : 5 ≤ call'.shardFrame.length := Nat.le_trans (by decide) hck'.1
      change setClrid id f.shardFrame = setClrid id₂ call'.shardFrame at hf₂
      have hsame := congrArg (setClrid id) hf₂
      rw [setClrid_setClrid hdec.shardLen, setClrid_setClrid h5] at hsame
      rw [ha', hid', hsame]
    rw [he, hframe, respond, clrid_setClrid id hdec.shardLen, drop_setClrid id hdec.shardLen,
      setClrid_prependHeader, respond, ← hdec.clrid]

theorem answered_as_directly_first : ∃ (s : Server) (x : Served),
    exec (Server.step {}) (Server.init {}) answeredFirst = some s ∧ s.clients[1]? = some x ∧
      x.client.returned.map Prod.snd = [.ok (prependHeader 8 [2, 0x4F, 0x4B, 0, 0])] ∧
      ∀ p ∈ x.client.returned, p.2 = .ok (respond (fun _ => [2, 0x4F, 0x4B, 0, 0]) p.1.shardFrame) ∨
        p.2 = .ok [] ∨ ∃ e, p.2 = .error e := by
  obtain ⟨s, hs, hr, hp⟩ := Reach.of_any (Server.step {}) (Server.init {}) answeredFirst
    (fun s => decide (s.sys.mux.Bounded ∧ ∀ conn ∈ s.sys.mux.conns, ∀ e ∈ conn.received, ∃ a ∈ conn.accepted,
      e.2 = respond (fun _ => [2, 0x4F, 0x4B, 0, 0]) a.2) && (s.clients[1]?).any fun x : Served =>
        decide (x.client.returned.map Prod.snd = [.ok (prependHeader 8 [2, 0x4F, 0x4B, 0, 0])])) (by decide +kernel)
  obtain ⟨hb, hp⟩ := Bool.and_eq_true_iff.1 hp
  obtain ⟨hb, hserve⟩ := of_decide_eq_true hb
  obtain ⟨x, hx, hret⟩ := (Option.any_eq_true _ _).1 hp
  exact ⟨s, x, hs, hx, of_decide_eq_true hret, answered_as_directly _ hr hb hserve x (List.mem_of_getElem? hx)⟩

end RzBridge

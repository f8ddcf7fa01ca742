import RzBridge.Proofs.FrameInv
import RzBridge.Proofs.Replies

/-!
# Requests and calls

Which `execute` call was made for which request. `OwnedBy` goes by a list of pairs, one for each call in the
order of the calls: the client and the number of its request. Every request has one call and every call
one request; a call has its request's data, is over once the client has its result, and until then it
is the one that the client waits for.
-/

namespace RzBridge
open Machine

variable {cfg : Config}

/-! ### One client -/

theorem ReplyLog.of_reach {s : Server} (h : Reach (Server.step cfg) (Server.init cfg) s) :
    ∀ x ∈ s.clients, ReplyLog x.client :=
  Server.client_induct h .new fun _ _ _ _ hl hs => hl.step hs

/-- The number of requests that were given to `execute`. -/
def Client.asked (c : Client) : Nat := c.returned.length + c.pc.running.length

theorem ReplyLog.asked {c : Client} (h : ReplyLog c) : (requests c.frames).length = c.asked := by
  rw [h.order, List.length_append, List.length_map]
  rfl

theorem Client.of_executing {now : Nat} {c c' : Client} {e : ClientEvent} {f : RouterFrame}
    (hs : c.step cfg (now, e) = some c') (hpc : c.pc = .executing f) :
    ∃ r, e = .returned r ∧ c' = { c with pc := .replying f r, returned := c.returned ++ [(f, r)] } := by
  cases Client.Move.of_step hs with
  | returned f' r hpc' =>
    obtain rfl : f = f' := by simpa using hpc.symm.trans hpc'
    exact ⟨r, rfl, rfl⟩
  | _ => simp_all

/-- What an event other than a new request does: it returns the result of the request in `execute`, or no
request is in `execute` before it or after it. -/
theorem Client.event_cases {now : Nat} {c c' : Client} {e : ClientEvent}
    (hs : c.step cfg (now, e) = some c') (hne : e = .drain → ∀ f, c'.pc ≠ .executing f) :
    (c'.returned = c.returned ∧ c.pc.running = [] ∧ c'.pc.running = []) ∨
      ∃ f r, e = .returned r ∧ c.pc = .executing f ∧ c'.pc = .replying f r ∧
        c'.returned = c.returned ++ [(f, r)] := by
  have hrun : c'.pc.running = [] := by
    cases hpc : c'.pc with
    | executing f => exact absurd hpc (hne (Client.executing_of_step hs hpc) f)
    | _ => rfl
  cases hpc : c.pc with
  | executing f =>
    obtain ⟨r, rfl, rfl⟩ := Client.of_executing hs hpc
    exact .inr ⟨f, r, rfl, rfl, rfl, rfl⟩
  | _ =>
    rcases Client.returned_of_step hs with he | ⟨f, r, -, hpc', -⟩
    · exact .inl ⟨he, rfl, hrun⟩
    · cases hpc.symm.trans hpc'

theorem Client.asked_of_step {now : Nat} {c c' : Client} {e : ClientEvent}
    (hs : c.step cfg (now, e) = some c') (hne : e = .drain → ∀ f, c'.pc ≠ .executing f) :
    c'.asked = c.asked := by
  unfold Client.asked
  obtain ⟨he, hrun, hrun'⟩ | ⟨f, r, -, hpc, hpc', he⟩ := Client.event_cases hs hne
  · rw [he, hrun, hrun']
  · rw [he, hpc, hpc', List.length_append]
    rfl

theorem Client.running_of_drain {now : Nat} {c c' : Client} (hs : c.step cfg (now, .drain) = some c') :
    c.pc.running = [] := by
  cases hpc : c.pc with
  | executing f =>
    obtain ⟨r, he, -⟩ := Client.of_executing hs hpc
    cases he
  | _ => rfl

/-! ### The call of a request -/

/-- `call`, number `k`, was made for `f`, request number `n` of the client. -/
structure Serves (x : Served) (n k : Nat) (call : Call) (f : RouterFrame) : Prop where
  isWrite : call.isWrite = f.isWrite
  shardFrame : call.shardFrame = f.shardFrame
  state : (∃ r, x.client.returned[n]? = some (f, r) ∧ call.pc = .done r) ∨
    n = x.client.returned.length ∧ x.client.pc = .executing f ∧ x.call = k

theorem CallStep.done {m : Mux} {l : MuxLabel} {k : Nat} {call call' : Call} {r : Except RZError Bytes}
    (h : CallStep m l k call call') (hp : call.pc = .done r) : call'.pc = .done r := by
  cases h <;> simp_all [CallPc.listening]

theorem Serves.callStep {m : Mux} {l : MuxLabel} {x : Served} {n k : Nat} {call call' : Call} {f : RouterFrame}
    (h : Serves x n k call f) (hs : CallStep m l k call call') : Serves x n k call' f where
  isWrite := hs.isWrite.trans h.isWrite
  shardFrame := hs.shardFrame.trans h.shardFrame
  state := h.state.imp_left fun ⟨r, hr, hp⟩ => ⟨r, hr, hs.done hp⟩

theorem Client.returned_prefix {now : Nat} {c c' : Client} {e : ClientEvent}
    (hs : c.step cfg (now, e) = some c') : c.returned <+: c'.returned := by
  rcases Client.returned_of_step hs with he | ⟨f, r, -, -, he⟩
  · rw [he]
  · rw [he]
    exact List.prefix_append _ _

theorem Serves.event {s : Server} {x : Served} {n k : Nat} {call : Call} {f : RouterFrame} {e : ClientEvent}
    {client : Client} (h : Serves x n k call f) (hk : s.sys.mux.calls[k]? = some call)
    (ha : s.allows x e = true) (hs : x.client.step cfg (s.sys.mux.now, e) = some client) :
    Serves { x with client } n k call f := by
  refine ⟨h.isWrite, h.shardFrame, .inl ?_⟩
  obtain ⟨r, hr, hp⟩ | ⟨rfl, hpc, rfl⟩ := h.state
  · exact ⟨r, getElem?_of_prefix (Client.returned_prefix hs) hr, hp⟩
  · obtain ⟨r, rfl, rfl⟩ := Client.of_executing hs hpc
    have hdone : call.pc = .done r := by simpa [Server.allows, hk] using ha
    exact ⟨r, by simp, hdone⟩

/-- A request is executed only when its predecessors have been answered. -/
theorem Serves.dispatch {now : Nat} {x : Served} {n k k' : Nat} {call : Call} {f : RouterFrame}
    {client : Client} (h : Serves x n k call f) (hs : x.client.step cfg (now, .drain) = some client) :
    Serves ⟨client, k'⟩ n k call f := by
  refine ⟨h.isWrite, h.shardFrame, .inl ?_⟩
  obtain ⟨r, hr, hp⟩ | ⟨-, hpc, -⟩ := h.state
  · exact ⟨r, getElem?_of_prefix (Client.returned_prefix hs) hr, hp⟩
  · obtain ⟨r, he, -⟩ := Client.of_executing hs hpc
    cases he

/-! ### All clients -/

theorem Mux.calls_length_of_step {m m' : Mux} {l : MuxLabel} (hs : m.step cfg l = some m')
    (hl : ∀ w f, l ≠ .spawn w f) : m'.calls.length = m.calls.length := by
  refine le_antisymm (Nat.le_of_not_lt fun hlt => ?_) (Mux.step_size hs).2
  obtain ⟨call, hk, -⟩ | ⟨-, w, f, he, -⟩ := Mux.step_call hs (List.getElem?_eq_getElem hlt)
  · exact absurd (Mux.lt_of_call hk) (Nat.lt_irrefl _)
  · exact hl w f he

/-- `owner` lists for each call the client and the number of the request it was made for. -/
structure OwnedBy (s : Server) (owner : List (Nat × Nat)) : Prop where
  len : owner.length = s.sys.mux.calls.length
  nodup : owner.Nodup
  asked : ∀ i n, (i, n) ∈ owner ↔ ∃ x, s.clients[i]? = some x ∧ n < x.client.asked
  serves : ∀ (k i n : Nat) (call : Call) (x : Served), owner[k]? = some (i, n) →
    s.sys.mux.calls[k]? = some call → s.clients[i]? = some x → ∃ f, Serves x n k call f

theorem OwnedBy.init : OwnedBy (Server.init cfg) [] where
  len := rfl
  nodup := List.nodup_nil
  asked i n := by simp [Server.init]
  serves k i n call x ho := by cases ho

variable {s : Server} {owner : List (Nat × Nat)}

theorem OwnedBy.accept (h : OwnedBy s owner) (t active : Nat) :
    OwnedBy { s with clients := s.clients ++ [{ client := Client.new t }], active } owner := by
  have hnew : (Client.new t).asked = 0 := rfl
  refine ⟨h.len, h.nodup, fun i n => ?_, fun k i n call x ho hk hx => ?_⟩
  · rw [h.asked]
    constructor
    · rintro ⟨x, hx, hn⟩
      exact ⟨x, getElem?_of_prefix (List.prefix_append _ _) hx, hn⟩
    · rintro ⟨x, hx, hn⟩
      rcases getElem?_snoc hx with hx | ⟨-, rfl⟩
      · exact ⟨x, hx, hn⟩
      · rw [hnew] at hn
        exact absurd hn (Nat.not_lt_zero n)
  · rcases getElem?_snoc hx with hx | ⟨hi, -⟩
    · exact h.serves k i n call x ho hk hx
    · -- a call has no request of a client that was not there
      obtain ⟨y, hy, -⟩ := (h.asked i n).1 (List.mem_of_getElem? ho)
      exact absurd (List.getElem?_eq_some_iff.1 hy).1 (by omega)

theorem OwnedBy.event {i : Nat} {e : ClientEvent} {x : Served} {client : Client} (h : OwnedBy s owner)
    (queued : Nat) (hx : s.clients[i]? = some x) (ha : s.allows x e = true)
    (hs : x.client.step cfg (s.sys.mux.now, e) = some client) (hne : e = .drain → ∀ f, client.pc ≠ .executing f) :
    OwnedBy { s with closeQueue := queued, clients := s.clients.set i { x with client } } owner := by
  obtain ⟨hi, hxi⟩ := List.getElem?_eq_some_iff.1 hx
  have hasked := Client.asked_of_step hs hne
  refine ⟨h.len, h.nodup, fun j n => ?_, fun k j n call y ho hk hy => ?_⟩
  · rw [h.asked]
    show _ ↔ ∃ y, (s.clients.set i { x with client })[j]? = some y ∧ n < y.client.asked
    rw [List.getElem?_set]
    by_cases hij : i = j
    · subst hij
      simp [hi, hxi, hasked]
    · simp [hij]
  · change (s.clients.set i { x with client })[j]? = some y at hy
    rw [List.getElem?_set] at hy
    split at hy
    next hij =>
      subst hij
      rw [Option.some.injEq] at hy
      subst hy
      obtain ⟨f, hf⟩ := h.serves k i n call x ho hk hx
      exact ⟨f, hf.event hk ha hs⟩
    next => exact h.serves k j n call y ho hk hy

theorem OwnedBy.dispatch {i : Nat} {x : Served} {client : Client} {f : RouterFrame} {sys : Sys}
    (h : OwnedBy s owner) (queued : Nat) (hx : s.clients[i]? = some x)
    (hs : x.client.step cfg (s.sys.mux.now, .drain) = some client) (hpc : client.pc = .executing f)
    (hsys : s.sys.step cfg (.mux (.spawn f.isWrite f.shardFrame)) = some sys) :
    OwnedBy
      { s with closeQueue := queued, sys, clients := s.clients.set i { client, call := s.sys.mux.calls.length } }
      (owner ++ [(i, x.client.returned.length)]) := by
  have hi := (List.getElem?_eq_some_iff.1 hx).1
  -- the request comes after all those that were answered
  obtain ⟨rest, -, -, hclient⟩ := Client.drain_executing hs hpc
  have hret : client.returned = x.client.returned := by rw [hclient]
  have hidle : x.client.asked = x.client.returned.length := by
    rw [Client.asked, Client.running_of_drain hs]
    rfl
  have hasked : client.asked = x.client.returned.length + 1 := by
    rw [Client.asked, hret, hpc]
    rfl
  have hcalls : sys.mux.calls = s.sys.mux.calls ++
      [{ isWrite := f.isWrite, shardFrame := f.shardFrame, frame := f.shardFrame }] := by
    obtain ⟨mux, hm, ⟨w, g, -, rfl⟩ | ⟨hne, -⟩⟩ := Sys.muxStep_some hsys
    · cases hm
      rfl
    · exact absurd rfl (hne _ _)
  have hnew : (i, x.client.returned.length) ∉ owner := by
    rw [h.asked]
    rintro ⟨y, hy, hn⟩
    obtain rfl := Option.some.inj (hx.symm.trans hy)
    omega
  refine ⟨?_, ?_, fun j n => ?_, fun k j n call y ho hk hy => ?_⟩
  · show (owner ++ _).length = sys.mux.calls.length
    rw [hcalls, List.length_append, List.length_append, h.len]
    rfl
  · exact List.Nodup.append h.nodup (List.nodup_singleton _) (by simpa using hnew)
  · rw [List.mem_append, List.mem_singleton, h.asked]
    show _ ↔ ∃ y, (s.clients.set i ⟨client, s.sys.mux.calls.length⟩)[j]? = some y ∧ n < y.client.asked
    rw [List.getElem?_set]
    by_cases hij : i = j
    · subst hij
      simp only [hx, hi, if_true, Option.some.injEq, exists_eq_left', hidle, hasked, Prod.mk.injEq, true_and]
      omega
    · simp only [hij, if_false, Prod.mk.injEq, Ne.symm hij, false_and, or_false]
  · change (s.clients.set i ⟨client, s.sys.mux.calls.length⟩)[j]? = some y at hy
    change sys.mux.calls[k]? = some call at hk
    rw [hcalls] at hk
    rcases getElem?_snoc ho with ho | ⟨hko, he⟩
    · -- an earlier call; its request has been answered if it is one of this client
      have hklt : k < s.sys.mux.calls.length := h.len ▸ (List.getElem?_eq_some_iff.1 ho).1
      rw [List.getElem?_append_left hklt] at hk
      rw [List.getElem?_set] at hy
      split at hy
      next hij =>
        subst hij
        rw [Option.some.injEq] at hy
        subst hy
        obtain ⟨g, hg⟩ := h.serves k i n call x ho hk hx
        exact ⟨g, hg.dispatch hs⟩
      next => exact h.serves k j n call y ho hk hy
    · cases he
      rw [List.getElem?_set_self hi, Option.some.injEq] at hy
      subst hy
      rcases getElem?_snoc hk with hk | ⟨hkl, rfl⟩
      · exact absurd (Mux.lt_of_call hk) (by rw [hko, h.len]; exact Nat.lt_irrefl _)
      · exact ⟨f, rfl, rfl, .inr ⟨by rw [hret], hpc, hkl.symm⟩⟩

theorem OwnedBy.sysStep {l : SysLabel} {sys : Sys} (h : OwnedBy s owner) (hs : s.sys.step cfg l = some sys)
    (hl : ∀ w f, l ≠ .mux (.spawn w f)) : OwnedBy { s with sys } owner := by
  rcases Sys.mux_project hs with he | ⟨l', hm, hint, -⟩
  · refine ⟨?_, h.nodup, h.asked, fun k i n call x ho hk hx => ?_⟩
    · show owner.length = sys.mux.calls.length
      rw [he, h.len]
    · exact h.serves k i n call x ho (he ▸ hk) hx
  · have hne : ∀ w f, l' ≠ .spawn w f := by
      rintro w f rfl
      exact hl w f (hint rfl)
    refine ⟨?_, h.nodup, h.asked, fun k i n call' x ho hk' hx => ?_⟩
    · show owner.length = sys.mux.calls.length
      rw [Mux.calls_length_of_step hm hne, h.len]
    · obtain ⟨call, hk, hstep⟩ | ⟨-, w, f, he, -⟩ := Mux.step_call hm hk'
      · obtain ⟨f, hf⟩ := h.serves k i n call x ho hk hx
        exact ⟨f, hf.callStep hstep⟩
      · exact absurd he (hne w f)

theorem OwnedBy.step {s' : Server} {l : ServerLabel} (h : OwnedBy s owner) (hs : s.step cfg l = some s') :
    ∃ owner', OwnedBy s' owner' := by
  cases Server.Move.of_step hs with
  | refuse | closeMsg | shutdown => exact ⟨owner, h.len, h.nodup, h.asked, h.serves⟩
  | accept => exact ⟨owner, h.accept _ _⟩
  | client i e x client queued hx ha hcs hne => exact ⟨owner, h.event queued hx ha hcs hne⟩
  | dispatch i x client f sys queued hx hcs hpc hsys => exact ⟨_, h.dispatch queued hx hcs hpc hsys⟩
  | sys l sys hl hss => exact ⟨owner, h.sysStep hss hl⟩

theorem OwnedBy.of_reach (h : Reach (Server.step cfg) (Server.init cfg) s) : ∃ owner, OwnedBy s owner :=
  h.induct (I := fun s => ∃ owner, OwnedBy s owner) ⟨[], .init⟩ fun _ _ _ _ hi hs => hi.elim fun _ ho => ho.step hs

theorem OwnedBy.current {i : Nat} {x : Served} {f : RouterFrame} (h : OwnedBy s owner)
    (hx : s.clients[i]? = some x) (hpc : x.client.pc = .executing f) :
    owner[x.call]? = some (i, x.client.returned.length) ∧
      ∃ call, s.sys.mux.calls[x.call]? = some call ∧ call.shardFrame = f.shardFrame := by
  have hmem : (i, x.client.returned.length) ∈ owner := by
    rw [h.asked]
    refine ⟨x, hx, ?_⟩
    rw [Client.asked, hpc]
    exact Nat.lt_succ_self _
  obtain ⟨k, ho⟩ := List.mem_iff_getElem?.1 hmem
  have hk : k < s.sys.mux.calls.length := h.len ▸ (List.getElem?_eq_some_iff.1 ho).1
  obtain ⟨g, -, hf, ⟨r, hr, -⟩ | ⟨-, hpc', rfl⟩⟩ := h.serves k i _ _ x ho (List.getElem?_eq_getElem hk) hx
  · simp at hr
  · obtain rfl : g = f := by simpa using hpc'.symm.trans hpc
    exact ⟨ho, _, List.getElem?_eq_getElem hk, hf⟩

theorem OwnedBy.waiting {k : Nat} {call : Call} (h : OwnedBy s owner) (hk : s.sys.mux.calls[k]? = some call)
    (hp : ∀ r, call.pc ≠ .done r) :
    ∃ i x f, s.clients[i]? = some x ∧ x.client.pc = .executing f ∧ x.call = k ∧
      owner[k]? = some (i, x.client.returned.length) ∧ call.isWrite = f.isWrite ∧
        call.shardFrame = f.shardFrame := by
  have hlt : k < owner.length := h.len ▸ Mux.lt_of_call hk
  have ho : owner[k]? = some (owner[k].1, owner[k].2) := List.getElem?_eq_getElem hlt
  obtain ⟨x, hx, -⟩ := (h.asked _ _).1 (List.mem_of_getElem? ho)
  obtain ⟨f, hw, hf, ⟨r, -, hr⟩ | ⟨hn, hpc, hxk⟩⟩ := h.serves k _ _ call x ho hk hx
  · exact absurd hr (hp r)
  · exact ⟨owner[k].1, x, f, hx, hpc, hxk, by rw [ho, hn], hw, hf⟩

/-- Every `execute` call was made for one request of one client, and every request that is not a keepalive
has one: the call has the request's flag and bytes, and it is either over, with the result that `execute`
returned for that request, or the call that the client is waiting for. -/
theorem one_call_per_request (h : Reach (Server.step cfg) (Server.init cfg) s) :
    ∃ owner : List (Nat × Nat), owner.length = s.sys.mux.calls.length ∧ owner.Nodup ∧
      (∀ i n, (i, n) ∈ owner ↔ ∃ x, s.clients[i]? = some x ∧ n < (requests x.client.frames).length) ∧
      ∀ (k i n : Nat) (call : Call) (x : Served), owner[k]? = some (i, n) → s.sys.mux.calls[k]? = some call →
        s.clients[i]? = some x →
        ∃ f, (requests x.client.frames)[n]? = some f ∧ call.isWrite = f.isWrite ∧
          call.shardFrame = f.shardFrame ∧
          ((∃ r, x.client.returned[n]? = some (f, r) ∧ call.pc = .done r) ∨
            n = x.client.returned.length ∧ x.client.pc = .executing f ∧ x.call = k) := by
  obtain ⟨owner, ho⟩ := OwnedBy.of_reach h
  have hlog := ReplyLog.of_reach h
  refine ⟨owner, ho.len, ho.nodup, fun i n => ?_, fun k i n call x hown hk hx => ?_⟩
  · rw [ho.asked]
    refine exists_congr fun x => and_congr_right fun hx => ?_
    rw [(hlog x (List.mem_of_getElem? hx)).asked]
  · obtain ⟨f, hw, hf, hst⟩ := ho.serves k i n call x hown hk hx
    refine ⟨f, ?_, hw, hf, hst⟩
    rw [(hlog x (List.mem_of_getElem? hx)).order]
    obtain ⟨r, hr, -⟩ | ⟨rfl, hpc, -⟩ := hst
    · refine getElem?_of_prefix (List.prefix_append _ _) ?_
      rw [List.getElem?_map, hr]
      rfl
    · rw [hpc, List.getElem?_append_right (by simp)]
      simp [ClientPc.running]

/-- Client 1 is answered while client 0 still waits: two calls. -/
def answeredFirst : List ServerLabel :=
  List.flatten [(Sys.leaderUp "a" []).map .sys, [.accept, .accept],
    Server.writeRequest 0 0 (prependHeader 9 [5]), Server.writeRequest 1 1 (prependHeader 8 [6]),
    (Sys.reply 0 (prependHeader 2 [2, 0x4F, 0x4B, 0, 0])).map .sys,
    [.sys (.mux (.receive 1)), .client 1 (.returned (.ok (prependHeader 8 [2, 0x4F, 0x4B, 0, 0])))]]

theorem one_call_per_request_answered : ∃ (s : Server) (owner : List (Nat × Nat)),
    exec (Server.step {}) (Server.init {}) answeredFirst = some s ∧ owner.length = 2 ∧ owner.Nodup ∧
      ∀ (k i n : Nat) (call : Call) (x : Served), owner[k]? = some (i, n) → s.sys.mux.calls[k]? = some call →
        s.clients[i]? = some x →
        ∃ f, (requests x.client.frames)[n]? = some f ∧ call.isWrite = f.isWrite ∧
          call.shardFrame = f.shardFrame ∧
          ((∃ r, x.client.returned[n]? = some (f, r) ∧ call.pc = .done r) ∨
            n = x.client.returned.length ∧ x.client.pc = .executing f ∧ x.call = k) := by
  obtain ⟨s, hs, hr, hp⟩ := Reach.of_any (Server.step {}) (Server.init {}) answeredFirst
    (fun s => s.sys.mux.calls.length = 2) (by decide +kernel)
  obtain ⟨owner, hlen, hnd, -, hserves⟩ := one_call_per_request hr
  exact ⟨s, owner, hs, hlen.trans (of_decide_eq_true hp), hnd, hserves⟩

end RzBridge

import RzBridge.Lib.RequestReply
import RzBridge.Proofs.Delivery
import RzBridge.Proofs.Ownership

/-!
# The bridge as a request/reply server

`RequestReply.step` says what the bridge is for: each client has at most one request open, which is
passed on at most once and answered once. The server refines it (`Simulates`): a round of the drain loop
that makes a call is an `ask`, a `send_raw` that is accepted a `forward`, the return of `execute` an
`answer`, and every other step does nothing that a client could tell. The wire of the abstract machine
holds the same frames as the backend connections were given, up to the ids.
-/

namespace RzBridge
open Machine

variable {cfg : Config}

abbrev RouterSession := RequestReply.Session RouterFrame (Except RZError Bytes)

/-- A shard frame with its id blanked. -/
def blankId (f : Bytes) : Bytes := setClrid 0 f

/-- What the connections were given to send, the ids blanked. -/
def Mux.given (m : Mux) : List Bytes := (m.conns.flatMap Conn.accepted).map fun e => blankId e.2

/-! ### What a step of the multiplexer gives to the connections -/

theorem flatMap_eq_of_extends {α β : Type*} (g : α → List β) {l l' : List α} (hlen : l.length ≤ l'.length)
    (h : ∀ (c : Nat) (y : α), l'[c]? = some y → (∃ x, l[c]? = some x ∧ g y = g x) ∨ l.length ≤ c ∧ g y = []) :
    l'.flatMap g = l.flatMap g := by
  induction l generalizing l' with
  | nil =>
    refine List.flatMap_eq_nil_iff.2 fun y hy => ?_
    obtain ⟨c, hc⟩ := List.mem_iff_getElem?.1 hy
    obtain ⟨x, hx, -⟩ | ⟨-, hy⟩ := h c y hc
    · simp at hx
    · exact hy
  | cons x l ih =>
    cases l' with
    | nil => simp at hlen
    | cons y l' =>
      have hxy : g y = g x := by
        obtain ⟨x', hx', hg⟩ | ⟨hle, -⟩ := h 0 y rfl
        · exact (Option.some.inj hx') ▸ hg
        · simp at hle
      rw [List.flatMap_cons, List.flatMap_cons, hxy, ih (by simpa using hlen)]
      intro c z hz
      simpa using h (c + 1) z hz

theorem flatMap_set_perm {α β : Type*} (g : α → List β) {l : List α} {c : Nat} {x y : α} {b : β}
    (hx : l[c]? = some x) (hy : g y = g x ++ [b]) : ((l.set c y).flatMap g).Perm (l.flatMap g ++ [b]) := by
  induction l generalizing c with
  | nil => cases hx
  | cons z l ih =>
    cases c with
    | zero =>
      cases hx
      rw [List.set_cons_zero, List.flatMap_cons, List.flatMap_cons, hy, List.append_assoc, List.append_assoc]
      exact List.Perm.append_left _ List.perm_append_comm
    | succ c =>
      rw [List.set_cons_succ, List.flatMap_cons, List.flatMap_cons, List.append_assoc]
      exact List.Perm.append_left _ (ih hx)

namespace Mux

variable {m m' : Mux} {l : MuxLabel}

theorem given_of_step (hs : m.step cfg l = some m') :
    (m'.given = m.given ∧ ∀ k c i, SubmittedAt m'.conns k c i → SubmittedAt m.conns k c i) ∨
      ∃ k call c id conn, l = .send k ∧ m.calls[k]? = some call ∧ call.pc = .send c id ∧
        m.conns[c]? = some conn ∧
        m'.conns = m.conns.set c
          { conn with
            queue := conn.queue ++ [call.frame]
            accepted := conn.accepted ++ [(⟨k, call.attempts⟩, call.frame)] } := by
  have quiet : (∀ (c : Nat) (conn conn' : Conn), m.conns[c]? = some conn → m'.conns[c]? = some conn' →
      ConnStep m l c conn conn' → conn'.accepted = conn.accepted) →
      m'.given = m.given ∧ ∀ k c i, SubmittedAt m'.conns k c i → SubmittedAt m.conns k c i := by
    intro hacc
    refine ⟨?_, ?_⟩
    · unfold given
      rw [flatMap_eq_of_extends Conn.accepted (step_size hs).1]
      intro c conn' hc'
      obtain ⟨conn, hc, hstep⟩ | ⟨hcl, host, -, rfl⟩ := step_conn hs hc'
      · exact .inl ⟨conn, hc, hacc c conn conn' hc hc' hstep⟩
      · exact .inr ⟨hcl.ge, rfl⟩
    · rintro k c i ⟨conn', tok, f, hc', hi, hk⟩
      obtain ⟨conn, hc, hstep⟩ | ⟨-, host, -, rfl⟩ := step_conn hs hc'
      · exact ⟨conn, tok, f, hc, hacc c conn conn' hc hc' hstep ▸ hi, hk⟩
      · simp at hi
  by_cases hl : ∃ k, l = .send k
  · obtain ⟨k, rfl⟩ := hl
    obtain ⟨call, c, conn, id, hk, hp, hc, ⟨-, rfl⟩ | ⟨-, rfl⟩⟩ := callSend_some hs
    · refine .inl (quiet fun c' conn₁ conn₂ h₁ h₂ _ => ?_)
      exact congrArg Conn.accepted (Option.some.inj (h₂.symm.trans h₁))
    · exact .inr ⟨k, call, c, id, conn, rfl, hk, hp, hc, rfl⟩
  · refine .inl (quiet fun c conn conn' _ _ hstep => ?_)
    obtain he | ⟨k, call, id, he, -⟩ := hstep.accepted
    · exact he
    · exact absurd ⟨k, he⟩ hl


theorem submittedAt_mono {k c i : Nat} (hs : m.step cfg l = some m') (h : SubmittedAt m.conns k c i) :
    SubmittedAt m'.conns k c i := by
  obtain ⟨conn, tok, f, hc, hi, hk⟩ := h
  obtain ⟨conn', hc', hstep⟩ := step_conn_fwd hs hc
  refine ⟨conn', tok, f, hc', ?_, hk⟩
  obtain he | ⟨_, _, _, -, -, -, he⟩ := hstep.accepted
  · rwa [he]
  · rw [he]
    exact getElem?_of_prefix (List.prefix_append _ _) hi

end Mux

/-! ### The simulation -/

/-- `ses` is the client's side of the abstract machine. -/
structure SessionOf (conns : List Conn) (x : Served) (ses : RouterSession) : Prop where
  answered : ses.answered = x.client.returned
  pending : ses.pending = x.client.pc.running.head?
  forwarded : ∀ f, x.client.pc = .executing f → (ses.forwarded = true ↔ ∃ c i, SubmittedAt conns x.call c i)

structure Simulates (s : Server) (owner : List (Nat × Nat)) (xs : List RouterSession) : Prop where
  owned : OwnedBy s owner
  len : xs.length = s.clients.length
  session : ∀ (i : Nat) (x : Served) (ses : RouterSession), s.clients[i]? = some x → xs[i]? = some ses →
    SessionOf s.sys.mux.conns x ses
  wire : s.sys.mux.given.Perm ((xs.flatMap (·.wire)).map fun f => blankId f.shardFrame)

variable {s s' : Server} {owner : List (Nat × Nat)} {xs : List RouterSession}

theorem SessionOf.congr {conns conns' : List Conn} {x : Served} {ses : RouterSession} (h : SessionOf conns x ses)
    (hc : ∀ f, x.client.pc = .executing f →
      ((∃ c i, SubmittedAt conns' x.call c i) ↔ ∃ c i, SubmittedAt conns x.call c i)) :
    SessionOf conns' x ses :=
  ⟨h.answered, h.pending, fun f hpc => (h.forwarded f hpc).trans (hc f hpc).symm⟩

theorem Simulates.init : Simulates (Server.init cfg) [] [] where
  owned := .init
  len := rfl
  session i x ses hx := by cases hx
  wire := List.Perm.refl _

theorem Simulates.lookup {i : Nat} {x : Served} (h : Simulates s owner xs) (hx : s.clients[i]? = some x) :
    ∃ ses, xs[i]? = some ses ∧ SessionOf s.sys.mux.conns x ses := by
  have hi : i < xs.length := h.len ▸ (List.getElem?_eq_some_iff.1 hx).1
  exact ⟨_, List.getElem?_eq_getElem hi, h.session i x _ hx (List.getElem?_eq_getElem hi)⟩

theorem flatMap_set_eq {α β : Type*} (g : α → List β) {l : List α} {c : Nat} {x y : α} (hx : l[c]? = some x)
    (hy : g y = g x) : (l.set c y).flatMap g = l.flatMap g := by
  refine flatMap_eq_of_extends g (List.length_set ..).ge fun j z hz => ?_
  rw [List.getElem?_set] at hz
  split at hz
  next hcj =>
    subst hcj
    split at hz
    · exact .inl ⟨x, hx, (Option.some.inj hz) ▸ hy⟩
    · cases hz
  next => exact .inl ⟨z, hz, rfl⟩

theorem Simulates.set {i : Nat} {y : Served} {ses ses' : RouterSession} {owner' : List (Nat × Nat)}
    (h : Simulates s owner xs) (hses : xs[i]? = some ses) (ho : OwnedBy s' owner')
    (hclients : s'.clients = s.clients.set i y) (hconns : s'.sys.mux.conns = s.sys.mux.conns)
    (hnew : SessionOf s.sys.mux.conns y ses') (hw : ses'.wire = ses.wire) : Simulates s' owner' (xs.set i ses') := by
  refine ⟨ho, ?_, fun j z ses₁ hz hs₁ => ?_, ?_⟩
  · rw [hclients, List.length_set, List.length_set]
    exact h.len
  · rw [hclients, List.getElem?_set] at hz
    rw [List.getElem?_set] at hs₁
    rw [hconns]
    by_cases hij : i = j
    · simp only [hij, if_true] at hz hs₁
      split at hz
      · split at hs₁
        · cases hz
          cases hs₁
          exact hnew
        · cases hs₁
      · cases hz
    · rw [if_neg hij] at hz hs₁
      exact h.session j z ses₁ hz hs₁
  · have hg : s'.sys.mux.given = s.sys.mux.given := by
      unfold Mux.given
      rw [hconns]
    rw [hg, flatMap_set_eq (fun x : RouterSession => x.wire) hses hw]
    exact h.wire

theorem Simulates.accept (h : Simulates s owner xs) (t active : Nat) :
    Simulates { s with clients := s.clients ++ [{ client := Client.new t }], active } owner 
      (xs ++ [({} : RequestReply.Session RouterFrame (Except RZError Bytes))]) := by
  refine ⟨h.owned.accept t active, ?_, fun i x ses hx hses => ?_, ?_⟩
  · show (xs ++ [_]).length = (s.clients ++ [_]).length
    rw [List.length_append, List.length_append, h.len]
    rfl
  · rcases getElem?_snoc hx with hx | ⟨hi, rfl⟩
    · have hlt : i < xs.length := h.len ▸ (List.getElem?_eq_some_iff.1 hx).1
      rw [List.getElem?_append_left hlt] at hses
      exact h.session i x ses hx hses
    · rw [hi, ← h.len, List.getElem?_concat_length, Option.some.injEq] at hses
      subst hses
      exact ⟨rfl, rfl, fun f hf => by cases hf⟩
  · rw [List.flatMap_append]
    simpa using h.wire

theorem Simulates.event {i : Nat} {e : ClientEvent} {x : Served} {client : Client} (h : Simulates s owner xs)
    (queued : Nat) (hx : s.clients[i]? = some x) (ha : s.allows x e = true)
    (hs : x.client.step cfg (s.sys.mux.now, e) = some client) (hne : e = .drain → ∀ f, client.pc ≠ .executing f) :
    let s' := { s with closeQueue := queued, clients := s.clients.set i { x with client } }
    Simulates s' owner xs ∨
      ∃ l xs', RequestReply.step xs l = some xs' ∧ Simulates s' owner xs' := by
  intro s'
  obtain ⟨ses, hses, hx'⟩ := h.lookup hx
  have howned : OwnedBy s' owner := h.owned.event queued hx ha hs hne
  obtain ⟨hret, hrun, hrun'⟩ | ⟨f, r, rfl, hpc, hpc', hret⟩ := Client.event_cases hs hne
  · left
    have hnew : SessionOf s.sys.mux.conns { x with client } ses := by
      refine ⟨hx'.answered.trans hret.symm, by rw [hx'.pending, hrun, hrun'], fun f hf => ?_⟩
      rw [show client.pc = .executing f from hf] at hrun'
      cases hrun'
    have hset := h.set hses howned rfl rfl hnew rfl
    obtain ⟨hi, rfl⟩ := List.getElem?_eq_some_iff.1 hses
    rwa [List.set_getElem_self hi] at hset
  · right
    have hpend : ses.pending = some f := by rw [hx'.pending, hpc]; rfl
    refine ⟨.answer i r, _, RequestReply.step_answer hses hpend, ?_⟩
    refine h.set hses howned rfl rfl ⟨?_, ?_, fun g hg => ?_⟩ rfl
    · rw [hx'.answered]
      exact hret.symm
    · show none = client.pc.running.head?
      rw [hpc']
      rfl
    · cases hpc'.symm.trans hg

theorem Simulates.dispatch {i : Nat} {x : Served} {client : Client} {f : RouterFrame} {sys : Sys}
    (h : Simulates s owner xs) (hsub : SubmitInv s.sys.mux) (queued : Nat) (hx : s.clients[i]? = some x)
    (hs : x.client.step cfg (s.sys.mux.now, .drain) = some client) (hpc : client.pc = .executing f)
    (hsys : s.sys.step cfg (.mux (.spawn f.isWrite f.shardFrame)) = some sys) :
    ∃ owner' l xs', RequestReply.step xs l = some xs' ∧
      Simulates
        { s with
          closeQueue := queued
          sys
          clients := s.clients.set i { client, call := s.sys.mux.calls.length } } owner' xs' := by
  obtain ⟨ses, hses, hx'⟩ := h.lookup hx
  obtain ⟨rest, -, -, hclient⟩ := Client.drain_executing hs hpc
  have hret : client.returned = x.client.returned := by rw [hclient]
  have hidle : ses.pending = none := by
    rw [hx'.pending, Client.running_of_drain hs]
    rfl
  have hconns : sys.mux.conns = s.sys.mux.conns := by
    obtain ⟨mux, hm, ⟨w, g, -, rfl⟩ | ⟨hne, -⟩⟩ := Sys.muxStep_some hsys
    · cases hm
      rfl
    · exact absurd rfl (hne _ _)
  refine ⟨owner ++ [(i, x.client.returned.length)], .ask i f, _, RequestReply.step_ask hses hidle, ?_⟩
  refine h.set hses (h.owned.dispatch queued hx hs hpc hsys) rfl hconns ⟨?_, ?_, fun g hg => ?_⟩ rfl
  · exact hx'.answered.trans hret.symm
  · show some f = client.pc.running.head?
    rw [hpc]
    rfl
  · constructor
    · intro hf
      cases hf
    · rintro ⟨c, j, hcj⟩
      exact absurd (hsub.known _ c j hcj) (Nat.lt_irrefl _)

/-- A `send_raw` that is accepted passes on the request of the client that waits for the call. -/
theorem Simulates.forward {k c : Nat} {call : Call} {id : UInt32} {conn : Conn} {sys : Sys}
    (h : Simulates s owner xs) (hsub : SubmitInv s.sys.mux) (hframe : FrameInv s.sys.mux)
    (ho : OwnedBy { s with sys } owner) (hm : s.sys.mux.step cfg (.send k) = some sys.mux)
    (hk : s.sys.mux.calls[k]? = some call) (hp : call.pc = .send c id) (hc : s.sys.mux.conns[c]? = some conn)
    (hconns : sys.mux.conns = s.sys.mux.conns.set c
      { conn with
        queue := conn.queue ++ [call.frame]
        accepted := conn.accepted ++ [(⟨k, call.attempts⟩, call.frame)] }) :
    ∃ l xs', RequestReply.step xs l = some xs' ∧ Simulates { s with sys } owner xs' := by
  obtain ⟨i, x, f, hx, hpc, rfl, hown, -, hsf⟩ := h.owned.waiting hk (by simp [hp])
  obtain ⟨ses, hses, hx'⟩ := h.lookup hx
  have hpend : ses.pending = some f := by
    rw [hx'.pending, hpc]
    rfl
  have hfresh : ses.forwarded = false := by
    rw [← Bool.not_eq_true, hx'.forwarded f hpc]
    rintro ⟨c', j, hj⟩
    exact hsub.notYet _ call hk (by rw [hp]; rfl) c' j hj
  have hmine : SubmittedAt sys.mux.conns x.call c conn.accepted.length := by
    refine ⟨_, ⟨x.call, call.attempts⟩, call.frame, by rw [hconns, List.getElem?_set_self (Mux.lt_of_conn hc)], ?_, rfl⟩
    exact List.getElem?_concat_length
  -- the frame is the request's, up to the id
  have hblank : blankId call.frame = blankId f.shardFrame := by
    have hcall := hframe.calls _ call hk
    obtain ⟨hf, -⟩ := hcall.drawn c id (by rw [hp]; rfl)
    have hck := hcall.isChecked (by simp [hp]) (by simp [hp])
    rw [blankId, hf, setClrid_setClrid (by have := hck.1; omega), hsf]
    rfl
  refine ⟨.forward i, _, RequestReply.step_forward hses hpend hfresh, ho, ?_, fun j y ses' hy hses' => ?_, ?_⟩
  · rw [List.length_set]
    exact h.len
  · rw [List.getElem?_set] at hses'
    by_cases hij : i = j
    · subst hij
      obtain rfl := Option.some.inj (hx.symm.trans hy)
      rw [if_pos rfl, if_pos (List.getElem?_eq_some_iff.1 hses).1, Option.some.injEq] at hses'
      subst hses'
      exact ⟨hx'.answered, hx'.pending, fun _ _ => iff_of_true rfl ⟨c, _, hmine⟩⟩
    · rw [if_neg hij] at hses'
      refine (h.session j y ses' hy hses').congr fun g hg => ⟨?_, ?_⟩
      · rintro ⟨c', j', hj'⟩
        obtain hold | ⟨call', conn', id', he, -⟩ := hj'.of_step hm
        · exact ⟨c', j', hold⟩
        · -- another client waits for another call
          have hother := (h.owned.current hy hg).1
          rw [← MuxLabel.send.inj he, hown] at hother
          exact absurd (congrArg Prod.fst (Option.some.inj hother)) hij
      · rintro ⟨c', j', hj'⟩
        exact ⟨c', j', Mux.submittedAt_mono hm hj'⟩
  · have hgiven : sys.mux.given.Perm (s.sys.mux.given ++ [blankId call.frame]) := by
      have hperm := flatMap_set_perm Conn.accepted (b := ((⟨x.call, call.attempts⟩ : Tok), call.frame)) hc
        (y := { conn with
          queue := conn.queue ++ [call.frame]
          accepted := conn.accepted ++ [(⟨x.call, call.attempts⟩, call.frame)] }) rfl
      rw [← hconns] at hperm
      simpa [Mux.given] using hperm.map fun e => blankId e.2
    have hwire := (flatMap_set_perm (fun y : RouterSession => y.wire) hses
      (y := { ses with forwarded := true, wire := ses.wire ++ [f] }) rfl).map fun g => blankId g.shardFrame
    rw [List.map_append] at hwire
    exact (hgiven.trans ((hblank ▸ h.wire.append_right _))).trans hwire.symm

theorem Simulates.sysStep {l : SysLabel} {sys : Sys} (h : Simulates s owner xs) (hsub : SubmitInv s.sys.mux)
    (hframe : FrameInv s.sys.mux) (hs : s.sys.step cfg l = some sys) (hl : ∀ w f, l ≠ .mux (.spawn w f)) :
    Simulates { s with sys } owner xs ∨
      ∃ l' xs', RequestReply.step xs l' = some xs' ∧ Simulates { s with sys } owner xs' := by
  have ho := h.owned.sysStep hs hl
  have quiet : sys.mux.given = s.sys.mux.given →
      (∀ k, (∃ c i, SubmittedAt sys.mux.conns k c i) ↔ ∃ c i, SubmittedAt s.sys.mux.conns k c i) →
      Simulates { s with sys } owner xs := fun hg hiff =>
    ⟨ho, h.len, fun i x ses hx hses => (h.session i x ses hx hses).congr fun _ _ => hiff _,
      by rw [show ({ s with sys } : Server).sys.mux.given = s.sys.mux.given from hg]; exact h.wire⟩
  rcases Sys.mux_project hs with he | ⟨l', hm, -⟩
  · exact .inl (quiet (by rw [he]) fun k => by rw [he])
  · obtain ⟨hg, hback⟩ | ⟨k, call, c, id, conn, rfl, hk, hp, hc, hconns⟩ := Mux.given_of_step hm
    · refine .inl (quiet hg fun k => ⟨?_, ?_⟩)
      · rintro ⟨c, i, hi⟩
        exact ⟨c, i, hback k c i hi⟩
      · rintro ⟨c, i, hi⟩
        exact ⟨c, i, Mux.submittedAt_mono hm hi⟩
    · exact .inr (h.forward hsub hframe ho hm hk hp hc hconns)

/-- One step of the server is one step of the abstract machine, or none. -/
theorem Simulates.step {l : ServerLabel} (h : Simulates s owner xs) (hsub : SubmitInv s.sys.mux)
    (hframe : FrameInv s.sys.mux) (hs : s.step cfg l = some s') :
    (∃ owner', Simulates s' owner' xs) ∨
      ∃ l' xs', RequestReply.step xs l' = some xs' ∧ ∃ owner', Simulates s' owner' xs' := by
  cases Server.Move.of_step hs with
  | refuse | closeMsg | shutdown =>
    exact .inl ⟨owner, ⟨h.owned.len, h.owned.nodup, h.owned.asked, h.owned.serves⟩, h.len, h.session, h.wire⟩
  | accept => exact .inr ⟨.join, _, rfl, owner, h.accept _ _⟩
  | client i e x client queued hx ha hcs hne =>
    obtain hsame | ⟨l', xs', hl', hsim⟩ := h.event queued hx ha hcs hne
    · exact .inl ⟨owner, hsame⟩
    · exact .inr ⟨l', xs', hl', owner, hsim⟩
  | dispatch i x client f sys queued hx hcs hpc hsys =>
    obtain ⟨owner', l', xs', hl', hsim⟩ := h.dispatch hsub queued hx hcs hpc hsys
    exact .inr ⟨l', xs', hl', owner', hsim⟩
  | sys l sys hl hss =>
    obtain hsame | ⟨l', xs', hl', hsim⟩ := h.sysStep hsub hframe hss hl
    · exact .inl ⟨owner, hsame⟩
    · exact .inr ⟨l', xs', hl', owner, hsim⟩

theorem Server.bounded_of_step {l : ServerLabel} (hb : s'.sys.mux.Bounded) (hs : s.step cfg l = some s') :
    s.sys.mux.Bounded := by
  rcases Server.sys_project hs with he | ⟨l', hl'⟩
  · exact he ▸ hb
  · rcases Sys.mux_project hl' with he | ⟨m, hm, -⟩
    · exact he ▸ hb
    · exact hb.of_step hm

theorem Simulates.of_reach (h : Reach (Server.step cfg) (Server.init cfg) s) (hb : s.sys.mux.Bounded) :
    ∃ xs owner, Reach RequestReply.step [] xs ∧ Simulates s owner xs := by
  have hsim : ∃ xs, Reach RequestReply.step [] xs ∧ (s.sys.mux.Bounded → ∃ owner, Simulates s owner xs) := by
    refine h.simulate (R := fun s xs => s.sys.mux.Bounded → ∃ owner, Simulates s owner xs)
      (fun _ => ⟨[], .init⟩) ?_
    intro s l s' xs hr _ hR hs
    by_cases hb : s'.sys.mux.Bounded
    · have hb₀ := Server.bounded_of_step hb hs
      have hmux := Sys.reach_mux (Server.reach_sys hr)
      obtain ⟨owner, hsim⟩ := hR hb₀
      obtain hsame | ⟨l', xs', hl', hsim'⟩ := hsim.step (.of_reach hmux hb₀) (.of_reach hmux) hs
      · exact .inl fun _ => hsame
      · exact .inr ⟨l', xs', hl', fun _ => hsim'⟩
    · exact .inl fun hb' => absurd hb' hb
  obtain ⟨xs, hr, hs⟩ := hsim
  obtain ⟨owner, ho⟩ := hs hb
  exact ⟨xs, owner, hr, ho⟩

theorem Simulates.sessions (h : Simulates s owner xs) :
    List.Forall₂ (fun x ses => SessionOf s.sys.mux.conns x ses) s.clients xs := by
  refine List.forall₂_iff_get.2 ⟨h.len.symm, fun i hi hi' => ?_⟩
  exact h.session i _ _ (List.getElem?_eq_getElem hi) (List.getElem?_eq_getElem hi')

/-- What the server does, over any interleaving, is what the request/reply machine does: the answers that
`execute` returned to each client and the request it is working on are those of a run of that machine, and
the frames accepted by the backend connections are, up to their ids, the requests that this run passed
on. -/
theorem server_refines_requestReply (h : Reach (Server.step cfg) (Server.init cfg) s) (hb : s.sys.mux.Bounded) :
    ∃ xs : List RouterSession, Reach RequestReply.step [] xs ∧
      List.Forall₂ (fun x ses => ses.answered = x.client.returned ∧ ses.pending = x.client.pc.running.head?)
        s.clients xs ∧
      s.sys.mux.given.Perm ((xs.flatMap (·.wire)).map fun f => blankId f.shardFrame) := by
  obtain ⟨xs, owner, hr, hsim⟩ := Simulates.of_reach h hb
  exact ⟨xs, hr, hsim.sessions.imp fun x ses hx => ⟨hx.answered, hx.pending⟩, hsim.wire⟩

theorem server_refines_requestReply_answered : ∃ (s : Server) (xs : List RouterSession),
    exec (Server.step {}) (Server.init {}) answeredFirst = some s ∧
      s.sys.mux.given = [blankId (prependHeader 9 [5]), blankId (prependHeader 8 [6])] ∧
      Reach RequestReply.step [] xs ∧
      List.Forall₂ (fun x ses => ses.answered = x.client.returned ∧ ses.pending = x.client.pc.running.head?)
        s.clients xs ∧
      s.sys.mux.given.Perm ((xs.flatMap (·.wire)).map fun f => blankId f.shardFrame) := by
  obtain ⟨s, hs, hr, hp⟩ := Reach.of_any (Server.step {}) (Server.init {}) answeredFirst
    (fun s => decide (s.sys.mux.Bounded ∧
      s.sys.mux.given = [blankId (prependHeader 9 [5]), blankId (prependHeader 8 [6])])) (by decide +kernel)
  obtain ⟨hb, hg⟩ := of_decide_eq_true hp
  obtain ⟨xs, hxs, hall, hperm⟩ := server_refines_requestReply hr hb
  exact ⟨s, xs, hs, hg, hxs, hall, hperm⟩

/-- All clients and backends together: what the connections were given to send is, up to the ids, a part of
what the clients asked for, each request taken once. -/
theorem given_subperm_requests (h : Reach (Server.step cfg) (Server.init cfg) s) (hb : s.sys.mux.Bounded) :
    List.Subperm s.sys.mux.given
      ((s.clients.flatMap fun x => requests x.client.frames).map fun f => blankId f.shardFrame) := by
  obtain ⟨xs, owner, hr, hsim⟩ := Simulates.of_reach h hb
  have hlog := ReplyLog.of_reach h
  have hall : List.Forall₂ (fun x ses => List.Sublist ses.wire (requests x.client.frames)) s.clients xs := by
    refine List.forall₂_iff_get.2 ⟨hsim.len.symm, fun i hi hi' => ?_⟩
    have hx := hsim.session i _ _ (List.getElem?_eq_getElem hi) (List.getElem?_eq_getElem hi')
    have hsub := RequestReply.wire_sublist hr _ (List.getElem_mem hi')
    rw [RequestReply.Session.asked, hx.answered, hx.pending] at hsub
    have hreq := (hlog _ (List.getElem_mem hi)).order
    have heq : s.clients[i].client.returned.map Prod.fst ++ s.clients[i].client.pc.running.head?.toList =
        requests s.clients[i].client.frames := by
      rw [hreq]
      cases s.clients[i].client.pc <;> rfl
    exact heq ▸ hsub
  have hsub : List.Sublist (xs.flatMap (·.wire)) (s.clients.flatMap fun x => requests x.client.frames) := by
    clear hr hsim hlog h hb
    generalize s.clients = clients at hall
    induction hall with
    | nil => exact List.Sublist.refl _
    | cons hx _ ih => exact hx.append ih
  exact hsim.wire.subperm.trans (hsub.map fun f => blankId f.shardFrame).subperm

theorem given_subperm_requests_answered : ∃ s : Server,
    exec (Server.step {}) (Server.init {}) answeredFirst = some s ∧
      s.sys.mux.given = [blankId (prependHeader 9 [5]), blankId (prependHeader 8 [6])] ∧
      List.Subperm s.sys.mux.given
        ((s.clients.flatMap fun x => requests x.client.frames).map fun f => blankId f.shardFrame) := by
  obtain ⟨s, hs, hr, hp⟩ := Reach.of_any (Server.step {}) (Server.init {}) answeredFirst
    (fun s => decide (s.sys.mux.Bounded ∧
      s.sys.mux.given = [blankId (prependHeader 9 [5]), blankId (prependHeader 8 [6])])) (by decide +kernel)
  obtain ⟨hb, hg⟩ := of_decide_eq_true hp
  exact ⟨s, hs, hg, given_subperm_requests hr hb⟩

end RzBridge

import RzBridge.TcpServer
import RzBridge.Proofs.SysStep
import RzBridge.Proofs.RouterFrame

/-!
# What a step of the server does

Inversion of `Server.step`. A round of a client's drain loop that takes a request off the buffer
makes an `execute` call (`Move.dispatch`); every other event of a client leaves the cluster handler
alone, and a step of the cluster handler leaves the clients alone.
-/

namespace RzBridge
open Machine

/-! ### One client -/

/-- The events that end a connection which waits for input. -/
def ClientEvent.closes : ClientEvent → Option CloseCause
  | .cancel => some .cancelled
  | .eof => some .peerClosed
  | .readError => some .readError
  | .idle => some .idleTimeout
  | _ => none

/-- What a step of a client does, one constructor for each kind of step. -/
inductive Client.Move (cfg : Config) (now : Nat) (c : Client) : ClientEvent → Client → Prop
  | close (e : ClientEvent) (cause : CloseCause) (he : e.closes = some cause) (hpc : c.pc = .reading) :
      Client.Move cfg now c e (c.close cause)
  | read (chunk : Bytes) (hpc : c.pc = .reading) :
      Client.Move cfg now c (.read chunk)
        { c with buf := c.buf ++ chunk, input := c.input ++ chunk, pc := .draining }
  | drain (hpc : c.pc = .draining) : Client.Move cfg now c .drain (c.drain cfg now)
  | returned (f : RouterFrame) (r : Except RZError Bytes) (hpc : c.pc = .executing f) :
      Client.Move cfg now c (.returned r) { c with pc := .replying f r, returned := c.returned ++ [(f, r)] }
  | wrote (f : RouterFrame) (r : Except RZError Bytes) (hpc : c.pc = .replying f r) :
      Client.Move cfg now c .wrote (c.replied f r none)
  | writeFail (n : Nat) (f : RouterFrame) (r : Except RZError Bytes) (hpc : c.pc = .replying f r) :
      Client.Move cfg now c (.writeFail n) (c.replied f r (some n))

theorem Client.Move.of_step {cfg : Config} {now : Nat} {c c' : Client} {e : ClientEvent}
    (hs : c.step cfg (now, e) = some c') : Client.Move cfg now c e c' := by
  cases e <;> simp only [Client.step, Option.ite_none_right_eq_some, Option.some.injEq] at hs
  case read chunk =>
    obtain ⟨⟨hpc, -⟩, rfl⟩ := hs
    exact .read chunk hpc
  case drain =>
    obtain ⟨hpc, rfl⟩ := hs
    exact .drain hpc
  case returned r =>
    split at hs
    next f hpc => cases hs; exact .returned f r hpc
    next => cases hs
  case wrote =>
    split at hs
    next f r hpc => cases hs; exact .wrote f r hpc
    next => cases hs
  case writeFail n =>
    split at hs
    next f r hpc => cases hs; exact .writeFail n f r hpc
    next => cases hs
  case idle =>
    obtain ⟨⟨hpc, -⟩, rfl⟩ := hs
    exact .close _ _ rfl hpc
  all_goals
    obtain ⟨hpc, rfl⟩ := hs
    exact .close _ _ rfl hpc

theorem Client.drain_executing {cfg : Config} {now : Nat} {c c' : Client} {f : RouterFrame}
    (hs : c.step cfg (now, .drain) = some c') (hpc : c'.pc = .executing f) :
    ∃ rest, drainIter cfg c.buf = .frame f rest ∧ f.segment ≠ keepaliveSegment ∧
      c' = { c with buf := rest, lastFrameTime := now, frames := c.frames ++ [f], pc := .executing f } := by
  simp only [Client.step, Option.ite_none_right_eq_some, Option.some.injEq] at hs
  obtain ⟨hd, rfl⟩ := hs
  unfold Client.drain at hpc ⊢
  split at hpc
  case h_4 f' rest hi =>
    by_cases hk : f'.segment = keepaliveSegment
    · simp [hk] at hpc
    · simp only [if_neg hk, ClientPc.executing.injEq] at hpc
      subst hpc
      exact ⟨rest, hi, hk, by simp [hk]⟩
  case h_2 => split at hpc <;> simp [Client.close] at hpc
  all_goals simp [Client.close, hd] at hpc

theorem drainIter_eq_frame {cfg : Config} {buf rest : Bytes} {f : RouterFrame}
    (h : drainIter cfg buf = .frame f rest) :
    tryDecodeRouter buf = .frame f := by
  unfold drainIter at h
  split at h
  · cases h
  · split at h
    · cases h
    next f' hf =>
      split at h
      · cases h
      · cases h; exact hf
    · split at h
      · cases h
      · dsimp only at h
        split at h <;> cases h

namespace Server

variable {cfg : Config} {s s' : Server} {l : ServerLabel}

/-- What a step of the server does, one constructor for each kind of step. -/
inductive Move (cfg : Config) (s : Server) : ServerLabel → Server → Prop
  | refuse : Move cfg s .accept s
  | accept : Move cfg s .accept
      { s with clients := s.clients ++ [{ client := Client.new s.sys.mux.now }], active := s.active + 1 }
  | client (i : Nat) (e : ClientEvent) (x : Served) (client : Client) (queued : Nat)
      (hx : s.clients[i]? = some x)
      (ha : s.allows x e = true) (hs : x.client.step cfg (s.sys.mux.now, e) = some client)
      (hne : e = .drain → ∀ f, client.pc ≠ .executing f) :
      Move cfg s (.client i e) { s with closeQueue := queued, clients := s.clients.set i { x with client } }
  | dispatch (i : Nat) (x : Served) (client : Client) (f : RouterFrame) (sys : Sys) (queued : Nat)
      (hx : s.clients[i]? = some x)
      (hs : x.client.step cfg (s.sys.mux.now, .drain) = some client) (hpc : client.pc = .executing f)
      (hsys : s.sys.step cfg (.mux (.spawn f.isWrite f.shardFrame)) = some sys) :
      Move cfg s (.client i .drain)
        { s with
          closeQueue := queued
          sys
          clients := s.clients.set i { client, call := s.sys.mux.calls.length } }
  | closeMsg (queued active : Nat) : Move cfg s .closeMsg { s with closeQueue := queued, active := active }
  | shutdown : Move cfg s .shutdown { s with cancelled := true }
  | sys (l : SysLabel) (sys : Sys) (hl : ∀ w f, l ≠ .mux (.spawn w f)) (hs : s.sys.step cfg l = some sys) :
      Move cfg s (.sys l) { s with sys }

theorem clientStep_some {i : Nat} {e : ClientEvent} (h : s.clientStep cfg i e = some s') :
    Move cfg s (.client i e) s' := by
  simp only [clientStep, Option.bind_eq_bind, Option.bind_eq_some_iff, Option.guard_eq_some'] at h
  obtain ⟨x, hx, -, ha, client, hs, h⟩ := h
  split at h
  next f hpc =>
    obtain ⟨sys, hsys, h⟩ := Option.bind_eq_some_iff.1 h
    cases h
    exact .dispatch i x client f sys _ hx hs hpc hsys
  next e _ _ hne =>
    cases h
    exact .client i e x client _ hx ha hs fun he f hf => hne f he hf

theorem Move.of_step (h : s.step cfg l = some s') : Move cfg s l s' := by
  cases l with
  | accept =>
    cases h
    unfold Server.accept
    split
    · exact .refuse
    · exact .accept
  | client i e => exact clientStep_some h
  | closeMsg =>
    simp only [step, Option.ite_none_left_eq_some, Option.some.injEq] at h
    obtain ⟨-, rfl⟩ := h
    exact .closeMsg _ _
  | shutdown =>
    cases h
    exact .shutdown
  | sys l =>
    unfold step at h
    split at h
    case h_5 => cases h
    case h_6 l' hne he =>
      cases he
      obtain ⟨sys, hs, h⟩ := Option.bind_eq_some_iff.1 h
      cases h
      exact .sys l sys (fun w f hl => hne w f (by rw [hl])) hs
    all_goals simp_all

/-- A step of the server is a step of the cluster handler, or leaves it alone. -/
theorem sys_project (h : s.step cfg l = some s') :
    s'.sys = s.sys ∨ ∃ l', s.sys.step cfg l' = some s'.sys := by
  cases Move.of_step h with
  | dispatch i x client f sys queued _ _ _ hsys => exact .inr ⟨_, hsys⟩
  | sys l sys _ hs => exact .inr ⟨l, hs⟩
  | _ => exact .inl rfl

theorem reach_sys (h : Reach (step cfg) (init cfg) s) : Reach (Sys.step cfg) (Sys.init cfg) s.sys :=
  h.project (f := Server.sys) fun _ _ _ hs => sys_project hs

/-- What holds of a new connection and is kept by the steps of a connection holds of every client. -/
theorem client_induct {P : Client → Prop} (h : Reach (step cfg) (init cfg) s) (hnew : ∀ t, P (Client.new t))
    (hstep : ∀ c now e c', P c → c.step cfg (now, e) = some c' → P c') : ∀ x ∈ s.clients, P x.client := by
  refine h.induct (I := fun s => ∀ x ∈ s.clients, P x.client) (by simp [init]) ?_
  intro s l s' _ ih hs
  have set : ∀ {i x client e k}, s.clients[i]? = some x → x.client.step cfg (s.sys.mux.now, e) = some client →
      ∀ y ∈ s.clients.set i ⟨client, k⟩, P y.client := by
    intro i x client e k hx hc y hy
    rcases List.mem_or_eq_of_mem_set hy with hy | rfl
    · exact ih y hy
    · exact hstep _ _ _ _ (ih x (List.mem_of_getElem? hx)) hc
  cases Move.of_step hs with
  | accept =>
    intro x hx
    rcases List.mem_append.1 hx with hx | hx
    · exact ih x hx
    · obtain rfl := List.mem_singleton.1 hx
      exact hnew _
  | client i e x client queued hx _ hc _ => exact set hx hc
  | dispatch i x client f sys queued hx hc _ _ => exact set hx hc
  | _ => exact ih

/-- The frame that a step gives to `execute`. -/
def dispatched (cfg : Config) (s : Server) : ServerLabel → Option RouterFrame
  | .client i .drain =>
    match (s.clients[i]?).map fun x => drainIter cfg x.client.buf with
    | some (.frame f _) => if f.segment = keepaliveSegment then none else some f
    | _ => none
  | _ => none

theorem dispatched_eq {i : Nat} {x : Served} {client : Client} {f : RouterFrame} (hx : s.clients[i]? = some x)
    (hs : x.client.step cfg (s.sys.mux.now, .drain) = some client) (hpc : client.pc = .executing f) :
    s.dispatched cfg (.client i .drain) = some f := by
  obtain ⟨rest, hd, hk, -⟩ := Client.drain_executing hs hpc
  simp [dispatched, hx, hd, hk]

end Server
end RzBridge

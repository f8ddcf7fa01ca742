import RzBridge.Proofs.Delivery
import RzBridge.Proofs.FollowerLock

/-!
# A connection that is closed

`execute` looks at `is_closed` once more after the selection, so a closed connection gets no new callers: what it
still accepts comes from calls that were already on their way to it, one frame from each.
-/

namespace RzBridge
open Machine

variable {cfg : Config} {m₁ m m' : Mux} {l : MuxLabel} {c k : Nat} {tok : Tok}

/-- The connection that the call is about to give its frame to. -/
def CallPc.submitting : CallPc → Option Nat
  | .draw c => some c
  | .store c .. => some c
  | .send c _ => some c
  | _ => none

/-- The token is that of a call on its way to the connection `c`. -/
def Mux.Bound (m : Mux) (c : Nat) (tok : Tok) : Prop :=
  ∃ call, m.calls[tok.call]? = some call ∧ call.pc.submitting = some c ∧ call.attempts = tok.attempt

theorem Call.retry_submitting (call : Call) (e : RZError) : (call.retry e).pc.submitting = none := by
  unfold Call.retry
  dsimp only
  split <;> rfl

theorem CallStep.submitting {call call' : Call} (h : CallStep m l k call call') (hp : call'.pc.submitting = some c) :
    call.pc.submitting = some c ∧ call'.attempts = call.attempts ∨ ∃ r, l = .selected k r := by
  cases h with
  | refl => exact .inl ⟨hp, rfl⟩
  | slot => exact .inl ⟨hp, rfl⟩
  | selected c' hl hp' => exact .inr ⟨_, hl⟩
  | noConn | refused | dropped =>
    rw [Call.retry_submitting] at hp
    cases hp
  | draw c' conn hl hp' hc => exact .inl ⟨by rw [hp']; exact hp, rfl⟩
  | lockStore c' id t hp' => exact .inl ⟨by rw [hp']; exact hp, rfl⟩
  | store c' id t s hp' hs => exact .inl ⟨by rw [hp']; exact hp, rfl⟩
  | _ => cases hp

/-- On its way to a closed connection a call has been before, and the step is not the one in which it arrives. -/
theorem Mux.Bound.of_step {conn : Conn} (hs : m.step cfg l = some m') (hc : m.conns[c]? = some conn)
    (hcl : conn.closed = true) (h : m'.Bound c tok) : m.Bound c tok ∧ l ≠ .send tok.call := by
  obtain ⟨call', hk', hp, ha⟩ := h
  obtain ⟨call, hk, hstep⟩ | ⟨-, w, f, rfl, rfl⟩ := Mux.step_call hs hk'
  · have hne : l ≠ .send tok.call := by
      rintro rfl
      obtain ⟨call₀, c₀, conn₀, id, hk₀, hp₀, -, ⟨-, rfl⟩ | ⟨-, rfl⟩⟩ := Mux.callSend_some hs <;>
        rw [Mux.setCall_calls _ (by simpa using Mux.lt_of_call hk₀), if_pos rfl] at hk' <;> cases hk'
      · rw [Call.retry_submitting] at hp
        cases hp
      · cases hp
    refine ⟨?_, hne⟩
    rcases hstep.submitting hp with ⟨hp₀, ha₀⟩ | ⟨r, rfl⟩
    · exact ⟨call, hk, hp₀, ha₀.symm.trans ha⟩
    · -- the selection's connection is open
      obtain ⟨call₀, hk₀, -, rfl | ⟨c₀, conn₀, -, hc₀, hopen, rfl⟩⟩ := Mux.callSelected_some hs <;>
        rw [Mux.setCall_calls _ (Mux.lt_of_call hk₀), if_pos rfl] at hk' <;> cases hk'
      · rw [Call.retry_submitting] at hp
        cases hp
      · cases hp
        rw [hc] at hc₀
        cases hc₀
        rw [hcl] at hopen
        cases hopen
  · cases hp

/-- Since `m₁` the closed connection `c` has accepted `late`, beyond `before`. -/
structure Closing (m₁ m : Mux) (c : Nat) (before late : List (Tok × Bytes)) : Prop where
  conn : ∃ conn, m.conns[c]? = some conn ∧ conn.closed = true ∧ conn.accepted = before ++ late
  bound : ∀ tok, m.Bound c tok → m₁.Bound c tok ∧ tok ∉ late.map Prod.fst
  source : ∀ tok ∈ late.map Prod.fst, m₁.Bound c tok
  once : (late.map Prod.fst).Nodup

theorem Closing.start {conn : Conn} (hc : m.conns[c]? = some conn) (hcl : conn.closed = true) :
    Closing m m c conn.accepted [] where
  conn := ⟨conn, hc, hcl, (List.append_nil _).symm⟩
  bound _ h := ⟨h, List.not_mem_nil⟩
  source _ h := absurd h List.not_mem_nil
  once := List.nodup_nil

theorem Closing.step {before late : List (Tok × Bytes)} (h : Closing m₁ m c before late)
    (hs : m.step cfg l = some m') : ∃ late', Closing m₁ m' c before late' := by
  obtain ⟨conn, hc, hcl, hacc⟩ := h.conn
  obtain ⟨conn', hc', hstep⟩ := Mux.step_conn_fwd hs hc
  have hcl' := closed_of_connStep hstep hcl
  rcases hstep.accepted with heq | ⟨k, call, id, rfl, hk, hp, heq⟩
  · refine ⟨late, ⟨conn', hc', hcl', heq.trans hacc⟩, fun tok hb => ?_, h.source, h.once⟩
    exact h.bound tok (hb.of_step hs hc hcl).1
  · -- the call that arrives was on its way, and is no more
    have harrives : m.Bound c ⟨k, call.attempts⟩ := ⟨call, hk, by rw [hp]; rfl, rfl⟩
    obtain ⟨hfrom, hnew⟩ := h.bound _ harrives
    refine ⟨late ++ [(⟨k, call.attempts⟩, call.frame)], ⟨conn', hc', hcl', ?_⟩, fun tok hb => ?_, fun tok ht => ?_, ?_⟩
    · rw [heq, hacc, List.append_assoc]
    · obtain ⟨hb, hne⟩ := hb.of_step hs hc hcl
      obtain ⟨hfrom', hnew'⟩ := h.bound tok hb
      refine ⟨hfrom', fun ht => ?_⟩
      rw [List.map_append, List.mem_append] at ht
      rcases ht with ht | ht
      · exact hnew' ht
      · cases List.mem_singleton.1 ht
        exact hne rfl
    · rw [List.map_append, List.mem_append] at ht
      rcases ht with ht | ht
      · exact h.source tok ht
      · cases List.mem_singleton.1 ht
        exact hfrom
    · rw [List.map_append]
      exact List.nodup_append.2 ⟨h.once, List.nodup_singleton _, fun a ha b hb => by
        cases List.mem_singleton.1 hb
        rintro rfl
        exact hnew ha⟩

theorem Mux.Bound.eq_of_call {tok' : Tok} (h : m.Bound c tok) (h' : m.Bound c tok') (he : tok.call = tok'.call) :
    tok = tok' := by
  obtain ⟨call, hk, -, ha⟩ := h
  obtain ⟨call', hk', -, ha'⟩ := h'
  obtain ⟨k, a⟩ := tok
  obtain ⟨k', a'⟩ := tok'
  obtain rfl : k = k' := he
  obtain rfl := Option.some.inj (hk.symm.trans hk')
  obtain rfl : a = a' := ha.symm.trans ha'
  rfl

/-- In every run from a state in which a connection is closed: the frames it accepts from there on are those of
calls that were on their way to it in that state, in the same attempt, and at most one of each. -/
theorem closed_accepts_from_holders {s₁ s₂ : Sys} {conn₁ conn₂ : Conn} (h : Reach (Sys.step cfg) s₁ s₂)
    (hc₁ : s₁.mux.conns[c]? = some conn₁) (hcl : conn₁.closed = true) (hc₂ : s₂.mux.conns[c]? = some conn₂) :
    ∃ late, conn₂.accepted = conn₁.accepted ++ late ∧ (late.map fun e => e.1.call).Nodup ∧
      ∀ e ∈ late, ∃ call, s₁.mux.calls[e.1.call]? = some call ∧ call.pc.submitting = some c ∧
        call.attempts = e.1.attempt := by
  obtain ⟨late, hlate⟩ : ∃ late, Closing s₁.mux s₂.mux c conn₁.accepted late :=
    (Sys.project_mux h).induct (I := fun m => ∃ late, Closing s₁.mux m c conn₁.accepted late)
      ⟨[], .start hc₁ hcl⟩ fun _ _ _ _ ⟨_, hi⟩ hs => hi.step hs
  obtain ⟨conn, hc, -, hacc⟩ := hlate.conn
  obtain rfl := Option.some.inj (hc.symm.trans hc₂)
  refine ⟨late, hacc, ?_, fun e he => hlate.source e.1 (List.mem_map_of_mem he)⟩
  have hnd : ((late.map Prod.fst).map Tok.call).Nodup :=
    hlate.once.map_on fun tok ht tok' ht' he => (hlate.source tok ht).eq_of_call (hlate.source tok' ht') he
  rwa [List.map_map] at hnd

/-- The read loop ends and closes the connection while a write is about to queue its frame there. -/
def closingRun : List SysLabel :=
  Sys.leaderUp "a" [] ++ (Sys.writeCall 0 (prependHeader 7 [1])).dropLast ++ [.mux (.readEnd 0), .mux (.readerStop 0)]

theorem closed_accepts_from_holders_one : ∃ (s₁ s₂ : Sys) (conn₂ : Conn),
    exec (Sys.step {}) (Sys.init {}) closingRun = some s₁ ∧
    s₁.step {} (.mux (.send 0)) = some s₂ ∧ s₂.mux.conns[0]? = some conn₂ ∧ conn₂.accepted.length = 1 ∧
    ∀ e ∈ conn₂.accepted, ∃ call, s₁.mux.calls[e.1.call]? = some call ∧ call.pc.submitting = some 0 := by
  obtain ⟨s₁, hs₁, -, hp⟩ := Reach.of_any (Sys.step {}) (Sys.init {}) closingRun
    (fun s => ((s.mux.conns[0]?).any fun (conn : Conn) => conn.closed = true ∧ conn.accepted = []) &&
      (s.step {} (.mux (.send 0))).any fun s' => (s'.mux.conns[0]?).any fun (conn : Conn) =>
        decide (conn.accepted.length = 1)) (by decide +kernel)
  obtain ⟨hp₁, hp₂⟩ := Bool.and_eq_true_iff.1 hp
  obtain ⟨conn₁, hc₁, hp₁⟩ := (Option.any_eq_true _ _).1 hp₁
  obtain ⟨hcl, hnone⟩ := of_decide_eq_true hp₁
  obtain ⟨s₂, hs₂, hp₂⟩ := (Option.any_eq_true _ _).1 hp₂
  obtain ⟨conn₂, hc₂, hone⟩ := (Option.any_eq_true _ _).1 hp₂
  obtain ⟨late, hlate, -, hfrom⟩ := closed_accepts_from_holders (Reach.refl.tail _ hs₂) hc₁ hcl hc₂
  rw [hnone, List.nil_append] at hlate
  refine ⟨s₁, s₂, conn₂, hs₁, hs₂, hc₂, of_decide_eq_true hone, fun e he => ?_⟩
  obtain ⟨call, hk, hsub, -⟩ := hfrom e (hlate ▸ he)
  exact ⟨call, hk, hsub⟩

end RzBridge

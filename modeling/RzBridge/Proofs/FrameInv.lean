import RzBridge.Proofs.MuxStep

/-!
# The frames that calls queue

`FrameInv`: the local frame of an attempt in flight is the argument of its call with the id patched in
that the attempt drew, and so is every frame that `send_raw` accepted. An argument gets that far only
if it passed the check at the head of `execute`. Nothing here depends on how many ids are drawn.
-/

namespace RzBridge
open Machine

variable {cfg : Config}

/-! ### Draws -/

/-- The id that draw number `i` (from 0) on a connection returns. -/
def drawId (i : Nat) : UInt32 := UInt32.ofNat (i + 1)

/-- The attempt `tok` drew `id` on the connection. -/
def DrawnAt (conn : Conn) (id : UInt32) (tok : Tok) : Prop :=
  ∃ i, conn.draws[i]? = some tok ∧ id = drawId i

theorem drawId_succ (i : Nat) : drawId i + 1 = drawId (i + 1) := by
  simp [drawId, UInt32.ofNat_add]

theorem getElem?_of_prefix {α : Type*} {l l' : List α} (h : l <+: l') {i : Nat} {a : α}
    (hi : l[i]? = some a) :
    l'[i]? = some a := by
  obtain ⟨t, rfl⟩ := h
  rw [List.getElem?_append_left (List.getElem?_eq_some_iff.1 hi).1, hi]

theorem DrawnAt.of_prefix {conn conn' : Conn} {id : UInt32} {tok : Tok} (hle : conn.draws <+: conn'.draws)
    (h : DrawnAt conn id tok) : DrawnAt conn' id tok := by
  obtain ⟨i, hi, rfl⟩ := h
  exact ⟨i, getElem?_of_prefix hle hi, rfl⟩

/-! ### The invariant -/

/-- The connection and id of an attempt whose channel exists. -/
def CallPc.at : CallPc → Option (Nat × UInt32)
  | .store c id _ _ => some (c, id)
  | .send c id => some (c, id)
  | .await c id => some (c, id)
  | _ => none

/-- The argument of a call that got past the check at the head of `execute`. -/
def Checked (f : Bytes) : Prop := 9 ≤ f.length ∧ f.headD 0 = shardMagic

/-- The local frame of a call is its argument, up to the id. -/
structure CallFrame (conns : List Conn) (k : Nat) (call : Call) : Prop where
  frame : call.frame = call.shardFrame ∨ ∃ id, call.frame = setClrid id call.shardFrame
  checked : (call.pc = .start ∧ call.frame = call.shardFrame) ∨ (∃ e, call.pc = .done (.error e)) ∨
    Checked call.shardFrame
  drawn : ∀ c id, call.pc.at = some (c, id) → call.frame = setClrid id call.shardFrame ∧
    ∃ conn, conns[c]? = some conn ∧ DrawnAt conn id ⟨k, call.attempts⟩

/-- An accepted frame carries the id drawn for it and the bytes its call was given. -/
structure ConnFrames (calls : List Call) (conn : Conn) : Prop where
  corr : conn.corrId = drawId conn.draws.length
  accepted : ∀ e ∈ conn.accepted, ∃ id call, DrawnAt conn id e.1 ∧ calls[e.1.call]? = some call ∧
    Checked call.shardFrame ∧ e.2 = setClrid id call.shardFrame

structure FrameInv (m : Mux) : Prop where
  conns : ∀ (c : Nat) (conn : Conn), m.conns[c]? = some conn → ConnFrames m.calls conn
  calls : ∀ (k : Nat) (call : Call), m.calls[k]? = some call → CallFrame m.conns k call

theorem CallFrame.mono {conns conns' : List Conn} {k : Nat} {call : Call} (h : CallFrame conns k call)
    (hfwd : ∀ (c : Nat) (conn : Conn), conns[c]? = some conn →
      ∃ conn', conns'[c]? = some conn' ∧ conn.draws <+: conn'.draws) :
    CallFrame conns' k call := by
  refine ⟨h.frame, h.checked, fun c id hat => ?_⟩
  obtain ⟨hf, conn, hc, hd⟩ := h.drawn c id hat
  obtain ⟨conn', hc', hle⟩ := hfwd c conn hc
  exact ⟨hf, conn', hc', hd.of_prefix hle⟩

theorem CallFrame.isChecked {conns : List Conn} {k : Nat} {call : Call} (h : CallFrame conns k call)
    (hs : call.pc ≠ .start) (hd : ∀ e, call.pc ≠ .done (.error e)) : Checked call.shardFrame :=
  (h.checked.resolve_left fun hx => hs hx.1).resolve_left fun ⟨e, he⟩ => hd e he

theorem CallFrame.move {conns : List Conn} {k : Nat} {call : Call} (h : CallFrame conns k call)
    (pc : CallPc) (slot : Slot) (hck : Checked call.shardFrame ∨ ∃ e, pc = .done (.error e))
    (hat : pc.at = none ∨ pc.at = call.pc.at) :
    CallFrame conns k { call with pc, slot } := by
  refine ⟨h.frame, .inr hck.symm, fun c id hat' => ?_⟩
  rcases hat with hat | hat
  · cases hat.symm.trans hat'
  · exact h.drawn c id (hat.symm.trans hat')

theorem CallFrame.retry {conns : List Conn} {k : Nat} {call : Call} (h : CallFrame conns k call)
    (hck : Checked call.shardFrame) (e : RZError) : CallFrame conns k (call.retry e) := by
  refine ⟨h.frame, .inr (.inr hck), fun c id hat => ?_⟩
  unfold Call.retry at hat
  dsimp only at hat
  split at hat <;> cases hat

theorem CallFrame.step {m : Mux} {l : MuxLabel} {k : Nat} {call call' : Call} {conns' : List Conn}
    (h₀ : CallFrame m.conns k call) (hs : CallStep m l k call call')
    (hfwd : ∀ (c : Nat) (conn : Conn), m.conns[c]? = some conn →
      ∃ conn', conns'[c]? = some conn' ∧ conn.draws <+: conn'.draws)
    (hdraw : ∀ (c : Nat) (conn : Conn), l = .draw k → call.pc = .draw c → m.conns[c]? = some conn →
      ∃ conn', conns'[c]? = some conn' ∧ DrawnAt conn' conn.corrId ⟨k, call.attempts⟩) :
    CallFrame conns' k call' := by
  have h := h₀.mono hfwd
  cases hs with
  | refl => exact h
  | slot s hp _ =>
    have hck := h.isChecked (by rintro he; simp [he, CallPc.listening] at hp)
      (by rintro e he; simp [he, CallPc.listening] at hp)
    exact h.move call.pc s (.inl hck) (.inr rfl)
  | reject hp => exact h.move (.done (.error _)) call.slot (.inr ⟨_, rfl⟩) (.inl rfl)
  | begin hp hlen hm =>
    have hck : Checked call.shardFrame := by
      rcases h.checked with ⟨-, hf⟩ | ⟨e, he⟩ | hck
      · exact hf ▸ ⟨hlen, hm⟩
      · simp [hp] at he
      · exact hck
    exact h.move .select call.slot (.inl hck) (.inl rfl)
  | noConn r hl hp => exact h.retry (h.isChecked (by simp [hp]) (by simp [hp])) _
  | refused c id hl hp => exact h.retry (h.isChecked (by simp [hp]) (by simp [hp])) _
  | dropped c id hp _ => exact h.retry (h.isChecked (by simp [hp]) (by simp [hp])) _
  | selected c hl hp =>
    exact h.move (.draw c) call.slot (.inl (h.isChecked (by simp [hp]) (by simp [hp]))) (.inl rfl)
  | draw c conn hl hp hc =>
    have hck := h.isChecked (by simp [hp]) (by simp [hp])
    have hf : setClrid conn.corrId call.frame = setClrid conn.corrId call.shardFrame := by
      rcases h.frame with hf | ⟨id, hf⟩
      · rw [hf]
      · rw [hf, setClrid_setClrid (by have := hck.1; omega)]
    refine ⟨.inr ⟨_, hf⟩, .inr (.inr hck), fun c' id' hat => ?_⟩
    cases hat
    exact ⟨hf, hdraw c conn hl hp hc⟩
  | lockStore c id t hp =>
    exact h.move (.store c id t true) call.slot (.inl (h.isChecked (by simp [hp]) (by simp [hp])))
      (.inr (by rw [hp]; rfl))
  | store c id t s hp _ =>
    exact h.move (.send c id) s (.inl (h.isChecked (by simp [hp]) (by simp [hp]))) (.inr (by rw [hp]; rfl))
  | send c id hl hp =>
    exact h.move (.await c id) call.slot (.inl (h.isChecked (by simp [hp]) (by simp [hp])))
      (.inr (by rw [hp]; rfl))
  | answer c id b hp _ =>
    exact h.move (.done (.ok _)) call.slot (.inl (h.isChecked (by simp [hp]) (by simp [hp]))) (.inl rfl)
  | wake hp => exact h.move .select call.slot (.inl (h.isChecked (by simp [hp]) (by simp [hp]))) (.inl rfl)

theorem ConnFrames.step {m : Mux} {l : MuxLabel} {c : Nat} {conn conn' : Conn} {calls' : List Call}
    (h : ConnFrames m.calls conn)
    (hcalls : ∀ (k : Nat) (call : Call), m.calls[k]? = some call → CallFrame m.conns k call)
    (hc : m.conns[c]? = some conn) (hs : ConnStep m l c conn conn')
    (hfwd : ∀ (k : Nat) (call : Call), m.calls[k]? = some call →
      ∃ call', calls'[k]? = some call' ∧ call'.shardFrame = call.shardFrame) :
    ConnFrames calls' conn' := by
  have old : ∀ e ∈ conn.accepted, ∃ id call, DrawnAt conn' id e.1 ∧ calls'[e.1.call]? = some call ∧
      Checked call.shardFrame ∧ e.2 = setClrid id call.shardFrame := by
    intro e he
    obtain ⟨id, call, hd, hk, hck, hf⟩ := h.accepted e he
    obtain ⟨call', hk', hsf⟩ := hfwd _ call hk
    exact ⟨id, call', hd.of_prefix hs.draws, hk', by rw [hsf]; exact hck, by rw [hsf]; exact hf⟩
  cases hs with
  | draw k call hl hk hp => exact ⟨by simp [h.corr, drawId_succ], old⟩
  | accept k call id hl hk hp hw =>
    refine ⟨h.corr, fun e he => ?_⟩
    rcases List.mem_append.1 he with he | he
    · exact old e he
    · obtain rfl := List.mem_singleton.1 he
      have hcf := hcalls k call hk
      obtain ⟨hf, conn₀, hc₀, hd⟩ := hcf.drawn c id (by rw [hp]; rfl)
      obtain rfl := Option.some.inj (hc.symm.trans hc₀)
      obtain ⟨call', hk', hsf⟩ := hfwd k call hk
      have hck := hcf.isChecked (by simp [hp]) (by simp [hp])
      exact ⟨id, call', hd, hk', by rw [hsf]; exact hck, by rw [hsf]; exact hf⟩
  | _ => exact ⟨h.corr, old⟩

theorem FrameInv.init : FrameInv {} := ⟨by simp, by simp⟩

theorem FrameInv.step {m m' : Mux} {l : MuxLabel} (h : FrameInv m) (hs : m.step cfg l = some m') :
    FrameInv m' := by
  have hfwd : ∀ (c : Nat) (conn : Conn), m.conns[c]? = some conn →
      ∃ conn', m'.conns[c]? = some conn' ∧ conn.draws <+: conn'.draws := fun c conn hc => by
    obtain ⟨conn', hc', hstep⟩ := Mux.step_conn_fwd hs hc
    exact ⟨conn', hc', hstep.draws⟩
  have hcfwd : ∀ (k : Nat) (call : Call), m.calls[k]? = some call →
      ∃ call', m'.calls[k]? = some call' ∧ call'.shardFrame = call.shardFrame := fun k call hk => by
    obtain ⟨call', hk', hstep⟩ := Mux.step_call_fwd hs hk
    exact ⟨call', hk', hstep.shardFrame⟩
  refine ⟨fun c conn' hc' => ?_, fun k call' hk' => ?_⟩
  · rcases Mux.step_conn hs hc' with ⟨conn, hc, hstep⟩ | ⟨-, host, -, rfl⟩
    · exact (h.conns c conn hc).step h.calls hc hstep hcfwd
    · exact ⟨rfl, by simp⟩
  · rcases Mux.step_call hs hk' with ⟨call, hk, hstep⟩ | ⟨-, w, f, -, rfl⟩
    · refine (h.calls k call hk).step hstep hfwd ?_
      rintro c conn rfl hp hc
      obtain ⟨call₀, c₀, conn₀, hk₀, hp₀, hc₀, rfl⟩ := Mux.callDraw_some hs
      obtain rfl := Option.some.inj (hk.symm.trans hk₀)
      obtain rfl : c = c₀ := by simpa using hp.symm.trans hp₀
      obtain rfl := Option.some.inj (hc.symm.trans hc₀)
      refine ⟨_, Mux.setConn_self hc, conn.draws.length, by simp, ?_⟩
      exact (h.conns c conn hc).corr
    · exact ⟨.inl rfl, .inl ⟨rfl, rfl⟩, fun c id hat => by cases hat⟩

theorem FrameInv.of_reach {m : Mux} (h : Reach (Mux.step cfg) {} m) : FrameInv m :=
  h.induct .init fun _ _ _ _ hi hs => hi.step hs

end RzBridge

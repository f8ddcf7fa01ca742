import RzBridge.Proofs.FrameInv
import RzBridge.Proofs.ServerStep
import RzBridge.Proofs.ShardFrame

/-!
# Integrity of the shared backend stream

The write loop emits the accepted frames in the order of the queue (`Emission`), and an accepted frame
is the argument of its call with the drawn id patched in (`FrameInv`). `execute` checks the first byte
and that the header is there, and `try_decode_router` checks less; nobody compares the length field of
the shard frame with the bytes that came with it. The stream is intact as long as the clients get it
right, and one request that declares too little smuggles in another.
-/

namespace RzBridge
open Machine LittleEndian Incremental

variable {cfg : Config}

/-! ### The write loop -/

/-- What the write loop has done with the accepted frames. -/
def Emission (conn : Conn) : Prop :=
  match conn.writer with
  | .recv => ∃ done, conn.accepted.map Prod.snd = done ++ conn.queue ∧ conn.emitted = done.flatten
  | .writing f => ∃ done, conn.accepted.map Prod.snd = done ++ f :: conn.queue ∧ conn.emitted = done.flatten
  | _ => ∃ done f rest n, conn.accepted.map Prod.snd = done ++ f :: rest ∧ conn.emitted = done.flatten ++ f.take n

theorem Emission.step {m : Mux} {l : MuxLabel} {c : Nat} {conn conn' : Conn} (h : Emission conn)
    (hs : ConnStep m l c conn conn') : Emission conn' := by
  cases hs with
  | accept k call id hl hk hp hw =>
    unfold Emission at h ⊢
    dsimp only
    split
    next hr =>
      rw [hr] at h
      obtain ⟨done, ha, he⟩ := h
      exact ⟨done, by simp [ha], he⟩
    next f hr =>
      rw [hr] at h
      obtain ⟨done, ha, he⟩ := h
      exact ⟨done, by simp [ha], he⟩
    next h1 h2 =>
      split at h
      next hr => exact absurd hr h1
      next f hr => exact absurd hr (h2 f)
      next =>
        obtain ⟨done, f, rest, n, ha, he⟩ := h
        exact ⟨done, f, rest ++ [call.frame], n, by simp [ha], he⟩
  | take f queue hw hq =>
    rw [Emission, hw] at h
    obtain ⟨done, ha, he⟩ := h
    exact ⟨done, by simp [ha, hq], he⟩
  | wrote f hw =>
    rw [Emission, hw] at h
    obtain ⟨done, ha, he⟩ := h
    exact ⟨done ++ [f], by simp [ha], by simp [he]⟩
  | writeFail f n hw =>
    rw [Emission, hw] at h
    obtain ⟨done, ha, he⟩ := h
    exact ⟨done, f, conn.queue, n, ha, by simp [he]⟩
  | writerStop hw | writerDrop hw =>
    rw [Emission, hw] at h
    exact h
  | _ => exact h

theorem Emission.of_reach {m : Mux} (h : Reach (Mux.step cfg) {} m) {c : Nat} {conn : Conn}
    (hc : m.conns[c]? = some conn) :
    Emission conn := by
  have all : ∀ (c : Nat) (conn : Conn), m.conns[c]? = some conn → Emission conn := by
    refine h.induct (I := fun m => ∀ (c : Nat) (conn : Conn), m.conns[c]? = some conn → Emission conn)
      (by simp) ?_
    intro m l m' _ hi hs c conn' hc'
    rcases Mux.step_conn hs hc' with ⟨conn, hc, hstep⟩ | ⟨-, host, -, rfl⟩
    · exact (hi c conn hc).step hstep
    · exact ⟨[], rfl, rfl⟩
  exact all c conn hc

/-! ### The stream -/

/-- The stream that a connection's write loop has emitted: complete shard frames, one for each
accepted frame in the order of the queue and carrying the id drawn for it. A failed write, after
which the loop ends, may leave a part of the next frame behind. A receiver that frames the stream by
the header lengths finds the frames sent and no others. -/
structure StreamIntact (conn : Conn) : Prop where
  frames : ∀ e ∈ conn.accepted, ∃ id, DrawnAt conn id e.1 ∧ IsShardFrame id e.2
  emitted : ∃ sent tail, sent <+: conn.accepted ∧ conn.emitted = (sent.map Prod.snd).flatten ++ tail ∧
    (conn.writer = .recv → tail = [] ∧ conn.accepted.map Prod.snd = sent.map Prod.snd ++ conn.queue) ∧
    (tail ≠ [] → ∃ e, sent ++ [e] <+: conn.accepted ∧ tail <+: e.2 ∧ tail.length < e.2.length) ∧
    Parses shardScanner conn.emitted (sent.map Prod.snd) tail ∧ Waits shardScanner tail

theorem waits_nil : Waits shardScanner [] := rfl

/-- The write loop has emitted some of the accepted frames, and possibly a part of the next one. -/
theorem Emission.sent {conn : Conn} (h : Emission conn) :
    ∃ sent tail, sent <+: conn.accepted ∧ conn.emitted = (sent.map Prod.snd).flatten ++ tail ∧
      (conn.writer = .recv → tail = [] ∧ conn.accepted.map Prod.snd = sent.map Prod.snd ++ conn.queue) ∧
      (tail = [] ∨ ∃ e, sent ++ [e] <+: conn.accepted ∧ tail <+: e.2 ∧ tail.length < e.2.length) := by
  unfold Emission at h
  split at h
  next hw =>
    obtain ⟨done, ha, he⟩ := h
    obtain ⟨sent, rest, hacc, rfl, hrest⟩ := List.map_eq_append_iff.1 ha
    exact ⟨sent, [], ⟨rest, hacc.symm⟩, by simp [he], fun _ => ⟨rfl, ha⟩, .inl rfl⟩
  next f hw =>
    obtain ⟨done, ha, he⟩ := h
    obtain ⟨sent, rest, hacc, rfl, hrest⟩ := List.map_eq_append_iff.1 ha
    exact ⟨sent, [], ⟨rest, hacc.symm⟩, by simp [he], by simp [hw], .inl rfl⟩
  next hr hw =>
    obtain ⟨done, f, rest, n, ha, he⟩ := h
    obtain ⟨sent, more, hacc, rfl, hmore⟩ := List.map_eq_append_iff.1 ha
    obtain ⟨e, more, rfl, rfl, -⟩ := List.map_eq_cons_iff.1 hmore
    have hpre : sent ++ [e] <+: conn.accepted := ⟨more, by simp [hacc]⟩
    -- the write may have failed after the last byte, in the flush
    rcases Nat.lt_or_ge n e.2.length with hn | hn
    · refine ⟨sent, e.2.take n, ⟨_, hacc.symm⟩, he, fun h => absurd h hr,
        .inr ⟨e, hpre, List.take_prefix _ _, ?_⟩⟩
      rw [List.length_take]
      omega
    · exact ⟨sent ++ [e], [], hpre, by simp [he, List.take_of_length_le hn], fun h => absurd h hr, .inl rfl⟩

theorem StreamIntact.of_frames {conn : Conn} (he : Emission conn)
    (hf : ∀ e ∈ conn.accepted, ∃ id, DrawnAt conn id e.1 ∧ IsShardFrame id e.2) : StreamIntact conn := by
  refine ⟨hf, ?_⟩
  obtain ⟨sent, tail, hpre, hem, hrecv, htail⟩ := he.sent
  have hsent : ∀ f ∈ sent.map Prod.snd, ∃ id, IsShardFrame id f := by
    intro f hfm
    obtain ⟨e, hes, rfl⟩ := List.mem_map.1 hfm
    obtain ⟨id, -, hid⟩ := hf e (hpre.subset hes)
    exact ⟨id, hid⟩
  refine ⟨sent, tail, hpre, hem, hrecv, fun hne => htail.resolve_left hne, hem ▸ parses_flatten hsent tail, ?_⟩
  rcases htail with rfl | ⟨e, hes, htl, hlt⟩
  · exact waits_nil
  · obtain ⟨id, -, hid⟩ := hf e (hes.subset (by simp))
    rw [List.prefix_iff_eq_take.1 htl]
    exact waits_take hid hlt

/-- The step gives `execute` a shard frame that declares its own length, or one too short to be accepted. -/
def DeclaresLength (cfg : Config) (s : Server) (l : ServerLabel) : Prop :=
  ∀ f, s.dispatched cfg l = some f → LengthDeclared f.shardFrame

/-- The arguments of all calls declare their length. -/
def Declared (s : Server) : Prop :=
  ∀ (k : Nat) (call : Call), s.sys.mux.calls[k]? = some call → LengthDeclared call.shardFrame

theorem Declared.sysStep {s : Server} {sys : Sys} {l : SysLabel} (h : Declared s)
    (hs : s.sys.step cfg l = some sys) (hl : ∀ w f, l = .mux (.spawn w f) → LengthDeclared f) (k : Nat)
    (call : Call) (hk : sys.mux.calls[k]? = some call) :
    LengthDeclared call.shardFrame := by
  rcases Sys.mux_project hs with he | ⟨l', hs', hl', -⟩
  · exact h k call (he ▸ hk)
  · rcases Mux.step_call hs' hk with ⟨call₀, hk₀, hstep⟩ | ⟨-, w, f, rfl, rfl⟩
    · exact hstep.shardFrame ▸ h k call₀ hk₀
    · exact hl w f (hl' rfl)

theorem Declared.step {s s' : Server} {l : ServerLabel} (h : Declared s) (hl : DeclaresLength cfg s l)
    (hs : s.step cfg l = some s') : Declared s' := by
  cases Server.Move.of_step hs with
  | dispatch i x client f sys queued hx hcs hpc hsys =>
    refine h.sysStep hsys fun w f' he => ?_
    cases he
    exact hl f (Server.dispatched_eq hx hcs hpc)
  | sys l sys hne hss => exact h.sysStep hss fun w f he => absurd he (hne w f)
  | _ => exact h

/-- As long as every request that the clients send declares the length of its shard frame, every
backend stream is intact. -/
theorem stream_intact {s : Server}
    (h : ReachWith (Server.step cfg) (DeclaresLength cfg) (Server.init cfg) s) {c : Nat} {conn : Conn}
    (hc : s.sys.mux.conns[c]? = some conn) : StreamIntact conn := by
  have hd : Declared s := h.induct (I := Declared)
    (by simp [Declared, Server.init, Sys.init]) fun _ _ _ _ hi hl hs => hi.step hl hs
  have hr : Reach (Mux.step cfg) {} s.sys.mux := Sys.reach_mux (Server.reach_sys h.reach)
  refine .of_frames (.of_reach hr hc) fun e he => ?_
  obtain ⟨id, call, hdr, hk, hck, hf⟩ := ((FrameInv.of_reach hr).conns c conn hc).accepted e he
  have hsf := (hd e.1.call call hk).isShardFrame hck.1 hck.2
  exact ⟨id, hdr, hf ▸ hsf.setClrid id⟩

instance (s : Server) (l : ServerLabel) : Decidable (DeclaresLength cfg s l) :=
  inferInstanceAs (Decidable (∀ f ∈ s.dispatched cfg l, LengthDeclared f.shardFrame))

/-- Two clients that declare their lengths: the backend gets both requests. -/
theorem stream_intact_two_clients :
    ∃ (s : Server) (conn : Conn), ReachWith (Server.step {}) (DeclaresLength {}) (Server.init {}) s ∧
      s.sys.mux.conns[0]? = some conn ∧ conn.emitted = prependHeader 1 [5] ++ prependHeader 2 [6, 7] ∧
        StreamIntact conn := by
  obtain ⟨s, hs, -, hp⟩ := Reach.of_any
    (guarded (fun s l => decide (DeclaresLength {} s l)) (Server.step {})) (Server.init {})
    (List.flatten [(Sys.leaderUp "a" []).map .sys, [.accept, .accept],
      Server.writeRequest 0 0 (prependHeader 9 [5]),
      Server.writeRequest 1 1 (prependHeader 9 [6, 7]),
      [.sys (.mux (.take 0)), .sys (.mux (.wrote 0)), .sys (.mux (.take 0)), .sys (.mux (.wrote 0))]])
    (fun s => (s.sys.mux.conns[0]?).any fun conn => conn.emitted = prependHeader 1 [5] ++ prependHeader 2 [6, 7])
    (by decide +kernel)
  obtain ⟨conn, hc, he⟩ := (Option.any_eq_true _ _).1 hp
  have hr := ReachWith.of_guarded (fun s l hd => of_decide_eq_true hd) .refl hs
  exact ⟨s, conn, hr, hc, of_decide_eq_true he, stream_intact hr hc⟩

/-- A request that declares an empty payload and brings another frame along: one frame was accepted,
and the backend finds two requests on the stream, the second under an id that was never drawn. -/
theorem undeclared_length_smuggles :
    ∃ (s : Server) (conn : Conn), Reach (Server.step {}) (Server.init {}) s ∧
      s.sys.mux.conns[0]? = some conn ∧ conn.accepted.length = 1 ∧
      Parses shardScanner conn.emitted [prependHeader 1 [], prependHeader 9 [1]] [] ∧
      ¬ StreamIntact conn := by
  obtain ⟨s, -, hr, hp⟩ := Reach.of_any (Server.step {}) (Server.init {})
    (List.flatten [(Sys.leaderUp "a" []).map .sys, [.accept],
      Server.writeRequest 0 0 (prependHeader 7 [] ++ prependHeader 9 [1]),
      [.sys (.mux (.take 0)), .sys (.mux (.wrote 0))]])
    (fun s => (s.sys.mux.conns[0]?).any fun conn =>
      conn.accepted.length = 1 ∧ conn.emitted = [prependHeader 1 [], prependHeader 9 [1]].flatten ++ [])
    (by decide +kernel)
  obtain ⟨conn, hc, he⟩ := (Option.any_eq_true _ _).1 hp
  obtain ⟨hacc, hem⟩ := of_decide_eq_true he
  have hfound : Parses shardScanner conn.emitted [prependHeader 1 [], prependHeader 9 [1]] [] := by
    rw [hem]
    refine parses_flatten (fun f hf => ?_) []
    simp only [List.mem_cons, List.not_mem_nil, or_false] at hf
    rcases hf with rfl | rfl
    · exact ⟨1, [], by simp, rfl⟩
    · exact ⟨9, [1], by simp, rfl⟩
  refine ⟨s, conn, hr, hc, hacc, hfound, fun hi => ?_⟩
  obtain ⟨sent, tail, hpre, -, -, -, hparse, hw⟩ := hi.emitted
  have h2 := (hparse.prefix_of_waits hw hfound).length_le
  have h1 := hpre.length_le
  simp only [List.length_map, List.length_cons, List.length_nil] at h1 h2
  omega

end RzBridge

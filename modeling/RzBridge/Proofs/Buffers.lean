import RzBridge.Proofs.InFlight

/-!
# What clients can make the bridge hold

The drain loop compares the buffer with `max_buffer_size` before it looks at it, and the frame with
`max_frame_size` before it takes it. So a connection that is not in the middle of the loop holds no more than
`max_buffer_size` bytes, and nothing larger than `max_frame_size` reaches `execute` or a backend.
-/

namespace RzBridge
open Machine

variable {cfg : Config}

/-! ### One round -/

/-- The frame was taken off some buffer. -/
def Taken (cfg : Config) (f : RouterFrame) : Prop := ∃ buf rest, drainIter cfg buf = .frame f rest

theorem drainIter_frame_le {buf rest : Bytes} {f : RouterFrame} (h : drainIter cfg buf = .frame f rest) :
    f.frameLen ≤ cfg.maxFrameSize ∧ rest = buf.drop f.frameLen := by
  unfold drainIter at h
  split at h
  · cases h
  · split at h
    · cases h
    · split at h
      · cases h
      next hle =>
        cases h
        exact ⟨Nat.le_of_not_lt hle, rfl⟩
    · split at h
      · cases h
      · dsimp only at h
        split at h <;> cases h

theorem Taken.decoded {f : RouterFrame} (h : Taken cfg f) : ∃ buf, f.Decoded buf := by
  obtain ⟨buf, rest, h⟩ := h
  exact ⟨buf, tryDecodeRouter_eq_frame (drainIter_eq_frame h)⟩

theorem Taken.frameLen_le {f : RouterFrame} (h : Taken cfg f) : f.frameLen ≤ cfg.maxFrameSize := by
  obtain ⟨buf, rest, h⟩ := h
  exact (drainIter_frame_le h).1

theorem Taken.shardFrame_le {f : RouterFrame} (h : Taken cfg f) : f.shardFrame.length + 7 ≤ cfg.maxFrameSize := by
  have hle := h.frameLen_le
  obtain ⟨buf, rest, h⟩ := h
  have hf := fields_of_tryDecodeRouter (drainIter_eq_frame h)
  have hlen : f.shardFrame.length = f.frameLen - (6 + (buf.getD 5 0).toNat + 1) := by
    rw [hf.shardFrame]
    exact length_slice hf.le
  have hroom := hf.room
  omega

theorem drainIter_buf_le {buf : Bytes} (h : drainIter cfg buf ≠ .bufferTooLarge) : buf.length ≤ cfg.maxBufferSize := by
  unfold drainIter at h
  split at h
  · exact absurd rfl h
  next hle => exact Nat.le_of_not_lt hle

theorem drainIter_garbage_le {buf rest : Bytes} (h : drainIter cfg buf = .garbage rest) :
    rest.length ≤ buf.length := by
  unfold drainIter at h
  split at h
  · cases h
  · split at h
    · cases h
    · split at h <;> cases h
    · split at h
      · cases h
        exact le_rfl
      · dsimp only at h
        split at h
        · cases h
        · cases h
          split
          · simp only [List.length_drop]
            omega
          · simp

/-! ### One connection -/

/-- In the middle of the drain loop, or over. -/
def ClientPc.unchecked : ClientPc → Bool
  | .draining => true
  | .closed _ => true
  | _ => false

/-- The sizes of what a connection holds and has taken. -/
structure Client.Bounded (cfg : Config) (c : Client) : Prop where
  buf : c.pc.unchecked = false → c.buf.length ≤ cfg.maxBufferSize
  frames : ∀ f ∈ c.frames, Taken cfg f

theorem Client.Bounded.new (t : Nat) : (Client.new t).Bounded cfg :=
  ⟨fun _ => Nat.zero_le _, by simp [Client.new]⟩

theorem Client.Bounded.unchecked {c c' : Client} (h : c.Bounded cfg) (hpc : c'.pc.unchecked = true)
    (hf : c'.frames = c.frames) : c'.Bounded cfg :=
  ⟨fun hx => absurd (hpc.symm.trans hx) (by simp), by rw [hf]; exact h.frames⟩

theorem Client.Bounded.drain {now : Nat} {c : Client} (h : c.Bounded cfg) (hpc : c.pc = .draining) :
    (c.drain cfg now).Bounded cfg := by
  unfold Client.drain
  split
  case h_1 => exact h.unchecked rfl rfl
  case h_2 hi =>
    split
    · exact h.unchecked rfl rfl
    · exact ⟨fun _ => drainIter_buf_le (by rw [hi]; simp), h.frames⟩
  case h_3 => exact h.unchecked rfl rfl
  case h_4 f rest hi =>
    obtain ⟨-, hrest⟩ := drainIter_frame_le hi
    have hle : c.buf.length ≤ cfg.maxBufferSize := drainIter_buf_le (by rw [hi]; simp)
    refine ⟨fun _ => ?_, fun g hg => ?_⟩
    · show rest.length ≤ cfg.maxBufferSize
      rw [hrest, List.length_drop]
      omega
    · rcases List.mem_append.1 hg with hg | hg
      · exact h.frames g hg
      · obtain rfl := List.mem_singleton.1 hg
        exact ⟨c.buf, rest, hi⟩
  case h_5 => exact h.unchecked (by rw [hpc]; rfl) rfl
  case h_6 rest hi =>
    have hle : c.buf.length ≤ cfg.maxBufferSize := drainIter_buf_le (by rw [hi]; simp)
    exact ⟨fun _ => (drainIter_garbage_le hi).trans hle, h.frames⟩

theorem Client.Bounded.step {now : Nat} {c c' : Client} {e : ClientEvent} (h : c.Bounded cfg)
    (hs : c.step cfg (now, e) = some c') : c'.Bounded cfg := by
  cases Client.Move.of_step hs with
  | close e cause he hpc => exact h.unchecked rfl rfl
  | read chunk hpc => exact h.unchecked rfl rfl
  | drain hpc => exact h.drain hpc
  | returned f r hpc => exact ⟨fun _ => h.buf (by rw [hpc]; rfl), h.frames⟩
  | wrote f r hpc => rcases r with e | resp <;> exact h.unchecked rfl rfl
  | writeFail n f r hpc => rcases r with e | resp <;> exact h.unchecked rfl rfl

/-! ### All connections -/

variable {s : Server}

theorem Client.Bounded.of_reach (h : Reach (Server.step cfg) (Server.init cfg) s) :
    ∀ x ∈ s.clients, x.client.Bounded cfg :=
  Server.client_induct h .new fun _ _ _ _ hb hs => hb.step hs

theorem ReplyLog.taken {c : Client} (h : ReplyLog c) (hb : c.Bounded cfg) :
    (∀ p ∈ c.returned, Taken cfg p.1) ∧ ∀ f, c.pc = .executing f → Taken cfg f := by
  have hmem : ∀ f ∈ requests c.frames, Taken cfg f := fun f hf => hb.frames f (List.mem_filter.1 hf).1
  rw [h.order] at hmem
  refine ⟨fun p hp => hmem _ (List.mem_append_left _ (List.mem_map_of_mem hp)), fun f hpc => ?_⟩
  exact hmem f (List.mem_append_right _ (by rw [hpc]; exact List.mem_singleton_self f))

theorem sum_le_countP_mul {α : Type*} (p : α → Bool) (f : α → Nat) {n : Nat} (l : List α)
    (h : ∀ a ∈ l, p a = true → f a ≤ n) : ((l.filter p).map f).sum ≤ l.countP p * n := by
  induction l with
  | nil => simp
  | cons a l ih =>
    have hl := ih fun b hb => h b (List.mem_cons_of_mem a hb)
    by_cases hp : p a = true
    · have ha := h a List.mem_cons_self hp
      rw [List.filter_cons_of_pos hp, List.countP_cons_of_pos hp, List.map_cons, List.sum_cons, Nat.succ_mul]
      omega
    · rw [List.filter_cons_of_neg hp, List.countP_cons_of_neg hp]
      exact hl

/-- What every run keeps: all the clients outside their drain loops together hold at most `max_connections`
times `max_buffer_size` bytes, a frame that was taken is no larger than `max_frame_size`, and neither is,
without its router header, a frame that a backend connection was given. -/
theorem client_memory_bounded (hmax : cfg.maxConnections < 2 ^ 64) {ls : List ServerLabel}
    (he : exec (Server.step cfg) (Server.init cfg) ls = some s) :
    ((s.clients.filter fun x => !x.client.pc.unchecked).map (·.client.buf.length)).sum ≤
        cfg.maxConnections * cfg.maxBufferSize ∧
      (∀ x ∈ s.clients, ∀ f ∈ x.client.frames, f.frameLen ≤ cfg.maxFrameSize) ∧
      ∀ conn ∈ s.sys.mux.conns, ∀ e ∈ conn.accepted, e.2.length + 7 ≤ cfg.maxFrameSize := by
  have hr := Reach.refl.of_exec he
  have hb := Client.Bounded.of_reach hr
  have hlive := Server.live_le hmax he
  refine ⟨?_, fun x hx f hf => ((hb x hx).frames f hf).frameLen_le, fun conn hconn e hacc => ?_⟩
  · have hcount : (s.clients.countP fun x => !x.client.pc.unchecked) ≤ s.live := by
      refine List.countP_mono_left fun x _ hx => ?_
      cases hpc : x.client.pc with
      | closed cause => simp [hpc, ClientPc.unchecked] at hx
      | _ => rfl
    calc ((s.clients.filter fun x => !x.client.pc.unchecked).map (·.client.buf.length)).sum
        ≤ (s.clients.countP fun x => !x.client.pc.unchecked) * cfg.maxBufferSize :=
          sum_le_countP_mul _ _ s.clients fun x hx hp => (hb x hx).buf (by simpa using hp)
      _ ≤ cfg.maxConnections * cfg.maxBufferSize := Nat.mul_le_mul_right _ (hcount.trans hlive)
  · -- the frame is that of a request, with an id of the same length in it
    obtain ⟨c, hc⟩ := List.mem_iff_getElem?.1 hconn
    obtain ⟨id, call, -, hk, hck, hf⟩ :=
      ((FrameInv.of_reach (Sys.reach_mux (Server.reach_sys hr))).conns c conn hc).accepted e hacc
    obtain ⟨owner, ho⟩ := OwnedBy.of_reach hr
    have hlt : e.1.call < owner.length := ho.len ▸ Mux.lt_of_call hk
    have hown : owner[e.1.call]? = some (owner[e.1.call].1, owner[e.1.call].2) := List.getElem?_eq_getElem hlt
    obtain ⟨x, hx, -⟩ := (ho.asked _ _).1 (List.mem_of_getElem? hown)
    obtain ⟨f, -, hsf, hst⟩ := ho.serves _ _ _ call x hown hk hx
    have hmem := List.mem_of_getElem? hx
    obtain ⟨hret, hrun⟩ := (ReplyLog.of_reach hr x hmem).taken (hb x hmem)
    have htaken : Taken cfg f := by
      obtain ⟨r, hr, -⟩ | ⟨-, hpc, -⟩ := hst
      · exact hret _ (List.mem_of_getElem? hr)
      · exact hrun f hpc
    have hlen : e.2.length = f.shardFrame.length := by
      rw [hf, ← hsf]
      exact length_setClrid id (Nat.le_trans (by decide) hck.1)
    rw [hlen]
    exact htaken.shardFrame_le

/-- One client is in `execute`, the other has sent two bytes of a frame. -/
def partialRun : List ServerLabel :=
  .accept :: Server.request 0 true (prependHeader 9 [5]) ++
    [.accept, .client 1 (.read [0xFE, 1]), .client 1 .drain]

theorem client_memory_bounded_partial :
    ∃ s, exec (Server.step { maxConnections := 2 }) (Server.init { maxConnections := 2 }) partialRun = some s ∧
      ((s.clients.filter fun x => !x.client.pc.unchecked).map (·.client.buf.length)).sum = 2 ∧
      ((s.clients.filter fun x => !x.client.pc.unchecked).map (·.client.buf.length)).sum ≤ 2 * 262144 ∧
      ∀ x ∈ s.clients, ∀ f ∈ x.client.frames, f.frameLen ≤ 16384 := by
  obtain ⟨s, hs, -, hp⟩ := Reach.of_any (Server.step { maxConnections := 2 }) (Server.init { maxConnections := 2 })
    partialRun (fun s => ((s.clients.filter fun x => !x.client.pc.unchecked).map (·.client.buf.length)).sum = 2)
    (by decide +kernel)
  obtain ⟨hsum, hframes, -⟩ := client_memory_bounded (by decide) hs
  exact ⟨s, hs, of_decide_eq_true hp, hsum, hframes⟩

end RzBridge

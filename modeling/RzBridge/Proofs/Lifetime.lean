import RzBridge.Proofs.CloseDecision
import RzBridge.Proofs.Expiry

/-!
# What ends a backend connection

The loops of a connection leave only when its backend gives them a reason (`Leaves`). While the backend ends
nothing, and sends one frame at most for each frame it was given, there is none: every id it can answer is
still in the demux map (`Answerable`), whatever calls, selections, cleanups and syncs do meanwhile.
-/

namespace RzBridge
open Machine

variable {cfg : Config} {m m' : Mux} {l : MuxLabel} {c k : Nat} {conn conn' : Conn} {id : UInt32}

/-! ### Why a loop leaves -/

def ReaderPc.on : ReaderPc → Bool
  | .stop => false
  | .ended => false
  | _ => true

def WriterPc.on : WriterPc → Bool
  | .recv => true
  | .writing _ => true
  | _ => false

/-- Both loops are on, and neither has closed the connection. -/
structure Conn.On (conn : Conn) : Prop where
  reader : conn.reader.on = true
  writer : conn.writer.on = true
  notClosed : conn.closed = false

/-- Nothing else ends a connection, and its read loop leaves off reading only with a frame. -/
theorem Conn.On.step (h : conn.On) (hs : ConnStep m l c conn conn') :
    conn'.On ∧ (conn.reader = .reading → conn'.reader = .reading ∨ l = .drain c) ∨ Leaves c conn l := by
  cases hs with
  | readStop buf hr hl => exact .inr hl
  | writeFail f n hw hl => exact .inr (hl ▸ .writeFail n)
  | drain hdr f rest hr hd hl => exact .inl ⟨⟨rfl, h.writer, h.notClosed⟩, fun _ => .inr hl⟩
  | lockLoad hdr f hr | loadRemove hdr f tok t hr hl =>
    refine .inl ⟨⟨rfl, h.writer, h.notClosed⟩, fun hrd => ?_⟩
    cases hr.symm.trans hrd
  | deliver hdr f tok closed reader hr hc hl =>
    rcases hc with ⟨rfl, rfl⟩ | ⟨rfl, rfl⟩
    · exact .inr (hl rfl)
    · exact .inl ⟨⟨rfl, h.writer, h.notClosed⟩, fun _ => .inl rfl⟩
  | readerStop hl hr =>
    have hon := h.reader
    rw [hr] at hon
    cases hon
  | writerStop hw | writerDrop hw =>
    have hon := h.writer
    rw [hw] at hon
    cases hon
  | take f queue hw hq | wrote f hw => exact .inl ⟨⟨h.reader, rfl, h.notClosed⟩, .inl⟩
  | _ => exact .inl ⟨⟨h.reader, h.writer, h.notClosed⟩, .inl⟩

/-! ### What a backend can answer -/

theorem Call.retry_pc_ne_send (call : Call) (e : RZError) : (call.retry e).pc ≠ .send c id := by
  unfold Call.retry
  dsimp only
  split <;> simp

theorem CallStep.sending {call call' : Call} (h : CallStep m l k call call') (hp : call'.pc = .send c id) :
    call.pc = .send c id ∨ l = .store k ∧ ∃ t, call.pc = .store c id t true := by
  cases h with
  | refl => exact .inl hp
  | slot s hl hs => exact .inl hp
  | store c₀ id₀ t s hp₀ hs hl =>
    cases hp
    exact .inr ⟨hl, t, hp₀⟩
  | noConn | refused | dropped => exact absurd hp (Call.retry_pc_ne_send _ _)
  | _ => cases hp

/-- The id in the header of a frame. -/
def frameId (f : Bytes) : UInt32 := u32FromLeBytes (slice f 1 5)

/-- Connection `c` is served well in the step: the socket neither ends nor refuses bytes, and a frame that comes
in is one, answers a frame that the connection was given and is the first to do so. -/
def Mux.serves (m : Mux) (c : Nat) : MuxLabel → Bool
  | .readEnd c' => c' ≠ c
  | .writeFail c' _ => c' ≠ c
  | .drain c' => c' ≠ c || (m.conns[c]?).all fun conn =>
    match drainStep conn.buf with
    | .needMore => true
    | .failed .. => false
    | .frame hdr _ _ =>
      conn.accepted.any (frameId ·.2 = hdr.clrId) && conn.received.all (·.1.clrId ≠ hdr.clrId)
  | _ => true

def Sys.serves (s : Sys) (c : Nat) : SysLabel → Bool
  | .mux l => s.mux.serves c l
  | _ => true

/-- A frame under the id finds a sender, or one has come in already. -/
def Conn.Known (conn : Conn) (id : UInt32) : Prop :=
  (∃ x, conn.demux.lookup id = some x) ∨ ∃ e ∈ conn.received, e.1.clrId = id

/-- The connection is on and can take every answer to what it was given; `handed`: the frames that came in were
handed over one by one. -/
structure Answerable (m : Mux) (c : Nat) (conn : Conn) : Prop where
  on : conn.On
  looking : ∀ hdr f held, conn.reader = .lookup hdr f held → ∃ x, conn.demux.lookup hdr.clrId = some x
  given : ∀ e ∈ conn.accepted, conn.Known (frameId e.2)
  sending : ∀ (k : Nat) (call : Call) (id : UInt32), m.calls[k]? = some call → call.pc = .send c id → conn.Known id
  handed : conn.delivered.map Prod.fst =
    List.range (conn.received.length - if conn.reader = .reading then 0 else 1)

theorem Mux.serves_drain {hdr : Header} {f rest : Bytes} (h : m.serves c (.drain c) = true)
    (hc : m.conns[c]? = some conn) (hd : drainStep conn.buf = .frame hdr f rest) :
    (∃ e ∈ conn.accepted, frameId e.2 = hdr.clrId) ∧ ∀ e ∈ conn.received, e.1.clrId ≠ hdr.clrId := by
  simpa [serves, hc, hd] using h

/-- Where the connection is served well, no loop has a reason to leave. -/
theorem Answerable.stays (h : Answerable m c conn) (hr : ReaderInv conn) (hc : m.conns[c]? = some conn)
    (hsv : m.serves c l = true) : ¬ Leaves c conn l := by
  rintro (_ | ⟨e, rest, hd⟩ | ⟨hdr, f, hrd, hl⟩ | ⟨tok, hdr, f, hrd, hcl⟩ | _)
  · simp [Mux.serves] at hsv
  · simp [Mux.serves, hc, hd] at hsv
  · obtain ⟨x, hx⟩ := h.looking hdr f true hrd
    rw [hl] at hx
    cases hx
  · have hok := hr.header _ (List.mem_of_getLast? (hr.deliver tok hdr f hrd))
    rw [shouldClose_eq_false hok] at hcl
    cases hcl
  · simp [Mux.serves] at hsv

theorem Conn.Known.step (h : conn.Known id) (hs : ConnStep m l c conn conn') (hon : conn.On) (hr : ReaderInv conn)
    (hl : ∀ start, l ≠ .cleanup c start) : conn'.Known id := by
  cases hs with
  | store k call id' t hl hk hp =>
    refine h.imp_left fun ⟨x, hx⟩ => ?_
    by_cases hid : id = id'
    · subst hid
      exact ⟨_, AList.lookup_insert _⟩
    · exact ⟨x, (AList.lookup_insert_ne hid).trans hx⟩
  | cleanup start d hl' => exact absurd hl' (hl start)
  | free hl' hr' =>
    have hrd := hon.reader
    rw [hr'] at hrd
    cases hrd
  | drain hdr f rest hr' hd => exact h.imp_right fun ⟨e, he, hid⟩ => ⟨e, List.mem_append_left _ he, hid⟩
  | loadRemove hdr f tok t hr' hl' =>
    by_cases hid : id = hdr.clrId
    · exact .inr ⟨(hdr, f), List.mem_of_getLast? (hr.lookup hdr f true hr'), hid.symm⟩
    · exact h.imp_left fun ⟨x, hx⟩ => ⟨x, (AList.lookup_erase_ne hid).trans hx⟩
  | _ => exact h

theorem FrameInv.frameId_sent {call : Call} (h : FrameInv m) (hk : m.calls[k]? = some call)
    (hp : call.pc = .send c id) : frameId call.frame = id := by
  have hcf := h.calls k call hk
  have hck : Checked call.shardFrame := hcf.isChecked (by simp [hp]) (by simp [hp])
  rw [(hcf.drawn c id (by rw [hp]; rfl)).1, frameId]
  exact clrid_setClrid id (by have := hck.1; omega)

theorem Answerable.step (h : Answerable m c conn) (hf : FrameInv m) (hr : ReaderInv conn)
    (hs : m.step cfg l = some m') (hc : m.conns[c]? = some conn) (hc' : m'.conns[c]? = some conn')
    (hsv : m.serves c l = true) (hl : ∀ start, l ≠ .cleanup c start) : Answerable m' c conn' := by
  obtain ⟨conn₁, hc₁, hstep⟩ := Mux.step_conn_fwd hs hc
  obtain rfl := Option.some.inj (hc₁.symm.trans hc')
  obtain ⟨hon, hreads⟩ := (h.on.step hstep).resolve_right (h.stays hr hc hsv)
  have known : ∀ {id}, conn.Known id → conn₁.Known id := fun hx => hx.step hstep h.on hr hl
  refine ⟨hon, ?_, ?_, ?_, ?_⟩
  · intro hdr f held hrd
    cases hstep with
    | drain hdr' f' rest hr' hd =>
      cases hrd
      -- the frame answers one that was given, so its id is known, and no frame under it has come in yet
      obtain rfl := (hreads hr').resolve_left (by simp)
      obtain ⟨⟨e, he, hid⟩, hnew⟩ := Mux.serves_drain hsv hc hd
      exact (hid ▸ h.given e he).resolve_right fun ⟨e', he', hid'⟩ => hnew e' he' hid'
    | lockLoad hdr' f' hr' =>
      cases hrd
      exact h.looking hdr f false hr'
    | store k call id t hl hk hp =>
      obtain ⟨x, hx⟩ := h.looking hdr f held hrd
      by_cases hid : hdr.clrId = id
      · subst hid
        exact ⟨_, AList.lookup_insert _⟩
      · exact ⟨x, (AList.lookup_insert_ne hid).trans hx⟩
    | cleanup start d hl' => exact absurd hl' (hl start)
    | free hl' hr' =>
      rw [hr'] at hrd
      cases hrd
    | deliver hdr' f' tok closed reader hr' hx =>
      rcases hx with ⟨-, rfl⟩ | ⟨-, rfl⟩ <;> cases hrd
    | readStop | loadRemove | readerStop => cases hrd
    | _ => exact h.looking hdr f held hrd
  · intro e he
    rcases hstep.accepted with heq | ⟨k, call, id, -, hk, hp, heq⟩
    · exact known (h.given e (heq ▸ he))
    · rw [heq, List.mem_append, List.mem_singleton] at he
      rcases he with he | rfl
      · exact known (h.given e he)
      · rw [hf.frameId_sent hk hp]
        exact known (h.sending k call id hk hp)
  · intro k call' id hk' hp'
    have hsent : ∃ call, m.calls[k]? = some call ∧
        (call.pc = .send c id ∨ l = .store k ∧ ∃ t, call.pc = .store c id t true) := by
      obtain ⟨call, hk, hcall⟩ | ⟨-, w, f, -, rfl⟩ := Mux.step_call hs hk'
      · exact ⟨call, hk, hcall.sending hp'⟩
      · cases hp'
    obtain ⟨call, hk, hp | ⟨rfl, t, hp⟩⟩ := hsent
    · exact known (h.sending k call id hk hp)
    · obtain ⟨call₀, c₀, conn₀, id₀, t₀, hk₀, hp₀, hc₀, rfl⟩ := Mux.callStore_some hs
      obtain rfl := Option.some.inj (hk.symm.trans hk₀)
      rw [hp] at hp₀
      cases hp₀
      rw [Mux.demuxStore_conns] at hc'
      obtain rfl := Option.some.inj (hc'.symm.trans (Mux.setConn_self hc₀))
      exact .inl ⟨_, AList.lookup_insert _⟩
  · have hh := h.handed
    cases hstep with
    | drain hdr f rest hr' hd =>
      rw [if_pos hr', Nat.sub_zero] at hh
      rw [if_neg (by simp), List.length_append]
      exact hh
    | deliver hdr f tok closed reader hr' hx =>
      have hlast := List.mem_of_getLast? (hr.deliver tok hdr f hr')
      have hsucc : conn.received.length - 1 + 1 = conn.received.length :=
        Nat.sub_add_cancel (List.length_pos_of_mem hlast)
      rw [if_neg (by simp [hr'])] at hh
      rcases hx with ⟨-, rfl⟩ | ⟨-, rfl⟩
      · cases hon.reader
      · rw [if_pos rfl, Nat.sub_zero, List.map_append, hh, ← hsucc, List.range_succ]
        rfl
    | lockLoad hdr f hr' | loadRemove hdr f tok t hr' hl' =>
      rw [if_neg (by simp [hr'])] at hh
      rw [if_neg (by simp)]
      exact hh
    | readStop | readerStop => cases hon.reader
    | _ => exact hh

theorem Answerable.connect {host : String} (hf : FrameInv m) (hc : c = m.conns.length)
    (hcalls : m'.calls = m.calls) : Answerable m' c { addr := host } where
  on := ⟨rfl, rfl, rfl⟩
  looking _ _ _ hr := by cases hr
  given _ he := absurd he List.not_mem_nil
  sending k call id hk hp := by
    rw [hcalls] at hk
    obtain ⟨-, conn, hconn, -⟩ := (hf.calls k call hk).drawn c id (by rw [hp]; rfl)
    exact absurd (Mux.lt_of_conn hconn) (by omega)
  handed := rfl

/-! ### Runs -/

theorem Sys.serves_project {s : Sys} {l : SysLabel} {l' : MuxLabel} (h : s.serves c l = true)
    (hi : Sys.internal l' = true → l = .mux l') : s.mux.serves c l' = true := by
  cases l' with
  | selected | lockStore | connect | lockLoad | cleanup => rfl
  | _ =>
    obtain rfl := hi rfl
    exact h

theorem Answerable.of_reachWith {s : Sys}
    (h : ReachWith (Sys.step cfg) (fun s l => s.serves c l = true) (Sys.init cfg) s) :
    ∀ conn, s.mux.conns[c]? = some conn → Answerable s.mux c conn := by
  refine h.induct (I := fun s => ∀ conn, s.mux.conns[c]? = some conn → Answerable s.mux c conn)
    (by simp [Sys.init]) ?_
  intro s l s' hr hi hsv hs conn' hc'
  rcases Sys.mux_project hs with he | ⟨l', hm, hint, hcl⟩
  · rw [he] at hc' ⊢
    exact hi conn' hc'
  · have hm₀ := Sys.reach_mux hr.reach
    rcases Mux.step_conn hm hc' with ⟨conn, hc, -⟩ | ⟨hlen, host, rfl, rfl⟩
    · have ha := hi conn hc
      refine ha.step (.of_reach hm₀) (.of_reach hm₀ c conn hc) hm hc hc' (Sys.serves_project hsv hint) ?_
      -- a selection cleans up closed connections only
      rintro start rfl
      obtain ⟨-, conn₀, hc₀, hclosed⟩ := (Sys.Cleaning.of_reach hr.reach).of_cleans (hcl c start rfl)
      obtain rfl := Option.some.inj (hc.symm.trans hc₀)
      rw [ha.on.notClosed] at hclosed
      cases hclosed
    · have he : { s.mux with conns := s.mux.conns ++ [{ addr := host }] } = s'.mux := Option.some.inj hm
      exact .connect (.of_reach hm₀) hlen (by rw [← he])

/-- In every run in which a connection is served well it is never closed, and between two frames all that came in
have been handed over, in order: whatever the responses say and whatever happens to the pools and the calls. -/
theorem served_connection_lives {s : Sys}
    (h : ReachWith (Sys.step cfg) (fun s l => s.serves c l = true) (Sys.init cfg) s)
    (hc : s.mux.conns[c]? = some conn) :
    conn.closed = false ∧ conn.reader ≠ .stop ∧ conn.reader ≠ .ended ∧
      (conn.reader = .reading → conn.delivered.map Prod.fst = List.range conn.received.length) := by
  have ha := Answerable.of_reachWith h conn hc
  have hon := ha.on.reader
  refine ⟨ha.on.notClosed, ?_, ?_, fun hr => ?_⟩
  · rintro hr
    rw [hr] at hon
    cases hon
  · rintro hr
    rw [hr] at hon
    cases hon
  · have hh := ha.handed
    rwa [if_pos hr] at hh

/-- The leader answers a write with a "503"; in the next sync it is no leader any more and leaves the pool. -/
def unavailableRun : List SysLabel :=
  Sys.leaderUp "a" [] ++ Sys.followersUp [] ++ Sys.writeCall 0 (prependHeader 7 [1]) ++
    [.mux (.take 0), .mux (.wrote 0)] ++
    Sys.reply 0 (prependHeader 1 (5 :: asBytes "ERROR" ++ [1, 0] ++ asBytes "503")) ++
    [.mux (.receive 0)] ++ Sys.leaderDown "b" [] true

theorem served_connection_lives_dropped : ∃ (s : Sys) (conn : Conn),
    exec (guarded (fun s l => s.serves 0 l) (Sys.step {})) (Sys.init {}) unavailableRun = some s ∧
    s.handler.leaderConns = [none] ∧ s.mux.conns[0]? = some conn ∧ conn.received.length = 1 ∧
    conn.closed = false ∧ conn.delivered.map Prod.fst = [0] := by
  obtain ⟨s, hs, -, hp⟩ := Reach.of_any (guarded (fun s l => s.serves 0 l) (Sys.step {})) (Sys.init {}) unavailableRun
    (fun s => decide (s.handler.leaderConns = [none]) && (s.mux.conns[0]?).any fun (conn : Conn) =>
      conn.reader = .reading ∧ conn.received.length = 1) (by decide +kernel)
  obtain ⟨hnone, hp⟩ := Bool.and_eq_true_iff.1 hp
  obtain ⟨conn, hc, hconn⟩ := (Option.any_eq_true _ _).1 hp
  obtain ⟨hr, hlen⟩ := of_decide_eq_true hconn
  have hwith : ReachWith (Sys.step {}) (fun s l => s.serves 0 l = true) (Sys.init {}) s :=
    .of_guarded (fun _ _ h => h) .refl hs
  obtain ⟨hopen, -, -, hhanded⟩ := served_connection_lives hwith hc
  exact ⟨s, conn, hs, of_decide_eq_true hnone, hc, hlen, hopen, by rw [hhanded hr, hlen]; rfl⟩

end RzBridge

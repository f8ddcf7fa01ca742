import RzBridge.Proofs.DrainFrame
import RzBridge.Proofs.MuxStep

/-!
# When the read loop closes a connection

A backend that is no longer the leader, or not available, says so with an error response ("308", "405"
or "503"), and the read loop is to give its connection up then. `drain_frame_async` returns the whole
frame and the read loop indexes it as if it were the payload, so that it compares bytes of the frame's
header with the status. No frame passes the comparison (`shouldClose_eq_false`): it would need the
status length to be 5 and to be the digit `0` at once. Hence the loop is right about a frame exactly
when the frame does not ask for the connection to be closed.
-/

namespace RzBridge
open Machine LittleEndian

/-- The status of the payload is "ERROR" and the three bytes behind the field count are "308", "405" or
"503". -/
def DemandsClose (frame : Bytes) : Prop :=
  let payload := frame.drop 9
  let fieldDataStart := 1 + (payload.headD 0).toNat + 2
  slice payload 1 (1 + (payload.headD 0).toNat) = asBytes "ERROR" ∧
    (slice payload fieldDataStart (fieldDataStart + 3) = asBytes "308" ∨
      slice payload fieldDataStart (fieldDataStart + 3) = asBytes "405" ∨
        slice payload fieldDataStart (fieldDataStart + 3) = asBytes "503")

instance (frame : Bytes) : Decidable (DemandsClose frame) := inferInstanceAs (Decidable (_ ∧ _))

/-! ### The frames in the hands of the read loop -/

theorem parseHeader_ok {frame : Bytes} {hdr : Header} (h : parseHeader frame = .ok hdr) :
    hdr.statusLen = frame.getD 9 0 ∧ 12 + hdr.statusLen.toNat ≤ frame.length := by
  unfold parseHeader at h
  split at h
  · cases h
  next b payload hp =>
    split at h
    · cases h
    next hlen =>
      have hl : frame.length - 9 = (b :: payload).length := by rw [← hp, List.length_drop]
      have hb : frame.getD 9 0 = b := by
        rw [List.getD_eq_getElem?_getD, ← List.head?_drop, hp]
        rfl
      rw [← Except.ok.inj h]
      exact ⟨hb.symm, by dsimp only; omega⟩

/-- The code the loop looks for starts one byte before the payload, so its second digit would be the
status length. -/
theorem shouldClose_eq_false {frame : Bytes} {hdr : Header} (h : parseHeader frame = .ok hdr) :
    shouldClose hdr frame = false := by
  obtain ⟨hst, hlen⟩ := parseHeader_ok h
  by_contra hc
  have hc : shouldClose hdr frame = true := by simpa using hc
  unfold shouldClose at hc
  dsimp only at hc
  split at hc
  next hcond =>
    have h5 : hdr.statusLen.toNat = 5 := by
      have hl := congrArg List.length hcond.2
      rw [length_slice (by omega)] at hl
      simp only [List.length_cons, List.length_nil] at hl
      omega
    rw [h5] at hc
    split at hc
    next code hcode =>
      have hbytes := fromUtf8_eq_some.1 hcode
      have h9 : frame.getD 9 0 = (asBytes code).getD 1 0 := by
        rw [← hbytes]
        simp [slice, List.getD_eq_getElem?_getD]
      have h0 : (asBytes code).getD 1 0 = 0x30 := by
        simp only [decide_eq_true_eq] at hc
        rcases hc with rfl | rfl | rfl <;> decide
      rw [hst, h9, h0] at h5
      exact absurd h5 (by decide)
    next => cases hc
  next => cases hc

/-- What the read loop holds is the last frame that `drain_frame_async` returned. -/
structure ReaderInv (conn : Conn) : Prop where
  header : ∀ e ∈ conn.received, parseHeader e.2 = .ok e.1
  lookup : ∀ hdr f held, conn.reader = .lookup hdr f held → conn.received.getLast? = some (hdr, f)
  deliver : ∀ tok hdr f, conn.reader = .deliver tok hdr f → conn.received.getLast? = some (hdr, f)

theorem ReaderInv.step {m : Mux} {l : MuxLabel} {c : Nat} {conn conn' : Conn} (h : ReaderInv conn)
    (hs : ConnStep m l c conn conn') : ReaderInv conn' := by
  cases hs with
  | readStop buf hr => exact ⟨h.header, by simp, by simp⟩
  | drain hdr f rest hr hd =>
    refine ⟨fun e he => ?_, fun hdr' f' held hr' => ?_, by simp⟩
    · rcases List.mem_append.1 he with he | he
      · exact h.header e he
      · obtain rfl := List.mem_singleton.1 he
        exact (drainStep_eq_frame hd).2.2
    · obtain ⟨rfl, rfl, -⟩ := ReaderPc.lookup.inj hr'
      exact List.getLast?_concat
  | lockLoad hdr f hr =>
    refine ⟨h.header, fun hdr' f' held hr' => ?_, by simp⟩
    obtain ⟨rfl, rfl, -⟩ := ReaderPc.lookup.inj hr'
    exact h.lookup hdr f false hr
  | loadRemove hdr f tok t hr hl =>
    refine ⟨h.header, by simp, fun tok' hdr' f' hr' => ?_⟩
    obtain ⟨-, rfl, rfl⟩ := ReaderPc.deliver.inj hr'
    exact h.lookup hdr f true hr
  | deliver hdr f tok closed reader hr hc =>
    rcases hc with ⟨-, rfl⟩ | ⟨-, rfl⟩
    · exact ⟨h.header, by simp, by simp⟩
    · exact ⟨h.header, by simp, by simp⟩
  | readerStop hl hr => exact ⟨h.header, by simp, by simp⟩
  | _ => exact ⟨h.header, h.lookup, h.deliver⟩

theorem ReaderInv.of_reach {cfg : Config} {m : Mux} (hm : Reach (Mux.step cfg) {} m) :
    ∀ (c : Nat) (conn : Conn), m.conns[c]? = some conn → ReaderInv conn := by
  refine hm.induct (I := fun m => ∀ (c : Nat) (conn : Conn), m.conns[c]? = some conn → ReaderInv conn)
    (by simp) ?_
  intro m l m' _ hi hs c conn' hc'
  rcases Mux.step_conn hs hc' with ⟨conn, hc, hstep⟩ | ⟨-, host, -, rfl⟩
  · exact (hi c conn hc).step hstep
  · exact ⟨by simp, by simp, by simp⟩

/-! ### The decision -/

/-- Connection `c`, whose read loop took `tok` out of the map for `frame`, sends `tok` the frame, the last
one received; it then closes if the content demands it and goes on reading if not. -/
def ClosesOnDemand (cfg : Config) (m : Mux) (c : Nat) (conn : Conn) (tok : Tok) (hdr : Header)
    (frame : Bytes) : Prop :=
  ∃ m' conn', m.step cfg (.deliver c) = some m' ∧ m'.conns[c]? = some conn' ∧
    conn.received.getLast? = some (hdr, frame) ∧ m'.calls = (m.sendSender tok frame).calls ∧
      conn'.delivered = conn.delivered ++ [(conn.received.length - 1, tok)] ∧
        (conn'.reader = .stop ∧ conn'.closed = true ↔ DemandsClose frame) ∧
          (¬ DemandsClose frame → conn'.reader = .reading ∧ conn'.closed = conn.closed)

theorem deliver_reading {cfg : Config} {m : Mux} {c : Nat} {conn : Conn} {tok : Tok} {hdr : Header}
    {frame : Bytes} (hm : Reach (Mux.step cfg) {} m) (hc : m.conns[c]? = some conn)
    (hr : conn.reader = .deliver tok hdr frame) :
    ∃ m', m.step cfg (.deliver c) = some m' ∧ conn.received.getLast? = some (hdr, frame) ∧
      m'.calls = (m.sendSender tok frame).calls ∧
        m'.conns[c]? = some
          { conn with
            delivered := conn.delivered ++ [(conn.received.length - 1, tok)]
            reader := .reading } := by
  have hinv := ReaderInv.of_reach hm c conn hc
  have hlast := hinv.deliver tok hdr frame hr
  have hopen : shouldClose hdr frame = false :=
    shouldClose_eq_false (hinv.header _ (List.mem_of_getLast? hlast))
  set conn₁ : Conn :=
    { conn with delivered := conn.delivered ++ [(conn.received.length - 1, tok)], reader := .reading } with hconn₁
  have hstep : m.step cfg (.deliver c) = some ((m.setConn c conn₁).sendSender tok frame) := by
    simp [Mux.step, Mux.readerDeliver, hc, hr, hopen, hconn₁]
  have hget : ((m.setConn c conn₁).sendSender tok frame).conns[c]? = some conn₁ :=
    Mux.setConn_self hc
  exact ⟨_, hstep, hlast, rfl, hget⟩

theorem not_closesOnDemand {cfg : Config} {m : Mux} {c : Nat} {conn : Conn} {tok : Tok} {hdr : Header}
    {frame : Bytes} (hm : Reach (Mux.step cfg) {} m) (hc : m.conns[c]? = some conn)
    (hr : conn.reader = .deliver tok hdr frame) (hd : DemandsClose frame) :
    ¬ ClosesOnDemand cfg m c conn tok hdr frame := by
  obtain ⟨m', hs, -, -, hget⟩ := deliver_reading hm hc hr
  rintro ⟨m₁, conn₁, hs₁, hget₁, -, -, -, hiff, -⟩
  cases hs.symm.trans hs₁
  cases hget.symm.trans hget₁
  exact absurd (hiff.2 hd).1 (by simp)

/-- In every reachable state, the read loop does with a frame what its content demands if and only if it
does not demand to close the connection. -/
theorem closesOnDemand_iff {cfg : Config} {m : Mux} {c : Nat} {conn : Conn} {tok : Tok} {hdr : Header}
    {frame : Bytes} (hm : Reach (Mux.step cfg) {} m) (hc : m.conns[c]? = some conn)
    (hr : conn.reader = .deliver tok hdr frame) :
    ClosesOnDemand cfg m c conn tok hdr frame ↔ ¬ DemandsClose frame := by
  constructor
  · exact fun h hd => not_closesOnDemand hm hc hr hd h
  · intro hd
    obtain ⟨m', hs, hlast, hcalls, hget⟩ := deliver_reading hm hc hr
    refine ⟨m', _, hs, hget, hlast, hcalls, rfl, ⟨fun h => ?_, fun h => absurd h hd⟩, fun _ => ⟨rfl, rfl⟩⟩
    exact absurd h.1 (by simp)

/-- An error response with the code given comes in for the one call in flight, and the read loop has its
sender. -/
def errorRun (code : String) : List MuxLabel :=
  [.connect "a", .spawn true (prependHeader 7 []), .start 0, .selected 0 (some 0), .draw 0, .lockStore 0, .store 0,
    .send 0, .feed 0 (prependHeader 1 ([5] ++ asBytes "ERROR" ++ leBytes 2 1 ++ asBytes code)), .drain 0,
    .lockLoad 0, .loadRemove 0]

theorem errorRun_deliver (code : String) (p : Bytes → Bool)
    (h : ((exec (Mux.step {}) {} (errorRun code)).bind fun m => m.conns[0]?).any
      (fun conn => match conn.reader with
        | .deliver _ _ frame => p frame
        | _ => false) = true) :
    ∃ m conn tok hdr frame, Reach (Mux.step {}) {} m ∧ m.conns[0]? = some conn ∧
      conn.reader = .deliver tok hdr frame ∧ p frame = true := by
  obtain ⟨conn, hconn, hp⟩ := (Option.any_eq_true _ _).1 h
  obtain ⟨m, hm, hc⟩ := Option.bind_eq_some_iff.1 hconn
  split at hp
  next tok hdr frame hr => exact ⟨m, conn, tok, hdr, frame, Reach.refl.of_exec hm, hc, hr, hp⟩
  next => cases hp

/-- A "404" is handed over and the loop rightly goes on. -/
theorem closesOnDemand_iff_notFound :
    ∃ m conn tok hdr frame, Reach (Mux.step {}) {} m ∧ m.conns[0]? = some conn ∧
      conn.reader = .deliver tok hdr frame ∧ ClosesOnDemand {} m 0 conn tok hdr frame := by
  obtain ⟨m, conn, tok, hdr, frame, hm, hc, hr, hd⟩ :=
    errorRun_deliver "404" (fun frame => !decide (DemandsClose frame)) (by decide)
  have hd : ¬ DemandsClose frame := by simpa using hd
  exact ⟨m, conn, tok, hdr, frame, hm, hc, hr, (closesOnDemand_iff hm hc hr).2 hd⟩

/-- A "503" is handed over and the loop stays on the connection. -/
theorem closesOnDemand_unavailable_false :
    ∃ m conn tok hdr frame, Reach (Mux.step {}) {} m ∧ m.conns[0]? = some conn ∧
      conn.reader = .deliver tok hdr frame ∧ DemandsClose frame ∧
        ¬ ClosesOnDemand {} m 0 conn tok hdr frame := by
  obtain ⟨m, conn, tok, hdr, frame, hm, hc, hr, hd⟩ :=
    errorRun_deliver "503" (fun frame => decide (DemandsClose frame)) (by decide)
  have hd : DemandsClose frame := by simpa using hd
  exact ⟨m, conn, tok, hdr, frame, hm, hc, hr, hd, not_closesOnDemand hm hc hr hd⟩

end RzBridge

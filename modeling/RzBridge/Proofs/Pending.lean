import RzBridge.Proofs.Expiry
import RzBridge.Proofs.InFlight
import RzBridge.Proofs.Leftovers

/-!
# The demux maps of open connections

An entry of a demux map outlives its attempt only where `send_raw` refused the frame, and there the connection is
closed. So the entries on open connections are those of calls in flight, one for each.
-/

namespace RzBridge
open Machine

variable {cfg : Config} {m : Mux} {c : Nat} {conn : Conn}

theorem SenderInv.of_reach (h : Reach (Mux.step cfg) {} m) : SenderInv (fun _ _ c _ => m.ClosedAt c) m := by
  refine h.induct (I := fun m => SenderInv (fun _ _ c _ => m.ClosedAt c) m) .init ?_
  intro m l m' hr hi hs
  refine (hi.mono fun _ _ _ _ hcl => hcl.step hs).step ?_ hs
  rintro k call c conn id rfl - - hc hw
  exact Mux.ClosedAt.step ⟨conn, hc, writer_closed hr c conn hc (.inr hw)⟩ hs

/-- On an open connection the sender registered under an id is that of the attempt of a call that waits there
under it. -/
theorem Mux.waits_of_open {id : UInt32} {tok : Tok} {t : Nat} (h : Reach (Mux.step cfg) {} m)
    (hc : m.conns[c]? = some conn) (hopen : conn.closed = false) (hl : conn.demux.lookup id = some (tok, t)) :
    ∃ call, m.calls[tok.call]? = some call ∧ tok.attempt = call.attempts ∧ call.pc.Waits c id := by
  obtain ⟨call, hk, ⟨ha, hw, -⟩ | ⟨-, conn', hc', hcl⟩⟩ :=
    (SenderInv.of_reach h).entry c conn id tok.call tok.attempt t hc hl
  · exact ⟨call, hk, ha, hw⟩
  · obtain rfl := Option.some.inj (hc.symm.trans hc')
    rw [hopen] at hcl
    cases hcl

/-- The calls whose senders the demux map holds, while the connection is open. -/
def Conn.pending (conn : Conn) : List Nat :=
  if conn.closed then [] else conn.demux.entries.map fun e => e.2.1.call

def Mux.pending (m : Mux) : List Nat := m.conns.flatMap Conn.pending

theorem Conn.mem_pending {k : Nat} (hk : k ∈ conn.pending) :
    conn.closed = false ∧ ∃ id tok t, conn.demux.lookup id = some (tok, t) ∧ tok.call = k := by
  unfold pending at hk
  split at hk
  · cases hk
  next hopen =>
    obtain ⟨⟨id, tok, t⟩, he, rfl⟩ := List.mem_map.1 hk
    exact ⟨by simpa using hopen, id, tok, t, AList.mem_lookup_iff.2 he, rfl⟩

theorem Mux.pending_waits {k : Nat} (h : Reach (Mux.step cfg) {} m) (hc : m.conns[c]? = some conn)
    (hk : k ∈ conn.pending) : ∃ call id, m.calls[k]? = some call ∧ call.pc.Waits c id := by
  obtain ⟨hopen, id, tok, t, hl, rfl⟩ := Conn.mem_pending hk
  obtain ⟨call, hcall, -, hw⟩ := Mux.waits_of_open h hc hopen hl
  exact ⟨call, id, hcall, hw⟩

theorem Mux.nodup_pending_conn (h : Reach (Mux.step cfg) {} m) (hc : m.conns[c]? = some conn) :
    conn.pending.Nodup := by
  unfold Conn.pending
  split
  · exact List.nodup_nil
  next hopen =>
    have hopen : conn.closed = false := by simpa using hopen
    refine (List.Nodup.of_map Sigma.fst conn.demux.nodupKeys).map_on ?_
    rintro ⟨id, tok, t⟩ he ⟨id', tok', t'⟩ he' heq
    have hl := AList.mem_lookup_iff.2 he
    have hl' := AList.mem_lookup_iff.2 he'
    obtain ⟨call, hk, -, hw⟩ := Mux.waits_of_open h hc hopen hl
    obtain ⟨call', hk', -, hw'⟩ := Mux.waits_of_open h hc hopen hl'
    have hcall : tok.call = tok'.call := heq
    rw [hcall, hk', Option.some.injEq] at hk
    subst hk
    obtain rfl := (hw'.unique hw).2
    have hval := hl.symm.trans hl'
    cases hval
    rfl

theorem Mux.nodup_pending (h : Reach (Mux.step cfg) {} m) : m.pending.Nodup := by
  refine List.nodup_flatMap.2 ⟨fun conn hconn => ?_, ?_⟩
  · obtain ⟨c, hc⟩ := List.mem_iff_getElem?.1 hconn
    exact Mux.nodup_pending_conn h hc
  · refine List.pairwise_iff_getElem.2 fun c c' hlt hlt' hcc k hk hk' => ?_
    obtain ⟨call, id, hcall, hw⟩ := Mux.pending_waits h (List.getElem?_eq_getElem hlt) hk
    obtain ⟨call', id', hcall', hw'⟩ := Mux.pending_waits h (List.getElem?_eq_getElem hlt') hk'
    obtain rfl := Option.some.inj (hcall.symm.trans hcall')
    have := (hw.unique hw').1
    omega

/-- In every run: the senders registered on open connections are those of different calls, and the call of each waits
on that connection under that id in the attempt that registered it. So there are never more of them than calls in
flight, nor than clients may be connected. -/
theorem pending_bounded {s : Server} (hmax : cfg.maxConnections < 2 ^ 64) {ls : List ServerLabel}
    (he : exec (Server.step cfg) (Server.init cfg) ls = some s) :
    s.sys.mux.pending.Nodup ∧
      (∀ (c : Nat) (conn : Conn) (id : UInt32) (tok : Tok) (t : Nat), s.sys.mux.conns[c]? = some conn →
        conn.closed = false → conn.demux.lookup id = some (tok, t) →
        ∃ call, s.sys.mux.calls[tok.call]? = some call ∧ tok.attempt = call.attempts ∧ call.pc.Waits c id) ∧
      s.sys.mux.pending.length ≤ s.sys.mux.inFlight ∧ s.sys.mux.inFlight ≤ cfg.maxConnections := by
  have hr := Reach.refl.of_exec he
  have hm : Reach (Mux.step cfg) {} s.sys.mux := Sys.reach_mux (Server.reach_sys hr)
  have hnd := Mux.nodup_pending hm
  refine ⟨hnd, fun c conn id tok t hc hopen hl => Mux.waits_of_open hm hc hopen hl,
    length_le_countP hnd fun k hk => ?_, ?_⟩
  · obtain ⟨conn, hconn, hk⟩ := List.mem_flatMap.1 hk
    obtain ⟨c, hc⟩ := List.mem_iff_getElem?.1 hconn
    obtain ⟨call, id, hcall, hw⟩ := Mux.pending_waits hm hc hk
    exact ⟨call, hcall, by rcases hw with hw | hw <;> rw [hw] <;> rfl⟩
  · obtain ⟨owner, ho⟩ := OwnedBy.of_reach hr
    exact ho.inFlight_le.trans (Server.executing_le_live.trans (Server.live_le hmax he))

/-- Two clients send a write each over the one connection of the leader. -/
def twoPending : List ServerLabel :=
  List.flatten [(Sys.leaderUp "a" []).map .sys, [.accept, .accept],
    Server.writeRequest 0 0 (prependHeader 9 [5]), Server.writeRequest 1 1 (prependHeader 9 [6])]

/-- When the connection closes the two senders count no more. -/
theorem pending_bounded_two : ∃ s s' : Server, exec (Server.step {}) (Server.init {}) twoPending = some s ∧
    s.sys.mux.pending = [1, 0] ∧ s.sys.mux.pending.length ≤ s.sys.mux.inFlight ∧
    exec (Server.step {}) s [.sys (.mux (.readEnd 0)), .sys (.mux (.readerStop 0))] = some s' ∧
    s'.sys.mux.pending = [] := by
  obtain ⟨s, hs, -, hp⟩ := Reach.of_any (Server.step {}) (Server.init {}) twoPending
    (fun s => decide (s.sys.mux.pending = [1, 0] ∧
      (exec (Server.step {}) s [.sys (.mux (.readEnd 0)), .sys (.mux (.readerStop 0))]).map
        (·.sys.mux.pending) = some [])) (by decide +kernel)
  obtain ⟨htwo, hnone⟩ := of_decide_eq_true hp
  obtain ⟨s', hs', hnone⟩ := Option.map_eq_some_iff.1 hnone
  obtain ⟨-, -, hle, -⟩ := pending_bounded (by decide) hs
  exact ⟨s, s', hs, htwo, hle, hs', hnone⟩

end RzBridge

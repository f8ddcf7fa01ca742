import RzBridge.Proofs.Accounting
import RzBridge.Proofs.Ownership

/-!
# How many requests are in flight

A client waits for one call at a time and the accept loop admits at most `max_connections` clients, so
there are never more `execute` calls under way, over all backend connections together.
-/

namespace RzBridge
open Machine

variable {cfg : Config}

/-- The call has returned. -/
def CallPc.over : CallPc → Bool
  | .done _ => true
  | _ => false

/-- The client is in `execute`. -/
def ClientPc.inExecute : ClientPc → Bool
  | .executing _ => true
  | _ => false

def Mux.inFlight (m : Mux) : Nat := m.calls.countP fun call => !call.pc.over

def Server.executing (s : Server) : Nat := s.clients.countP fun x => x.client.pc.inExecute

theorem countP_eq_length_positions {α : Type*} (p : α → Bool) (l : List α) :
    l.countP p = ((l.zipIdx.filter fun e => p e.1).map Prod.snd).length := by
  rw [List.length_map, ← List.countP_eq_length_filter]
  conv_lhs => rw [← List.zipIdx_map_fst 0 l, List.countP_map]
  rfl

theorem length_le_countP {α : Type*} {p : α → Bool} {l : List α} {ks : List Nat} (hnd : ks.Nodup)
    (h : ∀ k ∈ ks, ∃ a, l[k]? = some a ∧ p a = true) : ks.length ≤ l.countP p := by
  rw [countP_eq_length_positions]
  refine (List.subperm_of_subset hnd fun k hk => ?_).length_le
  obtain ⟨a, ha, hp⟩ := h k hk
  exact List.mem_map.2 ⟨(a, k), List.mem_filter.2 ⟨List.mem_zipIdx_iff_getElem?.2 ha, hp⟩, rfl⟩

/-- Two lists of which the elements that pass a test are matched, one position of the first with the
number that an element of the second carries. -/
theorem countP_le_of_numbered {α β : Type*} {p : α → Bool} {q : β → Bool} {l : List α} {l' : List β}
    (number : β → Nat)
    (h : ∀ (k : Nat) (a : α), l[k]? = some a → p a = true → ∃ b ∈ l', q b = true ∧ number b = k) :
    l.countP p ≤ l'.countP q := by
  have hnd : ((l.zipIdx.filter fun e => p e.1).map Prod.snd).Nodup := by
    refine List.Sublist.nodup (List.filter_sublist.map Prod.snd) ?_
    rw [List.zipIdx_map_snd]
    exact List.nodup_range'
  have hsub : (l.zipIdx.filter fun e => p e.1).map Prod.snd ⊆ (l'.filter q).map number := by
    intro k hk
    obtain ⟨e, he, rfl⟩ := List.mem_map.1 hk
    obtain ⟨hmem, hp⟩ := List.mem_filter.1 he
    obtain ⟨b, hb, hq, hn⟩ := h e.2 e.1 (List.mem_zipIdx_iff_getElem?.1 hmem) hp
    exact List.mem_map.2 ⟨b, List.mem_filter.2 ⟨hb, hq⟩, hn⟩
  have hle := (List.subperm_of_subset hnd hsub).length_le
  rw [← countP_eq_length_positions, List.length_map, ← List.countP_eq_length_filter] at hle
  exact hle

variable {s : Server}

theorem OwnedBy.inFlight_le {owner : List (Nat × Nat)} (h : OwnedBy s owner) :
    s.sys.mux.inFlight ≤ s.executing := by
  refine countP_le_of_numbered Served.call fun k call hk hp => ?_
  have hrun : ∀ r, call.pc ≠ .done r := by
    intro r hr
    rw [hr] at hp
    cases hp
  obtain ⟨i, x, f, hx, hpc, hxk, -⟩ := h.waiting hk hrun
  exact ⟨x, List.mem_of_getElem? hx, by rw [hpc]; rfl, hxk⟩

theorem Server.executing_le_live : s.executing ≤ s.live := by
  refine List.countP_mono_left fun x _ hx => ?_
  cases hpc : x.client.pc with
  | executing f => rfl
  | _ => simp [hpc, ClientPc.inExecute] at hx

theorem Server.live_le (hmax : cfg.maxConnections < 2 ^ 64) {ls : List ServerLabel}
    (he : exec (Server.step cfg) (Server.init cfg) ls = some s) : s.live ≤ cfg.maxConnections := by
  have hacc := Server.accounted hmax he
  have heq := hacc.active_eq
  have hle := hacc.bounded
  omega

/-- In every run there are at most as many `execute` calls under way as clients wait for one, and no more
than `max_connections` of these. -/
theorem in_flight_bounded (hmax : cfg.maxConnections < 2 ^ 64) {ls : List ServerLabel}
    (he : exec (Server.step cfg) (Server.init cfg) ls = some s) :
    s.sys.mux.inFlight ≤ s.executing ∧ s.executing ≤ s.live ∧ s.live ≤ cfg.maxConnections := by
  obtain ⟨owner, ho⟩ := OwnedBy.of_reach (Reach.refl.of_exec he)
  exact ⟨ho.inFlight_le, Server.executing_le_live, Server.live_le hmax he⟩

/-- The third client is turned away. -/
theorem in_flight_bounded_two :
    ∃ s, exec (Server.step { maxConnections := 2 }) (Server.init { maxConnections := 2 })
        ([.accept] ++ Server.request 0 true (prependHeader 9 [5]) ++ [.accept, .accept] ++
          Server.request 1 true (prependHeader 8 [6])) = some s ∧
      s.sys.mux.inFlight = 2 ∧ s.sys.mux.inFlight ≤ s.executing ∧ s.live ≤ 2 := by
  obtain ⟨s, hs, -, hp⟩ := Reach.of_any (Server.step { maxConnections := 2 }) (Server.init { maxConnections := 2 })
    ([.accept] ++ Server.request 0 true (prependHeader 9 [5]) ++ [.accept, .accept] ++
      Server.request 1 true (prependHeader 8 [6]))
    (fun s => s.sys.mux.inFlight = 2) (by decide +kernel)
  obtain ⟨hin, -, hlive⟩ := in_flight_bounded (by decide) hs
  exact ⟨s, hs, of_decide_eq_true hp, hin, hlive⟩

end RzBridge

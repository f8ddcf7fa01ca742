import RzBridge.Proofs.DrainLoop

/-!
# What the frame timeout measures

`frame_timeout` is the time allowed to complete a single frame. `handle_connection` keeps one instant for
it, that of the last complete frame (at first, that of the accept), and compares it whenever the drain
loop finds no frame to take. `TimedClient` records when each byte was read, so that the age of the
frame at the front of the buffer can be compared with what the code measures.
-/

namespace RzBridge
open Machine

/-- A run of `handle_connection` in time. `now` is the instant of its last step and `readAt` the instant
at which each byte of the input was read. -/
structure TimedClient where
  client : Client
  now : Nat
  readAt : List Nat := []

/-- When the bytes that an event brings are read. -/
def ClientEvent.arrivals (now : Nat) : ClientEvent → List Nat
  | .read chunk => List.replicate chunk.length now
  | _ => []

/-- A read comes before the idle timeout. -/
def ClientEvent.inTime (cfg : Config) (since now : Nat) : ClientEvent → Bool
  | .read _ => now < since + cfg.idleTimeout
  | _ => true

namespace TimedClient

/-- A connection accepted at `now`. -/
def new (now : Nat) : TimedClient := { client := Client.new now, now }

/-- An event no earlier than the last one; gaps between reads stay below the idle timeout. -/
def step (cfg : Config) (s : TimedClient) (l : Nat × ClientEvent) : Option TimedClient := do
  guard (s.now ≤ l.1 ∧ l.2.inTime cfg s.client.readSince l.1)
  let client ← s.client.step cfg l
  some { client, now := l.1, readAt := s.readAt ++ l.2.arrivals l.1 }

variable {cfg : Config} {s s' : TimedClient} {l : Nat × ClientEvent}

theorem step_some (hs : s.step cfg l = some s') : ∃ client, s.client.step cfg l = some client ∧
    s' = { client, now := l.1, readAt := s.readAt ++ l.2.arrivals l.1 } := by
  simp only [step, Option.bind_eq_bind, Option.bind_eq_some_iff, Option.guard_eq_some'] at hs
  obtain ⟨-, -, client, hc, hs⟩ := hs
  exact ⟨client, hc, (Option.some.inj hs).symm⟩

/-! ### The bytes in the buffer -/

/-- The buffer is what is left of the input, and every byte of the input has its instant. -/
structure Buffered (s : TimedClient) : Prop where
  suffix : s.client.buf <:+ s.client.input
  length : s.readAt.length = s.client.input.length

theorem Buffered.new (now : Nat) : Buffered (new now) := ⟨List.suffix_rfl, rfl⟩

theorem Buffered.step (h : s.Buffered) (hs : s.step cfg l = some s') : s'.Buffered := by
  obtain ⟨client, hc, rfl⟩ := step_some hs
  obtain ⟨now, e⟩ := l
  -- an event that reads nothing takes bytes off the front of the buffer at most
  have quiet : e.arrivals now = [] → client.input = s.client.input → client.buf <:+ s.client.buf →
      Buffered { client, now, readAt := s.readAt ++ e.arrivals now } := by
    intro harr hin hbuf
    refine ⟨hbuf.trans (hin ▸ h.suffix), ?_⟩
    rw [harr, List.append_nil, hin]
    exact h.length
  cases Client.Move.of_step hc with
  | close e cause he hpc =>
    refine quiet ?_ rfl List.suffix_rfl
    cases e with
    | read chunk => cases he
    | _ => rfl
  | read chunk hpc =>
    refine ⟨?_, ?_⟩
    · obtain ⟨taken, htaken⟩ := h.suffix
      refine ⟨taken, ?_⟩
      rw [← List.append_assoc, htaken]
    · simp only [ClientEvent.arrivals, List.length_append, List.length_replicate, h.length]
  | drain hpc => exact quiet rfl (Session.drain_frame cfg now s.client).1 (Client.drain_leaves hpc).1
  | returned f r hpc => exact quiet rfl rfl List.suffix_rfl
  | wrote f r hpc =>
    exact quiet rfl (s.client.replied_input f r none) ((s.client.replied_buf f r none).1 ▸ List.suffix_rfl)
  | writeFail n f r hpc =>
    exact quiet rfl (s.client.replied_input f r (some n)) ((s.client.replied_buf f r (some n)).1 ▸ List.suffix_rfl)

theorem Buffered.of_reach {start : Nat} (h : Reach (TimedClient.step cfg) (TimedClient.new start) s) : s.Buffered :=
  h.induct (Buffered.new start) fun _ _ _ _ h hs => h.step hs

/-- A reply that takes 25 seconds costs the peer the connection, with nothing in the buffer. -/
example : (exec (step {}) (new 0)
    [(0, .read ([routerMagic, 12, 0, 0, 0, 0, 1] ++ prependHeader 7 [1])), (0, .drain),
      (25 * nanosPerSec, .returned (.ok [])), (25 * nanosPerSec, .wrote), (25 * nanosPerSec, .drain)]).any
    (fun s => s.client.pc = .closed .frameTimeout ∧ s.client.buf = []) = true := by
  decide +kernel

end TimedClient
end RzBridge

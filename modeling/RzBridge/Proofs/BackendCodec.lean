import RzBridge.Proofs.ShardFrame

/-!
# The backend frame codec, under any chunking

`drain_frame_async` reads until its buffer holds a frame, and what it read beyond it stays in the buffer
for the next call. So the bytes buffered and the bytes still to be read are, together, the stream: a
call takes one frame off its front, however the stream is cut (`drainFrameAsync_frame`).
-/

namespace RzBridge
open LittleEndian

/-! ### One frame -/

theorem drainStep_isShardFrame {id : UInt32} {payload : Bytes} {hdr : Header} (more : Bytes)
    (hp : payload.length < 2 ^ 32) (hh : parseHeader (prependHeader id payload) = .ok hdr) :
    drainStep (prependHeader id payload ++ more) = .frame hdr (prependHeader id payload) more := by
  have hlen := length_prependHeader id payload
  have hfield : leVal (slice (prependHeader id payload ++ more) 5 9) = payload.length :=
    lengthField_prependHeader more hp
  have h9 : ¬ (prependHeader id payload ++ more).length < 9 := by
    rw [List.length_append]
    omega
  have hm : ¬ (prependHeader id payload ++ more).headD 0 ≠ shardMagic := not_not_intro rfl
  have hn : ¬ (prependHeader id payload ++ more).length < 9 + payload.length := by
    rw [List.length_append]
    omega
  unfold drainStep
  dsimp only
  rw [if_neg h9, if_neg hm, hfield, if_neg hn, ← hlen, List.take_left' rfl, List.drop_left' rfl, hh]

theorem drainStep_take {id : UInt32} {f : Bytes} {n : Nat} (h : IsShardFrame id f) (hn : n < f.length) :
    drainStep (f.take n) = .needMore := by
  obtain ⟨payload, hp, rfl⟩ := h
  have hlen := length_prependHeader id payload
  have hfield : leVal (slice (prependHeader id payload ++ []) 5 9) = payload.length :=
    lengthField_prependHeader [] hp
  rw [List.append_nil] at hfield
  have htake : ((prependHeader id payload).take n).length = n := List.length_take_of_le (Nat.le_of_lt hn)
  unfold drainStep
  by_cases h9 : n < 9
  · rw [if_pos (by omega)]
  · -- the header is there and declares more than what has come in
    have hm : ¬ ((prependHeader id payload).take n).headD 0 ≠ shardMagic := by
      obtain ⟨k, rfl⟩ : ∃ k, n = k + 1 := Nat.exists_eq_add_one_of_ne_zero (by omega)
      exact not_not_intro rfl
    rw [if_neg (by omega), if_neg hm]
    dsimp only
    rw [slice_take (by omega), hfield, if_pos (by omega)]

/-! ### Calls that share a buffer -/

/-- The results of `n` successive calls, the reads left and the buffer left. -/
def drainCalls : Nat → List Bytes → Bytes →
    List (Except ProtocolError (Header × Bytes)) × List Bytes × Bytes
  | 0, reads, buf => ([], reads, buf)
  | n + 1, reads, buf =>
    let (r, reads, buf) := drainFrameAsync reads buf
    let (rs, reads, buf) := drainCalls n reads buf
    (r :: rs, reads, buf)

theorem drainFrameAsync_frame {reads : List Bytes} {buf payload rest : Bytes} {id : UInt32} {hdr : Header}
    (hne : ∀ r ∈ reads, r ≠ []) (hp : payload.length < 2 ^ 32)
    (hh : parseHeader (prependHeader id payload) = .ok hdr)
    (hstream : buf ++ reads.flatten = prependHeader id payload ++ rest) :
    ∃ reads' buf', drainFrameAsync reads buf = (.ok (hdr, prependHeader id payload), reads', buf') ∧
      (∀ r ∈ reads', r ≠ []) ∧ buf' ++ reads'.flatten = rest := by
  induction reads generalizing buf with
  | nil =>
    rw [List.flatten_nil, List.append_nil] at hstream
    have hd := drainStep_isShardFrame rest hp hh
    rw [← hstream] at hd
    rw [drainFrameAsync_eq, hd]
    exact ⟨[], rest, rfl, by simp, by simp⟩
  | cons r rs ih =>
    by_cases hl : (prependHeader id payload).length ≤ buf.length
    · -- the frame is in the buffer already, and nothing is read
      obtain ⟨more, rfl⟩ : prependHeader id payload <+: buf :=
        List.prefix_of_prefix_length_le ⟨rest, hstream.symm⟩ (List.prefix_append buf _) hl
      rw [List.append_assoc, List.append_cancel_left_eq] at hstream
      rw [drainFrameAsync_eq, drainStep_isShardFrame more hp hh]
      exact ⟨r :: rs, more, rfl, hne, hstream⟩
    · have hpre : buf <+: prependHeader id payload :=
        List.prefix_of_prefix_length_le (List.prefix_append buf _) ⟨rest, hstream.symm⟩ (by omega)
      have hd : drainStep buf = .needMore := by
        rw [List.prefix_iff_eq_take.1 hpre]
        exact drainStep_take ⟨payload, hp, rfl⟩ (by omega)
      rw [drainFrameAsync_eq, hd]
      dsimp only
      rw [if_neg (hne r List.mem_cons_self)]
      apply ih (fun r' hr' => hne r' (List.mem_cons_of_mem r hr'))
      rw [← hstream, List.flatten_cons, List.append_assoc]

theorem drainFrameAsync_cut {reads : List Bytes} {buf f : Bytes} {id : UInt32} {n : Nat}
    (hne : ∀ r ∈ reads, r ≠ []) (hf : IsShardFrame id f) (hn : n < f.length)
    (hstream : buf ++ reads.flatten = f.take n) :
    drainFrameAsync reads buf = (.error .shortFrame, [], f.take n) := by
  induction reads generalizing buf with
  | nil =>
    rw [List.flatten_nil, List.append_nil] at hstream
    rw [drainFrameAsync_eq, hstream, drainStep_take hf hn]
  | cons r rs ih =>
    have hpre : buf <+: f.take n := ⟨(r :: rs).flatten, hstream⟩
    have hbuf : buf = f.take buf.length := List.prefix_iff_eq_take.1 (hpre.trans (List.take_prefix n f))
    have hlt : buf.length < f.length := by
      have hl := congrArg List.length hstream
      rw [List.length_append, List.length_take] at hl
      omega
    have hd : drainStep buf = .needMore := by
      rw [hbuf]
      exact drainStep_take hf hlt
    rw [drainFrameAsync_eq, hd]
    dsimp only
    rw [if_neg (hne r List.mem_cons_self)]
    apply ih (fun r' hr' => hne r' (List.mem_cons_of_mem r hr'))
    rw [← hstream, List.flatten_cons, List.append_assoc]

/-! ### The frames of a backend -/

/-- A frame as backends send it, or as the bridge answers itself. -/
inductive BackendFrame
  | reply (id : UInt32) (payload : Bytes)
  | error (id : UInt32) (code : UInt8)
deriving DecidableEq, Repr

namespace BackendFrame

def bytes : BackendFrame → Bytes
  | .reply id payload => prependHeader id payload
  | .error id code => buildErrorResponse id code

def id : BackendFrame → UInt32
  | .reply id _ => id
  | .error id _ => id

def payload : BackendFrame → Bytes
  | .reply _ payload => payload
  | .error id code => (buildErrorResponse id code).drop 9

/-- The id, the first byte of the payload and the two bytes behind the status. -/
def header (f : BackendFrame) : Header where
  clrId := f.id
  statusLen := f.payload.headD 0
  fieldCnt := leVal (slice f.payload (1 + (f.payload.headD 0).toNat) (1 + (f.payload.headD 0).toNat + 2))

/-- The length field can tell the length, and the payload holds its status and the field count. -/
def WellFormed : BackendFrame → Prop
  | .reply _ payload => payload.length < 2 ^ 32 ∧ 1 + (payload.headD 0).toNat + 2 ≤ payload.length
  | .error _ _ => True

variable {f : BackendFrame}

theorem bytes_eq (f : BackendFrame) : f.bytes = prependHeader f.id f.payload := by
  cases f with
  | reply id payload => rfl
  | error id code =>
    simp only [bytes, BackendFrame.id, payload, buildErrorResponse]
    rw [List.drop_left' (by simp)]
    rfl

theorem WellFormed.payload (h : f.WellFormed) :
    f.payload.length < 2 ^ 32 ∧ 1 + (f.payload.headD 0).toNat + 2 ≤ f.payload.length := by
  cases f with
  | reply id payload => exact h
  | error id code =>
    simp only [BackendFrame.payload, buildErrorResponse]
    rw [List.drop_left' (by simp)]
    constructor
    · simp only [List.length_append, List.length_cons, List.length_nil, length_leBytes]
      split_ifs <;> simp
    · simp

theorem WellFormed.isShardFrame (h : f.WellFormed) : IsShardFrame f.id f.bytes :=
  ⟨f.payload, h.payload.1, f.bytes_eq⟩

theorem WellFormed.parseHeader (h : f.WellFormed) :
    RzBridge.parseHeader (prependHeader f.id f.payload) = .ok f.header := by
  have hdrop : (prependHeader f.id f.payload).drop 9 = f.payload := List.drop_left' (by simp)
  obtain ⟨b, rest, hb⟩ : ∃ b rest, f.payload = b :: rest :=
    List.exists_cons_of_length_pos (by have := h.payload.2; omega)
  have hlen : ¬ (b :: rest).length < 1 + b.toNat + 2 := by
    have := h.payload.2
    rw [hb] at this
    simpa using this
  unfold RzBridge.parseHeader
  rw [hdrop, hb]
  dsimp only
  rw [if_neg hlen, ← hb, slice_prependHeader_clrid, u32FromLeBytes_toLeBytes, header]
  simp [hb]

theorem WellFormed.drain {reads : List Bytes} {buf rest : Bytes} (h : f.WellFormed) (hne : ∀ r ∈ reads, r ≠ [])
    (hstream : buf ++ reads.flatten = f.bytes ++ rest) :
    ∃ reads' buf', drainFrameAsync reads buf = (.ok (f.header, f.bytes), reads', buf') ∧
      (∀ r ∈ reads', r ≠ []) ∧ buf' ++ reads'.flatten = rest := by
  rw [f.bytes_eq] at hstream ⊢
  exact drainFrameAsync_frame hne h.payload.1 h.parseHeader hstream

end BackendFrame

/-- As many calls as there are frames return the frames; the bytes behind them are still to come. -/
theorem drainCalls_append {fs : List BackendFrame} {reads : List Bytes} {buf rest : Bytes} (n : Nat)
    (hf : ∀ f ∈ fs, f.WellFormed) (hne : ∀ r ∈ reads, r ≠ [])
    (hstream : buf ++ reads.flatten = (fs.map BackendFrame.bytes).flatten ++ rest) :
    ∃ reads' buf', (∀ r ∈ reads', r ≠ []) ∧ buf' ++ reads'.flatten = rest ∧
      drainCalls (fs.length + n) reads buf =
        ((fs.map fun f => .ok (f.header, f.bytes)) ++ (drainCalls n reads' buf').1,
          (drainCalls n reads' buf').2) := by
  induction fs generalizing reads buf with
  | nil => exact ⟨reads, buf, hne, hstream, by simp⟩
  | cons f fs ih =>
    rw [List.map_cons, List.flatten_cons, List.append_assoc] at hstream
    obtain ⟨reads₁, buf₁, hcall, hne₁, hrest⟩ := (hf f List.mem_cons_self).drain hne hstream
    obtain ⟨reads', buf', hne', hrest', hcalls⟩ := ih (fun g hg => hf g (List.mem_cons_of_mem f hg)) hne₁ hrest
    refine ⟨reads', buf', hne', hrest', ?_⟩
    have hsucc : (f :: fs).length + n = fs.length + n + 1 := by
      rw [List.length_cons]
      omega
    rw [hsucc, drainCalls, hcall]
    dsimp only
    rw [hcalls]
    rfl

theorem eq_nil_of_flatten_eq_nil {reads : List Bytes} (hne : ∀ r ∈ reads, r ≠ []) (h : reads.flatten = []) :
    reads = [] := by
  cases reads with
  | nil => rfl
  | cons r rs => exact absurd (List.flatten_eq_nil_iff.1 h r List.mem_cons_self) (hne r List.mem_cons_self)

/-- However a concatenation of well-formed frames is cut into reads, the calls return these frames with
their headers and use up the stream; if the stream ends inside a further frame, the next call fails
with `ShortFrame`. -/
theorem backend_codec_chunked {fs : List BackendFrame} {reads : List Bytes} (hf : ∀ f ∈ fs, f.WellFormed)
    (hne : ∀ r ∈ reads, r ≠ []) :
    (reads.flatten = (fs.map BackendFrame.bytes).flatten →
      drainCalls fs.length reads [] = (fs.map fun f => .ok (f.header, f.bytes), [], [])) ∧
    ∀ (g : BackendFrame) (n : Nat), g.WellFormed → n < g.bytes.length →
      reads.flatten = (fs.map BackendFrame.bytes).flatten ++ g.bytes.take n →
      drainCalls (fs.length + 1) reads [] =
        ((fs.map fun f => .ok (f.header, f.bytes)) ++ [.error .shortFrame], [], g.bytes.take n) := by
  constructor
  · intro hstream
    have hstream' : [] ++ reads.flatten = (fs.map BackendFrame.bytes).flatten ++ [] := by simpa using hstream
    obtain ⟨reads', buf', hne', hrest, hcalls⟩ := drainCalls_append 0 hf hne hstream'
    obtain ⟨hbuf, hreads⟩ := List.append_eq_nil_iff.1 hrest
    obtain rfl := eq_nil_of_flatten_eq_nil hne' hreads
    rw [Nat.add_zero] at hcalls
    rw [hcalls, hbuf]
    simp [drainCalls]
  · intro g n hg hn hstream
    have hstream' : [] ++ reads.flatten = (fs.map BackendFrame.bytes).flatten ++ g.bytes.take n := hstream
    obtain ⟨reads', buf', hne', hrest, hcalls⟩ := drainCalls_append 1 hf hne hstream'
    have hcut := drainFrameAsync_cut hne' hg.isShardFrame hn hrest
    rw [hcalls]
    simp [drainCalls, hcut]

/-- A reply and an error response, cut inside the first length field and again between the frames. -/
theorem backend_codec_chunked_split :
    drainCalls 2
        [(prependHeader 7 [1, 0x41, 2, 0]).take 6, (prependHeader 7 [1, 0x41, 2, 0]).drop 6,
          buildErrorResponse 9 4] [] =
      ([.ok (⟨7, 1, 2⟩, prependHeader 7 [1, 0x41, 2, 0]), .ok (⟨9, 5, 1⟩, buildErrorResponse 9 4)], [], []) := by
  have hf : ∀ f ∈ [BackendFrame.reply 7 [1, 0x41, 2, 0], .error 9 4], f.WellFormed := by
    simp [BackendFrame.WellFormed]
  exact (backend_codec_chunked hf (by decide)).1 (by decide)

end RzBridge

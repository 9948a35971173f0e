import AegCloudDfir.Evidence.Merkle
import AegCloudDfir.Families.Chunked

/-!
# The client of the virus scanner

`ClamdClient.scanStream` of `apps/worker/src/clamav.ts` feeds a file to clamd, which may answer at
any time: the loops that write the chunks and the handlers of `readReply` take turns at one socket.
What becomes of the text of the reply is not modelled.

* `step` — a turn of the loops, and what the socket reports.
* `framed_of_run` — in every order clamd reads the file, or the beginning of it.
-/

namespace AegCloudDfir.Processing.Clamd

open Transition
open Evidence (Buffer)
open Families.Chunked (chunkIds chunkIds_eq flatten_chunkIds mem_chunkIds)

/-! ## The socket -/

/-- `CHUNK_SIZE` -/
def chunkSize : ℕ+ := 64 * 1024

/-- `size.writeUInt32BE(n, 0)`, of a size that fits. -/
def uint32BE (n : ℕ) : Buffer :=
  [Fin.ofNat 256 (n / 0x1000000), Fin.ofNat 256 (n / 0x10000), Fin.ofNat 256 (n / 0x100),
    Fin.ofNat 256 n]

/-- `Buffer.concat([size, chunk])` -/
def frame (chunk : Buffer) : Buffer := uint32BE chunk.length ++ chunk

/-- The chunks that clamd reads, and whether it has come to the terminator. -/
def readFrames : Buffer → List Buffer × Bool
  | a :: b :: c :: d :: rest =>
    let n := ((a.val * 256 + b.val) * 256 + c.val) * 256 + d.val
    if n = 0 then ([], true)
    else if rest.length < n then ([], false)
    else (rest.take n :: (readFrames (rest.drop n)).1, (readFrames (rest.drop n)).2)
  | _ => ([], false)
termination_by bytes => bytes.length
decreasing_by all_goals simp only [List.length_drop, List.length_cons]; omega

/-- Where `scanStream` is. -/
inductive Writer : Type where
  /-- in the loops: it awaits a write, or the next buffer -/
  | feeding
  | awaiting
  /-- it has destroyed the socket and thrown -/
  | thrown
  deriving DecidableEq

/-- `replyPromise` -/
inductive Reply : Type where
  | pending
  /-- with what has been received -/
  | resolved (received : Buffer)
  /-- the socket is destroyed -/
  | rejected
  deriving DecidableEq

/-- The variables of `scanStream` and `readReply`, and the socket. -/
structure State where
  writer : Writer
  /-- what is still to be written -/
  rest : List Buffer
  /-- what was written behind the command -/
  sent : Buffer
  /-- `Buffer.concat(chunks)` -/
  received : Buffer
  writableEnded : Bool
  reply : Reply
  deriving DecidableEq

/-- What happens next. -/
inductive Event : Type where
  /-- a write is through, or the next buffer is there, or there is none -/
  | turn
  /-- a write fails, or the stream does -/
  | fails
  /-- `'data'` -/
  | data (chunk : Buffer)
  /-- `'end'`, at which the socket ends its own side -/
  | ends
  /-- `'error'` or `'timeout'` -/
  | breaks

/-- `scanStream` behind the command. The loop over the buffers and the one over the chunks of a
buffer are one. -/
def start (data : List Buffer) : State where
  writer := .feeding
  rest := data.flatMap (chunkIds · chunkSize)
  sent := []
  received := []
  writableEnded := false
  reply := .pending

/-- The loops go on; a socket that is destroyed fails the write. -/
def State.turn (s : State) : State :=
  if s.writableEnded then { s with writer := .awaiting }
  else
    match s.rest with
    | chunk :: rest =>
      if s.reply = .rejected then { s with writer := .thrown }
      else { s with rest, sent := s.sent ++ frame chunk }
    | [] =>
      { s with
        writer := .awaiting
        sent := if s.reply = .rejected then s.sent else s.sent ++ uint32BE 0 }

/-- What an event does. -/
def step (s : State) : Event → Option State
  | .turn => if s.writer = .feeding then some s.turn else none
  | .fails => if s.writer = .feeding then some { s with writer := .thrown } else none
  | .data chunk =>
    if s.reply = .pending ∧ s.writer ≠ .thrown then
      some { s with
        received := s.received ++ chunk
        writableEnded := s.writableEnded || chunk.contains 0 }
    else none
  | .ends =>
    if s.reply = .pending ∧ s.writer ≠ .thrown then
      some { s with writableEnded := true, reply := .resolved s.received }
    else none
  | .breaks =>
    if s.reply = .pending ∧ s.writer ≠ .thrown then some { s with reply := .rejected } else none

/-! ## What clamd is sent -/

/-- What has been sent are some chunks, and the terminator or not. -/
structure Framed (data : List Buffer) (s : State) (chunks : List Buffer) (terminated : Bool) :
    Prop where
  sent : s.sent = chunks.flatMap frame ++ if terminated then uint32BE 0 else []
  chunks : chunks ++ s.rest = data.flatMap (chunkIds · chunkSize)
  whole : terminated = true → s.rest = [] ∧ s.writer ≠ .feeding
  awaiting : s.writer = .awaiting → terminated ∨ s.writableEnded ∨ s.reply = .rejected

variable {data : List Buffer} {s t : State} {chunks : List Buffer} {terminated : Bool}

/-- Chunks are read as they were written. -/
theorem readFrames_flatMap (terminated : Bool)
    (h : ∀ chunk ∈ chunks, chunk ≠ [] ∧ chunk.length ≤ chunkSize) :
    readFrames (chunks.flatMap frame ++ if terminated then uint32BE 0 else []) =
      (chunks, terminated) := by
  induction chunks with
  | nil => cases terminated <;> simp [readFrames, uint32BE]
  | cons chunk chunks ih =>
    obtain ⟨hchunk, hchunks⟩ := List.forall_mem_cons.mp h
    have hlength : chunk.length ≤ 0x10000 := hchunk.2
    have hpos := List.length_pos_of_ne_nil hchunk.1
    have hvalue : ((chunk.length / 0x1000000 % 256 * 256 + chunk.length / 0x10000 % 256) * 256 +
      chunk.length / 0x100 % 256) * 256 + chunk.length % 256 = chunk.length := by omega
    rw [List.flatMap_cons, frame, uint32BE, List.append_assoc, List.append_assoc]
    simp only [List.cons_append, List.nil_append, readFrames, Fin.ofNat, hvalue]
    rw [if_neg (by omega), if_neg (by simp), List.take_left, List.drop_left, ih hchunks]

/-- A turn sends the next chunk, or the terminator, or nothing. -/
theorem Framed.turn (h : Framed data s chunks false) :
    ∃ chunks terminated, Framed data s.turn chunks terminated := by
  have hopen : ∀ {P : Prop}, false = true → P := fun hend => absurd hend Bool.false_ne_true
  unfold State.turn
  by_cases hended : s.writableEnded
  · rw [if_pos hended]
    exact ⟨chunks, false, h.sent, h.chunks, hopen, fun _ => .inr (.inl hended)⟩
  rw [if_neg hended]
  split
  · next chunk rest hrest =>
    split_ifs with hrejected
    · exact ⟨chunks, false, h.sent, h.chunks, hopen, fun _ => .inr (.inr hrejected)⟩
    · refine ⟨chunks ++ [chunk], false, by simp [h.sent], ?_, hopen, h.awaiting⟩
      rw [← h.chunks, hrest, List.append_assoc, List.singleton_append]
  · next hrest =>
    by_cases hrejected : s.reply = .rejected
    · exact ⟨chunks, false, by simp [h.sent, hrejected], h.chunks, hopen,
        fun _ => .inr (.inr hrejected)⟩
    · exact ⟨chunks, true, by simp [h.sent, hrejected], h.chunks, fun _ => ⟨hrest, by simp⟩,
        fun _ => .inl rfl⟩

/-- **Every event keeps it.** -/
theorem Framed.step {e : Event} (h : Framed data s chunks terminated) (hstep : step s e = some t) :
    ∃ chunks terminated, Framed data t chunks terminated := by
  cases e with
  | turn =>
    obtain ⟨hs, ⟨⟩⟩ := Option.ite_none_right_eq_some.mp hstep
    cases terminated with
    | false => exact h.turn
    | true => exact absurd hs (h.whole rfl).2
  | fails =>
    obtain ⟨-, ⟨⟩⟩ := Option.ite_none_right_eq_some.mp hstep
    exact ⟨chunks, terminated, h.sent, h.chunks, fun hend => ⟨(h.whole hend).1, by simp⟩, by simp⟩
  | data chunk =>
    obtain ⟨-, ⟨⟩⟩ := Option.ite_none_right_eq_some.mp hstep
    refine ⟨chunks, terminated, h.sent, h.chunks, h.whole, fun hs => ?_⟩
    exact (h.awaiting hs).imp_right (Or.imp_left fun hended => by simp [hended])
  | ends =>
    obtain ⟨-, ⟨⟩⟩ := Option.ite_none_right_eq_some.mp hstep
    exact ⟨chunks, terminated, h.sent, h.chunks, h.whole, fun _ => .inr (.inl rfl)⟩
  | breaks =>
    obtain ⟨-, ⟨⟩⟩ := Option.ite_none_right_eq_some.mp hstep
    exact ⟨chunks, terminated, h.sent, h.chunks, h.whole, fun _ => .inr (.inr rfl)⟩

/-- Once the client has ended its side of the socket nothing is sent. -/
theorem sent_of_ended {e : Event} (hended : s.writableEnded) (hstep : step s e = some t) :
    t.writableEnded ∧ t.sent = s.sent := by
  cases e <;> obtain ⟨-, ⟨⟩⟩ := Option.ite_none_right_eq_some.mp hstep <;>
    simp [State.turn, hended]

/-- **In every order clamd reads the file, or the beginning of it.** It comes to a terminator only
behind the whole file, and to none only if the client has ended its side of the socket, or has
failed. Once it has, nothing more is sent. -/
theorem framed_of_run {events : List Event} (hrun : run step (start data) events = some s) :
    (∃ chunks terminated, Framed data s chunks terminated ∧ chunks.flatten <+: data.flatten ∧
      readFrames s.sent = (chunks, terminated)) ∧
    ∀ more t, s.writableEnded → run step s more = some t → t.sent = s.sent := by
  have hkeeps : ∀ u e v, (∃ chunks terminated, Framed data u chunks terminated) →
      step u e = some v → ∃ chunks terminated, Framed data v chunks terminated := by
    rintro u e v ⟨_, _, h⟩ hstep
    exact h.step hstep
  have hsent : ∀ u e v, u.writableEnded ∧ u.sent = s.sent → step u e = some v →
      v.writableEnded ∧ v.sent = s.sent := fun u e v hu hstep =>
    (sent_of_ended hu.1 hstep).imp_right (·.trans hu.2)
  have hstart : Framed data (start data) [] false := ⟨rfl, rfl, by simp, by simp [start]⟩
  obtain ⟨chunks, terminated, h⟩ := run_induction hkeeps ⟨_, _, hstart⟩ hrun
  refine ⟨⟨chunks, terminated, h, ⟨s.rest.flatten, ?_⟩, h.sent ▸ readFrames_flatMap _ ?_⟩,
    fun more t hended hmore => (run_induction hsent ⟨hended, rfl⟩ hmore).2⟩
  · rw [← List.flatten_append, h.chunks, ← List.flatMap_id, List.flatMap_assoc]
    simp only [List.flatMap_id, flatten_chunkIds, List.flatMap_id']
  · intro chunk hchunk
    obtain ⟨buf, -, hbuf⟩ := List.mem_flatMap.mp (h.chunks ▸ List.mem_append_left _ hchunk)
    exact mem_chunkIds hbuf

/-- The reply `OK` comes while the file is being sent. -/
theorem framed_of_run_early :
    ∃ s, run step (start [[1], [2]]) [.turn, .data [0x4F, 0x4B, 0], .turn, .ends] = some s ∧
      ∃ chunks terminated, Framed [[1], [2]] s chunks terminated := by
  obtain ⟨s, hrun⟩ : ∃ s, run step (start [[1], [2]])
      [.turn, .data [0x4F, 0x4B, 0], .turn, .ends] = some s := by
    simp only [start, chunkIds_eq]
    exact ⟨_, rfl⟩
  obtain ⟨⟨chunks, terminated, h, -⟩, -⟩ := framed_of_run hrun
  exact ⟨s, hrun, chunks, terminated, h⟩

end AegCloudDfir.Processing.Clamd

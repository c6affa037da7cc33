import Remerge.UploadDialogue

/-!
# The chunks of one connection

The client cuts the stream by a size that shrinks and grows with the latency of
the acknowledgements and with every reconnect. On one connection it sends the
stream from the resume offset on, each chunk behind the last and numbered after
it, whatever the server's answers were worth in time.
-/

set_option autoImplicit false

namespace Remerge.ClientChunks
open SnapshotTypes ChunkFrames UploadHandler BlobUploadClient UploadDialogue

/-- A connection that got as far as streaming: the stream the server selected, where
it resumes, and of each acknowledgement whether it was slow. -/
structure Leg where
  stream : Bytes
  offset : ℕ
  sequence : ℕ
  acks : List Bool

inductive Attempt where
  | lost
  | streamed (leg : Leg)

structure Sending where
  connection : Connection
  sent : List (ChunkPolicy × WsMessage)

def Sending.add (s : Sending) (r : Connection × List WsMessage) : Sending :=
  ⟨r.1,s.sent++r.2.map fun message => (r.1.policy,message)⟩

/-- A chunk is acknowledged up to its end. -/
def Sending.acked (env : Codecs) (call : UploadCall) (s : Sending) (slow : Bool) : Sending :=
  match s.connection.phase with
  | .sending _ offset sequence size =>
    s.add (react env call slow s.connection (.uploadAck snapshotBlobProtocolVersion
      call.workorderId call.digest sequence offset size (offset+size)))
  | _ => s

def Leg.run (env : Codecs) (call : UploadCall) (policy : ChunkPolicy) (leg : Leg) : Sending :=
  leg.acks.foldl (Sending.acked env call)
    (Sending.add ⟨⟨policy,.opening⟩,[]⟩ (proceed env policy leg.stream leg.offset leg.sequence))

def runAttempts (env : Codecs) (call : UploadCall) :
    ChunkPolicy → List Attempt → List (Leg × Sending)
  | _,[] => []
  | policy,.lost::rest => runAttempts env call policy.onReconnect rest
  | policy,.streamed leg::rest =>
    (leg,leg.run env call policy)::
      runAttempts env call (leg.run env call policy).connection.policy.onReconnect rest

section

abbrev Cut : Type := ChunkPolicy × Bytes

def joined (chunks : List Cut) : Bytes := (chunks.map Prod.snd).flatten

def frames (env : Codecs) : ℕ → ℕ → List Cut → List (ChunkPolicy × WsMessage)
  | _,_,[] => []
  | sequence,offset,(policy,chunk)::rest =>
    (policy,.binary (.ok (fromPayload env (sequence%256^8) offset chunk,chunk)))::
      frames env (sequence+1) (offset+chunk.length) rest

structure Covers (env : Codecs) (leg : Leg) (chunks : List Cut)
    (sent : List (ChunkPolicy × WsMessage)) : Prop where
  framed : sent = frames env leg.sequence leg.offset chunks
  sized : ∀ cut ∈ chunks, cut.2 ≠ [] ∧ cut.2.length ≤ cut.1.currentChunkSizeBytes ∧ cut.1.Fits
  consecutive : joined chunks <+: leg.stream.drop leg.offset

theorem frames_append (env : Codecs) (sequence offset : ℕ) (chunks : List Cut)
    (policy : ChunkPolicy) (chunk : Bytes) :
    frames env sequence offset (chunks++[(policy,chunk)]) = frames env sequence offset chunks++
      [(policy,.binary (.ok (fromPayload env ((sequence+chunks.length)%256^8)
        (offset+(joined chunks).length) chunk,chunk)))] := by
  induction chunks generalizing sequence offset with
  | nil => rfl
  | cons cut rest ih =>
    have hs : sequence+1+rest.length = sequence+(cut::rest).length := by
      rw [List.length_cons]
      omega
    have ho : offset+cut.2.length+(joined rest).length = offset+(joined (cut::rest)).length := by
      simp [joined,Nat.add_assoc]
    rw [List.cons_append,frames,frames,ih,hs,ho]
    rfl

variable {env : Codecs} {call : UploadCall} {policy : ChunkPolicy} {leg : Leg} {s : Sending}

structure Streaming (env : Codecs) (leg : Leg) (s : Sending) : Prop where
  fits : s.connection.policy.Fits
  covers : ∃ chunks, Covers env leg chunks s.sent ∧
    (∀ stream offset sequence size, s.connection.phase = .sending stream offset sequence size →
      stream = leg.stream ∧ sequence+1 = leg.sequence+chunks.length ∧
        offset+size = leg.offset+(joined chunks).length) ∧
    (s.connection.phase = .completing → joined chunks = leg.stream.drop leg.offset)

theorem Covers.proceed {chunks : List Cut} (h : Covers env leg chunks s.sent) (hp : policy.Fits)
    (ho : leg.offset ≤ leg.stream.length) (hlen : leg.stream.length < 256^8) :
    Streaming env leg (s.add (proceed env policy leg.stream (leg.offset+(joined chunks).length)
      (leg.sequence+chunks.length))) := by
  have hle := h.consecutive.length_le
  rw [List.length_drop] at hle
  generalize hoff : leg.offset+(joined chunks).length = offset
  by_cases hlt : offset < leg.stream.length
  · have hchunk := length_nextChunk hp hlt
    have hjoin := nextChunk_append policy leg.stream offset
    have hsize : (nextChunk policy leg.stream offset).length ≤ policy.currentChunkSizeBytes := by
      rw [nextChunk,List.length_take,ChunkPolicy.chunkSizeForRemaining]
      omega
    rw [proceed_chunk_mod hp hlt hlen]
    generalize nextChunk policy leg.stream offset = chunk at hchunk hjoin hsize ⊢
    refine ⟨hp,chunks++[(policy,chunk)],⟨?_,?_,?_⟩,?_,fun hphase => by cases hphase⟩
    · rw [frames_append,← h.framed,hoff]
      rfl
    · rw [List.forall_mem_append,List.forall_mem_singleton]
      exact ⟨h.sized,List.ne_nil_of_length_pos hchunk.1,hsize,hp⟩
    · -- the chunk is the next piece of what is left of the stream
      obtain ⟨rest,hrest⟩ := h.consecutive
      have hdrop : rest = leg.stream.drop offset := by
        rw [← hoff,← List.drop_drop,← hrest,List.drop_left]
      refine ⟨leg.stream.drop (offset+chunk.length),?_⟩
      rw [← hrest,hdrop,← hjoin]
      simp [joined]
    · rintro stream o q size ⟨⟩
      simp [joined,← hoff,Nat.add_assoc]
  · have hall : joined chunks = leg.stream.drop leg.offset :=
      h.consecutive.eq_of_length (by rw [List.length_drop]; omega)
    rw [proceed_done (by omega)]
    exact ⟨hp,chunks,⟨by simpa [Sending.add] using h.framed,h.sized,h.consecutive⟩,
      fun _ _ _ _ hphase => (by cases hphase),fun _ => hall⟩

theorem Streaming.acked (h : Streaming env leg s) (ho : leg.offset ≤ leg.stream.length)
    (hlen : leg.stream.length < 256^8) (slow : Bool) :
    Streaming env leg (s.acked env call slow) := by
  obtain ⟨chunks,hc,hphase,-⟩ := h.covers
  unfold Sending.acked
  split
  · next stream offset sequence size hs =>
    obtain ⟨rfl,hseq,hoff⟩ := hphase _ _ _ _ hs
    have hreact : react env call slow s.connection (.uploadAck snapshotBlobProtocolVersion
        call.workorderId call.digest sequence offset size (offset+size)) =
        proceed env (s.connection.policy.onAck slow) leg.stream (offset+size) (sequence+1) := by
      simp [react,hs,ackReply,validate_ok,orFail]
    rw [hreact,hseq,hoff]
    exact hc.proceed (h.fits.onAck slow) ho hlen
  · exact h

theorem Leg.run_streaming (env : Codecs) (call : UploadCall) (leg : Leg) (hp : policy.Fits)
    (ho : leg.offset ≤ leg.stream.length)
    (hlen : leg.stream.length < 256^8) : Streaming env leg (leg.run env call policy) := by
  have hstart : ∀ s : Sending, Streaming env leg s → ∀ acks : List Bool,
      Streaming env leg (acks.foldl (Sending.acked env call) s) := by
    intro s hs acks
    induction acks generalizing s with
    | nil => exact hs
    | cons slow rest ih => exact ih _ (hs.acked ho hlen slow)
  have hnone : Covers env leg [] [] := ⟨rfl,fun _ h => (List.not_mem_nil h).elim,List.nil_prefix⟩
  exact hstart _ (Covers.proceed (s := ⟨⟨policy,.opening⟩,[]⟩) hnone hp ho hlen) leg.acks

theorem runAttempts_streaming {attempts : List Attempt} (hp : policy.Fits)
    (h : ∀ leg, .streamed leg ∈ attempts →
      leg.offset ≤ leg.stream.length ∧ leg.stream.length < 256^8) :
    ∀ out ∈ runAttempts env call policy attempts, Streaming env out.1 out.2 := by
  induction attempts generalizing policy with
  | nil => exact fun _ hout => (List.not_mem_nil hout).elim
  | cons attempt rest ih =>
    have hrest := fun leg hl => h leg (List.mem_cons_of_mem _ hl)
    cases attempt with
    | lost => exact ih hp.onReconnect hrest
    | streamed leg =>
      have hleg := h leg List.mem_cons_self
      have hrun := leg.run_streaming env call hp hleg.1 hleg.2
      rw [runAttempts,List.forall_mem_cons]
      exact ⟨hrun,ih hrun.fits.onReconnect hrest⟩

end

theorem chunks_cover_stream (env : Codecs) (call : UploadCall) (attempts : List Attempt)
    (h : ∀ leg, .streamed leg ∈ attempts →
      leg.offset ≤ leg.stream.length ∧ leg.stream.length < 256^8) :
    ∀ out ∈ runAttempts env call (.new snapshotBlobDefaultChunkSizeBytes) attempts,
      out.2.connection.policy.minChunkSizeBytes ≤ out.2.connection.policy.currentChunkSizeBytes ∧
        out.2.connection.policy.currentChunkSizeBytes ≤ out.2.connection.policy.maxChunkSizeBytes ∧
        ∃ chunks, Covers env out.1 chunks out.2.sent ∧
          (out.2.connection.phase = .completing →
            joined chunks = out.1.stream.drop out.1.offset) := by
  intro out hout
  have hs := runAttempts_streaming ChunkPolicy.fits_new h out hout
  obtain ⟨chunks,hc,-,hall⟩ := hs.covers
  exact ⟨hs.fits.lower,hs.fits.upper,chunks,hc,hall⟩

theorem resumed_stream_covered :
    let call : UploadCall := ⟨"upload","digest",⟨[1,2,3],none,[]⟩⟩
    let leg : Leg := ⟨[1,2,3],1,7,[true]⟩
    let sending := leg.run plainCodecs call (.new snapshotBlobDefaultChunkSizeBytes)
    ∃ chunks, Covers plainCodecs leg chunks sending.sent ∧ joined chunks = [2,3] := by
  intro call leg sending
  have h := chunks_cover_stream plainCodecs call [.streamed leg]
    (fun _ hl => by cases List.mem_singleton.mp hl; decide)
  obtain ⟨-,-,chunks,hc,hall⟩ := h _ List.mem_cons_self
  exact ⟨chunks,hc,hall (by rfl)⟩

end Remerge.ClientChunks

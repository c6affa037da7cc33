import Remerge.BlobUploadClient
import Remerge.HonestUpload
import Remerge.SteadySessions

/-!
# A client and the handler on one connection

Nothing fails on the way: a frame that is sent arrives, and file operations
succeed. The handler runs its stages, and each frame it sends moves the client,
whose own frame is the next one the handler hears. What is left open are the
clock and which acknowledgements the client finds slow.
-/

set_option autoImplicit false

namespace Remerge.UploadDialogue
open StepProgram StagedRuns SnapshotTypes SnapshotStore ChunkFrames UploadSessions UploadHandler
open HonestUpload BlobUploadClient SteadySessions

structure Dialogue where
  store : UploadStore
  connection : Connection
  inbox : List WsMessage

structure DialogueOracle where
  time : Time := 0
  slow : Bool := false

def heard (env : Codecs) (call : UploadCall) (slow : Bool) (control : ServerControl)
    (d : Dialogue) : Dialogue :=
  { d with
    connection := (react env call slow d.connection control).1
    inbox := d.inbox++(react env call slow d.connection control).2 }

/-- A handler that waits for a client which itself waits hears the end of the
stream, as it does when the client times out. -/
def dialogueSem (env : Codecs) (call : UploadCall) :
    Sem UploadOp UploadRes Dialogue DialogueOracle := fun o w d =>
  match o with
  | .receive =>
    match d.inbox with
    | [] => some (d,none)
    | frame::rest => some ({ d with inbox := rest },some (.ok frame))
  | .send control => some (heard env call w.slow control d,true)
  | .sendClose => some (d,())
  | .call o =>
    some ({ d with store := (sessionEffect env w.time d.store o).1 },
      (sessionEffect env w.time d.store o).2)

theorem dialogueSem_total (env : Codecs) (call : UploadCall) : Total (dialogueSem env call) := by
  intro o d
  cases o with
  | receive =>
    cases h : d.inbox with
    | nil | cons frame rest => exact ⟨{},_,_,by simp only [dialogueSem,h]; rfl⟩
  | send control | sendClose | call o => exact ⟨{},_,_,rfl⟩

def opened (call : UploadCall) (policy : ChunkPolicy) (s : UploadStore) : Dialogue :=
  ⟨s,⟨policy,.opening⟩,[.text (.ok (uploadInit call))]⟩

/-- Every attempt on a new connection comes to an end like that. -/
def Attempt (env : Codecs) (call : UploadCall) (post : Dialogue → Prop) (policy : ChunkPolicy)
    (s : UploadStore) : Prop :=
  Concludes (dialogueSem env call) (stageBody env) post (some .accepting) (opened call policy s)

def shouldRetry : Except Failure Bool → Bool
  | .ok _ => false
  | .error failure => isRetryableBlobStreamError failure

/-- `stream_upload_blob` with so many attempts left after this one. -/
def Uploads (env : Codecs) (call : UploadCall)
    (post : UploadStore → Except Failure Bool → Prop) : ℕ → ChunkPolicy → UploadStore → Prop
  | 0 => Attempt env call fun d => post d.store (attemptResult call d.connection)
  | left+1 => Attempt env call fun d =>
    if shouldRetry (attemptResult call d.connection) then
      Uploads env call post left d.connection.policy.onReconnect d.store
    else post d.store (attemptResult call d.connection)

/-- Every upload of the blob, from this store, ends like that. -/
def StreamUploadBlob (env : Codecs) (call : UploadCall)
    (post : UploadStore → Except Failure Bool → Prop) (s : UploadStore) : Prop :=
  Uploads env call post (maxConnectionAttempts-1) (.new snapshotBlobDefaultChunkSizeBytes) s

section
variable {env : Codecs} {call : UploadCall} {d : Dialogue} {α : Type}
  {post : Dialogue → α → Prop}

theorem after_receive {f : Received → UploadProg α} {frame : WsMessage} {rest : List WsMessage}
    (hd : d.inbox = frame::rest)
    (h : After (dialogueSem env call) (f (some (.ok frame))) post { d with inbox := rest }) :
    After (dialogueSem env call) (op .receive >>= f) post d := by
  intro w d' r hs
  simp only [dialogueSem,hd,Option.some.injEq,Prod.mk.injEq] at hs
  obtain ⟨rfl,rfl⟩ := hs
  exact h

theorem after_send {f : Bool → UploadProg α} {control : ServerControl}
    (h : ∀ slow, After (dialogueSem env call) (f true) post (heard env call slow control d)) :
    After (dialogueSem env call) (op (.send control) >>= f) post d := by
  intro w d' r hs
  simp only [dialogueSem,Option.some.injEq,Prod.mk.injEq] at hs
  obtain ⟨rfl,rfl⟩ := hs
  exact h w.slow

theorem after_sendClose {f : Unit → UploadProg α}
    (h : After (dialogueSem env call) (f ()) post d) :
    After (dialogueSem env call) (op .sendClose >>= f) post d := by
  intro w d' r hs
  cases hs
  exact h

theorem after_call {o : SessionOp} {f : SessionRes o → UploadProg α} {t : UploadStore}
    {r : SessionRes o} (hcall : ∀ now, sessionEffect env now d.store o = (t,r))
    (h : After (dialogueSem env call) (f r) post { d with store := t }) :
    After (dialogueSem env call) (op (.call o) >>= f) post d := by
  intro w d' r' hs
  simp only [dialogueSem,hcall] at hs
  cases hs
  exact h

theorem after_interpret {q : Prog SessionOp SessionRes α} {mid : UploadStore → α → Prop}
    (h : After (steadySem env) q mid d.store) :
    After (dialogueSem env call) (interpret (fun o => op (.call o)) q)
      (fun d' r => ∃ t, d' = { d with store := t } ∧ mid t r) d := by
  induction q generalizing d with
  | ret a => exact ⟨d.store,rfl,h⟩
  | step o k ih =>
    intro w d' r hs
    cases hs
    have hk := h w.time (sessionEffect env w.time d.store o).1 (sessionEffect env w.time d.store o).2
      rfl
    exact ih (sessionEffect env w.time d.store o).2
      (d := { d with store := (sessionEffect env w.time d.store o).1 }) hk

theorem after_onSessions {β : Type} {p : SessionProg β} {f : Except Failure β → UploadProg α}
    {mid : UploadStore → Except Failure β → Prop} (hp : Ends env p mid d.store)
    (hf : ∀ t r, mid t r → After (dialogueSem env call) (f r) post { d with store := t }) :
    After (dialogueSem env call) (onSessions p >>= f) post d := by
  refine after_seq (after_interpret hp) ?_
  rintro d' r ⟨t,rfl,hr⟩
  exact hf t r hr

def Waits (c : Connection) : Prop := ∀ result, c.phase ≠ .ended result

variable {c : Connection} {post : Dialogue → Option UploadStage → Prop}

theorem react_error (env : Codecs) (call : UploadCall) (hw : Waits c) (slow : Bool)
    (version : ℕ) (id : Option Uuid) (digest : Option Digest) (code message : String) :
    ∃ e, (react env call slow c (.uploadError version id digest code message)).1 =
      ⟨c.policy,.ended (.error e)⟩ := by
  obtain ⟨policy,phase⟩ := c
  cases phase with
  | opening => exact ⟨_,rfl⟩
  | sending selected offset sequence size => exact ⟨_,rfl⟩
  | completing => exact ⟨_,rfl⟩
  | ended result => exact absurd rfl (hw result)

theorem after_reject {id : Uuid} {digest : Digest} {code message : String}
    (hw : Waits d.connection)
    (h : ∀ d', d'.store = d.store → d'.connection.policy = d.connection.policy →
      (∃ e, attemptResult call d'.connection = .error e) → post d' none) :
    After (dialogueSem env call) (reject id digest code message) post d := by
  unfold reject sendBlobUploadError
  rw [prog_bind_assoc]
  refine after_send fun slow => after_sendClose ?_
  obtain ⟨e,he⟩ := react_error env call hw slow snapshotBlobProtocolVersion (some id)
    (some digest) code message
  refine h _ rfl ?_ ⟨e,?_⟩
  · simp only [heard,he]
  · simp only [heard,he,attemptResult]

theorem validate_ok (call : UploadCall) :
    validateBlobUploadEnvelope call snapshotBlobProtocolVersion call.workorderId call.digest =
      .ok () := by
  simp [validateBlobUploadEnvelope]

/-- The client waits for the end of the upload, or for anything. -/
def AwaitsEnd (c : Connection) : Prop := c.phase = .opening ∨ c.phase = .completing

theorem AwaitsEnd.waits (h : AwaitsEnd c) : Waits c := by
  intro result hr
  rcases h with h | h
  · rw [h] at hr
    cases hr
  · rw [h] at hr
    cases hr

theorem react_complete (h : AwaitsEnd c) (slow uploaded : Bool) :
    (react env call slow c (.uploadComplete snapshotBlobProtocolVersion call.workorderId call.digest
      uploaded)).1 = ⟨c.policy,.ended (.ok uploaded)⟩ := by
  rcases h with h | h
  · simp only [react,h,openReply,validate_ok,orFail]
  · simp only [react,h,completeReply,validate_ok,orFail]

theorem after_sendComplete {uploaded : Bool}
    (hc : AwaitsEnd d.connection)
    (h : ∀ d', d'.store = d.store → d'.connection.policy = d.connection.policy →
      attemptResult call d'.connection = .ok uploaded → post d' none) :
    After (dialogueSem env call) (sendComplete call.workorderId call.digest uploaded) post d := by
  unfold sendComplete
  refine after_send fun slow => after_sendClose (h _ rfl ?_ ?_)
  · simp only [heard,react_complete hc]
  · simp only [heard,react_complete hc,attemptResult]

end

section
variable {env : Codecs} {call : UploadCall} {p : SessionParams} {stream : Bytes}

structure Streams (call : UploadCall) (p : SessionParams) (stream : Bytes) : Prop where
  digest : p.digest = call.digest
  size : p.streamSizeBytes = stream.length
  chunk : p.chunkSizeBytes = snapshotBlobDefaultChunkSizeBytes
  addressable : stream.length < 256^8

def nextChunk (policy : ChunkPolicy) (stream : Bytes) (offset : ℕ) : Bytes :=
  (stream.drop offset).take (policy.chunkSizeForRemaining (stream.length-offset))

variable {policy : ChunkPolicy} {offset sequence : ℕ}

theorem length_nextChunk (hp : policy.Fits) (ho : offset < stream.length) :
    0 < (nextChunk policy stream offset).length ∧
      offset+(nextChunk policy stream offset).length ≤ stream.length ∧
      (nextChunk policy stream offset).length ≤ snapshotBlobDefaultChunkSizeBytes := by
  have h := hp.chunk (show 0 < stream.length-offset by omega)
  rw [nextChunk,List.length_take,List.length_drop]
  omega

theorem nextChunk_append (policy : ChunkPolicy) (stream : Bytes) (offset : ℕ) :
    nextChunk policy stream offset++stream.drop (offset+(nextChunk policy stream offset).length) =
      stream.drop offset := by
  have h := List.take_append_drop (policy.chunkSizeForRemaining (stream.length-offset))
    (stream.drop offset)
  rw [nextChunk,← List.drop_drop]
  conv_rhs => rw [← h]
  congr 1
  rw [List.length_take]
  rcases Nat.le_total (policy.chunkSizeForRemaining (stream.length-offset))
    (stream.drop offset).length with hle | hle
  · rw [min_eq_left hle]
  · rw [min_eq_right hle,List.drop_length,List.drop_eq_nil_of_le hle]

theorem proceed_chunk_mod (hp : policy.Fits) (ho : offset < stream.length)
    (hlen : stream.length < 256^8) :
    proceed env policy stream offset sequence =
      (⟨policy,.sending stream offset sequence (nextChunk policy stream offset).length⟩,
        [.binary (.ok (fromPayload env (sequence%256^8) offset (nextChunk policy stream offset),
          nextChunk policy stream offset))]) := by
  have hchunk := length_nextChunk hp ho
  have ho' : offset < 256^8 := by omega
  have hchunk' : (nextChunk policy stream offset).length < 256^8 := by omega
  obtain ⟨frame,hencode,hdecode⟩ :=
    decode_encode env (Nat.mod_lt sequence (Nat.pow_pos (by omega))) ho' hchunk'
  rw [← encode_mod] at hencode
  unfold nextChunk at hencode hdecode
  simp only [proceed,if_pos ho,hencode,hdecode,nextChunk]

theorem proceed_chunk (hp : policy.Fits) (ho : offset < stream.length)
    (hlen : stream.length < 256^8) (hseq : sequence < 256^8) :
    proceed env policy stream offset sequence =
      (⟨policy,.sending stream offset sequence (nextChunk policy stream offset).length⟩,
        [.binary (.ok (fromPayload env sequence offset (nextChunk policy stream offset),
          nextChunk policy stream offset))]) := by
  rw [proceed_chunk_mod hp ho hlen,Nat.mod_eq_of_lt hseq]

theorem proceed_done (ho : offset = stream.length) :
    proceed env policy stream offset sequence = (⟨policy,.completing⟩,[]) := by
  rw [proceed,if_neg (by omega)]

def streamingAt (env : Codecs) (policy : ChunkPolicy) (stream : Bytes) (offset sequence : ℕ)
    (s : UploadStore) : Dialogue :=
  ⟨s,(proceed env policy stream offset sequence).1,(proceed env policy stream offset sequence).2⟩

theorem heard_ack (env : Codecs) (call : UploadCall) (slow : Bool) (policy : ChunkPolicy)
    (s : UploadStore) (stream : Bytes) (offset sequence size received : ℕ) :
    heard env call slow (.uploadAck snapshotBlobProtocolVersion call.workorderId call.digest
        sequence offset size received) ⟨s,⟨policy,.sending stream offset sequence size⟩,[]⟩ =
      streamingAt env (policy.onAck slow) stream received (sequence+1) s := by
  simp [heard,react,ackReply,validate_ok,orFail,streamingAt]

variable {part chunk : Bytes} {post : Dialogue → Prop}

theorem checkChunk_next (hs : Streams call p stream)
    (hchunk : chunk.length ≤ snapshotBlobDefaultChunkSizeBytes)
    (hsize : part.length+chunk.length ≤ stream.length) :
    checkChunk ⟨call.workorderId,p,sequence,part.length⟩
      (fromPayload env sequence part.length chunk) = .ok () := by
  have hp := hs.chunk
  have hn := hs.size
  unfold checkChunk fromPayload
  dsimp only
  rw [if_neg (by omega),if_neg (by omega),if_neg (by omega),if_neg (by omega)]

theorem concludes_appended {t : UploadStore}
    {received : ℕ} (hs : Streams call p stream)
    (hnext : ∀ slow, Concludes (dialogueSem env call) (stageBody env) post
      (some (if received = stream.length then .finalizing call.workorderId p.digest
        else .streaming ⟨call.workorderId,p,sequence+1,received⟩))
      (streamingAt env (policy.onAck slow) stream received (sequence+1) t)) :
    Concludes (dialogueSem env call) (stageBody env) post
      (some (.appended ⟨call.workorderId,p,sequence+1,received⟩
        (fromPayload env sequence offset chunk)))
      ⟨t,⟨policy,.sending stream offset sequence chunk.length⟩,[]⟩ := by
  refine concludes_stage (after_send fun slow => ?_)
  have hack := heard_ack env call slow policy t stream offset sequence chunk.length received
  have hslow := hnext slow
  rw [← hs.digest] at hack
  dsimp only [fromPayload]
  rw [hack,if_neg (by simp),hs.size]
  split at hslow
  · next hfull =>
    rw [if_pos hfull]
    exact hslow
  · next hmore =>
    rw [if_neg hmore]
    exact hslow

theorem concludes_streaming (hs : Streams call p stream)
    {content : Bytes} {bs : (Digest → Option Bytes) × (Digest → Option StoredMetadata) ×
      (Digest → Option Bytes)} {bound : ℕ} (hbound : bound < 256^8)
    (hfinal : ∀ t c sequence, AwaitsEnd c → c.policy.Fits → sequence ≤ bound →
      At p content sequence t → blobs t = bs → (t.sessions p.digest).part = some content →
      Concludes (dialogueSem env call) (stageBody env) post
        (some (.finalizing call.workorderId p.digest)) ⟨t,c,[]⟩)
    {s : UploadStore} (hp : policy.Fits)
    (h : At p part sequence s) (hb : blobs s = bs) (hlt : part.length < stream.length)
    (hcontent : part++stream.drop part.length = content)
    (hseq : sequence+(stream.length-part.length) ≤ bound) :
    Concludes (dialogueSem env call) (stageBody env) post
      (some (.streaming ⟨call.workorderId,p,sequence,part.length⟩))
      (streamingAt env policy stream part.length sequence s) := by
  induction hn : stream.length-part.length using Nat.strong_induction_on
    generalizing s policy part sequence with
  | _ n ih =>
    have hchunk := length_nextChunk hp hlt
    have hjoin := nextChunk_append policy stream part.length
    rw [streamingAt,proceed_chunk hp hlt hs.addressable (by omega)]
    generalize nextChunk policy stream part.length = chunk at hchunk hjoin ⊢
    -- one chunk is received, appended and acknowledged
    refine concludes_stage (after_receive rfl ?_)
    dsimp only
    rw [checkChunk_next hs hchunk.2.2 hchunk.2.1]
    refine concludes_stage (after_onSessions (ends_append h ?_ ?_) ?_)
    · rintro rfl
      simp at hchunk
    · rw [List.length_append,hs.size]
      exact hchunk.2.1
    rintro t r ⟨rfl,rfl⟩
    have hlength : (part++chunk).length = part.length+chunk.length := List.length_append
    have hreach : (part++chunk)++stream.drop (part++chunk).length = content := by
      rw [hlength,List.append_assoc,hjoin,hcontent]
    have hat : At p (part++chunk) (sequence+1) (appended p part chunk sequence s) := at_appended
    have hnext : ∀ slow, Concludes (dialogueSem env call) (stageBody env) post
        (some (if (part++chunk).length = stream.length then .finalizing call.workorderId p.digest
          else .streaming ⟨call.workorderId,p,sequence+1,(part++chunk).length⟩))
        (streamingAt env (policy.onAck slow) stream (part++chunk).length (sequence+1)
          (appended p part chunk sequence s)) := by
      intro slow
      split
      · next hfull =>
        rw [hfull,List.drop_length,List.append_nil] at hreach
        rw [streamingAt,proceed_done hfull]
        subst hreach
        exact hfinal _ _ _ (.inr rfl) (hp.onAck slow) (by omega) hat hb part_appended
      · next hmore =>
        exact ih (stream.length-(part++chunk).length) (by omega) (hp.onAck slow) hat hb
          (by omega) hreach (by omega) rfl
    exact concludes_appended hs hnext

end

section
variable {env : Codecs} {id : Uuid} {bytes : Bytes} {s : UploadStore}

def clientEncoding (env : Codecs) (bytes : Bytes) : Option String :=
  (encodeZstdIfWorthwhile env bytes).map fun _ => snapshotBlobEncodingZstd

def clientStream (env : Codecs) (bytes : Bytes) : Bytes :=
  (uploadOf env bytes).stream (clientEncoding env bytes)

def clientParams (env : Codecs) (bytes : Bytes) : SessionParams :=
  (uploadOf env bytes).params (clientEncoding env bytes)

theorem encodeZstdIfWorthwhile_some {compressed : Bytes}
    (h : encodeZstdIfWorthwhile env bytes = some compressed) :
    compressed = env.encodeZstd bytes ∧ compressed.length < bytes.length := by
  unfold encodeZstdIfWorthwhile at h
  split at h
  · cases h
  · split at h
    · next hw =>
      cases h
      rw [compressionIsWorthwhile,Bool.and_eq_true,decide_eq_true_eq] at hw
      exact ⟨rfl,hw.1⟩
    · cases h

theorem select_clientEncoding (env : Codecs) (id : Uuid) (bytes : Bytes) :
    selectUploadEncoding (uploadInit (uploadCall env id bytes)).totalSizeBytes
      (uploadInit (uploadCall env id bytes)).capabilityFlags
      (uploadInit (uploadCall env id bytes)).offeredEncodings =
      .ok (clientEncoding env bytes,(clientStream env bytes).length) := by
  unfold clientStream clientEncoding uploadInit uploadCall prepareUploadPayload
  cases h : encodeZstdIfWorthwhile env bytes with
  | none => rfl
  | some compressed =>
    obtain ⟨rfl,-⟩ := encodeZstdIfWorthwhile_some h
    simp [selectUploadEncoding,Upload.stream,uploadOf]

theorem payload_clientEncoding (env : Codecs) (id : Uuid) (bytes : Bytes) :
    payloadForSelectedEncoding (uploadCall env id bytes).payload (clientEncoding env bytes) =
      .ok (clientStream env bytes) := by
  unfold clientStream clientEncoding uploadCall prepareUploadPayload
  cases h : encodeZstdIfWorthwhile env bytes with
  | none => rfl
  | some compressed =>
    obtain ⟨rfl,-⟩ := encodeZstdIfWorthwhile_some h
    simp [payloadForSelectedEncoding,Upload.stream,uploadOf]

theorem length_clientStream (env : Codecs) (bytes : Bytes) :
    (clientStream env bytes).length ≤ bytes.length := by
  unfold clientStream clientEncoding
  cases h : encodeZstdIfWorthwhile env bytes with
  | none => exact le_refl _
  | some compressed =>
    obtain ⟨rfl,hlt⟩ := encodeZstdIfWorthwhile_some h
    exact hlt.le

theorem rawBytes_prepareUploadPayload (env : Codecs) (bytes : Bytes) :
    (prepareUploadPayload env bytes).rawBytes = bytes := by
  unfold prepareUploadPayload
  split <;> rfl

theorem hasBlob_sha256 (env : Codecs) (bytes : Bytes) (s : UploadStore) (now : Time) :
    sessionEffect env now s (.hasBlob (env.sha256 bytes)) =
      (s,.ok (s.raw (env.sha256 bytes)).isSome) := by
  have hvalid : ¬validDigest (env.sha256 bytes) = false := by simp [env.sha256_valid]
  rw [sessionEffect,if_neg hvalid]

theorem after_openUpload {post : Dialogue → Option UploadStage → Prop} {d : Dialogue}
    (hpresent : (d.store.raw (env.sha256 bytes)).isSome →
      After (dialogueSem env (uploadCall env id bytes)) (do
        let _ ← onSessions (removeBlobUploadState (env.sha256 bytes))
        sendComplete id (env.sha256 bytes) false) post d)
    (habsent : (d.store.raw (env.sha256 bytes)).isSome = false →
      post d (some (.preparing id (clientParams env bytes)))) :
    After (dialogueSem env (uploadCall env id bytes))
      (openUpload (uploadInit (uploadCall env id bytes))) post d := by
  unfold openUpload
  rw [if_neg (by simp [uploadInit]),if_neg (by simp [uploadInit]),select_clientEncoding]
  refine after_call (hasBlob_sha256 env bytes d.store) ?_
  cases hraw : (d.store.raw (env.sha256 bytes)).isSome with
  | true => exact hpresent hraw
  | false =>
    have hsize : (uploadInit (uploadCall env id bytes)).totalSizeBytes = bytes.length :=
      congrArg List.length (rawBytes_prepareUploadPayload env bytes)
    rw [hsize]
    exact habsent hraw

variable {policy : ChunkPolicy}

theorem attempt_present {content : Bytes} (hraw : s.raw (env.sha256 bytes) = some content) :
    Attempt env (uploadCall env id bytes)
      (fun d => d.store.raw = s.raw ∧ d.connection.policy = policy ∧
        attemptResult (uploadCall env id bytes) d.connection = .ok false) policy s := by
  refine concludes_stage (after_receive rfl (after_openUpload (fun _ => ?_) fun habsent => ?_))
  · refine after_onSessions (ends_remove _) ?_
    rintro t r ⟨rfl,-⟩
    have hend : ∀ d' : Dialogue, d'.store = forgotten (env.sha256 bytes) s →
        d'.connection.policy = policy →
        attemptResult (uploadCall env id bytes) d'.connection = .ok false →
        Concludes (dialogueSem env (uploadCall env id bytes)) (stageBody env)
          (fun d => d.store.raw = s.raw ∧ d.connection.policy = policy ∧
            attemptResult (uploadCall env id bytes) d.connection = .ok false) none d' := by
      intro d' hd hp hr
      refine .ended ⟨?_,hp,hr⟩
      rw [hd]
      rfl
    exact after_sendComplete (.inl rfl) hend
  · rw [show (opened (uploadCall env id bytes) policy s).store.raw _ = _ from hraw] at habsent
    cases habsent

theorem attempt_absent {post : Dialogue → Prop}
    (hraw : s.raw (env.sha256 bytes) = none)
    (h : Concludes (dialogueSem env (uploadCall env id bytes)) (stageBody env) post
      (some (.preparing id (clientParams env bytes))) ⟨s,⟨policy,.opening⟩,[]⟩) :
    Attempt env (uploadCall env id bytes) post policy s := by
  refine concludes_stage (after_receive rfl (after_openUpload (fun hpresent => ?_) fun _ => h))
  rw [show (opened (uploadCall env id bytes) policy s).store.raw _ = _ from hraw] at hpresent
  cases hpresent

end

variable {env : Codecs} {id : Uuid} {bytes : Bytes} {s : UploadStore} {policy : ChunkPolicy}

theorem attempt_refused (hraw : s.raw (env.sha256 bytes) = none) {t : UploadStore} {e : Failure}
    (hp : prepared (clientParams env bytes) s = (t,.error e)) :
    Attempt env (uploadCall env id bytes) (fun d => d.store = t ∧ d.connection.policy = policy ∧
      ∃ e, attemptResult (uploadCall env id bytes) d.connection = .error e) policy s := by
  have hprepare : Ends env (prepareBlobUploadSession (clientParams env bytes)) _ s :=
    ends_prepare (clientParams env bytes)
  rw [hp] at hprepare
  refine attempt_absent hraw (concludes_stage (after_onSessions hprepare ?_))
  rintro t' r ⟨rfl,rfl⟩
  refine after_reject (AwaitsEnd.waits (.inl rfl)) fun d' hs hc he => ?_
  exact .ended ⟨hs,hc,he⟩

theorem heard_resume (slow : Bool) (offset sequence : ℕ) (t : UploadStore) :
    heard env (uploadCall env id bytes) slow (.uploadResume snapshotBlobProtocolVersion id
        (env.sha256 bytes) offset sequence (clientEncoding env bytes)
        (clientStream env bytes).length) ⟨t,⟨policy,.opening⟩,[]⟩ =
      streamingAt env policy (clientStream env bytes) offset sequence t := by
  have hvalid : validateBlobUploadEnvelope (uploadCall env id bytes) snapshotBlobProtocolVersion
      id (env.sha256 bytes) = .ok () := validate_ok (uploadCall env id bytes)
  simp only [heard,react,openReply,hvalid,orFail,payload_clientEncoding,ne_eq,not_true,if_false,
    streamingAt,List.nil_append]

theorem concludes_prepared {post : Dialogue → Prop} (hlen : bytes.length < 256^8)
    (hpolicy : policy.Fits) {part : Bytes} {sequence : ℕ}
    (hat : At (clientParams env bytes) part sequence s)
    (hsize : part.length ≤ (clientStream env bytes).length) {bound : ℕ} (hbound : bound < 256^8)
    (hseq : sequence+((clientStream env bytes).length-part.length) ≤ bound)
    (hfinal : ∀ t c sequence, AwaitsEnd c → c.policy.Fits → sequence ≤ bound →
      At (clientParams env bytes) (part++(clientStream env bytes).drop part.length) sequence t →
      blobs t = blobs s →
      ((t.sessions (env.sha256 bytes)).part = (s.sessions (env.sha256 bytes)).part ∨
        part.length < (clientStream env bytes).length ∧ (t.sessions (env.sha256 bytes)).part =
          some (part++(clientStream env bytes).drop part.length)) →
      Concludes (dialogueSem env (uploadCall env id bytes)) (stageBody env) post
        (some (.finalizing id (env.sha256 bytes))) ⟨t,c,[]⟩) :
    Concludes (dialogueSem env (uploadCall env id bytes)) (stageBody env) post
      (some (.prepared id (clientParams env bytes) (stateAt (clientParams env bytes) sequence
        part.length))) ⟨s,⟨policy,.opening⟩,[]⟩ := by
  refine concludes_stage ?_
  change After _ (resumeUpload id (clientParams env bytes) _) _ _
  unfold resumeUpload
  split
  · next hfull =>
    have hlength : part.length = (clientStream env bytes).length := hfull
    rw [hlength,List.drop_length,List.append_nil] at hfinal
    exact hfinal s ⟨policy,.opening⟩ sequence (.inl rfl) hpolicy (by omega) hat rfl (.inl rfl)
  · next hmore =>
    have hlt : part.length < (clientStream env bytes).length := lt_of_le_of_ne hsize hmore
    have hne : (clientParams env bytes).streamSizeBytes ≠ 0 := Nat.ne_zero_of_lt hlt
    refine after_send fun slow => ?_
    rw [if_neg (by simp),if_neg hne]
    change Concludes _ (stageBody env) _
      (some (.streaming ⟨id,clientParams env bytes,sequence,part.length⟩))
      (heard env (uploadCall env id bytes) slow (.uploadResume snapshotBlobProtocolVersion id
        (env.sha256 bytes) part.length sequence (clientEncoding env bytes)
        (clientStream env bytes).length) ⟨s,⟨policy,.opening⟩,[]⟩)
    rw [heard_resume]
    have hstreams : Streams (uploadCall env id bytes) (clientParams env bytes)
        (clientStream env bytes) :=
      ⟨rfl,rfl,rfl,lt_of_le_of_lt (length_clientStream env bytes) hlen⟩
    refine concludes_streaming hstreams hbound ?_ hpolicy hat rfl hlt rfl hseq
    intro t c sequence' hc hfits hle hat' hb hpart
    exact hfinal t c sequence' hc hfits hle hat' hb (.inr ⟨hlt,hpart⟩)

end Remerge.UploadDialogue

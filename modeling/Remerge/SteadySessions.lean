import Remerge.UploadSessions

/-!
# Session functions without faults

When every file operation succeeds, what a session function does is decided by
the files it finds. A preparation brings the recorded offsets in line or refuses
to, an append adds a chunk, and finalizing stores what the stream decodes to.
-/

set_option autoImplicit false

namespace Remerge.SteadySessions
open StepProgram SnapshotTypes SnapshotStore UploadSessions Function

section

def steadySem (env : Codecs) : Sem SessionOp SessionRes UploadStore Time :=
  fun o now s => some (sessionEffect env now s o)

def Ends {α : Type} (env : Codecs) (p : SessionProg α)
    (post : UploadStore → Except Failure α → Prop) (s : UploadStore) : Prop :=
  After (steadySem env) (outcome p) post s

variable {env : Codecs} {α β : Type} {s : UploadStore} {a : α} {e : Failure} {o : SessionOp}

theorem ends_pure {post : UploadStore → Except Failure α → Prop} (h : post s (.ok a)) :
    Ends env (pure a) post s := h

theorem ends_throw {post : UploadStore → Except Failure α → Prop} (h : post s (.error e)) :
    Ends env (throw e : SessionProg α) post s := h

variable {post : UploadStore → Except Failure β → Prop} {p : SessionProg α}
  {f : α → SessionProg β} {t : UploadStore}

theorem ends_bind (mid : UploadStore → Except Failure α → Prop) (hp : Ends env p mid s)
    (hok : ∀ t a, mid t (.ok a) → Ends env (f a) post t)
    (herr : ∀ t e, mid t (.error e) → post t (.error e)) : Ends env (p >>= f) post s := by
  unfold Ends
  rw [outcome_bind,after_bind]
  refine after_mono hp fun t r hr => ?_
  cases r with
  | ok a => exact hok t a hr
  | error e => exact herr t e hr

theorem ends_then (hp : Ends env p (fun t' r => t' = t ∧ r = .ok a) s)
    (hf : Ends env (f a) post t) :
    Ends env (p >>= f) post s := by
  refine ends_bind _ hp ?_ ?_
  · rintro t' a' ⟨rfl,ha⟩
    cases ha
    exact hf
  · rintro t' e ⟨-,he⟩
    cases he

theorem ends_fail (hp : Ends env p (fun t' r => t' = t ∧ r = .error e) s)
    (hpost : post t (.error e)) : Ends env (p >>= f) post s := by
  refine ends_bind _ hp ?_ ?_
  · rintro t' a' ⟨-,ha⟩
    cases ha
  · rintro t' e' ⟨rfl,he⟩
    cases he
    exact hpost

theorem ends_call {post : UploadStore → SessionRes o → Prop}
    (h : ∀ now, post (sessionEffect env now s o).1 (sessionEffect env now s o).2) :
    Ends env (sessionCall o) post s := by
  intro now s' r hs
  have he := h now
  rw [Option.some.inj hs] at he
  exact he

theorem ends_call_eq {r : SessionRes o} (h : ∀ now, sessionEffect env now s o = (t,r)) :
    Ends env (sessionCall o) (fun t' r' => t' = t ∧ r' = r) s := by
  refine ends_call fun now => ?_
  rw [h now]
  exact ⟨rfl,rfl⟩

theorem ends_result {r r' : Except Failure α} (h : r = r') :
    Ends env (ExceptT.mk (pure r)) (fun t x => t = s ∧ x = r') s := ⟨rfl,h⟩

end

section
variable {env : Codecs} {s : UploadStore}

theorem ends_partLength (digest : Digest) :
    Ends env (partLength digest) (fun t r => t = s ∧ r = .ok (s.sessions digest).received) s := by
  intro now t r h
  have he := Option.some.inj h
  simp only [sessionEffect,Prod.mk.injEq] at he
  obtain ⟨rfl,rfl⟩ := he
  unfold SessionFiles.received
  cases (s.sessions digest).part with
  | some part | none => exact ⟨rfl,rfl⟩

def loadedState (p : SessionParams) (s : UploadStore) : PersistedBlobUploadState :=
  (s.sessions p.digest).state.getD p.fresh

def forgotten (digest : Digest) (s : UploadStore) : UploadStore :=
  (s.clearState digest).setPart digest none

theorem ends_remove (digest : Digest) :
    Ends env (removeBlobUploadState digest) (fun t r => t = forgotten digest s ∧ r = .ok ()) s := by
  unfold removeBlobUploadState
  refine ends_then (ends_call_eq (o := .removeState digest) fun _ => rfl) ?_
  exact ends_call_eq (o := .removePart digest) fun _ => rfl

def exceedsSize (p : SessionParams) (received : ℕ) : Failure :=
  .bail (s!"Upload session for {p.digest} exceeds declared size: " ++
    s!"{received} > {p.streamSizeBytes}")

def prepared (p : SessionParams) (s : UploadStore) :
    UploadStore × Except Failure PersistedBlobUploadState :=
  match checkSession p (loadedState p s) with
  | .error e => (s,.error e)
  | .ok () =>
    if p.streamSizeBytes < (s.sessions p.digest).received then
      (forgotten p.digest s,.error (exceedsSize p (s.sessions p.digest).received))
    else match alignState (s.sessions p.digest).received (loadedState p s) with
      | .error e => (s,.error e)
      | .ok state => (s.setState state,.ok state)

theorem ends_prepare (p : SessionParams) :
    Ends env (prepareBlobUploadSession p)
      (fun t r => t = (prepared p s).1 ∧ r = (prepared p s).2) s := by
  unfold prepareBlobUploadSession prepared
  refine ends_then (ends_call_eq (o := .loadState p.digest) fun _ => rfl) ?_
  cases hcheck : checkSession p (loadedState p s) with
  | error e => exact ends_fail (ends_result hcheck) ⟨rfl,rfl⟩
  | ok u =>
    refine ends_then (ends_result hcheck) (ends_then (ends_partLength p.digest) ?_)
    dsimp only
    split
    · exact ends_then (ends_remove p.digest) (ends_throw ⟨rfl,rfl⟩)
    · cases halign : alignState (s.sessions p.digest).received (loadedState p s) with
      | error e => exact ends_fail (ends_result halign) ⟨rfl,rfl⟩
      | ok state =>
        refine ends_then (ends_result halign) ?_
        refine ends_then (ends_call_eq (o := .persistState state) fun _ => rfl) ?_
        exact ends_pure ⟨rfl,rfl⟩

def Admits (p : SessionParams) (s : UploadStore) : Prop :=
  checkSession p (loadedState p s) = .ok ()

def Aligned (received : ℕ) (state : PersistedBlobUploadState) : Prop :=
  received = 0 ∨ state.receivedBytes = received ∧ state.nextOffsetBytes = received ∧
    0 < state.nextSequence

variable {received : ℕ} {state : PersistedBlobUploadState}

theorem alignState_aligned (h : Aligned received state) : ∃ sequence ≤ state.nextSequence,
      (received ≠ 0 → 0 < sequence) ∧ alignState received state = .ok { state with
        receivedBytes := received, nextOffsetBytes := received, nextSequence := sequence } := by
  by_cases hm : state.receivedBytes ≠ received ∨ state.nextOffsetBytes ≠ received
  · have hzero : received = 0 := by
      rcases h with h | h
      · exact h
      · omega
    refine ⟨0,Nat.zero_le _,fun hn => absurd hzero hn,?_⟩
    rw [alignState,if_neg fun hn => hn.2 hzero,if_pos hm]
    dsimp only
    rw [if_neg (by omega)]
  · refine ⟨state.nextSequence,le_refl _,fun hn => ?_,?_⟩
    · rcases h with h | h
      · exact absurd h hn
      · exact h.2.2
    · rw [alignState,if_neg fun hn => hm hn.1,if_neg hm]
      dsimp only
      rw [if_neg]
      rintro ⟨hpos,hseq⟩
      rcases h with h | h
      · omega
      · omega

theorem alignState_unaligned (h : ¬Aligned received state) :
    ∃ e, alignState received state = .error e := by
  cases halign : alignState received state with
  | error e => exact ⟨e,rfl⟩
  | ok state' =>
    exfalso
    have hne : received ≠ 0 := fun h0 => h (.inl h0)
    obtain ⟨-,hrecord⟩ := alignState_ok halign
    obtain ⟨hreceived,hoffset,-⟩ := hrecord hne
    have hm : ¬(state.receivedBytes ≠ received ∨ state.nextOffsetBytes ≠ received) := by omega
    have hzero : state.nextSequence = 0 := by
      by_contra hpos
      exact h (.inr ⟨hreceived,hoffset,by omega⟩)
    rw [alignState,if_neg fun hn => hm hn.1,if_neg hm] at halign
    dsimp only at halign
    rw [if_pos ⟨by omega,hzero⟩] at halign
    cases halign

variable {p : SessionParams}

theorem prepared_unadmitted (h : ¬Admits p s) : ∃ e, prepared p s = (s,.error e) := by
  unfold prepared
  cases hcheck : checkSession p (loadedState p s) with
  | error e => exact ⟨e,rfl⟩
  | ok u => exact absurd hcheck h

theorem prepared_exceeds (h : Admits p s)
    (hsize : p.streamSizeBytes < (s.sessions p.digest).received) :
    ∃ e, prepared p s = (forgotten p.digest s,.error e) := by
  unfold Admits at h
  rw [prepared,h]
  dsimp only
  rw [if_pos hsize]
  exact ⟨_,rfl⟩

theorem prepared_unaligned (h : Admits p s)
    (hsize : (s.sessions p.digest).received ≤ p.streamSizeBytes)
    (hal : ¬Aligned (s.sessions p.digest).received (loadedState p s)) :
    ∃ e, prepared p s = (s,.error e) := by
  obtain ⟨e,he⟩ := alignState_unaligned hal
  unfold Admits at h
  rw [prepared,h]
  dsimp only
  rw [if_neg (by omega),he]
  exact ⟨e,rfl⟩

end

section
variable {env : Codecs} {s : UploadStore}

def stateAt (p : SessionParams) (sequence received : ℕ) : PersistedBlobUploadState :=
  { p.fresh with nextSequence := sequence, nextOffsetBytes := received, receivedBytes := received }

structure At (p : SessionParams) (part : Bytes) (sequence : ℕ) (s : UploadStore) : Prop where
  record : (s.sessions p.digest).state = some (stateAt p sequence part.length)
  bytes : (s.sessions p.digest).part.getD [] = part
  counted : part ≠ [] → 0 < sequence

variable {p : SessionParams} {part chunk : Bytes} {sequence : ℕ}

theorem At.received (h : At p part sequence s) : (s.sessions p.digest).received = part.length := by
  rw [SessionFiles.received,h.bytes]

theorem At.loaded (h : At p part sequence s) :
    loadedState p s = stateAt p sequence part.length := by
  rw [loadedState,h.record]
  rfl

theorem checkSession_stateAt (p : SessionParams) (sequence received : ℕ) :
    checkSession p (stateAt p sequence received) = .ok () :=
  checkSession_ok.mpr ⟨rfl,rfl,rfl,rfl⟩

theorem alignState_stateAt (p : SessionParams) {received : ℕ} (h : received ≠ 0 → 0 < sequence) :
    alignState received (stateAt p sequence received) = .ok (stateAt p sequence received) := by
  have haligned : ¬((stateAt p sequence received).receivedBytes ≠ received ∨
      (stateAt p sequence received).nextOffsetBytes ≠ received) := by simp [stateAt]
  unfold alignState
  rw [if_neg fun hn => haligned hn.1,if_neg haligned]
  dsimp only
  rw [if_neg]
  · rfl
  · rintro ⟨hpos,hzero⟩
    have := h (by omega)
    simp only [stateAt] at hzero
    omega

theorem prepared_at (h : At p part sequence s) (hsize : part.length ≤ p.streamSizeBytes) :
    prepared p s = (s.setState (stateAt p sequence part.length),
      .ok (stateAt p sequence part.length)) := by
  have halign : alignState part.length (stateAt p sequence part.length) =
      .ok (stateAt p sequence part.length) :=
    alignState_stateAt p fun hne => h.counted fun hnil => hne (by rw [hnil]; rfl)
  rw [prepared,h.loaded,checkSession_stateAt]
  dsimp only
  rw [h.received,if_neg (by omega),halign]

theorem digest_loadedState (p : SessionParams) (s : UploadStore) :
    (loadedState p s).digest = p.digest := by
  unfold loadedState
  cases h : (s.sessions p.digest).state with
  | none => rfl
  | some state => exact s.named p.digest state h

theorem part_setState (p : SessionParams) (s : UploadStore) (sequence received : ℕ) :
    ((s.setState (stateAt p sequence received)).sessions p.digest).part =
      (s.sessions p.digest).part := by
  simp [UploadStore.setState,stateAt,SessionParams.fresh]

theorem prepared_aligned (h : Admits p s)
    (hsize : (s.sessions p.digest).received ≤ p.streamSizeBytes)
    (hal : Aligned (s.sessions p.digest).received (loadedState p s)) :
    ∃ sequence ≤ (loadedState p s).nextSequence,
      prepared p s = (s.setState (stateAt p sequence (s.sessions p.digest).received),
        .ok (stateAt p sequence (s.sessions p.digest).received)) ∧
      At p ((s.sessions p.digest).part.getD []) sequence
        (s.setState (stateAt p sequence (s.sessions p.digest).received)) := by
  obtain ⟨sequence,hle,hpos,halign⟩ := alignState_aligned hal
  obtain ⟨hraw,hstream,hchunk,hencoding⟩ := checkSession_ok.mp h
  have hstate : ({ loadedState p s with
      receivedBytes := (s.sessions p.digest).received
      nextOffsetBytes := (s.sessions p.digest).received
      nextSequence := sequence } : PersistedBlobUploadState) =
        stateAt p sequence (s.sessions p.digest).received := by
    simp only [stateAt,SessionParams.fresh,digest_loadedState,hraw,hstream,hchunk,hencoding]
  refine ⟨sequence,hle,?_,?_⟩
  · unfold Admits at h
    rw [prepared,h]
    dsimp only
    rw [if_neg (by omega),halign,hstate]
  · constructor
    · simp [UploadStore.setState,stateAt,SessionParams.fresh,SessionFiles.received]
    · simp [UploadStore.setState,stateAt,SessionParams.fresh]
    · intro hne
      exact hpos fun hzero => hne (List.eq_nil_of_length_eq_zero hzero)

/-- The part of the store that no session function but finalizing touches. -/
def blobs (s : UploadStore) : (Digest → Option Bytes) × (Digest → Option StoredMetadata) ×
    (Digest → Option Bytes) := (s.raw,s.metadata,s.encoded)

def appended (p : SessionParams) (part chunk : Bytes) (sequence : ℕ) (s : UploadStore) :
    UploadStore :=
  ((s.setState (stateAt p sequence part.length)).setPart p.digest (some (part++chunk))).setState
    (stateAt p (sequence+1) (part++chunk).length)

theorem ends_append (h : At p part sequence s) (hchunk : chunk ≠ [])
    (hsize : (part++chunk).length ≤ p.streamSizeBytes) :
    Ends env (appendBlobUploadChunk p chunk)
      (fun t r => t = appended p part chunk sequence s ∧
        r = .ok (stateAt p (sequence+1) (part++chunk).length)) s := by
  have hprepared : Ends env (prepareBlobUploadSession p)
      (fun t r => t = s.setState (stateAt p sequence part.length) ∧
        r = .ok (stateAt p sequence part.length)) s := by
    have hprepare : Ends env (prepareBlobUploadSession p) _ s := ends_prepare p
    rw [List.length_append] at hsize
    rw [prepared_at h (by omega)] at hprepare
    exact hprepare
  have hpart : ((s.setState (stateAt p sequence part.length)).sessions p.digest).part.getD [] =
      part := by
    simpa [UploadStore.setState,stateAt,SessionParams.fresh] using h.bytes
  rw [List.length_append] at hsize
  unfold appendBlobUploadChunk
  refine ends_then hprepared ?_
  have hreceived : (stateAt p sequence part.length).receivedBytes = part.length := rfl
  dsimp only
  rw [hreceived,if_neg (by omega),if_neg (fun hn => hchunk hn.1)]
  refine ends_then (ends_call_eq (o := .appendPart p.digest chunk)
    (t := (s.setState (stateAt p sequence part.length)).setPart p.digest (some (part++chunk)))
    (r := .ok ()) fun _ => ?_) ?_
  · simp only [sessionEffect,hpart]
  · have hnext : ({ stateAt p sequence part.length with
        receivedBytes := part.length+chunk.length
        nextOffsetBytes := part.length+chunk.length
        nextSequence := (stateAt p sequence part.length).nextSequence+1 } :
          PersistedBlobUploadState) = stateAt p (sequence+1) (part++chunk).length := by
      rw [List.length_append]
      rfl
    rw [hnext]
    exact ends_then (ends_call_eq (o := .persistState _) fun _ => rfl) (ends_pure ⟨rfl,rfl⟩)

theorem at_appended : At p (part++chunk) (sequence+1) (appended p part chunk sequence s) := by
  constructor
  · simp [appended,UploadStore.setState,stateAt,SessionParams.fresh]
  · simp [appended,UploadStore.setState,UploadStore.setPart,stateAt,SessionParams.fresh]
  · intro _
    omega

theorem part_appended :
    ((appended p part chunk sequence s).sessions p.digest).part = some (part++chunk) := by
  simp [appended,UploadStore.setState,UploadStore.setPart,stateAt,SessionParams.fresh]

end

section
variable {env : Codecs} {s : UploadStore}

def Fits (digest : Digest) (rawSizeBytes : ℕ) (s : UploadStore) : Prop :=
  ∀ metadata, s.metadata digest = some metadata →
    metadataMismatch digest rawSizeBytes metadata = none

variable {digest : Digest} {rawSizeBytes : ℕ} {bytes : Bytes}

theorem fits_setMetadata {metadata : StoredMetadata}
    (h : metadataMismatch digest rawSizeBytes metadata = none) :
    Fits digest rawSizeBytes (s.setMetadata digest metadata) := by
  intro metadata' h'
  simp only [UploadStore.setMetadata,update_self,Option.some.injEq] at h'
  rwa [← h']

theorem ensuredMetadata_of_fits (h : Fits digest rawSizeBytes s) (now : Time) :
    ∃ metadata, ensuredMetadata now digest rawSizeBytes (s.metadata digest) = .ok metadata ∧
      metadataMismatch digest rawSizeBytes metadata = none := by
  cases hm : s.metadata digest with
  | none => exact ⟨⟨digest,rawSizeBytes,now,none⟩,rfl,by simp [metadataMismatch]⟩
  | some metadata =>
    have hfits := h metadata hm
    exact ⟨metadata,by simp [ensuredMetadata,hfits],hfits⟩

theorem storeEncodedVariant_ok (h : Fits digest rawSizeBytes s) (now : Time) (bytes : Bytes) :
    (storeEncodedVariantEffect now digest rawSizeBytes bytes s).2 = .ok () ∧
      Fits digest rawSizeBytes (storeEncodedVariantEffect now digest rawSizeBytes bytes s).1 := by
  obtain ⟨metadata,hm,hfits⟩ := ensuredMetadata_of_fits h now
  unfold storeEncodedVariantEffect
  rw [hm]
  exact ⟨rfl,fits_setMetadata hfits⟩

variable (env) in
theorem storeZstdVariant_ok (h : Fits digest bytes.length s) (now : Time) :
    (storeZstdVariantEffect env now digest bytes s).2 = .ok () ∧
      Fits digest bytes.length (storeZstdVariantEffect env now digest bytes s).1 := by
  obtain ⟨metadata,hm,hfits⟩ := ensuredMetadata_of_fits h now
  have hset : Fits digest bytes.length (s.setMetadata digest metadata) := fits_setMetadata hfits
  unfold storeZstdVariantEffect
  rw [hm]
  dsimp only
  split
  · exact ⟨rfl,hset⟩
  · split
    · exact ⟨rfl,hset⟩
    · exact storeEncodedVariant_ok hset now _

theorem touchBlob_ok {content : Bytes} (hraw : s.raw digest = some content)
    (h : Fits digest content.length s) (now : Time) :
    (touchBlobEffect now digest s).2 = .ok () ∧
      Fits digest content.length (touchBlobEffect now digest s).1 := by
  obtain ⟨metadata,hm,hfits⟩ := ensuredMetadata_of_fits h now
  unfold touchBlobEffect
  rw [hraw]
  dsimp only
  rw [hm]
  exact ⟨rfl,fits_setMetadata hfits⟩

theorem storeBlobForDigest_ok (hdigest : env.sha256 bytes = digest)
    (hraw : ∀ content, s.raw digest = some content → content.length = bytes.length)
    (h : Fits digest bytes.length s) (now : Time) :
    (storeBlobForDigestEffect env now digest bytes s).2 = .ok (s.raw digest).isNone ∧
      Fits digest bytes.length (storeBlobForDigestEffect env now digest bytes s).1 := by
  have hvalid : validDigest digest := hdigest ▸ env.sha256_valid bytes
  have hkept : Fits digest bytes.length (s.keepRaw digest bytes) := h
  obtain ⟨hzstd,hfits⟩ := storeZstdVariant_ok env hkept now
  have hframe := (storeZstdVariantEffect_frame env now digest bytes (s.keepRaw digest bytes)).1
  have hcontent : ∃ content,
      (storeZstdVariantEffect env now digest bytes (s.keepRaw digest bytes)).1.raw digest =
        some content ∧ content.length = bytes.length := by
    rw [hframe]
    cases hc : s.raw digest with
    | none => exact ⟨bytes,by simp [UploadStore.keepRaw,hc],rfl⟩
    | some content => exact ⟨content,by simp [UploadStore.keepRaw,hc],hraw content hc⟩
  obtain ⟨content,hstored,hlength⟩ := hcontent
  rw [← hlength] at hfits
  have htouch := touchBlob_ok hstored hfits now
  rw [hlength] at htouch
  unfold storeBlobForDigestEffect
  rw [if_neg (by simp [hvalid]),if_neg (not_not.mpr hdigest)]
  rcases hr : storeZstdVariantEffect env now digest bytes (s.keepRaw digest bytes) with ⟨t,r⟩
  rw [hr] at hzstd htouch
  cases hzstd
  rcases hr' : touchBlobEffect now digest t with ⟨t',r'⟩
  rw [hr'] at htouch
  obtain ⟨htouch,hfits'⟩ := htouch
  cases htouch
  simpa [thenOn,hr'] using hfits'

theorem raw_storeBlobForDigest (hdigest : env.sha256 bytes = digest) (now : Time) :
    (storeBlobForDigestEffect env now digest bytes s).1.raw =
      update s.raw digest (some ((s.raw digest).getD bytes)) := by
  have hvalid : ¬validDigest digest = false := by simp [← hdigest,env.sha256_valid]
  rw [storeBlobForDigestEffect,if_neg hvalid,if_neg (not_not.mpr hdigest)]
  refine (thenOn_frame (s := s.keepRaw digest bytes)
    (storeZstdVariantEffect_frame env now digest bytes (s.keepRaw digest bytes)) fun t => ?_).1
  exact thenOn_frame (touchBlobEffect_frame now digest t) fun u => ⟨rfl,rfl⟩

end

variable {env : Codecs} {s : UploadStore}

structure Decodes (env : Codecs) (p : SessionParams) (stream raw : Bytes) : Prop where
  decoded : decodeStream env p.selectedEncoding stream = .ok raw
  size : raw.length = p.rawSizeBytes
  digest : env.sha256 raw = p.digest

variable {p : SessionParams} {part : Bytes} {sequence : ℕ}

theorem ends_loadSession (h : At p part sequence s) : Ends env (loadSession p.digest)
      (fun t r => t = s ∧ r = .ok (stateAt p sequence part.length)) s := by
  unfold loadSession
  refine ends_then (ends_call_eq (o := .loadState p.digest) (t := s)
    (r := .ok (some (stateAt p sequence part.length))) fun _ => ?_) ?_
  · simp only [sessionEffect,h.record]
  · exact ends_pure ⟨rfl,rfl⟩

variable {post : UploadStore → Except Failure Bool → Prop} {stream : Bytes} {received : ℕ}

theorem ends_finalize
    (h : At p part sequence s) (hsize : part.length = p.streamSizeBytes)
    (hread : Ends env (do
      let stream ← sessionCall (.readPart p.digest)
      storeStream env p.digest (stateAt p sequence part.length) stream) post s) :
    Ends env (finalizeBlobUploadSession env p.digest) post s := by
  unfold finalizeBlobUploadSession
  refine ends_then (ends_loadSession h) (ends_then (ends_partLength p.digest) ?_)
  rw [h.received,if_neg (by simpa [stateAt,SessionParams.fresh] using hsize)]
  exact hread

theorem ends_finalize_missing (h : At p part sequence s) (hsize : part.length = p.streamSizeBytes)
    (hpart : (s.sessions p.digest).part = none) :
    Ends env (finalizeBlobUploadSession env p.digest) (fun t r => t = s ∧ ∃ e, r = .error e) s := by
  refine ends_finalize h hsize (ends_fail (ends_call_eq (o := .readPart p.digest) (t := s)
    (r := .error (.io .notFound "Failed to read")) fun _ => ?_) ⟨rfl,_,rfl⟩)
  simp only [sessionEffect,hpart]

theorem ends_finalize_read (h : At p part sequence s) (hsize : part.length = p.streamSizeBytes)
    (hpart : (s.sessions p.digest).part = some part)
    (hstore : Ends env (storeStream env p.digest (stateAt p sequence part.length) part) post s) :
    Ends env (finalizeBlobUploadSession env p.digest) post s := by
  refine ends_finalize h hsize (ends_then (ends_call_eq (o := .readPart p.digest) (t := s)
    (r := .ok part) fun _ => ?_) hstore)
  simp only [sessionEffect,hpart]

theorem ends_storeStream {raw : Bytes} (hd : Decodes env p stream raw)
    (hraw : ∀ content, s.raw p.digest = some content → content.length = raw.length) :
    Ends env (storeStream env p.digest (stateAt p sequence received) stream)
      (fun t r => t.raw = update s.raw p.digest (some ((s.raw p.digest).getD raw)) ∧
        (Fits p.digest raw.length s → r = .ok (s.raw p.digest).isNone)) s := by
  unfold storeStream
  refine ends_then (ends_result hd.decoded) ?_
  rw [if_neg (by simpa [stateAt,SessionParams.fresh] using hd.size)]
  refine ends_bind (fun t r =>
    t.raw = update s.raw p.digest (some ((s.raw p.digest).getD raw)) ∧
      (Fits p.digest raw.length s → r = .ok (s.raw p.digest).isNone ∧ Fits p.digest raw.length t))
    ?_ ?_ ?_
  · refine ends_call fun now => ⟨raw_storeBlobForDigest hd.digest now,fun hfits => ?_⟩
    exact storeBlobForDigest_ok hd.digest hraw hfits now
  · rintro t uploaded ⟨hstored,hok⟩
    have huploaded : Fits p.digest raw.length s → uploaded = (s.raw p.digest).isNone :=
      fun hfits => Except.ok.inj (hok hfits).1
    have hremove : ∀ u : UploadStore, u.raw = t.raw →
        Ends env (do removeBlobUploadState p.digest; pure uploaded)
          (fun t r => t.raw = update s.raw p.digest (some ((s.raw p.digest).getD raw)) ∧
            (Fits p.digest raw.length s → r = .ok (s.raw p.digest).isNone)) u := by
      intro u hu
      refine ends_then (ends_remove p.digest) (ends_pure ⟨hu.trans hstored,fun hfits => ?_⟩)
      rw [huploaded hfits]
    split
    · refine ends_bind (fun u r => u.raw = t.raw ∧ (Fits p.digest raw.length t → r = .ok ()))
        ?_ ?_ ?_
      · have hsize : (stateAt p sequence received).rawSizeBytes = raw.length := hd.size.symm
        refine ends_call fun now => ?_
        rw [hsize]
        exact ⟨(storeEncodedVariantEffect_frame now p.digest raw.length stream t).1,
          fun hfits => (storeEncodedVariant_ok hfits now stream).1⟩
      · rintro u a ⟨hu,-⟩
        exact hremove u hu
      · rintro u e ⟨hu,he⟩
        refine ⟨hu.trans hstored,fun hfits => ?_⟩
        cases he (hok hfits).2
    · exact hremove t rfl
  · rintro t e ⟨hstored,hok⟩
    refine ⟨hstored,fun hfits => ?_⟩
    cases (hok hfits).1

theorem ends_storeStream_refused (hd : ∀ raw, ¬Decodes env p stream raw) :
    Ends env (storeStream env p.digest (stateAt p sequence received) stream)
      (fun t r => t = s ∧ ∃ e, r = .error e) s := by
  unfold storeStream
  cases hdecode : decodeStream env p.selectedEncoding stream with
  | error e => exact ends_fail (ends_result hdecode) ⟨rfl,e,rfl⟩
  | ok raw =>
    refine ends_then (ends_result hdecode) ?_
    by_cases hraw : raw.length = p.rawSizeBytes
    · have hdigest : env.sha256 raw ≠ p.digest := fun he => hd raw ⟨hdecode,hraw,he⟩
      rw [if_neg (by simpa [stateAt,SessionParams.fresh] using hraw)]
      refine ends_bind (fun t r => t = s ∧ ∃ e, r = .error e) ?_ ?_ ?_
      · refine ends_call fun now => ?_
        simp only [sessionEffect,storeBlobForDigestEffect]
        rw [if_pos hdigest]
        split
        · exact ⟨rfl,_,rfl⟩
        · exact ⟨rfl,_,rfl⟩
      · rintro t a ⟨-,e,he⟩
        cases he
      · rintro t e ⟨rfl,-⟩
        exact ⟨rfl,e,rfl⟩
    · rw [if_pos (by simpa [stateAt,SessionParams.fresh] using hraw)]
      exact ends_fail (ends_throw ⟨rfl,rfl⟩) ⟨rfl,_,rfl⟩

end Remerge.SteadySessions

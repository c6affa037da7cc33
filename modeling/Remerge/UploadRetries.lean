import Remerge.UploadOutcome

/-!
# Uploads that are tried again

A call of `stream_upload_blob` reconnects after some failures, and
`retry_blob_upload` calls it again after any. What a store is good for is decided
by the files of the blob's session: from some stores every series of attempts
ends with the blob stored, and from all others none does.
-/

set_option autoImplicit false

namespace Remerge.UploadRetries
open StepProgram StagedRuns Interleaving SnapshotTypes SnapshotStore ChunkFrames UploadSessions
open UploadHandler HonestUpload BlobUploadClient SteadySessions UploadDialogue UploadOutcome

variable {env : Codecs} {policy : ChunkPolicy} {s : UploadStore} {bytes : Bytes}

section
variable {call : UploadCall} {post post' : UploadStore → Except Failure Bool → Prop}

theorem uploads_mono (hp : ∀ t r, post t r → post' t r) {left : ℕ}
    (h : Uploads env call post left policy s) : Uploads env call post' left policy s := by
  induction left generalizing policy s with
  | zero => exact h.mono fun d hd => hp _ _ hd
  | succ left ih =>
    refine h.mono fun d hd => ?_
    split at hd
    · next hr =>
      rw [if_pos hr]
      exact ih hd
    · next hr =>
      rw [if_neg hr]
      exact hp _ _ hd

theorem uploads_meet {left : ℕ} (h : Uploads env call post left policy s)
    (h' : Uploads env call post' left policy s) : ∃ t r, post t r ∧ post' t r := by
  induction left generalizing policy s with
  | zero =>
    obtain ⟨d,hd,hd'⟩ := h.meet (dialogueSem_total env call) h'
    exact ⟨_,_,hd,hd'⟩
  | succ left ih =>
    obtain ⟨d,hd,hd'⟩ := h.meet (dialogueSem_total env call) h'
    split at hd
    · next hr =>
      rw [if_pos hr] at hd'
      exact ih hd hd'
    · next hr =>
      rw [if_neg hr] at hd'
      exact ⟨_,_,hd,hd'⟩

theorem uploads_invariant (good : ChunkPolicy → UploadStore → Prop)
    (hreconnect : ∀ policy s, good policy s → good policy.onReconnect s)
    (hpost : ∀ d : Dialogue, good d.connection.policy d.store →
      post d.store (attemptResult call d.connection))
    (hstep : ∀ policy s, good policy s →
      Attempt env call (fun d => good d.connection.policy d.store) policy s)
    (left : ℕ) (h : good policy s) :
    Uploads env call post left policy s := by
  induction left generalizing policy s with
  | zero => exact (hstep policy s h).mono hpost
  | succ left ih =>
    refine (hstep policy s h).mono fun d hd => ?_
    split
    · exact ih (hreconnect _ _ hd)
    · exact hpost d hd

/-- `retry_blob_upload` with so many calls left after this one, each of which
is made under an id of its own. -/
def RetryBlobUpload (env : Codecs) (bytes : Bytes)
    (post : UploadStore → Except Failure Bool → Prop) : ℕ → UploadStore → Prop
  | 0, s => ∀ id, StreamUploadBlob env (uploadCall env id bytes) post s
  | left+1, s => ∀ id, StreamUploadBlob env (uploadCall env id bytes) (fun t r =>
    (∃ u, r = .ok u) ∧ post t r ∨ (∃ e, r = .error e) ∧ RetryBlobUpload env bytes post left t) s

end

theorem decodes_clientStream (env : Codecs) (bytes : Bytes) :
    Decodes env (clientParams env bytes) (clientStream env bytes) bytes := by
  refine ⟨?_,rfl,rfl⟩
  change decodeStream env (clientEncoding env bytes) (clientStream env bytes) = .ok bytes
  unfold clientStream clientEncoding
  cases encodeZstdIfWorthwhile env bytes with
  | none => rfl
  | some compressed =>
    simp [decodeStream,Upload.stream,uploadOf,snapshotBlobEncodingZstd,env.decode_encode]

def NoSession (env : Codecs) (bytes : Bytes) (s : UploadStore) : Prop :=
  s.sessions (env.sha256 bytes) = ⟨none,none⟩

theorem NoSession.staged (h : NoSession env bytes s) : staged env bytes s = [] := by
  rw [UploadOutcome.staged,h]
  rfl

theorem NoSession.loaded (h : NoSession env bytes s) :
    loadedState (clientParams env bytes) s = (clientParams env bytes).fresh := by
  have hs : s.sessions (clientParams env bytes).digest = ⟨none,none⟩ := h
  rw [loadedState,hs]
  rfl

theorem NoSession.filled (h : NoSession env bytes s) :
    filled env bytes s = clientStream env bytes := by
  rw [UploadOutcome.filled,h.staged]
  rfl

theorem NoSession.continues (h : NoSession env bytes s) (hraw : s.raw (env.sha256 bytes) = none) :
    Continues env bytes s := by
  refine ⟨hraw,?_,?_,?_⟩
  · rw [Admits,h.loaded]
    exact checkSession_ok.mpr ⟨rfl,rfl,rfl,rfl⟩
  · rw [h.staged]
    exact Nat.zero_le _
  · rw [h.staged]
    exact .inl rfl

theorem NoSession.sequenceBound (h : NoSession env bytes s) :
    sequenceBound env bytes s = (clientStream env bytes).length := by
  rw [UploadOutcome.sequenceBound,h.loaded,h.staged]
  exact Nat.zero_add _

theorem NoSession.room (h : NoSession env bytes s) (hlen : bytes.length < 256^8) :
    UploadOutcome.sequenceBound env bytes s < 256^8 := by
  rw [h.sequenceBound]
  exact lt_of_le_of_lt (length_clientStream env bytes) hlen

theorem noSession_forgotten (env : Codecs) (bytes : Bytes) (s : UploadStore) :
    NoSession env bytes (forgotten (env.sha256 bytes) s) := by
  simp [NoSession,forgotten,UploadStore.clearState,UploadStore.setPart]

section

/-- What the session holds can be made the blob. A part file that is too long
is thrown away, and only a stream of some bytes is sent again. -/
def Resumable (env : Codecs) (bytes : Bytes) (s : UploadStore) : Prop :=
  Admits (clientParams env bytes) s ∧
    ((clientStream env bytes).length < (staged env bytes s).length ∧ clientStream env bytes ≠ [] ∨
      (staged env bytes s).length ≤ (clientStream env bytes).length ∧
        Aligned (staged env bytes s).length (loadedState (clientParams env bytes) s) ∧
        (clientStream env bytes ≠ [] ∨ (s.sessions (env.sha256 bytes)).part ≠ none) ∧
        decodeStream env (clientEncoding env bytes) (filled env bytes s) = .ok bytes)

def Saveable (env : Codecs) (bytes : Bytes) (s : UploadStore) : Prop :=
  s.raw (env.sha256 bytes) = some bytes ∨ s.raw (env.sha256 bytes) = none ∧ Resumable env bytes s

def Wedged (env : Codecs) (bytes : Bytes) (s : UploadStore) : Prop :=
  (∃ content, s.raw (env.sha256 bytes) = some content ∧ content ≠ bytes) ∨
    s.raw (env.sha256 bytes) = none ∧ sequenceBound env bytes s < 256^8 ∧ ¬Resumable env bytes s

theorem Wedged.raw (h : Wedged env bytes s) : s.raw (env.sha256 bytes) ≠ some bytes := by
  intro hs
  rcases h with ⟨content,hc,hne⟩ | ⟨hnone,-⟩
  · rw [hs] at hc
    exact hne (Option.some.inj hc).symm
  · rw [hs] at hnone
    cases hnone

theorem wedged_of_not_saveable (h : ¬Saveable env bytes s)
    (hroom : sequenceBound env bytes s < 256^8) : Wedged env bytes s := by
  cases hraw : s.raw (env.sha256 bytes) with
  | none => exact .inr ⟨hraw,hroom,fun hr => h (.inr ⟨hraw,hr⟩)⟩
  | some content =>
    refine .inl ⟨content,hraw,?_⟩
    rintro rfl
    exact h (.inl hraw)

theorem wedged_of_empty (hstream : clientStream env bytes = [])
    (hraw : s.raw (env.sha256 bytes) = none) (hroom : sequenceBound env bytes s < 256^8)
    (hpart : (s.sessions (env.sha256 bytes)).part = none) : Wedged env bytes s := by
  refine .inr ⟨hraw,hroom,?_⟩
  rintro ⟨-,⟨-,hne⟩ | ⟨-,-,hfile,-⟩⟩
  · exact hne hstream
  · rcases hfile with hfile | hfile
    · exact hfile hstream
    · exact hfile hpart

variable {t : UploadStore} {sequence : ℕ}

theorem filled_of_at (h : Continues env bytes s)
    (hat : At (clientParams env bytes) (filled env bytes s) sequence t) :
    staged env bytes t = filled env bytes s ∧ filled env bytes t = filled env bytes s ∧
      sequenceBound env bytes t = sequence := by
  have hstaged : staged env bytes t = filled env bytes s := hat.bytes
  have hlength : (filled env bytes s).length = (clientStream env bytes).length := length_filled h
  refine ⟨hstaged,?_,?_⟩
  · rw [filled,hstaged,hlength,List.drop_length,List.append_nil]
  · rw [sequenceBound,hstaged,hlength,hat.loaded,Nat.sub_self]
    rfl

/-- Once filled up with the wrong bytes a session is never the blob's. -/
theorem wedged_of_spoiled (h : Continues env bytes s)
    (hat : At (clientParams env bytes) (filled env bytes s) sequence t)
    (hraw : t.raw (env.sha256 bytes) = none) (hroom : sequence < 256^8)
    (hd : ∀ raw, ¬Decodes env (clientParams env bytes) (filled env bytes s) raw) :
    Wedged env bytes t := by
  obtain ⟨hstaged,hfilled,hbound⟩ := filled_of_at h hat
  have hlength : (filled env bytes s).length = (clientStream env bytes).length := length_filled h
  refine .inr ⟨hraw,hbound ▸ hroom,?_⟩
  rintro ⟨-,⟨hlt,-⟩ | ⟨-,-,-,hdecode⟩⟩
  · rw [hstaged,hlength] at hlt
    exact lt_irrefl _ hlt
  · rw [hfilled] at hdecode
    exact hd bytes ⟨hdecode,rfl,rfl⟩

theorem attempt_wedged (id : Uuid) (hlen : bytes.length < 256^8) (policy : ChunkPolicy)
    (s : UploadStore) (h : policy.Fits ∧ Wedged env bytes s) :
    Attempt env (uploadCall env id bytes)
      (fun d => d.connection.policy.Fits ∧ Wedged env bytes d.store) policy s := by
  obtain ⟨hpolicy,hwedged⟩ := h
  rcases hwedged with ⟨content,hraw,hne⟩ | ⟨hraw,hroom,hres⟩
  · refine (attempt_present hraw).mono ?_
    rintro d ⟨hstore,hp,-⟩
    exact ⟨hp ▸ hpolicy,.inl ⟨content,hstore ▸ hraw,hne⟩⟩
  -- a refused session is left as it is, but for one that is too long
  have hrefused : ∀ {t : UploadStore} {e : Failure},
      prepared (clientParams env bytes) s = (t,.error e) → Wedged env bytes t →
      Attempt env (uploadCall env id bytes)
        (fun d => d.connection.policy.Fits ∧ Wedged env bytes d.store) policy s := by
    intro t e hp ht
    refine (attempt_refused hraw hp).mono ?_
    rintro d ⟨hd,hpol,-⟩
    exact ⟨hpol ▸ hpolicy,hd ▸ ht⟩
  by_cases hadmits : Admits (clientParams env bytes) s
  swap
  · obtain ⟨e,he⟩ := prepared_unadmitted hadmits
    exact hrefused he (.inr ⟨hraw,hroom,hres⟩)
  by_cases hsize : (clientStream env bytes).length < (staged env bytes s).length
  · obtain ⟨e,he⟩ := prepared_exceeds hadmits hsize
    have hempty : clientStream env bytes = [] := by
      by_contra hne
      exact hres ⟨hadmits,.inl ⟨hsize,hne⟩⟩
    have hnone := noSession_forgotten env bytes s
    refine hrefused he (wedged_of_empty hempty hraw (hnone.room hlen) ?_)
    exact congrArg SessionFiles.part hnone
  by_cases hal : Aligned (staged env bytes s).length (loadedState (clientParams env bytes) s)
  swap
  · obtain ⟨e,he⟩ := prepared_unaligned hadmits (not_lt.mp hsize) hal
    exact hrefused he (.inr ⟨hraw,hroom,hres⟩)
  have hcont : Continues env bytes s := ⟨hraw,hadmits,not_lt.mp hsize,hal⟩
  by_cases hfile : clientStream env bytes ≠ [] ∨ (s.sessions (env.sha256 bytes)).part ≠ none
  · by_cases hd : ∃ raw, Decodes env (clientParams env bytes) (filled env bytes s) raw
    · obtain ⟨raw,hd⟩ := hd
      refine (attempt_stored hcont hlen hroom hpolicy hfile hd).mono ?_
      rintro d ⟨hstored,hp,-⟩
      refine ⟨hp,.inl ⟨raw,hstored,?_⟩⟩
      rintro rfl
      exact hres ⟨hadmits,.inr ⟨not_lt.mp hsize,hal,hfile,hd.decoded⟩⟩
    · rw [not_exists] at hd
      refine (attempt_spoiled hcont hlen hroom hpolicy hfile hd).mono ?_
      rintro d ⟨hstore,⟨sequence,hle,hat⟩,hp,-⟩
      exact ⟨hp,wedged_of_spoiled hcont hat (hstore ▸ hraw) (lt_of_le_of_lt hle hroom) hd⟩
  · rw [not_or,not_not,not_not] at hfile
    refine (attempt_missing hcont hlen hroom hpolicy hfile.1 hfile.2).mono ?_
    rintro d ⟨hstore,hpart,⟨sequence,hle,hat⟩,hp,-⟩
    refine ⟨hp,wedged_of_empty hfile.1 (hstore ▸ hraw) ?_ hpart⟩
    rw [(filled_of_at hcont hat).2.2]
    exact lt_of_le_of_lt hle hroom

theorem streamUploadBlob_wedged (id : Uuid) (hlen : bytes.length < 256^8)
    (h : Wedged env bytes s) :
    StreamUploadBlob env (uploadCall env id bytes) (fun t _ => Wedged env bytes t) s :=
  uploads_invariant (fun policy s => policy.Fits ∧ Wedged env bytes s)
    (fun _ _ hg => ⟨hg.1.onReconnect,hg.2⟩) (fun _ hg => hg.2) (attempt_wedged id hlen) _
    ⟨ChunkPolicy.fits_new,h⟩

end

theorem clientStream_eq_nil (hframe : ∀ b, b ≠ [] → env.encodeZstd b ≠ []) :
    clientStream env bytes = [] ↔ bytes = [] := by
  unfold clientStream clientEncoding
  cases h : encodeZstdIfWorthwhile env bytes with
  | none => exact Iff.rfl
  | some compressed =>
    have hne : bytes ≠ [] := by
      rintro rfl
      exact absurd (encodeZstdIfWorthwhile_some h).2 (Nat.not_lt_zero _)
    exact iff_of_false (hframe bytes hne) hne

theorem uploads_of_attempt {call : UploadCall} {post : UploadStore → Except Failure Bool → Prop}
    {left : ℕ} (h : Attempt env call (fun d =>
      (∃ u, attemptResult call d.connection = .ok u) ∧
        post d.store (attemptResult call d.connection)) policy s) :
    Uploads env call post left policy s := by
  cases left with
  | zero => exact h.mono fun d hd => hd.2
  | succ left =>
    refine h.mono ?_
    rintro d ⟨⟨u,hu⟩,hd⟩
    rw [if_neg]
    · exact hd
    · rw [hu]
      simp [shouldRetry]

/-- A blob that the server has nothing of is uploaded, unless it is empty: then
no part file is ever written, and finalizing reads it back. -/
theorem blob_uploaded_iff (env : Codecs) (hframe : ∀ b, b ≠ [] → env.encodeZstd b ≠ [])
    (id : Uuid) (bytes : Bytes) (hlen : bytes.length < 256^8) (s : UploadStore)
    (habsent : s.raw (env.sha256 bytes) = none) (hfits : Fits (env.sha256 bytes) bytes.length s)
    (hfresh : NoSession env bytes s) :
    StreamUploadBlob env (uploadCall env id bytes)
        (fun t r => (∃ uploaded, r = .ok uploaded) ∧ t.raw (env.sha256 bytes) = some bytes) s ↔
      bytes ≠ [] := by
  have hroom := hfresh.room hlen
  have hnil : clientStream env bytes = [] ↔ bytes = [] := clientStream_eq_nil hframe
  rw [ne_eq,← hnil]
  constructor
  · intro h hstream
    have hwedged := wedged_of_empty hstream habsent hroom (congrArg SessionFiles.part hfresh)
    obtain ⟨t,r,⟨-,hstored⟩,ht⟩ := uploads_meet h (streamUploadBlob_wedged id hlen hwedged)
    exact ht.raw hstored
  · intro hstream
    have hd : Decodes env (clientParams env bytes) (filled env bytes s) bytes := by
      rw [hfresh.filled]
      exact decodes_clientStream env bytes
    refine uploads_of_attempt ((attempt_stored (hfresh.continues habsent) hlen hroom
      ChunkPolicy.fits_new (.inl hstream) hd).mono ?_)
    rintro d ⟨hstored,-,hok⟩
    exact ⟨hok hfits,hok hfits,hstored⟩

theorem noSession_emptyStore (env : Codecs) (bytes : Bytes) : NoSession env bytes emptyStore := rfl

theorem sample_blob_uploaded :
    StreamUploadBlob plainCodecs (uploadCall plainCodecs "w" [97,98])
      (fun t r => (∃ uploaded, r = .ok uploaded) ∧
        t.raw (plainCodecs.sha256 [97,98]) = some [97,98]) emptyStore :=
  (blob_uploaded_iff plainCodecs (fun _ h => h) "w" [97,98] (by decide) emptyStore rfl
    (fun _ h => by cases h) (noSession_emptyStore plainCodecs [97,98])).mpr (by decide)

theorem empty_blob_not_uploaded :
    ¬StreamUploadBlob plainCodecs (uploadCall plainCodecs "w" [])
      (fun t r => (∃ uploaded, r = .ok uploaded) ∧
        t.raw (plainCodecs.sha256 []) = some []) emptyStore := by
  intro h
  have hwedged : Wedged plainCodecs [] emptyStore :=
    wedged_of_empty rfl rfl ((noSession_emptyStore plainCodecs []).room (by decide)) rfl
  obtain ⟨t,r,⟨-,hstored⟩,ht⟩ := uploads_meet h (streamUploadBlob_wedged "w" (by decide) hwedged)
  exact ht.raw hstored

def Saves (env : Codecs) (bytes : Bytes) : ℕ → UploadStore → Prop
  | 0, s => s.raw (env.sha256 bytes) = some bytes
  | 1, s => Continues env bytes s ∧ sequenceBound env bytes s < 256^8 ∧
      (clientStream env bytes ≠ [] ∨ (s.sessions (env.sha256 bytes)).part ≠ none) ∧
      decodeStream env (clientEncoding env bytes) (filled env bytes s) = .ok bytes
  | _+2, s => s.raw (env.sha256 bytes) = none ∧ Admits (clientParams env bytes) s ∧
      (clientStream env bytes).length < (staged env bytes s).length ∧ clientStream env bytes ≠ []

theorem saves_of_saveable (h : Saveable env bytes s)
    (hroom : sequenceBound env bytes s < 256^8) : ∃ k ≤ 2, Saves env bytes k s := by
  rcases h with hraw | ⟨hraw,hadmits,⟨hsize,hne⟩ | ⟨hsize,hal,hfile,hdecode⟩⟩
  · exact ⟨0,by omega,hraw⟩
  · exact ⟨2,le_refl 2,hraw,hadmits,hsize,hne⟩
  · exact ⟨1,by omega,⟨hraw,hadmits,hsize,hal⟩,hroom,hfile,hdecode⟩

def Closer (env : Codecs) (bytes : Bytes) (k : ℕ) (t : UploadStore) (r : Except Failure Bool) :
    Prop :=
  (∃ u, r = .ok u) ∧ t.raw (env.sha256 bytes) = some bytes ∨
    (∃ e, r = .error e) ∧ ∃ j < k, Saves env bytes j t

variable {k n : ℕ}

theorem closer_of_stored {t : UploadStore} (r : Except Failure Bool)
    (h : t.raw (env.sha256 bytes) = some bytes) : Closer env bytes (k+1) t r := by
  cases r with
  | ok u => exact .inl ⟨⟨u,rfl⟩,h⟩
  | error e => exact .inr ⟨⟨e,rfl⟩,0,Nat.succ_pos k,h⟩

theorem attempt_saves (id : Uuid) (hlen : bytes.length < 256^8) (hpolicy : policy.Fits)
    (h : Saves env bytes k s) :
    Attempt env (uploadCall env id bytes) (fun d => d.connection.policy.Fits ∧
      Closer env bytes k d.store (attemptResult (uploadCall env id bytes) d.connection))
      policy s := by
  match k, h with
  | 0, h =>
    refine (attempt_present h).mono ?_
    rintro d ⟨hstore,hp,hr⟩
    exact ⟨hp ▸ hpolicy,.inl ⟨⟨false,hr⟩,hstore ▸ h⟩⟩
  | 1, h =>
    obtain ⟨hcont,hroom,hfile,hdecode⟩ := h
    refine (attempt_stored hcont hlen hroom hpolicy hfile ⟨hdecode,rfl,rfl⟩).mono ?_
    rintro d ⟨hstored,hp,-⟩
    exact ⟨hp,closer_of_stored _ hstored⟩
  | k+2, h =>
    obtain ⟨hraw,hadmits,hsize,hne⟩ := h
    obtain ⟨e,he⟩ := prepared_exceeds hadmits hsize
    have hnone := noSession_forgotten env bytes s
    refine (attempt_refused hraw he).mono ?_
    rintro d ⟨hstore,hp,herr⟩
    refine ⟨hp ▸ hpolicy,.inr ⟨herr,1,by omega,?_⟩⟩
    have hsaves : Saves env bytes 1 (forgotten (env.sha256 bytes) s) := by
      refine ⟨hnone.continues hraw,hnone.room hlen,.inl hne,?_⟩
      rw [hnone.filled]
      exact (decodes_clientStream env bytes).decoded
    exact hstore ▸ hsaves

theorem uploads_saves (id : Uuid) (hlen : bytes.length < 256^8) (left : ℕ) (hpolicy : policy.Fits)
    (h : Saves env bytes k s) :
    Uploads env (uploadCall env id bytes) (Closer env bytes k) left policy s := by
  induction left generalizing policy s k with
  | zero => exact (attempt_saves id hlen hpolicy h).mono fun d hd => hd.2
  | succ left ih =>
    refine (attempt_saves id hlen hpolicy h).mono ?_
    rintro d ⟨hp,hd⟩
    split
    · next hr =>
      rcases hd with ⟨⟨u,hu⟩,-⟩ | ⟨-,j,hj,hs⟩
      · rw [hu] at hr
        cases hr
      · refine uploads_mono ?_ (ih hp.onReconnect hs)
        rintro t r (hok | ⟨he,i,hi,ht⟩)
        · exact .inl hok
        · exact .inr ⟨he,i,hi.trans hj,ht⟩
    · exact hd

theorem retryBlobUpload_saves (hlen : bytes.length < 256^8) (hk : k ≤ n) (h : Saves env bytes k s) :
    RetryBlobUpload env bytes (fun t r => (∃ u, r = .ok u) ∧
      t.raw (env.sha256 bytes) = some bytes) n s := by
  induction n generalizing k s with
  | zero =>
    intro id
    refine uploads_mono ?_ (uploads_saves id hlen _ ChunkPolicy.fits_new h)
    rintro t r (hok | ⟨-,j,hj,-⟩)
    · exact hok
    · omega
  | succ n ih =>
    intro id
    refine uploads_mono ?_ (uploads_saves id hlen _ ChunkPolicy.fits_new h)
    rintro t r (hok | ⟨he,j,hj,hs⟩)
    · exact .inl ⟨hok.1,hok⟩
    · exact .inr ⟨he,ih (by omega) hs⟩

theorem not_retryBlobUpload_wedged (hlen : bytes.length < 256^8) (h : Wedged env bytes s) :
    ¬RetryBlobUpload env bytes (fun t r => (∃ u, r = .ok u) ∧
      t.raw (env.sha256 bytes) = some bytes) n s := by
  induction n generalizing s with
  | zero =>
    intro hr
    obtain ⟨t,r,⟨-,hstored⟩,ht⟩ := uploads_meet (hr "") (streamUploadBlob_wedged "" hlen h)
    exact ht.raw hstored
  | succ n ih =>
    intro hr
    obtain ⟨t,r,hnext,ht⟩ := uploads_meet (hr "") (streamUploadBlob_wedged "" hlen h)
    rcases hnext with ⟨-,-,hstored⟩ | ⟨-,hnext⟩
    · exact ht.raw hstored
    · exact ih ht hnext

/-- A client that tries again gets its blob stored exactly if the files of the
session can be made the blob's. No other session is ever given up. -/
theorem digest_saved_iff (env : Codecs) (bytes : Bytes) (hlen : bytes.length < 256^8)
    (s : UploadStore) (hroom : sequenceBound env bytes s < 256^8) :
    (∃ n, RetryBlobUpload env bytes (fun t r => (∃ uploaded, r = .ok uploaded) ∧
      t.raw (env.sha256 bytes) = some bytes) n s) ↔ Saveable env bytes s := by
  constructor
  · rintro ⟨n,hn⟩
    by_contra hs
    exact not_retryBlobUpload_wedged hlen (wedged_of_not_saveable hs hroom) hn
  · intro h
    obtain ⟨k,hk,hs⟩ := saves_of_saveable h hroom
    exact ⟨2,retryBlobUpload_saves hlen hk hs⟩

def halfStore : UploadStore :=
  (emptyStore.setState (stateAt (clientParams plainCodecs [97,98]) 1 1)).setPart
    (plainCodecs.sha256 [97,98]) (some [97])

theorem half_digest_saved :
    ∃ n, RetryBlobUpload plainCodecs [97,98] (fun t r => (∃ uploaded, r = .ok uploaded) ∧
      t.raw (plainCodecs.sha256 [97,98]) = some [97,98]) n halfStore := by
  refine (digest_saved_iff plainCodecs [97,98] (by decide) halfStore (by decide)).mpr ?_
  refine .inr ⟨rfl,checkSession_ok.mpr ⟨rfl,rfl,rfl,rfl⟩,.inr ⟨by decide,.inr ?_,.inl ?_,rfl⟩⟩
  · exact ⟨rfl,rfl,by decide⟩
  · exact List.cons_ne_nil _ _

/-- The server stops between the two files of an append: the chunk is in the
part file, and the record is the one before it. -/
theorem interrupted_append_wedges :
    ∃ P, Reached (uploadSystem plainCodecs) unrestricted ⟨emptyStore,[]⟩ P ∧
      ¬∃ n, RetryBlobUpload plainCodecs [97,98] (fun t r => (∃ uploaded, r = .ok uploaded) ∧
        t.raw (plainCodecs.sha256 [97,98]) = some [97,98]) n P.shared.store := by
  obtain ⟨ls,P,run,hP⟩ := exists_run_of_free_play (uploadSystem plainCodecs)
    (opensSample 0++[hears 0 (sampleChunk 0 0 [97]),.next 0]++acts 0 4)
    ⟨⟨emptyStore,[]⟩,fun _ => none⟩
    (fun _ P => (P.shared.store.raw (plainCodecs.sha256 [97,98])).isNone &&
      P.shared.store.sessions (plainCodecs.sha256 [97,98]) ==
        ⟨some (clientParams plainCodecs [97,98]).fresh,some [97]⟩) (by decide)
  refine ⟨P,reached_run Reached.boot run,?_⟩
  rw [Bool.and_eq_true,Option.isNone_iff_eq_none,beq_iff_eq] at hP
  obtain ⟨hraw,hfiles⟩ := hP
  have hstaged : staged plainCodecs [97,98] P.shared.store = [97] := by
    rw [staged,hfiles]
    rfl
  have hloaded : loadedState (clientParams plainCodecs [97,98]) P.shared.store =
      (clientParams plainCodecs [97,98]).fresh := by
    have hs : P.shared.store.sessions (clientParams plainCodecs [97,98]).digest = _ := hfiles
    rw [loadedState,hs]
    rfl
  have hwedged : Wedged plainCodecs [97,98] P.shared.store := by
    refine .inr ⟨hraw,?_,?_⟩
    · rw [sequenceBound,hloaded,hstaged]
      decide
    · rintro ⟨-,⟨hsize,-⟩ | ⟨-,hal,-⟩⟩
      · rw [hstaged] at hsize
        exact absurd hsize (by decide)
      · rw [hstaged,hloaded] at hal
        rcases hal with hal | ⟨hal,-⟩
        · cases hal
        · cases hal
  rintro ⟨n,hn⟩
  exact not_retryBlobUpload_wedged (by decide) hwedged hn

end Remerge.UploadRetries

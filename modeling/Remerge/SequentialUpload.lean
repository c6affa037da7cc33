import Remerge.SequentialTasks
import Remerge.SessionSafety

/-!
# Resuming an upload on one connection after another

Connections for a digest follow each other and may end at any point, by a lost
reply, a failed file operation or a crash between two file operations. A
preparation or an append that completes leaves the recorded offsets equal to
the length of the part file, which is a beginning of the stream. When the
upload is reported complete, the payload is what is stored.
-/

set_option autoImplicit false

namespace Remerge.SequentialUpload
open StepProgram Interleaving SequentialTasks SnapshotTypes ChunkFrames UploadSessions
open UploadHandler HonestUpload SessionSafety

variable {env : Codecs} (U : Upload env)

section

def Follows (session : BlobUploadSession) (s : UploadStore) : Prop :=
  ∃ encoding, session.params = U.params encoding ∧ session.receivedBytes = (partOf U s).length

def Holds (s : UploadServer) : Option UploadStage → Prop
  | some (.preparing _ params) => Sound U s.store ∧ ∃ encoding, params = U.params encoding
  | some (.prepared _ params resumed) => Sound U s.store ∧ ∃ encoding,
      params = U.params encoding ∧ Recorded U encoding s.store resumed
  | some (.streaming session) => Sound U s.store ∧ Follows U session s.store
  | some (.appending session _ chunk) => Sound U s.store ∧ Follows U session s.store ∧
      chunk <+: (U.stream session.params.selectedEncoding).drop session.receivedBytes
  | some (.appended session _) => Sound U s.store ∧ Follows U session s.store ∧ Exact U s.store
  | some (.finalizing _ digest) => Sound U s.store ∧ digest = U.digest
  | some .accepting => Sound U s.store
  | none => Sound U s.store

/-- An upload is reported complete only when the payload is stored. -/
def Guard (o : UploadOp) (s : UploadServer) : Prop :=
  Sound U s.store ∧ match o with
    | .send (.uploadComplete _ _ _ _) => s.store.raw U.digest = some U.payload
    | _ => True

theorem sound_of_holds {s : UploadServer} {k : Option UploadStage} (h : Holds U s k) :
    Sound U s.store := by
  unfold Holds at h
  split at h <;> first | exact h.1 | exact h

def Stage {α : Type} (k : UploadStage) (p : UploadProg α) (post : UploadServer → α → Prop)
    (s : UploadServer) : Prop :=
  Safely (uploadSem env) (U.Honest k) (Guard U) p post s

variable {U} {k : UploadStage} {s : UploadServer} {α : Type} {post : UploadServer → α → Prop}
  {session : BlobUploadSession}

theorem stage_send {control : ServerControl} {f : Bool → UploadProg α}
    (hg : Guard U (.send control) s)
    (hf : ∀ sent, Stage U k (f sent) post { s with sent := s.sent++[control] }) :
    Stage U k (op (.send control) >>= f) post s := by
  refine ⟨hg,?_⟩
  intro w s' r h _
  cases h
  exact hf _

theorem stage_close {f : Unit → UploadProg α} (hs : Sound U s.store)
    (hf : Stage U k (f ()) post s) :
    Stage U k (op .sendClose >>= f) post s := by
  refine ⟨⟨hs,trivial⟩,?_⟩
  intro w s' r h _
  cases h
  exact hf

theorem stage_receive {f : Received → UploadProg α} (hs : Sound U s.store)
    (hf : ∀ r, U.Honest k .receive r → Stage U k (f r) post s) :
    Stage U k (op .receive >>= f) post s := by
  refine ⟨⟨hs,trivial⟩,?_⟩
  intro w s' r h hr
  cases h
  exact hf _ hr

theorem stage_interpret {p : Prog SessionOp SessionRes α} {mid : UploadStore → α → Prop}
    (hp : Safely (sessionSem env) (fun _ _ => True) (fun _ t => Sound U t) p mid s.store) :
    Stage U k (interpret (fun o => op (.call o)) p)
      (fun s' a => s' = { s with store := s'.store } ∧ mid s'.store a) s := by
  induction p generalizing s with
  | ret a => exact ⟨rfl,hp⟩
  | step o next ih =>
    refine ⟨⟨hp.1,trivial⟩,?_⟩
    intro w s' r h _
    obtain ⟨⟨t,r'⟩,ht,he⟩ := Option.map_eq_some_iff.mp h
    cases he
    have hrest := hp.2 _ _ _ ht trivial
    exact @ih r' ⟨t,s.sent⟩ hrest

theorem stage_onSessions {β : Type} {p : SessionProg α} {f : Except Failure α → UploadProg β}
    {mid : UploadStore → Except Failure α → Prop} {post : UploadServer → β → Prop}
    (hp : Safe U p mid s.store) (hf : ∀ t r, mid t r → Stage U k (f r) post { s with store := t }) :
    Stage U k (onSessions p >>= f) post s := by
  apply safely_seq (stage_interpret hp)
  intro s' r h
  rw [h.1]
  exact hf _ r h.2

theorem stage_error (hs : Sound U s.store) (workorderId : Option Uuid) (digest : Option Digest)
    (code message : String) :
    Stage U k (do sendBlobUploadError workorderId digest code message; pure none) (Holds U) s := by
  apply stage_send ⟨hs,trivial⟩
  intro _
  exact stage_close hs hs

theorem stage_complete (hs : Sound U s.store) (hraw : s.store.raw U.digest = some U.payload)
    (workorderId : Uuid) (uploaded : Bool) :
    Stage U k (sendComplete workorderId U.digest uploaded) (Holds U) s := by
  apply stage_send ⟨hs,hraw⟩
  intro _
  exact stage_close hs hs

theorem stage_open (hs : Sound U s.store) {init : UploadInit} (hd : U.Declares init) :
    Stage U .accepting (openUpload init) (Holds U) s := by
  unfold openUpload
  obtain ⟨hdigest,hsize,hoffer⟩ := hd
  by_cases hv : init.version ≠ snapshotBlobProtocolVersion
  · rw [if_pos hv]
    exact stage_error hs _ _ _ _
  rw [if_neg hv]
  by_cases hchunk : init.chunkSizeBytes ≠ snapshotBlobDefaultChunkSizeBytes
  · rw [if_pos hchunk]
    exact stage_error hs _ _ _ _
  rw [if_neg hchunk]
  split
  · exact stage_error hs _ _ _ _
  · next encoding streamSize hselect =>
    have hparams : (⟨init.digest,init.totalSizeBytes,streamSize,init.chunkSizeBytes,encoding⟩ :
        SessionParams) = U.params encoding := by
      have hstream : streamSize = (U.stream encoding).length := by
        rw [hselect] at hoffer
        exact hoffer
      rw [hdigest,hsize,hstream,not_not.mp hchunk]
      rfl
    rw [hparams,hdigest]
    show Stage U .accepting (onSessions (sessionCall (.hasBlob U.digest)) >>= _) (Holds U) s
    apply stage_onSessions (safe_hasBlob hs)
    rintro t r ⟨rfl,hr⟩
    cases r with
    | error e => exact stage_error hs _ _ _ _
    | ok found =>
      cases found with
      | false => exact ⟨hs,encoding,rfl⟩
      | true =>
        apply stage_onSessions (safe_remove hs)
        exact fun t _ ht => stage_complete ht.1 (ht.2.symm ▸ hr rfl) _ _

theorem stage_accept (hs : Sound U s.store) : Stage U .accepting acceptUpload (Holds U) s := by
  unfold acceptUpload
  apply stage_receive hs
  intro r hr
  split
  · exact stage_open hs hr
  · exact stage_error hs _ _ _ _
  · exact stage_error hs _ _ _ _
  · exact hs
  · exact hs

theorem stage_prepare (hs : Sound U s.store) (workorderId : Uuid) (encoding : Option String) :
    Stage U k (prepareUpload workorderId (U.params encoding)) (Holds U) s := by
  unfold prepareUpload
  apply stage_onSessions (safe_prepare hs encoding)
  intro t r ht
  cases r with
  | ok resumed => exact ⟨ht.1,encoding,rfl,(ht.2 resumed rfl).1⟩
  | error e => exact stage_error ht.1 _ _ _ _

theorem stage_resume (hs : Sound U s.store) (workorderId : Uuid) {encoding : Option String}
    {resumed : PersistedBlobUploadState} (hr : Recorded U encoding s.store resumed) :
    Stage U k (resumeUpload workorderId (U.params encoding) resumed) (Holds U) s := by
  unfold resumeUpload
  by_cases hfull : resumed.receivedBytes = (U.params encoding).streamSizeBytes
  · rw [if_pos hfull]
    exact ⟨hs,rfl⟩
  rw [if_neg hfull]
  apply stage_send ⟨hs,trivial⟩
  intro sent
  split
  · exact hs
  · split
    · exact ⟨hs,rfl⟩
    · exact ⟨hs,encoding,rfl,hr.offset⟩

theorem stage_stream (hs : Sound U s.store) (hf : Follows U session s.store) :
    Stage U (.streaming session) (streamUpload session) (Holds U) s := by
  unfold streamUpload
  apply stage_receive hs
  intro r hr
  split
  · exact hs
  · exact hs
  · exact hs
  · exact ⟨hs,hf⟩
  · exact ⟨hs,hf⟩
  · exact stage_error hs _ _ _ _
  · exact stage_error hs _ _ _ _
  · next header chunk =>
    split
    · exact stage_error hs _ _ _ _
    · next hcheck =>
      have hchunk : chunk <+: (U.stream session.params.selectedEncoding).drop
          header.offsetBytes := hr
      rw [checkChunk_ok hcheck] at hchunk
      exact ⟨hs,hf,hchunk⟩

theorem stage_append (hs : Sound U s.store) (hf : Follows U session s.store) (header : ChunkHeader)
    {chunk : Bytes}
    (hc : chunk <+: (U.stream session.params.selectedEncoding).drop session.receivedBytes) :
    Stage U k (appendUpload session header chunk) (Holds U) s := by
  unfold appendUpload
  obtain ⟨encoding,hparams,hreceived⟩ := hf
  rw [hparams,hreceived] at hc
  rw [hparams]
  apply stage_onSessions (safe_append hs encoding hc)
  intro t r ht
  cases r with
  | error e => exact stage_error ht.1 _ _ _ _
  | ok st =>
    have hrec := (ht.2 st rfl).1
    exact ⟨ht.1,⟨encoding,rfl,hrec.received⟩,exact_of_recorded U ht.1 hrec⟩

theorem stage_acknowledge (hs : Sound U s.store) (hf : Follows U session s.store)
    (header : ChunkHeader) : Stage U k (acknowledge session header) (Holds U) s := by
  unfold acknowledge
  apply stage_send ⟨hs,trivial⟩
  intro sent
  split
  · exact hs
  · split
    · obtain ⟨encoding,hparams,-⟩ := hf
      exact ⟨hs,by rw [hparams]; rfl⟩
    · exact ⟨hs,hf⟩

theorem stage_finalize (hs : Sound U s.store) (workorderId : Uuid) :
    Stage U k (finalizeUpload env workorderId U.digest) (Holds U) s := by
  unfold finalizeUpload
  apply stage_onSessions (safe_finalize hs)
  intro t r ht
  cases r with
  | error e => exact stage_error ht.1 _ _ _ _
  | ok uploaded => exact stage_complete ht.1 (ht.2 uploaded rfl) _ _

theorem stage_body (h : Holds U s (some k)) : Stage U k (stageBody env k) (Holds U) s := by
  cases k with
  | accepting => exact stage_accept h
  | preparing workorderId params =>
    obtain ⟨hs,encoding,rfl⟩ := h
    exact stage_prepare hs workorderId encoding
  | prepared workorderId params resumed =>
    obtain ⟨hs,encoding,rfl,hr⟩ := h
    exact stage_resume hs workorderId hr
  | streaming session => exact stage_stream h.1 h.2
  | appending session header chunk => exact stage_append h.1 h.2.1 header h.2.2
  | appended session header => exact stage_acknowledge h.1 h.2.1 header
  | finalizing workorderId digest =>
    obtain ⟨hs,rfl⟩ := h
    exact stage_finalize hs workorderId

end

def outline : Outline (uploadSystem env) where
  holds := Holds U
  admitted := U.Honest
  guard := Guard U
  opens := by
    intro s k hk h
    cases k <;> first | exact h | cases hk
  proceeds := fun _ _ h => stage_body h
  idle := fun _ _ h => sound_of_holds U h
  idle_of_guard := fun _ _ h => h.1
  solitary := fun _ => rfl

/-- A connection opens when no other one is there, and clients are honest. -/
def oneAfterAnother : Condition UploadStage UploadOp UploadRes UploadServer :=
  fun _ kinds l => match l with
    | .start _ _ => ∀ i, kinds i = none
    | .act _ k o r => U.Honest k o r
    | .next _ _ _ => True

theorem outline_met : (outline U).Met (oneAfterAnother U) where
  alone := fun _ _ _ _ h => h
  admitted := fun _ _ _ _ _ _ h => h

def sessionCompleted : Label UploadStage UploadOp UploadRes → Bool
  | .next _ _ (some (.prepared _ _ _)) => true
  | .next _ _ (some (.appended _ _)) => true
  | _ => false

def answersComplete : Label UploadStage UploadOp UploadRes → Bool
  | .act _ _ (.send (.uploadComplete _ _ _ _)) _ => true
  | _ => false

theorem exact_of_holds {s : UploadServer} {i : ℕ} {k : UploadStage} {k' : Option UploadStage}
    (hc : sessionCompleted (.next i k k')) (h : Holds U s k') : Exact U s.store := by
  cases k' with
  | none => cases hc
  | some k' =>
    cases k' with
    | prepared workorderId params resumed =>
      obtain ⟨hs,encoding,-,hr⟩ := h
      exact exact_of_recorded U hs hr
    | appended session header => exact h.2.2
    | _ => cases hc

/-- A session that starts from nothing and is continued by honest clients, one
connection after another, is exact after each completed preparation and each
completed append, and the upload is reported complete only once the payload is
stored. -/
theorem sequential_upload_exact {s₀ : UploadServer}
    (collisionFree : ∀ c, env.sha256 c = env.sha256 U.payload → c = U.payload)
    (addressed : ∀ c, s₀.store.raw U.digest = some c → env.sha256 c = U.digest)
    (fresh : s₀.store.sessions U.digest = ⟨none,none⟩)
    {P P' : Pool UploadStage UploadOp UploadRes UploadServer}
    {l : Label UploadStage UploadOp UploadRes}
    (reached : Reached (uploadSystem env) (oneAfterAnother U) s₀ P)
    (step : Step (uploadSystem env) P l P') (cond : oneAfterAnother U P.shared P.kinds l) :
    (sessionCompleted l → Exact U P'.shared.store) ∧
      (answersComplete l → P'.shared.store.raw U.digest = some U.payload) := by
  have hstart : Sound U s₀.store :=
    ⟨fun st h => by simp [fresh] at h,fun c h => collisionFree c (addressed c h)⟩
  have halone := (outline U).reached (outline_met U) hstart reached
  have hshown := (halone.step (outline_met U) step cond).2
  constructor
  · intro hc
    cases l with
    | next i k k' => exact exact_of_holds U hc hshown
    | _ => cases hc
  · intro hc
    cases step with
    | start hk free => cases hc
    | next ht => cases hc
    | @act i j k o next w s' r ht hsem free =>
      cases o with
      | send control =>
        cases control with
        | uploadComplete version workorderId digest uploaded =>
          cases hsem
          exact hshown.2
        | _ => cases hc
      | _ => cases hc

def resumedSample : List (Move UploadStage UploadOracle) :=
  opensSample 0++appendsSample 0 (sampleChunk 0 0 [97])++[.act 0 9 { writable := false },.next 0]++
    opensSample 0++appendsSample 0 (sampleChunk 1 1 [98])++acts 0 1++[.next 0]++acts 0 6

def oneAfterAnotherCheck (_ : UploadServer) (kinds : ℕ → Option UploadStage)
    (l : Label UploadStage UploadOp UploadRes) : Bool :=
  match l with
  | .start _ _ => (List.range 10).all fun i => (kinds i).isNone
  | .act _ k o r => decide (sampleUpload.Honest k o r)
  | .next _ _ _ => true

theorem oneAfterAnother_of_check (s : UploadServer) (kinds : ℕ → Option UploadStage)
    (l : Label UploadStage UploadOp UploadRes) (free : ∀ i, 10 ≤ i → kinds i = none)
    (h : oneAfterAnotherCheck s kinds l) : oneAfterAnother sampleUpload s kinds l := by
  cases l with
  | start j k =>
    intro i
    by_cases hi : 10 ≤ i
    · exact free i hi
    · have hall := List.all_eq_true.mp h i (List.mem_range.mpr (by omega))
      exact Option.isNone_iff_eq_none.mp hall
  | act i k o r =>
    have hr : sampleUpload.Honest k o r := of_decide_eq_true h
    exact hr
  | next i k k' => trivial

theorem sampleUpload_collisionFree (c : Bytes)
    (h : plainCodecs.sha256 c = plainCodecs.sha256 sampleUpload.payload) :
    c = sampleUpload.payload := by
  change sampleSha256 c = sampleSha256 [97,98] at h
  unfold sampleSha256 at h
  split at h
  · rfl
  all_goals exact absurd h (by decide)

theorem resumed_upload_stored :
    ∃ P l P', Reached (uploadSystem plainCodecs) (oneAfterAnother sampleUpload) ⟨emptyStore,[]⟩ P ∧
      Step (uploadSystem plainCodecs) P l P' ∧ answersComplete l ∧
      P'.shared.store.raw sampleUpload.digest = some [97,98] := by
  obtain ⟨ls,P,l,P',run,step,cond,hl⟩ := exists_step_of_play (uploadSystem plainCodecs)
    oneAfterAnother_of_check resumedSample (.act 0 9 {}) ⟨⟨emptyStore,[]⟩,fun _ => none⟩
    (by decide) (fun _ _ => rfl) (fun _ => answersComplete) (by decide +kernel)
  have reached := reached_run (Reached.boot) run
  have hexact := sequential_upload_exact sampleUpload sampleUpload_collisionFree
    (fun c h => by cases h) rfl reached step cond
  exact ⟨P,l,P',reached,step,hl,hexact.2 hl⟩

end Remerge.SequentialUpload

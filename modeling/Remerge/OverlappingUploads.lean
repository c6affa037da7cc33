import Remerge.SessionSafety

/-!
# Connections that overlap

Connections for one digest share the files of its session, and each keeps its
own record of how far the stream has come. `transitions` says how the stages of
a connection follow each other and what the handler carries along. A chunk
passes the check against the connection's own offset and is then appended
wherever the part file ends. As long as the two agree at every append, the part
file stays a beginning of the stream under any interleaving.
-/

set_option autoImplicit false

namespace Remerge.OverlappingUploads
open StepProgram Interleaving SnapshotTypes ChunkFrames UploadSessions UploadHandler HonestUpload
open SessionSafety

variable {k : UploadStage} {last : Option Received}

def mayAppend (digest : Digest) (chunk : Bytes) : UploadStage → Prop
  | .appending session _ payload => digest = session.params.digest ∧ chunk = payload
  | _ => False

def stageAllows (k : UploadStage) : UploadOp → Prop
  | .call (.appendPart digest chunk) => mayAppend digest chunk k
  | _ => True

def heard (last : Option Received) : (o : UploadOp) → UploadRes o → Option Received
  | .receive, r => some r
  | _, _ => last

def leadsTo (last : Option Received) : UploadStage → UploadStage → Prop
  | .accepting, .preparing _ params => ∃ init encoding size,
      last = some (some (.ok (.text (.ok init)))) ∧
      selectUploadEncoding init.totalSizeBytes init.capabilityFlags init.offeredEncodings =
        .ok (encoding,size) ∧
      params = ⟨init.digest,init.totalSizeBytes,size,snapshotBlobDefaultChunkSizeBytes,encoding⟩
  | .preparing _ params, .prepared _ params' _ => params' = params
  | .prepared _ params _, .streaming session => session.params = params
  | .prepared _ _ _, .finalizing _ _ => True
  | .streaming session, .streaming session' => session' = session
  | .streaming session, .appending session' header chunk => session' = session ∧
      last = some (some (.ok (.binary (.ok (header,chunk))))) ∧
      header.offsetBytes = session.receivedBytes
  | .appending session _ _, .appended session' _ => session'.params = session.params
  | .appended session _, .streaming session' => session' = session
  | .appended _ _, .finalizing _ _ => True
  | _, _ => False

def transitions : Discipline UploadStage UploadOp UploadRes (Option Received) where
  monitor := fun k => ⟨fun _ => stageAllows k,heard⟩
  init := fun _ => none
  final := fun k last k' => ∀ next, k' = some next → leadsTo last k next

section

def Only {α : Type} (ok : SessionOp → Prop) (p : SessionProg α) : Prop :=
  Conforms (⟨fun _ => ok,fun _ _ _ => ()⟩ : Monitor SessionOp SessionRes Unit)
    (fun _ _ => True) () (outcome p)

variable {ok : SessionOp → Prop} {α β : Type} {p : SessionProg α}

theorem only_bind {f : α → SessionProg β} (hp : Only ok p) (hf : ∀ a, Only ok (f a)) :
    Only ok (p >>= f) := by
  unfold Only
  rw [outcome_bind]
  apply conforms_bind hp
  intro _ r _
  cases r with
  | ok a => exact hf a
  | error e => trivial

theorem only_pure (r : Except Failure α) : Only ok (ExceptT.mk (pure r) : SessionProg α) := trivial

theorem only_call {o : SessionOp} (h : ok o) : Only ok (sessionCall o) := ⟨h,fun _ => trivial⟩

def readsOrReplaces : SessionOp → Prop
  | .appendPart _ _ => False
  | _ => True

theorem only_remove (h : ∀ o, readsOrReplaces o → ok o) (digest : Digest) :
    Only ok (removeBlobUploadState digest) :=
  only_bind (only_call (h _ trivial)) fun _ => only_call (h _ trivial)

theorem only_partLength (h : ∀ o, readsOrReplaces o → ok o) (digest : Digest) :
    Only ok (partLength digest) := by
  refine ⟨h _ trivial,fun r => ?_⟩
  cases r with
  | ok n => trivial
  | error e =>
    show Conforms _ _ _ (if e.isNotFoundError = true then _ else _)
    split <;> trivial

theorem only_prepare (h : ∀ o, readsOrReplaces o → ok o) (params : SessionParams) :
    Only ok (prepareBlobUploadSession params) := by
  unfold prepareBlobUploadSession
  apply only_bind
  · exact only_call (h _ trivial)
  intro loaded
  apply only_bind (only_pure _)
  intro _
  apply only_bind (only_partLength h _)
  intro received
  dsimp only
  split
  · apply only_bind (only_remove h _)
    exact fun _ => only_pure _
  · apply only_bind (only_pure _)
    intro state
    exact only_bind (only_call (h _ trivial)) fun _ => only_pure _

theorem only_append (h : ∀ o, readsOrReplaces o → ok o) {params : SessionParams} {chunk : Bytes}
    (happend : ok (.appendPart params.digest chunk)) :
    Only ok (appendBlobUploadChunk params chunk) := by
  unfold appendBlobUploadChunk
  apply only_bind (only_prepare h params)
  intro state
  dsimp only
  split
  · exact only_pure _
  · split
    · exact only_pure _
    · apply only_bind (only_call happend)
      intro _
      exact only_bind (only_call (h _ trivial)) fun _ => only_pure _

theorem only_finalize (h : ∀ o, readsOrReplaces o → ok o) (env : Codecs) (digest : Digest) :
    Only ok (finalizeBlobUploadSession env digest) := by
  have hrelease : ∀ uploaded : Bool, Only ok (do removeBlobUploadState digest; pure uploaded) :=
    fun uploaded => only_bind (only_remove h digest) fun _ => only_pure _
  unfold finalizeBlobUploadSession loadSession storeStream
  apply only_bind
  · apply only_bind
    · exact only_call (h _ trivial)
    intro loaded
    cases loaded with
    | none | some state => exact only_pure _
  intro state
  apply only_bind (only_partLength h digest)
  intro received
  dsimp only
  split
  · exact only_pure _
  · apply only_bind
    · exact only_call (h _ trivial)
    intro stream
    apply only_bind (only_pure _)
    intro raw
    split
    · exact only_pure _
    · apply only_bind
      · exact only_call (h _ trivial)
      intro uploaded
      split
      · exact only_bind (only_call (h _ trivial)) fun _ => hrelease uploaded
      · exact hrelease uploaded

theorem conforms_onSessions {f : Except Failure α → UploadProg (Option UploadStage)}
    (hp : Only (fun o => stageAllows k (.call o)) p)
    (hf : ∀ r, Conforms (transitions.monitor k) (transitions.final k) last (f r)) :
    Conforms (transitions.monitor k) (transitions.final k) last (onSessions p >>= f) := by
  unfold Only at hp
  unfold onSessions
  generalize outcome p = q at hp
  induction q with
  | ret r => exact hf r
  | step o next ih => exact ⟨hp.1,fun r => ih r (hp.2 r)⟩

theorem conforms_done : Conforms (transitions.monitor k) (transitions.final k) last (.ret none) :=
  fun _ h => by cases h

theorem conforms_error (workorderId : Option Uuid) (digest : Option Digest)
    (code message : String) : Conforms (transitions.monitor k) (transitions.final k) last
      (do sendBlobUploadError workorderId digest code message; pure none) :=
  ⟨trivial,fun _ => ⟨trivial,fun _ => conforms_done⟩⟩

theorem conforms_complete (workorderId : Uuid) (digest : Digest) (uploaded : Bool) :
    Conforms (transitions.monitor k) (transitions.final k) last
      (sendComplete workorderId digest uploaded) :=
  ⟨trivial,fun _ => ⟨trivial,fun _ => conforms_done⟩⟩

theorem conforms_next {next : UploadStage} (h : leadsTo last k next) :
    Conforms (transitions.monitor k) (transitions.final k) last (.ret (some next)) :=
  fun _ he => Option.some.inj he ▸ h

theorem stageAllows_of_readsOrReplaces (k : UploadStage) (o : SessionOp)
    (h : readsOrReplaces o) : stageAllows k (.call o) := by
  cases o <;> trivial

theorem conforms_open (init : UploadInit) :
    Conforms (transitions.monitor .accepting) (transitions.final .accepting)
      (some (some (.ok (.text (.ok init))))) (openUpload init) := by
  unfold openUpload
  by_cases hv : init.version ≠ snapshotBlobProtocolVersion
  · rw [if_pos hv]
    exact conforms_error _ _ _ _
  rw [if_neg hv]
  by_cases hchunk : init.chunkSizeBytes ≠ snapshotBlobDefaultChunkSizeBytes
  · rw [if_pos hchunk]
    exact conforms_error _ _ _ _
  rw [if_neg hchunk]
  split
  · exact conforms_error _ _ _ _
  · next encoding size hselect =>
    refine ⟨trivial,fun r => ?_⟩
    cases r with
    | error e => exact conforms_error _ _ _ _
    | ok found =>
      cases found with
      | true =>
        apply conforms_onSessions (only_remove (stageAllows_of_readsOrReplaces _) _)
        exact fun _ => conforms_complete _ _ _
      | false =>
        apply conforms_next
        exact ⟨init,encoding,size,rfl,hselect,by rw [not_not.mp hchunk]⟩

theorem conforms_stream (session : BlobUploadSession) :
    Conforms (transitions.monitor (.streaming session)) (transitions.final (.streaming session))
      none (streamUpload session) := by
  refine ⟨trivial,fun r => ?_⟩
  cases r with
  | none => exact conforms_done
  | some received =>
    cases received with
    | error e => exact conforms_done
    | ok message =>
      cases message with
      | close => exact conforms_done
      | ping | pong => exact conforms_next rfl
      | text init => exact conforms_error _ _ _ _
      | binary frame =>
        cases frame with
        | error e => exact conforms_error _ _ _ _
        | ok frame =>
          dsimp only [Prog.bind]
          split
          · exact conforms_error _ _ _ _
          · next hcheck => exact conforms_next ⟨rfl,rfl,checkChunk_ok hcheck⟩

theorem transitions_obeyed (env : Codecs) : Obeys (uploadSystem env) transitions := by
  intro k
  have hplain := stageAllows_of_readsOrReplaces k
  cases k with
  | accepting =>
    refine ⟨trivial,fun r => ?_⟩
    match r with
    | some (.ok (.text (.ok init))) => exact conforms_open init
    | some (.ok (.text (.error _))) | some (.ok (.binary _)) | some (.ok .ping)
    | some (.ok .pong) | some (.ok .close) => exact conforms_error _ _ _ _
    | some (.error _) | none => exact conforms_done
  | preparing workorderId params =>
    apply conforms_onSessions (only_prepare hplain params)
    intro r
    cases r with
    | ok resumed => exact conforms_next rfl
    | error e => exact conforms_error _ _ _ _
  | prepared workorderId params resumed =>
    show Conforms _ _ _ (resumeUpload workorderId params resumed)
    unfold resumeUpload
    split
    · exact conforms_next trivial
    · refine ⟨trivial,fun sent => ?_⟩
      show Conforms _ _ _ (if sent = false then _ else _)
      split
      · exact conforms_done
      · split
        · exact conforms_next trivial
        · exact conforms_next rfl
  | streaming session => exact conforms_stream session
  | appending session header chunk =>
    apply conforms_onSessions (only_append hplain ⟨rfl,rfl⟩)
    intro r
    cases r with
    | ok persisted => exact conforms_next rfl
    | error e => exact conforms_error _ _ _ _
  | appended session header =>
    refine ⟨trivial,fun sent => ?_⟩
    show Conforms _ _ _ (if sent = false then _ else _)
    split
    · exact conforms_done
    · split
      · exact conforms_next trivial
      · exact conforms_next rfl
  | finalizing workorderId digest =>
    apply conforms_onSessions (only_finalize hplain env digest)
    intro r
    cases r with
    | ok uploaded => exact conforms_complete _ _ _
    | error e => exact conforms_error _ _ _ _

end

variable {env : Codecs} (U : Upload env) (encoding : Option String)

/-- All clients have the server select the same stream. -/
def Selects : Received → Prop
  | some (.ok (.text (.ok init))) => ∀ selected size,
      selectUploadEncoding init.totalSizeBytes init.capabilityFlags init.offeredEncodings =
        .ok (selected,size) → selected = encoding
  | _ => True

def honestly : Condition UploadStage UploadOp UploadRes UploadServer :=
  fun _ _ l => match l with
    | .act _ .accepting .receive r => U.Opens r ∧ Selects encoding r
    | .act _ (.streaming _) .receive r => U.Continues encoding r
    | _ => True

def inPlace : Condition UploadStage UploadOp UploadRes UploadServer :=
  fun s _ l => match l with
    | .act _ (.appending session _ _) (.call (.appendPart _ _)) _ =>
      (partOf U s.store).length = session.receivedBytes
    | _ => True

def Carries (last : Option Received) : UploadStage → Prop
  | .accepting => ∀ r, last = some r → U.Opens r ∧ Selects encoding r
  | .preparing _ params => params = U.params encoding
  | .prepared _ params _ => params = U.params encoding
  | .streaming session => session.params = U.params encoding ∧
      ∀ r, last = some r → U.Continues encoding r
  | .appending session _ chunk => session.params = U.params encoding ∧
      chunk <+: (U.stream encoding).drop session.receivedBytes
  | .appended session _ => session.params = U.params encoding
  | .finalizing _ _ => True

variable {U encoding}

theorem carries_next {next : UploadStage} (h : Carries U encoding last k)
    (hn : leadsTo last k next) :
    Carries U encoding none next := by
  cases k with
  | accepting =>
    cases next with
    | preparing workorderId params =>
      obtain ⟨init,selected,size,rfl,hselect,rfl⟩ := hn
      obtain ⟨⟨hdigest,hsize,hagrees⟩,hselects⟩ := h _ rfl
      have hstream : size = (U.stream selected).length := by
        rw [hselect] at hagrees
        exact hagrees
      have hsame : selected = encoding := hselects _ _ hselect
      show (⟨init.digest,init.totalSizeBytes,size,_,selected⟩ : SessionParams) = _
      rw [hdigest,hsize,hstream,hsame]
      rfl
    | _ => cases hn
  | preparing workorderId params =>
    cases next with
    | prepared workorderId' params' resumed => exact hn.trans h
    | _ => cases hn
  | prepared workorderId params resumed =>
    cases next with
    | streaming session => exact ⟨hn.trans h,fun r hr => by cases hr⟩
    | finalizing workorderId' digest => trivial
    | _ => cases hn
  | streaming session =>
    cases next with
    | streaming session' =>
      cases hn
      exact ⟨h.1,fun r hr => by cases hr⟩
    | appending session' header chunk =>
      obtain ⟨rfl,rfl,hoffset⟩ := hn
      have hchunk : chunk <+: (U.stream encoding).drop header.offsetBytes := h.2 _ rfl
      exact ⟨h.1,hoffset ▸ hchunk⟩
    | _ => cases hn
  | appending session header chunk =>
    cases next with
    | appended session' header' => exact hn.trans h.1
    | _ => cases hn
  | appended session header =>
    cases next with
    | streaming session' =>
      cases hn
      exact ⟨h,fun r hr => by cases hr⟩
    | finalizing workorderId digest => trivial
    | _ => cases hn
  | finalizing workorderId digest => cases hn

variable {o : UploadOp} {r : UploadRes o} {s : UploadStore} {kinds : ℕ → Option UploadStage}
  {i : ℕ}

theorem carries_heard {s : UploadServer} (h : Carries U encoding last k)
    (hc : honestly U encoding s kinds (.act i k o r)) : Carries U encoding (heard last o r) k := by
  cases o with
  | receive =>
    cases k with
    | accepting => exact fun r' hr => Option.some.inj hr ▸ hc
    | streaming session => exact ⟨h.1,fun r' hr => Option.some.inj hr ▸ hc⟩
    | _ => exact h
  | _ => exact h

theorem partOf_setPart (digest : Digest) (part : Option Bytes) :
    partOf U (s.setPart digest part) =
      if U.digest = digest then part.getD [] else partOf U s := by
  unfold partOf UploadStore.setPart
  by_cases hd : U.digest = digest
  · subst hd
    simp
  · simp [hd]

theorem partOf_sessionSem {o : SessionOp} {w : SessionOracle} {s' : UploadStore} {r : SessionRes o}
    (h : sessionSem env o w s = some (s',r)) :
    partOf U s' = partOf U s ∨ partOf U s' = [] ∨
      ∃ chunk, o = .appendPart U.digest chunk ∧ partOf U s' = partOf U s++chunk := by
  have hsame : ∀ t : UploadStore, t.sessions = s.sessions → partOf U t = partOf U s := by
    intro t ht
    unfold partOf
    rw [ht]
  unfold sessionSem at h
  cases hw : w.fault with
  | some e =>
    simp only [hw,Option.ite_none_left_eq_some,Option.some.injEq,Prod.mk.injEq] at h
    exact Or.inl (by rw [← h.2.1])
  | none =>
    simp only [hw,Option.some.injEq] at h
    have hs' : s' = (sessionEffect env w.time s o).1 := by rw [h]
    subst hs'
    cases o with
    | persistState state => exact Or.inl (partOf_setState state)
    | removeState digest =>
      apply Or.inl
      show partOf U (s.clearState digest) = _
      unfold partOf UploadStore.clearState
      by_cases hd : U.digest = digest
      · subst hd
        simp
      · simp [Function.update_of_ne hd]
    | removePart digest =>
      show partOf U (s.setPart digest none) = _ ∨ partOf U (s.setPart digest none) = [] ∨ _
      rw [partOf_setPart]
      split
      · exact Or.inr (Or.inl rfl)
      · exact Or.inl rfl
    | appendPart digest chunk =>
      show partOf U (s.setPart digest _) = _ ∨ _ ∨ ∃ c, _ ∧ partOf U (s.setPart digest _) = _
      rw [partOf_setPart]
      split
      · next hd =>
        subst hd
        exact Or.inr (Or.inr ⟨chunk,rfl,rfl⟩)
      · exact Or.inl rfl
    | storeBlobForDigest digest bytes =>
      exact Or.inl (hsame _ (storeBlobForDigestEffect_frame env w.time digest bytes s).1)
    | storeEncodedVariant digest size bytes =>
      exact Or.inl (hsame _ (storeEncodedVariantEffect_frame w.time digest size bytes s).2)
    | _ => exact Or.inl rfl

/-- The part file is a beginning of the stream, and every connection carries
parts of the same stream. -/
def Begun (U : Upload env) (encoding : Option String) (s : UploadServer)
    (g : Ghost UploadStage (Option Received)) : Prop :=
  partOf U s.store <+: U.stream encoding ∧
    ∀ i k last, g i = some (k,last) → Carries U encoding last k

theorem begun_act {s s' : UploadServer} {w : UploadOracle}
    (hp : partOf U s.store <+: U.stream encoding) (hk : Carries U encoding last k)
    (allowed : stageAllows k o) (hs : uploadSem env o w s = some (s',r))
    (hc : inPlace U s kinds (.act i k o r)) : partOf U s'.store <+: U.stream encoding := by
  cases o with
  | receive | send control | sendClose =>
    cases hs
    exact hp
  | call o =>
    obtain ⟨⟨t,r'⟩,ht,he⟩ := Option.map_eq_some_iff.mp hs
    cases he
    rcases partOf_sessionSem (U := U) ht with hsame | hempty | ⟨chunk,rfl,happend⟩
    · exact hsame.symm ▸ hp
    · show partOf U t <+: _
      simp [hempty]
    · cases k with
      | appending session header payload =>
        obtain ⟨-,rfl⟩ := allowed
        have hlen : (partOf U s.store).length = session.receivedBytes := hc
        show partOf U t <+: _
        rw [happend]
        exact begun_append hp (hlen ▸ hk.2)
      | _ => cases allowed

theorem begun_keeps (s : UploadServer) (g : Ghost UploadStage (Option Received))
    (l : Label UploadStage UploadOp UploadRes) (s' : UploadServer)
    (g' : Ghost UploadStage (Option Received)) (h : Begun U encoding s g)
    (hs : GhostStep (uploadSystem env) transitions s g l s' g')
    (hc : honestly U encoding s g.kinds l ∧ inPlace U s g.kinds l) : Begun U encoding s' g' := by
  cases hs with
  | @start _ k j hk free =>
    refine ⟨h.1,fun x k' last hx => ?_⟩
    rcases update_some hx with ⟨-,he⟩ | ⟨-,he⟩
    · cases he
      cases k with
      | accepting => exact fun r hr => by cases hr
      | _ => cases hk
    · exact h.2 x k' last he
  | @act _ _ i j k last o r w ht allowed hsem free =>
    refine ⟨begun_act h.1 (h.2 i k last ht) allowed hsem hc.2,fun x k' last' hx => ?_⟩
    have hx : Function.update g i (some (k,heard last o r)) x = some (k',last') := hx
    rcases update_some hx with ⟨-,he⟩ | ⟨-,he⟩
    · cases he
      exact carries_heard (h.2 i k last ht) hc.1
    · exact h.2 x k' last' he
  | @next _ i k last k' ht ends =>
    refine ⟨h.1,fun x k'' last' hx => ?_⟩
    rcases update_some hx with ⟨-,he⟩ | ⟨-,he⟩
    · cases k' with
      | none => cases he
      | some next =>
        cases he
        exact carries_next (h.2 i k last ht) (ends k'' rfl)
    · exact h.2 x k'' last' he

/-- With overlapping connections of honest clients the part file is a beginning
of the stream at every moment, as long as every chunk is appended while the
part file ends at the connection's own offset. -/
theorem overlapping_part_begun (U : Upload env) (encoding : Option String) {s₀ : UploadServer}
    (fresh : partOf U s₀.store = []) {P : Pool UploadStage UploadOp UploadRes UploadServer}
    (reached : Reached (uploadSystem env)
      (fun s kinds l => honestly U encoding s kinds l ∧ inPlace U s kinds l) s₀ P) :
    partOf U P.shared.store <+: U.stream encoding := by
  have hstart : Begun U encoding s₀ (fun _ => none) :=
    ⟨by simp [fresh],fun i k last h => by cases h⟩
  obtain ⟨g,-,hg⟩ := reached_invariant (transitions_obeyed env) (Begun U encoding) begun_keeps
    (fun s g h => ⟨h.1,fun i k last he => by cases he⟩) hstart reached
  exact hg.1

def selectsRaw : Received → Bool
  | some (.ok (.text (.ok init))) => match selectUploadEncoding init.totalSizeBytes
      init.capabilityFlags init.offeredEncodings with
    | .ok (selected,_) => selected.isNone
    | .error _ => true
  | _ => true

def honestlyCheck (_ : UploadServer) (_ : ℕ → Option UploadStage)
    (l : Label UploadStage UploadOp UploadRes) : Bool :=
  match l with
  | .act _ .accepting .receive r => decide (sampleUpload.Opens r) && selectsRaw r
  | .act _ (.streaming _) .receive r => decide (sampleUpload.Continues none r)
  | _ => true

def inPlaceCheck (s : UploadServer) (_ : ℕ → Option UploadStage)
    (l : Label UploadStage UploadOp UploadRes) : Bool :=
  match l with
  | .act _ (.appending session _ _) (.call (.appendPart _ _)) _ =>
    (partOf sampleUpload s.store).length == session.receivedBytes
  | _ => true

theorem selects_of_selectsRaw {r : Received} (h : selectsRaw r) : Selects none r := by
  unfold Selects
  split
  · next init =>
    intro selected size hselect
    simpa [selectsRaw,hselect] using h
  · trivial

theorem honestly_of_check (s : UploadServer) (kinds : ℕ → Option UploadStage)
    (l : Label UploadStage UploadOp UploadRes) (h : honestlyCheck s kinds l) :
    honestly sampleUpload none s kinds l := by
  unfold honestlyCheck at h
  unfold honestly
  split at h
  · simp only [Bool.and_eq_true,decide_eq_true_eq] at h
    exact ⟨h.1,selects_of_selectsRaw h.2⟩
  · exact of_decide_eq_true h
  · trivial

theorem inPlace_of_check (s : UploadServer) (kinds : ℕ → Option UploadStage)
    (l : Label UploadStage UploadOp UploadRes) (h : inPlaceCheck s kinds l) :
    inPlace sampleUpload s kinds l := by
  unfold inPlaceCheck at h
  unfold inPlace
  split at h
  · exact beq_iff_eq.mp h
  · trivial

/-- The second connection resumes after the first chunk and sends the rest. -/
theorem overlapping_rest_begun :
    ∃ P, Reached (uploadSystem plainCodecs)
        (fun s kinds l => honestly sampleUpload none s kinds l ∧ inPlace sampleUpload s kinds l)
        ⟨emptyStore,[]⟩ P ∧
      (P.tasks 0).isSome ∧ (P.tasks 1).isSome ∧
      partOf sampleUpload P.shared.store = [97,98] ∧
      partOf sampleUpload P.shared.store <+: sampleUpload.stream none := by
  have hcheck : ∀ s kinds l, (honestlyCheck s kinds l && inPlaceCheck s kinds l) →
      honestly sampleUpload none s kinds l ∧ inPlace sampleUpload s kinds l := by
    intro s kinds l h
    obtain ⟨hh,hi⟩ := Bool.and_eq_true_iff.mp h
    exact ⟨honestly_of_check s kinds l hh,inPlace_of_check s kinds l hi⟩
  obtain ⟨ls,P,run,hP⟩ := exists_run_of_play (uploadSystem plainCodecs) hcheck
    (opensSample 0++appendsSample 0 (sampleChunk 0 0 [97])++
      opensSample 1++appendsSample 1 (sampleChunk 1 1 [98])) ⟨⟨emptyStore,[]⟩,fun _ => none⟩
    (fun _ P => (P.tasks 0).isSome && (P.tasks 1).isSome &&
      partOf sampleUpload P.shared.store == [97,98]) (by decide)
  have reached := reached_run Reached.boot run
  simp only [Bool.and_eq_true,beq_iff_eq] at hP
  exact ⟨P,reached,hP.1.1,hP.1.2,hP.2,overlapping_part_begun sampleUpload none rfl reached⟩

/-- Both connections are told to start at the beginning, and the server appends
the first chunk of each. -/
theorem overlapping_chunk_appended_twice :
    ∃ P, Reached (uploadSystem plainCodecs) (honestly sampleUpload none) ⟨emptyStore,[]⟩ P ∧
      ¬ partOf sampleUpload P.shared.store <+: sampleUpload.stream none := by
  obtain ⟨ls,P,run,hP⟩ := exists_run_of_play (uploadSystem plainCodecs) honestly_of_check
    (opensSample 0++opensSample 1++appendsSample 0 (sampleChunk 0 0 [97])++
      appendsSample 1 (sampleChunk 0 0 [97])) ⟨⟨emptyStore,[]⟩,fun _ => none⟩
    (fun _ P => partOf sampleUpload P.shared.store == [97,97]) (by decide)
  refine ⟨P,reached_run Reached.boot run,?_⟩
  rw [beq_iff_eq.mp hP]
  decide

end Remerge.OverlappingUploads

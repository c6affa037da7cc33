import Remerge.HonestUpload

/-!
# Session functions on a sound session

A session is sound while its part file is a beginning of the stream that its
state was opened for, and the blob, if stored, is the payload. The session
functions keep that at every file operation, whichever of them fail. Those that
succeed return what they have recorded, with offsets that agree with the part
file, and a finalized session has stored the payload.
-/

set_option autoImplicit false

namespace Remerge.SessionSafety
open StepProgram SnapshotTypes SnapshotStore ChunkFrames UploadSessions UploadHandler HonestUpload

variable {s : UploadStore} {st : PersistedBlobUploadState} {env : Codecs} (U : Upload env)

def partOf (s : UploadStore) : Bytes := (s.sessions U.digest).part.getD []

structure Sound (s : UploadStore) : Prop where
  session : ∀ st, (s.sessions U.digest).state = some st →
    st.streamSizeBytes = (U.stream st.selectedEncoding).length ∧
      partOf U s <+: U.stream st.selectedEncoding
  stored : ∀ c, s.raw U.digest = some c → c = U.payload

structure Recorded (encoding : Option String) (s : UploadStore) (st : PersistedBlobUploadState) :
    Prop where
  state : (s.sessions U.digest).state = some st
  encoded : st.selectedEncoding = encoding
  received : st.receivedBytes = (partOf U s).length
  offset : st.nextOffsetBytes = (partOf U s).length

def Exact (s : UploadStore) : Prop :=
  ∃ st, (s.sessions U.digest).state = some st ∧
    partOf U s <+: U.stream st.selectedEncoding ∧
    (partOf U s).length = st.receivedBytes ∧ (partOf U s).length = st.nextOffsetBytes

theorem exact_of_recorded {encoding : Option String} (hs : Sound U s)
    (h : Recorded U encoding s st) :
    Exact U s :=
  ⟨st,h.state,(hs.session st h.state).2,h.received.symm,h.offset.symm⟩

section

def Safe {α : Type} (p : SessionProg α) (post : UploadStore → Except Failure α → Prop)
    (s : UploadStore) : Prop :=
  Safely (sessionSem env) (fun _ _ => True) (fun _ t => Sound U t) (outcome p) post s

variable {U}

theorem safe_bind {α β : Type} {p : SessionProg α} {f : α → SessionProg β}
    (mid : UploadStore → Except Failure α → Prop) {post : UploadStore → Except Failure β → Prop}
    (hp : Safe U p mid s) (hok : ∀ t a, mid t (.ok a) → Safe U (f a) post t)
    (herr : ∀ t e, mid t (.error e) → post t (.error e)) : Safe U (p >>= f) post s := by
  unfold Safe
  rw [outcome_bind]
  apply safely_seq hp
  intro t r hr
  cases r with
  | ok a => exact hok t a hr
  | error e => exact herr t e hr

theorem safe_call {o : SessionOp} {post : UploadStore → SessionRes o → Prop} (hs : Sound U s)
    (fault : ∀ e, e.isNotFoundError = false → post s (.error e))
    (effect : ∀ now, post (sessionEffect env now s o).1 (sessionEffect env now s o).2) :
    Safely (sessionSem env) (fun _ _ => True) (fun _ t => Sound U t) (perform o) post s := by
  refine ⟨hs,?_⟩
  intro w s' r h _
  unfold sessionSem at h
  cases hw : w.fault with
  | none =>
    simp only [hw,Option.some.injEq] at h
    have he := effect w.time
    rw [h] at he
    exact he
  | some e =>
    simp only [hw] at h
    split at h
    · cases h
    · next hn =>
      simp only [Option.some.injEq,Prod.mk.injEq] at h
      rw [← h.1,← h.2]
      exact fault e (by simpa using hn)

theorem sound_setState (hs : Sound U s) (hd : st.digest = U.digest)
    (hsize : st.streamSizeBytes = (U.stream st.selectedEncoding).length)
    (hpart : partOf U s <+: U.stream st.selectedEncoding) : Sound U (s.setState st) where
  session := by
    intro st' h
    simp only [UploadStore.setState,hd,Function.update_self,Option.some.injEq] at h
    subst h
    refine ⟨hsize,?_⟩
    simpa [partOf,UploadStore.setState,hd] using hpart
  stored := hs.stored

theorem partOf_setState (st : PersistedBlobUploadState) :
    partOf U (s.setState st) = partOf U s := by
  unfold partOf UploadStore.setState
  by_cases hd : U.digest = st.digest
  · simp [← hd]
  · simp [Function.update_of_ne hd]

theorem sound_clearState (hs : Sound U s) : Sound U (s.clearState U.digest) where
  session := by
    intro st h
    simp [UploadStore.clearState] at h
  stored := hs.stored

theorem sound_dropPart (hs : Sound U s) : Sound U (s.setPart U.digest none) where
  session := by
    intro st h
    have hst : (s.sessions U.digest).state = some st := by
      simpa [UploadStore.setPart] using h
    exact ⟨(hs.session st hst).1,by simp [partOf,UploadStore.setPart]⟩
  stored := hs.stored

theorem safe_remove (hs : Sound U s) :
    Safe U (removeBlobUploadState U.digest) (fun t _ => Sound U t ∧ t.raw = s.raw) s := by
  unfold removeBlobUploadState
  apply safe_bind (fun t _ => Sound U t ∧ t.raw = s.raw)
  · exact safe_call hs (fun e _ => ⟨hs,rfl⟩) fun _ => ⟨sound_clearState hs,rfl⟩
  · intro t _ ht
    exact safe_call ht.1 (fun e _ => ht) fun _ => ⟨sound_dropPart ht.1,ht.2⟩
  · exact fun t e ht => ht

theorem safe_partLength (hs : Sound U s) :
    Safe U (partLength U.digest)
      (fun t r => t = s ∧ ∀ n, r = .ok n → n = (partOf U s).length) s := by
  unfold Safe partLength
  rw [outcome_mk]
  -- What the answer of `stat` says about the part file.
  let found (r : SessionRes (.statPart U.digest)) : Prop := match r with
    | .ok n => n = (partOf U s).length
    | .error e => e.isNotFoundError → partOf U s = []
  have hstat : Safely (sessionSem env) (fun _ _ => True) (fun _ t => Sound U t)
      (perform (.statPart U.digest)) (fun t r => t = s ∧ found r) s := by
    apply safe_call hs
    · intro e he
      exact ⟨rfl,fun h => absurd h (by simp [he])⟩
    · intro now
      cases hp : (s.sessions U.digest).part with
      | none | some b => exact ⟨rfl,by simp [found,sessionEffect,partOf,hp]⟩
  apply safely_seq hstat
  intro t r h
  obtain ⟨rfl,hr⟩ := h
  cases r with
  | ok n => exact ⟨rfl,fun m hm => Except.ok.inj hm ▸ hr⟩
  | error e =>
    dsimp only
    split
    · next he => exact ⟨rfl,fun m hm => by simp [← Except.ok.inj hm,hr he]⟩
    · exact ⟨rfl,fun m hm => by cases hm⟩

end

variable {U} {encoding : Option String} {t : UploadStore} {chunk : Bytes}

/-- The state a preparation goes on with, loaded or fresh, once it has passed
the checks and agrees with the part file. -/
theorem aligned_part (hs : Sound U s) {loaded : Option PersistedBlobUploadState}
    (hl : loaded = (s.sessions U.digest).state)
    (hc : checkSession (U.params encoding) (loaded.getD (U.params encoding).fresh) = .ok ())
    (ha : alignState (partOf U s).length (loaded.getD (U.params encoding).fresh) = .ok st) :
    st.digest = U.digest ∧ st.streamSizeBytes = (U.stream encoding).length ∧
      st.selectedEncoding = encoding ∧ partOf U s <+: U.stream encoding := by
  have hfields := checkSession_ok.mp hc
  have halign := alignState_ok ha
  have hsame : st.streamSizeBytes = (U.stream encoding).length ∧
      st.selectedEncoding = encoding := by
    rw [halign.1]
    exact ⟨hfields.2.1,hfields.2.2.2⟩
  have hdigest : st.digest = (loaded.getD (U.params encoding).fresh).digest := by
    rw [halign.1]
  cases loaded with
  | none =>
    -- A fresh state records no bytes, so the part file is empty.
    have hempty : partOf U s = [] := by
      by_contra hne
      have hlen : (partOf U s).length ≠ 0 := fun h => hne (List.length_eq_zero_iff.mp h)
      have h0 := (halign.2 hlen).1
      exact hlen h0.symm
    exact ⟨hdigest,hsame.1,hsame.2,by simp [hempty]⟩
  | some old =>
    have hold := hs.session old hl.symm
    have henc : old.selectedEncoding = encoding := hfields.2.2.2
    rw [henc] at hold
    exact ⟨hdigest.trans (s.named _ _ hl.symm),hsame.1,hsame.2,hold.2⟩

def Returns (U : Upload env) (encoding : Option String) (part : Bytes) (t : UploadStore)
    (r : Except Failure PersistedBlobUploadState) : Prop :=
  Sound U t ∧ ∀ st, r = .ok st → Recorded U encoding t st ∧ partOf U t = part

theorem returns_error (ht : Sound U t) (encoding : Option String) (part : Bytes) (e : Failure) :
    Returns U encoding part t (.error e) :=
  ⟨ht,fun st h => by cases h⟩

theorem safe_persist (hs : Sound U s) (hd : st.digest = U.digest)
    (hsize : st.streamSizeBytes = (U.stream encoding).length)
    (henc : st.selectedEncoding = encoding) (hpart : partOf U s <+: U.stream encoding)
    (hreceived : st.receivedBytes = (partOf U s).length)
    (hoffset : st.nextOffsetBytes = (partOf U s).length) :
    Safe U (do sessionCall (.persistState st); pure st) (Returns U encoding (partOf U s)) s := by
  have hsame : partOf U (s.setState st) = partOf U s := partOf_setState st
  have hwritten : Returns U encoding (partOf U s) (s.setState st) (.ok st) := by
    refine ⟨sound_setState hs hd (henc ▸ hsize) (henc ▸ hpart),?_⟩
    rintro st' h
    cases h
    exact ⟨⟨by simp [UploadStore.setState,hd],henc,hsame.symm ▸ hreceived,
      hsame.symm ▸ hoffset⟩,hsame⟩
  apply safe_bind (fun t r => Returns U encoding (partOf U s) t (r.map fun _ => st))
  · exact safe_call hs (fun e _ => returns_error hs encoding _ e) fun _ => hwritten
  · exact fun t _ ht => ht
  · exact fun t e ht => ht

theorem safe_prepare (hs : Sound U s) (encoding : Option String) :
    Safe U (prepareBlobUploadSession (U.params encoding)) (Returns U encoding (partOf U s)) s := by
  unfold prepareBlobUploadSession
  have hfail : ∀ t e, t = s → Returns U encoding (partOf U s) t (.error e) := by
    rintro t e rfl
    exact returns_error hs encoding _ e
  apply safe_bind (fun t r => t = s ∧ ∀ l, r = .ok l → l = (s.sessions U.digest).state)
  · exact safe_call hs (fun e _ => ⟨rfl,fun l h => by cases h⟩)
      fun _ => ⟨rfl,fun l h => (Except.ok.inj h).symm⟩
  · rintro t loaded ⟨rfl,hl⟩
    have hloaded := hl loaded rfl
    apply safe_bind (fun u r => u = t ∧ r = checkSession (U.params encoding)
      (loaded.getD (U.params encoding).fresh))
    · exact ⟨rfl,rfl⟩
    · rintro u a ⟨rfl,hc⟩
      apply safe_bind _ (safe_partLength hs)
      · rintro v n ⟨rfl,hn⟩
        have hlen := hn n rfl
        subst hlen
        split
        · -- The part file is longer than the stream: the session is dropped.
          apply safe_bind _ (safe_remove hs)
          · exact fun x _ hx => returns_error hx.1 encoding _ _
          · exact fun x e hx => returns_error hx.1 encoding _ e
        · apply safe_bind (fun u r => u = v ∧ r = alignState (partOf U v).length
            (loaded.getD (U.params encoding).fresh))
          · exact ⟨rfl,rfl⟩
          · rintro u st ⟨rfl,ha⟩
            have hst := aligned_part hs hloaded hc.symm ha.symm
            have hoffsets := (alignState_ok ha.symm).1
            apply safe_persist hs hst.1 hst.2.1 hst.2.2.1 hst.2.2.2
            · rw [hoffsets]
            · rw [hoffsets]
          · exact fun u e hu => hfail u e hu.1
      · exact fun v e hv => hfail v e hv.1
    · exact fun u e hu => hfail u e hu.1
  · exact fun t e ht => hfail t e ht.1

theorem begun_append {part stream : Bytes} (hp : part <+: stream)
    (hc : chunk <+: stream.drop part.length) : part++chunk <+: stream := by
  obtain ⟨rest,rfl⟩ := hp
  rw [List.drop_left] at hc
  exact (List.prefix_append_right_inj part).mpr hc

theorem sound_appendPart (hs : Sound U s) (hr : Recorded U encoding s st)
    (hc : chunk <+: (U.stream encoding).drop (partOf U s).length) :
    Sound U (s.setPart U.digest (some (partOf U s++chunk))) where
  session := by
    intro st' h
    have hst : (s.sessions U.digest).state = some st' := by
      simpa [UploadStore.setPart] using h
    have he : st' = st := Option.some.inj (hst.symm.trans hr.state)
    subst he
    have hbegun := hs.session _ hst
    rw [hr.encoded] at hbegun ⊢
    refine ⟨hbegun.1,?_⟩
    simpa [partOf,UploadStore.setPart] using begun_append hbegun.2 hc
  stored := hs.stored

theorem safe_append (hs : Sound U s) (encoding : Option String)
    (hc : chunk <+: (U.stream encoding).drop (partOf U s).length) :
    Safe U (appendBlobUploadChunk (U.params encoding) chunk)
      (Returns U encoding (partOf U s++chunk)) s := by
  unfold appendBlobUploadChunk
  apply safe_bind _ (safe_prepare hs encoding)
  · rintro t st ⟨ht,hret⟩
    obtain ⟨hrec,hpart⟩ := hret st rfl
    dsimp only
    split
    · exact returns_error ht encoding _ _
    · split
      · exact returns_error ht encoding _ _
      · apply safe_bind (fun u r =>
          u = if r.isOk then t.setPart U.digest (some (partOf U t++chunk)) else t)
        · exact safe_call ht (fun e _ => rfl) fun _ => rfl
        · intro u a (hu : u = t.setPart U.digest (some (partOf U t++chunk)))
          have hsound : Sound U u := hu ▸ sound_appendPart ht hrec (hpart ▸ hc)
          have hgrown : partOf U u = partOf U t++chunk := by
            simp [hu,partOf,UploadStore.setPart]
          have hsession := ht.session st hrec.state
          rw [hrec.encoded] at hsession
          have hlen : st.receivedBytes+chunk.length = (partOf U u).length := by
            rw [hgrown,List.length_append,hrec.received]
          have hbegun : partOf U u <+: U.stream encoding :=
            hgrown.symm ▸ begun_append hsession.2 (hpart ▸ hc)
          rw [← hpart,← hgrown]
          exact safe_persist hsound (t.named U.digest st hrec.state) hsession.1 hrec.encoded
            hbegun hlen hlen
        · rintro u e rfl
          exact returns_error ht encoding _ e
  · rintro t e ⟨ht,-⟩
    exact returns_error ht encoding _ e

theorem sound_of_sessions (hs : Sound U s) (hsessions : t.sessions = s.sessions)
    (hraw : ∀ c, t.raw U.digest = some c → c = U.payload) : Sound U t where
  session := by
    unfold partOf
    rw [hsessions]
    exact hs.session
  stored := hraw

theorem safe_loadSession (hs : Sound U s) :
    Safe U (loadSession U.digest)
      (fun t r => t = s ∧ ∀ st, r = .ok st → (s.sessions U.digest).state = some st) s := by
  unfold loadSession
  apply safe_bind (fun t r => t = s ∧ ∀ l, r = .ok l → l = (s.sessions U.digest).state)
  · exact safe_call hs (fun e _ => ⟨rfl,fun l h => by cases h⟩)
      fun _ => ⟨rfl,fun l h => (Except.ok.inj h).symm⟩
  · rintro t loaded ⟨rfl,hl⟩
    cases loaded with
    | none => exact ⟨rfl,fun st h => by cases h⟩
    | some st => exact ⟨rfl,fun st' h => Except.ok.inj h ▸ (hl _ rfl).symm⟩
  · exact fun t e ht => ⟨ht.1,fun st h => by cases h⟩

theorem safe_readPart (hs : Sound U s) :
    Safe U (sessionCall (.readPart U.digest))
      (fun t r => t = s ∧ ∀ b, r = .ok b → b = partOf U s) s := by
  apply safe_call hs
  · exact fun e _ => ⟨rfl,fun b h => by cases h⟩
  · intro now
    refine ⟨rfl,fun b h => ?_⟩
    cases hp : (s.sessions U.digest).part with
    | none => simp [sessionEffect,hp] at h
    | some c => simpa [sessionEffect,partOf,hp,eq_comm] using h

theorem safe_hasBlob (hs : Sound U s) :
    Safe U (sessionCall (.hasBlob U.digest))
      (fun t r => t = s ∧ (r = .ok true → s.raw U.digest = some U.payload)) s := by
  apply safe_call hs
  · exact fun e _ => ⟨rfl,fun h => by cases h⟩
  · intro now
    refine ⟨rfl,fun h => ?_⟩
    have hvalid : validDigest U.digest := env.sha256_valid U.payload
    cases hraw : s.raw U.digest with
    | none => simp [sessionEffect,hvalid,hraw] at h
    | some c => rw [hs.stored c hraw]

theorem safe_storeBlob (hs : Sound U s) :
    Safe U (sessionCall (.storeBlobForDigest U.digest U.payload))
      (fun t r => Sound U t ∧ ∀ u, r = .ok u → t.raw U.digest = some U.payload) s := by
  have hkept : (s.raw U.digest).getD U.payload = U.payload := by
    cases hraw : s.raw U.digest with
    | none => rfl
    | some c => exact hs.stored c hraw
  apply safe_call hs
  · exact fun e _ => ⟨hs,fun u h => by cases h⟩
  · intro now
    have hframe := storeBlobForDigestEffect_frame env now U.digest U.payload s
    rcases hframe.2 with ⟨e,he⟩ | ⟨-,hraw⟩
    · exact ⟨by simpa [sessionEffect,he] using hs,fun u h => by simp [sessionEffect,he] at h⟩
    · rw [hkept] at hraw
      have hnow : (storeBlobForDigestEffect env now U.digest U.payload s).1.raw U.digest =
          some U.payload := by
        rw [hraw,Function.update_self]
      exact ⟨sound_of_sessions hs hframe.1 fun c h => (Option.some.inj (hnow.symm.trans h)).symm,
        fun _ _ => hnow⟩

theorem safe_storeEncoded (hs : Sound U s) (size : ℕ) (bytes : Bytes) :
    Safe U (sessionCall (.storeEncodedVariant U.digest size bytes))
      (fun t _ => Sound U t ∧ t.raw = s.raw) s := by
  apply safe_call hs
  · exact fun e _ => ⟨hs,rfl⟩
  · intro now
    have hframe := storeEncodedVariantEffect_frame now U.digest size bytes s
    refine ⟨sound_of_sessions hs hframe.2 ?_,hframe.1⟩
    intro c h
    exact hs.stored c (hframe.1 ▸ h)

def Finalized (U : Upload env) (t : UploadStore) (r : Except Failure Bool) : Prop :=
  Sound U t ∧ ∀ u, r = .ok u → t.raw U.digest = some U.payload

theorem finalized_error (ht : Sound U t) (e : Failure) :
    Finalized U t (.error e) := ⟨ht,fun u h => by cases h⟩

theorem safe_release (hs : Sound U s) (hraw : s.raw U.digest = some U.payload)
    (uploaded : Bool) :
    Safe U (do removeBlobUploadState U.digest; pure uploaded) (Finalized U) s := by
  apply safe_bind _ (safe_remove hs)
  · exact fun t _ ht => ⟨ht.1,fun _ _ => ht.2.symm ▸ hraw⟩
  · exact fun t e ht => finalized_error ht.1 e

theorem safe_storeStream (hs : Sound U s) (st : PersistedBlobUploadState) :
    Safe U (storeStream env U.digest st (U.stream st.selectedEncoding)) (Finalized U) s := by
  unfold storeStream
  apply safe_bind (fun t r => t = s ∧ r = decodeStream env st.selectedEncoding
    (U.stream st.selectedEncoding))
  · exact ⟨rfl,rfl⟩
  · rintro t raw ⟨rfl,hraw⟩
    have hpayload := U.decodeStream_stream hraw.symm
    subst hpayload
    dsimp only
    by_cases hsize : U.payload.length ≠ st.rawSizeBytes
    · rw [if_pos hsize]
      exact finalized_error hs _
    · rw [if_neg hsize]
      apply safe_bind _ (safe_storeBlob hs)
      · rintro u uploaded ⟨hu,hstored⟩
        have hstored := hstored uploaded rfl
        by_cases hzstd : st.selectedEncoding = some snapshotBlobEncodingZstd
        · rw [if_pos hzstd]
          apply safe_bind _ (safe_storeEncoded hu _ _)
          · exact fun v _ hv => safe_release hv.1 (hv.2.symm ▸ hstored) uploaded
          · exact fun v e hv => finalized_error hv.1 e
        · rw [if_neg hzstd]
          exact safe_release hu hstored uploaded
      · exact fun u e hu => finalized_error hu.1 e
  · rintro t e ⟨rfl,-⟩
    exact finalized_error hs e

theorem safe_finalize (hs : Sound U s) :
    Safe U (finalizeBlobUploadSession env U.digest) (Finalized U) s := by
  unfold finalizeBlobUploadSession
  have hfail : ∀ t e, t = s → Finalized U t (.error e) := by
    rintro t e rfl
    exact finalized_error hs e
  apply safe_bind _ (safe_loadSession hs)
  · rintro t st ⟨rfl,hst⟩
    have hsession := hs.session st (hst st rfl)
    apply safe_bind _ (safe_partLength hs)
    · rintro u n ⟨rfl,hn⟩
      have hlen := hn n rfl
      dsimp only
      by_cases hfull : n ≠ st.streamSizeBytes
      · rw [if_pos hfull]
        exact finalized_error hs _
      · rw [if_neg hfull]
        -- All bytes are there, so the part file is the stream.
        have hpart : partOf U u = U.stream st.selectedEncoding := by
          apply hsession.2.eq_of_length
          rw [← hlen,not_not.mp hfull,hsession.1]
        apply safe_bind _ (safe_readPart hs)
        · rintro v b ⟨rfl,hb⟩
          rw [hb b rfl,hpart]
          exact safe_storeStream hs st
        · exact fun v e hv => hfail v e hv.1
    · exact fun u e hu => hfail u e hu.1
  · exact fun t e ht => hfail t e ht.1

end Remerge.SessionSafety

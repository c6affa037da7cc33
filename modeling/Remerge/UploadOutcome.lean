import Remerge.UploadDialogue

/-!
# What uploads come to

The files of a session decide what an attempt to upload a blob comes to. A
session of other parameters, or one whose record and part file disagree, is
refused and stays as it is. Any other is filled up with the rest of the stream,
and what it then holds either is the blob or fails the same way each time.
-/

set_option autoImplicit false

namespace Remerge.UploadOutcome
open StepProgram StagedRuns SnapshotTypes SnapshotStore ChunkFrames UploadSessions UploadHandler
open HonestUpload BlobUploadClient SteadySessions UploadDialogue

variable {env : Codecs} {id : Uuid} {bytes : Bytes} {s : UploadStore} {policy : ChunkPolicy}

def staged (env : Codecs) (bytes : Bytes) (s : UploadStore) : Bytes :=
  (s.sessions (env.sha256 bytes)).part.getD []

def filled (env : Codecs) (bytes : Bytes) (s : UploadStore) : Bytes :=
  staged env bytes s++(clientStream env bytes).drop (staged env bytes s).length

structure Continues (env : Codecs) (bytes : Bytes) (s : UploadStore) : Prop where
  absent : s.raw (env.sha256 bytes) = none
  admits : Admits (clientParams env bytes) s
  size : (staged env bytes s).length ≤ (clientStream env bytes).length
  aligned : Aligned (staged env bytes s).length (loadedState (clientParams env bytes) s)

def sequenceBound (env : Codecs) (bytes : Bytes) (s : UploadStore) : ℕ :=
  (loadedState (clientParams env bytes) s).nextSequence+
    ((clientStream env bytes).length-(staged env bytes s).length)

variable {post : Dialogue → Prop}

theorem attempt_continued (h : Continues env bytes s)
    (hlen : bytes.length < 256^8) (hseq : sequenceBound env bytes s < 256^8)
    (hpolicy : policy.Fits)
    (hfinal : ∀ t c sequence, AwaitsEnd c → c.policy.Fits → sequence ≤ sequenceBound env bytes s →
      At (clientParams env bytes) (filled env bytes s) sequence t → blobs t = blobs s →
      ((t.sessions (env.sha256 bytes)).part = (s.sessions (env.sha256 bytes)).part ∨
        (staged env bytes s).length < (clientStream env bytes).length ∧
        (t.sessions (env.sha256 bytes)).part = some (filled env bytes s)) →
      Concludes (dialogueSem env (uploadCall env id bytes)) (stageBody env) post
        (some (.finalizing id (env.sha256 bytes))) ⟨t,c,[]⟩) :
    Attempt env (uploadCall env id bytes) post policy s := by
  obtain ⟨sequence,hle,hp,hat⟩ := prepared_aligned h.admits h.size h.aligned
  have hprepare : Ends env (prepareBlobUploadSession (clientParams env bytes)) _ s :=
    ends_prepare (clientParams env bytes)
  rw [hp] at hprepare
  refine attempt_absent h.absent (concludes_stage (after_onSessions hprepare ?_))
  rintro t r ⟨rfl,rfl⟩
  refine concludes_prepared hlen hpolicy hat h.size hseq (Nat.add_le_add_right hle _) ?_
  intro t c sequence' hc hfits hbound hat' hb hpart
  refine hfinal t c sequence' hc hfits hbound hat' hb (hpart.imp_left fun hpart => ?_)
  exact hpart.trans (part_setState (clientParams env bytes) s sequence _)

theorem concludes_finalizing {c : Connection} (hc : AwaitsEnd c)
    {mid : UploadStore → Except Failure Bool → Prop}
    (hend : Ends env (finalizeBlobUploadSession env (env.sha256 bytes)) mid s)
    (hok : ∀ d u, mid d.store (.ok u) → d.connection.policy = c.policy →
      attemptResult (uploadCall env id bytes) d.connection = .ok u → post d)
    (herr : ∀ d e, mid d.store (.error e) → d.connection.policy = c.policy →
      (∃ e, attemptResult (uploadCall env id bytes) d.connection = .error e) → post d) :
    Concludes (dialogueSem env (uploadCall env id bytes)) (stageBody env) post
      (some (.finalizing id (env.sha256 bytes))) ⟨s,c,[]⟩ := by
  refine concludes_stage (after_onSessions hend ?_)
  intro t r hr
  cases r with
  | ok u =>
    have hdone : ∀ d : Dialogue, d.store = t → d.connection.policy = c.policy →
        attemptResult (uploadCall env id bytes) d.connection = .ok u →
        Concludes (dialogueSem env (uploadCall env id bytes)) (stageBody env) post none d := by
      intro d hd hp hres
      subst hd
      exact .ended (hok d u hr hp hres)
    exact after_sendComplete hc hdone
  | error e =>
    refine after_reject hc.waits fun d hd hp hres => .ended (herr d e ?_ hp hres)
    rw [hd]
    exact hr

theorem length_filled (h : Continues env bytes s) :
    (filled env bytes s).length = (clientParams env bytes).streamSizeBytes := by
  have hsize := h.size
  change _ = (clientStream env bytes).length
  rw [filled,List.length_append,List.length_drop]
  omega

theorem part_filled {t : UploadStore} {sequence : ℕ} (hfile : clientStream env bytes ≠ [] ∨
      (s.sessions (env.sha256 bytes)).part ≠ none) (h : Continues env bytes s)
    (hat : At (clientParams env bytes) (filled env bytes s) sequence t)
    (hpart : (t.sessions (env.sha256 bytes)).part = (s.sessions (env.sha256 bytes)).part ∨
      (staged env bytes s).length < (clientStream env bytes).length ∧
      (t.sessions (env.sha256 bytes)).part = some (filled env bytes s)) :
    (t.sessions (env.sha256 bytes)).part = some (filled env bytes s) := by
  have hbytes : (t.sessions (env.sha256 bytes)).part.getD [] = filled env bytes s := hat.bytes
  cases ht : (t.sessions (env.sha256 bytes)).part with
  | some part =>
    rw [ht] at hbytes
    exact congrArg some hbytes
  | none =>
    exfalso
    rw [ht] at hbytes hpart
    rcases hpart with hpart | ⟨-,hpart⟩
    · have hempty : (clientStream env bytes).length = 0 := by
        have hlength := length_filled h
        rw [← hbytes] at hlength
        exact hlength.symm
      rcases hfile with hfile | hfile
      · exact hfile (List.eq_nil_of_length_eq_zero hempty)
      · exact hfile hpart.symm
    · cases hpart

theorem attempt_stored (h : Continues env bytes s) (hlen : bytes.length < 256^8)
    (hseq : sequenceBound env bytes s < 256^8) (hpolicy : policy.Fits)
    (hfile : clientStream env bytes ≠ [] ∨ (s.sessions (env.sha256 bytes)).part ≠ none)
    {raw : Bytes} (hd : Decodes env (clientParams env bytes) (filled env bytes s) raw) :
    Attempt env (uploadCall env id bytes) (fun d => d.store.raw (env.sha256 bytes) = some raw ∧
      d.connection.policy.Fits ∧ (Fits (env.sha256 bytes) raw.length s → ∃ u,
        attemptResult (uploadCall env id bytes) d.connection = .ok u)) policy s := by
  refine attempt_continued h hlen hseq hpolicy fun t c sequence hc hfits hle hat hb hpart => ?_
  have hraw : t.raw = s.raw := congrArg Prod.fst hb
  have hmeta : t.metadata = s.metadata := congrArg (fun b => b.2.1) hb
  have hnone : t.raw (clientParams env bytes).digest = none := by
    rw [hraw]
    exact h.absent
  have hunique : ∀ content, t.raw (clientParams env bytes).digest = some content →
      content.length = raw.length := by
    intro content hcontent
    rw [hnone] at hcontent
    cases hcontent
  have hfinalize := ends_finalize_read hat (length_filled h) (part_filled hfile h hat hpart)
    (ends_storeStream hd hunique)
  rw [hnone] at hfinalize
  refine concludes_finalizing hc hfinalize ?_ ?_
  · rintro d u ⟨hstored,-⟩ hp hres
    refine ⟨?_,hp ▸ hfits,fun _ => ⟨u,hres⟩⟩
    rw [hstored]
    exact Function.update_self _ _ _
  · rintro d e ⟨hstored,hok⟩ hp -
    refine ⟨?_,hp ▸ hfits,fun hf => ?_⟩
    · rw [hstored]
      exact Function.update_self _ _ _
    · have hft : Fits (clientParams env bytes).digest raw.length t := by
        intro metadata hm
        rw [hmeta] at hm
        exact hf metadata hm
      cases hok hft

theorem attempt_missing (h : Continues env bytes s) (hlen : bytes.length < 256^8)
    (hseq : sequenceBound env bytes s < 256^8) (hpolicy : policy.Fits)
    (hstream : clientStream env bytes = []) (hpart : (s.sessions (env.sha256 bytes)).part = none) :
    Attempt env (uploadCall env id bytes) (fun d => d.store.raw = s.raw ∧
      (d.store.sessions (env.sha256 bytes)).part = none ∧
      (∃ sequence ≤ sequenceBound env bytes s,
        At (clientParams env bytes) (filled env bytes s) sequence d.store) ∧
      d.connection.policy.Fits ∧
      ∃ e, attemptResult (uploadCall env id bytes) d.connection = .error e) policy s := by
  refine attempt_continued h hlen hseq hpolicy fun t c sequence hc hfits hle hat hb hfile => ?_
  have hnone : (t.sessions (clientParams env bytes).digest).part = none := by
    rcases hfile with hfile | ⟨hlt,-⟩
    · exact hfile.trans hpart
    · rw [hstream] at hlt
      cases hlt
  refine concludes_finalizing hc (ends_finalize_missing hat (length_filled h) hnone) ?_ ?_
  · rintro d u ⟨-,e,he⟩
    cases he
  · rintro d e ⟨hd,-⟩ hp hres
    refine ⟨?_,?_,⟨sequence,hle,?_⟩,hp ▸ hfits,hres⟩
    · rw [hd]
      exact congrArg Prod.fst hb
    · rw [hd]
      exact hnone
    · rw [hd]
      exact hat

theorem attempt_spoiled (h : Continues env bytes s) (hlen : bytes.length < 256^8)
    (hseq : sequenceBound env bytes s < 256^8) (hpolicy : policy.Fits)
    (hfile : clientStream env bytes ≠ [] ∨ (s.sessions (env.sha256 bytes)).part ≠ none)
    (hd : ∀ raw, ¬Decodes env (clientParams env bytes) (filled env bytes s) raw) :
    Attempt env (uploadCall env id bytes) (fun d => d.store.raw = s.raw ∧
      (∃ sequence ≤ sequenceBound env bytes s,
        At (clientParams env bytes) (filled env bytes s) sequence d.store) ∧
      d.connection.policy.Fits ∧
      ∃ e, attemptResult (uploadCall env id bytes) d.connection = .error e) policy s := by
  refine attempt_continued h hlen hseq hpolicy fun t c sequence hc hfits hle hat hb hpart => ?_
  have hfinalize := ends_finalize_read hat (length_filled h) (part_filled hfile h hat hpart)
    (ends_storeStream_refused hd)
  refine concludes_finalizing hc hfinalize ?_ ?_
  · rintro d u ⟨-,e,he⟩
    cases he
  · rintro d e ⟨hd,-⟩ hp hres
    refine ⟨?_,⟨sequence,hle,?_⟩,hp ▸ hfits,hres⟩
    · rw [hd]
      exact congrArg Prod.fst hb
    · rw [hd]
      exact hat

end Remerge.UploadOutcome

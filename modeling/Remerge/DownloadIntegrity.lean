import Remerge.ContentAddressing

/-!
# Downloads

A blob is served from its raw file or, to a client that accepts it, from its
encoded file, while other requests store, upload, touch and delete. Whatever
file is read, it was linked into place as a whole by a task that had checked
it, so what a client decodes has the digest it asked for.
-/

set_option autoImplicit false

namespace Remerge.DownloadIntegrity
open StepProgram SnapshotTypes UploadSessions Interleaving ClientAuth InodeFiles BlobStore
open StoreTasks StoreDiscipline ContentAddressing

variable {env : Codecs} (text : UnicodeText) (registry : CertRegistry)

def storeOnly : Condition StoreTask FileOp FileRes StoreDisk := fun _ _ label =>
  match label with
  | .start _ k => k.mayCopy = false
  | _ => True

structure StoreOnlyInv (env : Codecs) (s : StoreDisk) (g : Ghost StoreTask Watch) : Prop where
  store : StoreInv env s g
  kinds : ∀ i k q, g i = some (k,q) → k.mayCopy = false

theorem storeOnlyInv_step (s : StoreDisk) (g : Ghost StoreTask Watch)
    (l : Label StoreTask FileOp FileRes) (s' : StoreDisk) (g' : Ghost StoreTask Watch)
    (h : StoreOnlyInv env s g)
    (hs : GhostStep (storeSystem env text registry) (storeDiscipline env) s g l s' g')
    (hc : storeOnly s g.kinds l) : StoreOnlyInv env s' g' ∧ goodLabel env l := by
  have hkinds : ∀ (i : ℕ) (x : Option (StoreTask × Watch)),
      (∀ k q, x = some (k,q) → k.mayCopy = false) →
      ∀ j k q, Function.update g i x j = some (k,q) → k.mayCopy = false := by
    intro i x hx j k q hj
    rcases update_some hj with ⟨-,he⟩ | ⟨-,he⟩
    · exact hx k q he
    · exact h.kinds j k q he
  have hfresh : copiesFresh s g.kinds l := by
    unfold copiesFresh
    split
    · next i k source target r =>
      cases hs with
      | act ht allowed hsem free =>
        have hcopy := allowed.resolve_left (by simp [(h.store.right _ _ _ ht).void])
        exact absurd (hcopy.1.symm.trans (h.kinds _ _ _ ht)) (by decide)
    · trivial
  have hstep := storeInv_step text registry s g l s' g' h.store hs hfresh
  refine ⟨⟨hstep.1,?_⟩,hstep.2⟩
  cases hs with
  | @start _ k j hk free =>
    refine hkinds j _ fun k' q he => ?_
    cases he
    exact hc
  | @act _ _ i j k q o r w ht allowed hsem free =>
    refine hkinds i _ fun k' q' he => ?_
    cases he
    exact h.kinds i k q ht
  | @next _ i k q k' ht ends =>
    refine hkinds i _ fun k0 q0 he => ?_
    have hend : k' = none := ends
    rw [hend] at he
    cases he

/-- Every 200 answer to a download verifies, whatever the interleaving. -/
theorem downloads_verify {P : Pool StoreTask FileOp FileRes StoreDisk}
    {ls : List (Label StoreTask FileOp FileRes)}
    (run : Run (storeSystem env text registry) storeOnly ⟨Disk.empty,fun _ => none⟩ ls P)
    (i : ℕ) (k : StoreTask) (digest : Digest) (response : DownloadResponse)
    (h : Label.act i k (.respond digest (.ok response)) () ∈ ls) :
    Verifies env digest response := by
  have start : ∃ g, Tracks (storeDiscipline env)
      (⟨Disk.empty,fun _ => none⟩ : Pool StoreTask FileOp FileRes StoreDisk) g ∧
      StoreOnlyInv env Disk.empty g :=
    ⟨fun _ => none,fun _ => trivial,storeInv_empty,fun _ _ _ he => nomatch he⟩
  exact (run_invariant (storeSystem_obeys env text registry) (StoreOnlyInv env) (goodLabel env)
    (storeOnlyInv_step text registry) run start).2 _ h

def startsStoreOnly (_ : StoreDisk) (_ : ℕ → Option StoreTask)
    (label : Label StoreTask FileOp FileRes) : Bool :=
  match label with
  | .start _ k => k.mayCopy == false
  | _ => true

theorem storeOnly_of_check (s : StoreDisk) (kinds : ℕ → Option StoreTask)
    (label : Label StoreTask FileOp FileRes) (h : startsStoreOnly s kinds label) :
    storeOnly s kinds label := by
  cases label with
  | start i k => exact eq_of_beq h
  | _ => trivial

def answersWith (digest : Digest) (response : DownloadResponse) :
    Label StoreTask FileOp FileRes → Bool
  | .act _ _ (.respond digest' (.ok response')) _ => digest' == digest && response' == response
  | _ => false

def zstdParams : SessionParams := ⟨digestA,1,1,1,some snapshotBlobEncodingZstd⟩

/-- A compressed upload is served as it came to a client that accepts it. -/
theorem uploaded_stream_verifies :
    ∃ ls P i k, Run sampleSystem storeOnly emptyPool ls P ∧
      Label.act i k (.respond digestA (.ok ⟨some "zstd",[97]⟩)) () ∈ ls ∧
      Verifies plainCodecs digestA ⟨some "zstd",[97]⟩ := by
  obtain ⟨ls,P,run,ht⟩ := exists_run_of_play sampleSystem storeOnly_of_check
    (wholeTask (.append zstdParams [97]) 0 9++wholeTask (.finalize digestA) 9 30++
      wholeTask (.download [("Accept-Encoding",[103,122,105,112,44,32,122,115,116,100])] digestA)
        39 3)
    emptyPool (fun ls _ => ls.any (answersWith digestA ⟨some "zstd",[97]⟩)) (by decide)
  obtain ⟨label,hm,hl⟩ := List.any_eq_true.mp ht
  unfold answersWith at hl
  split at hl
  · next i k digest response _ =>
    obtain ⟨hd,hr⟩ := Bool.and_eq_true_iff.mp hl
    cases eq_of_beq hd
    cases eq_of_beq hr
    exact ⟨ls,P,i,k,run,hm,downloads_verify asciiText (twoClients .none) run i k _ _ hm⟩
  · cases hl

end Remerge.DownloadIntegrity

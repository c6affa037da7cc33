import Remerge.MetadataFiles
import Remerge.SnapshotCleanup

/-!
# Sizes of compressed sidecars

A sidecar is written by whoever comes first, while the metadata records the size
of the stream the last caller brought. The two agree along every sequence of calls
in which all streams for one digest have one size. The streams a client uploads
need not: a second one of another size is recorded and not written.
-/

set_option autoImplicit false

namespace Remerge.VariantSizes
open StepProgram SnapshotTypes SnapshotStore InodeFiles UploadSessions BlobStore MetadataFiles
open SnapshotCleanup Function

variable {d : Digest} {n : ℕ} {L₀ : StoreName → Option Content} {s s' : StoreDisk}

inductive StoreCall where
  | store (digest : Digest) (bytes : Bytes)
  | finalize (digest : Digest)
  | touch (digest : Digest) (lastReferencedAt : Time)
  | delete (digest : Digest)

def StoreCall.digest : StoreCall → Digest
  | .store d _ | .finalize d | .touch d _ | .delete d => d

section
variable (env : Codecs)

/-- A call on an upload session, run on the files. -/
def onFiles {α : Type} (x : SessionProg α) : FileProg α :=
  ExceptT.mk (interpret (sessionFiles env) (outcome x))

def StoreCall.prog : StoreCall → FileProg Unit
  | .store digest bytes => do let _ ← storeBlobForDigest env digest bytes
  | .finalize digest => do let _ ← onFiles env (finalizeBlobUploadSession env digest)
  | .touch digest t => do let _ ← touchEntry .blob digest t
  | .delete digest => deleteEntry .blob digest

/-- The compressed streams a call may record, judged from the disk before it. -/
def recorded (s : StoreDisk) : StoreCall → List Bytes
  | .store _ bytes => (encodeZstdIfWorthwhile env bytes).toList
  | .finalize digest =>
    match s.read (.session digest),s.read (.part digest) with
    | some (.session state),some (.bytes stream) =>
      (if state.selectedEncoding = some snapshotBlobEncodingZstd then [stream] else [])++
      match decodeStream env state.selectedEncoding stream with
      | .ok raw => (encodeZstdIfWorthwhile env raw).toList
      | .error _ => []
    | _,_ => []
  | _ => []

/-- The sidecar that is there and the streams of the call have one size. -/
def OneSize (s : StoreDisk) (call : StoreCall) : Prop :=
  ∃ n, (∀ c, s.read (sidecar call.digest) = some c → c.size = n) ∧
    ∀ b ∈ recorded env s call, b.length = n

def blobFiles (d : Digest) : List StoreName := [rawFile d,sidecar d,metadataFile d]

/-- The disks that completed calls lead to. What lies beside the files of the blobs
may change in between. -/
inductive Calls (cond : StoreDisk → StoreCall → Prop) : StoreDisk → Prop where
  | empty : Calls cond Disk.empty
  | other {s s' : StoreDisk} (before : Calls cond s)
      (h : ∀ d, ∀ n ∈ blobFiles d, s'.read n = s.read n) : Calls cond s'
  | call {s s' : StoreDisk} {c : StoreCall} (before : Calls cond s) (hc : cond s c)
      (run : Runs fileSem (outcome (c.prog env)) s s' (.ok ())) : Calls cond s'

end

section
variable {env : Codecs} {L : StoreName → Option Content}

/-- The metadata of a blob gives the sizes of its files. A raw file without metadata
has the given size. -/
structure Tells (orphan : Option ℕ) (L : StoreName → Option Content) (d : Digest) : Prop where
  bare : L (metadataFile d) = none → (L (rawFile d)).map Content.size = orphan
  raw : ∀ m, L (metadataFile d) = some (.metadata m) →
    (L (rawFile d)).map Content.size = some m.rawSizeBytes
  side : ∀ m k, L (metadataFile d) = some (.metadata m) → m.encodedVariants = some k →
    (L (sidecar d)).map Content.size = some k

structure Held (orphan : Option ℕ) (d : Digest) (n : ℕ) (L₀ L : StoreName → Option Content) :
    Prop where
  tells : Tells orphan L d
  size : ∀ c, L (sidecar d) = some c → c.size = n
  others : ∀ d', d' ≠ d → ∀ n ∈ blobFiles d', L n = L₀ n

variable {o : Option ℕ} {m : StoredMetadata} {size : ℕ} {o' : Option ℕ} {name : StoreName}
  {bytes : Bytes}

theorem held_update {side : Option Content} (h : Held o d n L₀ L)
    (raw : (L (rawFile d)).map Content.size = some m.rawSizeBytes)
    (hk : ∀ k, m.encodedVariants = some k → side.map Content.size = some k)
    (hn : ∀ c, side = some c → c.size = n) :
    Held o' d n L₀ (update (update L (metadataFile d) (some (.metadata m))) (sidecar d) side) where
  tells := by
    constructor
    · simp
    · simpa using raw
    · rintro m' k hm
      simp only [ne_eq,reduceCtorEq,not_false_eq_true,update_of_ne,update_self,
        Option.some.injEq,Content.metadata.injEq] at hm ⊢
      subst hm
      exact hk k
  size c := by
    rw [update_self]
    exact hn c
  others d' hd n hn := by
    rw [← h.others d' hd n hn,update_of_ne,update_of_ne]
    · rintro rfl
      simp [blobFiles,hd.symm] at hn
    · rintro rfl
      simp [blobFiles,hd.symm] at hn

theorem held_metadata (h : Held o d n L₀ L)
    (raw : (L (rawFile d)).map Content.size = some m.rawSizeBytes)
    (hk : ∀ k, m.encodedVariants = some k → (L (sidecar d)).map Content.size = some k) :
    Held o' d n L₀ (update L (metadataFile d) (some (.metadata m))) := by
  have h' : Held o' d n L₀ _ := held_update h raw hk h.size
  rwa [← update_of_ne sidecar_ne (some (.metadata m)) L,update_eq_self] at h'

theorem ensured_side (h : Held o d n L₀ (look s)) (hm : Ensured d size s m) (k : ℕ)
    (hk : m.encodedVariants = some k) : (look s (sidecar d)).map Content.size = some k := by
  rcases hm.2 with hm | ⟨-,hm⟩
  · exact h.tells.side m k hm hk
  · cases hm.symm.trans hk

theorem ensured_raw (h : Held (some size) d n L₀ (look s)) (hm : Ensured d size s m) :
    (look s (rawFile d)).map Content.size = some m.rawSizeBytes := by
  rcases hm.2 with hs | ⟨hs,-⟩
  · exact h.tells.raw m hs
  · rw [hm.1]
    exact h.tells.bare hs

abbrev Keeps {α : Type} (x : FileProg α) (d : Digest) (n : ℕ) (L₀ : StoreName → Option Content)
    (s : StoreDisk) : Prop :=
  Ensures x (fun s' _ => ∀ o, Held o d n L₀ (look s')) (fun _ => True) s

theorem keeps_ensureMetadata (h : Held (some size) d n L₀ (look s)) :
    Keeps (ensureMetadata .blob d size) d n L₀ s := by
  refine ensures_mono ensures_ensureMetadata ?_ fun _ _ => trivial
  rintro s' m ⟨hm,e⟩ o
  rw [e]
  exact held_metadata h (ensured_raw h hm) (ensured_side h hm)

theorem keeps_touchEntry (t : Time) (h : Held o d n L₀ (look s)) :
    Keeps (touchEntry .blob d t) d n L₀ s := by
  refine ensures_mono (ensures_touchEntry t) ?_ fun _ _ => trivial
  rintro s' _ ⟨size,m,hsize,hm,e⟩ o'
  rw [e]
  have side := ensured_side h hm
  exact held_metadata h (hsize.trans (congrArg some hm.1.symm)) side

theorem keeps_storeEncodedBlobVariant {b : Bytes} (hb : b.length = n)
    (h : Held (some size) d n L₀ (look s)) : Keeps (storeEncodedBlobVariant d size b) d n L₀ s := by
  refine ensures_mono (ensures_storeEncodedBlobVariant b) ?_ fun _ _ => trivial
  rintro s' _ ⟨m,hm,e⟩ o
  rw [e]
  have raw := ensured_raw h hm
  refine held_update h raw ?_ ?_
  · rintro k hk
    cases hk
    cases hs : look s (sidecar d) with
    | none => rfl
    | some c => simp [h.size c hs,hb]
  · intro c hc
    cases hs : look s (sidecar d) with
    | none =>
      rw [hs] at hc
      cases hc
      exact hb
    | some c' =>
      rw [hs] at hc
      cases hc
      exact h.size c hs

theorem ensures_hasFile :
    Ensures (hasFile name) (fun s' b => s' = s ∧ (b → s.read name ≠ none)) (fun _ => True) s := by
  refine ⟨trivial,fun w s' r hs _ => ?_⟩
  have same := same_of_readsOnly rfl hs
  cases r with
  | error _ => exact ⟨same,nofun⟩
  | ok k =>
    refine ⟨same,fun _ hn => ?_⟩
    have e := found_of_sem rfl rfl hs
    rw [hn] at e
    cases e

theorem keeps_maybeStoreZstdVariant (hn : ∀ b ∈ encodeZstdIfWorthwhile env bytes, b.length = n)
    (h : Held (some bytes.length) d n L₀ (look s)) :
    Keeps (maybeStoreZstdVariant env .blob d bytes) d n L₀ s := by
  refine ensures_bind _ (keeps_ensureMetadata h) fun s1 m h1 => ?_
  refine ensures_bind _ (ensures_validated trivial) fun s2 _ e => ?_
  subst e
  refine ensures_bind (fun s' _ => s' = s2) ?_ fun s3 present e => ?_
  · unfold hasVariant
    split
    · exact ensures_mono ensures_hasFile (fun _ _ h => h.1) fun _ => id
    · exact rfl
  · subst e
    split
    · next c hc => exact keeps_storeEncodedBlobVariant (hn c hc) (h1 _)
    · exact h1

theorem keeps_completeEntry (hn : ∀ b ∈ encodeZstdIfWorthwhile env bytes, b.length = n)
    (h : Held (some bytes.length) d n L₀ (look s)) :
    Keeps (completeEntry env .blob d bytes) d n L₀ s := by
  refine ensures_bind _ (keeps_ensureMetadata h) fun s1 _ h1 => ?_
  refine ensures_bind _ (keeps_maybeStoreZstdVariant hn (h1 _)) fun s2 _ h2 => ?_
  refine ensures_bind (fun s' _ => s' = s2) ⟨trivial,fun w s' r hs _ => ?_⟩ fun s3 now e => ?_
  · cases hs
    rfl
  · subst e
    exact ensures_bind _ (keeps_touchEntry now (h2 none)) fun _ _ h => h

theorem held_raw (h : Held none d n L₀ L) : Held (some bytes.length) d n L₀
    (update L (rawFile d) ((L (rawFile d)).or (some (.bytes bytes)))) where
  tells := by
    constructor
    · intro hm
      have := h.tells.bare (by simpa using hm)
      rw [Option.map_eq_none_iff] at this
      simp [this,Content.size]
    · intro m hm
      have := h.tells.raw m (by simpa using hm)
      obtain ⟨c,hc,hs⟩ := Option.map_eq_some_iff.mp this
      simp [hc,hs]
    · intro m k hm hk
      simpa using h.tells.side m k (by simpa using hm) hk
  size c hc := h.size c (by simpa using hc)
  others d' hd n hn := by
    rw [← h.others d' hd n hn,update_of_ne]
    rintro rfl
    simp [blobFiles,hd.symm] at hn

theorem keeps_storeBlobForDigest (hn : ∀ b ∈ encodeZstdIfWorthwhile env bytes, b.length = n)
    (h : Held none d n L₀ (look s)) : Keeps (storeBlobForDigest env d bytes) d n L₀ s := by
  refine ensures_bind _ (ensures_validated trivial) fun s1 _ e => ?_
  subst e
  split
  · exact trivial
  · refine ensures_bind _ ensures_hasFile ?_
    rintro s2 there ⟨rfl,hthere⟩
    split
    · next e =>
      -- There is metadata already, so nothing is asked of a raw file without it.
      have known : Held (some bytes.length) d n L₀ (look s2) := by
        refine ⟨⟨fun hm => ?_,h.tells.raw,h.tells.side⟩,h.size,h.others⟩
        exact absurd (Option.map_eq_none_iff.mp (h.tells.bare hm)) (hthere e)
      exact ensures_bind _ (keeps_completeEntry hn known) fun _ _ h => h
    · refine ensures_bind _ (ensures_reading rfl trivial) fun s3 _ e => ?_
      subst e
      refine ensures_bind _ (ensures_mono (ensures_writeBytesAtomically (t := rawFile d) nofun
        (not_parent nofun) bytes) (fun _ _ h => h) fun _ _ => trivial) fun s4 _ e => ?_
      exact ensures_bind _ (keeps_completeEntry hn (e ▸ held_raw h)) fun _ _ h => h

theorem ensures_removeFileIfExists :
    Ensures (removeFileIfExists name)
      (fun s' _ => ∀ n, s'.read n = if n = name then none else s.read n) (fun _ => True) s := by
  refine ⟨trivial,fun w s' r hs _ => ?_⟩
  have e := read_removed hs
  cases r with
  | ok _ => exact e
  | error f =>
    obtain ⟨rfl,gone⟩ := e
    change Throughout _ (if f.isNotFoundError = true then _ else _) _ _
    split
    · next hf =>
      intro n
      split
      · next e => rw [e,gone hf]
      · rfl
    · trivial

theorem tells_congr {L' : StoreName → Option Content} (h : Tells o L d)
    (e : ∀ n ∈ blobFiles d, L' n = L n) : Tells o L' d := by
  simp only [blobFiles,List.forall_mem_cons] at e
  obtain ⟨raw,side,metadata,-⟩ := e
  refine ⟨?_,?_,?_⟩
  · rw [metadata,raw]
    exact h.bare
  · rw [metadata,raw]
    exact h.raw
  · rw [metadata,side]
    exact h.side

theorem look_of_same (e : ∀ n ∈ blobFiles d, s'.read n = s.read n) :
    ∀ n ∈ blobFiles d, look s' n = look s n := by
  simp only [blobFiles,List.forall_mem_cons] at e ⊢
  exact ⟨e.1,e.2.1,e.2.2.1,List.forall_mem_nil _⟩

theorem held_congr (h : Held o d n L₀ (look s)) (e : ∀ d, ∀ n ∈ blobFiles d, s'.read n = s.read n) :
    Held o d n L₀ (look s') where
  tells := tells_congr h.tells (look_of_same (e d))
  size c hc := h.size c ((e d _ (by simp [blobFiles])).symm.trans hc)
  others d' hd n hn := (look_of_same (e d') n hn).trans (h.others d' hd n hn)

end

section
variable {env : Codecs} {α β : Type}

theorem onFiles_bind (x : SessionProg α) (f : α → SessionProg β) :
    onFiles env (x >>= f) = onFiles env x >>= fun a => onFiles env (f a) := by
  change interpret _ (outcome (x >>= f)) = outcome (onFiles env x >>= _)
  rw [outcome_bind,outcome_bind,interpret_bind]
  congr 1
  funext r
  cases r <;> rfl

theorem onFiles_call (op : SessionOp) :
    onFiles env (sessionCall op) = ExceptT.mk (sessionFiles env op) :=
  bind_ret (sessionFiles env op)

theorem ensures_loadSession :
    Ensures (onFiles env (loadSession d))
      (fun s' state => s' = s ∧ s.read (.session d) = some (.session state)) (fun _ => True) s := by
  unfold loadSession
  rw [onFiles_bind,onFiles_call]
  refine ensures_bind (fun s' found => s' = s ∧ ∀ state, found = some state →
    s.read (.session d) = some (.session state)) ⟨trivial,fun w s' r hs _ => ?_⟩ ?_
  · have same := same_of_readsOnly rfl hs
    cases r with
    | ok c =>
      cases c with
      | session state =>
        refine ⟨same,?_⟩
        rintro state' ⟨⟩
        exact found_of_sem rfl rfl hs
      | _ => trivial
    | error f =>
      change Throughout _ (if f.isNotFoundError = true then _ else _) _ _
      split
      · exact ⟨same,fun _ h => by cases h⟩
      · trivial
  · rintro s1 found ⟨rfl,h⟩
    cases found with
    | none => trivial
    | some state => exact ⟨rfl,h state rfl⟩

theorem ensures_partLength :
    Ensures (onFiles env (partLength d)) (fun s' _ => s' = s) (fun s' => s' = s) s := by
  have read : Ensures (diskTry (.stat (.part d)) "Failed to stat") (fun s' _ => s' = s)
      (fun s' => s' = s) s := ensures_reading rfl rfl
  refine safely_seq read fun s' r h => ?_
  cases r with
  | ok k => exact h
  | error f =>
    change Throughout _ (interpret _ (if f.isNotFoundError = true then _ else _)) _ _
    split <;> exact h

theorem ensures_readPart :
    Ensures (readPart d) (fun s' b => s' = s ∧ s.read (.part d) = some (.bytes b))
      (fun _ => True) s := by
  refine ensures_bind (fun s' c => s' = s ∧ s.read (.part d) = some c)
    (ensures_try trivial fun w s' r hs => ?_) ?_
  · cases r with
    | ok c => exact ⟨same_of_readsOnly rfl hs,found_of_sem rfl rfl hs⟩
    | error _ => trivial
  · rintro s1 c ⟨rfl,h⟩
    cases c with
    | bytes b => exact ⟨rfl,h⟩
    | _ => trivial

theorem keeps_removeBlobUploadState (h : ∀ o, Held o d n L₀ (look s)) :
    Keeps (onFiles env (removeBlobUploadState d)) d n L₀ s := by
  unfold removeBlobUploadState
  rw [onFiles_bind,onFiles_call]
  refine ensures_bind _ ensures_removeFileIfExists fun s1 _ h1 => ?_
  rw [onFiles_call]
  refine ensures_mono ensures_removeFileIfExists (fun s2 _ h2 o => ?_) fun _ => id
  refine held_congr (h o) fun d' n hn => ?_
  have e := (h2 n).trans (congrArg _ (h1 n))
  simp only [blobFiles,List.mem_cons,List.not_mem_nil,or_false] at hn
  rcases hn with rfl | rfl | rfl <;> simpa using e

theorem keeps_finalizeBlobUploadSession
    (hn : ∀ b ∈ recorded env s (.finalize d), b.length = n) (h : Held none d n L₀ (look s)) :
    Keeps (onFiles env (finalizeBlobUploadSession env d)) d n L₀ s := by
  unfold finalizeBlobUploadSession
  rw [onFiles_bind]
  refine ensures_bind _ ensures_loadSession ?_
  rintro s1 state ⟨rfl,hstate⟩
  rw [onFiles_bind]
  refine ensures_bind _ (ensures_mono ensures_partLength (fun _ _ h => h) fun _ _ => trivial)
    fun s2 received e => ?_
  subst e
  split
  · trivial
  · rw [onFiles_bind,onFiles_call]
    refine ensures_bind _ ensures_readPart ?_
    rintro s3 stream ⟨rfl,hstream⟩
    simp only [recorded,hstate,hstream,List.mem_append] at hn
    unfold storeStream
    rw [onFiles_bind]
    cases hraw : decodeStream env state.selectedEncoding stream with
    | error f => trivial
    | ok raw =>
      rw [hraw] at hn
      change Ensures (onFiles env (if raw.length ≠ state.rawSizeBytes then _ else _)) _ _ _
      split
      · trivial
      · next hsize =>
        rw [onFiles_bind,onFiles_call]
        refine ensures_bind _ (keeps_storeBlobForDigest
          (fun b hb => hn b (.inr (Option.mem_toList.mpr hb))) h) fun s4 uploaded h4 => ?_
        have ended : ∀ s5, (∀ o, Held o d n L₀ (look s5)) →
            Keeps (onFiles env (removeBlobUploadState d >>= fun _ => pure uploaded)) d n L₀ s5 := by
          intro s5 h5
          rw [onFiles_bind]
          exact ensures_bind _ (keeps_removeBlobUploadState h5) fun _ _ h => h
        split
        · next hz =>
          rw [onFiles_bind,onFiles_call]
          refine ensures_bind _ (keeps_storeEncodedBlobVariant (hn stream ?_) (h4 _))
            fun s5 _ h5 => ended s5 h5
          simp [hz]
        · exact ended s4 h4

/-- The metadata gives the sizes afterwards, and other blobs are left alone. -/
abbrev Settles {α : Type} (x : FileProg α) (d : Digest) (s : StoreDisk) : Prop :=
  Ensures x (fun s' _ => Tells none (look s') d ∧
    ∀ d', d' ≠ d → ∀ n ∈ blobFiles d', look s' n = look s n) (fun _ => True) s

theorem settles_deleteEntry : Settles (deleteEntry .blob d) d s := by
  refine safely_seq (safely_mono loadMetadata_reads (fun _ _ h => h) fun _ _ _ => trivial) ?_
  rintro s1 loaded ⟨rfl,-⟩
  refine ensures_bind _ (ensures_validated trivial) fun s2 _ e => ?_
  subst e
  refine ensures_bind _ ensures_removeFileIfExists fun s3 _ h3 => ?_
  refine ensures_bind (fun s' _ => ∀ n, n ≠ sidecar d → s'.read n = s3.read n) ?_ fun s4 _ h4 => ?_
  · unfold removeListedVariant
    split
    · exact ensures_mono ensures_removeFileIfExists (fun s' _ h n hn => (h n).trans (if_neg hn))
        fun _ => id
    · exact fun _ _ => rfl
  refine ensures_mono ensures_removeFileIfExists (fun s5 _ h5 => ?_) fun _ => id
  have gone : look s5 (metadataFile d) = none := (h5 _).trans (if_pos rfl)
  have raw : look s5 (rawFile d) = none := by
    rw [show look s5 (rawFile d) = s5.read (rawFile d) from rfl,h5,h4 (rawFile d) (by simp),h3]
    simp
  refine ⟨⟨fun _ => by rw [raw]; rfl,fun m hm => ?_,fun m k hm => ?_⟩,fun d' hd => ?_⟩
  · cases gone.symm.trans hm
  · cases gone.symm.trans hm
  · refine look_of_same fun n hn => ?_
    simp only [blobFiles,List.mem_cons,List.not_mem_nil,or_false] at hn
    rcases hn with rfl | rfl | rfl <;> rw [h5,h4 _ (by simp [hd]),h3] <;> simp [hd]

end

variable {env : Codecs}

theorem tells_call {c : StoreCall} (h : ∀ d, Tells none (look s) d) (hc : OneSize env s c)
    (run : Runs fileSem (outcome (c.prog env)) s s' (.ok ())) (d : Digest) :
    Tells none (look s') d := by
  obtain ⟨n,hside,hn⟩ := hc
  have start : Held none c.digest n (look s) (look s) :=
    ⟨h c.digest,hside,fun _ _ _ _ => rfl⟩
  have held : ∀ {α : Type} {x : FileProg α}, Keeps x c.digest n (look s) s →
      Settles (x >>= fun _ => pure ()) c.digest s := fun hx =>
    ensures_bind _ hx fun s' _ h' => ⟨(h' none).tells,(h' none).others⟩
  have ended : Settles (c.prog env) c.digest s := by
    cases c with
    | store digest bytes =>
      exact held (keeps_storeBlobForDigest (fun b hb => hn b (Option.mem_toList.mpr hb)) start)
    | finalize digest => exact held (keeps_finalizeBlobUploadSession hn start)
    | touch digest t => exact held (keeps_touchEntry t start)
    | delete digest => exact settles_deleteEntry
  have done := safely_runs ended run
  by_cases hd : d = c.digest
  · exact hd ▸ done.1
  · exact tells_congr (h d) (done.2 d hd)

theorem tells_calls (h : Calls env (OneSize env) s) (d : Digest) : Tells none (look s) d := by
  induction h generalizing d with
  | empty => exact ⟨fun _ => rfl,nofun,nofun⟩
  | other _ e ih => exact tells_congr (ih d) (look_of_same (e d))
  | call _ hc run ih => exact tells_call ih hc run d

/-- Where every stream for a digest has one size, a listed variant is the sidecar,
and cleanup counts the bytes on disk. -/
theorem listed_variants_on_disk (env : Codecs) (s : StoreDisk) (h : Calls env (OneSize env) s)
    (d : Digest) (m : StoredMetadata) (k : ℕ)
    (hm : s.read (.metadata .blob d) = some (.metadata m)) (hk : m.encodedVariants = some k) :
    (s.read (.encoded .blob d)).map Content.size = some k ∧
      ∃ raw, (s.read (.raw .blob d)).map Content.size = some raw ∧
        StoredMetadata.retainedBytes m = raw+k := by
  have tells := tells_calls h d
  exact ⟨tells.side m k hm hk,m.rawSizeBytes,tells.raw m hm,by simp [StoredMetadata.retainedBytes,hk]⟩

def markedCodecs : Codecs where
  sha256 := sampleSha256
  adler32 := fun _ => 1
  encodeZstd b := 1::b
  decodeZstd
    | 0::_::b => some b
    | 1::b => some b
    | _ => none
  treeJson := fun _ => []
  sha256_valid := sampleSha256_valid
  adler32_lt := fun _ => Nat.le_of_ble_eq_true rfl
  decode_encode := fun _ => rfl

def received (stream : Bytes) (s : StoreDisk) : StoreDisk :=
  (s.create (.session (sampleSha256 [97]))
    (.session ⟨sampleSha256 [97],1,stream.length,8,some "zstd",1,stream.length,
      stream.length⟩)).create
    (.part (sampleSha256 [97])) (.bytes stream)

def finalized (first : ℕ) (s : StoreDisk) : Option StoreDisk :=
  match runWith fileSem ((List.range 40).map fun i => ⟨0,String.ofList (List.replicate (first+i) 'u'),
      false,none,.default,∅,[]⟩)
    (outcome ((StoreCall.finalize (sampleSha256 [97])).prog markedCodecs)) s with
  | some (s',.ok _) => some s'
  | _ => none

theorem runs_of_finalized {first : ℕ} (h : finalized first s = some s') :
    Runs fileSem (outcome ((StoreCall.finalize (sampleSha256 [97])).prog markedCodecs)) s s'
      (.ok ()) := by
  unfold finalized at h
  split at h
  · next hr =>
    cases h
    exact runs_of_runWith _ _ _ _ _ hr
  · cases h

def noSession (s : StoreDisk) : Bool :=
  (s.inode (.session (sampleSha256 [97]))).isNone && (s.inode (.part (sampleSha256 [97]))).isNone

theorem calls_received {cond : StoreDisk → StoreCall → Prop} (stream : Bytes)
    (h : Calls markedCodecs cond s) (free : noSession s) :
    Calls markedCodecs cond (received stream s) := by
  have hf := Bool.and_eq_true_iff.mp free
  have hs := Option.isNone_iff_eq_none.mp hf.1
  have hp := Option.isNone_iff_eq_none.mp hf.2
  refine h.other fun d n hn => ?_
  have ne : n ≠ .session (sampleSha256 [97]) ∧ n ≠ .part (sampleSha256 [97]) := by
    simp only [blobFiles,List.mem_cons,List.not_mem_nil,or_false] at hn
    rcases hn with rfl | rfl | rfl <;> exact ⟨nofun,nofun⟩
  unfold received
  rw [Disk.create_eq_write (by simpa using hp),Disk.create_eq_write hs,
    Disk.read_write (Disk.Alone.write (Disk.alone_of_free hp) _ _),if_neg ne.2,
    Disk.read_write (Disk.alone_of_free hs),if_neg ne.1]

def variantOf (s : StoreDisk) : Option (Option ℕ) × Option ℕ :=
  (match s.read (.metadata .blob (sampleSha256 [97])) with
    | some (.metadata m) => some m.encodedVariants
    | _ => none,
  (s.read (.encoded .blob (sampleSha256 [97]))).map Content.size)

theorem listed_of_variantOf {k : ℕ} {size : Option ℕ} (h : variantOf s = (some (some k),size)) :
    ∃ m, s.read (.metadata .blob (sampleSha256 [97])) = some (.metadata m) ∧
      m.encodedVariants = some k ∧
      (s.read (.encoded .blob (sampleSha256 [97]))).map Content.size = size := by
  obtain ⟨hm,hs⟩ := Prod.mk.inj h
  split at hm
  · next m hr => exact ⟨m,hr,Option.some.inj hm,hs⟩
  · cases hm

theorem first_stream_on_disk :
    ∃ s m, Calls markedCodecs (OneSize markedCodecs) s ∧
      s.read (.metadata .blob (sampleSha256 [97])) = some (.metadata m) ∧
      StoredMetadata.retainedBytes m = 1+2 := by
  obtain ⟨s,hs,ht⟩ := (Option.any_eq_true _ _).mp (show (finalized 0 (received [1,97]
    Disk.empty)).any (fun s => variantOf s == (some (some 2),some 2) &&
      (s.read (.raw .blob (sampleSha256 [97]))).map Content.size == some 1) = true by decide)
  obtain ⟨hv,hr⟩ := Bool.and_eq_true_iff.mp ht
  have calls : Calls markedCodecs (OneSize markedCodecs) s :=
    .call (calls_received [1,97] .empty rfl) ⟨2,nofun,by decide⟩ (runs_of_finalized hs)
  obtain ⟨m,hm,hk,-⟩ := listed_of_variantOf (eq_of_beq hv)
  obtain ⟨-,raw,hraw,htotal⟩ := listed_variants_on_disk markedCodecs s calls _ m 2 hm hk
  cases hraw.symm.trans (eq_of_beq hr)
  exact ⟨s,m,calls,hm,htotal⟩

/-- The second upload of the blob is compressed into one byte more. -/
theorem second_stream_misrecorded :
    ∃ s m, Calls markedCodecs (fun _ _ => True) s ∧
      s.read (.metadata .blob (sampleSha256 [97])) = some (.metadata m) ∧
      m.encodedVariants = some 3 ∧
      (s.read (.encoded .blob (sampleSha256 [97]))).map Content.size = some 2 := by
  obtain ⟨s,hs,ht⟩ := (Option.any_eq_true _ _).mp (show (finalized 0 (received [1,97]
    Disk.empty)).any (fun s => noSession s && (finalized 40 (received [0,0,97] s)).any fun s' =>
      variantOf s' == (some (some 3),some 2)) = true by decide)
  obtain ⟨free,ht⟩ := Bool.and_eq_true_iff.mp ht
  obtain ⟨s',hs',hv⟩ := (Option.any_eq_true _ _).mp ht
  have first : Calls markedCodecs (fun _ _ => True) s :=
    .call (calls_received [1,97] .empty rfl) trivial (runs_of_finalized hs)
  obtain ⟨m,hm,hk,hsize⟩ := listed_of_variantOf (eq_of_beq hv)
  exact ⟨s',m,.call (calls_received _ first free) trivial (runs_of_finalized hs'),hm,hk,hsize⟩

end Remerge.VariantSizes

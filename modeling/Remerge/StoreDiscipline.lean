import Remerge.StoreTasks

/-!
# What tasks do to the files of the store

A monitor that every program on the state directory conforms to. A file is
linked or moved under a store name only from a temporary file the task wrote
with content that belongs there; only names that are never linked are written
in place; and a download answers with bytes it has just read.
-/

set_option autoImplicit false

namespace Remerge.StoreDiscipline
open StepProgram SnapshotTypes StagingPaths SnapshotStore SnapshotRuntime UploadSessions
open Interleaving ClientAuth BlobStore StoreTasks

section
variable (env : Codecs)

/-- What a file of the store may hold: a raw blob hashes to its digest, an
encoded one decodes to bytes that do. -/
def Genuine : StoreName → Content → Prop
  | .raw .blob digest, content => ∃ b, content = .bytes b ∧ env.sha256 b = digest
  | .encoded .blob digest, content =>
    ∃ b raw, content = .bytes b ∧ env.decodeZstd b = some raw ∧ env.sha256 raw = digest
  | _, _ => True

/-- The names that are written without a temporary file. They are never linked. -/
def inPlace : StoreName → Bool
  | .part _ => true
  | .workorderJson _ => true
  | .encoded .tree _ => true
  | _ => false

def isTemp : StoreName → Bool
  | .temp _ => true
  | _ => false

/-- What a task holds: the temporary file it wrote last and the bytes it read
last. A task is void once it was told that links are not supported. -/
structure Watch where
  temp : Option (Uuid × Content)
  fetched : Option (StoreName × Bytes)
  void : Bool

def Watch.idle : Watch := ⟨none,none,false⟩

def Watch.Supplies (q : Watch) (source target : StoreName) : Prop :=
  ∃ uuid content, source = .temp uuid ∧ q.temp = some (uuid,content) ∧ Genuine env target content

def isBlob : StoreName → Bool
  | .raw .blob _ => true
  | _ => false

def isStaged : StoreName → Bool
  | .staged _ _ => true
  | _ => false

def servedName (digest : Digest) (response : DownloadResponse) : StoreName :=
  match response.contentEncoding with
  | none => .raw .blob digest
  | some _ => .encoded .blob digest

def diskAllows (copies : Bool) (q : Watch) : DiskOp → Prop
  | .writeFile name _ => inPlace name
  | .append name _ => inPlace name
  | .hardLink source target =>
    inPlace target = false ∧ isTemp target = false ∧
      (q.Supplies env source target ∨ isBlob source ∧ isStaged target)
  | .createNew _ => False
  | .fill _ _ => False
  | .copyFile _ target => copies ∧ isStaged target
  | .rename source target =>
    inPlace target = false ∧ isTemp target = false ∧ q.Supplies env source target
  | .remove name => ∀ uuid, name = .temp uuid → ∃ content, q.temp = some (uuid,content)
  | _ => True

def watchAllows (copies : Bool) (q : Watch) : FileOp → Prop
  | .disk op => q.void ∨ diskAllows env copies q op
  | .respond digest answer => q.void ∨ ∀ response, answer = .ok response →
      q.fetched = some (servedName digest response,response.body)
  | .now => True

def diskNext (q : Watch) : (op : DiskOp) → Except Failure (DiskVal op) → Watch
  | .writeTemp content, .ok uuid => { q with temp := some (uuid,content) }
  | .hardLink _ _, .error failure =>
    if Failure.isKind .crossesDevices failure then { q with void := true } else q
  | .rename _ _, .ok _ => { q with temp := none }
  | .remove (.temp _), _ => { q with temp := none }
  | .read name, .ok (.bytes b) => { q with fetched := some (name,b) }
  | _, _ => q

def watchNext (q : Watch) : (o : FileOp) → FileRes o → Watch
  | .disk op, r => diskNext q op r
  | .now, _ => q
  | .respond _ _, _ => q

def storeMonitor (copies : Bool) : Monitor FileOp FileRes Watch where
  allows := watchAllows env copies
  next := watchNext

def storeDiscipline : Discipline StoreTask FileOp FileRes Watch where
  monitor := fun k => storeMonitor env k.mayCopy
  init := fun _ => .idle
  final := fun _ _ next => next = none

end

section
variable {env : Codecs} {copies : Bool} {α : Type}

abbrev Safe (env : Codecs) (copies : Bool) (p : Prog FileOp FileRes α) : Prop :=
  AlwaysConforms (storeMonitor env copies) p

variable {op : DiskOp} {q : Watch}

theorem safe_call (h : ∀ q, diskAllows env copies q op) : Safe env copies (diskCall op) := fun q =>
  ⟨.inr (h q),fun _ => trivial⟩

theorem safe_try {context : String} (h : ∀ q, diskAllows env copies q op) :
    Safe env copies (outcome (diskTry op context)) :=
  always_bind (safe_call h) fun _ => always_ret _

theorem safe_utcNow : Safe env copies (outcome BlobStore.utcNow) := fun _ => ⟨trivial,fun _ => trivial⟩

theorem safe_validated (digest : Digest) : Safe env copies (outcome (validated digest)) := by
  unfold validated
  split <;> exact always_ret _

theorem safe_done {p : Prog FileOp FileRes α} (h : Safe env copies p) (q : Watch) :
    Conforms (storeMonitor env copies) (fun _ next => next = none) q (done p) :=
  conforms_bind (h q) fun _ _ _ => rfl

theorem safe_removeFileIfExists {name : StoreName} (h : isTemp name = false) :
    Safe env copies (outcome (removeFileIfExists name)) := by
  refine always_bind (safe_call fun q uuid he => ?_) fun r => ?_
  · subst he
    cases h
  · cases r with
    | ok _ => exact always_ret _
    | error failure =>
      dsimp only
      split <;> exact always_ret _

theorem safe_hasFile (name : StoreName) : Safe env copies (outcome (hasFile name)) := by
  refine always_bind (safe_call fun _ => trivial) fun r => ?_
  cases r <;> exact always_ret _

theorem diskNext_void (h : q.void) (op : DiskOp) (r : Except Failure (DiskVal op)) :
    (diskNext q op r).void := by
  unfold diskNext
  split
  · exact h
  · split
    · rfl
    · exact h
  all_goals exact h

theorem conforms_void (p : Prog FileOp FileRes α) (h : q.void) :
    Conforms (storeMonitor env copies) (fun q' _ => q'.void) q p := by
  induction p generalizing q with
  | ret a => exact h
  | step o k ih =>
    cases o with
    | now => exact ⟨trivial,fun r => ih r h⟩
    | disk op => exact ⟨.inl h,fun r => ih r (diskNext_void h op r)⟩
    | respond digest answer => exact ⟨.inl h,fun r => ih r h⟩

end

section
variable {env : Codecs} {copies : Bool} {uuid : Uuid} {target : StoreName} {content : Content}
  {q : Watch}

def Watch.Holds (q : Watch) (uuid : Uuid) (content : Content) : Prop :=
  q.void ∨ q.temp = some (uuid,content)

theorem conforms_removeTemp {α : Type} (h : q.Holds uuid content) (a : α) :
    Conforms (storeMonitor env copies) (fun _ _ => True) q
      (diskCall (.remove (.temp uuid)) >>= fun _ => Prog.ret a) := by
  refine ⟨?_,fun _ => trivial⟩
  rcases h with h | h
  · exact .inl h
  · right
    rintro u hu
    cases hu
    exact ⟨content,h⟩

theorem conforms_linkOrCopyIntoPlace (hq : q.temp = some (uuid,content))
    (hg : Genuine env target content) (hp : inPlace target = false) (ht : isTemp target = false) :
    Conforms (storeMonitor env copies) (fun q' _ => q'.Holds uuid content) q
      (outcome (linkOrCopyIntoPlace (.temp uuid) target)) := by
  refine ⟨.inr ⟨hp,ht,.inl ⟨uuid,content,rfl,hq,hg⟩⟩,fun r => ?_⟩
  cases r with
  | ok _ => exact .inr hq
  | error failure =>
    by_cases hc : Failure.isKind .crossesDevices failure
    · have hvoid : ((storeMonitor env copies).next q (.disk (.hardLink (.temp uuid) target))
          (.error failure)).void := by
        simp [storeMonitor,watchNext,diskNext,hc]
      exact conforms_mono (conforms_void _ hvoid) fun q' _ h => .inl h
    · have hsame : (storeMonitor env copies).next q (.disk (.hardLink (.temp uuid) target))
          (.error failure) = q := by
        simp [storeMonitor,watchNext,diskNext,hc]
      rw [hsame]
      show Conforms _ _ q (if _ then _ else if _ then _ else _)
      rw [if_neg hc]
      split
      · exact .inr hq
      · exact .inr hq

theorem conforms_placeTemp (hq : q.temp = some (uuid,content)) (hg : Genuine env target content)
    (hp : inPlace target = false) (ht : isTemp target = false) :
    Conforms (storeMonitor env copies) (fun _ _ => True) q (outcome (placeTemp uuid target)) :=
  conforms_bind (conforms_linkOrCopyIntoPlace hq hg hp ht) fun _ b h => conforms_removeTemp h b

theorem conforms_moveTemp (hq : q.temp = some (uuid,content)) (hg : Genuine env target content)
    (hp : inPlace target = false) (ht : isTemp target = false) :
    Conforms (storeMonitor env copies) (fun _ _ => True) q (outcome (moveTemp uuid target)) := by
  refine ⟨.inr ⟨hp,ht,uuid,content,rfl,hq,hg⟩,fun r => ?_⟩
  cases r with
  | ok _ => trivial
  | error failure => exact conforms_removeTemp (.inr hq) _

theorem safe_writeBytesAtomically {bytes : Bytes} (hg : Genuine env target (.bytes bytes))
    (hp : inPlace target = false) (ht : isTemp target = false) :
    Safe env copies (outcome (writeBytesAtomically target bytes)) := by
  intro q
  unfold writeBytesAtomically
  rw [outcome_bind]
  refine ⟨.inr trivial,fun r => ?_⟩
  cases r with
  | ok uuid => exact conforms_placeTemp rfl hg hp ht
  | error failure => trivial

theorem safe_writeBytesWithAtomicReplace (hg : Genuine env target content)
    (hp : inPlace target = false) (ht : isTemp target = false) :
    Safe env copies (outcome (writeBytesWithAtomicReplace target content)) := by
  intro q
  unfold writeBytesWithAtomicReplace
  rw [outcome_bind]
  refine ⟨.inr trivial,fun r => ?_⟩
  cases r with
  | ok uuid => exact conforms_moveTemp rfl hg hp ht
  | error failure => trivial

end

section
variable {env : Codecs} {copies : Bool} (kind : EntryKind) (digest : Digest)

theorem safe_loadMetadata : Safe env copies (outcome (loadMetadata kind digest)) := by
  refine always_outcome_bind (safe_validated digest) fun _ => ?_
  refine always_outcome_bind (safe_try fun _ => trivial) fun content => ?_
  cases content <;> exact always_ret _

theorem safe_persistMetadata (metadata : StoredMetadata) :
    Safe env copies (outcome (persistMetadata kind digest metadata)) := by
  refine always_outcome_bind (safe_validated digest) fun _ => ?_
  refine always_outcome_bind (safe_try fun _ => trivial) fun _ => ?_
  exact safe_writeBytesWithAtomicReplace trivial rfl rfl

theorem safe_ensureMetadata (rawSizeBytes : ℕ) :
    Safe env copies (outcome (ensureMetadata kind digest rawSizeBytes)) := by
  refine always_bind (safe_loadMetadata kind digest) fun r => ?_
  cases r with
  | ok metadata =>
    dsimp only
    split <;> exact always_ret _
  | error failure =>
    dsimp only
    split
    · refine always_outcome_bind safe_utcNow fun now => ?_
      exact always_outcome_bind (safe_persistMetadata kind digest _) fun _ => always_ret _
    · exact always_ret _

theorem safe_touchEntry (lastReferencedAt : Time) :
    Safe env copies (outcome (touchEntry kind digest lastReferencedAt)) := by
  refine always_outcome_bind (safe_validated digest) fun _ => ?_
  refine always_outcome_bind (safe_try fun _ => trivial) fun rawSizeBytes => ?_
  refine always_outcome_bind (safe_ensureMetadata kind digest rawSizeBytes) fun metadata => ?_
  exact always_outcome_bind (safe_persistMetadata kind digest _) fun _ => always_ret _

variable {bytes : Bytes}

theorem safe_storeEncodedBlobVariant (rawSizeBytes : ℕ)
    (hg : Genuine env (.encoded .blob digest) (.bytes bytes)) :
    Safe env copies (outcome (storeEncodedBlobVariant digest rawSizeBytes bytes)) := by
  refine always_outcome_bind (safe_ensureMetadata .blob digest rawSizeBytes) fun metadata => ?_
  dsimp only
  split
  · exact always_ret _
  · refine always_outcome_bind (safe_validated digest) fun _ => ?_
    refine always_outcome_bind (safe_try fun _ => trivial) fun _ => ?_
    refine always_outcome_bind (safe_writeBytesAtomically hg rfl rfl) fun _ => ?_
    exact safe_persistMetadata .blob digest _

theorem safe_writeEncodedTree (metadata : StoredMetadata) (bytes : Bytes) :
    Safe env copies (outcome (writeEncodedTree digest metadata bytes)) := by
  refine always_outcome_bind (safe_try fun _ => trivial) fun _ => ?_
  refine always_outcome_bind (safe_try fun _ => rfl) fun _ => ?_
  exact safe_persistMetadata .tree digest _

theorem safe_hasVariant (metadata : StoredMetadata) :
    Safe env copies (outcome (hasVariant kind digest metadata)) := by
  unfold hasVariant
  split
  · exact safe_hasFile _
  · exact always_ret _

theorem genuine_compressed {compressed : Bytes} (hd : env.sha256 bytes = digest)
    (hc : encodeZstdIfWorthwhile env bytes = some compressed) :
    Genuine env (.encoded .blob digest) (.bytes compressed) := by
  unfold encodeZstdIfWorthwhile at hc
  split_ifs at hc
  cases hc
  exact ⟨_,bytes,rfl,env.decode_encode bytes,hd⟩

theorem safe_maybeStoreZstdVariant (hd : kind = .blob → env.sha256 bytes = digest) :
    Safe env copies (outcome (maybeStoreZstdVariant env kind digest bytes)) := by
  refine always_outcome_bind (safe_ensureMetadata kind digest bytes.length) fun metadata => ?_
  refine always_outcome_bind (safe_validated digest) fun _ => ?_
  refine always_outcome_bind (safe_hasVariant kind digest metadata) fun present => ?_
  split
  · next compressed hc =>
    cases kind with
    | blob => exact safe_storeEncodedBlobVariant digest _ (genuine_compressed digest (hd rfl) hc)
    | tree => exact safe_writeEncodedTree digest metadata compressed
  · exact always_ret _

theorem safe_completeEntry (hd : kind = .blob → env.sha256 bytes = digest) :
    Safe env copies (outcome (completeEntry env kind digest bytes)) := by
  refine always_outcome_bind (safe_ensureMetadata kind digest bytes.length) fun _ => ?_
  refine always_outcome_bind (safe_maybeStoreZstdVariant kind digest hd) fun _ => ?_
  refine always_outcome_bind safe_utcNow fun now => ?_
  exact always_outcome_bind (safe_touchEntry kind digest now) fun _ => always_ret _

theorem safe_storeEntry (hd : kind = .blob → env.sha256 bytes = digest) :
    Safe env copies (outcome (storeEntry env kind digest bytes)) := by
  refine always_outcome_bind (safe_hasFile _) fun present => ?_
  cases present with
  | true =>
    exact always_outcome_bind (safe_completeEntry kind digest hd) fun _ => always_ret _
  | false =>
    refine always_outcome_bind (safe_try fun _ => trivial) fun _ => ?_
    refine always_outcome_bind (safe_writeBytesAtomically ?_ ?_ rfl) fun _ => ?_
    · cases kind with
      | blob => exact ⟨bytes,rfl,hd rfl⟩
      | tree => trivial
    · cases kind <;> rfl
    · exact always_outcome_bind (safe_completeEntry kind digest hd) fun _ => always_ret _

theorem conforms_storeBlobForDigest (bytes : Bytes) (q : Watch) :
    Conforms (storeMonitor env copies) (fun _ r => ∀ uploaded, r = .ok uploaded →
      env.sha256 bytes = digest) q (outcome (BlobStore.storeBlobForDigest env digest bytes)) := by
  unfold BlobStore.storeBlobForDigest validated
  split
  · intro _ h
    cases h
  · dsimp only
    split
    · intro _ h
      cases h
    · next hd =>
      exact conforms_mono (safe_storeEntry .blob digest (fun _ => not_not.mp hd) q)
        fun _ _ _ _ _ => not_not.mp hd

theorem safe_storeBlobForDigest (bytes : Bytes) :
    Safe env copies (outcome (BlobStore.storeBlobForDigest env digest bytes)) := fun q =>
  conforms_mono (conforms_storeBlobForDigest digest bytes q) fun _ _ _ => trivial

theorem safe_storeBlob (bytes : Bytes) : Safe env copies (outcome (BlobStore.storeBlob env bytes)) :=
  always_outcome_bind (safe_storeBlobForDigest _ bytes) fun _ => always_ret _

theorem safe_storeTree (entries : BTreeMap Digest) :
    Safe env copies (outcome (BlobStore.storeTree env entries)) := by
  refine always_outcome_bind (safe_validated _) fun _ => ?_
  exact always_outcome_bind (safe_storeEntry .tree _ (fun h => nomatch h)) fun _ => always_ret _

theorem safe_deleteEntry : Safe env copies (outcome (deleteEntry kind digest)) := by
  refine always_bind (safe_loadMetadata kind digest) fun metadata => ?_
  refine always_outcome_bind (safe_validated digest) fun _ => ?_
  refine always_outcome_bind (safe_removeFileIfExists rfl) fun _ => ?_
  refine always_outcome_bind ?_ fun _ => safe_removeFileIfExists rfl
  unfold removeListedVariant
  split
  · exact safe_removeFileIfExists rfl
  · exact always_ret _

theorem safe_loadRecords (digests : List Digest) :
    Safe env copies (outcome (loadRecords kind digests)) := by
  induction digests with
  | nil => exact always_ret _
  | cons digest rest ih =>
    refine always_outcome_bind (safe_loadMetadata kind digest) fun _ => ?_
    exact always_outcome_bind ih fun _ => always_ret _

theorem safe_ensureBlobExists : Safe env copies (outcome (BlobStore.ensureBlobExists digest)) := by
  refine always_outcome_bind (safe_validated digest) fun _ => ?_
  exact always_outcome_bind (safe_try fun _ => trivial) fun _ => always_ret _

theorem safe_materializeBlobForDigest (id : WorkorderId) (target : StagedTarget) :
    Safe env true (outcome (BlobStore.materializeBlobForDigest id target digest)) := by
  refine always_outcome_bind (safe_ensureBlobExists digest) fun _ => ?_
  refine always_outcome_bind (safe_try fun _ => trivial) fun _ => ?_
  refine always_outcome_bind (safe_try fun _ => trivial) fun reflinked => ?_
  cases reflinked with
  | true => exact always_ret _
  | false =>
    refine always_bind (safe_call fun _ => ⟨rfl,rfl,.inr ⟨rfl,rfl⟩⟩) fun r => ?_
    cases r with
    | ok _ => exact always_ret _
    | error failure =>
      dsimp only
      split
      · exact safe_try fun _ => ⟨rfl,rfl⟩
      · exact always_ret _

theorem safe_storeFiles (o : StoreOp) : Safe env true (storeFiles env o) := by
  cases o with
  | now => exact fun _ => ⟨trivial,fun _ => trivial⟩
  | ensureBlobExists digest => exact safe_ensureBlobExists digest
  | loadBlobMetadata digest => exact safe_loadMetadata .blob digest
  | storeBlob bytes => exact safe_storeBlob bytes
  | storeBlobForDigest digest bytes => exact safe_storeBlobForDigest digest bytes
  | storeTree entries => exact safe_storeTree entries
  | rawSize kind digest =>
    exact always_outcome_bind (safe_validated digest) fun _ => safe_try fun _ => trivial
  | touch kind digest lastReferencedAt => exact safe_touchEntry kind digest lastReferencedAt
  | listMetadata kind =>
    exact always_outcome_bind (safe_try fun _ => trivial) fun digests =>
      safe_loadRecords kind digests
  | delete kind digest => exact safe_deleteEntry kind digest
  | clearRuntimeDir id =>
    exact always_outcome_bind (safe_try fun _ => trivial) fun _ => safe_try fun _ => trivial
  | removeRuntimeDir id => exact safe_try fun _ => trivial
  | materialize id target digest => exact safe_materializeBlobForDigest digest id target
  | writeWorkorderJson id config => exact safe_try fun _ => rfl
  | readParityManifest id => exact safe_try fun _ => trivial
  | readDistfileManifest id => exact safe_try fun _ => trivial
  | readOutputBlob id digest => exact safe_try fun _ => trivial

/-- Watches a session for the bytes that were stored under a digest: only a
stream that decodes to them may be kept as the encoded variant. -/
def streamMonitor (env : Codecs) : Monitor SessionOp SessionRes (Option (Digest × Bytes)) where
  allows := fun q o =>
    match o with
    | .storeEncodedVariant digest _ bytes =>
      ∃ raw, q = some (digest,raw) ∧ env.decodeZstd bytes = some raw
    | _ => True
  next := fun q o r =>
    match o,r with
    | .storeBlobForDigest digest raw,.ok _ => some (digest,raw)
    | _,_ => q

def StoredAs (env : Codecs) (q : Option (Digest × Bytes)) : Prop :=
  ∀ digest raw, q = some (digest,raw) → env.sha256 raw = digest

theorem safe_persistBlobUploadState (state : PersistedBlobUploadState) :
    Safe env copies (outcome (persistBlobUploadState state)) := by
  refine always_outcome_bind (safe_try fun _ => trivial) fun _ q => ?_
  rw [outcome_bind]
  refine ⟨.inr trivial,fun r => ?_⟩
  cases r with
  | ok uuid =>
    exact ⟨.inr ⟨rfl,rfl,uuid,.session state,rfl,rfl,trivial⟩,fun _ => trivial⟩
  | error failure => trivial

theorem conforms_sessionFiles (q : Option (Digest × Bytes)) (o : SessionOp) (hq : StoredAs env q)
    (ho : (streamMonitor env).allows q o) (r : Watch) :
    Conforms (storeMonitor env copies) (fun _ a => StoredAs env ((streamMonitor env).next q o a)) r
      (sessionFiles env o) := by
  have plain : ∀ {α : Type} {p : Prog FileOp FileRes α}, Safe env copies p →
      Conforms (storeMonitor env copies) (fun _ _ => StoredAs env q) r p := fun hp =>
    conforms_mono (hp r) fun _ _ _ => hq
  cases o with
  | hasBlob digest =>
    exact plain (always_outcome_bind (safe_validated digest) fun _ => safe_hasFile _)
  | loadState digest =>
    refine plain (always_bind (safe_call fun _ => trivial) fun r => ?_)
    split
    · exact always_ret _
    · exact always_ret _
    · split <;> exact always_ret _
  | persistState state => exact plain (safe_persistBlobUploadState state)
  | statPart digest => exact plain (safe_try fun _ => trivial)
  | appendPart digest payload => exact plain (safe_try fun _ => rfl)
  | readPart digest =>
    refine plain (always_outcome_bind (safe_try fun _ => trivial) fun content => ?_)
    cases content <;> exact always_ret _
  | removeState digest | removePart digest => exact plain (safe_removeFileIfExists rfl)
  | storeBlobForDigest digest bytes =>
    refine conforms_mono (conforms_storeBlobForDigest digest bytes r) fun _ a ha => ?_
    cases a with
    | ok uploaded =>
      intro digest' raw he
      cases he
      exact ha uploaded rfl
    | error failure => exact hq
  | storeEncodedVariant digest rawSizeBytes bytes =>
    obtain ⟨raw,rfl,hd⟩ := ho
    exact plain (safe_storeEncodedBlobVariant digest rawSizeBytes
      ⟨bytes,raw,rfl,hd,hq digest raw rfl⟩)

theorem always_sessionCall {o : SessionOp} (h : ∀ q, (streamMonitor env).allows q o) :
    AlwaysConforms (streamMonitor env) (outcome (sessionCall o)) := fun q =>
  ⟨h q,fun _ => trivial⟩

theorem always_removeBlobUploadState (digest : Digest) :
    AlwaysConforms (streamMonitor env) (outcome (removeBlobUploadState digest)) :=
  always_outcome_bind (always_sessionCall fun _ => trivial) fun _ =>
    always_sessionCall fun _ => trivial

theorem always_partLength (digest : Digest) :
    AlwaysConforms (streamMonitor env) (outcome (partLength digest)) := by
  refine fun q => ⟨trivial,fun r => ?_⟩
  cases r with
  | ok length => trivial
  | error failure =>
    show Conforms _ _ _ (if _ then _ else _)
    split <;> trivial

theorem always_prepareBlobUploadSession (params : SessionParams) :
    AlwaysConforms (streamMonitor env) (outcome (prepareBlobUploadSession params)) := by
  refine always_outcome_bind (always_sessionCall fun _ => trivial) fun loaded => ?_
  refine always_outcome_bind (always_ret _) fun _ => ?_
  refine always_outcome_bind (always_partLength _) fun received => ?_
  dsimp only
  split
  · exact always_outcome_bind (always_removeBlobUploadState _) fun _ => always_ret _
  · refine always_outcome_bind (always_ret _) fun state => ?_
    exact always_outcome_bind (always_sessionCall fun _ => trivial) fun _ => always_ret _

theorem always_appendBlobUploadChunk (params : SessionParams) (payload : Bytes) :
    AlwaysConforms (streamMonitor env) (outcome (appendBlobUploadChunk params payload)) := by
  refine always_outcome_bind (always_prepareBlobUploadSession params) fun state => ?_
  dsimp only
  split
  · exact always_ret _
  · split
    · exact always_ret _
    · refine always_outcome_bind (always_sessionCall fun _ => trivial) fun _ => ?_
      exact always_outcome_bind (always_sessionCall fun _ => trivial) fun _ => always_ret _

theorem always_storeStream (digest : Digest) (state : PersistedBlobUploadState) (stream : Bytes) :
    AlwaysConforms (streamMonitor env) (outcome (storeStream env digest state stream)) := by
  unfold storeStream
  rw [outcome_bind]
  cases hd : decodeStream env state.selectedEncoding stream with
  | error failure => exact always_ret _
  | ok raw =>
    show AlwaysConforms _ (outcome (ite _ _ _))
    split
    · exact always_ret _
    · rw [outcome_bind]
      refine fun q => ⟨trivial,fun r => ?_⟩
      cases r with
      | error failure => trivial
      | ok uploaded =>
        show Conforms _ _ (some (digest,raw)) (outcome (ite _ _ _))
        split
        · next he =>
          have hraw : env.decodeZstd stream = some raw := by
            rw [he] at hd
            simp only [decodeStream,if_true] at hd
            split at hd
            · next raw' hr =>
              cases hd
              exact hr
            · cases hd
          rw [outcome_bind]
          refine ⟨⟨raw,rfl,hraw⟩,fun r => ?_⟩
          cases r with
          | error failure => trivial
          | ok _ =>
            exact always_outcome_bind (always_removeBlobUploadState digest)
              (fun _ => always_ret _) _
        · exact always_outcome_bind (always_removeBlobUploadState digest) (fun _ => always_ret _) _

theorem always_finalizeBlobUploadSession (digest : Digest) :
    AlwaysConforms (streamMonitor env) (outcome (finalizeBlobUploadSession env digest)) := by
  refine always_outcome_bind ?_ fun state => ?_
  · refine always_outcome_bind (always_sessionCall fun _ => trivial) fun loaded => ?_
    cases loaded <;> exact always_ret _
  · refine always_outcome_bind (always_partLength digest) fun received => ?_
    dsimp only
    split
    · exact always_ret _
    · refine always_outcome_bind (always_sessionCall fun _ => trivial) fun stream => ?_
      exact always_storeStream digest state stream

theorem safe_session {α : Type} {p : SessionProg α}
    (h : AlwaysConforms (streamMonitor env) (outcome p)) :
    Safe env copies (interpret (sessionFiles env) (outcome p)) := fun q =>
  conforms_mono (conforms_interpret (StoredAs env) conforms_sessionFiles (h none)
    (fun _ _ he => nomatch he) q) fun _ _ _ => trivial

end

section
variable {env : Codecs} {copies : Bool} {digest : Digest}

def Served (digest : Digest) (q : Watch) (answer : DownloadAnswer) : Prop :=
  ∀ response, answer = .ok response → q.fetched = some (servedName digest response,response.body)

theorem conforms_serveRaw (q : Watch) :
    Conforms (storeMonitor env copies) (Served digest) q (serveRaw digest) := by
  unfold serveRaw
  split
  · intro _ h
    cases h
  · refine ⟨.inr trivial,fun r => ?_⟩
    cases r with
    | ok content =>
      cases content with
      | bytes body =>
        intro response he
        cases he
        rfl
      | _ =>
        intro _ h
        cases h
    | error failure =>
      show Conforms _ _ _ (if _ then _ else _)
      split
      all_goals
        intro _ h
        cases h

theorem conforms_serveEncoded (q : Watch) :
    Conforms (storeMonitor env copies) (Served digest) q (serveEncoded digest) := by
  refine ⟨.inr trivial,fun r => ?_⟩
  cases r with
  | ok content =>
    cases content with
    | bytes body =>
      intro response he
      cases he
      rfl
    | _ =>
      intro _ h
      cases h
  | error failure =>
    show Conforms _ _ _ (if _ then _ else _)
    split
    · exact conforms_serveRaw _
    · intro _ h
      cases h

theorem conforms_downloadBlob (text : UnicodeText) (registry : CertRegistry)
    (headers : HeaderMap) (q : Watch) :
    Conforms (storeMonitor env copies) (Served digest) q
      (downloadBlob text registry headers digest) := by
  unfold downloadBlob
  split
  · intro _ h
    cases h
  · split
    · refine conforms_bind (safe_loadMetadata .blob digest q) fun q' metadata _ => ?_
      split
      · exact conforms_serveEncoded q'
      · exact conforms_serveRaw q'
    · exact conforms_serveRaw q

end

theorem storeSystem_obeys (env : Codecs) (text : UnicodeText) (registry : CertRegistry) :
    Obeys (storeSystem env text registry) (storeDiscipline env) := by
  intro k
  cases k with
  | store bytes => exact safe_done (safe_storeBlob bytes) _
  | storeForDigest digest bytes => exact safe_done (safe_storeBlobForDigest digest bytes) _
  | prepare params => exact safe_done (safe_session (always_prepareBlobUploadSession params)) _
  | append params payload =>
    exact safe_done (safe_session (always_appendBlobUploadChunk params payload)) _
  | finalize digest => exact safe_done (safe_session (always_finalizeBlobUploadSession digest)) _
  | touch kind digest time => exact safe_done (safe_touchEntry kind digest time) _
  | delete kind digest => exact safe_done (safe_deleteEntry kind digest) _
  | normalize config | stage id config | ingestParity id | ingestDistfiles id =>
    exact safe_done (always_interpret safe_storeFiles _) _
  | cleanup id =>
    have h : Safe env false (outcome (diskTry (.clearRuntime id) "Failed to remove")) :=
      safe_try fun _ => trivial
    exact safe_done h _
  | download headers digest =>
    refine conforms_bind (conforms_downloadBlob text registry headers _) fun q answer h => ?_
    exact ⟨.inr h,fun _ => rfl⟩

end Remerge.StoreDiscipline

import Remerge.BlobStore

/-!
# Metadata and sidecars of blobs

What the calls of the blob store do to the metadata file and to the compressed
sidecar of each digest when nothing runs beside them. Up to its last write a call
has at most made the metadata of a blob that had none, and a sidecar.
-/

set_option autoImplicit false

namespace Remerge.MetadataFiles
open StepProgram SnapshotTypes SnapshotStore InodeFiles UploadSessions BlobStore Function

variable {s s' : StoreDisk} {along : StoreDisk → Prop} {t : StoreName}

section
variable {α β : Type}

/-- The first condition holds before every operation of the program. -/
abbrev Throughout (along : StoreDisk → Prop) (p : Prog FileOp FileRes α)
    (post : StoreDisk → α → Prop) (s : StoreDisk) : Prop :=
  Safely fileSem (fun _ _ => True) (fun _ => along) p post s

/-- A call that ends well with one condition. At every point before, and after an
error, another one holds. -/
def Ensures (x : FileProg α) (done : StoreDisk → α → Prop) (along : StoreDisk → Prop)
    (s : StoreDisk) : Prop :=
  Throughout along (outcome x) (fun s' r => match r with
    | .ok a => done s' a
    | .error _ => along s') s

variable {x : FileProg α} {done : StoreDisk → α → Prop}

theorem ensures_bind {f : α → FileProg β} (done : StoreDisk → α → Prop)
    {done' : StoreDisk → β → Prop} (hx : Ensures x done along s)
    (hf : ∀ s' a, done s' a → Ensures (f a) done' along s') : Ensures (x >>= f) done' along s := by
  unfold Ensures
  rw [outcome_bind]
  refine safely_seq hx fun s' r h => ?_
  cases r with
  | ok a => exact hf s' a h
  | error e => exact h

theorem ensures_mono {done' : StoreDisk → α → Prop} {along' : StoreDisk → Prop}
    (hx : Ensures x done along s) (h : ∀ s' a, done s' a → done' s' a)
    (ha : ∀ s', along s' → along' s') : Ensures x done' along' s := by
  refine safely_mono hx (fun s' r h' => ?_) fun _ => ha
  cases r with
  | ok a => exact h s' a h'
  | error e => exact ha s' h'

theorem ensures_try {op : DiskOp} {context : String} {done : StoreDisk → DiskVal op → Prop}
    (now : along s) (h : ∀ w s' (r : Except Failure (DiskVal op)),
      fileSem (.disk op) w s = some (s',r) → match r with
        | .ok a => done s' a
        | .error _ => along s') : Ensures (diskTry op context) done along s := by
  refine ⟨now,fun w s' r hs _ => ?_⟩
  have h' := h w s' r hs
  cases r with
  | ok a => exact h'
  | error e => exact h'

theorem ensures_validated {digest : Digest} (now : along s) :
    Ensures (validated digest) (fun s' _ => s' = s) along s := by
  unfold validated
  split
  · exact now
  · exact rfl

end

def look (s : StoreDisk) : StoreName → Option Content
  | .temp _ => none
  | n => s.read n

section
variable {w : FileOracle}

theorem look_of_read {f : StoreName → Option Content} (hf : ∀ u, f (.temp u) = none)
    (h : ∀ n, (∀ u, n ≠ .temp u) → s'.read n = f n) : look s' = f := by
  funext n
  cases n with
  | temp u => exact (hf u).symm
  | _ => exact h _ nofun

theorem look_update (ht : ∀ u, t ≠ .temp u) {c : Option Content}
    (h : ∀ n, (∀ u, n ≠ .temp u) → s'.read n = if n = t then c else s.read n) :
    look s' = update (look s) t c := by
  refine look_of_read (fun u => update_of_ne (ht u).symm _ _) fun n hn => ?_
  rw [h n hn,update_apply]
  cases n with
  | temp u => exact absurd rfl (hn u)
  | _ => rfl

theorem read_of_look (ht : ∀ u, t ≠ .temp u) : s.read t = look s t := by
  cases t with
  | temp u => exact absurd rfl (ht u)
  | _ => rfl

variable {c : Content} {u : Uuid} {r : Except Failure Unit} {context : String} {op : DiskOp}

theorem look_create (h : s.inode (.temp u) = none) (c : Content) :
    look (s.create (.temp u) c) = look s ∧ (s.create (.temp u) c).read (.temp u) = some c := by
  rw [Disk.create_eq_write h]
  have hr := Disk.read_write (Disk.alone_of_free h) c
  exact ⟨look_of_read (fun _ => rfl) fun n hn =>
    ((hr n).trans (if_neg (hn u))).trans (read_of_look hn),(hr _).trans (if_pos rfl)⟩

theorem look_writeTemp {r : Except Failure Uuid}
    (hs : fileSem (.disk (.writeTemp c)) w s = some (s',r)) :
    look s' = look s ∧ ∀ u, r = .ok u → s'.read (.temp u) = some c := by
  simp only [fileSem,DiskOp.makesTemp,Bool.true_and,Option.ite_none_left_eq_some] at hs
  obtain ⟨fresh,hs⟩ := hs
  have free : s.inode (.temp w.uuid) = none := by simpa using fresh
  split at hs
  · cases hs
    refine ⟨?_,fun _ h => by cases h⟩
    cases ht : w.torn with
    | none => simp [afterFault,ht]
    | some b => simpa [afterFault,ht] using (look_create free (.bytes b)).1
  · cases hs
    refine ⟨(look_create free c).1,?_⟩
    rintro u hu
    cases hu
    exact (look_create free c).2

theorem ensures_writeTemp (h : ∀ s', look s' = look s → along s') :
    Ensures (diskTry (.writeTemp c) context)
      (fun s' u => look s' = look s ∧ s'.read (.temp u) = some c) along s := by
  refine ensures_try (h s rfl) fun w s' r hs => ?_
  have e := look_writeTemp hs
  cases r with
  | ok u => exact ⟨e.1,e.2 u rfl⟩
  | error _ => exact h s' e.1

theorem disk_of_sem {r : Except Failure (DiskVal op)} (ht : op.makesTemp = false)
    (hs : fileSem (.disk op) w s = some (s',r)) :
    (s' = afterFault w s op ∧ r = .error (.io .other "")) ∨ (s',r) = diskEffect w s op := by
  simp only [fileSem,ht,Bool.false_and] at hs
  split at hs
  · next h => cases h
  · split at hs
    · cases hs
      exact .inl ⟨rfl,rfl⟩
    · exact .inr (Option.some.inj hs).symm

def readsOnly : DiskOp → Bool
  | .stat _ | .read _ | .createDirs _ => true
  | _ => false

theorem same_of_readsOnly {r : Except Failure (DiskVal op)} (h : readsOnly op)
    (hs : fileSem (.disk op) w s = some (s',r)) : s' = s := by
  cases op <;> cases h <;> rcases disk_of_sem rfl hs with ⟨e,-⟩ | e <;>
    first | exact e | exact congrArg Prod.fst e

theorem ensures_reading (h : readsOnly op) (now : along s) :
    Ensures (diskTry op context) (fun s' _ => s' = s) along s := by
  refine ensures_try now fun w s' r hs => ?_
  have e := same_of_readsOnly h hs
  cases r with
  | ok a => exact e
  | error _ => exact e ▸ now

theorem found_of_sem {a : DiskVal op} {x : Option (DiskVal op)}
    (h : diskEffect w s op = (s,found x)) (ht : op.makesTemp = false)
    (hs : fileSem (.disk op) w s = some (s',.ok a)) : x = some a := by
  rcases disk_of_sem ht hs with ⟨-,e⟩ | e
  · cases e
  · rw [h] at e
    cases x with
    | none => cases e
    | some b =>
      cases e
      rfl

theorem read_removed {name : StoreName} (hs : fileSem (.disk (.remove name)) w s = some (s',r)) :
    match r with
    | .ok _ => ∀ n, s'.read n = if n = name then none else s.read n
    | .error e => s' = s ∧ (e.isNotFoundError → s.read name = none) := by
  rcases disk_of_sem rfl hs with ⟨rfl,rfl⟩ | e
  · exact ⟨rfl,nofun⟩
  · simp only [diskEffect] at e
    split at e
    · next h =>
      cases e
      exact ⟨rfl,fun _ => Disk.read_eq_none.mpr (Option.isNone_iff_eq_none.mp h)⟩
    · cases e
      exact Disk.read_remove _

theorem look_removed (hs : fileSem (.disk (.remove (.temp u))) w s = some (s',r)) :
    look s' = look s := by
  have e := read_removed hs
  cases r with
  | ok _ => exact look_of_read (fun _ => rfl) fun n hn =>
    ((e n).trans (if_neg (hn u))).trans (read_of_look hn)
  | error _ => rw [e.1]

theorem look_rename (ht : ∀ u, t ≠ .temp u) (hu : s.read (.temp u) = some c)
    (hs : fileSem (.disk (.rename (.temp u) t)) w s = some (s',r)) : match r with
    | .ok _ => look s' = update (look s) t (some c)
    | .error _ => look s' = look s := by
  rcases disk_of_sem rfl hs with ⟨rfl,rfl⟩ | e
  · rfl
  · simp only [diskEffect] at e
    split at e
    · cases e
      rfl
    · cases e
      refine look_update ht fun n hn => ?_
      rw [Disk.read_rename (ht u).symm,hu]
      simp [hn u]

theorem isDir_of_parents (h : ∀ other, t ∉ parents other) : isDir s t = false := by
  unfold isDir
  rw [List.any_eq_false]
  intro other _
  simpa using h other

theorem look_hardLink (ht : ∀ u, t ≠ .temp u) (hp : ∀ other, t ∉ parents other)
    (hu : s.read (.temp u) = some c)
    (hs : fileSem (.disk (.hardLink (.temp u) t)) w s = some (s',r)) : match r with
    | .ok _ => look s' = update (look s) t ((look s t).or (some c))
    | .error e => s' = s ∧ (Failure.isKind .alreadyExists e → look s t ≠ none) ∧
        Failure.isKind .crossesDevices e = false := by
  rcases disk_of_sem rfl hs with ⟨rfl,rfl⟩ | e
  · exact ⟨rfl,(fun h => by cases h),rfl⟩
  · simp only [diskEffect,isDir_of_parents hp,Bool.or_false] at e
    split at e
    · cases e
      exact ⟨rfl,(fun h => by cases h),rfl⟩
    · split at e
      · next hi =>
        cases e
        refine ⟨rfl,fun _ => ?_,rfl⟩
        rw [← read_of_look ht]
        rw [← Disk.read_isSome] at hi
        exact Option.isSome_iff_ne_none.mp hi
      · next hi =>
        cases e
        have free : s.read t = none := Disk.read_eq_none.mpr (by simpa using hi)
        rw [← read_of_look ht,free,Option.none_or]
        refine look_update ht fun n _ => ?_
        rw [Disk.read_link,hu,Option.some_or]

end

variable {d : Digest} {size : ℕ}

abbrev rawFile (d : Digest) : StoreName := .raw .blob d
abbrev sidecar (d : Digest) : StoreName := .encoded .blob d
abbrev metadataFile (d : Digest) : StoreName := .metadata .blob d

theorem sidecar_ne : sidecar d ≠ metadataFile d := nofun

theorem loadMetadata_reads :
    Throughout (fun s' => s' = s) (outcome (loadMetadata .blob d)) (fun s' r => s' = s ∧ match r with
      | .ok m => look s (metadataFile d) = some (.metadata m)
      | .error e => e.isNotFoundError → look s (metadataFile d) = none) s := by
  unfold loadMetadata validated
  split
  · exact ⟨rfl,nofun⟩
  · refine ⟨rfl,fun w s' r hs _ => ?_⟩
    have same := same_of_readsOnly rfl hs
    rcases disk_of_sem rfl hs with ⟨-,rfl⟩ | e
    · exact ⟨same,nofun⟩
    · have hr : r = found (s.read (metadataFile d)) := congrArg Prod.snd e
      subst same
      cases hm : s'.read (metadataFile d) with
      | none =>
        rw [hm] at hr
        subst hr
        exact ⟨rfl,fun _ => hm⟩
      | some c =>
        rw [hm] at hr
        subst hr
        cases c with
        | metadata m => exact ⟨rfl,hm⟩
        | _ => exact ⟨rfl,nofun⟩

theorem ensures_persistMetadata (m : StoredMetadata) :
    Ensures (persistMetadata .blob d m)
      (fun s' _ => look s' = update (look s) (metadataFile d) (some (.metadata m)))
      (fun s' => look s' = look s) s := by
  refine ensures_bind _ (ensures_validated rfl) fun s1 _ h => ?_
  subst h
  refine ensures_bind _ (ensures_reading rfl rfl) fun s2 _ h => ?_
  subst h
  refine ensures_bind _ (ensures_writeTemp fun s' e => e) fun s3 u h3 => ?_
  refine ⟨h3.1,fun w s' r hs _ => ?_⟩
  have e := look_rename (t := metadataFile d) nofun h3.2 hs
  cases r with
  | ok u => exact h3.1 ▸ e
  | error f =>
    have e' : look s' = look s2 := Eq.trans e h3.1
    exact ⟨e',fun w' s'' r' hs' _ => (look_removed hs').trans e'⟩

theorem ensures_newMetadata :
    Ensures (newMetadata .blob d size)
      (fun s' m => m.rawSizeBytes = size ∧ m.encodedVariants = none ∧
        look s' = update (look s) (metadataFile d) (some (.metadata m)))
      (fun s' => look s' = look s) s := by
  refine ensures_bind (fun s' _ => s' = s) ?_ fun s1 now h => ?_
  · refine ⟨rfl,fun w s' r hs _ => ?_⟩
    cases hs
    rfl
  · subst h
    exact ensures_bind _ (ensures_persistMetadata _) fun s' _ h => ⟨rfl,rfl,h⟩

def Ensured (d : Digest) (size : ℕ) (s : StoreDisk) (m : StoredMetadata) : Prop :=
  m.rawSizeBytes = size ∧ (look s (metadataFile d) = some (.metadata m) ∨
    look s (metadataFile d) = none ∧ m.encodedVariants = none)

theorem ensures_ensureMetadata :
    Ensures (ensureMetadata .blob d size)
      (fun s' m => Ensured d size s m ∧
        look s' = update (look s) (metadataFile d) (some (.metadata m)))
      (fun s' => look s' = look s) s := by
  refine safely_seq (safely_mono loadMetadata_reads (fun _ _ h => h) fun _ s' h => ?_) ?_
  · rw [h]
  rintro s1 r ⟨rfl,h⟩
  cases r with
  | ok m =>
    dsimp only [refusedMetadata]
    cases hm : metadataMismatch d size m with
    | some failure => rfl
    | none =>
      have e : m.rawSizeBytes = size := by
        unfold metadataMismatch at hm
        split at hm
        · cases hm
        · split at hm
          · cases hm
          · next h' => exact not_not.mp h'
      refine ⟨⟨e,.inl h⟩,?_⟩
      rw [← h,update_eq_self]
  | error e =>
    change Throughout _ (if e.isNotFoundError = true then _ else _) _ _
    by_cases hn : e.isNotFoundError
    · rw [if_pos hn]
      exact ensures_mono ensures_newMetadata
        (fun s' m hm => ⟨⟨hm.1,.inr ⟨h hn,hm.2.1⟩⟩,hm.2.2⟩) fun _ => id
    · rw [if_neg hn]
      rfl

/-- What a call has left before its last write: the metadata it goes by, and a sidecar. -/
def Underway (d : Digest) (s s' : StoreDisk) : Prop :=
  look s' = look s ∨ ∃ size m side, Ensured d size s m ∧ look s' =
    update (update (look s) (metadataFile d) (some (.metadata m))) (sidecar d) side

theorem underway_of_look {s1 : StoreDisk} (h : Underway d s s1) (e : look s' = look s1) :
    Underway d s s' := by
  unfold Underway
  rwa [e]

theorem underway_of_ensured {m : StoredMetadata} (h : Ensured d size s m)
    (e : look s' = update (look s) (metadataFile d) (some (.metadata m))) : Underway d s s' := by
  refine .inr ⟨size,m,look s' (sidecar d),h,?_⟩
  rw [← e,update_eq_self]

theorem ensures_statFile {name : StoreName} {context : String} (now : along s) :
    Ensures (diskTry (.stat name) context)
      (fun s' n => s' = s ∧ (s.read name).map Content.size = some n) along s := by
  refine ensures_try now fun w s' r hs => ?_
  have same := same_of_readsOnly rfl hs
  cases r with
  | error _ => exact same ▸ now
  | ok n => exact ⟨same,found_of_sem rfl rfl hs⟩

theorem ensures_touchEntry (t : Time) :
    Ensures (touchEntry .blob d t)
      (fun s' _ => ∃ size m, (look s (rawFile d)).map Content.size = some size ∧
        Ensured d size s m ∧ look s' = update (look s) (metadataFile d)
          (some (.metadata { m with lastReferencedAt := t })))
      (Underway d s) s := by
  refine ensures_bind _ (ensures_validated (.inl rfl)) fun s1 _ h => ?_
  subst h
  refine ensures_bind _ (ensures_statFile (.inl rfl)) fun s2 size h => ?_
  obtain ⟨rfl,hsize⟩ := h
  refine ensures_bind _ (ensures_mono ensures_ensureMetadata (fun _ _ h => h)
    fun _ h => .inl h) fun s3 m h3 => ?_
  refine ensures_bind _ (ensures_mono (ensures_persistMetadata _) (fun _ _ h => h)
    fun s' h => underway_of_look (underway_of_ensured h3.1 h3.2) h) fun s4 _ h4 => ?_
  refine ⟨size,m,hsize,h3.1,?_⟩
  rw [h4,h3.2,update_idem]

theorem ensures_writeBytesAtomically (ht : ∀ u, t ≠ .temp u) (hp : ∀ other, t ∉ parents other)
    (b : Bytes) :
    Ensures (writeBytesAtomically t b)
      (fun s' _ => look s' = update (look s) t ((look s t).or (some (.bytes b))))
      (fun s' => look s' = look s ∨
        look s' = update (look s) t ((look s t).or (some (.bytes b)))) s := by
  refine ensures_bind _ (ensures_writeTemp fun _ h => .inl h) fun s1 u h1 => ?_
  -- Whatever the link answered, the temporary file is removed afterwards.
  have removed : ∀ (s2 : StoreDisk) (placed : Except Failure Bool), (match placed with
      | .ok _ => look s2 = update (look s) t ((look s t).or (some (.bytes b)))
      | .error _ => look s2 = look s) →
      Ensures (ExceptT.mk (diskCall (.remove (.temp u)) >>= fun _ => .ret placed))
        (fun s' _ => look s' = update (look s) t ((look s t).or (some (.bytes b))))
        (fun s' => look s' = look s ∨
          look s' = update (look s) t ((look s t).or (some (.bytes b)))) s2 := by
    intro s2 placed h
    cases placed with
    | ok a => exact ⟨.inr h,fun w s' r hs _ => (look_removed hs).trans h⟩
    | error f => exact ⟨.inl h,fun w s' r hs _ => .inl ((look_removed hs).trans h)⟩
  refine ⟨.inl h1.1,fun w s2 r hs _ => ?_⟩
  have e := look_hardLink ht hp h1.2 hs
  cases r with
  | ok a => exact removed s2 (.ok true) (h1.1 ▸ e)
  | error f =>
    obtain ⟨rfl,there,here⟩ := e
    change Throughout _ ((if Failure.isKind .alreadyExists f = true then _ else
      if Failure.isKind .crossesDevices f = true then _ else _) >>= _) _ _
    by_cases hk : Failure.isKind .alreadyExists f
    · rw [if_pos hk]
      refine removed s2 (.ok false) ?_
      obtain ⟨c,hc⟩ := Option.ne_none_iff_exists'.mp (there hk)
      rw [h1.1] at hc
      change look s2 = _
      rw [h1.1,hc,Option.some_or,← hc,update_eq_self]
    · rw [if_neg hk,here,if_neg (by simp)]
      exact removed s2 (.error (Failure.withContext "Failed to link" f)) h1.1

theorem not_parent (h : ∀ id segments, t ≠ .staged id segments) (other : StoreName) :
    t ∉ parents other := by
  cases other with
  | staged id segments =>
    rw [parents,List.mem_map]
    rintro ⟨dir,-,e⟩
    exact h id dir e.symm
  | _ => exact List.not_mem_nil

theorem ensures_storeEncodedBlobVariant (b : Bytes) :
    Ensures (storeEncodedBlobVariant d size b)
      (fun s' _ => ∃ m, Ensured d size s m ∧ look s' = update
        (update (look s) (metadataFile d)
          (some (.metadata { m with encodedVariants := some b.length })))
        (sidecar d) ((look s (sidecar d)).or (some (.bytes b))))
      (Underway d s) s := by
  refine ensures_bind _ (ensures_mono ensures_ensureMetadata (fun _ _ h => h)
    fun _ h => .inl h) fun s1 m h1 => ?_
  have underway : Underway d s s1 := underway_of_ensured h1.1 h1.2
  split
  · exact underway
  · refine ensures_bind _ (ensures_validated underway) fun s2 _ h => ?_
    subst h
    refine ensures_bind _ (ensures_reading rfl underway) fun s3 _ h => ?_
    subst h
    have side : look s3 (sidecar d) = look s (sidecar d) := by
      rw [h1.2,update_of_ne sidecar_ne]
    have written := ensures_writeBytesAtomically (s := s3) (t := sidecar d) nofun
      (not_parent nofun) b
    rw [side,h1.2] at written
    have both : ∀ s', look s' = update
        (update (look s) (metadataFile d) (some (.metadata m))) (sidecar d)
        ((look s (sidecar d)).or (some (.bytes b))) → Underway d s s' := fun s' h =>
      .inr ⟨size,m,_,h1.1,h⟩
    refine ensures_bind _ (ensures_mono written (fun _ _ h => h) ?_) fun s4 _ h4 => ?_
    · rintro s' (h | h)
      · exact underway_of_look underway (h.trans h1.2.symm)
      · exact both s' h
    · refine ensures_mono (ensures_persistMetadata _) (fun s' _ h => ⟨m,h1.1,?_⟩)
        fun s' h => underway_of_look (both s4 h4) h
      rw [h,h4,update_comm sidecar_ne,update_idem]

end Remerge.MetadataFiles

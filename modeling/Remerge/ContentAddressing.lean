import Remerge.StoreDiscipline

/-!
# Content addressing

Every raw blob file hashes to the digest it is stored under, and every encoded
one decodes to bytes that do, in every state that any interleaving of requests
on the store reaches. One thing breaks it: staging copies onto a target that
already exists, and such a target shares its inode with a raw file. Manifest
keys that normalise to one path bring this about.
-/

set_option autoImplicit false

namespace Remerge.ContentAddressing
open StepProgram SnapshotTypes StagingPaths SnapshotStore SnapshotRuntime UploadSessions
open Interleaving ClientAuth InodeFiles BlobStore StoreTasks StoreDiscipline Function

variable {env : Codecs}

def Addressed (env : Codecs) (s : StoreDisk) : Prop :=
  ∀ name content, s.read name = some content → Genuine env name content

variable {name : StoreName}

theorem genuine_of_inPlace (h : inPlace name) (content : Content) : Genuine env name content := by
  unfold inPlace at h
  split at h <;> trivial

section

/-- What one step does to the files, for a task that owns some temporary files. -/
structure DiskEffect (env : Codecs) (mine : Uuid → Prop) (s s' : StoreDisk) : Prop where
  content : ∀ name content, s'.read name = some content →
    s.read name = some content ∨ Genuine env name content
  alone : ∀ name, inPlace name → s'.Alone name
  others : ∀ uuid, ¬ mine uuid → s.read (.temp uuid) ≠ none →
    s'.read (.temp uuid) = s.read (.temp uuid)

variable {mine : Uuid → Prop} {s : StoreDisk}

theorem DiskEffect.refl (ha : ∀ name, inPlace name → s.Alone name) :
    DiskEffect env mine s s where
  content := fun _ _ h => .inl h
  alone := ha
  others := fun _ _ _ => rfl

theorem DiskEffect.mono {mine' : Uuid → Prop} {s' : StoreDisk} (h : DiskEffect env mine s s')
    (hm : ∀ uuid, mine uuid → mine' uuid) : DiskEffect env mine' s s' :=
  ⟨h.content,h.alone,fun uuid hn hr => h.others uuid (fun hu => hn (hm uuid hu)) hr⟩

theorem diskEffect_write (ha : ∀ name, inPlace name → s.Alone name)
    (h : inPlace name ∨ isTemp name ∧ s.inode name = none) (content : Content) :
    DiskEffect env mine s (s.write name content) := by
  have hname : s.Alone name := h.elim (ha name) fun hf => Disk.alone_of_free hf.2
  refine ⟨fun other c hr => ?_,fun other ho => (ha other ho).write name content,fun uuid _ hr => ?_⟩
  · rw [Disk.read_write hname] at hr
    split at hr
    · next he =>
      subst he
      right
      rcases h with h | h
      · exact genuine_of_inPlace h c
      · cases other <;> first | trivial | cases h.1
    · exact .inl hr
  · rw [Disk.read_write hname]
    split
    · next he =>
      subst he
      rcases h with h | h
      · cases h
      · exact absurd (Disk.read_eq_none.mpr h.2) hr
    · rfl

theorem diskEffect_appended (ha : ∀ name, inPlace name → s.Alone name)
    (h : inPlace name) (payload : Bytes) :
    DiskEffect env mine s (appended s name payload) := by
  unfold appended
  split <;> exact diskEffect_write ha (.inl h) _

variable {uuid : Uuid} {source target : StoreName}

theorem diskEffect_create (ha : ∀ name, inPlace name → s.Alone name)
    (h : s.inode (.temp uuid) = none) (content : Content) :
    DiskEffect env mine s (s.create (.temp uuid) content) := by
  rw [Disk.create_eq_write h]
  exact diskEffect_write ha (.inr ⟨rfl,h⟩) content

theorem diskEffect_link (ha : ∀ name, inPlace name → s.Alone name)
    (hsource : inPlace source = false) (htarget : inPlace target = false)
    (ht : isTemp target = false) (hfree : s.inode target = none)
    (hg : ∀ content, s.read source = some content → Genuine env target content) :
    DiskEffect env mine s (s.link source target) := by
  have hne : ∀ {name other : StoreName}, inPlace name → inPlace other = false →
      name ≠ other := by
    rintro name _ h1 h2 rfl
    rw [h1] at h2
    cases h2
  refine ⟨fun name c hr => ?_,fun name hn => (ha name hn).link (hne hn hsource) (hne hn htarget),
    fun uuid _ _ => ?_⟩
  · rw [Disk.read_link] at hr
    split at hr
    · next he =>
      subst he
      rw [Disk.read_eq_none.mpr hfree,Option.or_none] at hr
      exact .inr (hg c hr)
    · exact .inl hr
  · rw [Disk.read_link,if_neg]
    rintro rfl
    cases ht

theorem diskEffect_copy (ha : ∀ name, inPlace name → s.Alone name)
    (ht : isStaged target) (hfree : s.inode target = none) :
    DiskEffect env mine s (s.copy (.bytes []) source target) := by
  refine ⟨fun name c hr => ?_,fun name hn => (ha name hn).copy _,fun uuid _ _ => ?_⟩
  · rw [Disk.read_copy hfree] at hr
    split at hr
    · next he =>
      subst he
      right
      cases name <;> trivial
    · exact .inl hr
  · rw [Disk.read_copy hfree,if_neg]
    rintro rfl
    cases ht

theorem diskEffect_rename (ha : ∀ name, inPlace name → s.Alone name) {content : Content}
    (htarget : inPlace target = false) (ht : isTemp target = false)
    (hr : s.read (.temp uuid) = some content) (hg : Genuine env target content) :
    DiskEffect env (fun u => u = uuid) s (s.rename (.temp uuid) target) := by
  have hne : StoreName.temp uuid ≠ target := by
    rintro rfl
    cases ht
  refine ⟨fun name c h => ?_,fun name hn => (ha name hn).rename ?_ ?_,fun u hu _ => ?_⟩
  · rw [Disk.read_rename hne] at h
    split at h
    · cases h
    · split at h
      · next he =>
        subst he
        rw [hr,Option.some_or] at h
        cases h
        exact .inr hg
      · exact .inl h
  · rintro rfl
    cases hn
  · rintro rfl
    rw [hn] at htarget
    cases htarget
  · rw [Disk.read_rename hne,if_neg,if_neg]
    · rintro rfl
      cases ht
    · intro he
      cases he
      exact hu rfl

theorem diskEffect_keep (ha : ∀ name, inPlace name → s.Alone name) (p : StoreName → Bool)
    (hp : ∀ uuid, ¬ mine uuid → p (.temp uuid)) : DiskEffect env mine s (s.keep p) := by
  refine ⟨fun name c hr => ?_,fun name hn => (ha name hn).keep p,fun uuid hu _ => ?_⟩
  · rw [Disk.read_keep] at hr
    split at hr
    · exact .inl hr
    · cases hr
  · rw [Disk.read_keep,if_pos (hp uuid hu)]

end

section

/-- No copy goes onto a name that exists. -/
def copiesFresh : Condition StoreTask FileOp FileRes StoreDisk := fun s _ label =>
  match label with
  | .act _ _ (.disk (.copyFile _ target)) _ => s.inode target = none
  | _ => True

def Watch.mine (q : Watch) (uuid : Uuid) : Prop := ∃ content, q.temp = some (uuid,content)

structure Watch.Right (env : Codecs) (q : Watch) (s : StoreDisk) : Prop where
  void : q.void = false
  temp : ∀ uuid content, q.temp = some (uuid,content) → s.read (.temp uuid) = some content
  fetched : ∀ name b, q.fetched = some (name,b) → Genuine env name (.bytes b)

structure StepEffect (env : Codecs) (q q' : Watch) (s s' : StoreDisk) : Prop where
  disk : DiskEffect env (Watch.mine q) s s'
  right : Watch.Right env q' s'
  taken : ∀ uuid, Watch.mine q' uuid → Watch.mine q uuid ∨ s.read (.temp uuid) = none

variable {copies : Bool} {q q' : Watch} {s s' : StoreDisk}

theorem stepEffect_plain (hq : Watch.Right env q s) (h : DiskEffect env (fun _ => False) s s')
    (ht : q'.temp = q.temp) (hv : q'.void = false)
    (hf : ∀ name b, q'.fetched = some (name,b) → Genuine env name (.bytes b)) :
    StepEffect env q q' s s' where
  disk := h.mono fun _ hu => hu.elim
  right := by
    refine ⟨hv,fun uuid content he => ?_,hf⟩
    have hr := hq.temp uuid content (ht ▸ he)
    rw [h.others uuid id (by simp [hr]),hr]
  taken := by
    rintro uuid ⟨content,he⟩
    exact .inl ⟨content,ht ▸ he⟩

theorem stepEffect_release (hq : Watch.Right env q s) (h : DiskEffect env (Watch.mine q) s s')
    (ht : q'.temp = none) (hv : q'.void = q.void) (hf : q'.fetched = q.fetched) :
    StepEffect env q q' s s' where
  disk := h
  right := ⟨hv.trans hq.void,fun uuid content he => by simp [ht] at he,hf ▸ hq.fetched⟩
  taken := by
    rintro uuid ⟨content,he⟩
    rw [ht] at he
    cases he

theorem stepEffect_same (hq : Watch.Right env q s)
    (ha : ∀ name, inPlace name → s.Alone name) : StepEffect env q q s s :=
  stepEffect_plain hq (.refl ha) rfl hq.void hq.fetched

theorem stepEffect_remove (hq : Watch.Right env q s)
    (ha : ∀ name, inPlace name → s.Alone name)
    (hm : ∀ uuid, name = .temp uuid → Watch.mine q uuid) (r : Except Failure Unit)
    (hs : s' = s ∨ s' = s.remove name) : StepEffect env q (diskNext q (.remove name) r) s s' := by
  have hdisk : DiskEffect env (Watch.mine q) s s' := by
    rcases hs with rfl | rfl
    · exact .refl ha
    · refine diskEffect_keep ha _ fun uuid hu => ?_
      have hne : StoreName.temp uuid ≠ name := fun he => hu (hm uuid he.symm)
      simpa using hne
  by_cases ht : ∃ uuid, name = .temp uuid
  · obtain ⟨uuid,rfl⟩ := ht
    exact stepEffect_release hq hdisk rfl rfl rfl
  · have hsame : diskNext q (.remove name) r = q := by
      cases name <;> first | rfl | exact absurd ⟨_,rfl⟩ ht
    rw [hsame]
    have hnone : ∀ uuid, ¬ Watch.mine q uuid ∨ s'.read (.temp uuid) = s.read (.temp uuid) := by
      intro uuid
      right
      rcases hs with rfl | rfl
      · rfl
      · rw [Disk.read_remove,if_neg fun he => ht ⟨uuid,he.symm⟩]
    refine stepEffect_plain hq ⟨hdisk.content,hdisk.alone,fun uuid _ hr => ?_⟩ rfl hq.void
      hq.fetched
    by_cases hu : Watch.mine q uuid
    · exact (hnone uuid).resolve_left (not_not.mpr hu)
    · exact hdisk.others uuid hu hr

variable {op : DiskOp}

theorem stepEffect_fault (hq : Watch.Right env q s)
    (ha : ∀ name, inPlace name → s.Alone name) (w : FileOracle)
    (hop : diskAllows env copies q op)
    (hfresh : op.makesTemp → s.inode (.temp w.uuid) = none) :
    StepEffect env q (diskNext q op (.error (.io .other ""))) s (afterFault w s op) := by
  have plain : ∀ {s'}, DiskEffect env (fun _ => False) s s' → StepEffect env q q s s' := fun h =>
    stepEffect_plain hq h rfl hq.void hq.fetched
  cases op with
  | writeTemp content =>
    apply plain
    show DiskEffect _ _ _ (w.torn.elim s _)
    cases w.torn with
    | none => exact .refl ha
    | some b => exact diskEffect_create ha (hfresh rfl) _
  | writeFile name content =>
    apply plain
    show DiskEffect _ _ _ (w.torn.elim s _)
    cases w.torn with
    | none => exact .refl ha
    | some b => exact diskEffect_write ha (.inl hop) _
  | append name payload =>
    apply plain
    show DiskEffect _ _ _ (w.torn.elim s _)
    cases w.torn with
    | none => exact .refl ha
    | some b => exact diskEffect_appended ha hop _
  | remove name => exact stepEffect_remove hq ha hop _ (.inl rfl)
  | _ => exact stepEffect_same hq ha

theorem stepEffect_writeTemp (hq : Watch.Right env q s)
    (ha : ∀ name, inPlace name → s.Alone name) {uuid : Uuid} (content : Content)
    (hfree : s.inode (.temp uuid) = none) :
    StepEffect env q { q with temp := some (uuid,content) } s (s.create (.temp uuid) content) where
  disk := diskEffect_create ha hfree content
  right := by
    refine ⟨hq.void,fun u c he => ?_,hq.fetched⟩
    cases he
    rw [Disk.create_eq_write hfree,Disk.read_write (Disk.alone_of_free hfree),if_pos rfl]
  taken := by
    rintro u ⟨c,he⟩
    cases he
    exact .inr (Disk.read_eq_none.mpr hfree)

theorem stepEffect_call (hs : Addressed env s) (hq : Watch.Right env q s)
    (ha : ∀ name, inPlace name → s.Alone name) (w : FileOracle)
    (hop : diskAllows env copies q op)
    (hfresh : op.makesTemp → s.inode (.temp w.uuid) = none)
    (hcopy : ∀ source target, op = .copyFile source target → s.inode target = none) :
    StepEffect env q (diskNext q op (diskEffect w s op).2) s (diskEffect w s op).1 := by
  have plain : ∀ {s'}, DiskEffect env (fun _ => False) s s' → StepEffect env q q s s' := fun h =>
    stepEffect_plain hq h rfl hq.void hq.fetched
  cases op with
  | writeTemp content => exact stepEffect_writeTemp hq ha content (hfresh rfl)
  | read name =>
    simp only [diskEffect]
    cases hr : s.read name with
    | none => exact stepEffect_same hq ha
    | some content =>
      cases content with
      | bytes b =>
        refine stepEffect_plain hq (.refl ha) rfl hq.void fun n b' he => ?_
        cases he
        exact hs name _ hr
      | _ => exact stepEffect_same hq ha
  | writeFile name content => exact plain (diskEffect_write ha (.inl hop) content)
  | append name payload => exact plain (diskEffect_appended ha hop payload)
  | hardLink source target =>
    obtain ⟨hp,ht,hsource⟩ := hop
    simp only [diskEffect]
    split
    · exact stepEffect_same hq ha
    · split
      · exact stepEffect_same hq ha
      · next hn hfree =>
        have hfree : s.inode target = none := by
          cases hi : s.inode target with
          | none => rfl
          | some i => simp [hi] at hfree
        apply plain
        rcases hsource with ⟨uuid,content,rfl,hu,hg⟩ | ⟨hb,hst⟩
        · refine diskEffect_link ha rfl hp ht hfree fun c hr => ?_
          rw [hq.temp uuid content hu] at hr
          cases hr
          exact hg
        · refine diskEffect_link ha ?_ hp ht hfree fun c _ => ?_
          · cases source <;> first | rfl | cases hb
          · cases target <;> trivial
  | createNew name => exact hop.elim
  | fill source target => exact hop.elim
  | copyFile source target =>
    simp only [diskEffect]
    split
    · exact stepEffect_same hq ha
    · split
      · exact stepEffect_same hq ha
      · exact plain (diskEffect_copy ha hop.2 (hcopy source target rfl))
  | rename source target =>
    obtain ⟨hp,ht,uuid,content,rfl,hu,hg⟩ := hop
    simp only [diskEffect]
    split
    · exact stepEffect_same hq ha
    · have hdisk := diskEffect_rename ha hp ht (hq.temp uuid content hu) hg
      refine stepEffect_release hq (hdisk.mono ?_) rfl rfl rfl
      rintro u rfl
      exact ⟨content,hu⟩
  | remove name =>
    simp only [diskEffect]
    split
    · exact stepEffect_remove hq ha hop _ (.inl rfl)
    · exact stepEffect_remove hq ha hop _ (.inr rfl)
  | clearRuntime id => exact plain (diskEffect_keep ha _ fun uuid _ => rfl)
  | tryReflink source id target =>
    simp only [diskEffect]
    split
    · exact stepEffect_same hq ha
    · split <;> exact stepEffect_same hq ha
  | _ => exact stepEffect_same hq ha

theorem stepEffect_step (hs : Addressed env s) (hq : Watch.Right env q s)
    (ha : ∀ name, inPlace name → s.Alone name) {o : FileOp} {w : FileOracle}
    {r : FileRes o} (hop : watchAllows env copies q o)
    (hcopy : ∀ source target, o = .disk (.copyFile source target) → s.inode target = none)
    (hsem : fileSem o w s = some (s',r)) : StepEffect env q (watchNext q o r) s s' := by
  cases o with
  | now | respond digest answer =>
    cases hsem
    exact stepEffect_same hq ha
  | disk op =>
    have hop : diskAllows env copies q op := hop.resolve_left (by simp [hq.void])
    simp only [fileSem] at hsem
    split at hsem
    · cases hsem
    · next hu =>
      have hfresh : op.makesTemp → s.inode (.temp w.uuid) = none := by
        intro hm
        simpa [hm] using hu
      split at hsem
      · cases hsem
        exact stepEffect_fault hq ha w hop hfresh
      · have he := Prod.mk.inj (Option.some.inj hsem)
        rw [← he.1,← he.2]
        exact stepEffect_call hs hq ha w hop hfresh fun source target heq =>
          hcopy source target (by rw [heq])

end

section

def heldTemp (kq : StoreTask × Watch) : Option Uuid := kq.2.temp.map Prod.fst

structure StoreInv (env : Codecs) (s : StoreDisk) (g : Ghost StoreTask Watch) : Prop where
  addressed : Addressed env s
  alone : ∀ name, inPlace name → s.Alone name
  right : ∀ i k q, g i = some (k,q) → Watch.Right env q s
  exclusive : Exclusive (roleAt g heldTemp)

variable {k : StoreTask} {q : Watch} {s : StoreDisk} {g : Ghost StoreTask Watch}

theorem heldTemp_eq {uuid : Uuid} : heldTemp (k,q) = some uuid ↔ Watch.mine q uuid := by
  unfold heldTemp Watch.mine
  simp [Option.map_eq_some_iff]

theorem StoreInv.reset (h : StoreInv env s g) (i : ℕ) (k : Option StoreTask) :
    StoreInv env s (update g i (k.map (storeDiscipline env).task)) := by
  refine ⟨h.addressed,h.alone,fun j k' q hj => ?_,?_⟩
  · by_cases hij : j = i
    · subst hij
      rw [update_self] at hj
      obtain ⟨k0,-,he⟩ := Option.map_eq_some_iff.mp hj
      cases he
      exact ⟨rfl,(fun _ _ he => nomatch he),fun _ _ he => nomatch he⟩
    · rw [update_of_ne hij] at hj
      exact h.right j k' q hj
  · rw [roleAt_update]
    refine h.exclusive.mono fun j uuid hj => ?_
    rcases update_some hj with ⟨-,he⟩ | ⟨-,he⟩
    · cases k <;> cases he
    · exact he

theorem StoreInv.act {s' : StoreDisk} (h : StoreInv env s g) {i : ℕ} {q' : Watch}
    (hi : g i = some (k,q)) (he : StepEffect env q q' s s') :
    StoreInv env s' (update g i (some (k,q'))) := by
  have hmine : ∀ {j kj qj uuid}, g j = some (kj,qj) → Watch.mine qj uuid →
      roleAt g heldTemp j = some uuid := fun hj hm =>
    (roleAt_some hj heldTemp).trans (heldTemp_eq.mpr hm)
  refine ⟨fun name c hr => ?_,he.disk.alone,fun j kj qj hj => ?_,?_⟩
  · exact (he.disk.content name c hr).elim (h.addressed name c) id
  · by_cases hij : j = i
    · subst hij
      rw [update_self] at hj
      cases hj
      exact he.right
    · rw [update_of_ne hij] at hj
      have hright := h.right j kj qj hj
      refine ⟨hright.void,fun uuid content hu => ?_,hright.fetched⟩
      have hr := hright.temp uuid content hu
      have hother : ¬ Watch.mine q uuid := fun hm =>
        hij (h.exclusive j i uuid (hmine hj ⟨content,hu⟩) (hmine hi hm))
      rw [he.disk.others uuid hother (by simp [hr]),hr]
  · rw [roleAt_update]
    show Exclusive (update _ i (heldTemp (k,q')))
    cases hheld : heldTemp (k,q') with
    | none =>
      refine h.exclusive.mono fun j uuid hj => ?_
      rcases update_some hj with ⟨-,hn⟩ | ⟨-,hg⟩
      · cases hn
      · exact hg
    | some uuid =>
      refine h.exclusive.take i uuid fun j hij hj => ?_
      rcases he.taken uuid (heldTemp_eq.mp hheld) with hm | hnone
      · exact hij (h.exclusive j i uuid hj (hmine hi hm))
      · obtain ⟨⟨kj,qj⟩,hg,hrole⟩ := roleAt_eq_some.mp hj
        obtain ⟨content,hu⟩ := heldTemp_eq.mp hrole
        rw [(h.right j kj qj hg).temp uuid content hu] at hnone
        cases hnone

/-- A 200 answer that hashes to its digest once its encoding is undone. -/
def Verifies (env : Codecs) (digest : Digest) (response : DownloadResponse) : Prop :=
  match response.contentEncoding with
  | none => env.sha256 response.body = digest
  | some _ => ∃ raw, env.decodeZstd response.body = some raw ∧ env.sha256 raw = digest

def goodLabel (env : Codecs) : Label StoreTask FileOp FileRes → Prop
  | .act _ _ (.respond digest (.ok response)) _ => Verifies env digest response
  | _ => True

theorem verifies_of_fetched (hq : Watch.Right env q s) {digest : Digest}
    {response : DownloadResponse}
    (h : q.fetched = some (servedName digest response,response.body)) :
    Verifies env digest response := by
  have hg := hq.fetched _ _ h
  cases he : response.contentEncoding with
  | none =>
    simp only [servedName,Verifies,he] at hg ⊢
    obtain ⟨b,hb,hd⟩ := hg
    cases hb
    exact hd
  | some encoding =>
    simp only [servedName,Verifies,he] at hg ⊢
    obtain ⟨b,raw,hb,hraw,hd⟩ := hg
    cases hb
    exact ⟨raw,hraw,hd⟩

variable (text : UnicodeText) (registry : CertRegistry)

theorem storeInv_step (s : StoreDisk) (g : Ghost StoreTask Watch)
    (l : Label StoreTask FileOp FileRes) (s' : StoreDisk) (g' : Ghost StoreTask Watch)
    (h : StoreInv env s g)
    (hs : GhostStep (storeSystem env text registry) (storeDiscipline env) s g l s' g')
    (hc : copiesFresh s g.kinds l) : StoreInv env s' g' ∧ goodLabel env l := by
  cases hs with
  | @start _ k j hk free => exact ⟨h.reset j (some k),trivial⟩
  | @next _ i k q k' ht ends => exact ⟨h.reset i k',trivial⟩
  | @act _ _ i j k q o r w ht allowed hsem free =>
    have hq := h.right i k q ht
    have hcopy : ∀ source target, o = .disk (.copyFile source target) →
        s.inode target = none := by
      rintro source target rfl
      exact hc
    refine ⟨h.act ht (stepEffect_step h.addressed hq h.alone allowed hcopy hsem),?_⟩
    cases o with
    | now => trivial
    | disk op => trivial
    | respond digest answer =>
      cases answer with
      | error refusal => trivial
      | ok response =>
        have hserved := allowed.resolve_left (by simp [hq.void])
        exact verifies_of_fetched hq (hserved response rfl)

theorem storeInv_empty : StoreInv env Disk.empty fun _ => none where
  addressed := fun _ _ h => nomatch h
  alone := fun _ _ => Disk.alone_of_free rfl
  right := fun _ _ _ h => nomatch h
  exclusive := fun _ _ _ h => nomatch h

/-- In every state that requests and crashes can reach while no copy goes onto
an existing name, the raw blob files hash to their digests. -/
theorem raw_blobs_addressed {P : Pool StoreTask FileOp FileRes StoreDisk}
    (h : Reached (storeSystem env text registry) copiesFresh Disk.empty P) (digest : Digest)
    (content : Content) (hr : P.shared.read (.raw .blob digest) = some content) :
    ∃ b, content = .bytes b ∧ env.sha256 b = digest := by
  have keeps : ∀ s g l s' g', StoreInv env s g →
      GhostStep (storeSystem env text registry) (storeDiscipline env) s g l s' g' →
      copiesFresh s g.kinds l → StoreInv env s' g' := fun s g l s' g' hi hs hc =>
    (storeInv_step text registry s g l s' g' hi hs hc).1
  have lost : ∀ s g, StoreInv env s g → StoreInv env s fun _ => none := fun s g hi =>
    ⟨hi.addressed,hi.alone,(fun _ _ _ he => nomatch he),fun _ _ _ he => nomatch he⟩
  obtain ⟨g,-,hinv⟩ := reached_invariant (storeSystem_obeys env text registry)
    (StoreInv env) keeps lost storeInv_empty h
  exact hinv.addressed _ content hr

end

def digestA : Digest := sampleSha256 [97]

def sampleOracle (i : ℕ) : FileOracle where
  time := 0
  uuid := String.ofList (List.replicate i 'u')
  fault := false
  torn := none
  parity := .default
  distfiles := ∅
  output := []

def wholeTask (k : StoreTask) (first steps : ℕ) : List (Move StoreTask FileOracle) :=
  .start 0 k::((List.range steps).map fun i => .act 0 1 (sampleOracle (first+i)))++[.next 0]

def twoKeys (first second : String) : PortageConfig :=
  let entry : SnapshotEntry := ⟨digestA,1,0⟩
  { PortageConfig.default with
    snapshotManifest := ⟨1,(∅ : BTreeMap RepoSnapshotManifest).insert "gentoo"
      ⟨"",((∅ : BTreeMap SnapshotEntry).insert first entry).insert second entry⟩,∅⟩ }

def sampleSystem : System StoreTask FileOp FileRes StoreDisk FileOracle :=
  storeSystem plainCodecs asciiText (twoClients .none)

def emptyPool : Pool StoreTask FileOp FileRes StoreDisk := ⟨Disk.empty,fun _ => none⟩

def checksCopies (s : StoreDisk) (_ : ℕ → Option StoreTask)
    (label : Label StoreTask FileOp FileRes) : Bool :=
  match label with
  | .act _ _ (.disk (.copyFile _ target)) _ => (s.inode target).isNone
  | _ => true

theorem copiesFresh_of_check (s : StoreDisk) (kinds : ℕ → Option StoreTask)
    (label : Label StoreTask FileOp FileRes) (h : checksCopies s kinds label) :
    copiesFresh s kinds label := by
  unfold checksCopies at h
  split at h
  · exact Option.isNone_iff_eq_none.mp h
  · next hl =>
    unfold copiesFresh
    split
    · exact absurd rfl (hl _ _ _ _ _)
    · trivial

def holdsBytes (s : StoreDisk) (name : StoreName) (bytes : Bytes) : Bool :=
  match s.read name with
  | some (.bytes b) => b == bytes
  | _ => false

theorem holdsBytes_iff {s : StoreDisk} {bytes : Bytes} (h : holdsBytes s name bytes) :
    s.read name = some (.bytes bytes) := by
  unfold holdsBytes at h
  split at h
  · next b hb =>
    rw [hb,eq_of_beq h]
  · cases h

/-- A blob is stored and staged under two keys with targets of their own. -/
theorem staged_blob_addressed :
    ∃ P, Reached sampleSystem copiesFresh Disk.empty P ∧
      P.shared.read (.staged "w1" ["repos","gentoo","a","b"]) = some (.bytes [97]) ∧
      ∃ b, Content.bytes [97] = .bytes b ∧ plainCodecs.sha256 b = digestA := by
  obtain ⟨ls,P,run,ht⟩ := exists_run_of_play sampleSystem copiesFresh_of_check
    (wholeTask (.store [97]) 0 17++wholeTask (.stage "w1" (twoKeys "a/b" "a/c")) 17 63) emptyPool
    (fun _ P => holdsBytes P.shared (.raw .blob digestA) [97] &&
      holdsBytes P.shared (.staged "w1" ["repos","gentoo","a","b"]) [97]) (by decide +kernel)
  obtain ⟨hraw,hstaged⟩ := Bool.and_eq_true_iff.mp ht
  have h : Reached sampleSystem copiesFresh Disk.empty P := reached_run .boot run
  exact ⟨P,h,holdsBytes_iff hstaged,
    raw_blobs_addressed asciiText (twoClients .none) h digestA _ (holdsBytes_iff hraw)⟩

/-- The keys `a//b` and `a/./b` name one target: the second link is refused, and
the copy that follows truncates the inode of the blob it reads from. -/
theorem colliding_keys_empty_blob :
    ∃ ls P, Run sampleSystem unrestricted emptyPool ls P ∧
      P.shared.read (.raw .blob digestA) = some (.bytes []) ∧
      plainCodecs.sha256 [] ≠ digestA := by
  obtain ⟨ls,P,run,ht⟩ := exists_run_of_free_play sampleSystem
    (wholeTask (.store [97]) 0 17++wholeTask (.stage "w1" (twoKeys "a//b" "a/./b")) 17 56)
    emptyPool (fun _ P => holdsBytes P.shared (.raw .blob digestA) []) (by decide +kernel)
  exact ⟨ls,P,run,holdsBytes_iff ht,by decide⟩

end Remerge.ContentAddressing

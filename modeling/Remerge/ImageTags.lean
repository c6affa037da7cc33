import Remerge.RustText
import Remerge.SnapshotTypes

/-!
# Tags of worker images

A worker image is looked up by a tag made of the CHOST, the profile and the
compiler version of a client, cleaned for Docker and joined with hyphens. The
parts may hold hyphens themselves, so the tag does not say where they end.
-/

set_option autoImplicit false

namespace Remerge.ImageTags
open RustText SnapshotTypes

/-- The part of a system identity that is to select the image. -/
structure SystemIdentity where
  chost : String
  gccVersion : String
  profile : String
  deriving DecidableEq, Repr

structure DockerManager where
  imagePrefix : String
  /-- Hash of the worker binary, when it could be read. -/
  workerBinaryHash : Option String
  packageVersion : String

def replaceChar (old new : Char) (cs : List Char) : List Char :=
  cs.map fun c => if c = old then new else c

def chostSlug (sys : SystemIdentity) : List Char := replaceChar '.' '_' sys.chost.toList

def profileSlug (sys : SystemIdentity) : List Char := replaceChar '/' '-' sys.profile.toList

def gccShort (sys : SystemIdentity) : List Char :=
  replaceChar '.' '_' ((splitWhitespace sys.gccVersion).getLast?.getD "unknown").toList

def gccMark : List Char := ['g','c','c']

def slugs (sys : SystemIdentity) : List Char :=
  chostSlug sys++ '-'::(profileSlug sys++ '-'::(gccMark++gccShort sys))

def imageTagSuffix (d : DockerManager) (sys : SystemIdentity) : String :=
  String.ofList (slugs sys)++"-v"++d.packageVersion

def imageTag (d : DockerManager) (sys : SystemIdentity) : String :=
  d.imagePrefix++":"++imageTagSuffix d sys

def baseImageTag (d : DockerManager) (sys : SystemIdentity) : String :=
  d.imagePrefix++"-base"++":"++imageTagSuffix d sys

section

/-- The second profile goes on where the first has its version, with `-gcc` and the
beginning of it. -/
def ProfileLonger (profile version profile' version' : List Char) : Prop :=
  ∃ x, profile' = profile++ '-'::(gccMark++x) ∧ version = x++ '-'::(gccMark++version')

/-- Both read the same behind the chost. -/
def SameTail (profile version profile' version' : List Char) : Prop :=
  profile = profile' ∧ version = version' ∨ ProfileLonger profile version profile' version' ∨
    ProfileLonger profile' version' profile version

variable (s t : SystemIdentity)

/-- The second chost goes on with the beginning of the first tail. -/
def ChostLonger : Prop :=
  ∃ x, chostSlug t = chostSlug s++ '-'::x ∧
    SameTail (profileSlug s) (gccShort s) (x++ '-'::profileSlug t) (gccShort t)

def Confusable : Prop :=
  chostSlug s = chostSlug t ∧
      SameTail (profileSlug s) (gccShort s) (profileSlug t) (gccShort t) ∨
    ChostLonger s t ∨ ChostLonger t s

variable {s t}

theorem mark_append_eq {g x v : List Char} (h : gccMark++g = x++ '-'::v) :
    ∃ y, x = gccMark++y ∧ g = y++ '-'::v := by
  match x, h with
  | [], h => simp [gccMark] at h
  | [_], h => simp [gccMark] at h
  | [_,_], h => simp [gccMark] at h
  | a::b::c::y, h =>
    simp only [gccMark,List.cons_append,List.nil_append,List.cons.injEq] at h
    exact ⟨y,by simp [gccMark,← h.1,← h.2.1,← h.2.2.1],h.2.2.2⟩

theorem tail_eq_iff {b b' g g' : List Char} :
    b++ '-'::(gccMark++g) = b'++ '-'::(gccMark++g') ↔ SameTail b g b' g' := by
  rw [append_cons_eq_iff,List.append_cancel_left_eq]
  constructor
  · rintro (h | ⟨x,hb,hg⟩ | ⟨x,hb,hg⟩)
    · exact .inl h
    · obtain ⟨y,rfl,hy⟩ := mark_append_eq hg
      exact .inr (.inl ⟨y,hb,hy⟩)
    · obtain ⟨y,rfl,hy⟩ := mark_append_eq hg
      exact .inr (.inr ⟨y,hb,hy⟩)
  · rintro (h | ⟨x,hb,hg⟩ | ⟨x,hb,hg⟩)
    · exact .inl h
    · exact .inr (.inl ⟨gccMark++x,hb,by rw [hg,List.append_assoc]⟩)
    · exact .inr (.inr ⟨gccMark++x,hb,by rw [hg,List.append_assoc]⟩)

theorem slugs_eq_iff : slugs s = slugs t ↔ Confusable s t := by
  have hshift : ∀ x b g : List Char, x++ '-'::(b++ '-'::(gccMark++g)) =
      (x++ '-'::b)++ '-'::(gccMark++g) := fun x b g => by simp
  unfold slugs Confusable ChostLonger
  rw [append_cons_eq_iff]
  simp only [hshift,tail_eq_iff]

theorem imageTag_eq_iff (d : DockerManager) : imageTag d s = imageTag d t ↔ Confusable s t := by
  rw [← slugs_eq_iff,← String.toList_inj]
  simp [imageTag,imageTagSuffix]

theorem baseImageTag_eq_iff (d : DockerManager) :
    baseImageTag d s = baseImageTag d t ↔ Confusable s t := by
  rw [← slugs_eq_iff,← String.toList_inj]
  simp [baseImageTag,imageTagSuffix]

end

/-- An image with the label of the worker binary in it; `builtFor` is not part
of the image but says whose toolchain it has. -/
structure Image where
  workerHash : Option String
  builtFor : SystemIdentity

def imageNeedsRebuild (d : DockerManager) (images : BTreeMap Image) (tag : String) : Bool :=
  match images[tag]? with
  | none => true
  | some image =>
    match d.workerBinaryHash with
    | some expected => image.workerHash ≠ some expected
    | none => false

/-- A workorder comes with whether a build of its image would succeed. -/
structure Request where
  systemId : SystemIdentity
  builds : Bool

def prepareImage (d : DockerManager) (images : BTreeMap Image) (r : Request) : BTreeMap Image :=
  if imageNeedsRebuild d images (imageTag d r.systemId) && r.builds then
    images.insert (imageTag d r.systemId) ⟨d.workerBinaryHash,r.systemId⟩
  else images

def prepareImages (d : DockerManager) (images : BTreeMap Image) (rs : List Request) :
    BTreeMap Image := rs.foldl (prepareImage d) images

def toolchain (sys : SystemIdentity) : String × String × String :=
  (sys.chost,sys.profile,sys.gccVersion)

def BuiltByRequests (d : DockerManager) (rs : List Request) (images : BTreeMap Image) : Prop :=
  ∀ (tag : String) (image : Image), images[tag]? = some image →
    imageTag d image.builtFor = tag ∧ ∃ r ∈ rs, r.systemId = image.builtFor

variable {d : DockerManager} {images : BTreeMap Image}

theorem builtByRequests_prepareImage {rs : List Request} (h : BuiltByRequests d rs images)
    (r : Request) : BuiltByRequests d (rs++[r]) (prepareImage d images r) := by
  have hold : BuiltByRequests d (rs++[r]) images := by
    intro tag image hi
    obtain ⟨htag,r',hr',hsys⟩ := h tag image hi
    exact ⟨htag,r',List.mem_append_left _ hr',hsys⟩
  unfold prepareImage
  split
  · intro tag image hi
    rw [Std.TreeMap.getElem?_insert] at hi
    split at hi
    · next heq =>
      cases hi
      exact ⟨Std.LawfulEqCmp.eq_of_compare heq,r,by simp,rfl⟩
    · exact hold tag image hi
  · exact hold

theorem builtByRequests_prepareImages (rs done : List Request) (h : BuiltByRequests d done images) :
    BuiltByRequests d (done++rs) (prepareImages d images rs) := by
  induction rs generalizing done images with
  | nil => simpa [prepareImages] using h
  | cons r rs ih =>
    have hstep := ih (done++[r]) (builtByRequests_prepareImage h r)
    simpa [prepareImages] using hstep

/-- Two identities have different tags exactly when they are not confusable, and
a server whose clients are not confusable only starts images that were built for
the client's own toolchain. -/
theorem image_tags_distinct_iff (d : DockerManager) (s t : SystemIdentity) (rs : List Request) :
    (imageTag d s ≠ imageTag d t ∧ baseImageTag d s ≠ baseImageTag d t ↔ ¬Confusable s t) ∧
      ((∀ r ∈ rs, ∀ r' ∈ rs, toolchain r.systemId ≠ toolchain r'.systemId →
          ¬Confusable r.systemId r'.systemId) →
        ∀ r ∈ rs, ∀ image, (prepareImages d ∅ rs)[imageTag d r.systemId]? = some image →
          toolchain image.builtFor = toolchain r.systemId) := by
  constructor
  · rw [Ne,Ne,imageTag_eq_iff,baseImageTag_eq_iff,and_self]
  · intro hapart r hr image hi
    have hempty : BuiltByRequests d [] ∅ := by
      intro tag image hi
      simp at hi
    obtain ⟨htag,r',hr',hsys⟩ := builtByRequests_prepareImages rs [] hempty _ image hi
    rw [← hsys] at htag ⊢
    by_contra hne
    exact hapart r' hr' r hr hne ((imageTag_eq_iff d).mp htag)

def sampleManager : DockerManager := ⟨"remerge-worker",some "ab12","0.1.0"⟩

def desktop : SystemIdentity := ⟨"x86_64-pc-linux-gnu","14.2.1","default/linux/amd64/23.0"⟩

def laptop : SystemIdentity := ⟨"aarch64-unknown-linux-gnu","14.2.1","default/linux/arm64/23.0"⟩

instance (s t : SystemIdentity) : Decidable (Confusable s t) := decidable_of_iff _ slugs_eq_iff

theorem sample_tags_distinct :
    imageTag sampleManager desktop ≠ imageTag sampleManager laptop ∧
      baseImageTag sampleManager desktop ≠ baseImageTag sampleManager laptop ∧
      ((prepareImages sampleManager ∅ [⟨laptop,true⟩,⟨desktop,true⟩])[imageTag sampleManager
        desktop]?.map fun image => toolchain image.builtFor) = some (toolchain desktop) := by
  have hapart : ¬Confusable desktop laptop ∧ ¬Confusable laptop desktop := by decide
  have h := image_tags_distinct_iff sampleManager desktop laptop [⟨laptop,true⟩,⟨desktop,true⟩]
  refine ⟨(h.1.mpr hapart.1).1,(h.1.mpr hapart.1).2,?_⟩
  cases hi : (prepareImages sampleManager ∅ [⟨laptop,true⟩,⟨desktop,true⟩])[imageTag sampleManager
    desktop]? with
  | none => exact absurd hi (by decide)
  | some image =>
    rw [Option.map_some,h.2 ?_ ⟨desktop,true⟩ (by simp) image hi]
    simp [hapart]

def shifted : SystemIdentity := ⟨"x86_64-pc-linux-gnu-default","14.2.1","linux/amd64/23.0"⟩

/-- The second client is given the image of the first. -/
theorem image_tags_collide :
    toolchain desktop ≠ toolchain shifted ∧
      imageTag sampleManager desktop = imageTag sampleManager shifted ∧
      baseImageTag sampleManager desktop = baseImageTag sampleManager shifted ∧
      ((prepareImages sampleManager ∅ [⟨desktop,true⟩,⟨shifted,true⟩])[imageTag sampleManager
        shifted]?.map (·.builtFor)) = some desktop := by
  decide

end Remerge.ImageTags

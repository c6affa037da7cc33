import Remerge.AtomValidation
import Remerge.PackageMatching
import Remerge.VersionAgreement

/-!
# Is a package installed?

`is_installed` looks an atom up in the database of installed packages. The
operators `=`, `~` and the trailing star compare texts, the others compare
versions. Where one version can be written in two ways the two notions differ.
-/

set_option autoImplicit false

namespace Remerge.AtomOperators
open PaddedOrder PackageNames BinpkgRepo PackageMatching VersionOrder PmsVersions VersionAgreement
open AtomValidation (splitOnce splitOnce_append)

/-- The name and what stands behind the last hyphen with a digit behind it. -/
def splitNameVersion (s : List Char) : List Char × Option (List Char) :=
  match cutVersion s with
  | some front => (front,some (s.drop (front.length+1)))
  | none => (s,none)

inductive AtomOp where
  | none
  | eq
  | eqGlob
  | tilde
  | ge
  | le
  | gt
  | lt
  deriving DecidableEq, Repr

def parseAtomOperator (atom : List Char) : AtomOp × List Char :=
  match atom with
  | '>':: '='::rest => (.ge,rest)
  | '<':: '='::rest => (.le,rest)
  | '='::rest => if rest.getLast? = some '*' then (.eqGlob,rest) else (.eq,rest)
  | '~'::rest => (.tilde,rest)
  | '>'::rest => (.gt,rest)
  | '<'::rest => (.lt,rest)
  | _ => (.none,atom)

def satisfies (op : AtomOp) (installed constraint : List Char) : Bool :=
  match op with
  | .none => true
  | .eq => installed == constraint
  | .eqGlob => (constraint.rdropWhile (· == '*')).isPrefixOf installed
  | .tilde => (splitRevision installed).1 == (splitRevision constraint).1
  | .ge => compareVersions installed constraint != .lt
  | .le => compareVersions installed constraint != .gt
  | .gt => compareVersions installed constraint == .gt
  | .lt => compareVersions installed constraint == .lt

def entrySatisfies (op : AtomOp) (name : List Char) (constraint : Option (List Char))
    (entry : List Char) : Bool :=
  let (installedName,installedVersion) := splitNameVersion entry
  installedName == name &&
    match constraint with
    | none => true
    | some constraint => installedVersion.any (satisfies op · constraint)

/-- The entries of the directory of a category under `var/db/pkg`, if it can be read. -/
abbrev PackageDb := List Char → Option (List (List Char))

def isInstalled (db : PackageDb) (atom : List Char) : Bool :=
  if atom.head? = some '@' then false
  else
    let (op,stripped) := parseAtomOperator atom
    match splitOnce '/' stripped with
    | none => false
    | some (category,nameMaybeVersion) =>
      let (name,constraint) :=
        if op = .none then (nameMaybeVersion,none) else splitNameVersion nameMaybeVersion
      match db category with
      | none => false
      | some entries => entries.any (entrySatisfies op name constraint)

def AtomOp.symbol : AtomOp → List Char
  | .none => []
  | .eq => ['=']
  | .eqGlob => ['=']
  | .tilde => ['~']
  | .ge => ['>','=']
  | .le => ['<','=']
  | .gt => ['>']
  | .lt => ['<']

def AtomOp.constraintText (op : AtomOp) (v : Version) : List Char :=
  if op = .eqGlob then v.text++['*'] else v.text

def atomText (op : AtomOp) (category name : List Char) (v : Version) : List Char :=
  op.symbol++(category++ '/'::(name++ '-'::op.constraintText v))

theorem isVersion_text (v : Version) : isVersion v.text := isVersion_iff.mpr ⟨v,rfl⟩

theorem star_not_mem_text (v : Version) : '*' ∉ v.text := by
  intro h
  have hm := (RegularExpression.rmatch_iff_matches' _ _).mp (isVersion_text v)
  exact absurd (mem_letters hm h) (by decide)

theorem noHyphenDigit_constraintText (op : AtomOp) (v : Version) :
    NoHyphenDigit (op.constraintText v) := by
  have hv := noHyphenDigit_of_isVersion (isVersion_text v)
  unfold AtomOp.constraintText
  split
  · intro front back d h
    rcases List.eq_nil_or_concat back with rfl | ⟨back,x,rfl⟩
    · have hlast := congrArg List.getLast? h
      simp only [List.getLast?_append_cons,List.getLast?_cons_cons,
        List.getLast?_singleton,Option.some.injEq] at hlast
      rw [← hlast]
      decide
    · have h' : v.text++['*'] = (front++ '-'::d::back)++[x] := by simpa using h
      exact hv front back d (List.append_inj_left' h' rfl)
  · exact hv

theorem constraintText_cons (op : AtomOp) (v : Version) :
    ∃ d ds, op.constraintText v = d::ds ∧ d.isDigit := by
  obtain ⟨d,ds,hv,hd⟩ := isVersion_cons (isVersion_text v)
  unfold AtomOp.constraintText
  split
  · exact ⟨d,ds++['*'],by rw [hv]; rfl,hd⟩
  · exact ⟨d,ds,hv,hd⟩

theorem splitNameVersion_append (name : List Char) {v : List Char} (hv : NoHyphenDigit v)
    (hd : ∃ d ds, v = d::ds ∧ d.isDigit) :
    splitNameVersion (name++ '-'::v) = (name,some v) := by
  obtain ⟨d,ds,rfl,hd⟩ := hd
  have hcut := cutVersion_append name hd (cutVersion_eq_none_iff.mpr hv)
  simp [splitNameVersion,hcut]

theorem splitNameVersion_text (name : List Char) (v : Version) :
    splitNameVersion (name++ '-'::v.text) = (name,some v.text) :=
  splitNameVersion_append name (noHyphenDigit_of_isVersion (isVersion_text v))
    (isVersion_cons (isVersion_text v))

theorem rdropWhile_constraintText (v : Version) :
    (AtomOp.eqGlob.constraintText v).rdropWhile (· == '*') = v.text := by
  have hlast : v.text.rdropWhile (· == '*') = v.text := by
    rw [List.rdropWhile_eq_self_iff]
    intro hne h
    have hmem := List.getLast_mem hne
    rw [eq_of_beq h] at hmem
    exact star_not_mem_text v hmem
  rw [AtomOp.constraintText,if_pos rfl,List.rdropWhile_concat_pos _ _ _ rfl,hlast]

theorem getLast_atom (op : AtomOp) (front : List Char) (v : Version) :
    (front++ '-'::op.constraintText v).getLast? = some '*' ↔ op = .eqGlob := by
  unfold AtomOp.constraintText
  split
  · next h =>
    refine iff_of_true ?_ h
    rw [← List.cons_append,← List.append_assoc,List.getLast?_concat]
  · next h =>
    refine iff_of_false ?_ h
    intro hlast
    obtain ⟨d,ds,hv,-⟩ := isVersion_cons (isVersion_text v)
    have hmem : '*' ∈ v.text := by
      rw [hv] at hlast ⊢
      rw [List.getLast?_append_cons,List.getLast?_cons_cons] at hlast
      exact List.mem_of_getLast? hlast
    exact star_not_mem_text v hmem

variable {v w : Version} {op : AtomOp} {category : List Char}

theorem parseAtomOperator_atomText (hop : op ≠ .none) (hc : isCategory category)
    (name : List Char) (v : Version) :
    parseAtomOperator (atomText op category name v) =
      (op,category++ '/'::(name++ '-'::op.constraintText v)) := by
  have hlast := getLast_atom op (category++ '/'::name) v
  rw [List.append_assoc,List.cons_append] at hlast
  obtain ⟨d,ds,rfl,hd⟩ := category_cons hc
  have hne : d ≠ '=' := by
    rintro rfl
    cases hd
  unfold atomText
  rw [List.cons_append] at hlast ⊢
  cases op with
  | none => exact absurd rfl hop
  | eq | eqGlob => simp [AtomOp.symbol,parseAtomOperator,hlast]
  | tilde | ge | le => simp [AtomOp.symbol,parseAtomOperator]
  | gt | lt => simp [AtomOp.symbol,parseAtomOperator,hne]

/-- The database has one version of the package, among other packages and entries
that have no version. -/
structure HoldsOnly (db : PackageDb) (category name : List Char) (w : Version) : Prop where
  packages : ∀ entries, db category = some entries → ∀ e ∈ entries,
    NoHyphenDigit e ∨ ∃ (name' : List Char) (v : Version), e = name'++ '-'::v.text
  held : ∃ entries, db category = some entries ∧ name++ '-'::w.text ∈ entries
  only : ∀ entries, db category = some entries → ∀ v : Version,
    name++ '-'::v.text ∈ entries → v.text = w.text

theorem entrySatisfies_text (op : AtomOp) (name constraint name' : List Char) (v : Version) :
    entrySatisfies op name (some constraint) (name'++ '-'::v.text) =
      (name' == name && satisfies op v.text constraint) := by
  simp [entrySatisfies,splitNameVersion_text]

theorem isInstalled_atomText {db : PackageDb} {name : List Char} (h : HoldsOnly db category name w)
    (hc : isCategory category) (hop : op ≠ .none) (v : Version) :
    isInstalled db (atomText op category name v) = satisfies op w.text (op.constraintText v) := by
  obtain ⟨entries,hdb,hheld⟩ := h.held
  have hat : (atomText op category name v).head? ≠ some '@' := by
    obtain ⟨d,ds,rfl,hd⟩ := category_cons hc
    cases op with
    | none => exact absurd rfl hop
    | _ => simp [atomText,AtomOp.symbol]
  have hsplit : splitNameVersion (name++ '-'::op.constraintText v) =
      (name,some (op.constraintText v)) :=
    splitNameVersion_append name (noHyphenDigit_constraintText op v) (constraintText_cons op v)
  have hlookup : isInstalled db (atomText op category name v) =
      entries.any (entrySatisfies op name (some (op.constraintText v))) := by
    rw [isInstalled,if_neg hat,parseAtomOperator_atomText hop hc]
    simp only [splitOnce_append _ (slash_not_mem_category hc),if_neg hop,hsplit,hdb]
  rw [hlookup,Bool.eq_iff_iff,List.any_eq_true]
  constructor
  · rintro ⟨e,he,hsat⟩
    rcases h.packages entries hdb e he with hnone | ⟨name',v',rfl⟩
    · rw [entrySatisfies,splitNameVersion,cutVersion_eq_none_iff.mpr hnone] at hsat
      simp at hsat
    · rw [entrySatisfies_text,Bool.and_eq_true,beq_iff_eq] at hsat
      obtain ⟨rfl,hsat⟩ := hsat
      rwa [h.only entries hdb v' he] at hsat
  · intro hsat
    exact ⟨_,hheld,by rw [entrySatisfies_text,hsat,Bool.and_true,beq_self_eq_true]⟩

inductive Component where
  | number (n : Number)
  | letter (l : Letter)
  | suffix (s : SuffixKind × Digits)
  | revision (n : Number)
  deriving DecidableEq

def components (v : Version) : List Component :=
  .number v.first::v.rest.map .number++v.letter.toList.map .letter++v.suffixes.map .suffix++
    v.revision.toList.map .revision

/-- The laws that connect the operators. -/
structure Consistent (db : PackageDb) (category name : List Char) (w v : Version) : Prop where
  oneOf : ∃ op ∈ [AtomOp.lt,.eq,.gt], ∀ op' ∈ [AtomOp.lt,.eq,.gt],
    (isInstalled db (atomText op' category name v) ↔ op' = op)
  equal : isInstalled db (atomText .eq category name v) ↔
    isInstalled db (atomText .ge category name v) ∧ isInstalled db (atomText .le category name v)
  tilde : isInstalled db (atomText .tilde category name v) ↔ compareVersions w.base v.base = .eq
  glob : isInstalled db (atomText .eqGlob category name v) → components v <+: components w

def SameReading (w v : Version) : Prop := ∀ p ∈ aligned w v, p.1.reading = p.2.reading

def withoutRevision (v : Version) : Version := { v with revision := none }

def Component.isSuffix : Component → Bool
  | .suffix _ => true
  | _ => false

/-- Digits that follow belong to the component, and letters to a suffix. -/
def EndsBefore (m : Component) (u : List Char) : Prop :=
  u.head?.all (fun c => !c.isDigit) ∧ (m.isSuffix → u.head?.all fun c => !c.isLower)

/-- Neither the versions nor their releases are two spellings of one reading, and
the text of the one does not stop inside a component of the other. -/
structure Unambiguous (w v : Version) : Prop where
  version : SameReading w v → w.text = v.text
  release : SameReading (withoutRevision w) (withoutRevision v) → w.base = v.base
  whole : ∀ u init m, w.text = v.text++u → components v = init++[m] → EndsBefore m u

def Component.text : Component → List Char
  | .number n => '.'::n.1
  | .letter l => [l.1]
  | .suffix s => '_'::suffixText s
  | .revision n => '-':: 'r'::n.1

theorem dot_text (v : Version) : '.'::v.text = (components v).flatMap Component.text := by
  obtain ⟨first,rest,letter,suffixes,revision⟩ := v
  cases letter <;> cases revision <;> simp [components,Version.text,Version.base,numbersText,
    suffixesText,letterText,revisionText,Component.text,List.flatMap_map]

def Component.rank : Component → ℕ
  | .number _ => 0
  | .letter _ => 1
  | .suffix _ => 2
  | .revision _ => 3

abbrev Sorted (ms : List Component) : Prop := ms.Pairwise fun m n => m.rank ≤ n.rank

theorem components_sorted (v : Version) : Sorted (components v) := by
  have hranks : (components v).map Component.rank = List.replicate (v.rest.length+1) 0++
      List.replicate v.letter.toList.length 1++List.replicate v.suffixes.length 2++
      List.replicate v.revision.toList.length 3 := by
    simp [components,Function.comp_def,Component.rank,List.map_const',List.replicate_succ]
  have hsorted : ((components v).map Component.rank).Pairwise (· ≤ ·) := by
    rw [hranks]
    simp only [List.pairwise_append,List.pairwise_replicate,List.mem_replicate,List.mem_append]
    refine ⟨⟨⟨by simp,by simp,?_⟩,by simp,?_⟩,by simp,?_⟩ <;>
      · intro a ha b hb
        omega
  exact List.pairwise_map.mp hsorted

theorem endsBefore_sorted {m : Component} {ms : List Component} {u : List Char}
    (hs : Sorted (m::ms)) (hu : ms = [] → EndsBefore m u) :
    EndsBefore m (ms.flatMap Component.text++u) := by
  cases ms with
  | nil => exact hu rfl
  | cons n ms =>
    have hrank := List.rel_of_pairwise_cons hs List.mem_cons_self
    cases n with
    | letter l =>
      refine ⟨?_,fun hm => ?_⟩
      · simp [Component.text,not_isDigit_of_isLower l.2]
      · cases m <;> simp [Component.isSuffix,Component.rank] at hm hrank
    | _ => exact ⟨rfl,fun _ => rfl⟩

theorem run_eq {p : Char → Bool} {ds es x y : List Char} (hd : ds.all p) (he : es.all p)
    (hx : x.head?.all fun c => !p c) (hy : y.head?.all fun c => !p c) (h : ds++x = es++y) :
    ds = es ∧ x = y := by
  obtain ⟨hds,hdx⟩ := takeWhile_run hd hx
  obtain ⟨hes,hey⟩ := takeWhile_run he hy
  rw [h] at hds hdx
  exact ⟨hds.symm.trans hes,hdx.symm.trans hey⟩

theorem keyword_inj {k l : SuffixKind} (h : k.keyword = l.keyword) : k = l := by
  cases k <;> cases l <;> first | rfl | cases h

theorem component_eq {m n : Component} {x y : List Char} (hx : EndsBefore m x)
    (hy : EndsBefore n y) (h : m.text++x = n.text++y) : m = n ∧ x = y := by
  have hne : ∀ (l : Letter) c, c.isLower = false → l.1 ≠ c := by
    rintro ⟨a,ha⟩ c hc rfl
    simp [ha] at hc
  -- components of two sorts start with different characters
  cases m <;> cases n <;> first
    | exact absurd (List.cons.inj h).1 (by decide)
    | exact absurd (List.cons.inj h).1 (hne _ _ rfl)
    | exact absurd (List.cons.inj h).1.symm (hne _ _ rfl)
    | skip
  case number.number a b =>
    obtain ⟨he,hxy⟩ := run_eq a.2.2 b.2.2 hx.1 hy.1 (List.cons.inj h).2
    exact ⟨congrArg Component.number (Subtype.ext he),hxy⟩
  case letter.letter a b =>
    exact ⟨congrArg Component.letter (Subtype.ext (List.cons.inj h).1),(List.cons.inj h).2⟩
  case suffix.suffix a b =>
    have htail : ∀ (ds : Digits) (u : List Char), u.head?.all (fun c => !c.isLower) →
        (ds.1++u).head?.all fun c => !c.isLower := by
      rintro ⟨ds,hds⟩ u hu
      cases ds with
      | nil => exact hu
      | cons d ds =>
        have hd : d.isLower = false := by
          rw [← Bool.not_eq_true]
          intro hlow
          simp [not_isDigit_of_isLower hlow] at hds
        simp [hd]
    have hrest : a.1.keyword++(a.2.1++x) = b.1.keyword++(b.2.1++y) := by
      rw [← List.append_assoc,← List.append_assoc]
      exact (List.cons.inj h).2
    obtain ⟨hk,hds⟩ := run_eq (keyword_isLower a.1) (keyword_isLower b.1) (htail a.2 x (hx.2 rfl))
      (htail b.2 y (hy.2 rfl)) hrest
    obtain ⟨he,hxy⟩ := run_eq a.2.2 b.2.2 hx.1 hy.1 hds
    exact ⟨congrArg Component.suffix (Prod.ext (keyword_inj hk) (Subtype.ext he)),hxy⟩
  case revision.revision a b =>
    obtain ⟨he,hxy⟩ := run_eq a.2.2 b.2.2 hx.1 hy.1 (List.cons.inj (List.cons.inj h).2).2
    exact ⟨congrArg Component.revision (Subtype.ext he),hxy⟩

theorem prefix_of_text {ms ns : List Component} {u : List Char} (hms : Sorted ms) (hns : Sorted ns)
    (hu : ∀ init m, ms = init++[m] → EndsBefore m u)
    (h : ns.flatMap Component.text = ms.flatMap Component.text++u) : ms <+: ns := by
  induction ms generalizing ns with
  | nil => exact List.nil_prefix
  | cons m ms ih =>
    cases ns with
    | nil => cases m <;> simp [Component.text] at h
    | cons n ns =>
      rw [List.flatMap_cons,List.flatMap_cons,List.append_assoc] at h
      have hm := endsBefore_sorted hms fun hnil => hu [] m (by rw [hnil]; rfl)
      have hn := endsBefore_sorted (u := []) hns fun _ => ⟨rfl,fun _ => rfl⟩
      rw [List.append_nil] at hn
      obtain ⟨rfl,hrest⟩ := component_eq hn hm h
      have hlast := fun init k e => hu (n::init) k (congrArg (n::·) e)
      exact List.cons_prefix_cons.mpr ⟨rfl,ih hms.of_cons hns.of_cons hlast hrest⟩

theorem whole_iff (w v : Version) : (v.text <+: w.text → components v <+: components w) ↔
    ∀ u init m, w.text = v.text++u → components v = init++[m] → EndsBefore m u := by
  have htext : ∀ u, w.text = v.text++u ↔ (components w).flatMap Component.text =
      (components v).flatMap Component.text++u := fun u => by
    rw [← dot_text,← dot_text,List.cons_append,List.cons_inj_right]
  constructor
  · intro h u init m hu hinit
    obtain ⟨ms,hms⟩ := h ⟨u,hu.symm⟩
    have hsorted := components_sorted w
    rw [← hms,hinit,List.append_assoc] at hsorted
    rw [htext,← hms,List.flatMap_append,List.append_cancel_left_eq] at hu
    have hends := endsBefore_sorted (u := []) (List.pairwise_append.mp hsorted).2.1
      fun _ => ⟨rfl,fun _ => rfl⟩
    rw [List.append_nil] at hends
    exact hu ▸ hends
  · rintro h ⟨u,hu⟩
    exact prefix_of_text (components_sorted v) (components_sorted w)
      (fun init m => h u init m hu.symm) ((htext u).mp hu.symm)

theorem order_inj {k l : SuffixKind} (h : k.order = l.order) : k = l := by
  cases k <;> cases l <;> first | rfl | cases h

theorem part_compare_eq_iff (x y : Part) : x.compare y = .eq ↔ x = y := by
  cases x with
  | suffix k m =>
    cases y with
    | suffix l n =>
      simp only [Part.compare,Ordering.then_eq_eq,Std.compare_eq_iff_eq,Part.suffix.injEq]
      exact ⟨fun h => ⟨order_inj h.1,h.2⟩,fun h => ⟨by rw [h.1],h.2⟩⟩
    | number n b | word t => exact iff_of_false (compare_order_zero k) (by simp)
  | number m a =>
    cases y with
    | suffix l n => exact iff_of_false (compare_zero_order l) (by simp)
    | number n b => simp [Part.compare,Ordering.then_eq_eq]
    | word t => simp [Part.compare]
  | word s =>
    cases y with
    | suffix l n => exact iff_of_false (compare_zero_order l) (by simp)
    | number n b | word t => simp [Part.compare]

theorem compareVersions_eq_iff (w v : Version) :
    compareVersions w.text v.text = .eq ↔ SameReading w v := by
  rw [compareVersions_eq,firstStrict_eq_eq_iff]
  simp only [flatOrder,part_compare_eq_iff,SameReading]

theorem compareVersions_base_iff (w v : Version) :
    compareVersions w.base v.base = .eq ↔ SameReading (withoutRevision w) (withoutRevision v) := by
  have htext (u : Version) : u.base = (withoutRevision u).text := (List.append_nil _).symm
  rw [htext w,htext v]
  exact compareVersions_eq_iff _ _

theorem sameReading_of_text_eq (h : w.text = v.text) : SameReading w v := by
  have := transCmp_compareVersions
  rw [← compareVersions_eq_iff,h]
  exact Std.ReflCmp.compare_self

theorem sameReading_of_base_eq (h : w.base = v.base) :
    SameReading (withoutRevision w) (withoutRevision v) := by
  have := transCmp_compareVersions
  rw [← compareVersions_base_iff,h]
  exact Std.ReflCmp.compare_self

theorem oneOf_iff (f : AtomOp → Bool) (o : Ordering) (same : Prop) (hlt : f .lt ↔ o = .lt)
    (heq : f .eq ↔ same) (hgt : f .gt ↔ o = .gt) (hsame : same → o = .eq) :
    (∃ op ∈ [AtomOp.lt,.eq,.gt], ∀ op' ∈ [AtomOp.lt,.eq,.gt], (f op' ↔ op' = op)) ↔
      (o = .eq → same) := by
  simp only [List.mem_cons,List.not_mem_nil,or_false,exists_eq_or_imp,exists_eq_left,
    forall_eq_or_imp,forall_eq,hlt,heq,hgt]
  cases o <;> simp_all

/-- The operators fit together exactly if nothing about the two versions is
ambiguous. -/
theorem atoms_consistent_iff {db : PackageDb} {category name : List Char} {w : Version}
    (hc : isCategory category) (h : HoldsOnly db category name w) (v : Version) :
    Consistent db category name w v ↔ Unambiguous w v := by
  have hlook (op : AtomOp) (hop : op ≠ .none) := isInstalled_atomText h hc hop v
  have heq : isInstalled db (atomText .eq category name v) ↔ w.text = v.text := by
    rw [hlook .eq (by decide)]
    exact beq_iff_eq
  have hlt : isInstalled db (atomText .lt category name v) ↔
      compareVersions w.text v.text = .lt := by
    rw [hlook .lt (by decide)]
    exact beq_iff_eq
  have hgt : isInstalled db (atomText .gt category name v) ↔
      compareVersions w.text v.text = .gt := by
    rw [hlook .gt (by decide)]
    exact beq_iff_eq
  have hge : isInstalled db (atomText .ge category name v) ↔
      compareVersions w.text v.text ≠ .lt := by
    rw [hlook .ge (by decide)]
    exact bne_iff_ne
  have hle : isInstalled db (atomText .le category name v) ↔
      compareVersions w.text v.text ≠ .gt := by
    rw [hlook .le (by decide)]
    exact bne_iff_ne
  have htilde : isInstalled db (atomText .tilde category name v) ↔ w.base = v.base := by
    rw [hlook .tilde (by decide)]
    exact beq_iff_eq.trans (by rw [splitRevision_text,AtomOp.constraintText,if_neg (by decide),
      splitRevision_text])
  have hglob : isInstalled db (atomText .eqGlob category name v) ↔ v.text <+: w.text := by
    rw [hlook .eqGlob (by decide),satisfies,rdropWhile_constraintText]
    exact List.isPrefixOf_iff_prefix
  have hsame : w.text = v.text → compareVersions w.text v.text = .eq :=
    fun he => (compareVersions_eq_iff w v).mpr (sameReading_of_text_eq he)
  have hone := oneOf_iff (fun op => isInstalled db (atomText op category name v)) _ _ hlt heq hgt
    hsame
  rw [compareVersions_eq_iff] at hone
  constructor
  · intro hcons
    refine ⟨hone.mp hcons.oneOf,fun hr => htilde.mp (hcons.tilde.mpr ?_),
      (whole_iff w v).mp fun hp => hcons.glob (hglob.mpr hp)⟩
    exact (compareVersions_base_iff w v).mpr hr
  · intro hu
    refine ⟨hone.mpr hu.version,?_,?_,fun hi => (whole_iff w v).mpr hu.whole (hglob.mp hi)⟩
    · rw [heq,hge,hle]
      refine ⟨fun he => by rw [hsame he]; decide,fun hne => hu.version ?_⟩
      rw [← compareVersions_eq_iff]
      cases ho : compareVersions w.text v.text with
      | lt => exact absurd ho hne.1
      | eq => rfl
      | gt => exact absurd ho hne.2
    · rw [htilde,compareVersions_base_iff]
      exact ⟨sameReading_of_base_eq,hu.release⟩

def singleDb (category name : List Char) (w : Version) : PackageDb :=
  fun c => if c = category then some [name++ '-'::w.text] else none

theorem holdsOnly_singleDb (category name : List Char) (w : Version) :
    HoldsOnly (singleDb category name w) category name w := by
  have hdb : singleDb category name w category = some [name++ '-'::w.text] := if_pos rfl
  refine ⟨?_,⟨_,hdb,by simp⟩,?_⟩
  · intro entries he e hm
    rw [hdb,Option.some.injEq] at he
    subst he
    exact .inr ⟨name,w,List.mem_singleton.mp hm⟩
  · intro entries he v hm
    rw [hdb,Option.some.injEq] at he
    subst he
    simpa using hm

def devLibs : List Char := ['d','e','v','-','l','i','b','s']

def nettle : List Char := ['n','e','t','t','l','e']

def three : Version := ⟨⟨['3'],by decide⟩,[],none,[],none⟩

theorem nettle_atoms_consistent :
    Consistent (singleDb devLibs nettle three) devLibs nettle three oneOne := by
  refine (atoms_consistent_iff (by decide) (holdsOnly_singleDb devLibs nettle three) oneOne).mpr ?_
  refine ⟨fun h => absurd (h _ List.mem_cons_self) (by decide),
    fun h => absurd (h _ List.mem_cons_self) (by decide),
    fun u _ _ h => absurd (List.cons.inj h).1 (by decide)⟩

/-- With `1.1` installed, none of `<1.01`, `=1.01` and `>1.01` is. -/
theorem no_operator_for_respelled_version :
    HoldsOnly (singleDb devLibs nettle oneOne) devLibs nettle oneOne ∧
      ∀ op ∈ [AtomOp.lt,.eq,.gt],
        isInstalled (singleDb devLibs nettle oneOne) (atomText op devLibs nettle oneZeroOne) =
          false :=
  ⟨holdsOnly_singleDb devLibs nettle oneOne,by decide⟩

end Remerge.AtomOperators

import Mathlib.Data.List.DropRight
import Mathlib.Tactic.IntervalCases
import Remerge.PackageNames
import Remerge.VersionOrder

/-!
# Versions of the Package Manager Specification

A version read into its numbers, letter, suffixes and revision, and the order the
specification gives to versions: numbers first, then the letter, then the suffixes,
then the revision. Every number counts in full, and a number behind a dot that
starts with a zero is compared as a fraction is.
-/

set_option autoImplicit false

namespace Remerge.PmsVersions
open RegularExpression PackageNames VersionOrder

abbrev Digits := {ds : List Char // ds.all Char.isDigit = true}

abbrev Number := {ds : List Char // ds ≠ [] ∧ ds.all Char.isDigit = true}

abbrev Letter := {c : Char // c.isLower = true}

structure Version where
  first : Number
  rest : List Number
  letter : Option Letter
  suffixes : List (SuffixKind × Digits)
  revision : Option Number
  deriving DecidableEq

def letterText (letter : Option Letter) : List Char := (letter.map Subtype.val).toList

def suffixText (s : SuffixKind × Digits) : List Char := s.1.keyword++s.2.1

def numbersText (rest : List Number) : List Char := rest.flatMap fun n => '.'::n.1

def suffixesText (suffixes : List (SuffixKind × Digits)) : List Char :=
  suffixes.flatMap fun s => '_'::suffixText s

def revisionText : Option Number → List Char
  | none => []
  | some n => '-':: 'r'::n.1

def Version.base (v : Version) : List Char :=
  v.first.1++numbersText v.rest++letterText v.letter++suffixesText v.suffixes

def Version.text (v : Version) : List Char := v.base++revisionText v.revision

section
variable {c : Char} {w : List Char}

theorem mem_digits_of_isDigit (h : c.isDigit) : c ∈ digits := by
  simp only [Char.isDigit,Bool.and_eq_true,decide_eq_true_eq,ge_iff_le,UInt32.le_iff_toNat_le] at h
  have hlow : 48 ≤ c.toNat := h.1
  have hhigh : c.toNat ≤ 57 := h.2
  have hc : c = Char.ofNat c.toNat := (Char.ofNat_toNat c).symm
  rw [hc]
  interval_cases c.toNat <;> decide

theorem mem_lowercase_of_isLower (h : c.isLower) : c ∈ lowercase := by
  unfold Char.isLower at h
  simp only [Bool.and_eq_true,decide_eq_true_eq,ge_iff_le,UInt32.le_iff_toNat_le] at h
  have hlow : 97 ≤ c.toNat := h.1
  have hhigh : c.toNat ≤ 122 := h.2
  have hc : c = Char.ofNat c.toNat := (Char.ofNat_toNat c).symm
  rw [hc]
  interval_cases c.toNat <;> decide

theorem isLower_of_mem_lowercase (h : c ∈ lowercase) : c.isLower := by
  have hall : lowercase.all Char.isLower := by decide
  exact List.all_eq_true.mp hall c h

theorem mem_oneOf {cs : List Char} (h : c ∈ cs) : [c] ∈ (oneOf cs).matches' := by
  induction cs with
  | nil => cases h
  | cons d cs ih =>
    rcases List.mem_cons.mp h with rfl | h
    · exact .inl rfl
    · exact .inr (ih h)

theorem mem_literal (cs : List Char) : cs ∈ (literal cs).matches' := by
  induction cs with
  | nil => exact rfl
  | cons c cs ih => exact Language.mem_mul.mpr ⟨[c],rfl,cs,ih,rfl⟩

theorem mem_star_digits_iff : w ∈ (star (oneOf digits)).matches' ↔ w.all Char.isDigit := by
  constructor
  · intro h
    obtain ⟨ws,rfl,hws⟩ := Language.mem_kstar.mp h
    refine List.all_eq_true.mpr fun c hc => ?_
    obtain ⟨u,hu,hc⟩ := List.mem_flatten.mp hc
    obtain ⟨d,hd,rfl⟩ := matches_oneOf (hws u hu)
    rw [List.mem_singleton.mp hc]
    exact isDigit_of_mem_digits hd
  · intro h
    have hw : w = (w.map fun c => [c]).flatten := by rw [← List.flatMap_def,List.flatMap_singleton']
    refine Language.mem_kstar.mpr ⟨w.map fun c => [c],hw,?_⟩
    intro u hu
    obtain ⟨c,hc,rfl⟩ := List.mem_map.mp hu
    exact mem_oneOf (mem_digits_of_isDigit (List.all_eq_true.mp h c hc))

theorem mem_number_iff : w ∈ number.matches' ↔ w ≠ [] ∧ w.all Char.isDigit := by
  constructor
  · intro h
    obtain ⟨u,hu,v,hv,rfl⟩ := Language.mem_mul.mp h
    obtain ⟨d,hd,rfl⟩ := matches_oneOf hu
    exact ⟨by simp,by simpa [isDigit_of_mem_digits hd] using mem_star_digits_iff.mp hv⟩
  · rintro ⟨hw,h⟩
    cases w with
    | nil => exact absurd rfl hw
    | cons c w =>
      simp only [List.all_cons,Bool.and_eq_true] at h
      exact Language.mem_mul.mpr ⟨[c],mem_oneOf (mem_digits_of_isDigit h.1),w,
        mem_star_digits_iff.mpr h.2,rfl⟩

theorem mem_suffixKind_iff : w ∈ suffixKind.matches' ↔ ∃ k : SuffixKind, w = '_'::k.keyword := by
  constructor
  · rintro ((((h | h) | h) | h) | h)
    · exact ⟨.alpha,matches_literal h⟩
    · exact ⟨.beta,matches_literal h⟩
    · exact ⟨.pre,matches_literal h⟩
    · exact ⟨.rc,matches_literal h⟩
    · exact ⟨.p,matches_literal h⟩
  · rintro ⟨k,rfl⟩
    cases k with
    | alpha => exact .inl (.inl (.inl (.inl (mem_literal _))))
    | beta => exact .inl (.inl (.inl (.inr (mem_literal _))))
    | pre => exact .inl (.inl (.inr (mem_literal _)))
    | rc => exact .inl (.inr (mem_literal _))
    | p => exact .inr (mem_literal _)

theorem mem_star_iff {β : Type} {e : RegularExpression Char} (render : β → List Char)
    (h : ∀ w, w ∈ e.matches' ↔ ∃ x, w = render x) :
    w ∈ (star e).matches' ↔ ∃ xs : List β, w = xs.flatMap render := by
  constructor
  · intro hw
    obtain ⟨ws,rfl,hws⟩ := Language.mem_kstar.mp hw
    clear hw
    induction ws with
    | nil => exact ⟨[],rfl⟩
    | cons u ws ih =>
      obtain ⟨x,hx⟩ := (h u).mp (hws u (by simp))
      obtain ⟨xs,hxs⟩ := ih fun y hy => hws y (by simp [hy])
      exact ⟨x::xs,by rw [List.flatten_cons,hx,hxs,List.flatMap_cons]⟩
  · rintro ⟨xs,rfl⟩
    refine Language.mem_kstar.mpr ⟨xs.map render,by rw [List.flatMap],?_⟩
    intro y hy
    obtain ⟨x,-,rfl⟩ := List.mem_map.mp hy
    exact (h _).mpr ⟨x,rfl⟩

theorem mem_dotted_iff (w : List Char) :
    w ∈ (char '.'*number).matches' ↔ ∃ n : Number, w = '.'::n.1 := by
  constructor
  · intro h
    obtain ⟨u,hu,v,hv,rfl⟩ := Language.mem_mul.mp h
    rw [Set.mem_singleton_iff.mp hu]
    exact ⟨⟨v,mem_number_iff.mp hv⟩,rfl⟩
  · rintro ⟨n,rfl⟩
    exact Language.mem_mul.mpr ⟨['.'],rfl,n.1,mem_number_iff.mpr n.2,rfl⟩

theorem mem_suffix_iff (w : List Char) :
    w ∈ (suffixKind*star (oneOf digits)).matches' ↔
      ∃ s : SuffixKind × Digits, w = '_'::suffixText s := by
  constructor
  · intro h
    obtain ⟨u,hu,v,hv,rfl⟩ := Language.mem_mul.mp h
    obtain ⟨k,rfl⟩ := mem_suffixKind_iff.mp hu
    exact ⟨(k,⟨v,mem_star_digits_iff.mp hv⟩),rfl⟩
  · rintro ⟨s,rfl⟩
    exact Language.mem_mul.mpr ⟨'_'::s.1.keyword,mem_suffixKind_iff.mpr ⟨s.1,rfl⟩,s.2.1,
      mem_star_digits_iff.mpr s.2.2,rfl⟩

theorem mem_letter_iff :
    w ∈ (1+oneOf lowercase).matches' ↔ ∃ letter : Option Letter, w = letterText letter := by
  constructor
  · rintro (h | h)
    · exact ⟨none,Set.mem_singleton_iff.mp h⟩
    · obtain ⟨c,hc,rfl⟩ := matches_oneOf h
      exact ⟨some ⟨c,isLower_of_mem_lowercase hc⟩,rfl⟩
  · rintro ⟨letter,rfl⟩
    cases letter with
    | none => exact .inl rfl
    | some c => exact .inr (mem_oneOf (mem_lowercase_of_isLower c.2))

theorem mem_revision_iff : w ∈ revision.matches' ↔ ∃ r : Option Number, w = revisionText r := by
  constructor
  · rintro (h | h)
    · exact ⟨none,Set.mem_singleton_iff.mp h⟩
    · obtain ⟨u,hu,v,hv,rfl⟩ := Language.mem_mul.mp h
      rw [matches_literal hu]
      exact ⟨some ⟨v,mem_number_iff.mp hv⟩,rfl⟩
  · rintro ⟨r,rfl⟩
    cases r with
    | none => exact .inl rfl
    | some n => exact .inr (Language.mem_mul.mpr ⟨['-','r'],mem_literal _,n.1,
        mem_number_iff.mpr n.2,rfl⟩)

theorem isVersion_iff : isVersion w ↔ ∃ v : Version, w = v.text := by
  rw [isVersion,rmatch_iff_matches']
  constructor
  · intro h
    obtain ⟨base,hbase,rev,hrev,rfl⟩ := Language.mem_mul.mp h
    obtain ⟨first,hfirst,t,ht,rfl⟩ := Language.mem_mul.mp hbase
    obtain ⟨dotted,hdotted,u,hu,rfl⟩ := Language.mem_mul.mp ht
    obtain ⟨letter,hletter,suffixes,hsuffixes,rfl⟩ := Language.mem_mul.mp hu
    obtain ⟨rest,rfl⟩ := (mem_star_iff _ mem_dotted_iff).mp hdotted
    obtain ⟨l,rfl⟩ := mem_letter_iff.mp hletter
    obtain ⟨ss,rfl⟩ := (mem_star_iff _ mem_suffix_iff).mp hsuffixes
    obtain ⟨r,rfl⟩ := mem_revision_iff.mp hrev
    exact ⟨⟨⟨first,mem_number_iff.mp hfirst⟩,rest,l,ss,r⟩,by
      simp [Version.text,Version.base,numbersText,suffixesText,List.append_assoc]⟩
  · rintro ⟨v,rfl⟩
    have hbase : v.base = v.first.1++(numbersText v.rest++(letterText v.letter++
        suffixesText v.suffixes)) := by simp [Version.base,List.append_assoc]
    rw [Version.text,hbase]
    refine Language.mem_mul.mpr ⟨_,?_,_,mem_revision_iff.mpr ⟨_,rfl⟩,rfl⟩
    refine Language.mem_mul.mpr ⟨_,mem_number_iff.mpr v.first.2,_,?_,rfl⟩
    refine Language.mem_mul.mpr ⟨_,(mem_star_iff _ mem_dotted_iff).mpr ⟨_,rfl⟩,_,?_,rfl⟩
    exact Language.mem_mul.mpr ⟨_,mem_letter_iff.mpr ⟨_,rfl⟩,_,
      (mem_star_iff _ mem_suffix_iff).mpr ⟨_,rfl⟩,rfl⟩

end

def revisionValue : Option Number → ℕ
  | none => 0
  | some n => decimal n.1

def stripZeros (ds : List Char) : List Char := ds.rdropWhile (· == '0')

def compareComponent (x y : Number) : Ordering :=
  if x.1.head? = some '0' ∨ y.1.head? = some '0' then compare (stripZeros x.1) (stripZeros y.1)
  else compare (decimal x.1) (decimal y.1)

def compareRest : List Number → List Number → Ordering
  | [], [] => .eq
  | [], _::_ => .lt
  | _::_, [] => .gt
  | x::xs, y::ys => (compareComponent x y).then (compareRest xs ys)

def compareNumbers (a b : Version) : Ordering :=
  (compare (decimal a.first.1) (decimal b.first.1)).then (compareRest a.rest b.rest)

def compareSuffix (s t : SuffixKind × Digits) : Ordering :=
  (compare s.1.order t.1.order).then (compare (decimal s.2.1) (decimal t.2.1))

/-- A further suffix puts a version before the shorter one, unless it is a patch. -/
def compareSuffixes : List (SuffixKind × Digits) → List (SuffixKind × Digits) → Ordering
  | [], [] => .eq
  | [], t::_ => if t.1 = .p then .lt else .gt
  | s::_, [] => if s.1 = .p then .gt else .lt
  | s::ss, t::ts => (compareSuffix s t).then (compareSuffixes ss ts)

def compareLetter (a b : Option Letter) : Ordering :=
  compare (a.map Subtype.val) (b.map Subtype.val)

def pmsCompare (a b : Version) : Ordering :=
  (compareNumbers a b).then <| (compareLetter a.letter b.letter).then <|
    (compareSuffixes a.suffixes b.suffixes).then <|
      compare (revisionValue a.revision) (revisionValue b.revision)

end Remerge.PmsVersions

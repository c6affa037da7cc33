import Mathlib.Computability.RegularExpressions
import Remerge.RustText

/-!
# Categories, package names and versions

The names of Gentoo packages, by the grammar of the Package Manager Specification:
what a category and a package may be called and what a version looks like.
-/

set_option autoImplicit false

namespace Remerge.PackageNames
open RegularExpression RustText

def oneOf (cs : List Char) : RegularExpression Char := cs.foldr (fun c e => char c+e) 0

def literal (cs : List Char) : RegularExpression Char := cs.foldr (fun c e => char c*e) 1

def letters : RegularExpression Char → List Char
  | .zero => []
  | .epsilon => []
  | .char c => [c]
  | .plus p q => letters p++letters q
  | .comp p q => letters p++letters q
  | .star p => letters p

variable {w cs v : List Char} {c : Char}

theorem mem_letters {p : RegularExpression Char} (h : w ∈ p.matches') (hc : c ∈ w) :
    c ∈ letters p := by
  induction p generalizing w with
  | zero => cases h
  | epsilon =>
    rw [Set.mem_singleton_iff.mp h] at hc
    cases hc
  | char a =>
    rw [Set.mem_singleton_iff.mp h] at hc
    exact hc
  | plus p q hp hq =>
    rcases h with h | h
    · exact List.mem_append_left _ (hp h hc)
    · exact List.mem_append_right _ (hq h hc)
  | comp p q hp hq =>
    obtain ⟨u,hu,v,hv,rfl⟩ := Language.mem_mul.mp h
    rcases List.mem_append.mp hc with hc | hc
    · exact List.mem_append_left _ (hp hu hc)
    · exact List.mem_append_right _ (hq hv hc)
  | star p hp =>
    obtain ⟨ws,rfl,hws⟩ := Language.mem_kstar.mp h
    obtain ⟨u,hu,hc⟩ := List.mem_flatten.mp hc
    exact hp (hws u hu) hc

theorem matches_oneOf (h : w ∈ (oneOf cs).matches') : ∃ c ∈ cs, w = [c] := by
  induction cs with
  | nil => cases h
  | cons c cs ih =>
    rcases h with h | h
    · exact ⟨c,by simp,Set.mem_singleton_iff.mp h⟩
    · obtain ⟨d,hd,hw⟩ := ih h
      exact ⟨d,by simp [hd],hw⟩

theorem matches_literal (h : w ∈ (literal cs).matches') : w = cs := by
  induction cs generalizing w with
  | nil => exact Set.mem_singleton_iff.mp h
  | cons c cs ih =>
    obtain ⟨u,hu,v,hv,rfl⟩ := Language.mem_mul.mp h
    rw [Set.mem_singleton_iff.mp hu,ih hv]
    rfl

def digits : List Char := ['0','1','2','3','4','5','6','7','8','9']

def lowercase : List Char :=
  ['a','b','c','d','e','f','g','h','i','j','k','l','m','n','o','p','q','r','s','t','u','v','w',
    'x','y','z']

def number : RegularExpression Char := oneOf digits*star (oneOf digits)

def suffixKind : RegularExpression Char :=
  literal ['_','a','l','p','h','a']+literal ['_','b','e','t','a']+literal ['_','p','r','e']+
    literal ['_','r','c']+literal ['_','p']

def release : RegularExpression Char :=
  number*(star (char '.'*number)*((1+oneOf lowercase)*star (suffixKind*star (oneOf digits))))

def revision : RegularExpression Char := 1+literal ['-','r']*number

def version : RegularExpression Char := release*revision

def isVersion (v : List Char) : Bool := version.rmatch v

def categoryChar (c : Char) : Bool := c.isAlphanum || ['+','_','.','-'].contains c

def packageNameChar (c : Char) : Bool := c.isAlphanum || ['+','_','-'].contains c

def isCategory (c : List Char) : Bool :=
  c ≠ [] && c.all categoryChar && !c.head?.any (['-','.','+'].contains ·)

def afterHyphens : List Char → List (List Char)
  | [] => []
  | c::cs => if c = '-' then cs::afterHyphens cs else afterHyphens cs

def isPackageName (n : List Char) : Bool :=
  n ≠ [] && n.all packageNameChar && !n.head?.any (['-','+'].contains ·) &&
    (afterHyphens n).all fun v => !isVersion v

def NoHyphenDigit (cs : List Char) : Prop :=
  ∀ front back : List Char, ∀ d : Char, cs = front++ '-'::d::back → d.isDigit = false

theorem noHyphenDigit_of_not_mem (h : '-' ∉ cs) : NoHyphenDigit cs := by
  rintro front back d rfl
  simp at h

theorem isDigit_of_mem_digits (h : c ∈ digits) : c.isDigit := by
  have hall : digits.all Char.isDigit := by decide
  exact List.all_eq_true.mp hall c h

theorem number_cons (h : w ∈ number.matches') : ∃ d ds, w = d::ds ∧ d.isDigit := by
  obtain ⟨u,hu,v,-,rfl⟩ := Language.mem_mul.mp h
  obtain ⟨d,hd,rfl⟩ := matches_oneOf hu
  exact ⟨d,v,rfl,isDigit_of_mem_digits hd⟩

theorem isVersion_cons (h : isVersion v) : ∃ d ds, v = d::ds ∧ d.isDigit := by
  obtain ⟨u,hu,r,-,rfl⟩ := Language.mem_mul.mp ((rmatch_iff_matches' _ _).mp h)
  obtain ⟨n,hn,t,-,rfl⟩ := Language.mem_mul.mp hu
  obtain ⟨d,ds,rfl,hd⟩ := number_cons hn
  exact ⟨d,ds++t++r,by simp,hd⟩

theorem noHyphenDigit_of_isVersion (h : isVersion v) : NoHyphenDigit v := by
  obtain ⟨u,hu,r,hr,rfl⟩ := Language.mem_mul.mp ((rmatch_iff_matches' _ _).mp h)
  have hmain : '-' ∉ u := fun hc => absurd (mem_letters hu hc) (by decide)
  rcases hr with hr | hr
  · rw [Set.mem_singleton_iff.mp hr,List.append_nil]
    exact noHyphenDigit_of_not_mem hmain
  · obtain ⟨mark,hmark,n,hn,rfl⟩ := Language.mem_mul.mp hr
    rw [matches_literal hmark,List.cons_append,List.singleton_append]
    have hnum : '-' ∉ 'r'::n := by
      intro hc
      rcases List.mem_cons.mp hc with hc | hc
      · cases hc
      · exact absurd (mem_letters hn hc) (by decide)
    intro front back d he
    rcases append_cons_eq_iff.mp he with ⟨-,hd⟩ | ⟨x,-,hx⟩ | ⟨x,hx,-⟩
    · rw [← (List.cons.inj hd).1]
      decide
    · rw [hx] at hnum
      simp at hnum
    · rw [hx] at hmain
      simp at hmain

end Remerge.PackageNames

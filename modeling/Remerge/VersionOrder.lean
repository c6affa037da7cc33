import Mathlib.Algebra.Group.Nat.Defs
import Mathlib.Data.Int.Notation
import Remerge.PaddedOrder

/-!
# How the client compares versions

`compare_versions` of the client splits both versions at dots and underscores and
goes through the parts side by side. A part is a suffix, a number with perhaps a
letter behind it, or a word; a number that does not fit 64 bits makes its part a
word. The revision decides when no part does.
-/

set_option autoImplicit false

namespace Remerge.VersionOrder
open Std PaddedOrder

def decimal (ds : List Char) : ℕ := Nat.ofDigitChars 10 ds 0

/-- `parse::<u64>`, which is only called on a text of digits that is not empty. -/
def parseU64 (ds : List Char) : Option ℕ := if decimal ds < 2^64 then some (decimal ds) else none

/-- The last `-r` and what stands around it. -/
def rfindRevision : List Char → Option (List Char × List Char)
  | [] => none
  | c::cs =>
    match rfindRevision cs with
    | some (front,back) => some (c::front,back)
    | none => if c = '-' ∧ cs.head? = some 'r' then some ([],cs.tail) else none

def splitRevision (version : List Char) : List Char × Option (List Char) :=
  match rfindRevision version with
  | some (front,after) =>
    if after ≠ [] ∧ after.all Char.isDigit then (front,some ('r'::after)) else (version,none)
  | none => (version,none)

inductive SuffixKind where
  | alpha
  | beta
  | pre
  | rc
  | p
  deriving DecidableEq, Repr

def SuffixKind.keyword : SuffixKind → List Char
  | .alpha => ['a','l','p','h','a']
  | .beta => ['b','e','t','a']
  | .pre => ['p','r','e']
  | .rc => ['r','c']
  | .p => ['p']

def SuffixKind.order : SuffixKind → ℤ
  | .alpha => -4
  | .beta => -3
  | .pre => -2
  | .rc => -1
  | .p => 1

def suffixKindWithNumber (s : List Char) (kind : SuffixKind) : Option (SuffixKind × ℕ) :=
  if kind.keyword.isPrefixOf s then
    let rest := s.drop kind.keyword.length
    if rest = [] then some (kind,0)
    else if rest.all Char.isDigit then (parseU64 rest).map (kind,·)
    else none
  else none

def suffixOrder (s : List Char) : Option (SuffixKind × ℕ) :=
  (suffixKindWithNumber s .alpha).or <| (suffixKindWithNumber s .beta).or <|
    (suffixKindWithNumber s .pre).or <| (suffixKindWithNumber s .rc).or <| suffixKindWithNumber s .p

def splitNumericLetter (s : List Char) : Option ℕ × Option Char :=
  let digits := s.takeWhile Char.isDigit
  (if digits ≠ [] then parseU64 digits else none,
    (s.dropWhile Char.isDigit).head?.filter Char.isLower)

def compareLetters : Option Char → Option Char → Ordering
  | none, none => .eq
  | none, some _ => .lt
  | some _, none => .gt
  | some a, some b => compare a b

/-- One round of the loop. No kind has the order zero, so that a suffix beside a
part that is none always ends the loop. -/
def comparePart (pa pb : List Char) : Ordering :=
  match suffixOrder pa, suffixOrder pb with
  | some a, some b => (compare a.1.order b.1.order).then (compare a.2 b.2)
  | some a, none => compare a.1.order 0
  | none, some b => compare 0 b.1.order
  | none, none =>
    match splitNumericLetter pa, splitNumericLetter pb with
    | (some na,la), (some nb,lb) => (compare na nb).then (compareLetters la lb)
    | (some _,_), (none,_) => .gt
    | (none,_), (some _,_) => .lt
    | (none,_), (none,_) => compare pa pb

def isSeparator (c : Char) : Bool := c == '.' || c == '_'

def versionParts (base : List Char) : List (List Char) := base.splitOnP isSeparator

def revisionNumber : Option (List Char) → ℕ
  | some ('r'::ds) => (parseU64 ds).getD 0
  | _ => 0

def compareVersions (a b : List Char) : Ordering :=
  (paddedCompare comparePart [] (versionParts (splitRevision a).1)
    (versionParts (splitRevision b).1)).then
    (compare (revisionNumber (splitRevision a).2) (revisionNumber (splitRevision b).2))

inductive Part where
  | suffix (kind : SuffixKind) (number : ℕ)
  | number (n : ℕ) (letter : Option Char)
  | word (text : List Char)
  deriving DecidableEq, Repr

def classify (s : List Char) : Part :=
  match suffixOrder s with
  | some a => .suffix a.1 a.2
  | none =>
    match splitNumericLetter s with
    | (some n,letter) => .number n letter
    | (none,_) => .word s

def Part.compare : Part → Part → Ordering
  | .suffix k m, .suffix l n => (Ord.compare k.order l.order).then (Ord.compare m n)
  | .suffix k _, _ => Ord.compare k.order 0
  | _, .suffix l _ => Ord.compare 0 l.order
  | .number m a, .number n b => (Ord.compare m n).then (Ord.compare a b)
  | .number _ _, .word _ => .gt
  | .word _, .number _ _ => .lt
  | .word s, .word t => Ord.compare s t

theorem compareLetters_eq (a b : Option Char) : compareLetters a b = compare a b := by
  cases a <;> cases b <;> rfl

theorem comparePart_eq (pa pb : List Char) :
    comparePart pa pb = (classify pa).compare (classify pb) := by
  unfold comparePart classify
  cases suffixOrder pa with
  | some a =>
    cases suffixOrder pb with
    | some b => rfl
    | none => cases splitNumericLetter pb with | mk n l => cases n <;> rfl
  | none =>
    cases splitNumericLetter pa with
    | mk m l =>
      cases suffixOrder pb with
      | some b => cases m <;> rfl
      | none =>
        cases splitNumericLetter pb with
        | mk n l' => cases m <;> cases n <;> simp [Part.compare,compareLetters_eq]

def Part.kindRank : Part → ℤ
  | .suffix k _ => k.order
  | _ => 0

def Part.shapeRank : Part → ℕ
  | .number _ _ => 1
  | _ => 0

def Part.amount : Part → ℕ
  | .suffix _ n => n
  | .number n _ => n
  | .word _ => 0

def Part.letter : Part → Option Char
  | .number _ letter => letter
  | _ => none

def Part.text : Part → List Char
  | .word text => text
  | _ => []

theorem compare_order_zero (k : SuffixKind) : compare k.order 0 ≠ .eq := by
  cases k <;> decide

theorem compare_zero_order (k : SuffixKind) : compare 0 k.order ≠ .eq := by
  cases k <;> decide

theorem Part.compare_eq : Part.compare =
    compareLex (compareOn Part.kindRank) (compareLex (compareOn Part.shapeRank)
      (compareLex (compareOn Part.amount) (compareLex (compareOn Part.letter)
        (compareOn Part.text)))) := by
  funext p q
  simp only [compareLex,compareOn]
  cases p with
  | suffix k m =>
    cases q with
    | suffix l n => simp [Part.compare,kindRank,shapeRank,amount,letter,text]
    | number n b | word t => exact (then_of_ne (compare_order_zero k)).symm
  | number m a =>
    cases q with
    | suffix l n => exact (then_of_ne (compare_zero_order l)).symm
    | number n b => simp [Part.compare,kindRank,shapeRank,amount,letter,text]
    | word t => rfl
  | word s =>
    cases q with
    | suffix l n => exact (then_of_ne (compare_zero_order l)).symm
    | number n b => rfl
    | word t => simp [Part.compare,kindRank,shapeRank,amount,letter,text]

instance : TransCmp Part.compare := by
  rw [Part.compare_eq]
  infer_instance

instance : TransCmp comparePart := by
  have h : comparePart = fun pa pb => (classify pa).compare (classify pb) := by
    funext pa pb
    exact comparePart_eq pa pb
  rw [h]
  exact transCmp_on Part.compare classify

theorem transCmp_compareVersions : TransCmp compareVersions := by
  have := transCmp_on (paddedCompare comparePart [])
    (fun v : List Char => versionParts (splitRevision v).1)
  have := transCmp_on (compare (α := ℕ)) (fun v : List Char => revisionNumber (splitRevision v).2)
  have h : compareVersions = compareLex
      (fun a b => paddedCompare comparePart [] (versionParts (splitRevision a).1)
        (versionParts (splitRevision b).1))
      (fun a b => compare (revisionNumber (splitRevision a).2)
        (revisionNumber (splitRevision b).2)) := rfl
  rw [h]
  infer_instance

theorem isLE_iff_ne_gt (o : Ordering) : o.isLE ↔ o ≠ .gt := by
  cases o <;> decide

/-- The comparison of versions is a total preorder on all texts. -/
theorem compareVersions_total_preorder (a b c : List Char) :
    compareVersions a b = (compareVersions b a).swap ∧ compareVersions a a = .eq ∧
      (compareVersions a b ≠ .gt → compareVersions b c ≠ .gt → compareVersions a c ≠ .gt) := by
  have := transCmp_compareVersions
  refine ⟨OrientedCmp.eq_swap,ReflCmp.compare_self,?_⟩
  simp only [← isLE_iff_ne_gt]
  exact TransCmp.isLE_trans

theorem candidate_not_behind_patch : compareVersions "1.0_rc1".toList "1.0".toList ≠ .gt ∧
    compareVersions "1.0".toList "1.0_p2-r1".toList ≠ .gt ∧
      compareVersions "1.0_rc1".toList "1.0_p2-r1".toList ≠ .gt :=
  ⟨by decide,by decide,(compareVersions_total_preorder _ "1.0".toList _).2.2 (by decide)
    (by decide)⟩

end Remerge.VersionOrder

import Remerge.PmsVersions

/-!
# Where the client's version order is the specified one

Both orders go through the pieces of two versions side by side, but they look at a
piece differently. The client reads a number only if it fits 64 bits, forgets its
leading zeros and looks at the letter before it knows how many numbers follow; it
puts a patch suffix before a further number. Where every number fits and none behind
a dot starts with a zero, the orders part exactly over a letter or a patch that
stands where the other version goes on with a number.
-/

set_option autoImplicit false

namespace Remerge.VersionAgreement
open PaddedOrder PackageNames VersionOrder PmsVersions

inductive Piece where
  | number (n : Number) (letter : Option Letter)
  | suffix (kind : SuffixKind) (ds : Digits)
  | revision (r : Option Number)
  | absent

def numberPieces (letter : Option Letter) (n : Number) : List Number → List Piece
  | [] => [.number n letter]
  | m::ms => .number n none::numberPieces letter m ms

def suffixPiece (s : SuffixKind × Digits) : Piece := .suffix s.1 s.2

def pieces (v : Version) : List Piece :=
  numberPieces v.letter v.first v.rest++v.suffixes.map suffixPiece

def aligned (a b : Version) : List (Piece × Piece) :=
  padZip .absent (pieces a) (pieces b)++[(.revision a.revision,.revision b.revision)]

def Piece.reading : Piece → Part
  | .number n letter =>
    if decimal n.1 < 2^64 then .number (decimal n.1) (letter.map Subtype.val)
    else .word (n.1++letterText letter)
  | .suffix k ds =>
    if decimal ds.1 < 2^64 then .suffix k (decimal ds.1) else .word (k.keyword++ds.1)
  | .revision r => .number (if revisionValue r < 2^64 then revisionValue r else 0) none
  | .absent => .word []

def flatOrder (x y : Piece) : Ordering := x.reading.compare y.reading

theorem padZip_cons_cons {α : Type} (pad x y : α) (xs ys : List α) :
    padZip pad (x::xs) (y::ys) = (x,y)::padZip pad xs ys := rfl

def Piece.text : Piece → List Char
  | .number n letter => n.1++letterText letter
  | .suffix k ds => k.keyword++ds.1
  | _ => []

variable {c : Char} {w ds : List Char}

theorem not_isSeparator_of_isDigit (h : c.isDigit) : isSeparator c = false := by
  rw [isSeparator,Bool.or_eq_false_iff]
  constructor <;> rw [beq_eq_false_iff_ne] <;> rintro rfl <;> cases h

theorem not_isSeparator_of_isLower (h : c.isLower) : isSeparator c = false := by
  rw [isSeparator,Bool.or_eq_false_iff]
  constructor <;> rw [beq_eq_false_iff_ne] <;> rintro rfl <;> cases h

theorem keyword_isLower (k : SuffixKind) : k.keyword.all Char.isLower := by
  cases k <;> decide

def Whole (w : List Char) : Prop := ∀ c ∈ w, isSeparator c = false

theorem whole_number (n : Number) (letter : Option Letter) : Whole (n.1++letterText letter) := by
  intro c hc
  rcases List.mem_append.mp hc with hc | hc
  · exact not_isSeparator_of_isDigit (List.all_eq_true.mp n.2.2 c hc)
  · cases letter with
    | none => cases hc
    | some l =>
      rw [List.mem_singleton.mp hc]
      exact not_isSeparator_of_isLower l.2

theorem whole_suffix (s : SuffixKind × Digits) : Whole (suffixText s) := by
  intro c hc
  rcases List.mem_append.mp hc with hc | hc
  · exact not_isSeparator_of_isLower (List.all_eq_true.mp (keyword_isLower s.1) c hc)
  · exact not_isSeparator_of_isDigit (List.all_eq_true.mp s.2.2 c hc)

theorem versionParts_suffixes (w : List Char) (hw : Whole w) (ss : List (SuffixKind × Digits)) :
    versionParts (w++suffixesText ss) = w::ss.map suffixText := by
  induction ss generalizing w with
  | nil => simpa [suffixesText,versionParts] using List.splitOnP_eq_singleton hw
  | cons s ss ih =>
    have h : w++suffixesText (s::ss) = w++ '_'::(suffixText s++suffixesText ss) := by
      simp [suffixesText]
    rw [h,versionParts,List.splitOnP_append_cons_of_forall_mem hw _ rfl]
    exact congrArg _ (ih _ (whole_suffix s))

theorem versionParts_numbers (letter : Option Letter) (ss : List (SuffixKind × Digits))
    (n : Number) (ms : List Number) :
    versionParts (n.1++numbersText ms++letterText letter++suffixesText ss) =
      (numberPieces letter n ms).map Piece.text++ss.map suffixText := by
  induction ms generalizing n with
  | nil =>
    simp only [numbersText,List.flatMap_nil,List.append_nil]
    exact versionParts_suffixes _ (whole_number n letter) ss
  | cons m ms ih =>
    have h : n.1++numbersText (m::ms)++letterText letter++suffixesText ss =
        n.1++ '.'::(m.1++numbersText ms++letterText letter++suffixesText ss) := by
      simp [numbersText]
    have hn : Whole n.1 := by simpa [letterText] using whole_number n none
    rw [h,versionParts,List.splitOnP_append_cons_of_forall_mem hn _ rfl]
    simp only [numberPieces,List.map_cons,List.cons_append,Piece.text,letterText,Option.map_none,
      Option.toList_none,List.append_nil]
    exact congrArg _ (ih m)

theorem versionParts_base (v : Version) : versionParts v.base = (pieces v).map Piece.text := by
  rw [Version.base,versionParts_numbers v.letter v.suffixes,pieces,List.map_append,
    List.map_map]
  rfl

theorem rfindRevision_eq_none (h : '-' ∉ w) : rfindRevision w = none := by
  induction w with
  | nil => rfl
  | cons c w ih =>
    simp only [List.mem_cons,not_or] at h
    rw [rfindRevision,ih h.2]
    exact if_neg fun hc => h.1 hc.1.symm

theorem rfindRevision_append (front : List Char) {back : List Char} (h : '-' ∉ back) :
    rfindRevision (front++ '-':: 'r'::back) = some (front,back) := by
  induction front with
  | nil =>
    have hr : rfindRevision ('r'::back) = none := rfindRevision_eq_none (by simp [h])
    rw [List.nil_append,rfindRevision,hr]
    rfl
  | cons c front ih => rw [List.cons_append,rfindRevision,ih]

theorem ne_hyphen_of_isDigit (h : c.isDigit) : c ≠ '-' := by
  rintro rfl
  cases h

theorem ne_hyphen_of_isLower (h : c.isLower) : c ≠ '-' := by
  rintro rfl
  cases h

theorem hyphen_not_mem_number (n : Number) : '-' ∉ n.1 :=
  fun h => ne_hyphen_of_isDigit (List.all_eq_true.mp n.2.2 _ h) rfl

theorem hyphen_not_mem_base (v : Version) : '-' ∉ v.base := by
  simp only [Version.base,List.mem_append,not_or]
  refine ⟨⟨⟨hyphen_not_mem_number v.first,?_⟩,?_⟩,?_⟩
  · intro h
    obtain ⟨n,-,hn⟩ := List.mem_flatMap.mp h
    rcases List.mem_cons.mp hn with hn | hn
    · cases hn
    · exact hyphen_not_mem_number n hn
  · intro h
    cases hl : v.letter with
    | none => rw [hl] at h; cases h
    | some c =>
      rw [hl] at h
      exact ne_hyphen_of_isLower c.2 (List.mem_singleton.mp h).symm
  · intro h
    obtain ⟨s,-,hs⟩ := List.mem_flatMap.mp h
    rcases List.mem_cons.mp hs with hs | hs
    · cases hs
    · rcases List.mem_append.mp hs with hs | hs
      · exact ne_hyphen_of_isLower (List.all_eq_true.mp (keyword_isLower s.1) _ hs) rfl
      · exact ne_hyphen_of_isDigit (List.all_eq_true.mp s.2.2 _ hs) rfl

theorem splitRevision_text (v : Version) :
    splitRevision v.text = (v.base,v.revision.map fun n => 'r'::n.1) := by
  rw [Version.text,splitRevision]
  cases v.revision with
  | none => rw [revisionText,List.append_nil,rfindRevision_eq_none (hyphen_not_mem_base v)]; rfl
  | some n =>
    rw [revisionText,rfindRevision_append v.base (hyphen_not_mem_number n)]
    exact if_pos n.2

theorem takeWhile_run {p : Char → Bool} (hd : ds.all p) (hw : w.head?.all (fun c => !p c)) :
    (ds++w).takeWhile p = ds ∧ (ds++w).dropWhile p = w := by
  induction ds with
  | nil =>
    cases w with
    | nil => exact ⟨rfl,rfl⟩
    | cons c w =>
      have hc : p c = false := by simpa using hw
      simp [hc]
  | cons d ds ih =>
    simp only [List.all_cons,Bool.and_eq_true] at hd
    simp [hd.1,ih hd.2]

theorem not_isDigit_of_isLower (h : c.isLower) : c.isDigit = false := by
  unfold Char.isLower at h
  simp only [Bool.and_eq_true,decide_eq_true_eq,ge_iff_le,UInt32.le_iff_toNat_le] at h
  have hlow : 97 ≤ c.val.toNat := h.1
  rw [← Bool.not_eq_true]
  simp only [Char.isDigit,Bool.and_eq_true,decide_eq_true_eq,not_and,UInt32.le_iff_toNat_le]
  intro _
  have : '9'.val.toNat = 57 := rfl
  omega

theorem suffixKindWithNumber_self (k : SuffixKind) (h : ds.all Char.isDigit) :
    suffixKindWithNumber (k.keyword++ds) k =
      if decimal ds < 2^64 then some (k,decimal ds) else none := by
  have hk : k.keyword.isPrefixOf (k.keyword++ds) :=
    List.isPrefixOf_iff_prefix.mpr (List.prefix_append _ _)
  rw [suffixKindWithNumber,if_pos hk,List.drop_left]
  cases ds with
  | nil => rfl
  | cons d ds =>
    simp only
    rw [if_neg (by simp),if_pos h,parseU64]
    split <;> rfl

/-- Only `p` is the start of another keyword, and what follows there are no digits. -/
theorem suffixKindWithNumber_other {k l : SuffixKind} (hkl : k ≠ l) (h : ds.all Char.isDigit) :
    suffixKindWithNumber (l.keyword++ds) k = none := by
  have hpre : suffixKindWithNumber ('p'::ds) .pre = none := by
    cases ds with
    | nil => rfl
    | cons d ds =>
      have hd : ('r' == d) = false := by
        simp only [List.all_cons,Bool.and_eq_true] at h
        rw [beq_eq_false_iff_ne]
        rintro rfl
        cases h.1
      simp [suffixKindWithNumber,SuffixKind.keyword,List.isPrefixOf,hd]
  cases k <;> cases l <;> first | exact absurd rfl hkl | exact hpre | rfl

theorem suffixOrder_keyword (l : SuffixKind) (h : ds.all Char.isDigit) :
    suffixOrder (l.keyword++ds) = if decimal ds < 2^64 then some (l,decimal ds) else none := by
  have hself := suffixKindWithNumber_self l h
  have hother (k : SuffixKind) (hk : k ≠ l) := suffixKindWithNumber_other hk h
  rw [← hself,suffixOrder]
  cases l <;> simp (disch := decide) only [hother] <;> simp

theorem suffixOrder_number {d : Char} (hd : d.isDigit) (w : List Char) :
    suffixOrder (d::w) = none := by
  have h (k : SuffixKind) : suffixKindWithNumber (d::w) k = none := by
    have hk : k.keyword.isPrefixOf (d::w) = false := by
      have hne (c : Char) (hc : c.isLower) : (c == d) = false := by
        rw [beq_eq_false_iff_ne]
        rintro rfl
        rw [not_isDigit_of_isLower hc] at hd
        cases hd
      cases k <;> simp [SuffixKind.keyword,List.isPrefixOf,hne _ (by decide : 'a'.isLower),
        hne _ (by decide : 'b'.isLower),hne _ (by decide : 'p'.isLower),
        hne _ (by decide : 'r'.isLower)]
    simp [suffixKindWithNumber,hk]
  simp [suffixOrder,h]

theorem classify_number (n : Number) (letter : Option Letter) :
    classify (n.1++letterText letter) =
      if decimal n.1 < 2^64 then .number (decimal n.1) (letter.map Subtype.val)
      else .word (n.1++letterText letter) := by
  have hletter : (letterText letter).head?.all (fun c => !c.isDigit) := by
    cases letter with
    | none => rfl
    | some c => simp [letterText,not_isDigit_of_isLower c.2]
  have hhead : (letterText letter).head?.filter Char.isLower = letter.map Subtype.val := by
    cases letter with
    | none => rfl
    | some c => simp [letterText,c.2]
  have hsuffix : suffixOrder (n.1++letterText letter) = none := by
    cases hn : n.1 with
    | nil => exact absurd hn n.2.1
    | cons d ds =>
      refine suffixOrder_number (List.all_eq_true.mp n.2.2 d ?_) _
      rw [hn]
      exact List.mem_cons_self
  have hsplit : splitNumericLetter (n.1++letterText letter) =
      (parseU64 n.1,letter.map Subtype.val) := by
    obtain ⟨htake,hdrop⟩ := takeWhile_run n.2.2 hletter
    rw [splitNumericLetter,htake,hdrop,hhead,if_pos n.2.1]
  rw [classify,hsuffix]
  simp only [hsplit,parseU64]
  by_cases h : decimal n.1 < 2^64
  · rw [if_pos h,if_pos h]
  · rw [if_neg h,if_neg h]

theorem classify_suffix (k : SuffixKind) (ds : Digits) :
    classify (k.keyword++ds.1) =
      if decimal ds.1 < 2^64 then .suffix k (decimal ds.1) else .word (k.keyword++ds.1) := by
  have hsplit : (splitNumericLetter (k.keyword++ds.1)).1 = none := by
    cases k <;> rfl
  rw [classify,suffixOrder_keyword k ds.2]
  by_cases h : decimal ds.1 < 2^64
  · rw [if_pos h,if_pos h]
  · rw [if_neg h,if_neg h]
    cases hs : splitNumericLetter (k.keyword++ds.1) with
    | mk m l =>
      rw [hs] at hsplit
      subst hsplit
      rfl

theorem classify_pieces (v : Version) :
    (pieces v).map (classify ∘ Piece.text) = (pieces v).map Piece.reading := by
  have hnumbers (letter : Option Letter) (n : Number) (ms : List Number) :
      (numberPieces letter n ms).map (classify ∘ Piece.text) =
        (numberPieces letter n ms).map Piece.reading := by
    induction ms generalizing n with
    | nil => exact congrArg (fun x => [x]) (classify_number n letter)
    | cons m ms ih =>
      rw [numberPieces,List.map_cons,List.map_cons,ih]
      exact congrArg (fun x => x::_) (classify_number n none)
  rw [pieces,List.map_append,List.map_append,hnumbers]
  congr 1
  rw [List.map_map,List.map_map]
  refine List.map_congr_left fun s _ => ?_
  exact classify_suffix s.1 s.2

theorem revisionNumber_eq (r : Option Number) :
    revisionNumber (r.map fun n => 'r'::n.1) =
      if revisionValue r < 2^64 then revisionValue r else 0 := by
  cases r with
  | none => rfl
  | some n =>
    have hv : decimal n.1 = revisionValue (some n) := rfl
    simp only [Option.map_some,revisionNumber,parseU64,hv]
    by_cases h : revisionValue (some n) < 2^64
    · rw [if_pos h,if_pos h]
      rfl
    · rw [if_neg h,if_neg h]
      rfl

theorem paddedCompare_pieces (a b : Version) :
    paddedCompare comparePart [] ((pieces a).map Piece.text) ((pieces b).map Piece.text) =
      firstStrict flatOrder (padZip .absent (pieces a) (pieces b)) := by
  have hcmp : comparePart = fun x y => (classify x).compare (classify y) := by
    funext x y
    exact comparePart_eq x y
  have hpad : classify [] = Piece.absent.reading := rfl
  rw [paddedCompare,hcmp,← firstStrict_map Part.compare classify,
    ← padZip_map classify,List.map_map,List.map_map,classify_pieces,classify_pieces,hpad,
    padZip_map Piece.reading .absent,firstStrict_map Part.compare Piece.reading]
  rfl

theorem compareVersions_eq (a b : Version) :
    compareVersions a.text b.text = firstStrict flatOrder (aligned a b) := by
  rw [compareVersions,splitRevision_text,splitRevision_text,versionParts_base,versionParts_base,
    paddedCompare_pieces,revisionNumber_eq,revisionNumber_eq,aligned,firstStrict_append]
  simp [firstStrict,flatOrder,Piece.reading,Part.compare]

/-- Every number fits 64 bits, and one behind a dot starts with a zero only if it is zero. -/
structure Plain (v : Version) : Prop where
  numbers : ∀ n ∈ v.first::v.rest, decimal n.1 < 2^64
  zeros : ∀ n ∈ v.rest, n.1.head? = some '0' → n.1 = ['0']
  suffixes : ∀ s ∈ v.suffixes, decimal s.2.1 < 2^64
  revision : revisionValue v.revision < 2^64

instance (v : Version) : Decidable (Plain v) :=
  decidable_of_iff ((∀ n ∈ v.first::v.rest, decimal n.1 < 2^64) ∧
      (∀ n ∈ v.rest, n.1.head? = some '0' → n.1 = ['0']) ∧
      (∀ s ∈ v.suffixes, decimal s.2.1 < 2^64) ∧ revisionValue v.revision < 2^64)
    ⟨fun h => ⟨h.1,h.2.1,h.2.2.1,h.2.2.2⟩,fun h => ⟨h.numbers,h.zeros,h.suffixes,h.revision⟩⟩

def values (ns : List Number) : List ℕ := ns.map fun n => decimal n.1

/-- The second list goes on where the first one ends. -/
def GoesOn (ms ns : List Number) : Prop := ms.length < ns.length ∧ values ms <+: values ns

instance (ms ns : List Number) : Decidable (GoesOn ms ns) :=
  inferInstanceAs (Decidable (_ ∧ _))

/-- What follows the numbers is put after a further number by the client. -/
def Overtakes (v : Version) : Prop := v.letter ≠ none ∨ ∃ s ∈ v.suffixes.head?, s.1 = .p

instance (v : Version) : Decidable (Overtakes v) :=
  inferInstanceAs (Decidable (_ ∨ ∃ s ∈ v.suffixes.head?, s.1 = .p))

theorem goesOn_cons_cons (m n : Number) (ms ns : List Number) :
    GoesOn (m::ms) (n::ns) ↔ decimal m.1 = decimal n.1 ∧ GoesOn ms ns := by
  simp only [GoesOn,values,List.length_cons,Nat.add_lt_add_iff_right,List.map_cons,
    List.cons_prefix_cons]
  tauto

theorem not_goesOn_nil (ms : List Number) : ¬GoesOn ms [] := fun h => Nat.not_lt_zero _ h.1

theorem decimal_pos {n : Number} (h : n.1.head? ≠ some '0') : 0 < decimal n.1 := by
  obtain ⟨ds,hne,hd⟩ := n
  cases ds with
  | nil => exact absurd rfl hne
  | cons c ds =>
    have hc : c ≠ '0' := fun hc => h (congrArg some hc)
    have hlow := (List.all_eq_true.mp hd c List.mem_cons_self)
    simp only [Char.isDigit,Bool.and_eq_true,decide_eq_true_eq,ge_iff_le,
      UInt32.le_iff_toNat_le] at hlow
    have hlow' : 48 ≤ c.toNat := hlow.1
    have hne : c.toNat ≠ 48 := fun hn => hc (by rw [← Char.ofNat_toNat c,hn])
    have hz : '0'.toNat = 48 := rfl
    rw [decimal,Nat.ofDigitChars_cons,Nat.ofDigitChars_eq_ofDigitChars_zero]
    have : 0 < 10^ds.length*(10*0+(c.toNat - '0'.toNat)) := Nat.mul_pos (by positivity) (by omega)
    omega

theorem stripZeros_ne_nil {n : Number} (h : n.1.head? ≠ some '0') : stripZeros n.1 ≠ [] := by
  intro hnil
  have hall := List.rdropWhile_eq_nil_iff.mp hnil
  cases hn : n.1 with
  | nil => exact n.2.1 hn
  | cons c ds =>
    have hc := hall c (by rw [hn]; exact List.mem_cons_self)
    rw [hn] at h
    exact h (congrArg some (beq_iff_eq.mp hc))

theorem compareComponent_eq {m n : Number} (hm : m.1.head? = some '0' → m.1 = ['0'])
    (hn : n.1.head? = some '0' → n.1 = ['0']) :
    compareComponent m n = compare (decimal m.1) (decimal n.1) := by
  have hzero : stripZeros ['0'] = [] := rfl
  rw [compareComponent]
  by_cases h : m.1.head? = some '0'
  · rw [if_pos (.inl h),hm h,hzero]
    by_cases h' : n.1.head? = some '0'
    · rw [hn h']
      rfl
    · have hlt : decimal ['0'] < decimal n.1 := decimal_pos h'
      rw [compare_lt_iff_lt.mpr hlt]
      cases hs : stripZeros n.1 with
      | nil => exact absurd hs (stripZeros_ne_nil h')
      | cons c ds => rfl
  · by_cases h' : n.1.head? = some '0'
    · have hlt : decimal ['0'] < decimal m.1 := decimal_pos h
      rw [if_pos (.inr h'),hn h',hzero,compare_gt_iff_gt.mpr hlt]
      cases hs : stripZeros m.1 with
      | nil => exact absurd hs (stripZeros_ne_nil h)
      | cons c ds => rfl
    · rw [if_neg (by tauto)]

section
variable {a b : Version} {m n : Number} {l k : Option Letter} {rest : List Piece}

theorem flatOrder_numbers (hm : decimal m.1 < 2^64) (hn : decimal n.1 < 2^64) :
    flatOrder (.number m l) (.number n k) =
      (compare (decimal m.1) (decimal n.1)).then (compareLetter l k) := by
  rw [flatOrder,Piece.reading,Piece.reading,if_pos hm,if_pos hn]
  rfl

theorem flatOrder_suffix {s : SuffixKind × Digits} (hs : decimal s.2.1 < 2^64) {p : Piece}
    (hp : ∀ k d, p.reading ≠ .suffix k d) :
    flatOrder (suffixPiece s) p = compare s.1.order 0 ∧
      flatOrder p (suffixPiece s) = compare 0 s.1.order := by
  have hr : (suffixPiece s).reading = .suffix s.1 (decimal s.2.1) := if_pos hs
  rw [flatOrder,flatOrder,hr]
  cases h : p.reading with
  | suffix k d => exact absurd h (hp k d)
  | number n l | word w => exact ⟨rfl,rfl⟩

theorem firstStrict_suffixes (ss ts : List (SuffixKind × Digits))
    (hs : ∀ s ∈ ss, decimal s.2.1 < 2^64) (ht : ∀ t ∈ ts, decimal t.2.1 < 2^64) :
    firstStrict flatOrder (padZip .absent (ss.map suffixPiece) (ts.map suffixPiece)) =
      compareSuffixes ss ts := by
  have habsent : ∀ k d, Piece.absent.reading ≠ .suffix k d := by rintro k d ⟨⟩
  induction ss generalizing ts with
  | nil =>
    cases ts with
    | nil => rfl
    | cons t ts =>
      have h := (flatOrder_suffix (ht t List.mem_cons_self) habsent).2
      simp only [List.map_nil,padZip,List.map_cons,firstStrict,h]
      rw [then_of_ne (compare_zero_order t.1),compareSuffixes]
      cases t.1 <;> rfl
  | cons s ss ih =>
    rw [List.forall_mem_cons] at hs
    cases ts with
    | nil =>
      have h := (flatOrder_suffix hs.1 habsent).1
      simp only [List.map_nil,padZip,List.map_cons,firstStrict,h]
      rw [then_of_ne (compare_order_zero s.1),compareSuffixes]
      cases s.1 <;> rfl
    | cons t ts =>
      rw [List.forall_mem_cons] at ht
      have h : flatOrder (suffixPiece s) (suffixPiece t) = compareSuffix s t := by
        rw [flatOrder,suffixPiece,suffixPiece,Piece.reading,Piece.reading,if_pos hs.1,if_pos ht.1]
        rfl
      simp only [List.map_cons,padZip_cons_cons,firstStrict,compareSuffixes,h,ih ts hs.2 ht.2]

/-- The letter or the first suffix of one version beside the next number of the other. -/
theorem firstStrict_ends (ha : ∀ s ∈ a.suffixes, decimal s.2.1 < 2^64)
    (hn : decimal n.1 < 2^64) (k : Option Letter) (rest : List Piece) :
    ((compareLetter a.letter none).then (firstStrict flatOrder
        (padZip .absent (a.suffixes.map suffixPiece) (.number n k::rest))) =
      if Overtakes a then .gt else .lt) ∧
    (compareLetter none a.letter).then (firstStrict flatOrder
        (padZip .absent (.number n k::rest) (a.suffixes.map suffixPiece))) =
      if Overtakes a then .lt else .gt := by
  have hr : (Piece.number n k).reading = .number (decimal n.1) (k.map Subtype.val) := if_pos hn
  obtain ⟨first,ns,letter,suffixes,revision⟩ := a
  cases letter with
  | some l => exact ⟨rfl,rfl⟩
  | none =>
    have hnone : compareLetter none none = .eq := rfl
    cases suffixes with
    | nil =>
      have hlt : flatOrder .absent (.number n k) = .lt := by rw [flatOrder,hr]; rfl
      have hgt : flatOrder (.number n k) .absent = .gt := by rw [flatOrder,hr]; rfl
      simp only [hnone,List.map_nil,padZip,List.map_cons,firstStrict,hlt,hgt]
      exact ⟨rfl,rfl⟩
    | cons s ss =>
      have h := flatOrder_suffix (ha s List.mem_cons_self) (p := .number n k)
        (by rintro j d hj; rw [hr] at hj; cases hj)
      simp only [hnone,List.map_cons,padZip_cons_cons,firstStrict,h]
      rw [then_of_ne (compare_zero_order s.1),then_of_ne (compare_order_zero s.1)]
      obtain ⟨kind,ds⟩ := s
      cases kind <;> exact ⟨rfl,rfl⟩

theorem numberPieces_eq (letter : Option Letter) (n : Number) (ns : List Number) :
    ∃ l rest, numberPieces letter n ns = .number n l::rest := by
  cases ns with
  | nil | cons n' ns => exact ⟨_,_,rfl⟩

theorem flat_eq_pms_iff (a b : Version) (ha : ∀ s ∈ a.suffixes, decimal s.2.1 < 2^64)
    (hb : ∀ s ∈ b.suffixes, decimal s.2.1 < 2^64) (last : Ordering) (m n : Number)
    (ms ns : List Number) (hm : ∀ x ∈ m::ms, decimal x.1 < 2^64)
    (hn : ∀ x ∈ n::ns, decimal x.1 < 2^64) (hms : ∀ x ∈ ms, x.1.head? = some '0' → x.1 = ['0'])
    (hns : ∀ x ∈ ns, x.1.head? = some '0' → x.1 = ['0']) :
    (firstStrict flatOrder (padZip .absent (numberPieces a.letter m ms++a.suffixes.map suffixPiece)
        (numberPieces b.letter n ns++b.suffixes.map suffixPiece))).then last =
      ((compare (decimal m.1) (decimal n.1)).then ((compareRest ms ns).then
        ((compareLetter a.letter b.letter).then
          (compareSuffixes a.suffixes b.suffixes)))).then last ↔
    ¬(GoesOn (m::ms) (n::ns) ∧ Overtakes a) ∧ ¬(GoesOn (n::ns) (m::ms) ∧ Overtakes b) := by
  rw [goesOn_cons_cons,goesOn_cons_cons]
  rw [List.forall_mem_cons] at hm hn
  induction ms generalizing m n ns with
  | nil =>
    cases ns with
    | nil =>
      have hf := flatOrder_numbers (l := a.letter) (k := b.letter) hm.1 hn.1
      simp only [numberPieces,List.cons_append,List.nil_append,padZip_cons_cons,firstStrict,hf,
        firstStrict_suffixes _ _ ha hb,compareRest,Ordering.then_assoc,not_goesOn_nil]
      simp
    | cons n' ns =>
      obtain ⟨k,rest,hp⟩ := numberPieces_eq b.letter n' ns
      have hf := flatOrder_numbers (l := a.letter) (k := none) hm.1 hn.1
      have hends := (firstStrict_ends ha (hn.2 n' List.mem_cons_self) k
        (rest++b.suffixes.map suffixPiece)).1
      simp only [numberPieces,hp,List.cons_append,List.nil_append,padZip_cons_cons,firstStrict,hf,
        Ordering.then_assoc,compareRest,not_goesOn_nil,and_false,false_and,not_false_eq_true,
        and_true]
      rw [← Ordering.then_assoc (compareLetter _ _),hends,then_eq_then_iff,compare_eq_iff_eq]
      have hgo : GoesOn [] (n'::ns) := ⟨Nat.succ_pos _,List.nil_prefix⟩
      by_cases ho : Overtakes a
      · simp [ho,hgo]
      · simp [ho]
  | cons m' ms ih =>
    cases ns with
    | nil =>
      obtain ⟨k,rest,hp⟩ := numberPieces_eq a.letter m' ms
      have hf := flatOrder_numbers (l := none) (k := b.letter) hm.1 hn.1
      have hends := (firstStrict_ends hb (hm.2 m' List.mem_cons_self) k
        (rest++a.suffixes.map suffixPiece)).2
      simp only [numberPieces,hp,List.cons_append,List.nil_append,padZip_cons_cons,firstStrict,hf,
        Ordering.then_assoc,compareRest,not_goesOn_nil,and_false,false_and,not_false_eq_true,
        true_and]
      rw [← Ordering.then_assoc (compareLetter _ _),hends,then_eq_then_iff,compare_eq_iff_eq]
      have hgo : GoesOn [] (m'::ms) := ⟨Nat.succ_pos _,List.nil_prefix⟩
      by_cases ho : Overtakes b
      · simp [ho,hgo,eq_comm]
      · simp [ho]
    | cons n' ns =>
      rw [List.forall_mem_cons] at hms hns
      have h := ih m' n' ns (List.forall_mem_cons.mp hm.2) (List.forall_mem_cons.mp hn.2) hms.2 hns.2
      have hf := flatOrder_numbers (l := none) (k := none) hm.1 hn.1
      have hnone : compareLetter none none = .eq := rfl
      simp only [numberPieces,List.cons_append,padZip_cons_cons,firstStrict,hf,hnone,compareRest,
        compareComponent_eq hms.1 hns.1,goesOn_cons_cons]
      simp only [Ordering.then_assoc] at h ⊢
      rw [then_eq_then_iff,compare_eq_iff_eq]
      by_cases he : decimal m.1 = decimal n.1
      · simpa [he] using h
      · exact iff_of_true (absurd · he) ⟨fun hg => he hg.1.1,fun hg => he hg.1.1.symm⟩

end

theorem isNumber_one : ['1'] ≠ [] ∧ ['1'].all Char.isDigit := by decide

def oneZeroOne : Version := ⟨⟨['1'],isNumber_one⟩,[⟨['0','1'],by decide⟩],none,[],none⟩

def oneOne : Version := ⟨⟨['1'],isNumber_one⟩,[⟨['1'],isNumber_one⟩],none,[],none⟩

def oneLetter : Version := ⟨⟨['1'],isNumber_one⟩,[],some ⟨'a',by decide⟩,[],none⟩

def oneAlpha : Version := ⟨⟨['1'],isNumber_one⟩,[],none,[(.alpha,⟨[],by decide⟩)],none⟩

end Remerge.VersionAgreement

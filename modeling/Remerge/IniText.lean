import Mathlib.Data.List.Induction
import Remerge.AtomValidation
import Remerge.RustText

/-!
# Sections of an INI text

A text is read line by line into sections: a header in brackets and the settings
that follow it. A reader carries its own state through a section and gives up
its results at the next header; what it returns is determined section by section.
-/

set_option autoImplicit false

namespace Remerge.IniText
open RustText AtomValidation

inductive IniLine where
  | header (text : String)
  | setting (key value : String)
  | other
  deriving DecidableEq, Repr

def isHeader (cs : List Char) : Bool := cs.head? == some '[' && cs.getLast? == some ']'

/-- A header is what stands between the brackets; keys and values are trimmed. -/
def readLine (line : String) : IniLine :=
  let trimmed := trimList line.toList
  if isHeader trimmed then .header (String.ofList trimmed.tail.dropLast)
  else
    match splitOnce '=' trimmed with
    | some parts => .setting (String.ofList (trimList parts.1)) (String.ofList (trimList parts.2))
    | none => .other

structure Section where
  header : String
  settings : List (String × String)
  deriving DecidableEq, Repr

def sectionsFrom (current : Section) : List String → List Section
  | [] => [current]
  | line::rest =>
    match readLine line with
    | .header text => current::sectionsFrom ⟨text,[]⟩ rest
    | .setting key value =>
      sectionsFrom ⟨current.header,current.settings++[(key,value)]⟩ rest
    | .other => sectionsFrom current rest

def sections (content : String) : List Section := sectionsFrom ⟨"",[]⟩ (lines content)

section
variable {σ R : Type}

/-- How a reader starts a section, takes a setting and gives up its results. -/
structure SectionReader (σ R : Type) where
  start : String → σ
  setting : σ → String → String → σ
  flush : σ → List R

def scanLines (p : SectionReader σ R) (state : σ) (out : List R) : List String → List R
  | [] => out++p.flush state
  | line::rest =>
    match readLine line with
    | .header text => scanLines p (p.start text) (out++p.flush state) rest
    | .setting key value => scanLines p (p.setting state key value) out rest
    | .other => scanLines p state out rest

def readSections (p : SectionReader σ R) (content : String) : List R :=
  scanLines p (p.start "") [] (lines content)

def atSection (p : SectionReader σ R) (s : Section) : σ :=
  s.settings.foldl (fun state e => p.setting state e.1 e.2) (p.start s.header)

theorem scanLines_eq (p : SectionReader σ R) (ls : List String) (current : Section)
    (out : List R) : scanLines p (atSection p current) out ls =
      out++(sectionsFrom current ls).flatMap fun s => p.flush (atSection p s) := by
  induction ls generalizing current out with
  | nil => simp [scanLines,sectionsFrom]
  | cons line rest ih =>
    unfold scanLines sectionsFrom
    cases readLine line with
    | header text =>
      have h := ih ⟨text,[]⟩ (out++p.flush (atSection p current))
      simpa [atSection] using h
    | setting key value =>
      have h := ih ⟨current.header,current.settings++[(key,value)]⟩ out
      simpa [atSection,List.foldl_append] using h
    | other => exact ih current out

/-- A reader's results come from each section alone. -/
theorem readSections_eq (p : SectionReader σ R) (content : String) :
    readSections p content = (sections content).flatMap fun s => p.flush (atSection p s) :=
  scanLines_eq p (lines content) ⟨"",[]⟩ []

end

/-- The value of the last setting that passes. -/
def lastValue (p : String → String → Bool) (settings : List (String × String)) : Option String :=
  (settings.filter fun e => p e.1 e.2).getLast?.map (·.2)

theorem lastValue_append (p : String → String → Bool) (settings : List (String × String))
    (key value : String) : lastValue p (settings++[(key,value)]) =
      if p key value then some value else lastValue p settings := by
  unfold lastValue
  rw [List.filter_append]
  split
  · next h => simp [h]
  · next h => simp [h]

theorem lastValue_isSome (p : String → String → Bool) (settings : List (String × String)) :
    (lastValue p settings).isSome = settings.any fun e => p e.1 e.2 := by
  rw [lastValue,Option.isSome_map,Bool.eq_iff_iff,List.getLast?_isSome,List.any_eq_true]
  simp [List.filter_eq_nil_iff]

variable {σ R α : Type} (p : SectionReader σ R)

theorem atSection_fixed (field : σ → α)
    (hset : ∀ s key value, field (p.setting s key value) = field s) (s : Section) :
    field (atSection p s) = field (p.start s.header) := by
  obtain ⟨header,settings⟩ := s
  unfold atSection
  induction settings using List.reverseRecOn with
  | nil => rfl
  | append_singleton settings e ih =>
    rw [List.foldl_append,List.foldl_cons,List.foldl_nil,hset]
    exact ih

theorem atSection_last (field : σ → Option String) (q : String → String → Bool)
    (hstart : ∀ header, field (p.start header) = none)
    (hset : ∀ s key value,
      field (p.setting s key value) = if q key value then some value else field s)
    (s : Section) : field (atSection p s) = lastValue q s.settings := by
  obtain ⟨header,settings⟩ := s
  unfold atSection
  induction settings using List.reverseRecOn with
  | nil => exact hstart header
  | append_singleton settings e ih =>
    rw [List.foldl_append,List.foldl_cons,List.foldl_nil,hset,lastValue_append]
    rw [ih]

end Remerge.IniText

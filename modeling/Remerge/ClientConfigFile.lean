import Remerge.RustText
import Remerge.ServerState
import Remerge.TomlText

/-!
# The client's configuration file

`load_or_create` reads the server, the identity and the role of a client, and
writes the file back when it does not mention `client_id` or the identity is
the nil one. Whether the identity is in the file is decided by its text, a
comment included, and the file is written without escapes. Both can make two
calls disagree.
-/

set_option autoImplicit false

namespace Remerge.ClientConfigFile
open RustText ServerState TomlText

def uuidChars : List Char := "0123456789abcdef-".toList

def uuidChar (c : Char) : Bool := uuidChars.contains c

/-- The text that an identifier is written as. -/
def isCanonical (text : List Char) : Bool :=
  text.all uuidChar && (text.splitOn '-').map List.length == [8,4,4,4,12]

abbrev ClientUuid : Type := {text : List Char // isCanonical text = true}

def nilUuid : ClientUuid := ⟨"00000000-0000-0000-0000-000000000000".toList,by decide⟩

def roleText : ClientRole → List Char
  | .main => "main".toList
  | .follower => "follower".toList

structure CliConfig where
  server : String
  clientId : ClientUuid
  role : ClientRole
  deriving DecidableEq

structure Parsed where
  server : Option String
  clientId : Option ClientUuid
  role : Option ClientRole
  deriving DecidableEq

def defaultServer : String := "http://localhost:7654"

def Parsed.fill (p : Parsed) (fresh : ClientUuid) : CliConfig :=
  ⟨p.server.getD defaultServer,p.clientId.getD fresh,p.role.getD .main⟩

def headerLines : List (List Char) :=
  ["# remerge CLI configuration".toList,"#".toList,
    "# server    — URL of the remerge server.".toList,
    "# client_id — identifies this machine (or group) to the server.".toList,
    "# role      — \"main\" (pushes config) or \"follower\" (reuses config).".toList,[]]

def renderLines (c : CliConfig) : List (List Char) :=
  headerLines++[written "server".toList c.server.toList,written "client_id".toList c.clientId.val,
    written "role".toList (roleText c.role)]

def render (c : CliConfig) : String :=
  String.ofList ((renderLines c).flatMap fun line => line++['\n'])

/-- A text that stands for itself between the quotes of a basic string. -/
def Clean (s : String) : Prop := s.toList.all plainChar

instance (s : String) : Decidable (Clean s) := inferInstanceAs (Decidable (_ = _))

/-- The TOML reader. It reads a written file back if the server stands for
itself between quotes, and never reads back one that does not: a quote ends the
string, an escape shortens it, a control character is refused. -/
structure Toml where
  parse : String → Option Parsed
  written_back : ∀ c, Clean c.server →
    parse (render c) = some ⟨some c.server,some c.clientId,some c.role⟩
  clean_of_back : ∀ c p, parse (render c) = some p → p.server = some c.server → Clean c.server

/-- `load_or_create` on a writable path, with the identifier that the call draws
if it has to: the configuration and the text of the file after the call. -/
def loadOrCreate (toml : Toml) (fresh : ClientUuid) (file : Option String) :
    Option (CliConfig × String) :=
  match file with
  | some content =>
    match toml.parse content with
    | none => none
    | some p =>
      let config := p.fill fresh
      if containsText content "client_id" = false ∨ config.clientId = nilUuid then
        let config := if config.clientId = nilUuid then { config with clientId := fresh }
          else config
        some (config,render config)
      else some (config,content)
  | none =>
    let config : CliConfig := ⟨defaultServer,fresh,.main⟩
    some (config,render config)

/-- Two successive calls return the same configuration. -/
def SameTwice (toml : Toml) (first second : ClientUuid) (file : Option String) : Prop :=
  ∃ c after last, loadOrCreate toml first file = some (c,after) ∧
    loadOrCreate toml second (some after) = some (c,last)

/-- The file mentions the identity only by giving it, and is not written back
with a server that needs escapes. -/
def Keeps (toml : Toml) (file : Option String) : Prop :=
  ∀ content p, file = some content → toml.parse content = some p →
    if containsText content "client_id" = true ∧ p.clientId ≠ some nilUuid then p.clientId ≠ none
    else Clean (p.server.getD defaultServer)

section
variable {toml : Toml} {first second : ClientUuid}

theorem occurs_append {part front : List Char} (h : occurs part front) (back : List Char) :
    occurs part (front++back) := by
  induction front with
  | nil =>
    rw [occurs,List.isEmpty_iff] at h
    subst h
    cases back <;> simp [occurs]
  | cons c cs ih =>
    rw [occurs,Bool.or_eq_true] at h
    rw [List.cons_append,occurs,Bool.or_eq_true]
    rcases h with h | h
    · exact .inl (List.isPrefixOf_iff_prefix.mpr
        ((List.isPrefixOf_iff_prefix.mp h).trans (List.prefix_append (c::cs) back)))
    · exact .inr (ih h)

theorem render_toList (c : CliConfig) :
    (render c).toList = (headerLines.flatMap fun line => line++['\n'])++
      [written "server".toList c.server.toList,written "client_id".toList c.clientId.val,
        written "role".toList (roleText c.role)].flatMap fun line => line++['\n'] := by
  rw [render,String.toList_ofList,renderLines,List.flatMap_append]

theorem render_mentions (c : CliConfig) : containsText (render c) "client_id" = true := by
  rw [containsText,render_toList]
  exact occurs_append (by decide) _

theorem clean_defaultServer : Clean defaultServer := by decide

/-- A file that was written for an identity is read back as long as its server
is clean, whatever identifier the reader would draw. -/
theorem load_render_iff (toml : Toml) (second : ClientUuid) {c : CliConfig}
    (hid : c.clientId ≠ nilUuid) :
    (∃ last, loadOrCreate toml second (some (render c)) = some (c,last)) ↔ Clean c.server := by
  constructor
  · rintro ⟨last,h⟩
    unfold loadOrCreate at h
    dsimp only at h
    split at h
    · cases h
    · next p hp =>
      have hserver : p.server.getD defaultServer = c.server := by
        split at h
        · have hc := congrArg Prod.fst (Option.some.inj h)
          dsimp only at hc
          rw [← hc]
          split <;> rfl
        · have hc := congrArg Prod.fst (Option.some.inj h)
          dsimp only at hc
          rw [← hc]
          rfl
      cases hs : p.server with
      | none =>
        rw [hs] at hserver
        exact hserver ▸ clean_defaultServer
      | some server =>
        rw [hs] at hserver
        exact toml.clean_of_back c p hp (hs.trans (congrArg some hserver))
  · intro hclean
    refine ⟨render c,?_⟩
    simp [loadOrCreate,toml.written_back c hclean,Parsed.fill,render_mentions,hid]

theorem sameTwice_written {file : Option String} {c : CliConfig}
    (h : loadOrCreate toml first file = some (c,render c)) (hid : c.clientId ≠ nilUuid) :
    SameTwice toml first second file ↔ Clean c.server := by
  rw [← load_render_iff toml second hid]
  constructor
  · rintro ⟨c',after,last,h1,h2⟩
    rw [h] at h1
    cases h1
    exact ⟨last,h2⟩
  · rintro ⟨last,h2⟩
    exact ⟨c,render c,last,h,h2⟩

/-- Two calls agree exactly if the file keeps the identity and its server can be
written back where it is. -/
theorem config_same_twice_iff (toml : Toml) (file : Option String)
    (hparse : ∀ content, file = some content → toml.parse content ≠ none)
    (first second : ClientUuid) (hf : first ≠ nilUuid) (hs : second ≠ nilUuid)
    (hne : first ≠ second) :
    SameTwice toml first second file ↔ Keeps toml file := by
  cases file with
  | none =>
    have hwritten : loadOrCreate toml first none =
        some (⟨defaultServer,first,.main⟩,render ⟨defaultServer,first,.main⟩) := rfl
    rw [sameTwice_written hwritten hf]
    exact ⟨fun _ content p h => (by cases h),fun _ => clean_defaultServer⟩
  | some content =>
    obtain ⟨p,hp⟩ := Option.ne_none_iff_exists'.mp (hparse content rfl)
    have hkeeps : Keeps toml (some content) ↔
        if containsText content "client_id" = true ∧ p.clientId ≠ some nilUuid then
          p.clientId ≠ none
        else Clean (p.server.getD defaultServer) := by
      constructor
      · exact fun h => h content p rfl hp
      · rintro h content' p' hc hp'
        cases hc
        rw [hp] at hp'
        cases hp'
        exact h
    rw [hkeeps]
    by_cases hstays : containsText content "client_id" = true ∧ p.clientId ≠ some nilUuid
    · -- The file stays as it is, and both calls read it.
      rw [if_pos hstays]
      obtain ⟨hmention,hid⟩ := hstays
      have hload : ∀ fresh, (p.clientId.getD fresh) ≠ nilUuid →
          loadOrCreate toml fresh (some content) = some (p.fill fresh,content) := by
        intro fresh hn
        simp [loadOrCreate,hp,hmention,Parsed.fill,hn]
      cases hpid : p.clientId with
      | none =>
        have h1 := hload first (by rw [hpid]; exact hf)
        refine ⟨?_,fun h => absurd rfl h⟩
        rintro ⟨c,after,last,hc1,hc2⟩
        rw [h1] at hc1
        rw [← (Prod.mk.inj (Option.some.inj hc1)).2,hload second (by rw [hpid]; exact hs)] at hc2
        -- Each call has drawn an identifier of its own.
        have hdrawn : p.fill first = p.fill second :=
          (Prod.mk.inj (Option.some.inj hc1)).1.trans (Prod.mk.inj (Option.some.inj hc2)).1.symm
        simp only [Parsed.fill,hpid,Option.getD_none,CliConfig.mk.injEq] at hdrawn
        exact absurd hdrawn.2.1 hne
      | some id =>
        have hn : id ≠ nilUuid := fun e => hid (by rw [hpid,e])
        refine ⟨fun _ => by simp,fun _ => ⟨p.fill first,content,content,?_,?_⟩⟩
        · exact hload first (by rw [hpid]; exact hn)
        · rw [hload second (by rw [hpid]; exact hn)]
          simp [Parsed.fill,hpid]
    · rw [if_neg hstays]
      by_cases hnil : p.clientId = some nilUuid
      · have hload : loadOrCreate toml first (some content) =
            some ({ p.fill first with clientId := first },
              render { p.fill first with clientId := first }) := by
          simp [loadOrCreate,hp,Parsed.fill,hnil]
        exact sameTwice_written hload hf
      · have hsilent : containsText content "client_id" = false := by
          simpa [hnil] using hstays
        have hid : (p.fill first).clientId ≠ nilUuid := by
          cases hpid : p.clientId with
          | none => simpa [Parsed.fill,hpid] using hf
          | some id => simpa [Parsed.fill,hpid] using hnil
        have hload : loadOrCreate toml first (some content) =
            some (p.fill first,render (p.fill first)) := by
          simp [loadOrCreate,hp,hsilent,hid]
        exact sameTwice_written hload hid

end

def uuidOf (text : List Char) : Option ClientUuid :=
  if h : isCanonical text = true then some ⟨text,h⟩ else none

def roleOf (text : List Char) : Option ClientRole :=
  if text = "main".toList then some .main
  else if text = "follower".toList then some .follower
  else none

def optional {α : Type} (read : List Char → Option α) : Option (List Char) → Option (Option α)
  | none => some none
  | some text => (read text).map some

/-- Keys that are not of the configuration are ignored. -/
def fields (es : List Entry) : Option Parsed :=
  (optional uuidOf (es.lookup "client_id".toList)).bind fun id =>
    (optional roleOf (es.lookup "role".toList)).map fun role =>
      ⟨(es.lookup "server".toList).map String.ofList,id,role⟩

def readFile (content : String) : Option Parsed := (document content.toList).bind fields

theorem newline_not_plain {cs : List Char} (h : cs.all plainChar) : '\n' ∉ cs := by
  intro hm
  exact absurd (List.all_eq_true.mp h '\n' hm) (by decide)

theorem plain_of_uuid {cs : List Char} (h : isCanonical cs) : cs.all plainChar := by
  refine List.all_eq_true.mpr fun c hc => ?_
  have hchars := (Bool.and_eq_true_iff.mp h).1
  have hu : c ∈ uuidChars := by simpa [uuidChar] using List.all_eq_true.mp hchars c hc
  have hall : uuidChars.all plainChar := by decide
  exact List.all_eq_true.mp hall c hu

theorem newline_not_written {key text : List Char} (hk : '\n' ∉ key) (ht : '\n' ∉ text) :
    '\n' ∉ written key text := by
  simp [written,hk,ht]

theorem roleOf_roleText (role : ClientRole) : roleOf (roleText role) = some role := by
  cases role <;> rfl

theorem entriesOf_header : entriesOf headerLines = some [] := by decide

theorem readFile_render (c : CliConfig) (h : Clean c.server) :
    readFile (render c) = some ⟨some c.server,some c.clientId,some c.role⟩ := by
  have hid := plain_of_uuid c.clientId.property
  have hrole : (roleText c.role).all plainChar := by cases c.role <;> decide
  have hsplit : (render c).toList.splitOn '\n' = renderLines c++[[]] := by
    rw [render,String.toList_ofList]
    refine splitOn_ended _ fun line hl => ?_
    rcases List.mem_append.mp hl with hl | hl
    · have hheader : headerLines.all (fun line => !line.contains '\n') := by decide
      simpa using List.all_eq_true.mp hheader line hl
    · simp only [List.mem_cons,List.not_mem_nil,or_false] at hl
      rcases hl with rfl | rfl | rfl
      · exact newline_not_written (by decide) (newline_not_plain h)
      · exact newline_not_written (by decide) (newline_not_plain hid)
      · exact newline_not_written (by decide) (newline_not_plain hrole)
  have hentries : entriesOf (renderLines c++[[]]) =
      some [("server".toList,c.server.toList),("client_id".toList,c.clientId.val),
        ("role".toList,roleText c.role)] := by
    have h1 : lineEntry (written "server".toList c.server.toList) = _ :=
      lineEntry_written (by decide) (by decide) h
    have h2 : lineEntry (written "client_id".toList c.clientId.val) = _ :=
      lineEntry_written (by decide) (by decide) hid
    have h3 : lineEntry (written "role".toList (roleText c.role)) = _ :=
      lineEntry_written (by decide) (by decide) hrole
    rw [renderLines,List.append_assoc,entriesOf_append entriesOf_header]
    simp only [List.cons_append,List.nil_append,entriesOf,h1,h2,h3]
    rfl
  have huuid : uuidOf c.clientId.val = some c.clientId := dif_pos c.clientId.property
  have hfields : fields [("server".toList,c.server.toList),("client_id".toList,c.clientId.val),
      ("role".toList,roleText c.role)] = some ⟨some c.server,some c.clientId,some c.role⟩ := by
    change ((uuidOf c.clientId.val).map some).bind (fun id =>
      ((roleOf (roleText c.role)).map some).map fun role =>
        (⟨some (String.ofList c.server.toList),id,role⟩ : Parsed)) = _
    rw [huuid,roleOf_roleText,String.ofList_toList]
    rfl
  have hdocument := document_eq_some.mpr ⟨hsplit ▸ hentries,by
    simp only [List.map_cons,List.map_nil]
    decide⟩
  rw [readFile,hdocument]
  exact hfields

theorem splitOn_header (rest : List Char) :
    ((headerLines.flatMap fun line => line++['\n'])++rest).splitOn '\n' =
      headerLines++rest.splitOn '\n' := by
  have hclean : ∀ line ∈ headerLines, '\n' ∉ line := by
    have hheader : headerLines.all (fun line => !line.contains '\n') := by decide
    exact fun line hl => by simpa using List.all_eq_true.mp hheader line hl
  generalize headerLines = ls at hclean
  induction ls with
  | nil => rfl
  | cons line ls ih =>
    obtain ⟨hline,hls⟩ := List.forall_mem_cons.mp hclean
    rw [List.flatMap_cons,List.append_assoc,List.append_assoc,List.singleton_append,
      List.splitOn_append_cons_self_of_not_mem hline,ih hls,List.cons_append]

theorem splitOn_first (key front rest : List Char) (hkey : '\n' ∉ key) :
    ∃ first more, (key++(front++ '\n'::rest)).splitOn '\n' = (key++first)::more ∧
      first <+: front := by
  by_cases h : '\n' ∈ front
  · obtain ⟨first,later,rfl,hn⟩ := List.eq_append_cons_of_mem h
    refine ⟨first,(later++ '\n'::rest).splitOn '\n',?_,List.prefix_append _ _⟩
    rw [List.append_assoc,← List.append_assoc key,List.cons_append,
      List.splitOn_append_cons_self_of_not_mem (by simp [hkey,hn])]
  · refine ⟨front,rest.splitOn '\n',?_,List.prefix_refl _⟩
    rw [← List.append_assoc,List.splitOn_append_cons_self_of_not_mem (by simp [hkey,h])]

theorem clean_of_readFile (c : CliConfig) (p : Parsed) (hp : readFile (render c) = some p)
    (hs : p.server = some c.server) : Clean c.server := by
  obtain ⟨es,hdocument,hfields⟩ := Option.bind_eq_some_iff.mp hp
  obtain ⟨hentries,-⟩ := document_eq_some.mp hdocument
  obtain ⟨tail,htext⟩ : ∃ tail, (render c).toList =
      (headerLines.flatMap fun line => line++['\n'])++
        ("server".toList++" = \"".toList++(c.server.toList++['"']++ '\n'::tail)) := by
    refine ⟨[written "client_id".toList c.clientId.val,
      written "role".toList (roleText c.role)].flatMap fun line => line++['\n'],?_⟩
    rw [render_toList,List.flatMap_cons,written]
    simp only [List.append_assoc,List.cons_append,List.nil_append]
  obtain ⟨first,more,hsplit,hfirst⟩ := splitOn_first ("server".toList++" = \"".toList)
    (c.server.toList++['"']) tail (by decide)
  rw [htext,splitOn_header,hsplit,entriesOf_append entriesOf_header] at hentries
  obtain ⟨es',hes,rfl⟩ := Option.map_eq_some_iff.mp hentries
  obtain ⟨e,he,hrest⟩ := Option.bind_eq_some_iff.mp hes
  obtain ⟨later,-,rfl⟩ := Option.map_eq_some_iff.mp hrest
  obtain ⟨value,rfl,hplain⟩ := lineEntry_value (by decide) (by decide) hfirst he
  refine hplain ?_
  obtain ⟨id,-,hrole⟩ := Option.bind_eq_some_iff.mp hfields
  obtain ⟨role,-,rfl⟩ := Option.map_eq_some_iff.mp hrole
  have hvalue : String.ofList value = c.server := Option.some.inj hs
  rw [← hvalue,String.toList_ofList]

def fileToml : Toml := ⟨readFile,readFile_render,clean_of_readFile⟩

def firstId : ClientUuid := ⟨"550e8400-e29b-41d4-a716-446655440000".toList,by decide⟩

def secondId : ClientUuid := ⟨"7d444840-9dc0-41d1-b245-5ffdce74fad2".toList,by decide⟩

/-- A file that names a server and nothing else. -/
theorem bare_file_same_twice :
    SameTwice fileToml firstId secondId (some "server = \"http://remerge.lan:7654\"\n") := by
  have hparse : fileToml.parse "server = \"http://remerge.lan:7654\"\n" =
      some ⟨some "http://remerge.lan:7654",none,none⟩ := by decide
  refine (config_same_twice_iff fileToml _ (fun content h => by cases h; simp [hparse])
    firstId secondId (by decide) (by decide) (by decide)).mpr ?_
  rintro content p hc hp
  cases hc
  rw [hparse] at hp
  cases hp
  rw [if_neg (by decide)]
  decide

def commentedFile : String := "# client_id is generated on the first run\n"

def quotedFile : String := "server = 'http://a\"b'\n"

/-- Under the comment each call takes another identity, and neither writes it
down. With the quote the second call does not read what the first has written. -/
theorem commented_file_changes_identity :
    loadOrCreate fileToml firstId (some commentedFile) =
      some (⟨defaultServer,firstId,.main⟩,commentedFile) ∧
    loadOrCreate fileToml secondId (some commentedFile) =
      some (⟨defaultServer,secondId,.main⟩,commentedFile) ∧
    ¬ SameTwice fileToml firstId secondId (some commentedFile) ∧
    fileToml.parse quotedFile = some ⟨some "http://a\"b",none,none⟩ ∧
    ¬ SameTwice fileToml firstId secondId (some quotedFile) := by
  have h1 : loadOrCreate fileToml firstId (some commentedFile) =
      some (⟨defaultServer,firstId,.main⟩,commentedFile) := by decide
  have h2 : loadOrCreate fileToml secondId (some commentedFile) =
      some (⟨defaultServer,secondId,.main⟩,commentedFile) := by decide
  have hquoted : fileToml.parse quotedFile = some ⟨some "http://a\"b",none,none⟩ := by decide
  have hwritten : loadOrCreate fileToml firstId (some quotedFile) =
      some (⟨"http://a\"b",firstId,.main⟩,render ⟨"http://a\"b",firstId,.main⟩) := by
    have hsilent : containsText quotedFile "client_id" = false := by decide
    have hid : firstId ≠ nilUuid := by decide
    simp [loadOrCreate,hquoted,hsilent,Parsed.fill,hid]
  refine ⟨h1,h2,?_,hquoted,fun h => ?_⟩
  · rintro ⟨c,after,last,hc1,hc2⟩
    rw [h1] at hc1
    cases hc1
    rw [h2] at hc2
    have hsame : secondId = firstId :=
      congrArg CliConfig.clientId (Prod.mk.inj (Option.some.inj hc2)).1
    exact absurd hsame (by decide)
  · have hclean : Clean "http://a\"b" := (sameTwice_written hwritten (by decide)).mp h
    exact absurd hclean (by decide)

end Remerge.ClientConfigFile

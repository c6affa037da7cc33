import Remerge.ServerState

/-!
# Client authentication

A reverse proxy forwards the fingerprint of a verified client certificate in a
header. The registry maps normalised fingerprints to a client and a role.
Submissions are resolved from the header and the body, depending on the mode;
requests without a body are resolved from the header alone.
-/

set_option autoImplicit false

namespace Remerge.ClientAuth
open SnapshotTypes ServerState

inductive AuthMode where
  | none | mtls | mixed
  deriving DecidableEq, Repr

structure CertEntry where
  fingerprint : String
  clientId : ClientId
  role : ClientRole
  label : Option String
  deriving DecidableEq, Repr

structure AuthConfig where
  mode : AuthMode
  certHeader : String
  clients : List CertEntry

/-- Header names are compared in lower case, a value is a string of bytes. -/
abbrev HeaderMap : Type := List (String × Bytes)

def lowerName (name : String) : String := String.ofList (name.toList.map Char.toLower)

def getHeader (headers : HeaderMap) (name : String) : Option Bytes :=
  (headers.find? fun h => lowerName h.1 == name).map Prod.snd

/-- `HeaderValue::to_str`: visible ASCII, blanks and tabs only. -/
def toStr (value : Bytes) : Option String :=
  if value.all fun b => b == 9 || (32 ≤ b && b < 127) then
    some (String.ofList (value.map fun b => Char.ofNat b.toNat))
  else none

def isNameChar (c : Char) : Bool :=
  (c.isAlphanum || "!#$%&'*+-.^_`|~".toList.contains c)

def maxHeaderNameLen : ℕ := 65535

def parseHeaderName (name : String) : Option String :=
  if name.toList ≠ [] ∧ name.toList.length ≤ maxHeaderNameLen ∧ name.toList.all isNameChar then
    some (lowerName name)
  else none

def defaultCertHeader : String := "x-client-cert-fingerprint"

/-- `str::trim` and `str::to_lowercase`, which follow the Unicode tables. -/
structure UnicodeText where
  trim : String → String
  toLowercase : String → String

def asciiText : UnicodeText where
  trim := fun s => String.ofList (((s.toList.dropWhile Char.isWhitespace).reverse.dropWhile
    Char.isWhitespace).reverse)
  toLowercase := lowerName

variable (text : UnicodeText)

def normaliseFingerprint (fp : String) : String :=
  let lower := (text.toLowercase (text.trim fp)).toList
  let withoutScheme := ("sha256:".toList.isPrefixOf? lower).getD lower
  String.ofList (withoutScheme.filter fun c => c != ':' && c != ' ')

structure CertRegistry where
  mode : AuthMode
  certHeader : String
  entries : Table String CertEntry

/-- A later entry for the same fingerprint replaces an earlier one. -/
def CertRegistry.new (config : AuthConfig) : CertRegistry where
  mode := config.mode
  certHeader := (parseHeaderName config.certHeader).getD defaultCertHeader
  entries := config.clients.foldl
    (fun t e => t.insert (normaliseFingerprint text e.fingerprint) e) ∅

inductive AuthMethod where
  | selfDeclared
  | certificate (fingerprint : String) (label : Option String)
  deriving DecidableEq, Repr

structure ResolvedIdentity where
  clientId : ClientId
  role : ClientRole
  method : AuthMethod
  deriving DecidableEq, Repr

inductive AuthError where
  | certificateRequired
  | mainRequiresCert
  | unknownCertificate (fingerprint : String)
  deriving DecidableEq, Repr

def AuthError.statusCode : AuthError → ℕ
  | .certificateRequired => 401
  | .unknownCertificate _ => 401
  | .mainRequiresCert => 403

def AuthError.message : AuthError → String
  | .certificateRequired => "client certificate required (mTLS mode)"
  | .mainRequiresCert => "main clients must authenticate via mTLS (mixed mode)"
  | .unknownCertificate fp => s!"unknown client certificate: {fp}"

namespace CertRegistry

variable (registry : CertRegistry)

def extractFingerprint (headers : HeaderMap) : Option String := do
  let value ← getHeader headers registry.certHeader
  let raw ← toStr value
  let normalised := normaliseFingerprint text raw
  if normalised = "" then none else some normalised

def certIdentity (fp : String) : Except AuthError ResolvedIdentity :=
  match registry.entries.lookup fp with
  | none => .error (.unknownCertificate fp)
  | some entry =>
    .ok ⟨entry.clientId,entry.role,
      .certificate (normaliseFingerprint text entry.fingerprint) entry.label⟩

/-- The effective identity of a request with a body. -/
def resolve (headers : HeaderMap) (bodyClientId : ClientId) (bodyRole : ClientRole) :
    Except AuthError ResolvedIdentity :=
  match registry.mode with
  | .none => .ok ⟨bodyClientId,bodyRole,.selfDeclared⟩
  | .mtls =>
    match registry.extractFingerprint text headers with
    | none => .error .certificateRequired
    | some fp => registry.certIdentity text fp
  | .mixed =>
    match registry.extractFingerprint text headers with
    | some fp => registry.certIdentity text fp
    | none =>
      if bodyRole = .main then .error .mainRequiresCert
      else .ok ⟨bodyClientId,.follower,.selfDeclared⟩

def headerEntry (headers : HeaderMap) : Option CertEntry :=
  (registry.extractFingerprint text headers).bind registry.entries.lookup

def resolveHeaderOnly (headers : HeaderMap) : Option ClientId :=
  (registry.headerEntry text headers).map CertEntry.clientId

end CertRegistry

section
variable {text} {registry : CertRegistry} {headers : HeaderMap} {bodyClientId : ClientId}
  {bodyRole : ClientRole} {identity : ResolvedIdentity}

theorem certIdentity_ok {fp : String} (h : registry.certIdentity text fp = .ok identity) :
    ∃ entry, registry.entries.lookup fp = some entry ∧ identity.clientId = entry.clientId ∧
      identity.role = entry.role := by
  unfold CertRegistry.certIdentity at h
  split at h
  · cases h
  · next entry he =>
    cases h
    exact ⟨entry,he,rfl,rfl⟩

theorem resolve_ok (h : registry.resolve text headers bodyClientId bodyRole = .ok identity) :
    (∃ entry, registry.headerEntry text headers = some entry ∧
        identity.clientId = entry.clientId ∧ identity.role = entry.role) ∨
      registry.mode = .none ∨
      (registry.mode = .mixed ∧ registry.extractFingerprint text headers = none ∧
        bodyRole ≠ .main ∧ identity.role = .follower) := by
  have hcert : ∀ fp, registry.extractFingerprint text headers = some fp →
      registry.certIdentity text fp = .ok identity →
      ∃ entry, registry.headerEntry text headers = some entry ∧
        identity.clientId = entry.clientId ∧ identity.role = entry.role := by
    intro fp hfp hid
    obtain ⟨entry,he,hrest⟩ := certIdentity_ok hid
    exact ⟨entry,by simp [CertRegistry.headerEntry,hfp,he],hrest⟩
  unfold CertRegistry.resolve at h
  split at h
  · next hmode => exact .inr (.inl hmode)
  · split at h
    · cases h
    · next fp hfp => exact .inl (hcert fp hfp h)
  · next hmode =>
    split at h
    · next fp hfp => exact .inl (hcert fp hfp h)
    · next hfp =>
      split at h
      · cases h
      · next hrole =>
        cases h
        exact .inr (.inr ⟨hmode,hfp,hrole,rfl⟩)

theorem resolve_mtls (hmode : registry.mode = .mtls) (c c' : ClientId) (r r' : ClientRole) :
    registry.resolve text headers c r = registry.resolve text headers c' r' := by
  simp only [CertRegistry.resolve,hmode]

end

def twoClients (mode : AuthMode) : CertRegistry :=
  CertRegistry.new asciiText ⟨mode,"X-Client-Cert-Fingerprint",
    [⟨"sha256:AB","c1",.main,none⟩,⟨"sha256:CD","c2",.main,none⟩]⟩

def firstHeaders : HeaderMap := [("X-Client-Cert-Fingerprint",[65,58,66])]

def secondHeaders : HeaderMap := [("X-Client-Cert-Fingerprint",[67,68])]

end Remerge.ClientAuth

import Remerge.AtomValidation
import Remerge.ClientAuth
import Remerge.ServerTasks

/-!
# Requests about workorders

The handlers of the routes that submit, list, read, cancel and follow
workorders, with their checks in the order of the source. A submission becomes
a task of the server once its atoms and its identity are accepted. A progress
connection is followed from the upgrade on: it relays what is published for its
workorder and forwards what the peer sends to the worker's stdin.
-/

set_option autoImplicit false

namespace Remerge.WorkorderApi
open StepProgram SnapshotTypes SnapshotCleanup ServerState ServerOps ServerTasks ClientAuth
open AtomValidation

variable (text : UnicodeText) (registry : CertRegistry)

section

/-- The hashes are those that `ClientRegistry::update` takes of the
configuration and of the system identity. -/
structure SubmitBody where
  clientId : ClientId
  role : ClientRole
  atoms : List String
  emergeArgs : List String
  portageConfig : PortageConfig
  configHash : String
  systemHash : String
  systemId : String

inductive SubmitRejection where
  | invalidAtom (atom : String) (error : AtomValidationError)
  | unauthenticated (error : AuthError)
  deriving DecidableEq, Repr

def SubmitRejection.statusCode : SubmitRejection → ℕ
  | .invalidAtom _ _ => 400
  | .unauthenticated error => error.statusCode

def SubmitRejection.message : SubmitRejection → String
  | .invalidAtom atom error => s!"Invalid atom '{atom}': {error.text}"
  | .unauthenticated error => error.message

def validateAtoms : List String → Except SubmitRejection Unit
  | [] => .ok ()
  | atom::rest =>
    match validateAtom atom with
    | .error e => .error (.invalidAtom atom e)
    | .ok () => validateAtoms rest

def SubmitBody.requestAs (body : SubmitBody) (identity : ResolvedIdentity)
    (traceId : Option String) : SubmitRequest where
  clientId := identity.clientId
  role := identity.role
  atoms := body.atoms
  emergeArgs := body.emergeArgs
  portageConfig := body.portageConfig
  configHash := body.configHash
  systemHash := body.systemHash
  systemId := body.systemId
  traceId := traceId

/-- The checks of `submit_workorder` before it looks at the server's state. -/
def checkSubmit (headers : HeaderMap) (body : SubmitBody) (traceId : Option String) :
    Except SubmitRejection SubmitRequest :=
  match validateAtoms body.atoms with
  | .error rejection => .error rejection
  | .ok () =>
    match registry.resolve text headers body.clientId body.role with
    | .error e => .error (.unauthenticated e)
    | .ok identity => .ok (body.requestAs identity traceId)

inductive SubmitReply where
  | rejected (rejection : SubmitRejection)
  | decided (outcome : SubmitOutcome)

def submitHandler (config : ServerConfig) (headers : HeaderMap) (body : SubmitBody)
    (traceId : Option String) : ServerProg SubmitReply :=
  match checkSubmit text registry headers body traceId with
  | .error rejection => pure (.rejected rejection)
  | .ok request => do
    let outcome ← submitWorkorder config request
    pure (.decided outcome)

variable {text registry}

theorem validateAtoms_ok {atoms : List String} :
    validateAtoms atoms = .ok () ↔ ∀ atom ∈ atoms, validateAtom atom = .ok () := by
  induction atoms with
  | nil => simp [validateAtoms]
  | cons atom rest ih =>
    unfold validateAtoms
    cases hv : validateAtom atom with
    | error e => simp [hv]
    | ok u => simp [hv,ih]

theorem checkSubmit_ok {headers : HeaderMap} {body : SubmitBody} {traceId : Option String}
    {request : SubmitRequest} (h : checkSubmit text registry headers body traceId = .ok request) :
    (∀ atom ∈ body.atoms, validateAtom atom = .ok ()) ∧
      ∃ identity, registry.resolve text headers body.clientId body.role = .ok identity ∧
        request = body.requestAs identity traceId := by
  unfold checkSubmit at h
  split at h
  · cases h
  · next hatoms =>
    split at h
    · cases h
    · next identity hid =>
      cases h
      exact ⟨validateAtoms_ok.mp hatoms,identity,hid,rfl⟩

end

structure WorkorderSummary where
  id : WorkorderId
  atoms : List String
  status : WorkorderStatus
  createdAt : Time
  deriving DecidableEq

structure WorkorderStatusResponse where
  workorderId : WorkorderId
  status : WorkorderStatus
  result : Option WorkorderResult
  traceId : Option String

inductive ApiRequest where
  | list (headers : HeaderMap)
  | get (headers : HeaderMap) (id : WorkorderId)
  | cancel (headers : HeaderMap) (id : WorkorderId)
  | progress (headers : HeaderMap) (id : WorkorderId)

def ApiRequest.headers : ApiRequest → HeaderMap
  | .list headers => headers
  | .get headers _ => headers
  | .cancel headers _ => headers
  | .progress headers _ => headers

inductive ApiReply where
  | refused (status : ℕ) (message : String)
  | summaries (workorders : List WorkorderSummary)
  | status (response : WorkorderStatusResponse)
  | cancelled (workorderId : WorkorderId) (cancelled : Bool)
  | upgraded

def summary (w : Workorder) : WorkorderSummary := ⟨w.id,w.atoms,w.status,w.createdAt⟩

def listWorkorders (headers : HeaderMap) (s : Server) : ApiReply :=
  match registry.mode with
  | .none => .summaries (s.workorders.values.map summary)
  | _ =>
    match registry.resolveHeaderOnly text headers with
    | none => .refused 401 ""
    | some client =>
      .summaries ((s.workorders.values.filter fun w => w.clientId = client).map summary)

def statusResponse (s : Server) (id : WorkorderId) (w : Workorder) : ApiReply :=
  .status ⟨id,w.status,s.results.lookup id,w.traceId⟩

def getWorkorder (headers : HeaderMap) (id : WorkorderId) (s : Server) : ApiReply :=
  match s.workorders.lookup id with
  | none => .refused 404 ""
  | some w =>
    match registry.mode with
    | .none => statusResponse s id w
    | _ =>
      match registry.resolveHeaderOnly text headers with
      | some client =>
        if client = w.clientId then statusResponse s id w else .refused 403 ""
      | none => .refused 401 ""

/-- The first half of `cancel_workorder`. A workorder that is not there is left
to the second half. -/
def refuseCancel (headers : HeaderMap) (id : WorkorderId) (s : Server) : Option ApiReply :=
  match registry.mode with
  | .none => none
  | _ =>
    match s.workorders.lookup id with
    | none => none
    | some w =>
      match registry.resolveHeaderOnly text headers with
      | some client =>
        if client = w.clientId then none
        else some (.refused 403 "You do not own this workorder")
      | none => some (.refused 401 "Authentication required to cancel workorders")

def cancelReply (id : WorkorderId) : CancelOutcome → ApiReply
  | .notFound => .refused 404 "Workorder not found"
  | .notCancellable => .cancelled id false
  | .cancelled _ _ => .cancelled id true

/-- A cancel request with its update of the workorder map. What follows a
successful update is `cancelWorkorder`. -/
def cancelRequest (headers : HeaderMap) (id : WorkorderId) (s : Server) : ApiReply × Server :=
  match refuseCancel text registry headers id s with
  | some refusal => (refusal,s)
  | none =>
    let cancelled := cancelStatus id s.workorders
    (cancelReply id cancelled.2,{ s with workorders := cancelled.1 })

def requireSnapshotAuth (headers : HeaderMap) : Except (ℕ × String) Unit :=
  match registry.mode with
  | .none => .ok ()
  | _ =>
    match registry.resolveHeaderOnly text headers with
    | none => .error (401,"Authentication required")
    | some _ => .ok ()

/-- What is published on a workorder's progress channel. The handler drops log
lines, which the raw channel carries. -/
inductive ProgressItem where
  | log (line : String)
  | event (event : BuildEvent)

inductive ClientFrame where
  | data (bytes : Bytes)
  | close
  | other

/-- What the two tasks of a connection wait for. For a frame the flag says
whether the retried look-up finds the stdin channel of the connection. -/
inductive Happening where
  | progress (id : WorkorderId) (item : ProgressItem)
  | progressLagged (id : WorkorderId)
  | progressClosed (id : WorkorderId)
  | raw (id : WorkorderId) (bytes : Bytes)
  | rawLagged (id : WorkorderId)
  | rawClosed (id : WorkorderId)
  | frame (frame : ClientFrame) (stdinFound : Bool)
  | peerGone

inductive Emitted where
  | text (workorderId : WorkorderId) (event : BuildEvent)
  | binary (bytes : Bytes)
  | closeFrame
  | stdin (workorderId : WorkorderId) (bytes : Bytes)

def Happening.about : Happening → Option WorkorderId
  | .progress id _ | .progressLagged id | .progressClosed id => some id
  | .raw id _ | .rawLagged id | .rawClosed id => some id
  | .frame _ _ | .peerGone => none

structure Connection where
  id : WorkorderId
  rawDone : Bool
  ended : Bool
  deriving DecidableEq

/-- `ws_progress`: subscribes to the channels that are there. -/
def openProgress (id : WorkorderId) (s : Server) : Option Connection :=
  match s.progressTxs.lookup id with
  | none => none
  | some _ => some ⟨id,(s.rawOutputTxs.lookup id).isNone,false⟩

def isFinished : BuildEvent → Bool
  | .finished _ _ => true
  | _ => false

def Connection.relay (c : Connection) (event : BuildEvent) : Connection × List Emitted :=
  if isFinished event then ({ c with ended := true },[.text c.id event,.closeFrame])
  else (c,[.text c.id event])

/-- What a connection does when something happens on a channel it has
subscribed to or on its socket. -/
def Connection.react (c : Connection) : Happening → Connection × List Emitted
  | .progress _ (.log _) => (c,[])
  | .progress _ (.event event) => c.relay event
  | .progressLagged _ => (c,[])
  | .progressClosed _ => ({ c with ended := true },[.closeFrame])
  | .raw _ bytes => if c.rawDone then (c,[]) else (c,[.binary bytes])
  | .rawLagged _ => (c,[])
  | .rawClosed _ => ({ c with rawDone := true },[])
  | .frame (.data bytes) true => (c,[.stdin c.id bytes])
  | .frame (.data _) false => (c,[])
  | .frame .close _ => ({ c with ended := true },[])
  | .frame .other _ => (c,[])
  | .peerGone => ({ c with ended := true },[])

def Connection.hears (c : Connection) (h : Happening) : Bool :=
  match h.about with
  | none => true
  | some id => id = c.id

def Connection.run : Connection → List Happening → List Emitted
  | _, [] => []
  | c, h::rest =>
    if c.ended then []
    else if c.hears h then (c.react h).2++Connection.run (c.react h).1 rest
    else Connection.run c rest

/-- A whole exchange: the reply, the server after the handler, and what the
connection emits if there is one. -/
def exchange (s : Server) (happenings : List Happening) :
    ApiRequest → ApiReply × Server × List Emitted
  | .list headers => (listWorkorders text registry headers s,s,[])
  | .get headers id => (getWorkorder text registry headers id s,s,[])
  | .cancel headers id =>
    ((cancelRequest text registry headers id s).1,(cancelRequest text registry headers id s).2,[])
  | .progress _ id =>
    match openProgress id s with
    | none => (.refused 404 "",s,[])
    | some c => (.upgraded,s,c.run happenings)

end Remerge.WorkorderApi

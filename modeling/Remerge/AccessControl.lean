import Remerge.ServerCore
import Remerge.WorkorderApi

/-!
# Who may see and follow a workorder

Reading and cancelling are decided by the client that the certificate header
names, and so is the exchange of snapshot blobs. Two questions are settled
here. What a request reveals of, or does to, a workorder whose owner it is not:
nothing, except over a progress connection, which is not authenticated at all.
And whether a client that may submit may also upload, read and cancel: it may,
except where a mode accepts it without a certificate.
-/

set_option autoImplicit false

namespace Remerge.AccessControl
open SnapshotTypes SnapshotCleanup ServerState ServerTasks ServerCore ClientAuth WorkorderApi

variable {headers : HeaderMap} {s : Server} {id : WorkorderId} {w : Workorder} {text : UnicodeText}
  {registry : CertRegistry}

theorem requireSnapshotAuth_ok :
    requireSnapshotAuth text registry headers = .ok () ↔
      registry.mode = .none ∨ (registry.resolveHeaderOnly text headers).isSome := by
  unfold requireSnapshotAuth
  cases registry.mode <;> cases registry.resolveHeaderOnly text headers <;> simp

theorem served_owner (hw : s.workorders.lookup id = some w)
    (h : registry.mode = .none ∨ registry.resolveHeaderOnly text headers = some w.clientId) :
    getWorkorder text registry headers id s = statusResponse s id w ∧
      refuseCancel text registry headers id s = none := by
  unfold getWorkorder refuseCancel
  rw [hw]
  rcases h with h | h
  · simp [h]
  · simp only [h,if_true]
    split <;> exact ⟨rfl,rfl⟩

/-- If a submission resolves, its headers also let the client upload snapshot
blobs, and read and cancel its workorders. -/
def FollowsThrough (text : UnicodeText) (registry : CertRegistry) (headers : HeaderMap)
    (bodyClientId : ClientId) (bodyRole : ClientRole) : Prop :=
  ∀ identity, registry.resolve text headers bodyClientId bodyRole = .ok identity →
    requireSnapshotAuth text registry headers = .ok () ∧
      ∀ (s : Server) id w, s.workorders.lookup id = some w → w.clientId = identity.clientId →
        getWorkorder text registry headers id s = statusResponse s id w ∧
          refuseCancel text registry headers id s = none

theorem followsThrough_of_owner {identity : ResolvedIdentity}
    (h : registry.mode = .none ∨ registry.resolveHeaderOnly text headers = some identity.clientId) :
    requireSnapshotAuth text registry headers = .ok () ∧
      ∀ (s : Server) id w, s.workorders.lookup id = some w → w.clientId = identity.clientId →
        getWorkorder text registry headers id s = statusResponse s id w ∧
          refuseCancel text registry headers id s = none := by
  constructor
  · apply requireSnapshotAuth_ok.mpr
    rcases h with h | h
    · exact .inl h
    · exact .inr (by simp [h])
  · intro s id w hw hc
    rw [← hc] at h
    exact served_owner hw h

/-- Everyone who may submit may follow through, except followers that the mixed
mode accepts without a certificate. -/
theorem followsThrough_iff (text : UnicodeText) (registry : CertRegistry) (headers : HeaderMap)
    (bodyClientId : ClientId) (bodyRole : ClientRole) :
    FollowsThrough text registry headers bodyClientId bodyRole ↔
      ¬ (registry.mode = .mixed ∧ registry.extractFingerprint text headers = none ∧
        bodyRole = .follower) := by
  constructor
  · rintro h ⟨hmode,hfp,hrole⟩
    have hresolved : registry.resolve text headers bodyClientId bodyRole =
        .ok ⟨bodyClientId,.follower,.selfDeclared⟩ := by
      simp [CertRegistry.resolve,hmode,hfp,hrole]
    have hauth := requireSnapshotAuth_ok.mp (h _ hresolved).1
    rcases hauth with hnone | hsome
    · rw [hmode] at hnone
      cases hnone
    · simp [CertRegistry.resolveHeaderOnly,CertRegistry.headerEntry,hfp] at hsome
  · intro h identity hid
    apply followsThrough_of_owner
    rcases resolve_ok hid with ⟨entry,he,hc,-⟩ | hnone | ⟨hmode,hfp,hrole,-⟩
    · exact .inr (by simp [CertRegistry.resolveHeaderOnly,he,hc])
    · exact .inl hnone
    · have hfollower : bodyRole = .follower := by
        cases bodyRole with
        | main => exact absurd rfl hrole
        | follower => rfl
      exact absurd ⟨hmode,hfp,hfollower⟩ h

/-- A follower without a certificate is let in by the mixed mode and then
refused everything else. -/
theorem follower_cannot_follow_through :
    ¬ FollowsThrough asciiText ⟨.mixed,defaultCertHeader,∅⟩ [] "c1" .follower := by
  intro h
  have hresolved : CertRegistry.resolve asciiText ⟨.mixed,defaultCertHeader,∅⟩ [] "c1" .follower =
      .ok ⟨"c1",.follower,.selfDeclared⟩ := rfl
  have hupload := (h _ hresolved).1
  cases hupload

abbrev WorkorderEntry : Type := Sigma fun _ : WorkorderId => Workorder

structure SameEntry (id : WorkorderId) (e e' : WorkorderEntry) : Prop where
  key : e.1 = e'.1
  other : e.1 ≠ id → e.2 = e'.2
  owner : e.1 = id → e.2.clientId = e'.2.clientId

def WorkordersAgree (id : WorkorderId) (t t' : Table WorkorderId Workorder) : Prop :=
  List.Forall₂ (SameEntry id) t.entries t'.entries

/-- The servers differ in nothing but what they know of one workorder: its
record, its result and its channels. -/
structure AgreeOff (id : WorkorderId) (s s' : Server) : Prop where
  workorders : WorkordersAgree id s.workorders s'.workorders
  results : ∀ x, x ≠ id → s.results.lookup x = s'.results.lookup x
  progress : ∀ x, x ≠ id → s.progressTxs.lookup x = s'.progressTxs.lookup x
  raw : ∀ x, x ≠ id → s.rawOutputTxs.lookup x = s'.rawOutputTxs.lookup x

def HappensOff (id : WorkorderId) (hs hs' : List Happening) : Prop :=
  hs.filter (fun h => h.about ≠ some id) = hs'.filter (fun h => h.about ≠ some id)

def Emitted.toPeer : Emitted → Bool
  | .stdin _ _ => false
  | _ => true

def Emitted.toStdin (id : WorkorderId) : Emitted → Bool
  | .stdin id' _ => id' = id
  | _ => false

def peerSees (r : ApiReply × Server × List Emitted) : ApiReply × List Emitted :=
  (r.1,r.2.2.filter Emitted.toPeer)

/-- An exchange reveals nothing of a workorder: whatever the server knows of it
and publishes for it, the peer sees the same. And it does nothing to it: the
record stays and nothing is written to the worker's stdin. -/
structure Mediated (text : UnicodeText) (registry : CertRegistry) (s : Server)
    (id : WorkorderId) (request : ApiRequest) : Prop where
  reveals : ∀ s' hs hs', AgreeOff id s s' → HappensOff id hs hs' →
    peerSees (exchange text registry s hs request) =
      peerSees (exchange text registry s' hs' request)
  influences : ∀ hs, (exchange text registry s hs request).2.1.workorders.lookup id =
      s.workorders.lookup id ∧
    (exchange text registry s hs request).2.2.filter (Emitted.toStdin id) = []

def followedId : ApiRequest → Option WorkorderId
  | .progress _ id => some id
  | _ => none

variable {s' : Server} {l l' : List WorkorderEntry}

theorem sameEntries_lookup (h : List.Forall₂ (SameEntry id) l l') :
    (∀ x, x ≠ id → l.dlookup x = l'.dlookup x) ∧
      (l.dlookup id).map (·.clientId) = (l'.dlookup id).map (·.clientId) := by
  induction h with
  | nil => exact ⟨fun _ _ => rfl,rfl⟩
  | @cons e e' l l' he _ ih =>
    obtain ⟨k,v⟩ := e
    obtain ⟨k',v'⟩ := e'
    obtain ⟨hk,hother,howner⟩ := he
    cases hk
    constructor
    · intro x hx
      by_cases hkx : x = k
      · subst hkx
        have hv : v = v' := hother hx
        simp [hv]
      · rw [List.dlookup_cons_ne _ _ hkx,List.dlookup_cons_ne _ _ hkx]
        exact ih.1 x hx
    · by_cases hki : id = k
      · subst hki
        have hv : v.clientId = v'.clientId := howner rfl
        simp [hv]
      · rw [List.dlookup_cons_ne _ _ hki,List.dlookup_cons_ne _ _ hki]
        exact ih.2

theorem sameEntries_filter {client : ClientId} (h : List.Forall₂ (SameEntry id) l l')
    (howner : ∀ v, ⟨id,v⟩ ∈ l → v.clientId ≠ client) :
    (l.map (fun e => e.2)).filter (fun w => w.clientId = client) =
      (l'.map (fun e => e.2)).filter (fun w => w.clientId = client) := by
  induction h with
  | nil => rfl
  | @cons e e' l l' he _ ih =>
    have hrest := ih fun v hv => howner v (List.mem_cons_of_mem _ hv)
    obtain ⟨k,v⟩ := e
    obtain ⟨k',v'⟩ := e'
    by_cases hk : k = id
    · subst hk
      have hv : v.clientId ≠ client := howner v List.mem_cons_self
      have hv' : v'.clientId ≠ client := he.owner rfl ▸ hv
      simpa [hv,hv'] using hrest
    · have hv : v = v' := he.other hk
      subst hv
      simp only [List.map_cons,List.filter_cons,hrest]

variable {x : WorkorderId} {c : Connection}

theorem agreeOff_other (h : AgreeOff id s s') (hx : x ≠ id) :
    s.workorders.lookup x = s'.workorders.lookup x :=
  (sameEntries_lookup h.workorders).1 x hx

theorem agreeOff_owner (h : AgreeOff id s s') (hw : s.workorders.lookup id = some w) :
    ∃ w', s'.workorders.lookup id = some w' ∧ w'.clientId = w.clientId := by
  have howner : (s.workorders.lookup id).map (·.clientId) =
      (s'.workorders.lookup id).map (·.clientId) := (sameEntries_lookup h.workorders).2
  rw [hw] at howner
  obtain ⟨w',hw',hc⟩ := Option.map_eq_some_iff.mp howner.symm
  exact ⟨w',hw',hc⟩

/-- The headers do not speak for the owner of the workorder. -/
structure Foreign (text : UnicodeText) (registry : CertRegistry) (headers : HeaderMap) (s : Server)
    (id : WorkorderId) (w : Workorder) : Prop where
  mode : registry.mode ≠ .none
  found : s.workorders.lookup id = some w
  notOwner : registry.resolveHeaderOnly text headers ≠ some w.clientId

theorem listWorkorders_off (hf : Foreign text registry headers s id w) (h : AgreeOff id s s') :
    listWorkorders text registry headers s = listWorkorders text registry headers s' := by
  unfold listWorkorders
  split
  · next hnone => exact absurd hnone hf.mode
  · split
    · rfl
    · next client hclient =>
      have howner : ∀ v, (⟨id,v⟩ : WorkorderEntry) ∈ s.workorders.entries →
          v.clientId ≠ client := by
        intro v hv hc
        have hlookup : s.workorders.lookup id = some v := AList.mem_lookup_iff.mpr hv
        cases hf.found.symm.trans hlookup
        exact hf.notOwner (hc ▸ hclient)
      have hsame := sameEntries_filter h.workorders howner
      unfold AList.values
      rw [hsame]

def refusal (text : UnicodeText) (registry : CertRegistry) (headers : HeaderMap)
    (forbidden unauthorized : String) : ApiReply :=
  match registry.resolveHeaderOnly text headers with
  | some _ => .refused 403 forbidden
  | none => .refused 401 unauthorized

theorem Foreign.refused (hf : Foreign text registry headers s id w) :
    getWorkorder text registry headers id s = refusal text registry headers "" "" ∧
      refuseCancel text registry headers id s = some (refusal text registry headers
        "You do not own this workorder" "Authentication required to cancel workorders") := by
  unfold getWorkorder refuseCancel refusal
  rw [hf.found]
  cases hc : registry.resolveHeaderOnly text headers with
  | none =>
    cases hm : registry.mode with
    | none => exact absurd hm hf.mode
    | _ => exact ⟨rfl,rfl⟩
  | some client =>
    have hne : client ≠ w.clientId := fun he => hf.notOwner (by rw [hc,he])
    cases hm : registry.mode with
    | none => exact absurd hm hf.mode
    | _ => simp [hne]

theorem Foreign.off (hf : Foreign text registry headers s id w) (h : AgreeOff id s s') :
    ∃ w', Foreign text registry headers s' id w' := by
  obtain ⟨w',hw',hc⟩ := agreeOff_owner h hf.found
  exact ⟨w',hf.mode,hw',hc ▸ hf.notOwner⟩

theorem getWorkorder_off (hx : x ≠ id) (h : AgreeOff id s s') :
    getWorkorder text registry headers x s = getWorkorder text registry headers x s' := by
  simp only [getWorkorder,statusResponse,agreeOff_other h hx,h.results x hx]

theorem cancelRequest_off (hx : x ≠ id) (h : AgreeOff id s s') :
    (cancelRequest text registry headers x s).1 = (cancelRequest text registry headers x s').1 := by
  have hrefuse : refuseCancel text registry headers x s =
      refuseCancel text registry headers x s' := by
    simp only [refuseCancel,agreeOff_other h hx]
  have hstatus : (cancelStatus x s.workorders).2 = (cancelStatus x s'.workorders).2 := by
    unfold cancelStatus
    rw [agreeOff_other h hx]
    split
    · rfl
    · split <;> rfl
  unfold cancelRequest
  rw [hrefuse]
  split
  · rfl
  · exact congrArg (cancelReply x) hstatus

theorem cancelRequest_lookup (hx : x ≠ id) :
    (cancelRequest text registry headers x s).2.workorders.lookup id = s.workorders.lookup id := by
  unfold cancelRequest
  split
  · rfl
  · show (cancelStatus x s.workorders).1.lookup id = _
    unfold cancelStatus
    split
    · rfl
    · split
      · exact AList.lookup_insert_ne hx.symm
      · rfl

theorem react_id (c : Connection) (h : Happening) : (c.react h).1.id = c.id := by
  unfold Connection.react
  split <;> try rfl
  · unfold Connection.relay
    split <;> rfl
  · split <;> rfl

theorem run_ended (he : c.ended) (hs : List Happening) : c.run hs = [] := by
  cases hs with
  | nil => rfl
  | cons h hs => simp [Connection.run,he]

theorem run_filter (hc : c.id ≠ id) (hs : List Happening) :
    c.run hs = c.run (hs.filter fun h => h.about ≠ some id) := by
  induction hs generalizing c with
  | nil => rfl
  | cons h hs ih =>
    by_cases hab : h.about = some id
    · have hdeaf : c.hears h = false := by
        simp [Connection.hears,hab,hc.symm]
      have hdrop : (h::hs).filter (fun h => h.about ≠ some id) =
          hs.filter fun h => h.about ≠ some id := by
        simp [hab]
      rw [hdrop,← ih hc]
      by_cases he : c.ended
      · rw [run_ended he,run_ended he]
      · rw [Connection.run,if_neg he,if_neg (by simp [hdeaf])]
    · have hkeep : (h::hs).filter (fun h => h.about ≠ some id) =
          h::hs.filter fun h => h.about ≠ some id := by
        simp [hab]
      have hreact : (c.react h).1.id ≠ id := by
        rw [react_id]
        exact hc
      rw [hkeep,Connection.run,Connection.run,ih hc,ih hreact]

theorem react_stdin (hc : c.id ≠ id) (h : Happening) :
    (c.react h).2.filter (Emitted.toStdin id) = [] := by
  unfold Connection.react
  split <;> try rfl
  · unfold Connection.relay
    split <;> rfl
  · split <;> rfl
  · simp [Emitted.toStdin,hc]

theorem run_stdin (hc : c.id ≠ id) (hs : List Happening) :
    (c.run hs).filter (Emitted.toStdin id) = [] := by
  induction hs generalizing c with
  | nil => rfl
  | cons h hs ih =>
    unfold Connection.run
    split
    · rfl
    · split
      · rw [List.filter_append,react_stdin hc,ih (by rw [react_id]; exact hc)]
        rfl
      · exact ih hc

theorem openProgress_id (h : openProgress x s = some c) : c.id = x := by
  unfold openProgress at h
  split at h
  · cases h
  · cases h
    rfl

theorem openProgress_off (hx : x ≠ id) (h : AgreeOff id s s') :
    openProgress x s = openProgress x s' := by
  simp only [openProgress,h.progress x hx,h.raw x hx]

def withProgress (id : WorkorderId) (present : Bool) (s : Server) : Server :=
  { s with progressTxs := if present then s.progressTxs.insert id () else s.progressTxs.erase id }

theorem agreeOff_withProgress (id : WorkorderId) (present : Bool) (s : Server) :
    AgreeOff id s (withProgress id present s) where
  workorders := by
    show List.Forall₂ (SameEntry id) s.workorders.entries s.workorders.entries
    exact List.forall₂_same.mpr fun e _ => ⟨rfl,fun _ => rfl,fun _ => rfl⟩
  results := fun _ _ => rfl
  progress := by
    intro x hx
    cases present with
    | false => exact (AList.lookup_erase_ne hx).symm
    | true => exact (AList.lookup_insert_ne hx).symm
  raw := fun _ _ => rfl

theorem mediated_get (hf : Foreign text registry headers s id w) :
    Mediated text registry s id (.get headers x) where
  reveals := by
    intro s' hs hs' h _
    by_cases hx : x = id
    · subst hx
      obtain ⟨w',hf'⟩ := hf.off h
      simp only [peerSees,exchange,hf.refused,hf'.refused]
    · simp only [peerSees,exchange,getWorkorder_off hx h]
  influences := fun _ => ⟨rfl,rfl⟩

theorem mediated_cancel (hf : Foreign text registry headers s id w) :
    Mediated text registry s id (.cancel headers x) where
  reveals := by
    intro s' hs hs' h _
    by_cases hx : x = id
    · subst hx
      obtain ⟨w',hf'⟩ := hf.off h
      simp only [peerSees,exchange,cancelRequest,hf.refused,hf'.refused]
    · simp only [peerSees,exchange,cancelRequest_off hx h]
  influences := by
    intro hs
    refine ⟨?_,rfl⟩
    by_cases hx : x = id
    · subst hx
      simp only [exchange,cancelRequest,hf.refused]
    · exact cancelRequest_lookup hx

theorem mediated_progress (hx : x ≠ id) :
    Mediated text registry s id (.progress headers x) where
  reveals := by
    intro s' hs hs' h hsame
    simp only [exchange,← openProgress_off hx h]
    cases hopen : openProgress x s with
    | none => rfl
    | some c =>
      have hc : c.id ≠ id := (openProgress_id hopen).symm ▸ hx
      have hrun : c.run hs = c.run hs' := by
        rw [run_filter hc hs,run_filter hc hs',hsame]
      simp only [peerSees,hrun]
  influences := by
    intro hs
    simp only [exchange]
    cases hopen : openProgress x s with
    | none => exact ⟨rfl,rfl⟩
    | some c =>
      have hc : c.id ≠ id := (openProgress_id hopen).symm ▸ hx
      exact ⟨rfl,run_stdin hc hs⟩

/-- Following a workorder shows at least whether it has a channel. -/
theorem not_mediated_progress : ¬ Mediated text registry s id (.progress headers id) := by
  intro h
  have hsame : HappensOff id [] [] := rfl
  have hthere := h.reveals _ [] [] (agreeOff_withProgress id true s) hsame
  have hgone := h.reveals _ [] [] (agreeOff_withProgress id false s) hsame
  have hdiffer := hthere.symm.trans hgone
  simp [peerSees,exchange,openProgress,withProgress] at hdiffer

def followedWorkorder : Workorder :=
  { newWorkorder (sampleRequest "c1") .default "w1" 0 with status := .building }

def followedServer : Server :=
  { boot .default 0 ∅ emptyDisk [] with
    workorders := AList.insert "w1" followedWorkorder ∅
    progressTxs := AList.insert "w1" () ∅
    rawOutputTxs := AList.insert "w1" () ∅
    stdinTxs := AList.insert "w1" () ∅ }

end Remerge.AccessControl

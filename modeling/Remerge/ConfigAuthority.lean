import Remerge.ServerCore
import Remerge.WorkorderApi

/-!
# Who decides a client's configuration

The registry keeps two hashes per client. Only a submit writes them, only in
the role of a main client, and it is accepted once it has. Behind the handler's
checks that role needs a certificate, so that in every run each change of a
client's hashes goes back to a submit whose header names that client as main.
Where certificates are mandatory, the identity in the body is not looked at.
-/

set_option autoImplicit false

namespace Remerge.ConfigAuthority
open StepProgram Interleaving SnapshotTypes SnapshotStore SnapshotRuntime SnapshotCleanup
open ServerState ServerOps ServerTasks ServerPhases ServerCore ClientAuth WorkorderApi
open AtomValidation

variable {env : Codecs} {config : ServerConfig} {c : ClientId} {s s' : Server}

def hashesIn (clients : Table ClientId ClientState) (c : ClientId) : Option (String × String) :=
  (clients.lookup c).map fun cs => (cs.configHash,cs.systemHash)

def hashesOf (s : Server) (c : ClientId) : Option (String × String) := hashesIn s.clients c

section

def updateAllows (k : TaskKind) (o : ServerOp) : Prop :=
  ∀ c role ch sh, o = .updateClient c role ch sh →
    ∃ req, k = .submit req ∧ c = req.clientId ∧ role = req.role

def updateNext (updated : Bool) (o : ServerOp) (r : ServerRes o) : Bool :=
  match o, r with
  | .updateClient _ _ _ _, .ok _ => true
  | _, _ => updated

def registering : Discipline TaskKind ServerOp ServerRes Bool where
  monitor := fun k => ⟨fun _ => updateAllows k,updateNext⟩
  init := fun _ => false
  final := fun _ _ k' => ∀ req, k' ≠ some (.submit req)

def isUpdate : ServerOp → Bool
  | .updateClient _ _ _ _ => true
  | _ => false

variable {k : TaskKind} {q : Bool} {α β : Type} {final : Bool → β → Prop}

theorem updateNext_other (q : Bool) {o : ServerOp} (r : ServerRes o) (h : isUpdate o = false) :
    updateNext q o r = q := by
  cases o <;> first | rfl | simp [isUpdate] at h

theorem conforms_other {o : ServerOp} {f : ServerRes o → ServerProg β} (h : isUpdate o = false)
    (hf : ∀ r, Conforms (registering.monitor k) final q (f r)) :
    Conforms (registering.monitor k) final q (op o >>= f) := by
  refine ⟨?_,fun r => ?_⟩
  · rintro c role ch sh rfl
    cases h
  · have hr := hf r
    rw [← updateNext_other q r h] at hr
    exact hr

theorem conforms_onStore (p : StoreProg α) {f : Except Failure α → ServerProg β}
    (hf : ∀ r, Conforms (registering.monitor k) final q (f r)) :
    Conforms (registering.monitor k) final q (onStore p >>= f) := by
  unfold onStore
  induction outcome p with
  | ret a => exact hf a
  | step o next ih => exact conforms_other rfl fun r => ih r

theorem conforms_recordSubmission :
    Conforms (registering.monitor k) (fun q' _ => q' = q) q recordSubmission := by
  have last : ∀ clients, Conforms (registering.monitor k) (fun q' _ => q' = q) q
      (op (.saveClients clients)) := fun clients => conforms_other rfl fun _ => rfl
  exact conforms_other rfl fun _ => conforms_other rfl fun _ => conforms_other rfl fun _ =>
    conforms_other rfl fun _ => conforms_other rfl fun _ => conforms_other rfl last

theorem accepted_iff_updated (config : ServerConfig) (req : SubmitRequest) :
    Conforms (registering.monitor (.submit req))
      (fun updated outcome => updated ↔ ∃ id, outcome = SubmitOutcome.accepted id) false
      (submitWorkorder config req) := by
  refine conforms_onStore _ fun normalized => ?_
  cases normalized with
  | error failure => exact ⟨fun h => (by cases h),fun ⟨_,h⟩ => (by cases h)⟩
  | ok normalized =>
    have capacity : Conforms (registering.monitor (.submit req)) (fun q _ => q = false) false
        (atCapacity config) := by
      unfold atCapacity
      split
      · exact conforms_other rfl fun _ => rfl
      · rfl
    refine conforms_other rfl fun named => conforms_other rfl fun _ =>
      conforms_bind capacity fun q full hq => ?_
    subst hq
    cases full with
    | true => exact conforms_other rfl fun _ => ⟨fun h => (by cases h),fun ⟨_,h⟩ => (by cases h)⟩
    | false =>
      refine ⟨fun c role ch sh e => ?_,fun r => ?_⟩
      · cases e
        exact ⟨req,rfl,rfl,rfl⟩
      · cases r with
        | error e =>
          exact conforms_other rfl fun _ => ⟨fun h => (by cases h),fun ⟨_,h⟩ => (by cases h)⟩
        | ok diff =>
          -- Nothing after the update can turn the submission down.
          refine conforms_other rfl fun _ => conforms_other rfl fun _ => conforms_other rfl
            fun _ => conforms_other rfl fun _ => conforms_other rfl fun _ =>
              conforms_bind conforms_recordSubmission fun q _ hq => ?_
          exact ⟨fun _ => ⟨_,rfl⟩,fun _ => hq⟩

theorem registering_obeyed (env : Codecs) (config : ServerConfig) :
    Obeys (serverSystem env config) registering := by
  intro k
  -- The phases already say that no other task updates the registry.
  have others : (∀ req, k ≠ .submit req) → Conforms (registering.monitor k)
      (registering.final k) (registering.init k) ((serverSystem env config).body k) := by
    intro hk
    refine conforms_transfer (phases_obeyed env config k) ?_ ?_ _
    · rintro q q' o allowed c role ch sh rfl
      cases allowed with
      | plain h => cases h
      | unlimited | update => exact absurd rfl (hk _)
    · intro q k' hf req hreq
      subst hreq
      cases k <;> simp [phases,phaseFinal] at hf
  cases k with
  | submit req =>
    exact conforms_bind (accepted_iff_updated config req) fun _ _ _ _ h => (by cases h)
  | _ => exact others fun _ h => (by cases h)

end

section
variable {x : ClientId}

theorem hashesIn_modify (clients : Table ClientId ClientState) {f : ClientState → ClientState}
    (hf : ∀ cs, (f cs).configHash = cs.configHash ∧ (f cs).systemHash = cs.systemHash) :
    hashesIn (clients.modify x f) c = hashesIn clients c := by
  unfold hashesIn
  rw [AList.lookup_modify]
  split
  · next h =>
    subst h
    cases clients.lookup c with
    | none => rfl
    | some cs => simp [hf cs]
  · rfl

theorem hashesIn_insert_ne (clients : Table ClientId ClientState) (cs : ClientState)
    (h : c ≠ x) : hashesIn (clients.insert x cs) c = hashesIn clients c := by
  unfold hashesIn
  rw [AList.lookup_insert_ne h]

theorem updateClient_changes {now : Time} {role : ClientRole} {ch sh : String}
    {clients clients' : Table ClientId ClientState} {diff : ConfigDiff}
    (h : updateClient now x role ch sh clients = .ok (diff,clients'))
    (hne : hashesIn clients' c ≠ hashesIn clients c) : x = c ∧ role = .main := by
  by_cases hx : c = x
  · subst hx
    refine ⟨rfl,?_⟩
    cases role with
    | main => rfl
    | follower =>
      unfold updateClient at h
      split at h
      · next existing he =>
        split at h
        · cases h
        · dsimp only at h
          split at h
          · cases h
          · cases h
            exact absurd (by simp [hashesIn,he]) hne
      · cases h
  · obtain ⟨-,cs,-,rfl⟩ := updateClient_ok h
    exact absurd (hashesIn_insert_ne clients cs hx) hne

def writesClients : ServerOp → Bool
  | .updateClient _ _ _ _ | .setActive _ _ | .clearActive _ => true
  | _ => false

variable {o : ServerOp} {w : ServerOracle} {r : ServerRes o}

theorem clients_of_sem (hs : serverSem env config o w s = some (s',r))
    (ho : writesClients o = false) : s'.clients = s.clients := by
  rw [effect_of_sem env config hs]
  cases o with
  | evict =>
    simp only [effect]
    split <;> rfl
  | _ => first | rfl | cases ho

theorem change_of_sem (hs : serverSem env config o w s = some (s',r))
    (hne : hashesOf s' c ≠ hashesOf s c) :
    ∃ ch sh diff, (⟨o,r⟩ : Sigma ServerRes) = ⟨.updateClient c .main ch sh,.ok diff⟩ := by
  unfold hashesOf at hne
  cases o with
  | updateClient x role ch sh =>
    simp only [serverSem] at hs
    split at hs
    · next diff clients hu =>
      cases hs
      obtain ⟨rfl,rfl⟩ := updateClient_changes hu hne
      exact ⟨ch,sh,diff,rfl⟩
    · cases hs
      exact absurd rfl hne
  | setActive x id | clearActive x =>
    cases hs
    refine absurd ?_ hne
    exact hashesIn_modify s.clients fun cs => ⟨rfl,rfl⟩
  | _ => exact absurd (by rw [clients_of_sem hs rfl]) hne

end

variable (text : UnicodeText) (registry : CertRegistry)

def checkedSubmits : ServerCondition := fun _ _ l => ∀ j request, l = .start j (.submit request) →
  ∃ headers body traceId, checkSubmit text registry headers body traceId = .ok request

/-- The update of a submit of which the header, whatever it was, named the
client as a main client. -/
def AuthorisedChange (c : ClientId) (l : ServerLabel) : Prop :=
  ∃ i request ch sh diff, l = .act i (.submit request) (.updateClient c .main ch sh) (.ok diff) ∧
    (∃ headers body traceId, checkSubmit text registry headers body traceId = .ok request) ∧
    ∀ headers body traceId, checkSubmit text registry headers body traceId = .ok request →
      ∃ entry, registry.headerEntry text headers = some entry ∧ entry.clientId = c ∧
        entry.role = .main

def SubmitsChecked (g : Ghost TaskKind Bool) : Prop :=
  ∀ i request q, g i = some (.submit request,q) →
    ∃ headers body traceId, checkSubmit text registry headers body traceId = .ok request

variable {text registry}

theorem main_needs_entry (hmode : registry.mode ≠ .none) {headers : HeaderMap}
    {body : SubmitBody} {traceId : Option String} {request : SubmitRequest}
    (h : checkSubmit text registry headers body traceId = .ok request)
    (hrole : request.role = .main) :
    ∃ entry, registry.headerEntry text headers = some entry ∧
      entry.clientId = request.clientId ∧ entry.role = .main := by
  obtain ⟨-,identity,hid,rfl⟩ := checkSubmit_ok h
  have hr : identity.role = .main := hrole
  rcases resolve_ok hid with ⟨entry,he,hc,her⟩ | hnone | ⟨-,-,-,hf⟩
  · exact ⟨entry,he,hc.symm,her.symm.trans hr⟩
  · exact absurd hnone hmode
  · rw [hf] at hr
    cases hr

variable {g g' : Ghost TaskKind Bool} {l : ServerLabel}

theorem submitsChecked_step (h : SubmitsChecked text registry g)
    (hs : GhostStep (serverSystem env config) registering s g l s' g')
    (hc : checkedSubmits text registry s g.kinds l) : SubmitsChecked text registry g' := by
  have other : ∀ (g : Ghost TaskKind Bool) (j : ℕ) (x : Option (TaskKind × Bool)),
      SubmitsChecked text registry g →
      (∀ request q, x = some (.submit request,q) → ∃ headers body traceId,
        checkSubmit text registry headers body traceId = .ok request) →
      SubmitsChecked text registry (Function.update g j x) := by
    intro g j x hg hx i request q hi
    by_cases hij : i = j
    · subst hij
      rw [Function.update_self] at hi
      exact hx request q hi
    · rw [Function.update_of_ne hij] at hi
      exact hg i request q hi
  cases hs with
  | @start _ k j hk free =>
    refine other _ _ _ h fun request q hx => ?_
    cases hx
    exact hc j request rfl
  | @act _ _ i j k q o r w ht allowed hsem free =>
    have kept : SubmitsChecked text registry (Function.update g i (some (k,updateNext q o r))) := by
      refine other _ _ _ h fun request q' hx => ?_
      cases hx
      exact h i request q ht
    unfold Discipline.spawn
    cases o with
    | spawnProcess w | spawnCleanup => exact other _ _ _ kept fun request q' hx => (by cases hx)
    | _ => exact kept
  | @next _ i k q k' ht ends =>
    refine other _ _ _ h fun request q' hx => ?_
    obtain ⟨k'',hk',he⟩ := Option.map_eq_some_iff.mp hx
    cases he
    exact absurd hk' (ends request)

def startUpdates : Ghost TaskKind Bool := fun i => (backgroundKind i).map fun k => (k,false)

theorem submitsChecked_start : SubmitsChecked text registry startUpdates := by
  intro i request q hi
  unfold startUpdates at hi
  match i with
  | 0 => cases hi
  | 1 => cases hi
  | 2 => cases hi
  | n+3 => cases hi

theorem authorised_step (hmode : registry.mode ≠ .none) (h : SubmitsChecked text registry g)
    (hs : GhostStep (serverSystem env config) registering s g l s' g')
    (hne : hashesOf s' c ≠ hashesOf s c) : AuthorisedChange text registry c l := by
  cases hs with
  | start hk free | next ht ends => exact absurd rfl hne
  | @act _ _ i j k q o r w ht allowed hsem free =>
    obtain ⟨ch,sh,diff,he⟩ := change_of_sem hsem hne
    cases he
    obtain ⟨request,rfl,rfl,hrole⟩ := allowed _ _ _ _ rfl
    refine ⟨i,request,ch,sh,diff,rfl,h i request q ht,fun headers body traceId hcheck => ?_⟩
    exact main_needs_entry hmode hcheck hrole.symm

theorem authorised_run (hmode : registry.mode ≠ .none) {P P' : ServerPool} {ls : List ServerLabel}
    (run : Run (serverSystem env config) (checkedSubmits text registry) P ls P')
    (start : ∃ g, Tracks registering P g ∧ SubmitsChecked text registry g)
    (hne : hashesOf P'.shared c ≠ hashesOf P.shared c) :
    ∃ l ∈ ls, AuthorisedChange text registry c l := by
  induction run with
  | refl P => exact absurd rfl hne
  | @cons P P1 P2 l ls hs hc rest ih =>
    obtain ⟨g,ht,hg⟩ := start
    obtain ⟨g',hstep,ht'⟩ := ht.step (registering_obeyed env config) hs
    by_cases hl : hashesOf P1.shared c = hashesOf P.shared c
    · obtain ⟨l',hm,ha⟩ := ih ⟨g',ht',submitsChecked_step hg hstep (ht.kinds ▸ hc)⟩
        (fun e => hne (e.trans hl))
      exact ⟨l',List.mem_cons_of_mem _ hm,ha⟩
    · exact ⟨l,List.mem_cons_self ..,authorised_step hmode hg hstep hl⟩

/-- Where certificates are mandatory, a submit does the same for all identities
that its body may declare. -/
theorem submitHandler_mtls (hmode : registry.mode = .mtls) (config : ServerConfig)
    (headers : HeaderMap) (body : SubmitBody) (traceId : Option String) (c : ClientId)
    (role : ClientRole) :
    checkSubmit text registry headers { body with clientId := c, role := role } traceId =
        checkSubmit text registry headers body traceId ∧
      submitHandler text registry config headers { body with clientId := c, role := role } traceId =
        submitHandler text registry config headers body traceId := by
  have same : checkSubmit text registry headers { body with clientId := c, role := role } traceId =
      checkSubmit text registry headers body traceId := by
    unfold checkSubmit
    rw [resolve_mtls hmode c body.clientId role body.role]
    rfl
  refine ⟨same,?_⟩
  unfold submitHandler
  rw [same]

theorem configuration_authority (text : UnicodeText) (registry : CertRegistry)
    (hmode : registry.mode ≠ .none) (env : Codecs) (config : ServerConfig) (s : Server) :
    (∀ ls P ls' P' c,
      Run (serverSystem env config) (checkedSubmits text registry) (startPool env config s) ls P →
      Run (serverSystem env config) (checkedSubmits text registry) P ls' P' →
      hashesOf P'.shared c ≠ hashesOf P.shared c →
      ∃ l ∈ ls', AuthorisedChange text registry c l) ∧
    (∀ request, Conforms (registering.monitor (.submit request))
      (fun updated outcome => updated ↔ ∃ id, outcome = SubmitOutcome.accepted id) false
      (submitWorkorder config request)) ∧
    (registry.mode = .mtls → ∀ headers body traceId c role,
      checkSubmit text registry headers { body with clientId := c, role := role } traceId =
          checkSubmit text registry headers body traceId ∧
        submitHandler text registry config headers { body with clientId := c, role := role }
            traceId =
          submitHandler text registry config headers body traceId) := by
  refine ⟨?_,accepted_iff_updated config,fun hm headers body traceId c role =>
    submitHandler_mtls hm config headers body traceId c role⟩
  intro ls P ls' P' c run run' hne
  have reached := (run_invariant (registering_obeyed env config)
    (fun _ g => SubmitsChecked text registry g) (fun _ => True)
    (fun _ _ _ _ _ h hs hc => ⟨submitsChecked_step h hs hc,trivial⟩) run
    ⟨startUpdates,tracks_background (registering_obeyed env config) s fun _ => rfl,
      submitsChecked_start⟩).1
  exact authorised_run hmode run' reached hne

def firstClientCheck (_ : Server) (_ : ℕ → Option TaskKind) (l : ServerLabel) : Bool :=
  match l with
  | .start _ (.submit request) => request.clientId == "c1" && request.role == .main &&
      request.atoms.all fun atom => (validateAtom atom).isOk
  | _ => true

theorem checkedSubmits_of_check (s : Server) (kinds : ℕ → Option TaskKind) (l : ServerLabel)
    (h : firstClientCheck s kinds l) :
    checkedSubmits asciiText (twoClients .mtls) s kinds l := by
  rintro j request rfl
  simp only [firstClientCheck,Bool.and_eq_true,beq_iff_eq,List.all_eq_true] at h
  obtain ⟨⟨hclient,hrole⟩,hatoms⟩ := h
  have hvalid : validateAtoms request.atoms = .ok () := by
    refine validateAtoms_ok.mpr fun atom ha => ?_
    have hok := hatoms atom ha
    cases hv : validateAtom atom with
    | ok u => rfl
    | error e => simp [hv,Except.isOk,Except.toBool] at hok
  have hid : (twoClients .mtls).resolve asciiText firstHeaders "" .follower =
      .ok ⟨"c1",.main,.certificate "ab" none⟩ := by decide
  refine ⟨firstHeaders,⟨"",.follower,request.atoms,request.emergeArgs,request.portageConfig,
    request.configHash,request.systemHash,request.systemId⟩,request.traceId,?_⟩
  simp only [checkSubmit,hvalid,hid,SubmitBody.requestAs]
  rw [← hclient,← hrole]

/-- A client with a certificate registers its configuration. -/
theorem first_client_registers :
    ∃ ls P ls' P',
      Run (serverSystem plainCodecs .default)
        (checkedSubmits asciiText (twoClients .mtls)) (freshPool plainCodecs .default)
        ls P ∧
      Run (serverSystem plainCodecs .default)
        (checkedSubmits asciiText (twoClients .mtls)) P ls' P' ∧
      hashesOf P.shared "c1" = none ∧ hashesOf P'.shared "c1" = some ("portage","system") ∧
      ∃ l ∈ ls', AuthorisedChange asciiText (twoClients .mtls) "c1" l := by
  obtain ⟨ls,P,ls',P',run,run',h,h'⟩ := exists_runs_of_play
    (serverSystem plainCodecs .default) checkedSubmits_of_check
    (.start 3 (.submit (sampleRequest "c1"))::acts 2 3 9 "w1") (acts 2 3 9 "w1")
    (freshPool plainCodecs .default)
    (fun P => hashesOf P.shared "c1" == none)
    (fun _ P => hashesOf P.shared "c1" == some ("portage","system")) (by decide)
  have hnone := eq_of_beq h
  have hsome := eq_of_beq h'
  refine ⟨ls,P,ls',P',run,run',hnone,hsome,?_⟩
  refine (configuration_authority asciiText (twoClients .mtls) (by decide) plainCodecs
    .default _).1 ls P ls' P' "c1" run run' ?_
  rw [hnone,hsome]
  exact fun e => (by cases e)

end Remerge.ConfigAuthority

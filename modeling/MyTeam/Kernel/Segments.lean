import MyTeam.Kernel.Acts

/-!
# Every method of the kernel performs acts

The handlers are walked through once, with the rules of `Coroutine.wp`. The environment acts
only while a handler waits, and calmly, so what was checked before a wait about names and
live processes still holds after it.
-/

namespace MyTeam.Kernel

open MyTeam.Py MyTeam.Async Coroutine Relation

namespace AgentOS

/-- A wired state that acts under the warrant lead to. -/
structure Along (w : Warrant) (start os : AgentOS) : Prop where
  acts : ReflTransGen (Act w) start os
  wired : os.Wired

/-- The kernel performs acts until it waits; then anything in the background may happen. -/
def contract (w : Warrant) : Contract AgentOS where
  rely _ os os' := ReflTransGen Background os os'
  wait start os := Along w start os

/-- One act more. -/
theorem Along.act {w : Warrant} {start os os' : AgentOS} (h : Along w start os) (ha : Act w os os') :
    Along w start os' :=
  ⟨h.acts.tail ha, ha.wired h.wired⟩

/-- No retirement is under way. -/
structure Clear (w : Warrant) (start os : AgentOS) : Prop extends Along w start os where
  vacant : os.retiring = none

/-- One act more that retires nothing. -/
theorem Clear.act {w : Warrant} {start os os' : AgentOS} (h : Clear w start os) (ha : Act w os os')
    (hr : os'.retiring = os.retiring) : Clear w start os' :=
  ⟨h.toAlong.act ha, hr.trans h.vacant⟩

variable {w : Warrant} {start os : AgentOS}

/-- Emitting an event of the kernel. -/
theorem along_kernelEmit {source : String} {target : Value} {payload : List (String × Value)}
    (known : source = "kernel" ∨ source = "authority") (spoken : Spoken target payload)
    (h : Clear w start os) :
    wp (contract w) (kernelEmit source (applicationEvent target payload))
      (fun start _ os' => Clear w start os') start os :=
  wp_kernelEmit h.wired fun _ _ emitted => h.act (.emit known spoken emitted) emitted.calm.retiring

/-- Injecting into an agent. -/
theorem along_inject {agent : Value} (h : Clear w start os) :
    wp (contract w) (inject agent) (fun start _ os' => Clear w start os') start os := by
  simp only [inject, wp_bind, wp_askAuthority, Authority.respond_inject]
  cases hinject : os.authority.buildInject agent with
  | error error => exact h
  | ok answer =>
    obtain ⟨authority, reply⟩ := answer
    obtain ⟨⟨payload, rfl, hspoken⟩, -, -⟩ := Authority.buildInject_cases hinject
    have hnext := h.act (.injected hinject) rfl
    simp only
    split
    · exact along_kernelEmit (Or.inr rfl) hspoken hnext
    · exact hnext

/-- Injecting into all agents. -/
theorem along_injectAll {agents : List Value} (h : Clear w start os) :
    wp (contract w) (forEach agents inject) (fun start _ os' => Clear w start os') start os :=
  wp_forEach h fun _ _ _ _ => along_inject

/-- Granting a token. -/
theorem along_grant {position : Value} {device token : String} (allowed : w.Grants device)
    (h : Clear w start os) :
    wp (contract w) (grant position device (.str token)) (fun start _ os' => Clear w start os')
      start os := by
  simp only [grant, wp_bind, wp_askAuthority, Authority.respond_grant]
  cases position.key with
  | error error => exact h
  | ok positionKey => exact h.act (.addGrant allowed) rfl

/-- Default scopes have string tokens. -/
theorem defaults_str {scopes tokens : List Value} (declared : scopes.all isScope = true)
    (h : defaults scopes = .ok tokens) : ∀ token ∈ tokens, ∃ name, token = .str name := by
  induction scopes generalizing tokens with
  | nil =>
    obtain rfl := Except.ok.inj h
    simp
  | cons scope rest ih =>
    rw [List.all_cons, Bool.and_eq_true] at declared
    obtain ⟨hscope, hrest⟩ := declared
    obtain ⟨isDefault, -, h⟩ := bind_eq_ok.mp h
    split at h
    · obtain ⟨token, htoken, h⟩ := bind_eq_ok.mp h
      obtain ⟨more, hmore, h⟩ := bind_eq_ok.mp h
      obtain rfl := Except.ok.inj h
      intro t ht
      rcases List.mem_cons.mp ht with rfl | ht
      · have hname : isName (scope.field "token") = true := by
          cases scope <;> simp_all [isScope]
        obtain ⟨name, hname, -⟩ := isName_iff.mp hname
        exact ⟨name, (Value.field_of_item htoken).symm.trans hname⟩
      · exact ih hrest hmore t ht
    · exact ih hrest h

/-- The default scopes of a module can be listed. -/
theorem defaults_ok {scopes : List Value} (declared : scopes.all isScope = true) :
    ∃ tokens, defaults scopes = .ok tokens := by
  induction scopes with
  | nil => exact ⟨[], rfl⟩
  | cons scope rest ih =>
    rw [List.all_cons, Bool.and_eq_true] at declared
    obtain ⟨hscope, hrest⟩ := declared
    obtain ⟨tokens, htokens⟩ := ih hrest
    cases scope with
    | dict kvs =>
      obtain ⟨token, htoken, -⟩ := isName_iff.mp hscope
      have hitem : (Value.dict kvs).item "token" = .ok (.str token) :=
        Value.item_eq_field htoken (by simp)
      simp only [defaults, Value.get, ok_bind, hitem, htokens]
      split
      · exact ⟨_, rfl⟩
      · exact ⟨_, rfl⟩
    | _ => simp [isScope] at hscope

/-- What a module declares as scopes has the right shape. -/
theorem scopes_of_loadModule {path : String} {file : ModuleFile} {tools scopes : List Value}
    (h : loadModule path file = .ok (tools, scopes)) : scopes.all isScope = true := by
  unfold loadModule at h
  split at h
  · simp at h
  · simp at h
  · split at h
    · split at h
      · split at h
        next hall =>
          obtain ⟨-, rfl⟩ := Prod.mk.inj (Except.ok.inj h)
          exact hall
        · simp at h
      · simp at h
    · simp at h

/-- Wiring a device. -/
theorem along_wire {positions : List Value} {device : String} {scopes : List Value}
    (declared : scopes.all isScope = true) (allowed : w.Grants device) (h : Clear w start os) :
    wp (contract w) (wire positions device scopes) (fun start _ os' => Clear w start os') start os := by
  refine wp_forEach h fun position _ start os h => ?_
  simp only [wp_bind, wp_ofExcept]
  cases htokens : defaults scopes with
  | error error => exact h
  | ok tokens =>
    refine wp_forEach h fun token hmem start os h => ?_
    obtain ⟨name, rfl⟩ := defaults_str declared htokens token hmem
    exact along_grant allowed h

/-- What the Authority is told about a registered identity. -/
def registration (tools scopes : Value) (agent : Bool) (position : Value) : Info :=
  ⟨(tools.orElse (.list [])).orElse (.list []), (scopes.orElse (.list [])).orElse (.list []), agent,
    position⟩

/-- The Authority has been told. -/
def enrolled (os : AgentOS) (identity : String) (info : Info) : AgentOS :=
  { os with authority := os.authority.enroll identity info }

/-- The rule for `register`: it refuses, or the constructor of the process raises and only an
unused handle and the Authority's entry remain, or a process is running. -/
theorem wp_register {c : Contract AgentOS} {identity : String} {spawn : Spawn} {tools scopes : Value}
    {agent : Bool} {position : Value} {Q : AgentOS → Except Exc Unit → AgentOS → Prop}
    (hno : ∀ error, error.caught = true → agent = true ∧ position.truthy = false ∨
      illegal identity = true → Q start (.error error) os)
    (horphan : ∀ error, illegal identity = false → spawn.call = .error error → Q start (.error error)
      ((os.enrolled identity (registration tools scopes agent position)).addHandle identity spawn))
    (hyes : ∀ spec, illegal identity = false → spawn.call = .ok spec → Q start (.ok ())
      ((os.enrolled identity (registration tools scopes agent position)).spawned identity spawn spec
        agent)) :
    wp c (register identity spawn tools scopes agent position) Q start os := by
  unfold register
  split
  next h => exact hno _ rfl (Or.inl ⟨h.1, by simpa using h.2⟩)
  split
  next h => exact hno _ rfl (Or.inr h)
  next hlegal =>
  simp only [wp_bind, wp_askAuthority, Authority.respond_register, wp_get, wp_modify, ensureProcess,
    addHandle, Function.update_self, wp_ofExcept]
  cases hcall : spawn.call with
  | error error => exact horphan error (Bool.of_not_eq_true hlegal) hcall
  | ok spec => exact hyes spec (Bool.of_not_eq_true hlegal) hcall

/-- Registering an identity. -/
theorem along_register {identity : String} {spawn : Spawn} {tools scopes : Value} {agent : Bool}
    {position : Value} (named : spawn.identity = identity) (allowed : os.Spawns identity spawn w)
    (h : Clear w start os) :
    wp (contract w) (register identity spawn tools scopes agent position)
      (fun start _ os' => Clear w start os') start os := by
  have hnext := h.act (.enroll identity (registration tools scopes agent position)) rfl
  exact wp_register (fun _ _ _ => h) (fun _ _ _ => hnext.act (.orphan identity spawn) rfl)
    fun _ legal call => hnext.act (.spawn legal call named allowed) rfl

/-- Nothing is born in a steady change. -/
theorem LiveSince.steady {entry os os' : AgentOS} (h : LiveSince entry os) (hs : Steady os os') :
    LiveSince entry os' := by
  intro pid halive
  obtain ⟨-, hspec, hold⟩ := hs.procs pid
  obtain ⟨hentry, hsame⟩ := h pid (hold halive)
  exact ⟨hentry, hspec.trans hsame⟩

/-- A handle has been taken out of `entities` and its process is being terminated. -/
structure Retiring (before : AgentOS) (identity : String) (handle pid : ℕ) (os : AgentOS) : Prop where
  retiring : os.retiring = some handle
  process : (os.handles handle).process = some pid
  named : (os.handles handle).identity = identity
  entities : os.entities = Function.update before.entities identity none
  live : LiveSince before os

/-- Nothing but the retiring handler ends a retirement. -/
theorem Retiring.steady {before os os' : AgentOS} {identity : String} {handle pid : ℕ}
    (h : Retiring before identity handle pid os) (hs : Steady os os') :
    Retiring before identity handle pid os' :=
  ⟨hs.retiring.trans h.retiring, hs.handles ▸ h.process, hs.handles ▸ h.named,
    hs.entities.trans h.entities, h.live.steady hs⟩

/-- The request to stop can always be reported. -/
theorem reported_terminateEvent (identity : String) : reported (terminateEvent identity) = .ok () := by
  simp [reported, terminateEvent, systemRequest, Value.get, List.lookup_cons, pure, Except.pure]

/-- The rule for `retire`: a property that lasts while the kernel waits, and that is kept by
each step of the retirement, holds when the name is free and the process is dead. -/
theorem wp_retire {c : Contract AgentOS} {identity : String} {handle pid : ℕ}
    {I : AgentOS → AgentOS → Prop} {Q : AgentOS → Except Exc Unit → AgentOS → Prop}
    (hidentity : (os.handles handle).identity = identity)
    (hpid : (os.handles handle).process = some pid) (h : I start (os.remove identity handle))
    (hwait : ∀ {start s}, I start s → c.wait start s)
    (hresume : ∀ {start s s'}, I start s → c.rely start s s' → I s' s' ∧ Steady s s')
    (hsignal : ∀ {start s}, Retiring os identity handle pid s → I start s →
      I start (s.push pid (terminateEvent identity)))
    (hkill : ∀ {start s}, Retiring os identity handle pid s → I start s → I start (s.kill pid))
    (hQ : ∀ start s, Retiring os identity handle pid s → (s.procs pid).alive = false → I start s →
      Q start (.ok ()) (s.forget handle)) :
    wp c (retire identity handle) Q start os := by
  have hretiring : Retiring os identity handle pid (os.remove identity handle) :=
    ⟨rfl, hpid, hidentity, rfl, fun _ halive => ⟨halive, rfl⟩⟩
  -- the two joins
  have hjoin {start' s : AgentOS} (hs : I start' s) (hr : Retiring os identity handle pid s) :
      wp c (do await fun _ => true; killIfAlive pid; modify fun os => os.forget handle) Q start' s := by
    simp only [wp_bind, wp_await]
    refine ⟨hwait hs, fun s₁ hrely _ => ?_⟩
    obtain ⟨hs₁, hsteady⟩ := hresume hs hrely
    have hr₁ := hr.steady hsteady
    simp only [killIfAlive, wp_bind, wp_get]
    split
    · have hkilled := hkill hr₁ hs₁
      simp only [wp_bind, wp_modify, wp_await]
      refine ⟨hwait hkilled, fun s₂ hrely dead => ?_⟩
      obtain ⟨hs₂, hsteady⟩ := hresume hkilled hrely
      have hr₂ := (hr₁.steady (Still.kill _ _).toSteady).steady hsteady
      exact hQ s₂ s₂ hr₂ (by simpa using dead) hs₂
    next halive => exact hQ s₁ s₁ hr₁ (Bool.of_not_eq_true halive) hs₁
  simp only [retire, terminate]
  rw [wp_bind, wp_modify, wp_bind, wp_get]
  simp only
  rw [show ((os.remove identity handle).handles handle).process = some pid from hpid,
    show ((os.remove identity handle).handles handle).identity = identity from hidentity]
  change wp c (deliver handle _ >>= _) Q start (os.remove identity handle)
  rw [wp_bind, wp_deliver (os.remove identity handle) hpid]
  split
  · exact hjoin (hsignal hretiring h) (hretiring.steady (Still.push _ _ _).toSteady)
  · rw [reported_terminateEvent]
    exact hjoin h hretiring

/-- Retiring a registered handle: afterwards its name is free and its process is dead. -/
theorem along_retire {identity : String} {handle : ℕ} {Q : AgentOS → Except Exc Unit → AgentOS → Prop}
    (h : Clear w start os) (entity : os.entities identity = some (.process handle))
    (allowed : w.Stops)
    (hQ : ∀ start' os', Clear w start' os' →
      os'.entities = Function.update os.entities identity none → LiveSince os os' →
      Q start' (.ok ()) os') :
    wp (contract w) (retire identity handle) Q start os := by
  obtain ⟨-, hidentity, pid, hpid⟩ := h.wired.registered entity
  have hremove := h.toAlong.act (.remove entity h.vacant allowed)
  refine wp_retire hidentity hpid hremove id (fun {start s s'} hs hbackground => ?_)
    (fun hr hs => ?_) (fun hr hs => hs.act (.kill hr.retiring hr.process allowed))
    fun start' s hr dead hs => ?_
  · have hcalm := calm_of_background hbackground hs.wired
    exact ⟨⟨.refl, hcalm.wired hs.wired⟩, hcalm.steady⟩
  · have hsignal := hs.act (.signal hr.retiring hr.process allowed)
    rwa [hr.named] at hsignal
  · refine hQ start' _ ⟨hs.act (.forget hr.retiring hr.process dead ?_), rfl⟩ hr.entities ?_
    · rw [hr.named, hr.entities, Function.update_self]
    · exact fun pid halive => hr.live pid halive

/-- Nothing has happened since. -/
theorem LiveSince.refl (os : AgentOS) : LiveSince os os := fun _ halive => ⟨halive, rfl⟩

/-- A command is served; its event has been recorded, nothing else has happened. -/
structure Serving (start entry : AgentOS) (producer : Producer) (event payload : Value)
    (command : Command) : Prop where
  clear : Clear (.item entry producer event) start (entry.observe producer event event)
  source_eq : ∃ source, event.field "source" = .str source
  payload_eq : event.field "payload" = payload
  command_eq : commandOf event = some command

section Serving

variable {entry : AgentOS} {producer : Producer} {event payload : Value}

/-- Freeing the name of a device before it is installed again. -/
theorem along_retireInstance (os : AgentOS) {identity : String} {Q : AgentOS → Except Exc Unit → AgentOS → Prop}
    (h : Clear (.item entry producer event) start os) (allowed : Installs entry event identity)
    (hno : ∀ error, error.caught = true → Q start (.error error) os)
    (hyes : ∀ start' os', Clear (.item entry producer event) start' os' →
      os'.entities identity = none → LiveSince os os' → Q start' (.ok ()) os') :
    wp (contract (.item entry producer event)) (retireInstance identity) Q start os := by
  simp only [retireInstance, wp_bind, wp_get]
  split
  next handle entity =>
    rw [wp_bind]
    refine along_retire h entity (Or.inl ⟨identity, allowed⟩) fun start' os' h' hentities hlive => ?_
    rw [wp_unregister]
    refine hyes start' _ (h'.act (.withdraw (Or.inl allowed)) rfl) ?_ hlive
    simp [hentities]
  · exact hno _ rfl
  next hfree => exact hyes start os h hfree (.refl os)

/-- The body of `_install`. -/
theorem along_installBody (h : Serving start entry producer event payload .installDevice) :
    wp (contract (.item entry producer event)) (installBody event payload)
      (fun start _ os' => Clear (.item entry producer event) start os') start
      (entry.observe producer event event) := by
  obtain rfl := h.payload_eq
  simp only [installBody, wp_bind]
  refine wp_installRequest (fun _ _ => h.clear) fun identity grants hchecked => ?_
  cases hload : loadModule ((entry.observe producer event event).sourceFile identity)
      ((entry.observe producer event event).disk.module identity) with
  | error error => exact h.clear
  | ok declared =>
    obtain ⟨tools, scopes⟩ := declared
    have allowed : Installs entry event identity :=
      ⟨h.command_eq, ⟨grants, hchecked.of_authority rfl⟩, tools, scopes, hload⟩
    simp only [wp_modify]
    have hhome := h.clear.act (.disk ((entry.observe producer event event).makeHome identity).disk) rfl
    refine along_retireInstance _ hhome allowed (fun _ _ => hhome) fun start' os' h' hfree hlive => ?_
    simp only [wp_ofExcept]
    cases (event.field "payload").get "options" .none with
    | error error => exact h'
    | ok options =>
      simp only [wp_get]
      have hspawns : os'.Spawns identity (.device identity (os'.sourceFile identity)
          (options.orElse (.dict []))) (.item entry producer event) :=
        ⟨hfree, h'.vacant, hlive, Or.inl ⟨_, rfl, allowed⟩⟩
      refine wp_imp (along_register rfl hspawns h') fun start r os'' h'' => ?_
      cases r with
      | error error => exact h''
      | ok _ =>
        simp only
        refine wp_imp (along_wire (scopes_of_loadModule hload) (Or.inl allowed) h'')
          fun start r os'' h'' => ?_
        cases r with
        | error error => exact h''
        | ok _ => exact along_injectAll h''

/-- Granting the maintenance scopes again. -/
theorem along_regrant {w : Warrant} {identity : String} {grants : List Value}
    (allowed : w.Grants identity) (h : Clear w start os) :
    wp (contract w) (regrant identity grants) (fun start _ os' => Clear w start os') start os := by
  refine wp_forEach h fun granted _ start os h => ?_
  simp only [wp_bind, wp_ofExcept]
  cases granted.item "token" with
  | error error => exact h
  | ok token =>
    simp only
    split
    next hmaintain =>
      obtain ⟨name, rfl⟩ : ∃ name, token = .str name := by
        rcases Bool.or_eq_true_iff.mp hmaintain with h | h <;> exact ⟨_, Value.isStr_iff.mp h⟩
      simp only [wp_bind, wp_ofExcept]
      cases granted.item "position" with
      | error error => exact h
      | ok position => exact along_grant allowed h
    · exact h

/-- The body of `_uninstall`. -/
theorem along_uninstallBody (h : Serving start entry producer event payload .uninstallDevice) :
    wp (contract (.item entry producer event)) (uninstallBody event payload)
      (fun start _ os' => Clear (.item entry producer event) start os') start
      (entry.observe producer event event) := by
  obtain rfl := h.payload_eq
  simp only [uninstallBody, wp_bind]
  refine wp_uninstallRequest (fun _ _ => h.clear) fun identity handle hchecked => ?_
  have allowed : Uninstalls entry event identity :=
    ⟨h.command_eq, handle, ⟨hchecked.identity_eq, hchecked.authorised, hchecked.entity,
      hchecked.device⟩⟩
  simp only
  refine along_retire h.clear hchecked.entity (Or.inr (Or.inl ⟨identity, allowed⟩))
    fun start' os' h' hentities hlive => ?_
  simp only [wp_askAuthority, Authority.respond_deviceGrants, wp_unregister, wp_ofExcept]
  have hwithdrawn := h'.act (.withdraw (Or.inr allowed)) rfl
  simp only [Authority.answer, applicationEvent, Value.item, List.lookup_cons]
  refine wp_imp (along_regrant (Or.inr (Or.inl allowed)) hwithdrawn) fun start r os'' h'' => ?_
  cases r with
  | error error => exact h''
  | ok _ => exact along_injectAll h''

/-- The body of `_maintenance_session`. -/
theorem along_maintenanceBody (h : Serving start entry producer event payload .maintenanceSession) :
    wp (contract (.item entry producer event)) (maintenanceBody event payload)
      (fun start _ os' => Clear (.item entry producer event) start os') start
      (entry.observe producer event event) := by
  obtain rfl := h.payload_eq
  simp only [maintenanceBody, wp_bind]
  refine wp_maintenanceRequest (fun _ _ => h.clear) fun target actor handle position hchecked => ?_
  have allowed : Maintains entry event actor target :=
    ⟨h.command_eq, handle, position, ⟨hchecked.target_eq, hchecked.legal, hchecked.actor_eq,
      hchecked.agent, hchecked.authorised, hchecked.unloaded, hchecked.home, hchecked.entity,
      hchecked.positioned⟩⟩
  simp only
  refine along_retire h.clear hchecked.entity (Or.inr (Or.inr ⟨actor, target, allowed⟩))
    fun start' os' h' hentities hlive => ?_
  have hne : target ≠ actor := by
    rintro rfl
    exact absurd (hchecked.entity.symm.trans hchecked.unloaded) (by simp)
  refine along_register rfl ⟨?_, h'.vacant, hlive, Or.inr ⟨target, rfl, hne, ?_, allowed⟩⟩ h'
  · simp [hentities]
  · simpa [hentities, hne] using hchecked.unloaded

/-- The body of `_scope`. -/
theorem along_scopeBody (grants : Bool)
    (h : Serving start entry producer event payload (if grants then .grantScope else .revokeScope)) :
    wp (contract (.item entry producer event)) (scopeBody grants event payload)
      (fun start _ os' => Clear (.item entry producer event) start os') start
      (entry.observe producer event event) := by
  obtain rfl := h.payload_eq
  simp only [scopeBody, wp_bind]
  refine wp_scopeRequest (fun _ _ => h.clear) fun position device token hchecked => ?_
  have hcommand : commandOf event = some .grantScope ∨ commandOf event = some .revokeScope := by
    have := h.command_eq
    cases grants
    · exact Or.inr this
    · exact Or.inl this
  have allowed : (Warrant.item entry producer event).Grants device :=
    Or.inr (Or.inr ⟨hcommand, position, token, ⟨hchecked.position_eq, hchecked.device_eq,
      hchecked.token_eq, hchecked.granting, hchecked.delegated⟩⟩)
  cases grants with
  | true =>
    simp only [if_true, wp_askAuthority, Authority.respond_grant, Value.key_str, ok_bind]
    exact along_injectAll (h.clear.act (.addGrant allowed) rfl)
  | false =>
    simp only [Bool.false_eq_true, if_false, wp_askAuthority, Authority.respond_revoke]
    exact along_injectAll (h.clear.act (.dropGrant allowed) rfl)

/-- A handler's `try`. -/
theorem along_attempt {w : Warrant} {body : Task Unit}
    (h : wp (contract w) body (fun start _ os' => Clear w start os') start os) :
    wp (contract w) (attempt body) (fun start _ os' => Clear w start os') start os := by
  simp only [attempt, wp_catching, wp_bind]
  refine wp_imp h fun start r os' h' => ?_
  cases r with
  | ok _ => exact h'
  | error error =>
    simp only
    split
    · exact h'
    · exact h'

/-- The acknowledgement. -/
theorem along_acknowledge {w : Warrant} {fields : List (String × Value)} {error : Option String}
    (spoken : ∃ command ∈ spokenCommands, fields.lookup "command" = some (.str command))
    (hsource : (event.field "source").hashable = true) (h : Clear w start os) :
    wp (contract w) (acknowledge event fields error) (fun start _ os' => Clear w start os') start os := by
  obtain ⟨command, hmem, hcommand⟩ := spoken
  simp only [acknowledge, wp_bind, wp_ofExcept]
  cases hitem : event.item "source" with
  | error error => exact h
  | ok source =>
    rw [Value.field_of_item hitem] at hsource
    refine along_kernelEmit (Or.inl rfl) ⟨hsource, Or.inr ⟨command, hmem, ?_⟩⟩ h
    simp [Value.field, List.lookup_append, hcommand]

/-- A handler is its body in a `try`, and then the acknowledgement. -/
theorem along_handler {w : Warrant} {body : Task Unit} {fields : Option String → List (String × Value)}
    (spoken : ∀ error, ∃ command ∈ spokenCommands, (fields error).lookup "command" = some (.str command))
    (hsource : (event.field "source").hashable = true)
    (hbody : wp (contract w) body (fun start _ os' => Clear w start os') start os) :
    wp (contract w) (do let error ← attempt body; acknowledge event (fields error) error)
      (fun start _ os' => Clear w start os') start os :=
  wp_seq (along_attempt hbody) (fun _ _ _ h => h) fun _ error _ h =>
    along_acknowledge (spoken error) hsource h

/-- The body of the handler of a command. -/
def Command.body (event payload : Value) : Command → Task Unit
  | .installDevice => installBody event payload
  | .uninstallDevice => uninstallBody event payload
  | .maintenanceSession => maintenanceBody event payload
  | .grantScope => scopeBody true event payload
  | .revokeScope => scopeBody false event payload

/-- What the acknowledgement of a command says besides the verdict. -/
def Command.fields (event payload : Value) (error : Option String) : Command → List (String × Value)
  | .installDevice =>
    [("command", .str "device_installed"), ("identity", payload.field "identity")]
  | .uninstallDevice =>
    [("command", .str "device_uninstalled"), ("identity", payload.field "identity")]
  | .maintenanceSession =>
    [("command", .str "maintenance_session_started"),
      ("identity", if error.isNone then payload.field "target_device" else event.field "source")]
  | .grantScope => [("command", .str "scope_granted"), ("position", payload.field "position"),
      ("device", payload.field "device")]
  | .revokeScope => [("command", .str "scope_revoked"), ("position", payload.field "position"),
      ("device", payload.field "device")]

/-- Acknowledgements are among the things the kernel says. -/
theorem Command.spoken (command : Command) (event payload : Value) (error : Option String) :
    ∃ name ∈ spokenCommands, (command.fields event payload error).lookup "command" = some (.str name) := by
  cases command
  case installDevice => exact ⟨"device_installed", by decide, rfl⟩
  case uninstallDevice => exact ⟨"device_uninstalled", by decide, rfl⟩
  case maintenanceSession => exact ⟨"maintenance_session_started", by decide, rfl⟩
  case grantScope => exact ⟨"scope_granted", by decide, rfl⟩
  case revokeScope => exact ⟨"scope_revoked", by decide, rfl⟩

/-- All commands are served in one way. -/
theorem serve_eq (command : Command) {source : String} (hitem : event.item "payload" = .ok payload)
    (hdict : payload.isDict = true) (hsource : event.field "source" = .str source) :
    serve command event = (do
      let error ← attempt (command.body event payload)
      acknowledge event (command.fields event payload error) error) := by
  have hget (key : String) : payload.get key .none = .ok (payload.field key) := by
    cases payload with
    | dict kvs => rfl
    | _ => simp [Value.isDict] at hdict
  have hactor : event.item "source" = .ok (event.field "source") :=
    Value.item_eq_field rfl (by simp [hsource])
  cases command with
  | installDevice =>
    simp only [serve, install, hitem, hget, ofExcept_ok_bind]
    rfl
  | uninstallDevice =>
    simp only [serve, uninstall, hitem, hget, ofExcept_ok_bind]
    rfl
  | maintenanceSession =>
    simp only [serve, maintenanceSession, hitem, hget, hactor, ofExcept_ok_bind]
    rfl
  | grantScope =>
    simp only [serve, scope, hitem, hget, ofExcept_ok_bind]
    rfl
  | revokeScope =>
    simp only [serve, scope, hitem, hget, ofExcept_ok_bind]
    rfl

/-- The body of a handler performs acts only. -/
theorem along_body {command : Command} (h : Serving start entry producer event payload command) :
    wp (contract (.item entry producer event)) (command.body event payload)
      (fun start _ os' => Clear (.item entry producer event) start os') start
      (entry.observe producer event event) := by
  cases command with
  | installDevice => exact along_installBody h
  | uninstallDevice => exact along_uninstallBody h
  | maintenanceSession => exact along_maintenanceBody h
  | grantScope => exact along_scopeBody true h
  | revokeScope => exact along_scopeBody false h

/-- A command stands in a dictionary. -/
theorem isDict_of_commandOf {command : Command} (h : commandOf event = some command) :
    (event.field "payload").isDict = true := by
  unfold commandOf at h
  cases hpayload : event.field "payload" with
  | dict kvs => rfl
  | _ =>
    rw [hpayload] at h
    simp [Value.field, Command.ofValue, Value.isStr] at h

/-- Serving a command. -/
theorem along_serve {command : Command} (h : Serving start entry producer event payload command)
    (hitem : event.item "payload" = .ok payload) :
    wp (contract (.item entry producer event)) (serve command event)
      (fun start _ os' => Clear (.item entry producer event) start os') start
      (entry.observe producer event event) := by
  obtain ⟨source, hsource⟩ := h.source_eq
  have hdict : payload.isDict = true := h.payload_eq ▸ isDict_of_commandOf h.command_eq
  have hhashable : (event.field "source").hashable = true := by
    rw [hsource]
    rfl
  rw [serve_eq command hitem hdict hsource]
  exact along_handler (command.spoken event payload) hhashable (along_body h)

/-- Processing an event performs acts only, and retires nothing when it ends. -/
theorem along_processEvent (hw : entry.Wired) (vacant : entry.retiring = none) :
    wp (contract (.item entry producer event)) (processEvent producer event)
      (fun start _ os' => Clear (.item entry producer event) start os') entry entry := by
  have hentry : Clear (.item entry producer event) entry entry := ⟨⟨.refl, hw⟩, vacant⟩
  refine wp_processWith hw (fun r os' processed => ?_) fun source valid accepted => ?_
  · exact hentry.act (.route rfl processed) processed.still.retiring
  have haccept := hentry.act (.accept rfl valid accepted) rfl
  simp only [onKernelWith, wp_bind, wp_ofExcept]
  cases hitem : event.item "payload" with
  | error error => exact haccept
  | ok payload =>
    simp only
    cases hget : payload.get "command" .none with
    | error error => exact haccept
    | ok value =>
      simp only
      split
      next command hcommand =>
        have hpayload := Value.field_of_item hitem
        refine along_serve ⟨haccept, ⟨source, accepted.source_eq⟩, hpayload, ?_⟩ hitem
        rw [commandOf, hpayload, Value.field_of_get hget, hcommand]
      · exact haccept

end Serving

end AgentOS

end MyTeam.Kernel

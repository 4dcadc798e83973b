import MyTeam.Kernel.Buckets
import MyTeam.Kernel.Runs

/-!
# The Authority's tables

The kernel grants tokens that are strings on devices that are strings. As long as nobody
else adds grants, the scopes of a position can always be sorted, so that the Authority never
fails to tell what an identity may do.
-/

namespace MyTeam.Kernel

open MyTeam.Py MyTeam.Async Coroutine Relation

namespace Authority

/-- Devices and tokens of the grants are strings. -/
def Lettered (a : Authority) : Prop :=
  ∀ grant ∈ a.grants, ∃ device token, grant.device = .str device ∧ grant.token = .str token

/-- Strings can be compared. -/
theorem ltPair_ok (device token device' token' : String) :
    ∃ b, Key.ltPair (.str device, .str token) (.str device', .str token') = .ok b := by
  simp only [Key.ltPair]
  split
  · split
    · exact ⟨_, rfl⟩
    · exact ⟨_, rfl⟩
  · exact ⟨_, rfl⟩

/-- The Authority can tell what a name may do. -/
theorem Lettered.authContext {a : Authority} (h : a.Lettered) (name : String) :
    ∃ auth, a.authContext (.str name) = .ok auth := by
  obtain ⟨position, hposition⟩ : ∃ position, a.positionOf (.str name) = .ok position := by
    simp [positionOf, pure, Except.pure]
  have hpairs : ∀ pair ∈ a.scopesOf position, ∃ device token, pair = (.str device, .str token) := by
    intro pair hpair
    cases position with
    | str s =>
      obtain ⟨grant, hgrant, rfl⟩ := List.mem_map.mp hpair
      obtain ⟨device, token, hdevice, htoken⟩ := h grant (List.mem_filter.mp hgrant).1
      exact ⟨device, token, by rw [hdevice, htoken]⟩
    | _ => simp [scopesOf] at hpair
  obtain ⟨pairs, hsorted⟩ : ∃ pairs, sorted Key.ltPair (a.scopesOf position) = .ok pairs := by
    refine sorted_ok fun x hx y hy => ?_
    obtain ⟨device, token, rfl⟩ := hpairs x hx
    obtain ⟨device', token', rfl⟩ := hpairs y hy
    exact ltPair_ok device token device' token'
  exact ⟨_, by rw [Authority.authContext, hposition, ok_bind, hsorted]; rfl⟩

/-- A request for a grant that is not made of strings, from the source that may ask. -/
def Taints (event : Value) : Prop :=
  Mutates event ["grant_request"] ∧ ¬ ∃ device token,
    (event.field "payload").field "device" = .str device ∧
      (event.field "payload").field "token" = .str token

/-- Answering keeps devices and tokens strings. -/
theorem Lettered.respond {a a' : Authority} {event reply : Value} (h : a.Lettered)
    (hrespond : a.respond event = .ok (a', reply)) (hclean : ¬ Taints event) : a'.Lettered := by
  intro grant hmem
  rcases (respond_cases hrespond).2.added grant hmem with hold | ⟨hmutates, hrequested⟩
  · exact h grant hold
  · obtain ⟨device, token, hdevice, htoken⟩ : ∃ device token,
        (event.field "payload").field "device" = .str device ∧
          (event.field "payload").field "token" = .str token := by
      by_contra hnone
      exact hclean ⟨hmutates, hnone⟩
    obtain ⟨position, -, hrequested⟩ := bind_eq_ok.mp hrequested
    obtain ⟨positionKey, -, hrequested⟩ := bind_eq_ok.mp hrequested
    obtain ⟨deviceValue, hitemDevice, hrequested⟩ := bind_eq_ok.mp hrequested
    obtain ⟨tokenValue, hitemToken, hrequested⟩ := bind_eq_ok.mp hrequested
    obtain ⟨deviceKey, hdeviceKey, hrequested⟩ := bind_eq_ok.mp hrequested
    obtain ⟨tokenKey, htokenKey, hrequested⟩ := bind_eq_ok.mp hrequested
    obtain rfl := Except.ok.inj hrequested
    rw [Value.field_of_item hitemDevice] at hdevice
    rw [Value.field_of_item hitemToken] at htoken
    subst hdevice htoken
    exact ⟨device, token, (Except.ok.inj hdeviceKey).symm, (Except.ok.inj htokenKey).symm⟩

end Authority

namespace AgentOS

variable {os os' : AgentOS}

/-- Nothing that waits for the Authority asks for other grants. -/
def Untainted : Device → Value → Prop
  | .authority, event => ¬ Authority.Taints event
  | .journal, _ => True

/-- Acts keep devices and tokens strings. -/
theorem lettered_act {w : Warrant} (h : os.authority.Lettered) (ha : Act w os os') :
    os'.authority.Lettered := by
  cases ha with
  | route warrant processed => exact processed.aside.authority ▸ h
  | emit known spoken emitted => exact emitted.aside.authority ▸ h
  | injected built => exact fun grant hmem => h grant ((Authority.buildInject_cases built).2.2 ▸ hmem)
  | withdraw allowed => exact fun grant hmem => h grant (List.mem_filter.mp hmem).1
  | @addGrant position device token allowed =>
    intro grant hmem
    rcases List.mem_insert_iff.mp hmem with rfl | hmem
    · exact ⟨device, token, rfl, rfl⟩
    · exact h grant hmem
  | dropGrant allowed => exact fun grant hmem => h grant (List.mem_filter.mp hmem).1
  | _ => exact h

/-- An answered event is one that waited. -/
theorem lettered_respondAs {device : Device} {event : Value} (h : os.authority.Lettered)
    (hclean : Untainted device event) : (os.respondAs device event).1.authority.Lettered := by
  cases device with
  | authority =>
    simp only [respondAs]
    split
    next authority reply hrespond => exact h.respond hrespond hclean
    · exact h
  | journal =>
    simp only [respondAs]
    split <;> exact h

/-- What happens beside the event loop keeps devices and tokens strings. -/
theorem lettered_background {P : Device → Value → Prop} (h : os.authority.Lettered) (hw : os.Wired)
    (hfiled : Filed P os) (hclean : ∀ device event, P device event → Untainted device event)
    (hb : Background os os') : os'.authority.Lettered := by
  cases hb with
  | round serves =>
    cases rounds_of_round hw serves with
    | @silent source job tasks queued queues =>
      exact lettered_respondAs h (hclean _ _ (hfiled _ _ ⟨source, job, queued, rfl⟩).2)
    | @emitting source job tasks done target payload r os₁ queued queues spoken emitted ends =>
      have hanswered := lettered_respondAs h (hclean _ _ (hfiled _ _ ⟨source, job, queued, rfl⟩).2)
      exact emitted.aside.authority ▸ hanswered
  | _ => exact h

/-- An accepted event can be enriched. -/
theorem enriched_ok {event : Value} {source target : String} (h : os.authority.Lettered)
    (accepted : Accepted os.registered event source target) : ∃ event', os.enriched event = .ok event' := by
  have htarget : event.item "target" = .ok (.str target) :=
    Value.item_eq_field accepted.target_eq (by simp)
  have hsource : event.item "source" = .ok (.str source) :=
    Value.item_eq_field accepted.source_eq (by simp)
  obtain ⟨kvs, rfl⟩ := accepted.dict
  obtain ⟨auth, hauth⟩ := h.authContext source
  simp only [enriched, htarget, ok_bind]
  split
  · exact ⟨_, rfl⟩
  simp only [hsource, ok_bind]
  split
  · exact ⟨_, rfl⟩
  · rw [hauth]
    exact ⟨_, rfl⟩

/-- The commands that change the Authority's tables. -/
def tableCommands : List String :=
  ["register_request", "unregister_request", "grant_request", "revoke_request"]

/-- Nothing that waits for the Authority changes its tables. -/
def Unmeddling : Device → Value → Prop
  | .authority, event => ¬ Authority.Mutates event tableCommands
  | .journal, _ => True

/-- The kernel does not meddle in this way. -/
theorem says_unmeddling : Says Unmeddling := by
  intro device source target payload known _
  cases device with
  | authority => exact not_mutates_emission known
  | journal => trivial

/-- Answering what does not change the tables does not change them. -/
theorem respondAs_tables (os : AgentOS) {device : Device} {event : Value} (h : Unmeddling device event) :
    (os.respondAs device event).1.authority.identities = os.authority.identities ∧
      (os.respondAs device event).1.authority.grants = os.authority.grants := by
  cases device with
  | authority =>
    simp only [respondAs]
    split
    next authority reply hrespond =>
      have hanswered := (Authority.respond_cases hrespond).2
      have hmutates {commands : List String} (hsub : commands ⊆ tableCommands)
          (hm : Authority.Mutates event commands) : Authority.Mutates event tableCommands :=
        ⟨hm.1, hm.2.imp fun _ hcommand => ⟨hsub hcommand.1, hcommand.2⟩⟩
      exact ⟨hanswered.identities.resolve_right fun hm => h (hmutates (by decide) hm),
        hanswered.grants.resolve_right fun hm => h (hmutates (by decide) hm)⟩
    · exact ⟨rfl, rfl⟩
  | journal =>
    simp only [respondAs]
    split <;> exact ⟨rfl, rfl⟩

/-- Nothing beside the event loop changes the tables. -/
theorem tables_background (hw : os.Wired) (hfiled : Filed Unmeddling os) (hb : Background os os') :
    os'.authority.identities = os.authority.identities ∧ os'.authority.grants = os.authority.grants := by
  cases hb with
  | round serves =>
    cases rounds_of_round hw serves with
    | @silent source job tasks queued queues =>
      exact respondAs_tables os (hfiled _ _ ⟨source, job, queued, rfl⟩).2
    | @emitting source job tasks done target payload r os₁ queued queues spoken emitted ends =>
      have hsame := emitted.aside.authority
      have htables := respondAs_tables os (hfiled _ _ ⟨source, job, queued, rfl⟩).2
      exact ⟨(congrArg Authority.identities hsame).trans htables.1,
        (congrArg Authority.grants hsame).trans htables.2⟩
  | _ => exact ⟨rfl, rfl⟩

/-- The wiring does not depend on the Authority's tables. -/
theorem wired_setAuthority (hw : os.Wired) (authority : Authority) : AgentOS.Wired { os with authority } :=
  ⟨hw.kernel, hw.kernel_only, hw.kernelMode, hw.registered, hw.process, hw.spec, hw.fresh⟩

end AgentOS

end MyTeam.Kernel

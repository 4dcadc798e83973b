import MyTeam.Kernel.Buckets
import MyTeam.Kernel.Runs

/-!
# The grant table

Grants change when a device is installed or uninstalled and when a scope is granted or
revoked. The scopes of the organisation itself are grants on the device `org`. `_scope` asks
for a delegation of its own before it touches them; `_install` and `_uninstall` treat `org`
like any other device. So the table is bootstrapped from the root only in runs in which
nobody without that delegation installs or uninstalls a device with this name, and in which
nobody called `system` talks to the Authority directly.
-/

namespace MyTeam.Kernel

open MyTeam.Py MyTeam.Async Coroutine Relation

namespace Authority

variable (a : Authority) (identity : Value)

/-- The position of an identity is `root`. -/
def atRoot : Bool :=
  match a.positionOf identity with
  | .ok position => position.isStr "root"
  | .error _ => false

/-- The identity has a position, and the position holds a grant. -/
def holds (device token : String) : Bool :=
  match a.positionOf identity with
  | .error _ | .ok .none => false
  | .ok position => a.grants.any fun grant =>
      position.hasKey grant.position && decide (grant.device = .str device ∧ grant.token = .str token)

/-- The identity may change the grants on this device. -/
def entitled (device : Key) : Bool :=
  identity.isStr "kernel" || a.atRoot identity ||
    if device = .str "org" then a.holds identity "org" "org" && a.holds identity "org" "grant"
    else a.holds identity "org" "grant" || a.holds identity "org" "install" ||
      match device with
      | .str device =>
        a.holds identity device "maintain" || a.holds identity device ("maintain:" ++ device)
      | _ => false

variable {a identity}

/-- A grant of the position is held. -/
theorem holds_of_mem {position : Value} {key : Key} {device token : String}
    (hposition : a.positionOf identity = .ok position) (hsome : position ≠ .none)
    (hkey : position.key = .ok key) (hmem : (⟨key, .str device, .str token⟩ : Grant) ∈ a.grants) :
    a.holds identity device token = true := by
  have hany : a.grants.any (fun grant => position.hasKey grant.position &&
      decide (grant.device = .str device ∧ grant.token = .str token)) = true :=
    List.any_eq_true.mpr ⟨_, hmem, by simp [Value.hasKey, hkey]⟩
  rw [holds, hposition]
  cases position with
  | none => exact absurd rfl hsome
  | _ => exact hany

/-- Who is authorized is at the root or holds the organisation scope. -/
theorem holds_of_authorized {scope : String} (h : a.authorized identity (.str scope) = .ok true) :
    a.atRoot identity = true ∨ a.holds identity "org" scope = true := by
  obtain ⟨position, hposition, h⟩ := bind_eq_ok.mp h
  split at h
  next hroot => exact Or.inl (by rw [atRoot, hposition]; exact hroot)
  split at h
  · simp [pure, Except.pure] at h
  next htruthy =>
  obtain ⟨key, hkey, h⟩ := bind_eq_ok.mp h
  have hmem : (⟨key, .str "org", .str scope⟩ : Grant) ∈ a.grants := by
    simpa [pure, Except.pure] using h
  have hsome : position ≠ .none := by
    rintro rfl
    simp [Value.truthy] at htruthy
  exact Or.inr (holds_of_mem hposition hsome hkey hmem)

/-- A maintenance scope among the scopes. -/
theorem scope_of_maintains {device : String} {scopes : List Value}
    (h : AgentOS.maintains device scopes = .ok true) :
    ∃ scope ∈ scopes, scope.field "device" = .str device ∧
      (scope.field "token" = .str "maintain" ∨ scope.field "token" = .str ("maintain:" ++ device)) := by
  induction scopes with
  | nil => simp [AgentOS.maintains] at h
  | cons scope rest ih =>
    have hrest (h : AgentOS.maintains device rest = .ok true) :
        ∃ scope' ∈ scope :: rest, scope'.field "device" = .str device ∧
          (scope'.field "token" = .str "maintain" ∨
            scope'.field "token" = .str ("maintain:" ++ device)) := by
      obtain ⟨scope', hmem, hscope⟩ := ih h
      exact ⟨scope', List.mem_cons_of_mem _ hmem, hscope⟩
    obtain ⟨granted, hdevice, h⟩ := bind_eq_ok.mp h
    split at h
    next hgranted =>
      obtain ⟨token, htoken, h⟩ := bind_eq_ok.mp h
      obtain ⟨key, hkey, h⟩ := bind_eq_ok.mp h
      split at h
      next hmaintain =>
        refine ⟨scope, List.mem_cons_self, ?_, ?_⟩
        · rw [Value.field_of_get hdevice]
          exact Value.isStr_iff.mp hgranted
        · rw [Value.field_of_get htoken]
          rcases hmaintain with rfl | rfl
          · exact Or.inl (key_eq_str.mp hkey)
          · exact Or.inr (key_eq_str.mp hkey)
      · exact hrest h
    · exact hrest h

/-- Only a string is written as a string. -/
theorem toValue_eq_str {key : Key} {s : String} : key.toValue = .str s ↔ key = .str s := by
  cases key with
  | num q =>
    simp only [Key.toValue]
    split <;> simp
  | _ => simp [Key.toValue]

/-- What an identity's scopes say, its position holds. -/
theorem holds_of_authContext {auth : Value} {device token : String} {scopes : List Value} {scope : Value}
    (h : a.authContext identity = .ok auth) (hscopes : auth.field "scopes" = .list scopes)
    (hmem : scope ∈ scopes) (hdevice : scope.field "device" = .str device)
    (htoken : scope.field "token" = .str token) : a.holds identity device token = true := by
  obtain ⟨position, hposition, h⟩ := bind_eq_ok.mp h
  obtain ⟨pairs, hsorted, h⟩ := bind_eq_ok.mp h
  obtain rfl := Except.ok.inj h
  obtain rfl : _ = scopes := by simpa [Value.field, List.lookup_cons] using hscopes
  obtain ⟨⟨deviceKey, tokenKey⟩, hpair, rfl⟩ := List.mem_map.mp hmem
  obtain rfl : deviceKey = .str device :=
    toValue_eq_str.mp (by simpa [Value.field, List.lookup_cons] using hdevice)
  obtain rfl : tokenKey = .str token :=
    toValue_eq_str.mp (by simpa [Value.field, List.lookup_cons] using htoken)
  have hheld := (sorted_perm hsorted).mem_iff.mp hpair
  cases position with
  | str name =>
    obtain ⟨grant, hgrant, heq⟩ := List.mem_map.mp hheld
    obtain ⟨hmem, hname⟩ := List.mem_filter.mp hgrant
    obtain ⟨hdevice, htoken⟩ := Prod.mk.inj heq
    refine holds_of_mem hposition (by simp) rfl (?_ : (⟨.str name, _, _⟩ : Grant) ∈ a.grants)
    rw [← hdevice, ← htoken, ← of_decide_eq_true hname]
    exact hmem
  | _ => simp [scopesOf] at hheld

/-- Who is authorized for a device other than `org` may change its grants. -/
theorem entitled_of_authorizesDevice {device : String} (hdevice : device ≠ "org")
    (h : a.authorizesDevice identity device = .ok true) : a.entitled identity (.str device) = true := by
  have hother : Key.str device ≠ .str "org" := by simpa using hdevice
  unfold authorizesDevice at h
  split at h
  next hkernel => simp [entitled, hkernel]
  obtain ⟨allowed, hallowed, h⟩ := bind_eq_ok.mp h
  cases allowed with
  | true =>
    rcases holds_of_authorized hallowed with hroot | hholds
    · simp [entitled, hroot]
    · simp [entitled, hother, hholds]
  | false =>
    obtain ⟨auth, hauth, h⟩ := bind_eq_ok.mp h
    obtain ⟨value, hvalue, h⟩ := bind_eq_ok.mp h
    obtain ⟨scopes, hiter, h⟩ := bind_eq_ok.mp h
    obtain ⟨scope, hmem, hscopeDevice, hscopeToken⟩ := scope_of_maintains h
    have hscopes : auth.field "scopes" = .list scopes := by
      obtain ⟨position, -, hrest⟩ := bind_eq_ok.mp hauth
      obtain ⟨pairs, -, hrest⟩ := bind_eq_ok.mp hrest
      obtain rfl := Except.ok.inj hrest
      obtain rfl : _ = value := by simpa [Value.get, List.lookup_cons] using hvalue
      obtain rfl : _ = scopes := by simpa [Value.iter] using hiter
      simp [Value.field, List.lookup_cons]
    rcases hscopeToken with htoken | htoken
    · simp [entitled, hother, holds_of_authContext hauth hscopes hmem hscopeDevice htoken]
    · simp [entitled, hother, holds_of_authContext hauth hscopes hmem hscopeDevice htoken]

/-- Who passes the checks of `_scope` may change the grants. -/
theorem entitled_of_scope {device : String} (hgrant : a.authorized identity (.str "grant") = .ok true)
    (horg : device = "org" → a.authorized identity (.str "org") = .ok true) :
    a.entitled identity (.str device) = true := by
  rcases holds_of_authorized hgrant with hroot | hholds
  · simp [entitled, hroot]
  by_cases hdevice : device = "org"
  · rcases holds_of_authorized (horg hdevice) with hroot | hdelegated
    · simp [entitled, hroot]
    · simp [entitled, hdevice, hholds, hdelegated]
  · simp [entitled, hdevice, hholds]

end Authority

namespace AgentOS

/-- An act changes only grants on devices for which it has a warrant. -/
theorem Act.grants {w : Warrant} {os os' : AgentOS} (h : Act w os os') (grant : Grant) :
    (grant ∈ os'.authority.grants ↔ grant ∈ os.authority.grants) ∨
      ∃ device, grant.device = .str device ∧ w.Grants device := by
  cases h with
  | route warrant processed => exact Or.inl (by rw [processed.aside.authority])
  | emit known spoken emitted => exact Or.inl (by rw [emitted.aside.authority])
  | injected built => exact Or.inl (by rw [(Authority.buildInject_cases built).2.2])
  | @withdraw identity allowed =>
    by_cases hdevice : grant.device = .str identity
    · refine Or.inr ⟨identity, hdevice, ?_⟩
      cases w with
      | setup => exact allowed.elim
      | item entry producer event => exact allowed.imp_right Or.inl
    · exact Or.inl (by simp [Authority.withdraw, hdevice])
  | @addGrant position device token allowed =>
    by_cases hgrant : grant = ⟨position, .str device, .str token⟩
    · exact Or.inr ⟨device, by rw [hgrant], allowed⟩
    · exact Or.inl (by simp [Authority.addGrant, List.mem_insert_iff, hgrant])
  | @dropGrant position token device allowed =>
    by_cases hgrant : grant = ⟨position, .str device, token⟩
    · exact Or.inr ⟨device, by rw [hgrant], allowed⟩
    · exact Or.inl (by simp [Authority.dropGrant, hgrant])
  | _ => exact Or.inl Iff.rfl

/-- The commands of the Authority that change grants. -/
def grantCommands : List String := ["unregister_request", "grant_request", "revoke_request"]

/-- An event for the Authority that passes for a request of the kernel. -/
def Forges (event : Value) : Prop :=
  event.field "target" = .str "authority" ∧ Authority.Mutates event grantCommands

/-- A device called `org` is installed and uninstalled only by those who may change the
organisation scopes, and nobody talks to the Authority in the kernel's name. -/
def guardsOrg (entry : AgentOS) (item : Producer × Value) : Prop :=
  (Installs entry item.2 "org" ∨ Uninstalls entry item.2 "org" →
    entry.authority.entitled (item.2.field "source") (.str "org") = true) ∧ ¬ Forges item.2

/-- While an event is processed, only those grants change that its source may change; nothing
that happens beside the event loop changes any. -/
def Bootstrapped (l : LoopState AgentOS (Producer × Value) Exc) : Prop :=
  (∀ os grant, Background l.state os →
    (grant ∈ os.authority.grants ↔ grant ∈ l.state.authority.grants)) ∧
  match l.control with
  | .idle => True
  | .handling entry item _ => ∀ grant,
    (grant ∈ l.state.authority.grants ↔ grant ∈ entry.authority.grants) ∨
      entry.authority.entitled (item.2.field "source") grant.device = true

/-- Whoever has a warrant may change the grants. -/
theorem entitled_of_grants {entry : AgentOS} {item : Producer × Value} {device : String}
    (hguard : guardsOrg entry item) (h : (Warrant.item entry item.1 item.2).Grants device) :
    entry.authority.entitled (item.2.field "source") (.str device) = true := by
  rcases h with hinstalls | huninstalls | hrescopes
  · by_cases hdevice : device = "org"
    · subst hdevice
      exact hguard.1 (Or.inl hinstalls)
    · obtain ⟨grants, hchecked⟩ := hinstalls.checked
      exact Authority.entitled_of_authorizesDevice hdevice hchecked.authorised
  · by_cases hdevice : device = "org"
    · subst hdevice
      exact hguard.1 (Or.inr huninstalls)
    · obtain ⟨handle, hchecked⟩ := huninstalls.checked
      exact Authority.entitled_of_authorizesDevice hdevice hchecked.authorised
  · obtain ⟨position, token, hchecked⟩ := hrescopes.checked
    exact Authority.entitled_of_scope hchecked.granting hchecked.delegated

/-- Nothing that waits for the Authority passes for a request of the kernel. -/
def Unforged : Device → Value → Prop
  | .authority, event => ¬ Authority.Mutates event grantCommands
  | .journal, _ => True

/-- What the kernel says does not pass for a request. -/
theorem says_unforged : Says Unforged := by
  intro device source target payload known _
  cases device with
  | authority => exact not_mutates_emission known
  | journal => trivial

/-- Answering a request that is not the kernel's changes no grant. -/
theorem respondAs_grants {os : AgentOS} {device : Device} {event : Value} (h : Unforged device event) :
    (os.respondAs device event).1.authority.grants = os.authority.grants := by
  cases device with
  | authority =>
    simp only [respondAs]
    split
    next authority reply hrespond =>
      rcases (Authority.respond_cases hrespond).2.grants with hsame | hmutates
      · exact hsame
      · exact absurd hmutates h
    · rfl
  | journal =>
    simp only [respondAs]
    split <;> rfl

/-- Nothing that happens beside the event loop changes a grant. -/
theorem grants_of_background {os os' : AgentOS} (hw : os.Wired) (hfiled : Filed Unforged os)
    (h : Background os os') : os'.authority.grants = os.authority.grants := by
  cases h with
  | round serves =>
    cases rounds_of_round hw serves with
    | @silent source job tasks queued queues =>
      exact respondAs_grants (hfiled _ _ ⟨source, job, queued, rfl⟩).2
    | @emitting source job tasks done target payload r os₁ queued queues spoken emitted ends =>
      exact (congrArg Authority.grants emitted.aside.authority).trans
        (respondAs_grants (hfiled _ _ ⟨source, job, queued, rfl⟩).2)
  | _ => rfl

/-- In every run that guards the name `org` and the Authority's door, grants change only at
the hands of those who may change them. -/
theorem grants_bootstrapped {config : Value} {l : LoopState AgentOS (Producer × Value) Exc}
    (h : Reachable config (.taking guardsOrg) l) : Bootstrapped l := by
  let J (entry : AgentOS) (item : Producer × Value) (os : AgentOS) : Prop :=
    guardsOrg entry item ∧ Filed Unforged os ∧ ∀ grant,
      (grant ∈ os.authority.grants ↔ grant ∈ entry.authority.grants) ∨
        ∃ device, grant.device = .str device ∧ (Warrant.item entry item.1 item.2).Grants device
  have hboot (os : AgentOS) (hboots : Boots config os) : Filed Unforged os :=
    hboots.invariant filed_new fun hw hfiled ha => hfiled.setup hw says_unforged ha
  have hact {entry os os' : AgentOS} {item : Producer × Value} (hw : os.Wired) (hJ : J entry item os)
      (ha : Act (.item entry item.1 item.2) os os') : J entry item os' := by
    obtain ⟨hguard, hfiled, hgrants⟩ := hJ
    refine ⟨hguard, hfiled.act hw says_unforged ha fun device source _ accepted => ?_, fun grant => ?_⟩
    · cases device with
      | authority => exact fun hmutates => hguard.2 ⟨accepted.target_eq, hmutates⟩
      | journal => trivial
    · rcases ha.grants grant with hsame | hchanged
      · exact (hgrants grant).imp_left hsame.trans
      · exact Or.inr hchanged
  have hwait {entry os os' : AgentOS} {item : Producer × Value} (hw : os.Wired) (hJ : J entry item os)
      (hb : Background os os') : J entry item os' :=
    ⟨hJ.1, hJ.2.1.background hw says_unforged hb, fun grant => by
      rw [grants_of_background hw hJ.2.1 hb]
      exact hJ.2.2 grant⟩
  have hthroughout : Throughout (Filed Unforged) J l := by
    refine h.stepwise hboot (fun hw hI hb => hI.background hw says_unforged hb)
      (fun _ _ hI _ htake => ⟨htake, hI, fun _ => Or.inl Iff.rfl⟩) hact hwait fun _ _ hJ => hJ.2.1
  cases hcontrol : l.control with
  | idle =>
    obtain ⟨hw, -, hfiled⟩ := hthroughout.idle hcontrol
    simp only [Bootstrapped, hcontrol]
    exact ⟨fun os grant hb => by rw [grants_of_background hw hfiled hb], trivial⟩
  | handling entry item progress =>
    obtain ⟨hw, hguard, hfiled, hgrants⟩ := hthroughout.handling hcontrol
    simp only [Bootstrapped, hcontrol]
    refine ⟨fun os grant hb => by rw [grants_of_background hw hfiled hb], fun grant => ?_⟩
    rcases hgrants grant with hsame | ⟨device, hdevice, hwarrant⟩
    · exact Or.inl hsame
    · rw [hdevice]
      exact Or.inr (entitled_of_grants hguard hwarrant)

section Scenario

/-- An agent at the root and one with another position. -/
def orgConfig : Value := .dict [("agents", .list [agentSpec "r" "root", agentSpec "a" "dev"])]

/-- The source of `org` declares a default scope with the token `grant`. -/
def orgDisk : Disk :=
  ⟨fun _ => false, fun _ => .exports none (some (.list [.dict [("token", .str "grant"),
    ("default", .bool true)]])), fun _ => .missing⟩

/-- `r` delegates installation to `dev`. -/
def delegateInstall : List (EventLoop.Move Ambient) :=
  sends 0 (applicationEvent (.str "kernel") [("command", .str "grant_scope"),
    ("position", .str "dev"), ("device", .str "org"), ("token", .str "install")]) ++ [.take]

/-- `a` installs a device called `org`. -/
def installOrg : List (EventLoop.Move Ambient) :=
  sends 1 (applicationEvent (.str "kernel") [("command", .str "install_device"),
    ("identity", .str "org"), ("grants", .list [.str "dev"])]) ++ [.take]

/-- A delegation by the root. -/
theorem grants_bootstrapped_delegation : ∃ l, scenario orgConfig orgDisk delegateInstall = some l ∧
    ⟨.str "dev", .str "org", .str "install"⟩ ∈ l.state.authority.grants ∧ Bootstrapped l := by
  have hplays : (scenario orgConfig orgDisk delegateInstall).any fun l =>
      ⟨.str "dev", .str "org", .str "install"⟩ ∈ l.state.authority.grants := by decide +kernel
  have htaken : (scenarioTaken orgConfig orgDisk delegateInstall).all fun taken =>
      commandOf taken.2.2 = some .grantScope ∧ (taken.2.2.field "source").isStr "system" = false := by
    decide +kernel
  have hallowed : ∀ taken ∈ scenarioTaken orgConfig orgDisk delegateInstall,
      guardsOrg taken.1 taken.2 := by
    intro taken hmem
    obtain ⟨hcommand, hsource⟩ := of_decide_eq_true (List.all_eq_true.mp htaken taken hmem)
    refine ⟨?_, fun hforges => ?_⟩
    · rintro (hinstalls | huninstalls)
      · exact absurd (hcommand.symm.trans hinstalls.carries) (by simp)
      · exact absurd (hcommand.symm.trans huninstalls.carries) (by simp)
    · rw [hforges.2.1] at hsource
      simp [Value.isStr] at hsource
  obtain ⟨l, hplayed, hends⟩ := (Option.any_eq_true _ _).mp hplays
  exact ⟨l, hplayed, of_decide_eq_true hends,
    grants_bootstrapped (reachable_of_scenario hplayed hallowed)⟩

/-- Who may only install gives itself the personnel scope by installing a device called `org`. -/
theorem grant_scope_by_install : ∃ l, Reachable orgConfig .free l ∧ ¬ Bootstrapped l := by
  have hplays : (scenario orgConfig orgDisk (delegateInstall ++ [.settle] ++ installOrg)).any fun l =>
      match l.control with
      | .idle => false
      | .handling entry item _ =>
        decide (⟨.str "dev", .str "org", .str "grant"⟩ ∈ l.state.authority.grants) &&
        decide (⟨.str "dev", .str "org", .str "grant"⟩ ∉ entry.authority.grants) &&
        !entry.authority.entitled (item.2.field "source") (.str "org") := by
    decide +kernel
  obtain ⟨l, hplayed, hends⟩ := (Option.any_eq_true _ _).mp hplays
  refine ⟨l, reachable_free_of_scenario hplayed, fun hbootstrapped => ?_⟩
  obtain ⟨state, control⟩ := l
  cases control with
  | idle => simp at hends
  | handling entry item progress =>
    simp only [Bool.and_eq_true, decide_eq_true_eq, Bool.not_eq_true'] at hends
    obtain ⟨⟨hnow, hbefore⟩, hentitled⟩ := hends
    rcases hbootstrapped.2 ⟨.str "dev", .str "org", .str "grant"⟩ with hsame | hyes
    · exact hbefore (hsame.mp hnow)
    · exact absurd hyes (by simp [hentitled])

end Scenario

end AgentOS

end MyTeam.Kernel

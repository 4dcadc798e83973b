import MyTeam.Kernel.Ledger

/-!
# Reinstalling a device, and uninstalling it first

An installed device can be replaced in one step, or uninstalled and then installed. Both ways
retire the running instance and register a new one, and end with the same identities in the
same order. They differ in what they keep of the grants: uninstalling saves the maintenance
scopes, so that the device can be maintained while it is not running; replacing it drops the
old scopes altogether, and leaves those that the new installation wires.
-/

namespace MyTeam.Kernel

open MyTeam.Py MyTeam.Async MyTeam.Dispatch MyTeam.Agent Coroutine Relation

/-- Whether a module declares nothing. -/
def ModuleFile.plain : ModuleFile → Bool
  | .exports none none => true
  | _ => false

/-- There is one module that declares nothing. -/
theorem ModuleFile.eq_of_plain {file : ModuleFile} (h : file.plain = true) : file = .exports none none := by
  unfold plain at h
  split at h
  · rfl
  · simp at h

namespace AgentOS

variable {config install uninstall event : Value} {device : String} {producer : Producer} {pid : ℕ}
  {entry os direct between later both : AgentOS} {l : LoopState AgentOS (Producer × Value) Exc}

/-- The kernel has carried out a command that came from outside, and has acknowledged that it succeeded, whatever
happened while it waited. -/
structure CarriedOut (entry : AgentOS) (producer : Producer) (event : Value) (os : AgentOS) : Prop where
  outside : ∀ identity, producer ≠ .kernel identity
  ends : (processEvent producer event entry).Ends (ReflTransGen Background) (.ok ()) os
  acknowledged : ∃ ack, os.handled.getLast? = some ack ∧ ack.producer = .kernel "kernel" ∧
    (ack.event.field "payload").field "ok" = .bool true

/-- What a command that succeeded has done. -/
theorem CarriedOut.effect (h : CarriedOut entry producer event os) (hw : entry.Wired)
    (hfiled : Filed (Unasked tableCommands) entry) :
    ∃ T, Effect entry event true T ∧ Course tableCommands (fun _ => True) T os := by
  have hcourse : Course tableCommands (fun _ => True) entry.tables entry :=
    ⟨hw, hfiled, .refl _, rfl, rfl, trivial⟩
  have hwp : wp meanwhile (processEvent producer event)
      (fun _ r os' => Taken tableCommands (fun _ => True) entry producer event r os') entry entry :=
    taken_processEvent (by decide) lasting_true hcourse
  obtain ⟨_, htaken⟩ := Outcome.Holds.ends hwp h.ends fun _ _ _ hrely => hrely
  obtain ⟨ack, hlast, hproducer, hok⟩ := h.acknowledged
  -- the acknowledgement is the kernel's, so the event has been served
  cases htaken with
  | routed processed =>
    rw [processed.handled, List.getLast?_append, List.getLast?_singleton, Option.some_or] at hlast
    obtain rfl := Option.some.inj hlast
    exact absurd hproducer (h.outside _)
  | ignored =>
    have hobserved : (entry.observe producer event event).handled.getLast? =
        some (entry.handling producer event) := by
      simp [observe, note, log]
    obtain rfl := Option.some.inj (hlast.symm.trans hobserved)
    exact absurd hproducer (h.outside _)
  | served valid accepted served =>
    obtain ⟨ack', hlast', -, hok'⟩ := served.acknowledged
    obtain rfl := Option.some.inj (hlast.symm.trans hlast')
    obtain rfl := Value.bool.inj (hok.symm.trans hok')
    exact served.tables

/-- A process has sent a command, and the kernel has carried it out and has acknowledged that it
succeeded, whatever happened while it waited. -/
structure Accomplishes (entry : AgentOS) (pid : ℕ) (event : Value) (os : AgentOS) : Prop where
  ends : (processEvent (.process pid) event entry).Ends (ReflTransGen Background) (.ok ()) os
  acknowledged : ∃ ack, os.handled.getLast? = some ack ∧ ack.producer = .kernel "kernel" ∧
    (ack.event.field "payload").field "ok" = .bool true

/-- A process is outside the kernel. -/
theorem Accomplishes.carriedOut (h : Accomplishes entry pid event os) : CarriedOut entry (.process pid) event os :=
  ⟨by simp, h.ends, h.acknowledged⟩

/-- The effect of a successful installation. -/
theorem Effect.of_install {T : Tables} (h : Effect entry event true T)
    (hcommand : commandOf event = some .installDevice)
    (hdevice : (event.field "payload").field "identity" = .str device) :
    ∃ positions tools scopes tokens handle injected,
      Installing entry event device positions tools scopes tokens ∧
      T = (entry.tables.release device).install device tools scopes handle (wiring positions device tokens)
        injected := by
  cases h with
  | @installed identity positions tools scopes tokens handle injected ok installing =>
    obtain rfl := Value.str.inj (hdevice.symm.trans installing.checked.identity_eq)
    exact ⟨positions, tools, scopes, tokens, handle, injected, installing, rfl⟩
  | uninstalled carries checked => simp [carries] at hcommand
  | maintained carries checked => simp [carries] at hcommand
  | granted carries checked => simp [carries] at hcommand
  | revoked carries checked => simp [carries] at hcommand

/-- The effect of a successful removal. -/
theorem Effect.of_uninstall {T : Tables} (h : Effect entry event true T)
    (hcommand : commandOf event = some .uninstallDevice)
    (hdevice : (event.field "payload").field "identity" = .str device) :
    ∃ handle injected, UninstallChecked entry event (event.field "payload") device handle ∧
      T = (((entry.tables.free device).withdraw device).grantAll
        (maintenanceGrants device entry.authority.grants)).inject injected := by
  cases h with
  | installed installing => simp [installing.carries] at hcommand
  | @uninstalled identity handle injected ok carries checked =>
    obtain rfl := Value.str.inj (hdevice.symm.trans checked.identity_eq)
    exact ⟨handle, injected, checked, rfl⟩
  | maintained carries checked => simp [carries] at hcommand
  | granted carries checked => simp [carries] at hcommand
  | revoked carries checked => simp [carries] at hcommand

/-- Where a module lies does not matter to what it declares. -/
theorem loadModule_path {path : String} (path' : String) {file : ModuleFile} {declared : List Value × List Value}
    (h : loadModule path file = .ok declared) : loadModule path' file = .ok declared := by
  cases file with
  | missing => simp [loadModule] at h
  | raises error => simp [loadModule] at h
  | exports tools scopes =>
    simp only [loadModule] at h ⊢
    split at h
    · split at h
      · split at h
        next hscopes => rw [if_pos hscopes, h]
        · simp at h
      · simp at h
    · simp at h

/-- The same event installs the same device from the same source. -/
theorem Installing.unique {identity : String}
    {positions positions' tools tools' scopes scopes' tokens tokens' : List Value}
    (h : Installing entry event identity positions tools scopes tokens)
    (h' : Installing os event identity positions' tools' scopes' tokens')
    (hsource : os.disk.module identity = entry.disk.module identity) :
    positions' = positions ∧ tools' = tools ∧ scopes' = scopes ∧ tokens' = tokens := by
  have hloaded := loadModule_path (os.sourceFile identity) h.loaded
  rw [← hsource, h'.loaded] at hloaded
  obtain ⟨rfl, rfl⟩ := Prod.mk.inj (Except.ok.inj hloaded)
  exact ⟨Value.list.inj (h'.checked.grants_eq.symm.trans h.checked.grants_eq), rfl, rfl,
    Except.ok.inj (h'.default.symm.trans h.default)⟩

section Compare

variable (T : Tables) {tools scopes : List Value} {handle : ℕ} {grants : List Grant}
  {injected : List (Key × Entries)}

/-- The identities after an installation. -/
theorem identities_install : (T.install device tools scopes handle grants injected).authority.identities =
    assign (.str device) (registration (.list tools) (.list scopes) false .none) T.authority.identities :=
  Authority.addGrants_identities _ _

/-- The grants after an installation. -/
theorem mem_grants_install {grant : Grant} :
    grant ∈ (T.install device tools scopes handle grants injected).authority.grants ↔
      grant ∈ grants ∨ grant ∈ T.authority.grants :=
  Authority.mem_addGrants _ _

/-- Replacing a device and installing it after it was uninstalled end with the same identities
in the same order and the same routed names. The grants are the same up to the maintenance
scopes on the device, which only uninstalling keeps. -/
theorem reinstall_compares (h : Reachable config .free l) (hunasked : Filed (Unasked tableCommands) l.state)
    (hinstall : commandOf install = some .installDevice)
    (hdevice : (install.field "payload").field "identity" = .str device)
    (huninstall : commandOf uninstall = some .uninstallDevice)
    (hdevice' : (uninstall.field "payload").field "identity" = .str device)
    (hdirect : Accomplishes l.state pid install direct) (hbetween : Accomplishes l.state pid uninstall between)
    (hlater : ReflTransGen Background between later)
    (hsource : later.disk.module device = l.state.disk.module device)
    (hboth : Accomplishes later pid install both) :
    direct.authority.identities = both.authority.identities ∧
      (∀ name, direct.registered name = both.registered name) ∧
      ∀ grant, grant ∈ both.authority.grants ↔
        grant ∈ direct.authority.grants ∨ grant ∈ maintenanceGrants device l.state.authority.grants := by
  -- what the three commands have done
  obtain ⟨_, heffect, hend⟩ := hdirect.carriedOut.effect h.wired hunasked
  obtain ⟨positions, tools, scopes, tokens, handle, injected, installing, rfl⟩ := heffect.of_install hinstall hdevice
  obtain ⟨_, heffect', hend'⟩ := hbetween.carriedOut.effect h.wired hunasked
  obtain ⟨running, injected', checked, rfl⟩ := heffect'.of_uninstall huninstall hdevice'
  have hcourse := hend'.meanwhile (by decide) lasting_true hlater
  obtain ⟨_, heffect'', hend''⟩ := hboth.carriedOut.effect hcourse.wired hcourse.filed
  obtain ⟨positions', tools', scopes', tokens', handle', injected'', installing', rfl⟩ :=
    heffect''.of_install hinstall hdevice
  obtain ⟨rfl, rfl, rfl, rfl⟩ := installing.unique installing' hsource
  -- the first way gives up the name itself, the second way finds it free
  obtain ⟨U, hU⟩ : ∃ U, U = (l.state.tables.free device).withdraw device := ⟨_, rfl⟩
  have hrelease : l.state.tables.release device = U := by
    rw [hU, Tables.release, show l.state.tables.entities device = _ from checked.entity]
  have hnone : U.entities device = none := by
    rw [hU]
    exact Function.update_self _ _ _
  rw [hrelease] at hend
  rw [← hU] at hcourse
  have hfree : later.tables.release device = later.tables := by
    rw [Tables.release, show later.tables.entities device = none from (congrFun hcourse.entities device).trans hnone]
  rw [hfree] at hend''
  have hidentities : later.tables.authority.identities = U.authority.identities :=
    hcourse.authority.identities.trans (Authority.addGrants_identities _ _)
  have hgrants (grant : Grant) : grant ∈ later.tables.authority.grants ↔
      grant ∈ maintenanceGrants device l.state.authority.grants ∨ grant ∈ U.authority.grants := by
    rw [show later.tables.authority.grants = _ from hcourse.authority.grants (List.Subset.refl _)]
    exact Authority.mem_addGrants _ _
  refine ⟨?_, fun name => ?_, fun grant => ?_⟩
  · rw [hend.authority.identities, hend''.authority.identities, identities_install, identities_install, hidentities]
  · rw [registered, registered, hend.entities, hend''.entities]
    by_cases hname : name = device
    · simp [Tables.install, Tables.inject, Tables.grantAll, Tables.enter, Tables.setAuthority, hname]
    · have hsame : later.tables.entities name = U.entities name := congrFun hcourse.entities name
      simp [Tables.install, Tables.inject, Tables.grantAll, Tables.enter, Tables.enroll, Tables.setAuthority, hname,
        hsame]
  · rw [hend.authority.grants (List.Subset.refl _), hend''.authority.grants (List.Subset.refl _), mem_grants_install,
      mem_grants_install, hgrants]
    tauto

end Compare

section Scenario

/-- `r` asks for the installation of `d`. -/
def installCommand : Value :=
  commandBy [("command", .str "install_device"), ("identity", .str "d"), ("grants", .list [.str "root"])]

/-- `r` asks for the removal of `d`. -/
def uninstallCommand : Value := commandBy [("command", .str "uninstall_device"), ("identity", .str "d")]

/-- `r` grants the maintenance of `d` to `dev`. -/
def grantMaintain : Value :=
  commandBy [("command", .str "grant_scope"), ("position", .str "dev"), ("device", .str "d"),
    ("token", .str "maintain")]

/-- `d` is installed, and `dev` may maintain it. -/
def entrusted : List (EventLoop.Move Ambient) :=
  sends 0 installCommand ++ [.take, .settle] ++ sends 0 grantMaintain ++ [.take, .settle]

/-- Carry out a command of `r` that succeeds; the process of `d` ends while the kernel waits. -/
def carryOut (os : AgentOS) (event : Value) : Option AgentOS :=
  match (processEvent (.process 0) event os).conclude [some, fun os => os.perform (.exit 1)] with
  | some (.ok _, os') =>
    match os'.handled.getLast? with
    | some ack =>
      match ack.producer, (ack.event.field "payload").field "ok" with
      | .kernel "kernel", .bool true => some os'
      | _, _ => none
    | none => none
  | _ => none

/-- What is carried out is accomplished. -/
theorem accomplishes_of_carryOut {os' : AgentOS} (h : os.carryOut event = some os') :
    Accomplishes os 0 event os' := by
  unfold carryOut at h
  split at h
  next hconclude =>
    split at h
    next ack hlast =>
      split at h
      next hproducer hok =>
        obtain rfl := Option.some.inj h
        refine ⟨Outcome.ends_of_conclude (fun act hact w s hs => ?_) hconclude, ack, hlast, hproducer, hok⟩
        rcases List.mem_pair.mp hact with rfl | rfl
        · exact Option.some.inj hs ▸ .refl
        · exact .single (background_of_perform _ _ _ hs)
      · simp at h
    · simp at h
  · simp at h

/-- Both ways to a new instance of `d`. -/
def bothWays (os : AgentOS) : Option (AgentOS × AgentOS × AgentOS) := do
  let direct ← os.carryOut installCommand
  let between ← os.carryOut uninstallCommand
  let both ← between.carryOut installCommand
  return (direct, between, both)

/-- Only the second way keeps the maintenance scope of `dev`. -/
theorem bothWays_entrusted : ∃ l direct between both, scenario overseerConfig plainDisk entrusted = some l ∧
    l.isIdle = true ∧ Accomplishes l.state 0 installCommand direct ∧ Accomplishes l.state 0 uninstallCommand between ∧
    between.disk.module "d" = l.state.disk.module "d" ∧ Accomplishes between 0 installCommand both ∧
    ⟨.str "dev", .str "d", .str "maintain"⟩ ∈ both.authority.grants ∧
    ⟨.str "dev", .str "d", .str "maintain"⟩ ∉ direct.authority.grants := by
  have hplays : (scenario overseerConfig plainDisk entrusted).any fun l => l.isIdle &&
      (l.state.disk.module "d").plain && l.state.bothWays.any fun ways => (ways.2.1.disk.module "d").plain &&
        decide (⟨.str "dev", .str "d", .str "maintain"⟩ ∈ ways.2.2.authority.grants ∧
          ⟨.str "dev", .str "d", .str "maintain"⟩ ∉ ways.1.authority.grants) := by decide +kernel
  obtain ⟨l, hplayed, hl⟩ := (Option.any_eq_true _ _).mp hplays
  simp only [Bool.and_eq_true] at hl
  obtain ⟨⟨hidle, hplain⟩, hways⟩ := hl
  obtain ⟨⟨direct, between, both⟩, hboth, hends⟩ := (Option.any_eq_true _ _).mp hways
  obtain ⟨hplain', hgrants⟩ := Bool.and_eq_true_iff.mp hends
  simp only [bothWays, Option.bind_eq_bind, Option.bind_eq_some_iff, Option.pure_def, Option.some.injEq,
    Prod.mk.injEq] at hboth
  obtain ⟨_, hdirect, _, hbetween, _, hboth, rfl, rfl, rfl⟩ := hboth
  obtain ⟨hkept, hlost⟩ := of_decide_eq_true hgrants
  refine ⟨l, _, _, _, hplayed, hidle, accomplishes_of_carryOut hdirect, accomplishes_of_carryOut hbetween, ?_,
    accomplishes_of_carryOut hboth, hkept, hlost⟩
  rw [ModuleFile.eq_of_plain hplain, ModuleFile.eq_of_plain hplain']

/-- Both ways end with the same identities and the same routed names. -/
theorem reinstall_compares_entrusted :
    ∃ (l : _) (direct both : AgentOS), scenario overseerConfig plainDisk entrusted = some l ∧
    direct.authority.identities = both.authority.identities ∧
    (∀ name, direct.registered name = both.registered name) ∧
    ∀ grant, grant ∈ both.authority.grants ↔
      grant ∈ direct.authority.grants ∨ grant ∈ maintenanceGrants "d" l.state.authority.grants := by
  obtain ⟨l, direct, between, both, hplayed, hidle, hdirect, hbetween, hsource, hboth, -, -⟩ := bothWays_entrusted
  have htaken : (scenarioTaken overseerConfig plainDisk entrusted).all fun taken =>
      (taken.2.2.field "target").isStr "kernel" := by decide +kernel
  have hreachable : Reachable overseerConfig (.taking fun _ item => item.2.field "target" = .str "kernel") l :=
    reachable_of_scenario hplayed fun taken hmem => Value.isStr_iff.mp (List.all_eq_true.mp htaken taken hmem)
  have hunasked : Filed (Unasked tableCommands) l.state := by
    refine hreachable.filed (LoopState.isIdle_iff.mp hidle) (by decide) fun _ _ htarget _ hasks => ?_
    simpa using htarget.symm.trans hasks.1
  exact ⟨l, direct, both, hplayed, reinstall_compares (reachable_free_of_scenario hplayed) hunasked rfl rfl rfl rfl
    hdirect hbetween .refl hsource hboth⟩

/-- A maintenance scope that was granted explicitly is lost when the device is replaced. -/
theorem reinstall_drops_maintain : ∃ l direct between both, Reachable overseerConfig .free l ∧
    l.control = .idle ∧ commandOf installCommand = some .installDevice ∧
    commandOf uninstallCommand = some .uninstallDevice ∧
    installCommand.field "source" = uninstallCommand.field "source" ∧
    Accomplishes l.state 0 installCommand direct ∧ Accomplishes l.state 0 uninstallCommand between ∧
    between.disk.module "d" = l.state.disk.module "d" ∧ Accomplishes between 0 installCommand both ∧
    ¬ ∀ grant, grant ∈ direct.authority.grants ↔ grant ∈ both.authority.grants := by
  obtain ⟨l, direct, between, both, hplayed, hidle, hdirect, hbetween, hsource, hboth, hkept, hlost⟩ :=
    bothWays_entrusted
  exact ⟨l, direct, between, both, reachable_free_of_scenario hplayed, LoopState.isIdle_iff.mp hidle, rfl, rfl, rfl,
    hdirect, hbetween, hsource, hboth, fun hsame => hlost ((hsame _).mpr hkept)⟩

end Scenario

end AgentOS

end MyTeam.Kernel

import Mathlib.Data.Prod.Lex
import MyTeam.Kernel.Recollection
import MyTeam.Kernel.Reinstall

/-!
# The effect of uninstalling a device

Uninstalling takes a device out of the routing map and out of the organisation table, and with it
every grant on the device but the maintenance scopes. The other identities and the grants on
other devices are not touched, and whoever maintained the device may still do so. All of this
holds while nobody but the kernel commands the Authority.
-/

namespace MyTeam.Kernel

open MyTeam.Py MyTeam.Async MyTeam.Dispatch MyTeam.Agent Coroutine Relation

namespace Authority

variable {a a' : Authority} {actor device : String} {position : Value}

section Order

/-- A pair of strings as a device and a token. -/
def strPair (pair : String ×ₗ String) : Key × Key := (.str (ofLex pair).1, .str (ofLex pair).2)

/-- Pairs of strings are compared component by component. -/
theorem ltPair_strPair (p q : String ×ₗ String) : Key.ltPair (strPair p) (strPair q) = .ok (decide (p < q)) := by
  simp only [Key.ltPair, strPair, Key.str.injEq, Prod.Lex.lt_iff]
  by_cases hfirst : (ofLex p).1 = (ofLex q).1
  · by_cases hsecond : (ofLex p).2 = (ofLex q).2
    · simp [hfirst, hsecond]
    · simp [hfirst, hsecond, Key.lt]
  · simp [hfirst, Key.lt]

/-- Pairs of strings are sorted in the order of dictionaries. -/
theorem sorted_strPair (pairs : List (String ×ₗ String)) :
    sorted Key.ltPair (pairs.map strPair) = .ok ((pairs.insertionSort (· ≤ ·)).map strPair) := by
  have hinsert (p : String ×ₗ String) (pairs : List (String ×ₗ String)) :
      insertSorted Key.ltPair (strPair p) (pairs.map strPair) = .ok ((pairs.orderedInsert (· ≤ ·) p).map strPair) := by
    induction pairs with
    | nil => rfl
    | cons first rest ih =>
      rw [List.map_cons, insertSorted, ltPair_strPair, ok_bind]
      by_cases hlt : first < p
      · simp [hlt, ih, not_le.mpr hlt, pure, Except.pure]
      · simp [hlt, not_lt.mp hlt, pure, Except.pure]
  induction pairs with
  | nil => rfl
  | cons p rest ih => rw [List.map_cons, sorted, ih, ok_bind, hinsert, List.insertionSort_cons]

/-- What is left of a sorted list depends on the pairs that are left. -/
theorem filter_insertionSort_congr {pairs pairs' : List (String ×ₗ String)} {q : String ×ₗ String → Bool}
    (h : (pairs.filter q).Perm (pairs'.filter q)) :
    (pairs.insertionSort (· ≤ ·)).filter q = (pairs'.insertionSort (· ≤ ·)).filter q := by
  have hsorted (pairs : List (String ×ₗ String)) : ((pairs.insertionSort (· ≤ ·)).filter q).Pairwise (· ≤ ·) :=
    (List.pairwise_insertionSort (· ≤ ·) pairs).filter q
  have hperm (pairs : List (String ×ₗ String)) : ((pairs.insertionSort (· ≤ ·)).filter q).Perm (pairs.filter q) :=
    (List.perm_insertionSort _ pairs).filter q
  apply List.Perm.eq_of_pairwise (fun _ _ _ _ => le_antisymm) (hsorted pairs) (hsorted pairs')
  exact ((hperm pairs).trans h).trans (hperm pairs').symm

end Order

section Context

/-- An answer of `_auth_context`. -/
def context (position : Value) (scopes : List Value) : Value :=
  .dict [("position", position), ("scopes", .list scopes)]

/-- A scope in such an answer. -/
def scopeOf (pair : Key × Key) : Value := .dict [("device", pair.1.toValue), ("token", pair.2.toValue)]

/-- The scope is on another device. -/
def beside (device : String) (scope : Value) : Bool := !(scope.field "device").isStr device

/-- The scopes of a position are pairs of strings. -/
theorem Lettered.scopesOf (h : a.Lettered) (position : Value) :
    ∃ pairs : List (String ×ₗ String), pairs.map strPair = a.scopesOf position := by
  have hlift (scopes : List (Key × Key)) (hscopes : ∀ scope ∈ scopes, ∃ pair, strPair pair = scope) :
      ∃ pairs : List (String ×ₗ String), pairs.map strPair = scopes := by
    induction scopes with
    | nil => exact ⟨[], rfl⟩
    | cons scope rest ih =>
      obtain ⟨pair, rfl⟩ := hscopes scope List.mem_cons_self
      obtain ⟨pairs, rfl⟩ := ih fun other hother => hscopes other (List.mem_cons_of_mem _ hother)
      exact ⟨pair :: pairs, rfl⟩
  apply hlift
  intro scope hscope
  cases position with
  | str s =>
    obtain ⟨grant, hgrant, rfl⟩ := List.mem_map.mp hscope
    obtain ⟨device, token, hdevice, htoken⟩ := h grant (List.mem_filter.mp hgrant).1
    exact ⟨toLex (device, token), by rw [hdevice, htoken]; rfl⟩
  | _ => simp [Authority.scopesOf] at hscope

/-- The context of a name, where all grants are made of strings. -/
theorem authContext_eq {pairs : List (String ×ₗ String)} (hposition : a.positionOf (.str actor) = .ok position)
    (hpairs : pairs.map strPair = a.scopesOf position) : a.authContext (.str actor) =
      .ok (context position (((pairs.insertionSort (· ≤ ·)).map strPair).map scopeOf)) := by
  rw [authContext, hposition, ok_bind, ← hpairs, sorted_strPair]
  rfl

/-- A scope is on another device if its pair is. -/
theorem beside_scopeOf (pair : String ×ₗ String) :
    beside device (scopeOf (strPair pair)) = !decide ((ofLex pair).1 = device) := by
  simp [beside, scopeOf, strPair, Value.field, Key.toValue, Value.isStr]

/-- The actor's position holds a maintenance scope on the device. -/
def Maintainer (a : Authority) (device actor : String) : Prop :=
  ∃ position token, a.positionOf (.str actor) = .ok (.str position) ∧
    (token = "maintain" ∨ token = "maintain:" ++ device) ∧ ⟨.str position, .str device, .str token⟩ ∈ a.grants

/-- Whoever holds a maintenance scope is found to hold it. -/
theorem maintains_of_mem {token : String} {pairs : List (String ×ₗ String)}
    (htoken : token = "maintain" ∨ token = "maintain:" ++ device) (hmem : toLex (device, token) ∈ pairs) :
    AgentOS.maintains device ((pairs.map strPair).map scopeOf) = .ok true := by
  have hstep (pair : String ×ₗ String) (rest : List Value) :
      AgentOS.maintains device (scopeOf (strPair pair) :: rest) =
        if (ofLex pair).1 = device ∧ ((ofLex pair).2 = "maintain" ∨ (ofLex pair).2 = "maintain:" ++ device) then
          .ok true
        else AgentOS.maintains device rest := by
    have hgetDevice : (scopeOf (strPair pair)).get "device" .none = .ok (.str (ofLex pair).1) := rfl
    have hgetToken : (scopeOf (strPair pair)).get "token" .none = .ok (.str (ofLex pair).2) := rfl
    rw [AgentOS.maintains, hgetDevice, ok_bind, hgetToken]
    by_cases hdevice : (ofLex pair).1 = device
    · simp [Value.isStr, hdevice, pure, Except.pure]
    · simp [Value.isStr, hdevice]
  induction pairs with
  | nil => cases hmem
  | cons pair rest ih =>
    rw [List.map_cons, List.map_cons, hstep]
    split
    next => rfl
    next hother =>
      apply ih
      rcases List.mem_cons.mp hmem with rfl | hrest
      · exact absurd ⟨rfl, htoken⟩ hother
      · exact hrest

/-- Whoever holds a maintenance scope on a device is authorised to maintain it. -/
theorem Maintainer.authorizesDevice (h : a.Maintainer device actor) (hlettered : a.Lettered) :
    a.authorizesDevice (.str actor) device = .ok true := by
  obtain ⟨position, token, hposition, htoken, hgrant⟩ := h
  rw [Authority.authorizesDevice]
  split
  · rfl
  obtain ⟨b, hb⟩ : ∃ b, a.authorized (.str actor) (.str "install") = .ok b := by
    rw [authorized, hposition, ok_bind]
    split
    · exact ⟨true, rfl⟩
    split
    · exact ⟨false, rfl⟩
    · exact ⟨_, rfl⟩
  cases b with
  | true => rw [hb]; rfl
  | false =>
    obtain ⟨pairs, hpairs⟩ := hlettered.scopesOf (.str position)
    have hmem : toLex (device, token) ∈ pairs.insertionSort (· ≤ ·) := by
      rw [List.mem_insertionSort]
      have hscope : (Key.str device, Key.str token) ∈ a.scopesOf (.str position) :=
        List.mem_map.mpr ⟨_, List.mem_filter.mpr ⟨hgrant, by simp⟩, rfl⟩
      rw [← hpairs] at hscope
      obtain ⟨pair, hpair, hsame⟩ := List.mem_map.mp hscope
      obtain ⟨hdevice, htoken⟩ := Prod.mk.inj hsame
      obtain rfl : pair = toLex (device, token) := by
        rw [← Key.str.inj hdevice, ← Key.str.inj htoken]
        rfl
      exact hpair
    rw [hb, ok_bind, authContext_eq hposition hpairs]
    exact maintains_of_mem htoken hmem

/-- The grants on other devices determine the scopes on other devices. -/
theorem scopesOf_beside (hgrants : a'.grants.filter (·.device ≠ .str device) =
    a.grants.filter (·.device ≠ .str device)) :
    (a'.scopesOf position).filter (fun scope => scope.1 ≠ .str device) =
      (a.scopesOf position).filter fun scope => scope.1 ≠ .str device := by
  have hbeside (b : Authority) : (b.scopesOf position).filter (fun scope => scope.1 ≠ .str device) =
      ({ b with grants := b.grants.filter (·.device ≠ .str device) } : Authority).scopesOf position := by
    cases position with
    | str s =>
      simp only [scopesOf, List.filter_map, List.filter_filter]
      congr 2
      funext grant
      exact Bool.and_comm _ _
    | _ => rfl
  rw [hbeside a', hbeside a]
  simp only [scopesOf, hgrants]

/-- Pairs of strings are told apart. -/
theorem strPair_injective : Function.Injective strPair := by
  intro pair pair' h
  obtain ⟨hdevice, htoken⟩ := Prod.mk.inj h
  exact Prod.ext (Key.str.inj hdevice) (Key.str.inj htoken)

/-- The contexts of a name agree beside a device, if the name keeps its position and the position its grants. -/
theorem exists_contexts (hlettered : a.Lettered) (hlettered' : a'.Lettered)
    (hposition : a'.positionOf (.str actor) = a.positionOf (.str actor))
    (hgrants : a'.grants.filter (·.device ≠ .str device) = a.grants.filter (·.device ≠ .str device)) :
    ∃ position scopes scopes', a.authContext (.str actor) = .ok (context position scopes) ∧
      a'.authContext (.str actor) = .ok (context position scopes') ∧
      scopes'.filter (beside device) = scopes.filter (beside device) := by
  obtain ⟨position, hat⟩ : ∃ position, a.positionOf (.str actor) = .ok position := by
    simp [positionOf, pure, Except.pure]
  obtain ⟨pairs, hpairs⟩ := hlettered.scopesOf position
  obtain ⟨pairs', hpairs'⟩ := hlettered'.scopesOf position
  refine ⟨position, _, _, authContext_eq hat hpairs, authContext_eq (hposition.trans hat) hpairs', ?_⟩
  have hscope : beside device ∘ scopeOf ∘ strPair = fun pair => decide ((strPair pair).1 ≠ .str device) := by
    funext pair
    rw [Function.comp_apply, Function.comp_apply, beside_scopeOf]
    simp [strPair]
  have hleft : (pairs'.filter fun pair => (strPair pair).1 ≠ .str device) =
      pairs.filter fun pair => (strPair pair).1 ≠ .str device := by
    have hscopes : (a'.scopesOf position).filter (fun scope => scope.1 ≠ .str device) =
        (a.scopesOf position).filter fun scope => scope.1 ≠ .str device := scopesOf_beside hgrants
    rw [← hpairs', ← hpairs, List.filter_map, List.filter_map] at hscopes
    exact strPair_injective.list_map hscopes
  rw [List.map_map, List.map_map, List.filter_map, List.filter_map, hscope]
  exact congrArg _ (filter_insertionSort_congr (List.Perm.of_eq hleft))

/-- The grants after a device is withdrawn and granted again what was saved. -/
theorem mem_grants_uninstall {grant : Grant} :
    grant ∈ ((AgentOS.maintenanceGrants device a.grants).foldl addGrant (a.withdraw device)).grants ↔
      grant ∈ a.grants ∧
        (grant.device = .str device → grant.token = .str "maintain" ∨ grant.token = .str ("maintain:" ++ device)) := by
  rw [mem_addGrants, withdraw, AgentOS.maintenanceGrants, List.mem_filter, List.mem_filter]
  simp only [decide_eq_true_eq]
  tauto

/-- What is granted on a device leaves the grants on the others. -/
theorem filter_addGrants {grants : List Grant} (h : ∀ grant ∈ grants, grant.device = .str device) :
    (grants.foldl addGrant a).grants.filter (·.device ≠ .str device) = a.grants.filter (·.device ≠ .str device) := by
  induction grants generalizing a with
  | nil => rfl
  | cons grant rest ih =>
    rw [List.foldl_cons, ih fun other hother => h other (List.mem_cons_of_mem _ hother), addGrant, List.insert]
    split
    · rfl
    · exact List.filter_cons_of_neg (by simpa using h grant List.mem_cons_self)

end Context

end Authority

namespace AgentOS

variable {config event : Value} {device : String} {producer : Producer} {entry os : AgentOS}
  {l : LoopState AgentOS (Producer × Value) Exc}

/-- What uninstalling a device does. -/
structure Uninstalled (device : String) (before after : AgentOS) : Prop where
  grants : ∀ grant, grant ∈ after.authority.grants ↔ grant ∈ before.authority.grants ∧
    (grant.device = .str device → grant.token = .str "maintain" ∨ grant.token = .str ("maintain:" ++ device))
  identities : after.authority.identities = before.authority.identities.filter fun entry => entry.1 ≠ .str device
  entities : ∀ name, after.entities name = if name = device then none else before.entities name
  authorized : ∀ actor, before.authority.Maintainer device actor →
    authorizeDevice (.str actor) device before = .returned true before ∧
    authorizeDevice (.str actor) device after = .returned true after
  contexts : ∀ actor, ∃ position scopes scopes',
    authContext (.str actor) before = .returned (Authority.context position scopes) before ∧
    authContext (.str actor) after = .returned (Authority.context position scopes') after ∧
    scopes'.filter (Authority.beside device) = scopes.filter (Authority.beside device)

/-- Of the events that are accepted, none commands the Authority in the kernel's name. -/
def leavesTables (entry : AgentOS) (item : Producer × Value) : Prop :=
  entry.validate item.2 = .accepted → ¬ Asks tableCommands item.2

/-- Between two events, devices and tokens of the grants are strings. -/
theorem Reachable.lettered (h : Reachable config (.taking leavesTables) l) (hidle : l.control = .idle) :
    l.state.authority.Lettered := by
  let I (os : AgentOS) : Prop := Filed (Unasked tableCommands) os ∧ os.authority.Lettered
  let J (entry : AgentOS) (item : Producer × Value) (os : AgentOS) : Prop := I os ∧ leavesTables entry item
  have hclean (device : Device) (event : Value) (hunasked : Unasked tableCommands device event) :
      Untainted device event := by
    cases device with
    | authority => exact fun htaints => hunasked (htaints.1.mono (by decide))
    | journal => trivial
  have hbackground {os os' : AgentOS} (hw : os.Wired) (hI : I os) (hb : Background os os') : I os' :=
    ⟨hI.1.background hw says_unasked hb, lettered_background hI.2 hw hI.1 hclean hb⟩
  have hboot (os : AgentOS) (hb : Boots config os) : I os := by
    refine hb.invariant (fun _ _ _ _ => ⟨filed_new _ _ _ _, ?_⟩) fun hw hI ha =>
      ⟨hI.1.setup hw says_unasked ha, lettered_act hI.2 ha⟩
    simp [AgentOS.new, Authority.Lettered, Authority.new]
  have hact {entry : AgentOS} {item : Producer × Value} {os os' : AgentOS} (hw : os.Wired) (hJ : J entry item os)
      (ha : Act (.item entry item.1 item.2) os os') : J entry item os' := by
    refine ⟨⟨hJ.1.1.act hw says_unasked ha fun device source valid accepted => ?_, lettered_act hJ.1.2 ha⟩, hJ.2⟩
    cases device with
    | authority => exact fun hmutates => hJ.2 valid ⟨accepted.target_eq, hmutates⟩
    | journal => trivial
  have hthroughout : Throughout I J l := h.stepwise hboot (fun hw hI hb => hbackground hw hI hb)
    (fun _ _ hI _ hleaves => ⟨⟨hI.1.of_dispatchers rfl, hI.2⟩, hleaves⟩) hact
    (fun hw hJ hb => ⟨hbackground hw hJ.1 hb, hJ.2⟩) fun _ _ hJ => hJ.1
  exact (hthroughout.idle hidle).2.2.2

/-- Between two events, agents have positions, and nothing else has one. -/
theorem Reachable.seated (h : Reachable config (.taking leavesTables) l) (hidle : l.control = .idle) :
    l.state.authority.Seated := by
  have hledger := h.ledger (I := fun os => os.authority.Seated) (M := fun _ _ => True) hidle (by decide)
    (fun _ _ hleaves valid => hleaves valid) (fun _ => lasting_true) (fun os hb => (informed_of_boots hb).seated)
    (fun {os os'} hw hfiled hI hb => ?_) (fun _ _ => trivial) fun {os item rest os'} _ _ hI _ _ htaken => ?_
  · exact hledger.2.2
  · exact hI.of_eq (agree_background (by decide) hw hfiled hb).identities
  · cases htaken with
    | routed processed => exact hI.of_eq (congrArg Authority.identities processed.aside.authority)
    | ignored => exact hI
    | served valid accepted served =>
      obtain ⟨T, heffect, hcourse⟩ := served.tables
      exact (heffect.seated hI).of_eq hcourse.authority.identities

/-- A method that waits for nothing and ends in one way returns. -/
theorem returned_of_wp {α : Type} {m : Task α} {value : α}
    (h : wp ⟨fun _ _ _ => False, fun _ _ => False⟩ m (fun _ r os' => r = .ok value ∧ os' = os) os os) :
    m os = .returned value os := by
  unfold wp at h
  cases hm : m os with
  | returned value' os' =>
    rw [hm] at h
    obtain ⟨hvalue, rfl⟩ := h
    rw [Except.ok.inj hvalue]
  | raised error os' =>
    rw [hm] at h
    cases h.1
  | waiting os' ready resume =>
    rw [hm] at h
    exact h.1.elim

/-- The decision of `_authorize_device`. -/
theorem authorizeDevice_returned {actor : Value} {b : Bool} (h : os.authority.authorizesDevice actor device = .ok b) :
    authorizeDevice actor device os = .returned b os :=
  returned_of_wp (wp_authorizeDevice.mpr ⟨h, rfl⟩)

/-- The answer of `_auth_context`. -/
theorem authContext_returned {actor auth : Value} (h : os.authority.authContext actor = .ok auth) :
    authContext actor os = .returned auth os :=
  returned_of_wp (wp_authContext.mpr ⟨h, rfl⟩)

/-- Where grants are made of strings and only agents have positions, the effect of the command is exact. -/
theorem Uninstalled.of_authority {a : Authority} (hlettered : entry.authority.Lettered)
    (hseated : entry.authority.Seated)
    (ha : a = (maintenanceGrants device entry.authority.grants).foldl Authority.addGrant
      (entry.authority.withdraw device))
    (hdevice : entry.authority.records device = false)
    (identities : os.authority.identities = a.identities) (grants : os.authority.grants = a.grants)
    (entities : os.entities = Function.update entry.entities device none) : Uninstalled device entry os := by
  have hmem (grant : Grant) : grant ∈ os.authority.grants ↔ grant ∈ entry.authority.grants ∧
      (grant.device = .str device → grant.token = .str "maintain" ∨ grant.token = .str ("maintain:" ++ device)) := by
    rw [grants, ha]
    exact Authority.mem_grants_uninstall
  have hidentities : os.authority.identities = entry.authority.identities.filter fun entry =>
    entry.1 ≠ .str device := by
    rw [identities, ha]
    exact Authority.addGrants_identities _ _
  have hlettered' : os.authority.Lettered := fun grant hgrant => hlettered grant ((hmem grant).mp hgrant).1
  have hposition (actor : String) : os.authority.positionOf (.str actor) = entry.authority.positionOf (.str actor) := by
    rw [Authority.positionOf, Authority.positionOf, Value.key_str, ok_bind, ok_bind, hidentities,
      lookup_filter_key (p := fun key => decide (key ≠ Key.str device))]
    by_cases hactor : actor = device
    · -- a device has no position to lose
      subst hactor
      rw [if_neg (by simp)]
      cases hinfo : entry.authority.identities.lookup (.str actor) with
      | none => rfl
      | some info =>
        rw [Authority.records, hinfo] at hdevice
        have hnone := hseated _ info hinfo
        rw [if_neg (by simpa using hdevice)] at hnone
        exact congrArg Except.ok hnone.symm
    · rw [if_pos (by simpa using hactor)]
  have hbeside : os.authority.grants.filter (·.device ≠ .str device) =
      entry.authority.grants.filter (·.device ≠ .str device) := by
    rw [grants, ha, Authority.filter_addGrants, Authority.withdraw, List.filter_filter]
    · simp only [Bool.and_self]
    · exact fun grant hgrant => (of_decide_eq_true (List.mem_filter.mp hgrant).2).1
  refine ⟨hmem, hidentities, fun name => ?entities, fun actor hmaintainer => ?authorized, fun actor => ?contexts⟩
  case entities =>
    rw [entities]
    by_cases hname : name = device
    · rw [if_pos hname, hname, Function.update_self]
    · rw [if_neg hname, Function.update_of_ne hname]
  case authorized =>
    refine ⟨authorizeDevice_returned (hmaintainer.authorizesDevice hlettered), authorizeDevice_returned ?_⟩
    obtain ⟨position, token, hat, htoken, hgrant⟩ := hmaintainer
    have hkept : os.authority.Maintainer device actor := by
      refine ⟨position, token, (hposition actor).trans hat, htoken, (hmem _).mpr ⟨hgrant, fun _ => ?_⟩⟩
      exact htoken.imp (congrArg Key.str) (congrArg Key.str)
    exact hkept.authorizesDevice hlettered'
  case contexts =>
    obtain ⟨position, scopes, scopes', hbefore, hafter, hsame⟩ :=
      Authority.exists_contexts hlettered hlettered' (hposition actor) hbeside
    exact ⟨position, scopes, scopes', authContext_returned hbefore, authContext_returned hafter, hsame⟩

/-- In every run in which nobody but the kernel commands the Authority, uninstalling a device that succeeds has
exactly the effect it should have, whatever happens while the kernel waits. -/
theorem uninstall_exact {bus : List (Producer × Value)} (h : Reachable config (.taking leavesTables) l)
    (hidle : l.control = .idle) (hcommand : commandOf event = some .uninstallDevice)
    (hdevice : (event.field "payload").field "identity" = .str device)
    (hdone : CarriedOut { l.state with eventBus := bus } producer event os) :
    Uninstalled device { l.state with eventBus := bus } os := by
  have hfiled : Filed (Unasked tableCommands) l.state :=
    h.filed hidle (by decide) fun _ _ hleaves valid => hleaves valid
  obtain ⟨T, heffect, hcourse⟩ := hdone.effect (h.wired.setEventBus bus) (hfiled.of_dispatchers rfl)
  obtain ⟨handle, injected, checked, rfl⟩ := heffect.of_uninstall hcommand hdevice
  exact .of_authority (h.lettered hidle) (h.seated hidle) rfl (Authority.records_of_refused checked.device)
    hcourse.authority.identities (hcourse.authority.grants (List.Subset.refl _)) hcourse.entities

section Scenario

/-- Uninstalling `d` keeps the maintenance scope of `dev`. -/
theorem uninstall_exact_entrusted : ∃ (l : _) (os : AgentOS), scenario overseerConfig plainDisk entrusted = some l ∧
    Accomplishes l.state 0 uninstallCommand os ∧ Uninstalled "d" l.state os := by
  obtain ⟨l, -, os, -, hplayed, hidle, -, hdone, -, -, -, -⟩ := bothWays_entrusted
  have htaken : (scenarioTaken overseerConfig plainDisk entrusted).all fun taken =>
      (taken.2.2.field "target").isStr "kernel" := by decide +kernel
  have hreachable : Reachable overseerConfig (.taking leavesTables) l := by
    refine reachable_of_scenario hplayed fun taken hmem _ hasks => ?_
    have htarget := Value.isStr_iff.mp (List.all_eq_true.mp htaken taken hmem)
    simpa using htarget.symm.trans hasks.1
  have hexact : Uninstalled "d" { l.state with eventBus := l.state.eventBus } os :=
    uninstall_exact hreachable (LoopState.isIdle_iff.mp hidle) rfl rfl hdone.carriedOut
  exact ⟨l, os, hplayed, hdone, hexact⟩

/-- An agent at `root`, and one that is called `system`. -/
def impostorConfig : Value := .dict [("agents", .list [agentSpec "r" "root", agentSpec "system" "ops"])]

/-- `r` asks for the installation of a device. -/
def installs (device : String) : Value :=
  commandBy [("command", .str "install_device"), ("identity", .str device), ("grants", .list [.str "root"])]

/-- `d` and `e` are installed, `dev` may use `e`, and `system` asks the Authority to revoke that. -/
def impostor : List (EventLoop.Move Ambient) :=
  sends 0 (installs "d") ++ [.take, .settle] ++ sends 0 (installs "e") ++ [.take, .settle] ++
  sends 0 (commandBy [("command", .str "grant_scope"), ("position", .str "dev"), ("device", .str "e"),
    ("token", .str "use")]) ++ [.take, .settle] ++
  sends 1 (applicationEvent (.str "authority") [("command", .str "revoke_request"), ("position", .str "dev"),
    ("device", .str "e"), ("token", .str "use")]) ++ [.take, .settle]

/-- The Authority answers, and the process of `d` ends. -/
def answerThenExit (os : AgentOS) : Option AgentOS := do
  let os ← os.perform (.begin .authority 0)
  let os ← os.perform (.round .authority 0)
  os.perform (.exit 2)

/-- The last event that was handled acknowledges a success. -/
def acknowledges (os : AgentOS) : Bool :=
  match os.handled.getLast? with
  | some ⟨.kernel "kernel", ack, _, _⟩ =>
    match (ack.field "payload").field "ok" with
    | .bool true => true
    | _ => false
  | _ => false

/-- The acknowledgement is the last event that was handled. -/
theorem exists_ack (h : os.acknowledges = true) : ∃ ack, os.handled.getLast? = some ack ∧
    ack.producer = .kernel "kernel" ∧ (ack.event.field "payload").field "ok" = .bool true := by
  unfold acknowledges at h
  split at h
  next ack _ _ hlast =>
    split at h
    next hok => exact ⟨_, hlast, rfl, hok⟩
    next => cases h
  next => cases h

/-- What `system` asks for is done while `d` is uninstalled. -/
theorem uninstall_interrupted : ∃ l os, Reachable impostorConfig .free l ∧ l.control = .idle ∧
    commandOf uninstallCommand = some .uninstallDevice ∧
    (uninstallCommand.field "payload").field "identity" = .str "d" ∧
    CarriedOut l.state (.process 0) uninstallCommand os ∧ ¬ Uninstalled "d" l.state os := by
  have hplays : (scenario impostorConfig plainDisk impostor).any fun l => l.isIdle &&
      decide (⟨.str "dev", .str "e", .str "use"⟩ ∈ l.state.authority.grants) &&
      ((processEvent (.process 0) uninstallCommand l.state).conclude [some, answerThenExit]).any fun done =>
        done.1.isOk && decide (⟨.str "dev", .str "e", .str "use"⟩ ∉ done.2.authority.grants) &&
        done.2.acknowledges := by
    decide +kernel
  obtain ⟨l, hplayed, hl⟩ := (Option.any_eq_true _ _).mp hplays
  simp only [Bool.and_eq_true, decide_eq_true_eq] at hl
  obtain ⟨⟨hidle, hgranted⟩, hends⟩ := hl
  obtain ⟨⟨result, os⟩, hconclude, hdone⟩ := (Option.any_eq_true _ _).mp hends
  simp only [Bool.and_eq_true, decide_eq_true_eq] at hdone
  obtain ⟨⟨hok, hrevoked⟩, hack⟩ := hdone
  cases result with
  | error error => cases hok
  | ok value =>
    refine ⟨l, os, reachable_free_of_scenario hplayed, LoopState.isIdle_iff.mp hidle, rfl, rfl,
      ⟨by simp, ?_, exists_ack hack⟩,
      fun h => hrevoked ((h.grants _).mpr ⟨hgranted, by simp⟩)⟩
    refine Outcome.ends_of_conclude (fun act hact w s hs => ?_) hconclude
    rcases List.mem_pair.mp hact with rfl | rfl
    · exact Option.some.inj hs ▸ .refl
    · simp only [answerThenExit, Option.bind_eq_bind, Option.bind_eq_some_iff] at hs
      obtain ⟨begun, hbegun, answered, hanswered, hexited⟩ := hs
      exact ((ReflTransGen.single (background_of_perform _ _ _ hbegun)).tail
        (background_of_perform _ _ _ hanswered)).tail
        (background_of_perform _ _ _ hexited)

end Scenario

end AgentOS

end MyTeam.Kernel


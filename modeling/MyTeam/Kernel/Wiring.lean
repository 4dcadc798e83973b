import MyTeam.Agent.Memory
import Mathlib.Data.List.Dedup
import Mathlib.Data.List.Sort
import Mathlib.Data.String.Basic

/-!
# What a position may see

The Authority builds the memory of an agent from its tables: the tools of the devices on which
the agent's position holds a grant, in the order of registration, then a written explanation of
every scope that is both declared and granted, in the order of the devices' names. Of equal
names the last one counts. An injection carries all of it, and the names that are gone.
-/

namespace MyTeam.Kernel

open MyTeam.Py MyTeam.Agent

namespace Authority

/-- The entries that `_build_inject` collects for an agent. -/
def view (a : Authority) (agent : Value) : Except Exc Entries := do
  let key ← agent.key
  match a.identities.lookup key with
  | none => .error (.keyError agent.repr)
  | some info => do
    let position ← info.position.key
    let granted := a.grants.filter fun grant => grant.position = position
    let new ← toolEntries granted a.identities []
    let devices ← sorted Key.lt (granted.map Grant.device).dedup
    a.skillEntries granted devices new

/-- What was injected into an agent before. -/
def snapshot (a : Authority) (agent : Key) : Entries := (a.injected.lookup agent).getD []

/-- An injection is the view, compared with what was injected before. -/
theorem buildInject_eq (a : Authority) (agent : Value) : a.buildInject agent = (do
    let new ← a.view agent
    let key ← agent.key
    return ({ a with injected := assign key new a.injected },
      applicationEvent agent (injectPayload (a.snapshot key) new))) := by
  simp only [buildInject, view]
  cases hkey : agent.key with
  | error error => rfl
  | ok key =>
    simp only [ok_bind]
    cases hlookup : a.identities.lookup key with
    | none => rfl
    | some info =>
      simp only [pure_bind]
      cases hposition : info.position.key with
      | error error => rfl
      | ok position =>
        simp only [ok_bind]
        cases htools : toolEntries (a.grants.filter fun grant => grant.position = position)
            a.identities [] with
        | error error => rfl
        | ok tools =>
          simp only [ok_bind]
          cases hdevices : sorted Key.lt
              ((a.grants.filter fun grant => grant.position = position).map Grant.device).dedup with
          | error error => rfl
          | ok devices =>
            simp only [ok_bind]
            cases hskills : a.skillEntries (a.grants.filter fun grant => grant.position = position)
                devices tools with
            | error error => rfl
            | ok skills => rfl

section Items

/-- The entry of a tool, with its name. -/
def toolItem (device : Key) (tool : Value) : Except Exc (Key × Value) := do
  let made ← entry device tool
  let name ← tool.item "name"
  return (← name.key, made)

/-- The explanation of a scope, with its name. -/
def skillItem (device : Key) (scope : Value) : Except Exc (Key × Value) := do
  let token ← scope.item "token"
  return (.str (← scopeName device token), ← permEntry device scope)

/-- The tools of a device. -/
def toolItems (device : Key) (info : Info) : Entries :=
  (info.tools.iter.toOption.getD []).filterMap fun tool => (toolItem device tool).toOption

/-- The declared scopes of a device that are among the granted tokens. -/
def skillItems (granted : List Grant) (device : Key) (info : Info) : Entries :=
  ((info.scopes.orElse (.list [])).iter.toOption.getD []).filterMap fun scope =>
    if granted.any fun grant => grant.device = device && (scope.field "token").hasKey grant.token then
      (skillItem device scope).toOption
    else none

/-- A registered device on which something is granted. -/
def isVisible (granted : List Grant) (registered : Key × Info) : Bool :=
  !registered.2.agent && granted.any fun grant => grant.device = registered.1

/-- Everything that the holder of these grants may see, in the order in which it is shown. -/
def visible (a : Authority) (granted : List Grant) : Entries :=
  ((a.identities.filter (isVisible granted)).flatMap fun registered =>
    toolItems registered.1 registered.2) ++
  ((sorted Key.lt (granted.map Grant.device).dedup).toOption.getD []).flatMap fun device =>
    match a.identities.lookup device with
    | some info => if info.agent then [] else skillItems granted device info
    | none => []

end Items

section Collect

variable {device : Key} {granted : List Grant} {new made : Entries}

/-- The tools of one device are collected in their order. -/
theorem addTools_eq {tools : List Value} (h : addTools device tools new = .ok made) :
    made = update new (tools.filterMap fun tool => (toolItem device tool).toOption) := by
  induction tools generalizing new with
  | nil => exact (Except.ok.inj h).symm
  | cons tool rest ih =>
    obtain ⟨entry, hentry, h⟩ := bind_eq_ok.mp h
    obtain ⟨name, hname, h⟩ := bind_eq_ok.mp h
    obtain ⟨key, hkey, h⟩ := bind_eq_ok.mp h
    have hitem : toolItem device tool = .ok (key, entry) := by
      simp only [toolItem, hentry, hname, hkey, ok_bind]
      rfl
    rw [ih h, List.filterMap_cons, hitem]
    rfl

/-- The tools of all visible devices are collected in the order of registration. -/
theorem toolEntries_eq {identities : List (Key × Info)} (h : toolEntries granted identities new = .ok made) :
    made = update new ((identities.filter (isVisible granted)).flatMap fun registered =>
      toolItems registered.1 registered.2) := by
  induction identities generalizing new with
  | nil => exact (Except.ok.inj h).symm
  | cons registered rest ih =>
    obtain ⟨device, info⟩ := registered
    rw [toolEntries] at h
    split at h
    next hhidden =>
      have hfilter : isVisible granted (device, info) = false := by
        rcases hhidden with hagent | hdevice
        · simp [isVisible, hagent]
        · have hnone : ∀ grant ∈ granted, grant.device ≠ device :=
            fun grant hmem heq => hdevice (List.mem_map.mpr ⟨grant, hmem, heq⟩)
          simpa [isVisible] using fun _ => hnone
      rw [List.filter_cons_of_neg (by simp [hfilter])]
      exact ih h
    next hvisible =>
      obtain ⟨hagent, hdevice⟩ := not_or.mp hvisible
      obtain ⟨grant, hmem, heq⟩ := List.mem_map.mp (not_not.mp hdevice)
      have hfilter : isVisible granted (device, info) = true := by
        simpa [isVisible, hagent] using ⟨grant, hmem, heq⟩
      obtain ⟨tools, htools, h⟩ := bind_eq_ok.mp h
      obtain ⟨added, hadded, h⟩ := bind_eq_ok.mp h
      rw [List.filter_cons_of_pos hfilter, List.flatMap_cons, update_append, ih h, addTools_eq hadded,
        toolItems, htools]
      rfl

/-- The scopes of one device are collected in their order. -/
theorem addSkills_eq {scopes : List Value} (h : addSkills device
      ((granted.filter fun grant => grant.device = device).map Grant.token) scopes new = .ok made) :
    made = update new (scopes.filterMap fun scope =>
      if granted.any fun grant => grant.device = device && (scope.field "token").hasKey grant.token then
        (skillItem device scope).toOption
      else none) := by
  induction scopes generalizing new with
  | nil => exact (Except.ok.inj h).symm
  | cons scope rest ih =>
    obtain ⟨token, htoken, h⟩ := bind_eq_ok.mp h
    have hany : ((granted.filter fun grant => grant.device = device).map Grant.token).any token.hasKey =
        granted.any fun grant => grant.device = device && (scope.field "token").hasKey grant.token := by
      rw [Value.field_of_item htoken, List.any_map, List.any_filter]
      rfl
    rw [hany] at h
    rw [List.filterMap_cons]
    split at h
    next hgranted =>
      obtain ⟨name, hname, h⟩ := bind_eq_ok.mp h
      obtain ⟨entry, hentry, h⟩ := bind_eq_ok.mp h
      have hitem : skillItem device scope = .ok (.str name, entry) := by
        simp only [skillItem, htoken, hname, hentry, ok_bind]
        rfl
      rw [if_pos hgranted, hitem, ih h]
      rfl
    next hgranted =>
      rw [if_neg hgranted, ih h]

/-- The scopes of all devices are collected in the order of the devices. -/
theorem skillEntries_eq {a : Authority} {devices : List Key}
    (h : a.skillEntries granted devices new = .ok made) :
    made = update new (devices.flatMap fun device =>
      match a.identities.lookup device with
      | some info => if info.agent then [] else skillItems granted device info
      | none => []) := by
  induction devices generalizing new with
  | nil => exact (Except.ok.inj h).symm
  | cons device rest ih =>
    rw [skillEntries] at h
    rw [List.flatMap_cons, update_append]
    split at h
    next hlookup =>
      rw [ih h, hlookup]
      rfl
    next info hlookup =>
      rw [hlookup]
      dsimp only
      split at h
      next hagent =>
        rw [if_pos hagent, ih h]
        rfl
      next hagent =>
        obtain ⟨scopes, hscopes, h⟩ := bind_eq_ok.mp h
        obtain ⟨added, hadded, h⟩ := bind_eq_ok.mp h
        rw [if_neg hagent, ih h, addSkills_eq hadded, skillItems, hscopes]
        rfl

end Collect

/-- A view shows what is visible to the holder of the position; of equal names the last one. -/
theorem view_eq {a : Authority} {agent : Value} {new : Entries} (h : a.view agent = .ok new) :
    ∃ key info position, agent.key = .ok key ∧ a.identities.lookup key = some info ∧
      info.position.key = .ok position ∧
      new = update [] (a.visible (a.grants.filter fun grant => grant.position = position)) := by
  obtain ⟨key, hkey, h⟩ := bind_eq_ok.mp h
  split at h
  · cases h
  next info hlookup =>
  obtain ⟨position, hposition, h⟩ := bind_eq_ok.mp h
  obtain ⟨tools, htools, h⟩ := bind_eq_ok.mp h
  obtain ⟨devices, hdevices, h⟩ := bind_eq_ok.mp h
  refine ⟨key, info, position, hkey, hlookup, hposition, ?_⟩
  rw [visible, update_append, ← toolEntries_eq htools, hdevices]
  exact skillEntries_eq h

section Names

/-- An agent files a tool under the name under which the Authority knows it. -/
theorem nameOf_toolItem {device : Key} {tool : Value} {item : Key × Value}
    (h : toolItem device tool = .ok item) : nameOf item.2 = .ok item.1 := by
  obtain ⟨made, hmade, h⟩ := bind_eq_ok.mp h
  obtain ⟨name, hname, h⟩ := bind_eq_ok.mp h
  obtain ⟨key, hkey, h⟩ := bind_eq_ok.mp h
  obtain rfl := Except.ok.inj h
  obtain ⟨name', hname', hmade⟩ := bind_eq_ok.mp hmade
  obtain rfl : name' = name := Except.ok.inj (hname'.symm.trans hname)
  obtain ⟨description, -, hmade⟩ := bind_eq_ok.mp hmade
  obtain ⟨parameters, -, hmade⟩ := bind_eq_ok.mp hmade
  obtain ⟨trigger, -, hmade⟩ := bind_eq_ok.mp hmade
  obtain ⟨triggers, -, hmade⟩ := bind_eq_ok.mp hmade
  obtain ⟨priority, -, hmade⟩ := bind_eq_ok.mp hmade
  obtain ⟨_, -, hmade⟩ := bind_eq_ok.mp hmade
  obtain ⟨_, -, hmade⟩ := bind_eq_ok.mp hmade
  obtain rfl := Except.ok.inj hmade
  exact hkey

/-- So it does with the explanation of a scope. -/
theorem nameOf_skillItem {device : Key} {scope : Value} {item : Key × Value}
    (h : skillItem device scope = .ok item) : nameOf item.2 = .ok item.1 := by
  obtain ⟨token, htoken, h⟩ := bind_eq_ok.mp h
  obtain ⟨name, hname, h⟩ := bind_eq_ok.mp h
  obtain ⟨made, hmade, h⟩ := bind_eq_ok.mp h
  obtain rfl := Except.ok.inj h
  obtain ⟨token', htoken', hmade⟩ := bind_eq_ok.mp hmade
  obtain rfl : token' = token := Except.ok.inj (htoken'.symm.trans htoken)
  obtain ⟨name', hname', hmade⟩ := bind_eq_ok.mp hmade
  obtain rfl : name' = name := Except.ok.inj (hname'.symm.trans hname)
  obtain ⟨explanation, -, hmade⟩ := bind_eq_ok.mp hmade
  obtain rfl := Except.ok.inj hmade
  rfl

/-- A success is a value. -/
theorem eq_ok_of_toOption {α : Type} {x : Except Exc α} {value : α} (h : x.toOption = some value) :
    x = .ok value := by
  cases x with
  | error error => cases h
  | ok other => exact congrArg Except.ok (Option.some.inj h)

/-- Everything that is visible has its name. -/
theorem named_visible (a : Authority) (granted : List Grant) : Named (a.visible granted) := by
  intro item hitem
  rcases List.mem_append.mp hitem with hitem | hitem
  · obtain ⟨registered, -, hitem⟩ := List.mem_flatMap.mp hitem
    obtain ⟨tool, -, hitem⟩ := List.mem_filterMap.mp hitem
    exact nameOf_toolItem (eq_ok_of_toOption hitem)
  · obtain ⟨device, -, hitem⟩ := List.mem_flatMap.mp hitem
    split at hitem
    next info _ =>
      split at hitem
      · cases hitem
      · obtain ⟨scope, -, hitem⟩ := List.mem_filterMap.mp hitem
        split at hitem
        · exact nameOf_skillItem (eq_ok_of_toOption hitem)
        · cases hitem
    next => cases hitem

/-- The entries of a view have their names. -/
theorem named_view {a : Authority} {agent : Value} {new : Entries} (h : a.view agent = .ok new) :
    Named new := by
  obtain ⟨key, info, position, -, -, -, rfl⟩ := view_eq h
  intro item hitem
  rcases mem_items_update hitem with hitem | hitem
  · cases hitem
  · exact named_visible a _ item hitem

/-- No name stands in a view twice. -/
theorem nodup_view {a : Authority} {agent : Value} {new : Entries} (h : a.view agent = .ok new) :
    (new.map Prod.fst).Nodup := by
  obtain ⟨key, info, position, -, -, -, rfl⟩ := view_eq h
  exact nodup_keys_update List.nodup_nil

end Names

section Order

/-- Names are sorted as strings. -/
theorem sorted_str (names : List String) :
    sorted Key.lt (names.map Key.str) = .ok ((names.insertionSort (· ≤ ·)).map Key.str) := by
  have hinsert (name : String) (names : List String) : insertSorted Key.lt (.str name) (names.map Key.str) =
      .ok ((names.orderedInsert (· ≤ ·) name).map Key.str) := by
    induction names with
    | nil => rfl
    | cons first rest ih =>
      rw [List.map_cons, insertSorted]
      by_cases hlt : first < name
      · simp [Key.lt, hlt, ih, not_le.mpr hlt, pure, Except.pure]
      · simp [Key.lt, hlt, not_lt.mp hlt, pure, Except.pure]
  induction names with
  | nil => rfl
  | cons name rest ih => rw [List.map_cons, sorted, ih, ok_bind, hinsert, List.insertionSort_cons]

/-- The order in which names are collected does not matter to the sorted list. -/
theorem sorted_congr {names names' : List Key} (hnodup : names.Nodup) (hnodup' : names'.Nodup)
    (hstr : ∀ key ∈ names, ∃ name, key = .str name) (hmem : ∀ key, key ∈ names ↔ key ∈ names') :
    sorted Key.lt names = sorted Key.lt names' := by
  have hlift (keys : List Key) (h : ∀ key ∈ keys, ∃ name, key = .str name) :
      ∃ names : List String, names.map Key.str = keys := by
    induction keys with
    | nil => exact ⟨[], rfl⟩
    | cons key rest ih =>
      obtain ⟨name, rfl⟩ := h key List.mem_cons_self
      obtain ⟨names, rfl⟩ := ih fun other hother => h other (List.mem_cons_of_mem _ hother)
      exact ⟨name :: names, rfl⟩
  obtain ⟨strs, rfl⟩ := hlift names hstr
  obtain ⟨strs', rfl⟩ := hlift names' fun key hkey => hstr key ((hmem key).mpr hkey)
  have hperm : strs.Perm strs' := by
    refine (List.perm_ext_iff_of_nodup hnodup.of_map hnodup'.of_map).mpr fun name => ?_
    simpa using hmem (.str name)
  rw [sorted_str, sorted_str]
  congr 2
  refine List.Perm.eq_of_pairwise (fun _ _ _ _ => le_antisymm) (List.pairwise_insertionSort (· ≤ ·) strs)
    (List.pairwise_insertionSort (· ≤ ·) strs') ?_
  exact ((List.perm_insertionSort _ _).trans hperm).trans (List.perm_insertionSort _ _).symm

/-- What is visible depends on the set of the grants. -/
theorem visible_congr {a a' : Authority} {granted granted' : List Grant}
    (hidentities : a'.identities = a.identities) (hgrants : ∀ grant, grant ∈ granted ↔ grant ∈ granted')
    (hstr : ∀ grant ∈ granted, ∃ name, grant.device = .str name) :
    a.visible granted = a'.visible granted' := by
  have hany (p : Grant → Bool) : granted.any p = granted'.any p := by
    rw [Bool.eq_iff_iff, List.any_eq_true, List.any_eq_true]
    simp only [hgrants]
  have hsorted : sorted Key.lt (granted.map Grant.device).dedup =
      sorted Key.lt (granted'.map Grant.device).dedup := by
    refine sorted_congr (List.nodup_dedup _) (List.nodup_dedup _) (fun key hkey => ?_) fun key => ?_
    · obtain ⟨grant, hgrant, rfl⟩ := List.mem_map.mp (List.mem_dedup.mp hkey)
      exact hstr grant hgrant
    · simp only [List.mem_dedup, List.mem_map, hgrants]
  have hvisible : isVisible granted = isVisible granted' := by
    funext registered
    simp only [isVisible, hany]
  simp only [visible, hvisible, skillItems, hidentities, hany, hsorted]

end Order

end Authority

end MyTeam.Kernel

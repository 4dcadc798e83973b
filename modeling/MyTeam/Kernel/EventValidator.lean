import MyTeam.Py.Value

/-!
# Event validation

An event is a dictionary with the fields `source`, `target`, `kind` and `payload`. The rules
are checked in order and the first violation decides. Only an `EventError` is a verdict: the
rules read fields of any shape, and some shapes make a rule itself raise.
-/

namespace MyTeam.Kernel

open MyTeam.Py

/-- `SYSTEM_COMMANDS`. -/
def systemCommands : List Key :=
  [.str "terminate", .str "install_device", .str "uninstall_device", .str "grant_scope",
    .str "revoke_scope"]

/-- `KERNEL_COMMANDS`: the system commands that only the kernel may be addressed with. -/
def kernelCommands : List Key :=
  [.str "install_device", .str "uninstall_device", .str "grant_scope", .str "revoke_scope"]

/-- `KIND_LEVELS`. -/
def kindLevels : List Key := [.str "system", .str "application"]

/-- Why an event is not well formed. -/
inductive EventError where
  | notDict (event : Value)
  | badSource (source : Value)
  | badTarget (target : Value)
  | unknownKind (kind : Value)
  | unknownCommand (command : Value)
  | kernelOnly (command target : Value)
  | sourceUnregistered (source : Value)
  | targetUnregistered (target : Value)

/-- `str(err)`. -/
def EventError.message : EventError → String
  | .notDict event => "事件必须是 dict，got " ++ event.typeName
  | .badSource source => "source 必须是非空字符串，got " ++ source.repr
  | .badTarget target => "target 必须是非空字符串，got " ++ target.repr
  | .unknownKind kind =>
    "未知 kind 层级: " ++ kind.repr ++ "（合法: ['application', 'system']）"
  | .unknownCommand command => "未知 system command: " ++ command.repr ++
      "（合法: ['grant_scope', 'install_device', 'revoke_scope', 'terminate', 'uninstall_device']）"
  | .kernelOnly command target =>
    "系统命令 " ++ command.repr ++ " 仅可寻址 kernel，got " ++ target.repr
  | .sourceUnregistered source => "source 未注册: " ++ source.repr
  | .targetUnregistered target => "target 未注册: " ++ target.repr

/-- What the text of the error quotes. -/
def EventError.quoted : EventError → List Value
  | .notDict _ => []
  | .badSource v | .badTarget v | .unknownKind v | .unknownCommand v | .sourceUnregistered v
  | .targetUnregistered v => [v]
  | .kernelOnly command target => [command, target]

/-- The text is made where the rule raises the error; quoting an int without a text raises
something else. Nesting that is too deep for `repr` is too deep for the Journal as well. -/
def EventError.text (error : EventError) : Except Exc String :=
  if Value.printableList error.quoted then .ok error.message else .error Value.tooLong

/-- How a rule rejects: by an `EventError`, or by raising something else. -/
inductive Failure where
  | event (error : EventError)
  | exc (error : Exc)

/-- Let the exceptions of an expression escape from a rule. -/
def orRaise {α : Type} : Except Exc α → Except Failure α
  | .ok value => .ok value
  | .error error => .error (.exc error)

/-- The outcome of `validate_event`. -/
inductive Verdict where
  | accepted
  | rejected (error : EventError)
  | raised (error : Exc)

/-- An acceptance. -/
def Verdict.isAccepted : Verdict → Bool
  | .accepted => true
  | _ => false

/-- There is one. -/
theorem Verdict.isAccepted_iff {verdict : Verdict} : verdict.isAccepted = true ↔ verdict = .accepted := by
  cases verdict <;> simp [isAccepted]

/-- A rejection. -/
def Verdict.isRejected : Verdict → Bool
  | .rejected _ => true
  | _ => false

/-- A rejection has a reason. -/
theorem Verdict.isRejected_iff {verdict : Verdict} :
    verdict.isRejected = true ↔ ∃ error, verdict = .rejected error := by
  cases verdict <;> simp [isRejected]

/-- A nonempty string. -/
def isName : Value → Bool
  | .str s => s ≠ ""
  | _ => false

/-- `IsDict.validate`. -/
def isDictRule (event : Value) : Except Failure Unit :=
  if event.isDict then .ok () else .error (.event (.notDict event))

/-- `HasSource.validate`. -/
def hasSource (event : Value) : Except Failure Unit := do
  let source ← orRaise (event.get "source" .none)
  if isName source then return () else throw (.event (.badSource source))

/-- `HasTarget.validate`. -/
def hasTarget (event : Value) : Except Failure Unit := do
  let target ← orRaise (event.get "target" .none)
  if isName target then return () else throw (.event (.badTarget target))

/-- `KnownKind.validate`: set membership hashes the kind. -/
def knownKind (event : Value) : Except Failure Unit := do
  let kind ← orRaise (event.get "kind" .none)
  if (← orRaise kind.key) ∈ kindLevels then return () else throw (.event (.unknownKind kind))

/-- `SystemCommand.validate`: `event.get("payload", {}).get("command")` needs a dictionary
payload, and set membership hashes the command. -/
def systemCommand (event : Value) : Except Failure Unit := do
  let kind ← orRaise (event.get "kind" .none)
  if !kind.isStr "system" then return ()
  let payload ← orRaise (event.get "payload" (.dict []))
  let command ← orRaise (payload.get "command" .none)
  let key ← orRaise command.key
  if key ∉ systemCommands then throw (.event (.unknownCommand command))
  let target ← orRaise (event.get "target" .none)
  if key ∈ kernelCommands ∧ ¬ target.isStr "kernel" then throw (.event (.kernelOnly command target))

/-- Membership of a name in the registry. -/
def registeredIn (registry : String → Bool) : Value → Bool
  | .str s => registry s
  | _ => false

/-- `SourceRegistered.validate`. -/
def sourceRegistered (registry : String → Bool) (event : Value) : Except Failure Unit := do
  let source ← orRaise (event.get "source" .none)
  if registeredIn registry source then return () else throw (.event (.sourceUnregistered source))

/-- `TargetRegistered.validate`. -/
def targetRegistered (registry : String → Bool) (event : Value) : Except Failure Unit := do
  let target ← orRaise (event.get "target" .none)
  if registeredIn registry target then return () else throw (.event (.targetUnregistered target))

/-- The rules of the kernel in the order in which they are checked. -/
def rules (registry : String → Bool) : List (Value → Except Failure Unit) :=
  [isDictRule, hasSource, hasTarget, knownKind, systemCommand, sourceRegistered registry,
    targetRegistered registry]

/-- `validate_event`: the first rule that fails decides. -/
def checkRules (event : Value) : List (Value → Except Failure Unit) → Verdict
  | [] => .accepted
  | rule :: rest =>
    match rule event with
    | .ok () => checkRules event rest
    | .error (.event error) => .rejected error
    | .error (.exc error) => .raised error

/-- `validate_event(event, self.rules)`. -/
def validateEvent (registry : String → Bool) (event : Value) : Verdict :=
  checkRules event (rules registry)

section Dict

variable (registry : String → Bool) (kvs : List (String × Value))

/-- On a dictionary, `HasSource` looks at one field. -/
theorem hasSource_dict : hasSource (.dict kvs) =
    if isName (Value.field (.dict kvs) "source") then .ok ()
    else .error (.event (.badSource (Value.field (.dict kvs) "source"))) := rfl

/-- On a dictionary, `HasTarget` looks at one field. -/
theorem hasTarget_dict : hasTarget (.dict kvs) =
    if isName (Value.field (.dict kvs) "target") then .ok ()
    else .error (.event (.badTarget (Value.field (.dict kvs) "target"))) := rfl

/-- On a dictionary, `KnownKind` hashes one field. -/
theorem knownKind_dict : knownKind (.dict kvs) =
    match (Value.field (.dict kvs) "kind").key with
    | .error error => .error (.exc error)
    | .ok key => if key ∈ kindLevels then .ok ()
      else .error (.event (.unknownKind (Value.field (.dict kvs) "kind"))) := by
  unfold knownKind
  change (orRaise (Value.field (.dict kvs) "kind").key >>= _) = _
  cases (Value.field (.dict kvs) "kind").key <;> rfl

/-- On a dictionary, `SourceRegistered` looks up one field. -/
theorem sourceRegistered_dict : sourceRegistered registry (.dict kvs) =
    if registeredIn registry (Value.field (.dict kvs) "source") then .ok ()
    else .error (.event (.sourceUnregistered (Value.field (.dict kvs) "source"))) := rfl

/-- On a dictionary, `TargetRegistered` looks up one field. -/
theorem targetRegistered_dict : targetRegistered registry (.dict kvs) =
    if registeredIn registry (Value.field (.dict kvs) "target") then .ok ()
    else .error (.event (.targetUnregistered (Value.field (.dict kvs) "target"))) := rfl

/-- `SystemCommand` does not look at events of another kind. -/
theorem systemCommand_other (h : Value.field (.dict kvs) "kind" ≠ .str "system") :
    systemCommand (.dict kvs) = .ok () := by
  have hkind : (Value.field (.dict kvs) "kind").isStr "system" = false := by
    unfold Value.isStr
    split
    · next t ht => exact decide_eq_false fun hs => h (by rw [ht, hs])
    · rfl
  change (if !(Value.field (.dict kvs) "kind").isStr "system" then _ else _) = _
  simp only [hkind]
  rfl

/-- `SystemCommand` on a system event: the payload, by default an empty dictionary, must be
a dictionary, and its command hashable. -/
theorem systemCommand_system (h : Value.field (.dict kvs) "kind" = .str "system") :
    systemCommand (.dict kvs) =
      match ((kvs.lookup "payload").getD (.dict [])).get "command" .none with
      | .error error => .error (.exc error)
      | .ok command =>
        match command.key with
        | .error error => .error (.exc error)
        | .ok key =>
          if key ∉ systemCommands then .error (.event (.unknownCommand command))
          else if key ∈ kernelCommands ∧ ¬ (Value.field (.dict kvs) "target").isStr "kernel" then
            .error (.event (.kernelOnly command (Value.field (.dict kvs) "target")))
          else .ok () := by
  have hkind : (Value.field (.dict kvs) "kind").isStr "system" = true := by
    rw [h]
    rfl
  change (if !(Value.field (.dict kvs) "kind").isStr "system" then _ else _) = _
  simp only [hkind]
  change (orRaise (((kvs.lookup "payload").getD (.dict [])).get "command" .none) >>= _) = _
  cases ((kvs.lookup "payload").getD (.dict [])).get "command" .none with
  | error error => rfl
  | ok command =>
    change (orRaise command.key >>= _) = match command.key with | .error _ => _ | .ok _ => _
    cases command.key with
    | error error => rfl
    | ok key =>
      change (if key ∉ systemCommands then _ else _) = if key ∉ systemCommands then _ else _
      split
      · rfl
      · change (if key ∈ kernelCommands ∧ ¬ (Value.field (.dict kvs) "target").isStr "kernel" then _
          else _) = _
        split <;> rfl

end Dict

/-- The payload, by default an empty dictionary, is a dictionary with a hashable command. -/
def readablePayload (event : Value) : Bool :=
  match event.get "payload" (.dict []) with
  | .ok (.dict kvs) => (Value.field (.dict kvs) "command").hashable
  | _ => false

/-- Some rule raises on the event: the first three pass, and then the kind cannot be hashed,
or the kind is `system` and the command cannot be read or hashed. -/
def unreadable (event : Value) : Bool :=
  event.isDict && isName (event.field "source") && isName (event.field "target") &&
    (!(event.field "kind").hashable ||
      (event.field "kind").isStr "system" && !readablePayload event)

/-- A nonempty string, as a value and as a string. -/
theorem isName_iff {v : Value} : isName v = true ↔ ∃ s, v = .str s ∧ s ≠ "" := by
  cases v <;> simp [isName]

/-- A registered name, as a value and as a string. -/
theorem registeredIn_iff {registry : String → Bool} {v : Value} :
    registeredIn registry v = true ↔ ∃ s, v = .str s ∧ registry s = true := by
  cases v <;> simp [registeredIn]

/-- A value that hashes like a string is that string. -/
theorem key_eq_str {v : Value} {s : String} : v.key = .ok (.str s) ↔ v = .str s := by
  cases v <;> simp [Value.key]

/-- A rule that passes leaves the verdict to the rules after it. -/
theorem checkRules_accepted {event : Value} {rule : Value → Except Failure Unit}
    {rest : List (Value → Except Failure Unit)} :
    checkRules event (rule :: rest) = .accepted ↔
      rule event = .ok () ∧ checkRules event rest = .accepted := by
  rw [checkRules]
  split <;> simp [*]

/-- What an accepted event looks like: both ends are registered names, and a system event
carries a known command, addressed to the kernel unless it is `terminate`. -/
structure Accepted (registry : String → Bool) (event : Value) (source target : String) : Prop where
  dict : ∃ kvs, event = .dict kvs
  source_eq : event.field "source" = .str source
  target_eq : event.field "target" = .str target
  source_registered : registry source = true
  target_registered : registry target = true
  kind : event.field "kind" = .str "application" ∨ event.field "kind" = .str "system" ∧
    ∃ command, (event.field "payload").field "command" = .str command ∧
      .str command ∈ systemCommands ∧ (.str command ∈ kernelCommands → target = "kernel")

/-- What `KnownKind` accepts. -/
theorem knownKind_ok {kvs : List (String × Value)} (h : knownKind (.dict kvs) = .ok ()) :
    Value.field (.dict kvs) "kind" = .str "system" ∨
      Value.field (.dict kvs) "kind" = .str "application" := by
  rw [knownKind_dict] at h
  split at h
  · exact absurd h (by simp)
  · next key hkey =>
    split at h
    · next hmem =>
      rcases List.mem_pair.mp hmem with rfl | rfl
      · exact Or.inl (key_eq_str.mp hkey)
      · exact Or.inr (key_eq_str.mp hkey)
    · exact absurd h (by simp)

/-- What `SystemCommand` accepts of a system event. -/
theorem systemCommand_ok {kvs : List (String × Value)} {target : String}
    (hkind : Value.field (.dict kvs) "kind" = .str "system")
    (htarget : Value.field (.dict kvs) "target" = .str target)
    (h : systemCommand (.dict kvs) = .ok ()) :
    ∃ command, (Value.field (.dict kvs) "payload").field "command" = .str command ∧
      .str command ∈ systemCommands ∧ (.str command ∈ kernelCommands → target = "kernel") := by
  rw [systemCommand_system kvs hkind] at h
  split at h
  · exact absurd h (by simp)
  next command hcommand =>
  split at h
  · exact absurd h (by simp)
  next key hkey =>
  split at h
  · exact absurd h (by simp)
  next hknown =>
  split at h
  · exact absurd h (by simp)
  next hkernel =>
  obtain ⟨name, rfl⟩ : ∃ name, key = .str name := by
    have : key ∈ systemCommands := not_not.mp hknown
    simp only [systemCommands, List.mem_cons, List.not_mem_nil, or_false] at this
    rcases this with rfl | rfl | rfl | rfl | rfl <;> exact ⟨_, rfl⟩
  obtain rfl := key_eq_str.mp hkey
  refine ⟨name, ?_, not_not.mp hknown, fun hmem => ?_⟩
  · cases hpayload : kvs.lookup "payload" with
    | none => simp [hpayload, Value.get] at hcommand
    | some payload =>
      cases payload <;> simp_all [Value.get, Value.field]
  · have := not_and_not_right.mp hkernel hmem
    rw [htarget] at this
    simpa [Value.isStr] using this

/-- Acceptance inverted. -/
theorem accepted_of_validateEvent {registry : String → Bool} {event : Value}
    (h : validateEvent registry event = .accepted) :
    ∃ source target, Accepted registry event source target := by
  simp only [validateEvent, rules, checkRules_accepted] at h
  obtain ⟨hdict, hsource, htarget, hkind, hsystem, hregs, hregt, -⟩ := h
  obtain ⟨kvs, rfl⟩ : ∃ kvs, event = .dict kvs := by
    cases event <;> simp_all [isDictRule, Value.isDict]
  rw [sourceRegistered_dict] at hregs
  rw [targetRegistered_dict] at hregt
  obtain ⟨source, hsource, hregs⟩ := registeredIn_iff.mp (by simpa using hregs)
  obtain ⟨target, htarget, hregt⟩ := registeredIn_iff.mp (by simpa using hregt)
  refine ⟨source, target, ⟨kvs, rfl⟩, hsource, htarget, hregs, hregt, ?_⟩
  rcases knownKind_ok hkind with hkind | hkind
  · exact Or.inr ⟨hkind, systemCommand_ok hkind htarget hsystem⟩
  · exact Or.inl hkind

/-- An event that looks so, with nonempty ends, is accepted. -/
theorem Accepted.validateEvent {registry : String → Bool} {event : Value} {source target : String}
    (h : Accepted registry event source target) (hsource : source ≠ "") (htarget : target ≠ "") :
    validateEvent registry event = .accepted := by
  obtain ⟨kvs, rfl⟩ := h.dict
  have hknown : knownKind (.dict kvs) = .ok () := by
    rw [knownKind_dict]
    rcases h.kind with hkind | ⟨hkind, -⟩ <;> simp [hkind, Value.key, kindLevels]
  have hcommand : systemCommand (.dict kvs) = .ok () := by
    rcases h.kind with hkind | ⟨hkind, command, hcommand, hknown, hkernel⟩
    · exact systemCommand_other kvs (by simp [hkind])
    · have hget : ((kvs.lookup "payload").getD (.dict [])).get "command" .none = .ok (.str command) := by
        cases hpayload : kvs.lookup "payload" with
        | none => simp [Value.field, hpayload] at hcommand
        | some payload => cases payload <;> simp_all [Value.field, Value.get]
      have hkey : (Value.str command).key = .ok (.str command) := rfl
      rw [systemCommand_system kvs hkind, hget]
      simp only [hkey, hknown, not_true_eq_false, if_false, h.target_eq]
      exact if_neg fun hnot => hnot.2 (by simp [Value.isStr, hkernel hnot.1])
  simp only [MyTeam.Kernel.validateEvent, rules, checkRules_accepted, hknown, hcommand,
    hasSource_dict, hasTarget_dict, sourceRegistered_dict, targetRegistered_dict, h.source_eq,
    h.target_eq]
  simp [isDictRule, Value.isDict, isName, registeredIn, hsource, htarget, h.source_registered,
    h.target_registered, checkRules]

/-- A rule that passes leaves it to the rules after it to raise. -/
theorem checkRules_raised {event : Value} (rule : Value → Except Failure Unit)
    {rest : List (Value → Except Failure Unit)} {error : Exc} :
    checkRules event (rule :: rest) = .raised error ↔
      rule event = .error (.exc error) ∨ rule event = .ok () ∧ checkRules event rest = .raised error := by
  rw [checkRules]
  split <;> simp [*]

/-- Hashing raises exactly on what is not hashable. -/
theorem key_error_iff {v : Value} : (∃ error, v.key = .error error) ↔ v.hashable = false := by
  cases v <;> simp [Value.key, Value.hashable]

/-- When `SystemCommand` raises on a system event. -/
theorem systemCommand_raises_iff {kvs : List (String × Value)}
    (hkind : Value.field (.dict kvs) "kind" = .str "system") :
    (∃ error, systemCommand (.dict kvs) = .error (.exc error)) ↔
      readablePayload (.dict kvs) = false := by
  rw [systemCommand_system kvs hkind, readablePayload, Value.get]
  generalize (kvs.lookup "payload").getD (.dict []) = payload
  cases payload with
  | dict items =>
    have hcommand : (items.lookup "command").getD Value.none = Value.field (.dict items) "command" := rfl
    simp only [Value.get, hcommand, ← key_error_iff]
    cases (Value.field (.dict items) "command").key with
    | error error => simp
    | ok key =>
      simp only [reduceCtorEq, exists_false, iff_false, not_exists]
      intro error
      split
      · simp
      · split <;> simp
  | _ => simp [Value.get]

/-- The last two rules do not raise. -/
theorem checkRegistered_not_raised (registry : String → Bool) (kvs : List (String × Value)) (error : Exc) :
    checkRules (.dict kvs) [sourceRegistered registry, targetRegistered registry] ≠ .raised error := by
  simp only [sourceRegistered_dict, targetRegistered_dict, checkRules]
  by_cases hsource : registeredIn registry (Value.field (.dict kvs) "source") = true <;>
    by_cases htarget : registeredIn registry (Value.field (.dict kvs) "target") = true <;>
      simp [hsource, htarget]

/-- When `KnownKind` and the rules after it raise. -/
theorem checkKind_raises_iff (registry : String → Bool) (kvs : List (String × Value)) :
    (∃ error, checkRules (.dict kvs) [knownKind, systemCommand, sourceRegistered registry,
      targetRegistered registry] = .raised error) ↔
      (Value.field (.dict kvs) "kind").hashable = false ∨
        Value.field (.dict kvs) "kind" = .str "system" ∧ readablePayload (.dict kvs) = false := by
  have hlast := checkRegistered_not_raised registry kvs
  simp only [checkRules_raised knownKind, checkRules_raised systemCommand, hlast,
    and_false, or_false, knownKind_dict]
  cases hkey : (Value.field (.dict kvs) "kind").key with
  | error error => simp [key_error_iff.mp ⟨error, hkey⟩]
  | ok key =>
    have hhash : (Value.field (.dict kvs) "kind").hashable = true := Value.hashable_of_key hkey
    by_cases hsystem : Value.field (.dict kvs) "kind" = .str "system"
    · obtain rfl : .str "system" = key := by simpa [hsystem] using hkey
      simp [hsystem, kindLevels, systemCommand_raises_iff hsystem, Value.hashable]
    · have hother := systemCommand_other kvs hsystem
      by_cases hmem : key ∈ kindLevels <;> simp [hhash, hsystem, hmem, hother]

/-- When validation raises. -/
theorem validateEvent_raises_iff {registry : String → Bool} {event : Value} :
    (∃ error, validateEvent registry event = .raised error) ↔ unreadable event = true := by
  cases event with
  | dict kvs =>
    have hdict : isDictRule (.dict kvs) = .ok () := rfl
    have hkind := checkKind_raises_iff registry kvs
    simp only [validateEvent, rules, checkRules_raised isDictRule,
      checkRules_raised hasSource, checkRules_raised hasTarget, hdict,
      hasSource_dict, hasTarget_dict, unreadable, Value.isDict, Bool.true_and]
    by_cases hsource : isName (Value.field (.dict kvs) "source") = true <;>
      by_cases htarget : isName (Value.field (.dict kvs) "target") = true <;>
        simp [hsource, htarget, hkind, Value.isStr_iff]
  | _ => simp [validateEvent, rules, checkRules_raised, isDictRule, unreadable, Value.isDict]

section Quotes

variable {registry : String → Bool} {event : Value} {reason : EventError}

/-- A rejection comes from one of the rules. -/
theorem rule_of_rejected {rules : List (Value → Except Failure Unit)}
    (h : checkRules event rules = .rejected reason) : ∃ rule ∈ rules, rule event = .error (.event reason) := by
  induction rules with
  | nil => simp [checkRules] at h
  | cons rule rest ih =>
    rw [checkRules] at h
    split at h
    · obtain ⟨other, hmem, hother⟩ := ih h
      exact ⟨other, List.mem_cons_of_mem _ hmem, hother⟩
    next error herror => exact ⟨rule, List.mem_cons_self, by rw [herror, Verdict.rejected.inj h]⟩
    · simp at h

/-- What the command rule quotes has texts if the payload has. -/
theorem printable_of_systemCommand {kvs : List (String × Value)} (hprintable : (Value.dict kvs).printable = true)
    (h : systemCommand (.dict kvs) = .error (.event reason)) : Value.printableList reason.quoted = true := by
  by_cases hkind : Value.field (.dict kvs) "kind" = .str "system"
  · have hpayload : ((kvs.lookup "payload").getD (.dict [])).printable = true := by
      cases hlookup : kvs.lookup "payload" with
      | none => rfl
      | some payload => exact Value.printable_of_lookup hprintable hlookup
    rw [systemCommand_system kvs hkind] at h
    split at h
    · simp at h
    next command hcommand =>
    have hquoted : command.printable = true := by
      rw [← Value.field_of_get hcommand]
      exact Value.printable_field _ hpayload
    have htarget := Value.printable_field "target" hprintable
    split at h
    · simp at h
    split at h
    · obtain rfl := Failure.event.inj (Except.error.inj h)
      simp [EventError.quoted, Value.printableList, hquoted]
    split at h
    · obtain rfl := Failure.event.inj (Except.error.inj h)
      simp [EventError.quoted, Value.printableList, hquoted, htarget]
    · simp at h
  · simp [systemCommand_other kvs hkind] at h

/-- What the text of an error quotes is part of the event. -/
theorem printable_of_rejected (hprintable : event.printable = true)
    (h : validateEvent registry event = .rejected reason) : Value.printableList reason.quoted = true := by
  cases event with
  | dict kvs =>
    have hfield (key : String) := Value.printable_field key hprintable
    obtain ⟨rule, hmem, hrule⟩ := rule_of_rejected h
    simp only [rules, List.mem_cons, List.not_mem_nil, or_false] at hmem
    rcases hmem with rfl | rfl | rfl | rfl | rfl | rfl | rfl
    · simp [isDictRule, Value.isDict] at hrule
    · rw [hasSource_dict] at hrule
      split at hrule
      · simp at hrule
      · obtain rfl := Failure.event.inj (Except.error.inj hrule)
        simp [EventError.quoted, Value.printableList, hfield]
    · rw [hasTarget_dict] at hrule
      split at hrule
      · simp at hrule
      · obtain rfl := Failure.event.inj (Except.error.inj hrule)
        simp [EventError.quoted, Value.printableList, hfield]
    · rw [knownKind_dict] at hrule
      split at hrule
      · simp at hrule
      split at hrule
      · simp at hrule
      · obtain rfl := Failure.event.inj (Except.error.inj hrule)
        simp [EventError.quoted, Value.printableList, hfield]
    · exact printable_of_systemCommand hprintable hrule
    · rw [sourceRegistered_dict] at hrule
      split at hrule
      · simp at hrule
      · obtain rfl := Failure.event.inj (Except.error.inj hrule)
        simp [EventError.quoted, Value.printableList, hfield]
    · rw [targetRegistered_dict] at hrule
      split at hrule
      · simp at hrule
      · obtain rfl := Failure.event.inj (Except.error.inj hrule)
        simp [EventError.quoted, Value.printableList, hfield]
  | _ =>
    obtain rfl : EventError.notDict _ = reason := Verdict.rejected.inj h
    rfl

/-- The text of an error can be made if the event has texts. -/
theorem text_of_rejected (hprintable : event.printable = true)
    (h : validateEvent registry event = .rejected reason) : reason.text = .ok reason.message :=
  if_pos (printable_of_rejected hprintable h)

end Quotes

end MyTeam.Kernel

import MyTeam.Legacy.Inverses
import MyTeam.Legacy.Versions
import MyTeam.Undo.Stores

/-!
# Undoing effects on the knowledge base, the calendar and the outbox

An effect on one of these stores changes one entry of it and reads no other, and what its inverse
leaves is what was there before. The inverse of an advance goes by the resource of the effect, the
advance itself by the rule it names.
-/

namespace MyTeam.Legacy

open MyTeam.Py MyTeam.Undo

namespace SharedKB

variable {kb kb' : SharedKB} {path other agent : String} {content expectedVersion : Value} {tick version : ℕ}
  {resource : Option SharedKBResource} {info : Option VersionInfo}

/-- The version of another path stays when a resource is put back. -/
theorem getVersion_restore (h : path ≠ other) :
    (kb.restore other resource info).getVersion path = kb.getVersion path := by
  simp [getVersion, restore, h]

/-- Storing commutes with putting back another resource. -/
theorem store_restore (h : path ≠ other) : (kb.restore other resource info).store path agent tick content version =
    (kb.store path agent tick content version).restore other resource info := by
  unfold store
  rw [getVersion_restore h]
  simp only [restore, Function.update_comm h]

/-- A creation does the same where another resource is put back. -/
theorem create_restore (h : path ≠ other) (done : kb.create path agent content tick = .ok kb') :
    (kb.restore other resource info).create path agent content tick = .ok (kb'.restore other resource info) := by
  have hresource : (kb.restore other resource info).resources path = kb.resources path := by simp [restore, h]
  have hpermits : (kb.restore other resource info).permits agent path "create" = kb.permits agent path "create" := rfl
  rw [create_eq_ok done, ← store_restore h]
  unfold create at done ⊢
  rw [hresource, hpermits]
  split at done
  · cases done
  next hallowed =>
    rw [if_neg hallowed]
    split at done
    · cases done
    next habsent =>
      rw [if_neg habsent]
      split at done
      · rfl
      · cases done

/-- A write does the same where another resource is put back. -/
theorem applyCommitted_restore (h : path ≠ other)
    (done : kb.applyCommitted path agent content expectedVersion tick = .ok kb') :
    (kb.restore other resource info).applyCommitted path agent content expectedVersion tick =
      .ok (kb'.restore other resource info) := by
  have hlock : (kb.restore other resource info).getLock path = kb.getLock path := rfl
  have hpermits : (kb.restore other resource info).permits agent path "write" = kb.permits agent path "write" := rfl
  rw [(applyCommitted_eq_ok done).1, ← store_restore h]
  unfold applyCommitted at done ⊢
  rw [hlock, hpermits, getVersion_restore h]
  split at done
  · cases done
  next hallowed =>
    rw [if_neg hallowed]
    split at done
    · cases done
    · split at done
      · cases done
      next howner =>
        rw [if_neg howner]
        split at done
        · cases done
        next hversion => rw [if_neg hversion]

/-- A deletion does the same where another resource is put back. -/
theorem delete_restore (h : path ≠ other) (done : kb.delete path agent = .ok kb') :
    (kb.restore other resource info).delete path agent = .ok (kb'.restore other resource info) := by
  have hpermits : (kb.restore other resource info).permits agent path "delete" = kb.permits agent path "delete" := rfl
  rw [delete_eq_ok done]
  unfold delete at done ⊢
  rw [hpermits]
  split at done
  · cases done
  next hallowed =>
    rw [if_neg hallowed]
    simp only [restore, Function.update_of_ne h, Function.update_comm h]

/-- What was stored is put back. -/
theorem restore_store : (kb.store path agent tick content version).restore path (kb.resources path) (kb.versions path) =
    kb := by
  simp [restore, store]

end SharedKB

/-- The operation of an effect on the knowledge base. -/
def mutateKb (ctx : Context) (kb : SharedKB) (e : StagedEffect) : Except Exc SharedKB :=
  match e.effectType with
  | .kbWrite =>
    kb.applyCommitted e.resource e.agentId (e.get "content" (.str "")) (e.get "expected_version" (.int 0)) ctx.tick
  | .kbCreate => kb.create e.resource e.agentId (e.get "content" (.str "")) ctx.tick
  | _ => kb.delete e.resource e.agentId

section Kb

variable {ctx : Context} {kb kb' : SharedKB} {d e : StagedEffect}

/-- An effect on the knowledge base, by its operation. -/
theorem applyKb_applied_iff {undo : InvertData} : applyKb ctx kb e = .applied kb' undo ↔
    mutateKb ctx kb e = .ok kb' ∧ undo = .kb (kb.resources e.resource) (kb.versions e.resource) := by
  have happly : applyKb ctx kb e =
      .ofExcept kb (.kb (kb.resources e.resource) (kb.versions e.resource)) (mutateKb ctx kb e) := rfl
  rw [happly]
  cases mutateKb ctx kb e with
  | error error => simp [Outcome.ofExcept]
  | ok after => simp [Outcome.ofExcept, eq_comm]

/-- An operation does the same where another resource is put back. -/
theorem mutateKb_restore {other : String} {resource : Option SharedKBResource} {info : Option VersionInfo}
    (h : e.resource ≠ other) (done : mutateKb ctx kb e = .ok kb') :
    mutateKb ctx (kb.restore other resource info) e = .ok (kb'.restore other resource info) := by
  unfold mutateKb at done ⊢
  split at done
  · exact SharedKB.applyCommitted_restore h done
  · exact SharedKB.create_restore h done
  · exact SharedKB.delete_restore h done

/-- What an operation changed is put back. -/
theorem restore_mutateKb (done : mutateKb ctx kb e = .ok kb') :
    kb'.restore e.resource (kb.resources e.resource) (kb.versions e.resource) = kb := by
  unfold mutateKb at done
  split at done
  · rw [(SharedKB.applyCommitted_eq_ok done).1, SharedKB.restore_store]
  · rw [SharedKB.create_eq_ok done, SharedKB.restore_store]
  · rw [SharedKB.delete_eq_ok done]
    simp [SharedKB.restore]

namespace StagedEffect

/-- An effect does to the knowledge base what it recorded. -/
def DoesKb (ctx : Context) (e : StagedEffect) (kb kb' : SharedKB) : Prop :=
  if e.effectType.writesKb then applyKb ctx kb e = .applied kb' e.invertData else kb' = kb

/-- Two effects on the knowledge base are on different resources. -/
def ApartInKb (d e : StagedEffect) : Prop :=
  d.effectType.writesKb = true → e.effectType.writesKb = true → d.resource ≠ e.resource

end StagedEffect

/-- The inverse of an effect on the knowledge base puts back one resource. -/
theorem undoKb_eq (h : e.effectType.writesKb = true) :
    ∃ resource info, ∀ kb : SharedKB, e.undoKb kb = kb.restore e.resource resource info := by
  unfold StagedEffect.undoKb
  rw [h]
  cases e.invertData with
  | kb resource info => exact ⟨resource, info, fun _ => rfl⟩
  | _ => exact ⟨none, none, fun _ => rfl⟩

/-- Other effects have no inverse on the knowledge base. -/
theorem undoKb_of_not_writesKb (h : e.effectType.writesKb = false) : e.undoKb kb = kb := by
  unfold StagedEffect.undoKb
  rw [h]

/-- An effect on another resource does the same where an effect is undone. -/
theorem StagedEffect.DoesKb.commutes (apart : d.ApartInKb e) (does : e.DoesKb ctx kb kb') :
    e.DoesKb ctx (d.undoKb kb) (d.undoKb kb') := by
  cases hd : d.effectType.writesKb with
  | false => rwa [undoKb_of_not_writesKb hd, undoKb_of_not_writesKb hd]
  | true =>
    obtain ⟨resource, info, hundo⟩ := undoKb_eq hd
    rw [hundo, hundo]
    unfold StagedEffect.DoesKb at does ⊢
    split_ifs at does ⊢ with he
    · obtain ⟨hdone, hdata⟩ := applyKb_applied_iff.mp does
      have hne : e.resource ≠ d.resource := (apart hd he).symm
      refine applyKb_applied_iff.mpr ⟨mutateKb_restore hne hdone, ?_⟩
      simpa [SharedKB.restore, hne] using hdata
    · rw [does]

/-- An effect on the knowledge base is undone. -/
theorem StagedEffect.DoesKb.undone (does : e.DoesKb ctx kb kb') : e.undoKb kb' = kb := by
  unfold StagedEffect.DoesKb at does
  split_ifs at does with he
  · obtain ⟨hdone, hdata⟩ := applyKb_applied_iff.mp does
    unfold StagedEffect.undoKb
    rw [he, hdata]
    exact restore_mutateKb hdone
  · rw [does, undoKb_of_not_writesKb (by simpa using he)]

/-- The effects on the knowledge base. -/
def kbEffects (ctx : Context) : Undoable SharedKB StagedEffect :=
  .strict (fun kb e kb' => e.DoesKb ctx kb kb') (fun kb e => e.undoKb kb) StagedEffect.ApartInKb (fun _ _ => True)
    .commutes fun _ => StagedEffect.DoesKb.undone

end Kb

section Rules

variable {rules rules' : String → Option ScheduleRule} {d e : StagedEffect}

namespace StagedEffect

/-- The rule that an advance names. -/
def ruleName (e : StagedEffect) : Option String :=
  match (e.data.lookup "rule_id").map Value.key with
  | some (.ok (.str name)) => some name
  | _ => none

/-- A rule after an advance. -/
def advance (e : StagedEffect) (rule : ScheduleRule) : ScheduleRule where
  nextRunTick := match e.get "next_run_tick" .none with
    | .none => rule.nextRunTick
    | next => next
  lastFiredAt := match e.get "last_fired_at" .none with
    | .none => rule.lastFiredAt
    | fired => fired

/-- An effect does to the rules what it recorded. -/
def DoesRules (e : StagedEffect) (rules rules' : String → Option ScheduleRule) : Prop :=
  if e.effectType = .ruleAdvance then applyRule rules e = .applied rules' e.invertData else rules' = rules

/-- The inverse of an advance is not on the rule of another. -/
def ApartInRules (d e : StagedEffect) : Prop :=
  d.effectType = .ruleAdvance → e.effectType = .ruleAdvance → e.ruleName ≠ some d.resource

/-- An advance names its resource. -/
def RestoresRules (e : StagedEffect) : Prop :=
  e.effectType = .ruleAdvance → e.ruleName = some e.resource

end StagedEffect

/-- An advance, by the rule it names. -/
theorem applyRule_applied_iff {undo : InvertData} : applyRule rules e = .applied rules' undo ↔
    ∃ name rule, e.ruleName = some name ∧ rules name = some rule ∧
      rules' = Function.update rules name (some (e.advance rule)) ∧ undo = .rule rule.nextRunTick rule.lastFiredAt := by
  cases hid : e.data.lookup "rule_id" with
  | none => simp [applyRule, StagedEffect.ruleName, hid]
  | some id =>
    rcases hkey : id.key with error | (_ | number | name)
    · simp [applyRule, StagedEffect.ruleName, hid, hkey]
    · simp [applyRule, StagedEffect.ruleName, hid, hkey]
    · simp [applyRule, StagedEffect.ruleName, hid, hkey]
    · have hname : e.ruleName = some name := by simp [StagedEffect.ruleName, hid, hkey]
      cases hrule : rules name with
      | none => simp [applyRule, hid, hkey, hname, hrule]
      | some rule =>
        have happly : applyRule rules e = .applied (Function.update rules name (some (e.advance rule)))
            (.rule rule.nextRunTick rule.lastFiredAt) := by
          simp only [applyRule, hid, hkey, hrule]
          rfl
        simp [happly, hname, hrule, eq_comm]

/-- The inverse of an advance. -/
theorem undoRules_of_ruleAdvance (h : e.effectType = .ruleAdvance) : e.undoRules rules =
    Function.update rules e.resource ((rules e.resource).map fun _ => e.previousRule) := by
  simp [StagedEffect.undoRules, h]

/-- Other effects have no inverse on the rules. -/
theorem undoRules_of_ne (h : e.effectType ≠ .ruleAdvance) : e.undoRules rules = rules := by
  unfold StagedEffect.undoRules
  split
  next hadvance => exact absurd hadvance h
  next => rfl

/-- An advance of another rule does the same where an effect is undone. -/
theorem StagedEffect.DoesRules.commutes (apart : d.ApartInRules e) (does : e.DoesRules rules rules') :
    e.DoesRules (d.undoRules rules) (d.undoRules rules') := by
  by_cases hd : d.effectType = .ruleAdvance
  · unfold StagedEffect.DoesRules at does ⊢
    split_ifs at does ⊢ with he
    · obtain ⟨name, rule, hname, hrule, rfl, hdata⟩ := applyRule_applied_iff.mp does
      have hne : name ≠ d.resource := fun heq => apart hd he (heq ▸ hname)
      refine applyRule_applied_iff.mpr ⟨name, rule, hname, ?_, ?_, hdata⟩
      · rw [undoRules_of_ruleAdvance hd, Function.update_of_ne hne, hrule]
      · rw [undoRules_of_ruleAdvance hd, undoRules_of_ruleAdvance hd, Function.update_of_ne hne.symm,
          Function.update_comm hne]
    · rw [does]
  · rwa [undoRules_of_ne hd, undoRules_of_ne hd]

/-- An advance of the rule that is its resource is undone. -/
theorem StagedEffect.DoesRules.undone (restores : e.RestoresRules) (does : e.DoesRules rules rules') :
    e.undoRules rules' = rules := by
  unfold StagedEffect.DoesRules at does
  split_ifs at does with he
  · obtain ⟨name, rule, hname, hrule, rfl, hdata⟩ := applyRule_applied_iff.mp does
    obtain rfl : e.resource = name := Option.some_injective _ ((restores he).symm.trans hname)
    have hprevious : e.previousRule = rule := by rw [StagedEffect.previousRule, hdata]
    rw [undoRules_of_ruleAdvance he, Function.update_self, Function.update_idem, Option.map_some, hprevious, ← hrule,
      Function.update_eq_self]
  · rw [does, undoRules_of_ne he]

/-- The effects on the calendar rules. -/
def ruleEffects : Undoable (String → Option ScheduleRule) StagedEffect :=
  .strict (fun rules e rules' => e.DoesRules rules rules') (fun rules e => e.undoRules rules)
    StagedEffect.ApartInRules (fun _ e => e.RestoresRules) .commutes StagedEffect.DoesRules.undone

end Rules

section Outbox

variable {ctx : Context} {outbox outbox' : String → Option OutboxEntry} {d e : StagedEffect}

namespace StagedEffect

/-- An effect does to the outbox what it recorded. -/
def DoesOutbox (ctx : Context) (e : StagedEffect) (outbox outbox' : String → Option OutboxEntry) : Prop :=
  if e.effectType = .emailSend then applyEmail ctx outbox e = .applied outbox' e.invertData else outbox' = outbox

/-- Two emails have different entries. -/
def ApartInOutbox (d e : StagedEffect) : Prop :=
  d.effectType = .emailSend → e.effectType = .emailSend → d.entryId ≠ e.entryId

/-- The entry of an email is new. -/
def RestoresOutbox (e : StagedEffect) (outbox : String → Option OutboxEntry) : Prop :=
  e.effectType = .emailSend → outbox e.entryId = none

end StagedEffect

/-- An email, by its entry. -/
theorem applyEmail_applied_iff {undo : InvertData} : applyEmail ctx outbox e = .applied outbox' undo ↔
    ∃ entry, outboxEntry ctx e = .ok entry ∧ outbox' = Function.update outbox e.entryId (some entry) ∧
      undo = .outbox := by
  unfold applyEmail
  cases outboxEntry ctx e <;> simp [eq_comm]

/-- An entry is committed when it is made. -/
theorem status_outboxEntry {entry : OutboxEntry} (h : outboxEntry ctx e = .ok entry) : entry.status = .committed := by
  unfold outboxEntry at h
  split at h
  all_goals
    obtain ⟨_, _, h⟩ := bind_eq_ok.mp h
    simp only [bind_eq_ok] at h
    obtain ⟨_, -, _, -, _, -, _, -, _, -, _, -, hentry⟩ := h
    rw [← Except.ok.inj hentry]

/-- The inverse of an effect on the outbox leaves the other entries. -/
theorem undoOutbox_eq (e : StagedEffect) : (∀ outbox, e.undoOutbox outbox = outbox) ∨
    e.effectType = .emailSend ∧ ∀ outbox, e.undoOutbox outbox =
      Function.update outbox e.entryId ((outbox e.entryId).filter fun entry => entry.status ≠ .committed) := by
  unfold StagedEffect.undoOutbox
  split
  next htype _ => exact Or.inr ⟨htype, fun _ => rfl⟩
  next => exact Or.inl fun _ => rfl

/-- Another email does the same where an effect is undone. -/
theorem StagedEffect.DoesOutbox.commutes (apart : d.ApartInOutbox e) (does : e.DoesOutbox ctx outbox outbox') :
    e.DoesOutbox ctx (d.undoOutbox outbox) (d.undoOutbox outbox') := by
  rcases undoOutbox_eq d with hundo | ⟨hd, hundo⟩
  · rwa [hundo, hundo]
  · rw [hundo, hundo]
    unfold StagedEffect.DoesOutbox at does ⊢
    split_ifs at does ⊢ with he
    · obtain ⟨entry, hentry, rfl, hdata⟩ := applyEmail_applied_iff.mp does
      have hne : d.entryId ≠ e.entryId := apart hd he
      refine applyEmail_applied_iff.mpr ⟨entry, hentry, ?_, hdata⟩
      rw [Function.update_of_ne hne, Function.update_comm hne]
    · rw [does]

/-- An email with a new entry is undone. -/
theorem StagedEffect.DoesOutbox.undone (restores : e.RestoresOutbox outbox) (does : e.DoesOutbox ctx outbox outbox') :
    e.undoOutbox outbox' = outbox := by
  unfold StagedEffect.DoesOutbox at does
  split_ifs at does with he
  · obtain ⟨entry, hentry, rfl, hdata⟩ := applyEmail_applied_iff.mp does
    have hundo : e.undoOutbox (Function.update outbox e.entryId (some entry)) =
        Function.update (Function.update outbox e.entryId (some entry)) e.entryId none := by
      simp [StagedEffect.undoOutbox, he, hdata, Option.filter, status_outboxEntry hentry]
    rw [hundo, Function.update_idem, ← restores he, Function.update_eq_self]
  · rcases undoOutbox_eq e with hundo | ⟨htype, -⟩
    · rw [hundo, does]
    · exact absurd htype he

/-- The effects on the outbox. -/
def outboxEffects (ctx : Context) : Undoable (String → Option OutboxEntry) StagedEffect :=
  .strict (fun outbox e outbox' => e.DoesOutbox ctx outbox outbox') (fun outbox e => e.undoOutbox outbox)
    StagedEffect.ApartInOutbox (fun outbox e => e.RestoresOutbox outbox) .commutes StagedEffect.DoesOutbox.undone

end Outbox

end MyTeam.Legacy

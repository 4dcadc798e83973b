import MyTeam.Legacy.Undo.Entries
import MyTeam.Legacy.Undo.Files
import MyTeam.Legacy.Undo.Records
import MyTeam.Legacy.Undo.Tasks

/-!
# Undoing effects

An effect changes one store, and its inverse the same one. What makes it undone, and what keeps it
apart from another effect, is put together here from what it takes in each store.
-/

namespace MyTeam.Legacy

open MyTeam.Py MyTeam.Undo

/-- The stores that a commit changes. -/
def World.stores : World ≃ FileSystem × SharedKB × RecordStore × TaskTree × (String → Option ScheduleRule) ×
    (String → Option OutboxEntry) where
  toFun w := (w.files, w.kb, w.records, w.tasks, w.rules, w.outbox)
  invFun s := ⟨s.1, s.2.1, s.2.2.1, s.2.2.2.1, s.2.2.2.2.1, s.2.2.2.2.2⟩
  left_inv _ := rfl
  right_inv _ := rfl

/-- Two worlds hold the same, apart from directories in the first that the other does not have. -/
structure World.Matches (w v : World) : Prop where
  files : FilesMatch w.files v.files
  kb : w.kb = v.kb
  records : w.records.Same v.records
  tasks : w.tasks.Matches v.tasks
  rules : w.rules = v.rules
  outbox : w.outbox = v.outbox

namespace StagedEffect

/-- The inverse of an effect does not reach what a later one does. -/
structure ApartFrom (schemas : String → Option RecordSchema) (d e : StagedEffect) : Prop where
  files : d.ApartInFiles e
  kb : d.ApartInKb e
  records : d.ApartInRecords schemas e
  tasks : d.ApartInTasks e
  rules : d.ApartInRules e
  outbox : d.ApartInOutbox e

/-- The inverse of an effect does not reach what a later one does that is undone as well. This one may create a task
below one that the other created, and take a unique value that it gave up. -/
structure ApartWithin (d e : StagedEffect) : Prop where
  files : d.ApartInFiles e
  kb : d.ApartInKb e
  records : d.OtherRecord e
  tasks : d.OtherTask e
  rules : d.ApartInRules e
  outbox : d.ApartInOutbox e

/-- The inverse of an effect puts back what the effect finds. -/
structure Restores (e : StagedEffect) (w : World) : Prop where
  files : e.RestoresFiles w.files
  tasks : e.RestoresTasks w.tasks
  rules : e.RestoresRules
  outbox : e.RestoresOutbox w.outbox

end StagedEffect

/-- The effects on a world. -/
def worldEffects (ctx : Context) (schemas : String → Option RecordSchema) : Undoable World StagedEffect :=
  ((fileEffects ctx).both ((kbEffects ctx).both ((recordEffects ctx schemas).both
    ((taskEffects ctx).both (ruleEffects.both (outboxEffects ctx)))))).along World.stores

section Worlds

variable {ctx : Context} {schemas : String → Option RecordSchema} {w v s : World} {d e : StagedEffect}
  {undo : InvertData}

/-- Worlds that match. -/
theorem sim_iff : (worldEffects ctx schemas).Sim w v ↔ w.Matches v :=
  ⟨fun h => ⟨h.1, h.2.1, h.2.2.1, h.2.2.2.1, h.2.2.2.2.1, h.2.2.2.2.2⟩,
    fun h => ⟨h.files, h.kb, h.records, h.tasks, h.rules, h.outbox⟩⟩

/-- Effects that are apart. -/
theorem StagedEffect.ApartFrom.independent (apart : d.ApartFrom schemas e) :
    (worldEffects ctx schemas).Independent d e :=
  ⟨apart.files, apart.kb, apart.records, apart.tasks, apart.rules, apart.outbox⟩

/-- Effects that are undone together. -/
theorem StagedEffect.ApartWithin.together (apart : d.ApartWithin e) : (worldEffects ctx schemas).Together d e :=
  ⟨apart.files, apart.kb, apart.records, apart.tasks, apart.rules, apart.outbox⟩

/-- Effects whose inverses put back what they find. -/
theorem StagedEffect.Restores.exact (restores : e.Restores w) : (worldEffects ctx schemas).Exact w e :=
  ⟨restores.files, trivial, trivial, restores.tasks, restores.rules, restores.outbox⟩

/-- A world with a tidy tree and the schemas. -/
theorem inv_iff : (worldEffects ctx schemas).Inv w ↔ w.records.schemas = schemas ∧ w.tasks.Tidy :=
  ⟨fun inv => ⟨inv.2.2.1, inv.2.2.2.1⟩, fun inv => ⟨trivial, trivial, inv.1, inv.2, trivial, trivial⟩⟩

/-- Effects are undone by their inverses. -/
theorem undo_eq_invertOne : (worldEffects ctx schemas).undo = invertOne := by
  funext w e
  exact (invertOne_eq_undo w e).symm

/-- An outcome in a larger state that is applied. -/
theorem Outcome.map_eq_applied {σ τ : Type} {f : σ → τ} {o : Outcome σ} {t : τ} :
    o.map f = .applied t undo ↔ ∃ s, o = .applied s undo ∧ f s = t := by
  cases o <;> simp [Outcome.map, and_comm]

/-- What comes of applying an effect, store by store. -/
theorem applyEffect_applied_iff : applyEffect ctx w e = .applied s undo ↔
    (if e.effectType.writesFile then applyFile ctx w.files e = .applied s.files undo else s.files = w.files) ∧
    (if e.effectType.writesKb then applyKb ctx w.kb e = .applied s.kb undo else s.kb = w.kb) ∧
    (if e.effectType.writesRecord then applyRecord ctx w.records e = .applied s.records undo
      else s.records = w.records) ∧
    (if e.effectType = .taskCreate then applyTaskCreate ctx w.tasks e = .applied s.tasks undo
      else if e.effectType = .taskUpdate then applyTaskUpdate ctx w.tasks e = .applied s.tasks undo
      else s.tasks = w.tasks) ∧
    (if e.effectType = .ruleAdvance then applyRule w.rules e = .applied s.rules undo else s.rules = w.rules) ∧
    (if e.effectType = .emailSend then applyEmail ctx w.outbox e = .applied s.outbox undo else s.outbox = w.outbox) ∧
    (e.effectType ∉ [.fileWrite, .filePatch, .kbWrite, .kbCreate, .kbDelete, .recordUpsert, .recordDelta, .taskCreate,
      .taskUpdate, .ruleAdvance, .emailSend] → undo = .empty) := by
  obtain ⟨files, kb, records, tasks, rules, outbox⟩ := s
  obtain ⟨files', kb', records', tasks', rules', outbox'⟩ := w
  unfold applyEffect
  cases e.effectType with
  | fileWrite | filePatch | kbCreate | kbWrite | kbDelete | recordUpsert | recordDelta | taskCreate | taskUpdate |
      ruleAdvance
  | emailSend =>
    simp only [EffectType.writesFile, EffectType.writesKb, EffectType.writesRecord, Outcome.map_eq_applied,
      World.mk.injEq]
    constructor
    · rintro ⟨_, happly, rfl, rfl, rfl, rfl, rfl, rfl⟩
      simpa using happly
    · grind
  | _ =>
    simp [EffectType.writesFile, EffectType.writesKb, EffectType.writesRecord]
    grind

/-- An effect that is applied does what it records. -/
theorem does_of_applied (registered : w.records.schemas = schemas) (h : applyEffect ctx w e = .applied s undo) :
    (worldEffects ctx schemas).Does w { e with applied := true, invertData := undo } s := by
  obtain ⟨hfiles, hkb, hrecords, htasks, hrules, houtbox, -⟩ := applyEffect_applied_iff.mp h
  refine ⟨hfiles, hkb, ?_, htasks, hrules, houtbox⟩
  change StagedEffect.DoesRecords ctx schemas _ w.records s.records
  unfold StagedEffect.DoesRecords
  dsimp only
  split_ifs at hrecords ⊢
  · obtain ⟨after, ids, -, -, hundo, -, -⟩ := applyRecord_applied hrecords
    exact ⟨registered, ids, ids, hundo ▸ hrecords, hundo⟩
  · exact hrecords

/-- What an effect does is what comes of applying it. -/
theorem applied_of_does (h : (worldEffects ctx schemas).Does w e s) :
    ∃ undo, applyEffect ctx w e = .applied s undo := by
  have hstores : e.DoesFiles ctx w.files s.files ∧ e.DoesKb ctx w.kb s.kb ∧
      e.DoesRecords ctx schemas w.records s.records ∧
      e.DoesTasks ctx w.tasks s.tasks ∧ e.DoesRules w.rules s.rules ∧ e.DoesOutbox ctx w.outbox s.outbox := h
  unfold StagedEffect.DoesFiles StagedEffect.DoesKb StagedEffect.DoesRecords StagedEffect.DoesTasks
    StagedEffect.DoesRules StagedEffect.DoesOutbox at hstores
  simp only [applyEffect_applied_iff]
  cases htype : e.effectType with
  | recordUpsert | recordDelta =>
    rw [htype] at hstores
    obtain ⟨hfiles, hkb, ⟨-, ids, ids', happly, -⟩, htasks, hrules, houtbox⟩ := hstores
    exact ⟨.record (recordKey e) (w.records.records.lookup (recordKey e)) ids, hfiles, hkb, happly, htasks, hrules,
      houtbox,
      by simp⟩
  | fileWrite | filePatch | kbCreate | kbWrite | kbDelete | taskCreate | taskUpdate | ruleAdvance | emailSend =>
    rw [htype] at hstores
    obtain ⟨hfiles, hkb, hrecords, htasks, hrules, houtbox⟩ := hstores
    exact ⟨e.invertData, hfiles, hkb, hrecords, htasks, hrules, houtbox, by simp⟩
  | _ =>
    rw [htype] at hstores
    obtain ⟨hfiles, hkb, hrecords, htasks, hrules, houtbox⟩ := hstores
    exact ⟨.empty, hfiles, hkb, hrecords, htasks, hrules, houtbox, fun _ => rfl⟩

/-- Making directories leaves the files. -/
theorem matches_mkdirParents {fs : FileSystem} {path : List String} : FilesMatch (fs.mkdirParents path) fs := by
  refine ⟨fun other => ?_, fun other hdir => ?_, rfl⟩
  · unfold FileSystem.content FileSystem.mkdirParents
    dsimp only
    split_ifs with hmade
    · rw [hmade.2.2]
    · rfl
  · simp [FileSystem.mkdirParents, hdir]

/-- A file effect that fails makes directories at most. -/
theorem matches_of_applyFile_failed {fs fs' : FileSystem} {error : String}
    (h : applyFile ctx fs e = .failed fs' error) :
    FilesMatch fs' fs := by
  rcases applyFile_cases ctx fs e with ⟨target, bytes, previous, -, happly, -⟩ | ⟨-, hstate | ⟨target, -, -, hstate⟩⟩
  · rw [happly] at h
    cases h
  · rw [h] at hstate
    obtain rfl : fs' = fs := hstate
    exact .refl fs'
  · rw [h] at hstate
    obtain rfl : fs' = fs.mkdirParents target := hstate
    exact matches_mkdirParents

/-- A creation that is not applied changes no task. -/
theorem applyTaskCreate_stays (ctx : Context) (tree : TaskTree) (e : StagedEffect) :
    (∃ after undo, applyTaskCreate ctx tree e = .applied after undo) ∨ (applyTaskCreate ctx tree e).state = tree := by
  unfold applyTaskCreate
  dsimp only
  split
  · exact Or.inr rfl
  · exact Or.inr rfl
  · exact Or.inr rfl
  · exact Or.inr rfl
  · split
    · exact Or.inr rfl
    · exact Or.inl ⟨_, _, rfl⟩

/-- An update that is not applied changes no task. -/
theorem applyTaskUpdate_stays (ctx : Context) (tree : TaskTree) (e : StagedEffect) :
    (∃ after undo, applyTaskUpdate ctx tree e = .applied after undo) ∨ (applyTaskUpdate ctx tree e).state = tree := by
  unfold applyTaskUpdate
  dsimp only
  split
  · exact Or.inr rfl
  · split
    · exact Or.inr rfl
    · split
      · exact Or.inr rfl
      · exact Or.inl ⟨_, _, rfl⟩

/-- An advance that is not applied changes no rule. -/
theorem applyRule_stays (rules : String → Option ScheduleRule) (e : StagedEffect) :
    (∃ after undo, applyRule rules e = .applied after undo) ∨ (applyRule rules e).state = rules := by
  unfold applyRule
  split
  · exact Or.inr rfl
  · split
    · exact Or.inr rfl
    · split
      · exact Or.inr rfl
      · exact Or.inl ⟨_, _, rfl⟩
    · exact Or.inr rfl

/-- An operation on the knowledge base that is not applied changes nothing. -/
theorem applyKb_stays (ctx : Context) (kb : SharedKB) (e : StagedEffect) :
    (∃ after undo, applyKb ctx kb e = .applied after undo) ∨ (applyKb ctx kb e).state = kb := by
  have happly : applyKb ctx kb e =
      .ofExcept kb (.kb (kb.resources e.resource) (kb.versions e.resource)) (mutateKb ctx kb e) := rfl
  rw [happly]
  cases mutateKb ctx kb e with
  | error error => exact Or.inr rfl
  | ok after => exact Or.inl ⟨_, _, rfl⟩

/-- An email that is not applied changes nothing. -/
theorem applyEmail_stays (ctx : Context) (outbox : String → Option OutboxEntry) (e : StagedEffect) :
    (∃ after undo, applyEmail ctx outbox e = .applied after undo) ∨ (applyEmail ctx outbox e).state = outbox := by
  unfold applyEmail
  split
  · exact Or.inl ⟨_, _, rfl⟩
  · exact Or.inr rfl

/-- An effect on a record that fails changes no record. -/
theorem applyRecord_failed {store store' : RecordStore} {error : String}
    (h : applyRecord ctx store e = .failed store' error) :
    store' = store := by
  unfold applyRecord at h
  rcases recordMutation_cases ctx store e with ⟨entry, -, -, hmutation⟩ | ⟨-, reason, hmutation⟩
  · rw [hmutation] at h
    unfold RecordStore.record at h
    dsimp only at h
    split_ifs at h
  · rw [hmutation] at h
    cases reason <;> cases h
    rfl

/-- A failure in a larger state leaves it, where the store is left. -/
theorem eq_of_map_failed {σ : Type} {f : σ → World} {o : Outcome σ} {before : σ} {error : String}
    (stays : (∃ after undo, o = .applied after undo) ∨ o.state = before) (h : o.map f = .failed s error) : s =
    f before := by
  rcases stays with ⟨after, undo, rfl⟩ | rfl
  · cases h
  · cases o with
    | applied => cases h
    | raised => cases h
    | failed =>
      cases h
      rfl

/-- A world matches itself. -/
theorem World.Matches.refl (w : World) : w.Matches w :=
  ⟨.refl _, rfl, .refl _, .refl _, rfl, rfl⟩

/-- An effect that fails leaves the world as it was, apart from directories. -/
theorem matches_of_failed {error : String} (h : applyEffect ctx w e = .failed s error) : s.Matches w := by
  unfold applyEffect at h
  cases htype : e.effectType with
  | fileWrite | filePatch =>
    rw [htype] at h
    cases happly : applyFile ctx w.files e with
    | applied | raised =>
      rw [happly] at h
      cases h
    | failed files reason =>
      rw [happly] at h
      cases h
      exact ⟨matches_of_applyFile_failed happly, rfl, .refl _, .refl _, rfl, rfl⟩
  | emailSend =>
    rw [htype] at h
    exact eq_of_map_failed (applyEmail_stays ctx w.outbox e) h ▸ .refl w
  | taskCreate =>
    rw [htype] at h
    exact eq_of_map_failed (applyTaskCreate_stays ctx w.tasks e) h ▸ .refl w
  | taskUpdate =>
    rw [htype] at h
    exact eq_of_map_failed (applyTaskUpdate_stays ctx w.tasks e) h ▸ .refl w
  | ruleAdvance =>
    rw [htype] at h
    exact eq_of_map_failed (applyRule_stays w.rules e) h ▸ .refl w
  | kbWrite | kbCreate | kbDelete =>
    rw [htype] at h
    exact eq_of_map_failed (applyKb_stays ctx w.kb e) h ▸ .refl w
  | recordUpsert | recordDelta =>
    rw [htype] at h
    cases happly : applyRecord ctx w.records e with
    | applied | raised =>
      rw [happly] at h
      cases h
    | failed records reason =>
      rw [happly] at h
      cases h
      rw [applyRecord_failed happly]
      exact .refl w
  | _ =>
    rw [htype] at h
    cases h

/-- Applying an effect, whatever comes of it, keeps the tree tidy. -/
theorem tidy_applyEffect (tidy : w.tasks.Tidy) : (applyEffect ctx w e).state.tasks.Tidy := by
  unfold applyEffect
  cases htype : e.effectType with
  | taskCreate =>
    rw [Outcome.state_map]
    rcases applyTaskCreate_stays ctx w.tasks e with ⟨after, undo, happly⟩ | hstate
    · obtain ⟨task, -, hnew, hparent, rfl, -⟩ := applyTaskCreate_applied_iff.mp happly
      rw [happly]
      exact tidy.create hnew hparent
    · rwa [hstate]
  | taskUpdate =>
    rw [Outcome.state_map]
    rcases applyTaskUpdate_stays ctx w.tasks e with ⟨after, undo, happly⟩ | hstate
    · obtain ⟨before, updated, -, -, rfl, -⟩ := applyTaskUpdate_applied_iff.mp happly
      rw [happly]
      exact tidy.put updated e.resource
    · rwa [hstate]
  | fileWrite | filePatch | emailSend | ruleAdvance | kbWrite | kbCreate | kbDelete | recordUpsert | recordDelta =>
    rwa [Outcome.state_map]
  | _ => exact tidy

/-- Inverses keep the tree tidy. -/
theorem tidy_foldl_invertOne {effects : List StagedEffect} (tidy : w.tasks.Tidy) :
    (effects.foldl invertOne w).tasks.Tidy := by
  induction effects generalizing w with
  | nil => exact tidy
  | cons e rest ih =>
    refine ih ?_
    rw [invertOne_eq_undo]
    exact tidy.undoTasks e

end Worlds

end MyTeam.Legacy

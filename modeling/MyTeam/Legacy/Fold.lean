import MyTeam.Legacy.Settling
import MyTeam.Legacy.Undo.Worlds

/-!
# Commit as a fold

A commit that is not rolled back should leave what the effects that it committed lead to from the
state before it, whatever failed in between. A group that fails is undone member by member, also
the members whose turn did not come, and in the order of the list. It leaves no trace where each
member that was applied is put back as it was found and kept apart from what came later, and where
the others name nothing that is there.
-/

namespace MyTeam.Legacy

open MyTeam.Py MyTeam.Async MyTeam.Undo ApplyLoop

/-- The state of an effect that is applied. -/
def Outcome.result {σ : Type} : Outcome σ → Option σ
  | applied state _ => some state
  | _ => none

/-- The effects alone, one after the other. -/
def replay (ctx : Context) (w : World) (effects : List StagedEffect) : Option World :=
  effects.foldlM (fun w e => (applyEffect ctx w e).result) w

namespace ApplyLoop

/-- The effects that have been applied and have not failed since. -/
def committed (l : ApplyLoop) : List StagedEffect :=
  l.done.filter fun e => e.status = .committed

/-- The effects outside a group. -/
def others (groupId : String) (effects : List StagedEffect) : List StagedEffect :=
  effects.filter fun e => e.groupId ≠ groupId

end ApplyLoop

/-- An effect that was not applied names nothing that its inverse would change. -/
structure StagedEffect.Unnoticed (e : StagedEffect) (w : World) : Prop where
  kb : e.effectType.writesKb = true → w.kb.resources e.resource = none ∧ w.kb.versions e.resource = none
  tasks : e.effectType.invertKind = .removeCreated → w.tasks.tasks e.resource = none
  rules : e.effectType = .ruleAdvance → ∀ rule, w.rules e.resource = some rule → rule = ⟨.int 0, .none⟩

/-- A group fails without a trace: what its members that were applied found, in the state that the effects outside the
group lead to, is put back, later effects are apart from them, those of the group as far as both are undone, and the
other members name nothing in this state. -/
structure FailsCleanly (ctx : Context) (w : World) (l : ApplyLoop) (e : StagedEffect) (rest : List StagedEffect) :
    Prop where
  applied : ∀ before m after, l.committed = before ++ m :: after → m.groupId = e.groupId →
    (∀ v, replay ctx w (others e.groupId before) = some v → m.Restores v) ∧
      ∀ f ∈ after, if f.groupId = e.groupId then m.ApartWithin f else m.ApartFrom w.records.schemas f
  unapplied : ∀ v, replay ctx w (others e.groupId l.committed) = some v → ∀ f ∈ undone e.groupId rest, f.Unnoticed v

/-- Every group that fails in a commit fails without a trace. -/
def Clean (ctx : Context) (w : World) (effects : List StagedEffect) : Prop :=
  ∀ l e rest world error, Comes ctx (committedLoop ctx w effects) l → l.todo = e :: rest → e.status = .committed →
    e.Grouped → applyEffect ctx l.world e = .failed world error → FailsCleanly ctx w l e rest

/-- A commit leaves what the effects that it committed lead to. -/
def Folds (ctx : Context) (w : World) (effects : List StagedEffect) : Prop :=
  ∃ v, replay ctx w (phaseCommit ctx w effects).1.committed = some v ∧ (phaseCommit ctx w effects).1.world.Matches v

/-- The worlds that are reached: the tree is empty at first, and only commits change it. -/
inductive World.Reached : World → Prop
  | opened {w : World} (empty : w.tasks = {}) : Reached w
  | elsewhere {w v : World} (reached : Reached w) (kept : v.tasks = w.tasks) : Reached v
  | commit {w : World} (ctx : Context) (effects : List StagedEffect) (reached : Reached w) :
      Reached (phaseCommit ctx w effects).1.world

section Fold

variable {ctx : Context} {schemas : String → Option RecordSchema} {w u v s : World} {e : StagedEffect}
  {rest effects : List StagedEffect} {l next : ApplyLoop}

/-- Effects that lead somewhere do so alone. -/
theorem replay_of_trace (h : (worldEffects ctx schemas).Trace w effects v) : replay ctx w effects = some v := by
  induction h with
  | nil => rfl
  | cons hdoes _ ih =>
    obtain ⟨undo, happly⟩ := applied_of_does hdoes
    rw [replay, List.foldlM_cons, happly]
    exact ih

/-- The task that the inverse of an effect discards which was not applied. -/
theorem inverseTask_of_blank {id : String} (blank : e.invertData = .empty) (hid : e.inverseTask = some id) :
    e.effectType.invertKind = .removeCreated ∧ e.resource = id := by
  unfold StagedEffect.inverseTask at hid
  rw [blank] at hid
  split at hid
  next hdata => cases hdata
  next hkind _ => exact ⟨hkind, Option.some.inj hid⟩
  next hdata _ => cases hdata
  next => cases hid

/-- The inverse of an effect that was not applied changes nothing, if nobody notices it. -/
theorem StagedEffect.Unnoticed.invertOne (unnoticed : e.Unnoticed v) (blank : e.invertData = .empty)
    (tidy : v.tasks.Tidy) (same : u.Matches v) : (invertOne u e).Matches v := by
  rw [invertOne_eq_undo]
  constructor
  case files =>
    have hfiles : e.undoFiles u.files = u.files := by simp [undoFiles, blank]
    change FilesMatch (e.undoFiles u.files) v.files
    rw [hfiles]
    exact same.files
  case kb =>
    change e.undoKb u.kb = v.kb
    cases hkind : e.effectType.writesKb with
    | false => rw [undoKb_of_not_writesKb hkind, same.kb]
    | true =>
      obtain ⟨hresource, hversion⟩ := unnoticed.kb hkind
      have hundo : e.undoKb u.kb = u.kb.restore e.resource none none := by simp [undoKb, hkind, blank]
      have hsame : v.kb.restore e.resource (v.kb.resources e.resource) (v.kb.versions e.resource) = v.kb := by
        simp [SharedKB.restore]
      rw [hresource, hversion] at hsame
      rw [hundo, same.kb, hsame]
  case records =>
    have hrecords : e.undoRecords u.records = u.records := by simp [undoRecords, blank]
    change (e.undoRecords u.records).Same v.records
    rw [hrecords]
    exact same.records
  case tasks =>
    have hmatches : (e.undoTasks u.tasks).Matches (e.undoTasks v.tasks) := same.tasks.undoTasks e
    refine hmatches.trans ?_
    rcases undoTasks_cases e with ⟨id, htype, hid, hundo⟩ | ⟨before, -, hdata, -, -⟩ | ⟨-, hundo⟩
    · obtain ⟨hkind, rfl⟩ := inverseTask_of_blank blank hid
      rw [hundo]
      exact tidy.discard_absent (unnoticed.tasks hkind)
    · rw [blank] at hdata
      cases hdata
    · rw [hundo]
      exact .refl _
  case rules =>
    change e.undoRules u.rules = v.rules
    rw [same.rules]
    by_cases htype : e.effectType = .ruleAdvance
    · have hprevious : e.previousRule = ⟨.int 0, .none⟩ := by rw [previousRule, blank]
      have hsame : (v.rules e.resource).map (fun _ => e.previousRule) = v.rules e.resource := by
        cases hrule : v.rules e.resource with
        | none => rfl
        | some rule => rw [Option.map_some, hprevious, unnoticed.rules htype rule hrule]
      rw [undoRules_of_ruleAdvance htype, hsame, Function.update_eq_self]
    · rw [undoRules_of_ne htype]
  case outbox =>
    have houtbox : e.undoOutbox u.outbox = u.outbox := by simp [undoOutbox, blank]
    change e.undoOutbox u.outbox = v.outbox
    rw [houtbox, same.outbox]

/-- Inverses of effects that were not applied change nothing, if nobody notices them. -/
theorem foldl_invertOne_unnoticed (unnoticed : ∀ f ∈ rest, f.Unnoticed v) (blank : ∀ f ∈ rest, f.invertData = .empty)
    (tidy : v.tasks.Tidy) (same : u.Matches v) : (rest.foldl invertOne u).Matches v := by
  induction rest generalizing u with
  | nil => exact same
  | cons f rest ih =>
    have hsame : (invertOne u f).Matches v :=
      (unnoticed f List.mem_cons_self).invertOne (blank f List.mem_cons_self) tidy same
    exact ih (fun g hg => unnoticed g (List.mem_cons_of_mem _ hg)) (fun g hg => blank g (List.mem_cons_of_mem _ hg))
      hsame

/-- The effects of a group that have been applied are those that its failure undoes. -/
theorem filter_committed {groupId : String} :
    l.committed.filter (fun m => decide (m.groupId = groupId)) = undone groupId l.done := by
  unfold committed undone
  rw [List.filter_filter]
  refine List.filter_congr fun m _ => ?_
  rw [Bool.decide_and]

/-- The effects that stay when a group fails are those outside it. -/
theorem filter_not_member {groupId : String} :
    effects.filter (fun m => !decide (m.groupId = groupId)) = others groupId effects := by
  unfold others
  refine List.filter_congr fun m _ => ?_
  simp

/-- After a group has failed, the effects outside it are left. -/
theorem committed_failMember {groupId : String} {done : List StagedEffect} :
    (done.map (failMember groupId)).filter (fun e => decide (e.status = .committed)) =
      others groupId (done.filter fun e => e.status = .committed) := by
  induction done with
  | nil => rfl
  | cons m done ih =>
    unfold others at ih ⊢
    rw [List.map_cons, List.filter_cons, ih]
    by_cases hgroup : m.groupId = groupId
    · by_cases hstatus : m.status = .committed <;> simp [failMember, StagedEffect.fail, hgroup, hstatus]
    · by_cases hstatus : m.status = .committed <;> simp [failMember, hgroup, hstatus]

/-- Matching is transitive. -/
theorem World.Matches.trans {t : World} (h : s.Matches u) (h' : u.Matches t) : s.Matches t :=
  ⟨h.files.trans h'.files, h.kb.trans h'.kb, h.records.trans h'.records, h.tasks.trans h'.tasks, h.rules.trans h'.rules,
    h.outbox.trans h'.outbox⟩

/-- What the apply loop keeps: the effects that it has committed so far lead to what it has left, and the others have
recorded nothing. -/
structure ApplyLoop.Folding (ctx : Context) (w : World) (l : ApplyLoop) : Prop where
  leads : ∃ v, (worldEffects ctx w.records.schemas).Trace w l.committed v ∧ l.world.Matches v
  blank : ∀ e ∈ l.todo, e.invertData = .empty

/-- A group that fails without a trace leaves what the other effects lead to. -/
theorem ApplyLoop.Folding.failGroup (folding : Folding ctx w l) (tidy : w.tasks.Tidy) (htodo : l.todo = e :: rest)
    (clean : FailsCleanly ctx w l e rest) (same : s.Matches l.world) :
    ∃ v, (worldEffects ctx w.records.schemas).Trace w (others e.groupId l.committed) v ∧
      ((undone e.groupId (l.done ++ rest)).foldl invertOne s).Matches v := by
  obtain ⟨v, htrace, hmatches⟩ := folding.leads
  have hinv : (worldEffects ctx w.records.schemas).Inv w := inv_iff.mpr ⟨rfl, tidy⟩
  have hremovable : (worldEffects ctx w.records.schemas).Removable (fun m => decide (m.groupId = e.groupId)) w
      l.committed := by
    intro before m after heq hmember
    obtain ⟨hrestores, hapart⟩ := clean.applied before m after heq (of_decide_eq_true hmember)
    refine ⟨fun v' hbefore => ?_, fun f hf => ?_⟩
    · rw [filter_not_member] at hbefore
      exact (hrestores v' (replay_of_trace hbefore)).exact
    · have hf := hapart f hf
      unfold Undoable.Spares
      by_cases hgroup : f.groupId = e.groupId
      · rw [if_pos hgroup] at hf
        simpa [hgroup] using hf.together
      · rw [if_neg hgroup] at hf
        simpa [hgroup] using hf.independent
  have hsim : (worldEffects ctx w.records.schemas).Sim s v := sim_iff.mpr (same.trans hmatches)
  obtain ⟨t, hothers, hundone⟩ := htrace.without hinv hremovable hsim
  rw [filter_not_member] at hothers
  rw [filter_committed, undo_eq_invertOne] at hundone
  have htidy : t.tasks.Tidy := (inv_iff.mp (hothers.inv hinv)).2
  refine ⟨t, hothers, ?_⟩
  have hsplit : undone e.groupId (l.done ++ rest) = undone e.groupId l.done ++ undone e.groupId rest :=
    List.filter_append _ _
  rw [hsplit, List.foldl_append]
  refine foldl_invertOne_unnoticed (clean.unapplied t (replay_of_trace hothers)) (fun f hf => ?_) htidy
    (sim_iff.mp hundone)
  exact folding.blank f (htodo ▸ List.mem_cons_of_mem _ (List.mem_of_mem_filter hf))

/-- A turn keeps what the loop keeps, if a group that fails in it fails without a trace. -/
theorem ApplyLoop.Folding.turn (folding : Folding ctx w l) (tidy : w.tasks.Tidy) (htodo : l.todo = e :: rest)
    (clean : ∀ world error, e.status = .committed → e.Grouped → applyEffect ctx l.world e = .failed world error →
      FailsCleanly ctx w l e rest)
    (hturn : l.turn ctx e rest = .ok next) : Folding ctx w next := by
  have hblank : ∀ f ∈ rest, f.invertData = .empty := fun f hf => folding.blank f (htodo ▸ List.mem_cons_of_mem _ hf)
  unfold ApplyLoop.turn at hturn
  split_ifs at hturn with hstatus
  · cases hturn
    refine ⟨?_, hblank⟩
    have hcommitted : ApplyLoop.committed { l with done := l.done ++ [e], todo := rest } = l.committed := by
      simp [ApplyLoop.committed, List.filter_append, hstatus]
    rw [hcommitted]
    exact folding.leads
  · have hcommitted : e.status = .committed := not_not.mp hstatus
    split at hturn
    next world undo happly =>
      cases hturn
      refine ⟨?_, hblank⟩
      obtain ⟨v, htrace, hmatches⟩ := folding.leads
      have hregistered : v.records.schemas = w.records.schemas := (inv_iff.mp (htrace.inv (inv_iff.mpr ⟨rfl, tidy⟩))).1
      have hdoes := does_of_applied (hmatches.records.schemas.trans hregistered) happly
      obtain ⟨t, ht, hsim⟩ := (worldEffects ctx w.records.schemas).does_sim (sim_iff.mpr hmatches) hdoes
      refine ⟨t, ?_, sim_iff.mp hsim⟩
      have hnext : ApplyLoop.committed
          { world := world, done := l.done ++ [{ e with applied := true, invertData := undo }], todo := rest } =
            l.committed ++ [{ e with applied := true, invertData := undo }] := by
        simp [ApplyLoop.committed, List.filter_append, hcommitted]
      rw [hnext]
      exact htrace.concat ht
    next world error happly =>
      cases hturn
      have hsame : world.Matches l.world := matches_of_failed happly
      unfold ApplyLoop.failLocally
      split_ifs with hgrouped
      · obtain ⟨v, htrace, hmatches⟩ :=
          folding.failGroup tidy htodo (clean world error hcommitted hgrouped happly) hsame
        refine ⟨⟨v, ?_, hmatches⟩, fun f hf => ?_⟩
        · have hnext : (l.done.map (failMember e.groupId) ++ [e.fail error]).filter
              (fun e => decide (e.status = .committed)) =
              others e.groupId l.committed := by
            rw [List.filter_append, committed_failMember]
            simp [StagedEffect.fail, ApplyLoop.committed]
          unfold ApplyLoop.committed
          rw [hnext]
          exact htrace
        · obtain ⟨g, hg, rfl⟩ := List.mem_map.mp hf
          unfold failMember
          split_ifs
          · exact hblank g hg
          · exact hblank g hg
      · refine ⟨?_, hblank⟩
        obtain ⟨v, htrace, hmatches⟩ := folding.leads
        refine ⟨v, ?_, hsame.trans hmatches⟩
        simpa [ApplyLoop.committed, List.filter_append, StagedEffect.fail] using htrace
    next => cases hturn

/-- Wherever the loop comes to, it has left what the effects that it has committed lead to. -/
theorem ApplyLoop.Comes.folding (h : Comes ctx (committedLoop ctx w effects) l) (tidy : w.tasks.Tidy)
    (clean : Clean ctx w effects)
    (fresh : ∀ e ∈ effects, e.asStaged = e) : Folding ctx w l := by
  induction h with
  | refl =>
    refine ⟨⟨w, .nil, .refl w⟩, fun e he => ?_⟩
    obtain ⟨e', he', -, hdata⟩ := mem_prepare (List.mem_filter.mp he).1
    rw [hdata, ← fresh e' he']
    rfl
  | move _ hcomes _ moves ih =>
    obtain ⟨e, rest, htodo, hturn⟩ := step_eq_some moves
    exact ih.turn tidy htodo (fun world error => clean _ e rest world error hcomes htodo) hturn

/-- A turn keeps the tree tidy. -/
theorem ApplyLoop.tidy_turn (tidy : l.world.tasks.Tidy) (hturn : l.turn ctx e rest = .ok next) :
    next.world.tasks.Tidy := by
  unfold ApplyLoop.turn at hturn
  split_ifs at hturn
  · cases hturn
    exact tidy
  · have hafter : (applyEffect ctx l.world e).state.tasks.Tidy := tidy_applyEffect tidy
    split at hturn
    next happly =>
      cases hturn
      rwa [happly] at hafter
    next happly =>
      cases hturn
      rw [happly] at hafter
      unfold ApplyLoop.failLocally
      split_ifs
      · exact tidy_foldl_invertOne hafter
      · exact hafter
    next => cases hturn

/-- The tree is tidy wherever the loop comes to. -/
theorem ApplyLoop.Comes.tidy (h : Comes ctx (committedLoop ctx w effects) l) (tidy : w.tasks.Tidy) :
    l.world.tasks.Tidy := by
  induction h with
  | refl => exact tidy
  | move _ _ _ moves ih =>
    obtain ⟨e, rest, -, hturn⟩ := step_eq_some moves
    exact tidy_turn ih hturn

/-- A commit keeps the tree tidy, also when it is rolled back. -/
theorem tidy_phaseCommit (tidy : w.tasks.Tidy) : (phaseCommit ctx w effects).1.world.tasks.Tidy := by
  have hrun : applyCommitted ctx w effects =
      ApplyLoop.run ctx (committedLoop ctx w effects).todo.length (committedLoop ctx w effects) := rfl
  unfold phaseCommit
  rw [hrun]
  rcases @run_ends ctx (committedLoop ctx w effects) _ le_rfl with
    ⟨l, hcomes, -, hend⟩ | ⟨l, e, rest, world, error, hcomes, -, hturn, hend⟩
  · rw [hend]
    exact hcomes.tidy tidy
  · rw [hend]
    refine tidy_foldl_invertOne ?_
    have hafter : (applyEffect ctx l.world e).state.tasks.Tidy := tidy_applyEffect (hcomes.tidy tidy)
    unfold ApplyLoop.turn at hturn
    split_ifs at hturn
    split at hturn
    next => cases hturn
    next => cases hturn
    next happly =>
      cases hturn
      rwa [happly] at hafter

/-- The empty tree is tidy. -/
theorem tidy_empty : TaskTree.Tidy {} where
  parent _ _ := rfl
  childless _ _ := rfl
  child _ _ hmem := absurd hmem List.not_mem_nil
  assigned _ _ hmem := absurd hmem List.not_mem_nil
  childrenNodup _ := .nil
  assignedNodup _ := .nil

/-- The tree is tidy in every world that is reached. -/
theorem World.Reached.tidy (reached : w.Reached) : w.tasks.Tidy := by
  induction reached with
  | opened empty => exact empty ▸ tidy_empty
  | elsewhere _ kept ih => exact kept ▸ ih
  | commit _ _ _ ih => exact tidy_phaseCommit ih

/-- A commit that is not rolled back leaves what the effects that it committed lead to, if every group that fails in it
fails without a trace. -/
theorem folds_of_clean (ctx : Context) (w : World) (effects : List StagedEffect) (reached : w.Reached)
    (fresh : ∀ e ∈ effects, e.asStaged = e) (kept : (phaseCommit ctx w effects).2 = false)
    (clean : Clean ctx w effects) :
    Folds ctx w effects := by
  have hrun : applyCommitted ctx w effects =
      ApplyLoop.run ctx (committedLoop ctx w effects).todo.length (committedLoop ctx w effects) := rfl
  rcases @run_ends ctx (committedLoop ctx w effects) _ le_rfl with
    ⟨l, hcomes, -, hend⟩ | ⟨l, e, rest, world, error, hcomes, -, hturn, hend⟩
  · have hcommit : phaseCommit ctx w effects = (l, false) := by rw [phaseCommit, hrun, hend]
    obtain ⟨v, htrace, hmatches⟩ := (hcomes.folding reached.tidy clean fresh).leads
    unfold Folds
    rw [hcommit]
    exact ⟨v, replay_of_trace htrace, hmatches⟩
  · rw [phaseCommit, hrun, hend] at kept
    cases kept

end Fold

section Firing

/-- A rule of the calendar that is due, and a note in the knowledge base. -/
def calendar : World :=
  { twoHomes with
    rules := fun id => if id = "daily" then some ⟨.int 5, .none⟩ else none
    kb :=
      { rules := [⟨"notes", "boss", ["kb_write"]⟩]
        resources := fun path => if path = "notes" then some ⟨.str "text", 1, "boss", 0, true⟩ else none
        versions := fun path => if path = "notes" then some ⟨1, "boss", 0⟩ else none } }

/-- A creation of a task. -/
def creates (id groupId : String) : StagedEffect where
  effectId := s!"create:{id}:{groupId}"
  entryId := s!"create:{id}:{groupId}"
  effectType := .taskCreate
  agentId := "boss"
  resource := id
  groupId := groupId
  atomicity := if groupId = "" then "per_effect" else "group"

/-- An advance of the rule. -/
def advances (groupId : String) : StagedEffect where
  effectId := s!"advance:{groupId}"
  entryId := s!"advance:{groupId}"
  effectType := .ruleAdvance
  agentId := "boss"
  resource := "daily"
  data := [("rule_id", .str "daily"), ("next_run_tick", .int 10)]
  groupId := groupId
  atomicity := "group"

/-- A task that is there when the rule fires and makes it again. -/
def firing : List StagedEffect :=
  [creates "report" "", advances "cal.daily.5", creates "report" "cal.daily.5"]

/-- The states that the loop comes to are those after a number of turns. -/
theorem ApplyLoop.Comes.exists_run {ctx : Context} {start l : ApplyLoop} (h : Comes ctx start l) :
    ∃ k ≤ start.todo.length, l = (ApplyLoop.run ctx k start).1 := by
  obtain ⟨k, hlength, hrun⟩ := run_of_comes h
  refine ⟨k, hlength ▸ Nat.le_add_right _ _, ?_⟩
  have hzero := hrun 0
  rw [Nat.add_zero] at hzero
  rw [hzero]
  rfl

/-- The loop after a number of turns. -/
def firingAfter (k : ℕ) : ApplyLoop :=
  (ApplyLoop.run plainContext k (committedLoop plainContext calendar firing)).1

/-- What has been applied of a group that fails is the advance. -/
theorem firing_members : ∀ k ≤ (committedLoop plainContext calendar firing).todo.length,
    ∀ e ∈ (firingAfter k).todo.head?, (applyEffect plainContext (firingAfter k).world e).result.isNone →
      ∀ m ∈ (firingAfter k).committed, m.groupId = e.groupId →
        m.effectType = .ruleAdvance ∧ m.ruleName = some m.resource := by
  decide +kernel

/-- No effect was applied after the advance, and none is left. -/
theorem firing_last : ∀ k ≤ (committedLoop plainContext calendar firing).todo.length,
    ∀ e ∈ (firingAfter k).todo.head?, (applyEffect plainContext (firingAfter k).world e).result.isNone →
      (firingAfter k).committed.Pairwise (fun m _ => m.groupId ≠ e.groupId) ∧ (firingAfter k).todo.tail.isEmpty := by
  decide +kernel

/-- An advance of the rule that is its resource is put back as it was found. -/
theorem restores_of_ruleAdvance {e : StagedEffect} {w : World} (htype : e.effectType = .ruleAdvance)
    (hname : e.ruleName = some e.resource) : e.Restores w where
  files := Or.inr fun _ _ hreplaced => by
    have hwrites := hreplaced.1
    rw [htype] at hwrites
    cases hwrites
  tasks _ _ id hid := by
    have hnone : e.inverseTask = none := by
      unfold StagedEffect.inverseTask
      rw [htype]
      cases e.invertData <;> rfl
    rw [hnone] at hid
    cases hid
  rules _ := hname
  outbox hemail := by
    rw [htype] at hemail
    cases hemail

/-- The group that makes the task again fails without a trace. -/
theorem firing_clean : Clean plainContext calendar firing := by
  intro l e rest world error hcomes htodo hcommitted hgrouped hfailed
  obtain ⟨k, hk, rfl⟩ := hcomes.exists_run
  have hhead : e ∈ (firingAfter k).todo.head? := by
    rw [firingAfter, htodo]
    rfl
  have hresult : (applyEffect plainContext (firingAfter k).world e).result.isNone := by
    rw [firingAfter, hfailed]
    rfl
  have hmembers := firing_members k hk e hhead hresult
  obtain ⟨hlast, hempty⟩ := firing_last k hk e hhead hresult
  constructor
  case applied =>
    intro before m after heq hmember
    have hm : m ∈ (firingAfter k).committed := by
      rw [firingAfter, heq]
      exact List.mem_append_right _ List.mem_cons_self
    obtain ⟨htype, hname⟩ := hmembers m hm hmember
    refine ⟨fun v _ => restores_of_ruleAdvance htype hname, fun f hf => ?_⟩
    rw [firingAfter, heq] at hlast
    exact absurd hmember ((List.pairwise_cons.mp (List.pairwise_append.mp hlast).2.1).1 f hf)
  case unapplied =>
    have hrest : rest = [] := by
      rw [firingAfter, htodo] at hempty
      exact List.isEmpty_iff.mp hempty
    rw [hrest]
    exact fun _ _ f hf => absurd hf List.not_mem_nil

/-- The rule fires again, as nothing was left of the group but the task that was there. -/
theorem firing_folds : Folds plainContext calendar firing :=
  folds_of_clean _ _ _ (.opened rfl) (by simp [firing, StagedEffect.asStaged, creates, advances]) (by decide +kernel)
    firing_clean

/-- A task below one that is missing, and a note that is to be written with it. -/
def plan : List StagedEffect :=
  [{ creates "step" "plan" with data := [("derived_from", .str "goal")] },
    { creates "step" "plan" with
      entryId := "note"
      effectType := .kbWrite
      resource := "notes"
      data := [("content", .str "new"), ("expected_version", .int 1)] }]

/-- A note is lost when the task before it in its group cannot be made. -/
theorem unapplied_note_lost : ¬∀ (ctx : Context) (w : World) (effects : List StagedEffect), w.Reached →
    (∀ e ∈ effects, e.asStaged = e) → (phaseCommit ctx w effects).2 = false → Folds ctx w effects := by
  intro h
  have hnothing : (phaseCommit plainContext calendar plan).1.committed.isEmpty := by decide +kernel
  have hlost : ((phaseCommit plainContext calendar plan).1.world.kb.resources "notes").isNone := by decide +kernel
  obtain ⟨v, hreplay, hmatches⟩ := h plainContext calendar plan (.opened rfl)
    (by simp [plan, StagedEffect.asStaged, creates]) (by decide +kernel)
  rw [List.isEmpty_iff.mp hnothing] at hreplay
  obtain rfl := Option.some.inj hreplay
  rw [hmatches.kb] at hlost
  cases hlost

end Firing

end MyTeam.Legacy

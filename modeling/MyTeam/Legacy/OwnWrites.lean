import MyTeam.Legacy.PrivateOverlay

/-!
# Agents see what they write

The tool calls of an agent in a tick, and the commit after them. What is staged can be applied to
the disk at any time, as long as every call goes to a file that is shown under its path and that
can be put there; a commit applies all of it, but for writes to a shared path without its lock.
-/

namespace MyTeam.Legacy

open MyTeam.Py ApplyLoop

/-- An agent may write to a path: it is not one of the shared ones, or the agent holds its lock. -/
def MayWrite (kb : SharedKB) (agent path : String) : Prop :=
  "shared-kb/".toList <+: path.toList ∨ "project/".toList <+: path.toList →
    (kb.getLock path).any (fun lock => lock.ownerAgentId = agent)

instance (kb : SharedKB) (agent path : String) : Decidable (MayWrite kb agent path) :=
  inferInstanceAs (Decidable (_ → _))

/-- What a call needs. A read needs that the file is shown; a write that is accepted, that text can be put at a path in
the home; and a patch that is accepted and can be parsed, both, and that the agent may write to the path. -/
def Sound (ctx : Context) (w : World) (agent : String) (buffer : TransactionBuffer) : ToolCall → Prop
  | .read path => Shown ctx w.files buffer.effects agent path
  | .write path content => validateWritePath path = none →
      (∃ text, content = .str text) ∧ ∃ target, ctx.privateStore.destination w.files agent path = some target ∧
        Vacant ctx w.files buffer.effects target ∧ Legible w.files target
  | .applyPatch path patch => validateWritePath path = none → (parseUnifiedPatch patch.toList).isOk →
      Shown ctx w.files buffer.effects agent path ∧ MayWrite w.kb agent path ∧
        ∀ target, ctx.privateStore.destination w.files agent path = some target →
        Vacant ctx w.files buffer.effects target

/-- Reads return what they would if the effects staged so far were applied to the disk, and every patch that is
accepted is applied by a commit at the end. -/
structure SeesOwnWrites (ctx : Context) (w : World) (agent : String) (calls : List ToolCall) : Prop where
  reads : ∀ before path, before ++ [.read path] <+: calls →
    ∃ v, replay ctx w (act ctx w.files agent before).effects = some v ∧
      handleRead ctx w.files (act ctx w.files agent before) agent path = handleRead ctx v.files .empty agent path
  patches : ∀ before path patch result, before ++ [.applyPatch path patch] <+: calls →
    (handleApplyPatch ctx w.files (act ctx w.files agent before) agent path patch).2 = .ok result →
      result.success = true →
    ∃ e ∈ (phaseCommit ctx w (act ctx w.files agent calls).effects).1.done,
      e.effectId = effectIdOf ((act ctx w.files agent before).counter + 1) ∧ e.effectType = .filePatch ∧
        e.resource = path ∧ e.applied = true ∧ e.status = .committed

/-- What holds of the effects of an agent in Act: they are as the tools stage them, patches are allowed, and any of
them that contain the patches can be applied to the disk without the others. -/
structure Ready (ctx : Context) (w : World) (agent : String) (staged : List StagedEffect) : Prop where
  drafted : ∀ e ∈ staged, Drafted ctx w.files agent e
  allowed : ∀ e ∈ staged, e.effectType = .filePatch → MayWrite w.kb agent e.resource
  replayed : ∀ keep : String → Bool, (∀ e ∈ staged, e.effectType = .filePatch → keep e.resource = true) →
    ∃ fs', replay ctx w (staged.filter fun e => keep e.resource) = some { w with files := fs' } ∧
      Overlaid ctx w.files (staged.filter fun e => keep e.resource) fs'

section Act

variable {ctx : Context} {w : World} {fs : FileSystem} {staged : List StagedEffect} {e : StagedEffect}
  {agent path : String} {target : List String} {keep : String → Bool}

/-- The effects and one more. -/
theorem replay_concat : replay ctx w (staged ++ [e]) =
    (replay ctx w staged).bind fun v => (applyEffect ctx v e).result := by
  simp [replay, List.foldlM_append]

/-- Without some of the effects a file can still be put there. -/
theorem Vacant.filter (h : Vacant ctx fs staged target) :
    Vacant ctx fs (staged.filter fun e => keep e.resource) target where
  dir := h.dir
  above := h.above
  apart e he := h.apart e (List.mem_filter.mp he).1

/-- What is staged under a path that is kept is kept. -/
theorem stagedUnder_filter (hkeep : keep path = true) :
    stagedUnder (staged.filter fun e => keep e.resource) path = stagedUnder staged path := by
  unfold stagedUnder
  rw [← List.filter_reverse, List.find?_filter]
  congr 2
  funext e
  by_cases hpath : e.resource = path
  · simp [hpath, hkeep]
  · simp [hpath]

/-- The last effect for a file is the last of those that are kept with it. -/
theorem lastFor_filter (hlast : lastFor ctx fs staged target = some e) (hkeep : keep e.resource = true) :
    lastFor ctx fs (staged.filter fun e => keep e.resource) target = some e := by
  obtain ⟨hleads, after, before, hstaged, hafter⟩ := List.find?_eq_some_iff_append.mp hlast
  unfold lastFor
  rw [← List.filter_reverse, List.find?_filter]
  refine List.find?_eq_some_iff_append.mpr ⟨?_, after, before, hstaged, fun e' he' => ?_⟩
  · simpa [hkeep] using hleads
  · have hnot := hafter e' he'
    simp only [Bool.not_eq_true', decide_eq_false_iff_not] at hnot
    simp [hnot]

/-- A path that is kept shows what it showed. -/
theorem Shown.filter (h : Shown ctx fs staged agent path) (hkeep : keep path = true) :
    Shown ctx fs (staged.filter fun e => keep e.resource) agent path := by
  intro target htarget e hlast
  obtain ⟨he, hleads⟩ := lastFor_eq_some hlast
  cases hfull : lastFor ctx fs staged target with
  | none => exact absurd hleads (lastFor_eq_none.mp hfull e (List.mem_filter.mp he).1)
  | some e' =>
    have hshown := h target htarget e' hfull
    have hkept := lastFor_filter hfull (hshown.1.symm ▸ hkeep)
    obtain rfl := Option.some.inj (hlast.symm.trans hkept)
    exact hshown

/-- One more effect, if it can be applied to what the others lead to. -/
theorem Ready.concat (h : Ready ctx w agent staged) (hdrafted : Drafted ctx w.files agent e)
    (hallowed : e.effectType = .filePatch → MayWrite w.kb agent e.resource)
    (hfits : ∀ keep : String → Bool, keep e.resource = true → ∀ fs',
      Overlaid ctx w.files (staged.filter fun e => keep e.resource) fs' →
        ∃ fs'' undo, applyFile ctx fs' e = .applied fs'' undo ∧
          Overlaid ctx w.files (staged.filter (fun e => keep e.resource) ++ [e]) fs'') :
    Ready ctx w agent (staged ++ [e]) := by
  constructor
  case drafted =>
    intro e' he'
    rcases List.mem_append.mp he' with hold | hnew
    · exact h.drafted e' hold
    · exact List.mem_singleton.mp hnew ▸ hdrafted
  case allowed =>
    intro e' he'
    rcases List.mem_append.mp he' with hold | hnew
    · exact h.allowed e' hold
    · exact List.mem_singleton.mp hnew ▸ hallowed
  case replayed =>
    intro keep hkeep
    obtain ⟨fs', hreplay, hoverlaid⟩ := h.replayed keep fun e' he' => hkeep e' (List.mem_append_left _ he')
    rw [List.filter_append]
    by_cases hkept : keep e.resource = true
    · obtain ⟨fs'', undo, happly, hover⟩ := hfits keep hkept fs' hoverlaid
      have hadded : [e].filter (fun e => keep e.resource) = [e] := by simp [hkept]
      rw [hadded]
      refine ⟨fs'', ?_, hover⟩
      rw [replay_concat, hreplay, Option.bind_some, applyEffect_file hdrafted.file, happly]
      rfl
    · have hdropped : [e].filter (fun e => keep e.resource) = [] := by simp [hkept]
      rw [hdropped, List.append_nil]
      exact ⟨fs', hreplay, hoverlaid⟩

/-- Nothing is staged at first. -/
theorem Ready.nil : Ready ctx w agent [] where
  drafted e he := by cases he
  allowed e he := by cases he
  replayed keep _ := ⟨w.files, rfl, .nil⟩

/-- A write can be staged where text can be put. -/
theorem Ready.write {content : Value} {call : StageCall} {id : String} (h : Ready ctx w agent staged)
    (hstaged : (handleWrite ctx agent path content).1 = some call)
    (hsound : validateWritePath path = none → (∃ text, content = .str text) ∧
      ∃ target, ctx.privateStore.destination w.files agent path = some target ∧ Vacant ctx w.files staged target ∧
        Legible w.files target) :
    Ready ctx w agent (staged ++ [call.effect id]) := by
  unfold handleWrite at hstaged
  cases hvalid : validateWritePath path with
  | some error => simp [hvalid] at hstaged
  | none =>
    obtain ⟨⟨text, rfl⟩, target, hleads, hvacant, hlegible⟩ := hsound hvalid
    simp only [hvalid, Option.some.injEq] at hstaged
    subst hstaged
    have hdrafted : Drafted ctx w.files agent (StageCall.effect
        { effectType := .fileWrite, agentId := agent, resource := path, data := some [("content", .str text)] } id) :=
      ⟨⟨target, hleads⟩, rfl, rfl, rfl, rfl, rfl, rfl, ⟨text, rfl⟩, rfl⟩
    refine h.concat hdrafted (fun htype => by cases htype) fun keep _ fs' hoverlaid => ?_
    exact hoverlaid.applied hdrafted hleads hvacant.filter (hoverlaid.legible hlegible) rfl

/-- A patch can be staged for a file that is shown, where a file can be put. -/
theorem Ready.applyPatch {patch : String} {buffer : TransactionBuffer} {call : StageCall} {id : String}
    (h : Ready ctx w agent buffer.effects)
    (hstaged : (handleApplyPatch ctx w.files buffer agent path patch).1 = some call)
    (hsound : validateWritePath path = none → (parseUnifiedPatch patch.toList).isOk →
      Shown ctx w.files buffer.effects agent path ∧ MayWrite w.kb agent path ∧
        ∀ target, ctx.privateStore.destination w.files agent path = some target →
          Vacant ctx w.files buffer.effects target) :
    Ready ctx w agent (buffer.effects ++ [call.effect id]) := by
  rcases handleApplyPatch_cases with ⟨hnone, -⟩ | ⟨hvalid, hparse, found, content, base, text, hread, hcontent, hcall⟩
  · rw [hnone] at hstaged
    cases hstaged
  obtain rfl := Option.some.inj (hcall.symm.trans hstaged)
  obtain ⟨hshown, hallowed, hvacant⟩ := hsound hvalid hparse
  rw [readPrivateFile_eq h.drafted] at hread
  -- what is kept is read as everything is
  have hmet (keep : String → Bool) (hkeep : keep path = true) (fs' : FileSystem)
      (hoverlaid : Overlaid ctx w.files (buffer.effects.filter fun e => keep e.resource) fs') :
      readDisk ctx fs' agent path = .ok (found, content) := by
    rw [← hoverlaid.read (fun e he => h.drafted e (List.mem_filter.mp he).1) (hshown.filter hkeep),
      stagedUnder_filter hkeep, hread]
  obtain ⟨target, hleads⟩ : ∃ target, ctx.privateStore.destination w.files agent path = some target := by
    obtain ⟨fs', -, hoverlaid⟩ := h.replayed (fun _ => true) fun _ _ _ => rfl
    rw [← destination_congr hoverlaid.resolve]
    exact exists_destination (hmet (fun _ => true) rfl fs' hoverlaid)
  have hdrafted : Drafted ctx w.files agent ((stagePatch ctx agent path patch base text).effect id) :=
    ⟨⟨target, hleads⟩, rfl, rfl, rfl, rfl, rfl, rfl, ⟨text, rfl⟩, rfl⟩
  refine h.concat hdrafted (fun _ => hallowed) fun keep hkeep fs' hoverlaid => ?_
  have hthere : ((stagePatch ctx agent path patch base text).effect id).destination ctx fs' = some target := by
    rw [StagedEffect.destination, destination_congr hoverlaid.resolve]
    exact hleads
  obtain ⟨hbase, hlegible⟩ := checkBase_of_readDisk rfl hthere (hmet keep hkeep fs' hoverlaid) hcontent rfl
  exact hoverlaid.applied hdrafted hleads (hvacant target hleads).filter hlegible hbase

/-- A sound call keeps the effects ready. -/
theorem Ready.after {buffer : TransactionBuffer} {call : ToolCall} (h : Ready ctx w agent buffer.effects)
    (hsound : Sound ctx w agent buffer call) : Ready ctx w agent (buffer.after ctx w.files agent call).effects := by
  unfold TransactionBuffer.after
  cases call with
  | read path => exact h
  | write path content =>
    cases hstaged : (handleWrite ctx agent path content).1 with
    | none =>
      rw [perform, hstaged]
      exact h
    | some call =>
      rw [perform, hstaged]
      exact h.write hstaged hsound
  | applyPatch path patch =>
    cases hstaged : (handleApplyPatch ctx w.files buffer agent path patch).1 with
    | none =>
      rw [perform, hstaged]
      exact h
    | some call =>
      rw [perform, hstaged]
      exact h.applyPatch hstaged hsound

/-- Every call of the agent is sound when its turn comes. -/
def AllSound (ctx : Context) (w : World) (agent : String) (calls : List ToolCall) : Prop :=
  ∀ before call, before ++ [call] <+: calls → Sound ctx w agent (act ctx w.files agent before) call

/-- The buffer after one more call. -/
theorem act_concat {calls : List ToolCall} {call : ToolCall} :
    act ctx fs agent (calls ++ [call]) = (act ctx fs agent calls).after ctx fs agent call :=
  List.foldl_concat _ _ _ _

/-- Sound calls keep the effects ready. -/
theorem AllSound.ready {calls : List ToolCall} (h : AllSound ctx w agent calls) :
    Ready ctx w agent (act ctx w.files agent calls).effects := by
  induction calls using List.reverseRecOn with
  | nil => exact .nil
  | append_singleton calls call ih =>
    rw [act_concat]
    have hbefore : AllSound ctx w agent calls := fun before call hbegins =>
      h before call (hbegins.trans (List.prefix_append _ _))
    exact (ih hbefore).after (h calls call (List.prefix_refl _))

variable (ctx fs agent) in
/-- Staged effects stay. -/
theorem effects_begin {before calls : List ToolCall} (h : before <+: calls) :
    (act ctx fs agent before).effects <+: (act ctx fs agent calls).effects := by
  obtain ⟨rest, rfl⟩ := h
  induction rest using List.reverseRecOn with
  | nil =>
    rw [List.append_nil]
  | append_singleton rest call ih =>
    rw [← List.append_assoc, act_concat]
    refine ih.trans ?_
    unfold TransactionBuffer.after
    cases (perform ctx fs agent (act ctx fs agent (before ++ rest)) call).1 with
    | none => exact List.prefix_refl _
    | some call => exact List.prefix_append _ _

end Act

section Commit

variable {ctx : Context} {w v : World} {fs : FileSystem} {staged : List StagedEffect} {e : StagedEffect}
  {agent : String}

/-- A lock is asked for where an agent may not write. -/
theorem checkLock_drafted (h : Drafted ctx fs agent e) :
    checkLock w.kb e = if MayWrite w.kb agent e.resource then none else some "Must hold lock to write" := by
  have htype : e.effectType ∈ [EffectType.kbWrite, .kbCreate, .kbDelete, .fileWrite, .filePatch, .fileDelete] := by
    have hfile := h.file
    unfold EffectType.writesFile at hfile
    rcases of_decide_eq_true hfile with htype | htype <;> rw [htype] <;> decide
  unfold checkLock
  rw [h.token, h.agent]
  by_cases hshared : "shared-kb/".toList <+: e.resource.toList ∨ "project/".toList <+: e.resource.toList
  · rw [if_pos ⟨htype, hshared⟩]
    cases hlock : w.kb.getLock e.resource with
    | none =>
      have hdenied : ¬MayWrite w.kb agent e.resource := fun hallowed => by simpa [hlock] using hallowed hshared
      rw [if_neg hdenied]
    | some lock =>
      by_cases howner : lock.ownerAgentId = agent
      · have hallowed : MayWrite w.kb agent e.resource := fun _ => by simp [hlock, howner]
        simp [hallowed, howner]
      · have hdenied : ¬MayWrite w.kb agent e.resource := fun hallowed => by
          simpa [hlock, howner] using hallowed hshared
        simp [hdenied, howner]
  · have hallowed : MayWrite w.kb agent e.resource := fun hboth => absurd hboth hshared
    rw [if_neg fun hboth => hshared hboth.2, if_pos hallowed]

/-- An effect of the tools passes validation where the agent may write. -/
theorem validateEffect_drafted (h : Drafted ctx fs agent e) :
    validateEffect ctx w e = if MayWrite w.kb agent e.resource then { e with status := .validated }
      else e.fail "Must hold lock to write" := by
  have hfile := h.file
  unfold EffectType.writesFile at hfile
  have htask : checkTask ctx w.tasks e = none := by
    unfold checkTask
    rcases of_decide_eq_true hfile with htype | htype <;> rw [htype] <;> rfl
  have hversion : checkVersion w.kb e = none := by
    rw [checkVersion, h.version]
  have hpermission : checkPermission w.kb e = none := by
    unfold checkPermission
    rcases of_decide_eq_true hfile with htype | htype <;> rw [htype] <;> rfl
  unfold validateEffect
  rw [if_neg (not_not.mpr h.status), htask, hversion, hpermission, checkLock_drafted h]
  split_ifs <;> rfl

variable (ctx w) in
/-- What is committed of the effects of the tools. -/
theorem prepare_drafted (h : ∀ e ∈ staged, Drafted ctx fs agent e) :
    ((prepare ctx w staged).filter fun e => e.status = .committed) =
      (staged.filter fun e => MayWrite w.kb agent e.resource).map fun e => { e with status := .committed } := by
  have hkept (e : StagedEffect) (he : e ∈ staged.map (validateEffect ctx w)) : e.agentId = agent ∧ ¬e.Grouped := by
    obtain ⟨e', he', rfl⟩ := List.mem_map.mp he
    rw [validateEffect_drafted (h e' he')]
    have halone (text : String) : ¬(e'.fail text).Grouped := fun hgrouped => hgrouped.1 (h e' he').alone
    split_ifs
    · exact ⟨(h e' he').agent, fun hgrouped => hgrouped.1 (h e' he').alone⟩
    · exact ⟨(h e' he').agent, halone _⟩
  have hvalidate : validate ctx w staged = staged.map (validateEffect ctx w) := by
    unfold validate
    refine (List.map_congr_left fun e he => ?_).trans (List.map_id _)
    exact if_neg fun hgroup => (hkept e he).2 hgroup.1
  have hwinner (e : StagedEffect) (he : e ∈ staged.map (validateEffect ctx w)) :
      winner (staged.map (validateEffect ctx w)) e = none := by
    cases hwins : winner (staged.map (validateEffect ctx w)) e with
    | none => rfl
    | some other =>
      obtain ⟨-, ⟨f, hf, -, -, rfl⟩, -, hless⟩ := winner_eq_some.mp hwins
      rw [(hkept f hf).1, (hkept e he).1] at hless
      exact absurd hless (lt_irrefl _)
  have hresolve : resolveConflicts (staged.map (validateEffect ctx w)) = staged.map (validateEffect ctx w) := by
    unfold resolveConflicts
    refine (List.map_congr_left fun e he => ?_).trans (List.map_id _)
    rw [hwinner e he]
    refine if_neg ?_
    rintro ⟨-, loser, hloser, hloses, -⟩
    rw [hwinner loser hloser] at hloses
    cases hloses
  have hcommit : commitValidated (staged.map (validateEffect ctx w)) = staged.map fun e =>
      if MayWrite w.kb agent e.resource then { e with status := .committed } else e.fail "Must hold lock to write" := by
    rw [commitValidated, List.map_map]
    refine List.map_congr_left fun e he => ?_
    rw [Function.comp_apply, validateEffect_drafted (h e he)]
    by_cases hallowed : MayWrite w.kb agent e.resource
    · rw [if_pos hallowed, if_pos hallowed]
      rfl
    · rw [if_neg hallowed, if_neg hallowed]
      exact if_neg fun hstatus => by cases hstatus
  have hstatus (e : StagedEffect) : ((if MayWrite w.kb agent e.resource then { e with status := .committed }
      else e.fail "Must hold lock to write" : StagedEffect).status = .committed) ↔ MayWrite w.kb agent e.resource := by
    by_cases hallowed : MayWrite w.kb agent e.resource
    · simp [hallowed]
    · simp [hallowed, StagedEffect.fail]
  rw [prepare, hvalidate, hresolve, hcommit, List.filter_map]
  have hfilter : (fun e : StagedEffect => decide (e.status = .committed)) ∘ (fun e : StagedEffect =>
      if MayWrite w.kb agent e.resource then { e with status := .committed } else e.fail "Must hold lock to write") =
      fun e => decide (MayWrite w.kb agent e.resource) := by
    funext e
    exact decide_eq_decide.mpr (hstatus e)
  rw [hfilter]
  refine List.map_congr_left fun e he => ?_
  exact if_pos (of_decide_eq_true (List.mem_filter.mp he).2)

/-- Committed effects that can be applied one after the other are applied. -/
theorem run_of_replay {l : ApplyLoop} (hcommitted : ∀ e ∈ l.todo, e.status = .committed)
    (h : replay ctx l.world l.todo = some v) :
    ∃ done, run ctx l.todo.length l = ({ world := v, done := l.done ++ done, todo := [] }, none) ∧
      ∀ e ∈ l.todo, ∃ undo, { e with applied := true, invertData := undo } ∈ done := by
  generalize htodo : l.todo = todo at *
  induction todo generalizing l with
  | nil =>
    obtain rfl := Option.some.inj h
    refine ⟨[], ?_, fun e he => by cases he⟩
    rw [List.append_nil, List.length_nil, run, ← htodo]
  | cons e rest ih =>
    obtain ⟨u, hu, hrest⟩ := Option.bind_eq_some_iff.mp h
    have hstatus := hcommitted e List.mem_cons_self
    cases happly : applyEffect ctx l.world e with
    | failed state error => simp [happly, Outcome.result] at hu
    | raised state error => simp [happly, Outcome.result] at hu
    | applied state undo =>
      obtain rfl : state = u := by simpa [happly, Outcome.result] using hu
      have hturn : l.turn ctx e rest = .ok
          { world := state, done := l.done ++ [{ e with applied := true, invertData := undo }], todo := rest } := by
        rw [turn, if_neg (not_not.mpr hstatus), happly]
      obtain ⟨done, hrun, hdone⟩ := @ih
        { world := state, done := l.done ++ [{ e with applied := true, invertData := undo }], todo := rest } rfl
        (fun e' he' => hcommitted e' (List.mem_cons_of_mem _ he')) hrest
      refine ⟨{ e with applied := true, invertData := undo } :: done, ?_, fun e' he' => ?_⟩
      · rw [List.length_cons, run, htodo]
        simp only [hturn]
        rw [hrun, List.append_assoc, List.singleton_append]
      · rcases List.mem_cons.mp he' with rfl | he'
        · exact ⟨undo, List.mem_cons_self⟩
        · obtain ⟨undo', hmem⟩ := hdone e' he'
          exact ⟨undo', List.mem_cons_of_mem _ hmem⟩

/-- An effect is applied whatever its status. -/
theorem applyEffect_status {status : EffectStatus} :
    applyEffect ctx w { e with status := status } = applyEffect ctx w e := by
  rfl

/-- Replay does not depend on the statuses of the effects. -/
theorem replay_map_status {status : EffectStatus} :
    replay ctx w (staged.map fun e => { e with status := status }) = replay ctx w staged := by
  induction staged generalizing w with
  | nil => rfl
  | cons e staged ih =>
    simp only [replay, List.map_cons, List.foldlM_cons] at ih ⊢
    rw [applyEffect_status]
    cases hstep : (applyEffect ctx w e).result with
    | none => rfl
    | some v => exact ih

/-- A commit of what the tools staged applies everything the agent may write. -/
theorem Ready.commit (h : Ready ctx w agent staged) (he : e ∈ staged) (hallowed : MayWrite w.kb agent e.resource) :
    ∃ undo, { e with status := .committed, applied := true, invertData := undo } ∈
    (phaseCommit ctx w staged).1.done := by
  have hpatches (e : StagedEffect) (he : e ∈ staged) (htype : e.effectType = .filePatch) :
      decide (MayWrite w.kb agent e.resource) = true := decide_eq_true (h.allowed e he htype)
  obtain ⟨fs', hreplay, -⟩ := h.replayed (fun path => decide (MayWrite w.kb agent path)) hpatches
  have hprepared := prepare_drafted ctx w h.drafted
  have hrun := @run_of_replay ctx { w with files := fs' }
    { world := w, todo := (prepare ctx w staged).filter fun e => e.status = .committed }
    (fun e he => of_decide_eq_true (List.mem_filter.mp he).2) (by rw [hprepared, replay_map_status, hreplay])
  obtain ⟨done, hrun, hdone⟩ := hrun
  have hmem : { e with status := .committed } ∈ (prepare ctx w staged).filter fun e => e.status = .committed := by
    rw [hprepared]
    exact List.mem_map.mpr ⟨e, List.mem_filter.mpr ⟨he, decide_eq_true hallowed⟩, rfl⟩
  obtain ⟨undo, hundo⟩ := hdone _ hmem
  refine ⟨undo, ?_⟩
  unfold phaseCommit applyCommitted
  dsimp only
  rw [hrun]
  exact hundo

end Commit

/-- One more call is sound if it is sound after the others. -/
theorem AllSound.concat {ctx : Context} {w : World} {agent : String} {calls : List ToolCall} {call : ToolCall}
    (h : AllSound ctx w agent calls) (hcall : Sound ctx w agent (act ctx w.files agent calls) call) :
    AllSound ctx w agent (calls ++ [call]) := by
  intro before other hbegins
  rcases List.prefix_concat_iff.mp hbegins with heq | hbefore
  · obtain ⟨rfl, hsame⟩ := List.append_inj' heq rfl
    obtain rfl := List.singleton_injective hsame
    exact hcall
  · exact h before other hbefore

/-- Where every call of an agent is sound, it reads what it has written, and the patches that it was told are staged are
in the files after the commit. -/
theorem seesOwnWrites_of_allSound (ctx : Context) (w : World) (agent : String) (calls : List ToolCall)
    (h : AllSound ctx w agent calls) : SeesOwnWrites ctx w agent calls := by
  constructor
  case reads =>
    intro before path hbegins
    have hbefore : AllSound ctx w agent before := fun earlier call hearlier =>
      h earlier call (hearlier.trans ((List.prefix_append _ _).trans hbegins))
    have hready := hbefore.ready
    obtain ⟨fs', hreplay, hoverlaid⟩ := hready.replayed (fun _ => true) fun _ _ _ => rfl
    rw [List.filter_true] at hreplay hoverlaid
    refine ⟨_, hreplay, ?_⟩
    have hread : readPrivateFile ctx w.files (act ctx w.files agent before) agent path =
        readPrivateFile ctx fs' .empty agent path := by
      rw [readPrivateFile_eq hready.drafted, hoverlaid.read hready.drafted (h before _ hbegins)]
      rfl
    unfold handleRead
    rw [hread]
  case patches =>
    intro before path patch result hbegins hresult hsuccess
    rcases handleApplyPatch_cases with ⟨-, hrefused⟩ | ⟨-, -, found, content, base, text, -, -, hstaged⟩
    · rw [hrefused result hresult] at hsuccess
      cases hsuccess
    have hready := h.ready
    have hafter := (effects_begin ctx w.files agent hbegins).subset
    have hmem : (stagePatch ctx agent path patch base text).effect
        (effectIdOf ((act ctx w.files agent before).counter + 1)) ∈ (act ctx w.files agent calls).effects := by
      refine hafter ?_
      rw [act_concat, TransactionBuffer.after, perform, hstaged]
      exact List.mem_append_right _ (List.mem_singleton_self _)
    obtain ⟨undo, hdone⟩ := hready.commit hmem (hready.allowed _ hmem rfl)
    exact ⟨_, hdone, rfl, rfl, rfl, rfl, rfl⟩

/-- An agent that writes a note, reads it and patches it. -/
def noteCalls : List ToolCall :=
  [.write "notes.md" (.str "one\n"), .read "notes.md",
    .applyPatch "notes.md" "--- a/notes.md\n+++ b/notes.md\n@@ -1,1 +1,1 @@\n-one\n+two\n"]

/-- The home of an agent, where there are no notes yet. -/
theorem seesOwnWrites_notes : SeesOwnWrites plainContext twoHomes "a" noteCalls := by
  have hhome : plainContext.privateStore.destination twoHomes.files "a" "notes.md" =
      some ["private", "a", "notes.md"] := by decide +kernel
  have hvacant (staged : List StagedEffect)
      (hstaged : ∀ e ∈ staged, e.destination plainContext twoHomes.files = some ["private", "a", "notes.md"]) :
      Vacant plainContext twoHomes.files staged ["private", "a", "notes.md"] :=
    { dir := by decide +kernel
      above := by decide +kernel
      apart := fun e he other hother _ => Option.some.inj (hother.symm.trans (hstaged e he)) }
  have hshown : Shown plainContext twoHomes.files (act plainContext twoHomes.files "a" (noteCalls.take 1)).effects "a"
      "notes.md" := by
    intro target htarget e hlast
    obtain rfl := List.mem_singleton.mp (lastFor_eq_some hlast).1
    refine ⟨rfl, fun text htext => ?_⟩
    obtain rfl : "one\n" = text := Value.str.inj htext
    decide
  have hone : AllSound plainContext twoHomes "a" (noteCalls.take 1) := by
    have hnone : AllSound plainContext twoHomes "a" [] := fun before call h => absurd (List.prefix_nil.mp h) (by simp)
    refine hnone.concat fun _ => ?_
    exact ⟨⟨_, rfl⟩, _, hhome, hvacant [] (by simp), fun bytes h => by cases h⟩
  have htwo : AllSound plainContext twoHomes "a" (noteCalls.take 2) := hone.concat hshown
  refine seesOwnWrites_of_allSound _ _ _ _
    (htwo.concat fun _ _ => ⟨hshown, by decide +kernel, fun target htarget => ?_⟩)
  obtain rfl := Option.some.inj (hhome.symm.trans htarget)
  exact hvacant _ fun e he => List.mem_singleton.mp he ▸ hhome

end MyTeam.Legacy

import MyTeam.Legacy.Groups
import MyTeam.Legacy.Slots

/-!
# Groups in a commit

The members of a group have the same status from validation to the end of the apply loop, and so
two effects of a group stand together or not at all. An effect that is alone in its group, loses its
resource to no agent and can be applied stands unless the tick is rolled back.
-/

namespace MyTeam.Legacy

open MyTeam.Async

variable {ctx : Context} {w s : World} {e f m : StagedEffect} {effects rest : List StagedEffect} {g : String}

/-- The members of a group. -/
def InGroup (g : String) (e : StagedEffect) : Prop :=
  e.groupId = g ∧ e.atomicity = "group"

/-- A group has one status. -/
def Agrees (g : String) (effects : List StagedEffect) : Prop :=
  ∀ e ∈ effects, ∀ f ∈ effects, InGroup g e → InGroup g f → e.status = f.status

/-- Effects that were staged alike are in the same groups. -/
theorem inGroup_of_asStaged (h : e.asStaged = f.asStaged) (hin : InGroup g e) : InGroup g f :=
  ⟨(groupId_of_asStaged h).symm.trans hin.1, (atomicity_of_asStaged h).symm.trans hin.2⟩

/-- After validation by the checks of Commit, an effect is validated or failed. -/
theorem status_validate (staged : ∀ e ∈ effects, e.status = .staged) :
    ∀ e ∈ validate ctx w effects, e.status = .validated ∨ e.status = .failed := by
  have hchecked : effects.map (Checks.ofWorld ctx w).validateEffect = effects.map (validateEffect ctx w) := by
    refine List.map_congr_left fun e _ => ?_
    rw [Checks.validateEffect, error_ofWorld]
    rfl
  rw [validate_eq_failGroups, ← hchecked]
  exact status_validated staged

/-- Before the apply loop a group has one status. -/
theorem prepare_agrees (staged : ∀ e ∈ effects, e.status = .staged) (named : g ≠ "") :
    Agrees g (prepare ctx w effects) := by
  intro e he f hf hein hfin
  obtain ⟨e₀, he₀, hegroup, heatomic, hefails, hestands⟩ := status_settled (status_validate staged) he
  obtain ⟨f₀, hf₀, hfgroup, hfatomic, hffails, hfstands⟩ := status_settled (status_validate staged) hf
  have hegrouped : e₀.Grouped := ⟨hegroup ▸ hein.1.symm ▸ named, heatomic ▸ hein.2⟩
  have hfgrouped : f₀.Grouped := ⟨hfgroup ▸ hfin.1.symm ▸ named, hfatomic ▸ hfin.2⟩
  have hsame : e₀.groupId = f₀.groupId := hegroup.symm.trans (hein.1.trans (hfin.1.symm.trans hfgroup))
  by_cases hfails : Fails (validate ctx w effects) e₀
  · rw [hefails hfails, hffails (hfails.of_member he₀ hf₀ hegrouped hfgrouped hsame)]
  · rw [hestands hfails, hfstands fun h => hfails (h.of_member hf₀ he₀ hfgrouped hegrouped hsame.symm)]

/-- A group has one status where its members come from effects with the same statuses. -/
theorem Agrees.of_members {others : List StagedEffect} (h : Agrees g effects)
    (old : ∀ m ∈ others, InGroup g m → ∃ m₀ ∈ effects, InGroup g m₀ ∧ m₀.status = m.status) : Agrees g others := by
  intro m hm m' hm' hin hin'
  obtain ⟨m₀, hm₀, hin₀, hsame⟩ := old m hm hin
  obtain ⟨m₀', hm₀', hin₀', hsame'⟩ := old m' hm' hin'
  rw [← hsame, ← hsame', h m₀ hm₀ m₀' hm₀' hin₀ hin₀']

namespace ApplyLoop

variable {start l next : ApplyLoop}

/-- A failure in a group leaves a group one status. -/
theorem agrees_failGroup {done : List StagedEffect} {error : String} (h : Agrees g (done ++ e :: rest)) :
    Agrees g ((done.map (failMember e.groupId) ++ [e.fail error]) ++ rest.map (failMember e.groupId)) := by
  have hmembers : ∀ m ∈ (done.map (failMember e.groupId) ++ [e.fail error]) ++ rest.map (failMember e.groupId),
      (∃ m₀ ∈ done ++ e :: rest, m = failMember e.groupId m₀) ∨ m = e.fail error := by
    intro m hm
    rw [List.append_assoc, List.singleton_append] at hm
    obtain hdone | hm := List.mem_append.mp hm
    · obtain ⟨m₀, hm₀, rfl⟩ := List.mem_map.mp hdone
      exact Or.inl ⟨m₀, List.mem_append_left _ hm₀, rfl⟩
    · obtain rfl | hrest := List.mem_cons.mp hm
      · exact Or.inr rfl
      · obtain ⟨m₀, hm₀, rfl⟩ := List.mem_map.mp hrest
        exact Or.inl ⟨m₀, List.mem_append_right _ (List.mem_cons_of_mem _ hm₀), rfl⟩
  have hgroupId (m₀ : StagedEffect) : (failMember e.groupId m₀).groupId = m₀.groupId :=
    groupId_of_asStaged asStaged_failMember
  by_cases hgroup : e.groupId = g
  · -- The whole group fails here.
    have hfailed : ∀ m ∈ (done.map (failMember e.groupId) ++ [e.fail error]) ++ rest.map (failMember e.groupId),
        InGroup g m → m.status = .failed := by
      intro m hm hin
      obtain ⟨m₀, -, rfl⟩ | rfl := hmembers m hm
      · rw [failMember, if_pos ((hgroupId m₀).symm.trans (hin.1.trans hgroup.symm))]
        rfl
      · rfl
    exact fun m hm m' hm' hin hin' => (hfailed m hm hin).trans (hfailed m' hm' hin').symm
  · refine h.of_members fun m hm hin => ?_
    obtain ⟨m₀, hm₀, rfl⟩ | rfl := hmembers m hm
    · have hother : m₀.groupId ≠ e.groupId := fun hsame => hgroup (hsame.symm.trans ((hgroupId m₀).symm.trans hin.1))
      rw [failMember, if_neg hother] at hin ⊢
      exact ⟨m₀, hm₀, hin, rfl⟩
    · exact absurd hin.1 hgroup

/-- A turn leaves a group one status. -/
theorem agrees_turn (h : Agrees g (l.done ++ l.todo)) (named : g ≠ "") (htodo : l.todo = e :: rest)
    (hturn : l.turn ctx e rest = .ok next) : Agrees g (next.done ++ next.todo) := by
  rw [htodo] at h
  have hother {m m' : StagedEffect} (hm : m ∈ (l.done ++ [m']) ++ rest) :
      m = m' ∨ m ∈ l.done ++ e :: rest := by
    rw [List.append_assoc, List.singleton_append] at hm
    obtain hdone | hm := List.mem_append.mp hm
    · exact Or.inr (List.mem_append_left _ hdone)
    · obtain rfl | hrest := List.mem_cons.mp hm
      · exact Or.inl rfl
      · exact Or.inr (List.mem_append_right _ (List.mem_cons_of_mem _ hrest))
  unfold ApplyLoop.turn at hturn
  split_ifs at hturn with hstatus
  · cases hturn
    rwa [List.append_assoc, List.singleton_append]
  · split at hturn
    next state undo happly =>
      cases hturn
      refine h.of_members fun m hm hin => ?_
      obtain rfl | hold := hother hm
      · exact ⟨e, List.mem_append_right _ List.mem_cons_self, hin, rfl⟩
      · exact ⟨m, hold, hin, rfl⟩
    next state error happly =>
      cases hturn
      unfold ApplyLoop.failLocally
      split_ifs with hgrouped
      · exact agrees_failGroup h
      · refine h.of_members fun m hm hin => ?_
        obtain rfl | hold := hother hm
        · exact absurd ⟨fun hblank => named (hin.1.symm.trans hblank), hin.2⟩ hgrouped
        · exact ⟨m, hold, hin, rfl⟩
    next => cases hturn

/-- A group has one status wherever the loop comes to. -/
theorem agrees_comes (h : Comes ctx start l) (named : g ≠ "") (agrees : Agrees g (start.done ++ start.todo)) :
    Agrees g (l.done ++ l.todo) := by
  induction h with
  | refl => exact agrees
  | move _ _ _ moves ih =>
    obtain ⟨e, rest, htodo, hturn⟩ := step_eq_some moves
    exact agrees_turn ih named htodo hturn

end ApplyLoop

open ApplyLoop

/-- The effects at the start of the loop are committed. -/
theorem committed_committedLoop : ∀ e ∈ (committedLoop ctx w effects).todo, e.status = .committed :=
  fun e he => by simpa using (List.mem_filter.mp he).2

/-- A commit that is not rolled back goes through all its effects. -/
theorem phaseCommit_ends (hkept : (phaseCommit ctx w effects).2 = false) :
    Comes ctx (committedLoop ctx w effects) (phaseCommit ctx w effects).1 ∧
    (phaseCommit ctx w effects).1.todo = [] := by
  have hrun : applyCommitted ctx w effects =
      ApplyLoop.run ctx (committedLoop ctx w effects).todo.length (committedLoop ctx w effects) := rfl
  rcases @run_ends ctx (committedLoop ctx w effects) _ le_rfl with
    ⟨l, hcomes, htodo, hend⟩ | ⟨l, e, rest, world, error, -, -, -, hend⟩
  · rw [phaseCommit, hrun, hend]
    exact ⟨hcomes, htodo⟩
  · rw [phaseCommit, hrun, hend] at hkept
    cases hkept

/-- Nothing stands in a tick that is rolled back. -/
theorem kept_of_committed (hm : m ∈ (phaseCommit ctx w effects).1.done) (hcommitted : m.status = .committed) :
    (phaseCommit ctx w effects).2 = false := by
  unfold phaseCommit at hm ⊢
  cases happly : applyCommitted ctx w effects with
  | mk l error =>
    cases error with
    | none => rfl
    | some error =>
      rw [happly] at hm
      obtain ⟨m', -, rfl⟩ := List.mem_map.mp hm
      split at hcommitted
      · cases hcommitted
      next hnot => exact absurd (Or.inr hcommitted) hnot

/-- What the loop has at its start was staged. -/
theorem staged_of_mem_todo (fresh : ∀ e ∈ effects, e.asStaged = e) (hm : m ∈ (committedLoop ctx w effects).todo) :
    m ∈ prepare ctx w effects ∧ m.asStaged ∈ effects := by
  have hprepared := (List.mem_filter.mp hm).1
  obtain ⟨e, he, hsame, -⟩ := mem_prepare hprepared
  exact ⟨hprepared, hsame.trans (fresh e he) ▸ he⟩

/-- What the loop comes to was there at its start. -/
theorem Comes.mem_start {l : ApplyLoop} (hcomes : Comes ctx (committedLoop ctx w effects) l)
    (hm : m ∈ l.done ++ l.todo) :
    ∃ p ∈ (committedLoop ctx w effects).todo, p.asStaged = m.asStaged := by
  have hsettling := ApplyLoop.Comes.settling hcomes rfl committed_committedLoop
  have hmem : m.asStaged ∈ (l.done ++ l.todo).map StagedEffect.asStaged := List.mem_map_of_mem hm
  rw [hsettling.accounted] at hmem
  exact List.mem_map.mp hmem

/-- What was there at the start of the loop is among what it comes to. -/
theorem Comes.mem_end {l : ApplyLoop} (hcomes : Comes ctx (committedLoop ctx w effects) l)
    (hm : m ∈ (committedLoop ctx w effects).todo) : ∃ p ∈ l.done ++ l.todo, p.asStaged = m.asStaged := by
  have hsettling := ApplyLoop.Comes.settling hcomes rfl committed_committedLoop
  have hmem : m.asStaged ∈ (committedLoop ctx w effects).todo.map StagedEffect.asStaged := List.mem_map_of_mem hm
  rw [← hsettling.accounted] at hmem
  exact List.mem_map.mp hmem

/-- What is committed at the end was staged. -/
theorem origin_of_committed (fresh : ∀ e ∈ effects, e.asStaged = e) (hm : m ∈ (phaseCommit ctx w effects).1.done)
    (hcommitted : m.status = .committed) : m.asStaged ∈ effects := by
  obtain ⟨hcomes, -⟩ := phaseCommit_ends (kept_of_committed hm hcommitted)
  obtain ⟨p, hp, hpm⟩ := Comes.mem_start hcomes (List.mem_append_left _ hm)
  exact hpm ▸ (staged_of_mem_todo fresh hp).2

namespace Slot

variable {slot slot' : Slot ctx}

/-- At most one effect that is committed at the end is that of the slot. -/
theorem committed_unique (kept : slot.Kept (committedLoop ctx w effects)) :
    (phaseCommit ctx w effects).1.done.Pairwise fun e f =>
      slot.mine e ∧ e.status = .committed → ¬(slot.mine f ∧ f.status = .committed) := by
  cases hkept : (phaseCommit ctx w effects).2 with
  | true =>
    refine List.pairwise_of_forall_mem_list fun e he _ _ hmine => ?_
    rw [kept_of_committed he hmine.2] at hkept
    cases hkept
  | false =>
    obtain ⟨hcomes, htodo⟩ := phaseCommit_ends hkept
    have hunique := (Kept.comes hcomes rfl committed_committedLoop kept).unique
    rw [htodo, List.append_nil] at hunique
    exact hunique.imp fun hnot he hf => hnot he.1 hf.1

/-- Where an effect stands, the others of its group stand. -/
theorem stands_together (fresh : ∀ e ∈ effects, e.asStaged = e) (named : g ≠ "")
    (group : ∀ m ∈ effects, slot.mine m → InGroup g m) (hf : f ∈ effects) (mine : slot'.mine f) (hin : InGroup g f)
    (hstands : slot.Stands (phaseCommit ctx w effects).1) : slot'.Stands (phaseCommit ctx w effects).1 := by
  obtain ⟨m, hm, hmine, hstatus⟩ := hstands
  obtain ⟨hcomes, htodo⟩ := phaseCommit_ends (kept_of_committed hm hstatus)
  have hstaged : ∀ e ∈ effects, e.status = .staged := fun e he => by rw [← fresh e he]; rfl
  obtain ⟨p, hp, hpm⟩ := Comes.mem_start hcomes (List.mem_append_left _ hm)
  obtain ⟨hprepared, horigin⟩ := staged_of_mem_todo fresh hp
  have hmin : InGroup g m := by
    have hin' := group _ horigin (slot.mine_congr (hpm.symm.trans rfl) hmine)
    exact inGroup_of_asStaged (hpm ▸ rfl : p.asStaged.asStaged = m.asStaged) hin'
  obtain ⟨change, hprepare, hchange⟩ := prepare_eq_map ctx w effects
  have hf' : change f ∈ prepare ctx w effects := hprepare ▸ List.mem_map_of_mem hf
  have hfin : InGroup g (change f) := inGroup_of_asStaged (hchange f).1.symm hin
  have hcommitted : (change f).status = .committed :=
    (prepare_agrees hstaged named _ hf' _ hprepared hfin (inGroup_of_asStaged hpm.symm hmin)).trans
      (committed_committedLoop p hp)
  have hstart : change f ∈ (committedLoop ctx w effects).todo := List.mem_filter.mpr ⟨hf', decide_eq_true hcommitted⟩
  obtain ⟨q, hq, hqf⟩ := Comes.mem_end hcomes hstart
  have hqin : InGroup g q := inGroup_of_asStaged hqf.symm hfin
  have hagrees := agrees_comes hcomes named fun e he f hf _ _ => by
    rw [committed_committedLoop e he, committed_committedLoop f hf]
  refine ⟨q, ?_, slot'.mine_congr (hqf.trans (hchange f).1).symm mine, ?_⟩
  · rwa [htodo, List.append_nil] at hq
  · rw [hagrees q hq m (List.mem_append_left _ hm) hqin hmin, hstatus]

/-- An effect that is valid, alone in its group, and loses its resource to no agent, comes to the apply loop. -/
theorem mem_committedLoop (he : e ∈ effects)
    (valid : validateEffect ctx w e = { e with status := .validated })
    (alone : ∀ f ∈ effects, f.groupId = e.groupId → f = e)
    (wins : winner (validate ctx w effects) { e with status := .validated } = none) :
    { e with status := .committed } ∈ (committedLoop ctx w effects).todo := by
  have hchecked {p : StagedEffect} (hp : p ∈ effects.map (validateEffect ctx w)) (hgroup : p.groupId = e.groupId) :
      p = { e with status := .validated } := by
    obtain ⟨f, hf, rfl⟩ := List.mem_map.mp hp
    have hsame : (validateEffect ctx w f).groupId = f.groupId := by
      unfold validateEffect
      split
      · rfl
      · split <;> rfl
    rw [alone f hf (hsame.symm.trans hgroup), valid]
  have hvalidate : { e with status := .validated } ∈ validate ctx w effects := by
    refine List.mem_map.mpr ⟨validateEffect ctx w e, List.mem_map_of_mem he, ?_⟩
    rw [valid, if_neg]
    rintro ⟨-, -, member, hmember, -, hgroup, hfailed⟩
    rw [hchecked hmember hgroup] at hfailed
    cases hfailed
  have hvalidated {p : StagedEffect} (hp : p ∈ validate ctx w effects) (hgroup : p.groupId = e.groupId) :
      winner (validate ctx w effects) p = none := by
    obtain ⟨p₀, hp₀, rfl⟩ := List.mem_map.mp hp
    by_cases hspread : p₀.Grouped ∧ p₀.status ≠ .failed ∧ ∃ member ∈ effects.map (validateEffect ctx w),
        member.Grouped ∧ member.groupId = p₀.groupId ∧ member.status = .failed
    · rw [if_pos hspread, winner, if_pos (by simp [StagedEffect.fail])]
    · rw [if_neg hspread] at hgroup ⊢
      rw [hchecked hp₀ hgroup]
      exact wins
  have hresolve : { e with status := .validated } ∈ resolveConflicts (validate ctx w effects) := by
    refine List.mem_map.mpr ⟨_, hvalidate, ?_⟩
    rw [wins]
    dsimp only
    rw [if_neg]
    rintro ⟨-, loser, hloser, hloses, -, hgroup⟩
    rw [hvalidated hloser hgroup] at hloses
    cases hloses
  refine List.mem_filter.mpr ⟨List.mem_map.mpr ⟨_, hresolve, ?_⟩, by simp⟩
  rw [if_pos rfl]

/-- An effect that comes to the loop alone in its group and can be applied stands unless the tick is rolled back. -/
theorem stands_of_alone (fresh : ∀ e ∈ effects, e.asStaged = e) (kept : slot.Kept (committedLoop ctx w effects))
    (mine : slot.mine e) (alone : ∀ f ∈ effects, f.groupId = e.groupId → f = e) (hfresh : e.asStaged = e)
    (hstart : { e with status := .committed } ∈ (committedLoop ctx w effects).todo)
    (applies : ∀ m w s error, m.asStaged = e → slot.absent w → applyEffect ctx w m ≠ .failed s error)
    (hkept : (phaseCommit ctx w effects).2 = false) : slot.Stands (phaseCommit ctx w effects).1 := by
  obtain ⟨hcomes, htodo⟩ := phaseCommit_ends hkept
  obtain ⟨q, hq, hqe⟩ := Comes.mem_end hcomes hstart
  rw [htodo, List.append_nil] at hq
  have hqe : q.asStaged = e.asStaged := hqe
  have hsettling := ApplyLoop.Comes.settling hcomes rfl committed_committedLoop
  refine ⟨q, hq, slot.mine_congr hqe.symm mine, ?_⟩
  obtain hcommitted | ⟨-, m, ⟨l, rest, world, error, hl, hltodo, hstatus, hfailed⟩, hgroup⟩ := hsettling.done q hq
  · exact hcommitted.1
  · -- What failed was in the group of the effect, and so it was the effect itself, which cannot fail.
    have hmem : m ∈ l.done ++ l.todo := List.mem_append_right _ (hltodo ▸ List.mem_cons_self)
    obtain ⟨p, hp, hpm⟩ := Comes.mem_start hl hmem
    have horigin := (staged_of_mem_todo fresh hp).2
    rw [hpm] at horigin
    have hmgroup : m.groupId = e.groupId := by
      obtain hsame | ⟨-, hgroup⟩ := hgroup
      · exact groupId_of_asStaged (hsame.trans hqe)
      · exact hgroup.trans (groupId_of_asStaged hqe)
    have hme : m.asStaged = e := alone _ horigin hmgroup
    have hlkept := Kept.comes hl rfl committed_committedLoop kept
    have hmmine : slot.mine m := slot.mine_congr (hfresh.trans hme.symm) mine
    exact absurd hfailed (applies m l.world world error hme (hlkept.absent hltodo hmmine))

end Slot

end MyTeam.Legacy

import MyTeam.Async.Transition
import MyTeam.Legacy.Commit

/-!
# The apply loop settles every effect

An effect that cannot be applied fails alone, with its group, where the loop expects the obstacle;
any other exception ends the loop. As far as the loop comes, no effect is lost, the ones it is done
with are applied or have failed for such an obstacle, and the others wait.
-/

namespace MyTeam.Legacy

open MyTeam.Py MyTeam.Async

namespace ApplyLoop

variable {ctx : Context} {l l' next : ApplyLoop} {e : StagedEffect} {rest : List StagedEffect}

/-- The next turn of the loop; none once it is through, or where an exception ends it. -/
def step (ctx : Context) (l : ApplyLoop) (_ : Unit) : Option ApplyLoop :=
  match l.todo with
  | [] => none
  | e :: rest => (l.turn ctx e rest).toOption

/-- The loop comes from one state to another. -/
abbrev Comes (ctx : Context) : ApplyLoop → ApplyLoop → Prop :=
  Reaches (step ctx) fun _ _ => True

/-- A step is the turn of the next effect. -/
theorem step_eq_some {u : Unit} (h : l.step ctx u = some next) :
    ∃ e rest, l.todo = e :: rest ∧ l.turn ctx e rest = .ok next := by
  unfold step at h
  split at h
  · cases h
  next e rest htodo =>
    refine ⟨e, rest, htodo, ?_⟩
    cases hturn : l.turn ctx e rest with
    | error _ =>
      rw [hturn] at h
      cases h
    | ok t =>
      rw [hturn] at h
      cases h
      rfl

/-- The turn of the next effect is a step. -/
theorem Comes.turn {start : ApplyLoop} (h : Comes ctx start l) (htodo : l.todo = e :: rest)
    (hturn : l.turn ctx e rest = .ok next) : Comes ctx start next := by
  refine .move () h trivial ?_
  simp [step, htodo, hturn, Except.toOption]

/-- A local failure takes one effect off the list. -/
theorem failLocally_todo {error : String} : (l.failLocally e rest error).todo.length = rest.length := by
  unfold failLocally
  split <;> simp

/-- A turn takes one effect off the list. -/
theorem turn_todo (h : l.turn ctx e rest = .ok next) : next.todo.length = rest.length := by
  unfold turn at h
  split at h
  · cases h
    rfl
  · split at h <;> cases h
    · rfl
    · exact failLocally_todo

/-- The loop goes on from a state it comes to. -/
theorem run_of_comes (h : Comes ctx l l') :
    ∃ k, k + l'.todo.length = l.todo.length ∧ ∀ m, run ctx (k + m) l = run ctx m l' := by
  induction h with
  | refl => exact ⟨0, Nat.zero_add _, fun m => by rw [Nat.zero_add]⟩
  | move u _ _ hstep ih =>
    obtain ⟨k, hlength, hrun⟩ := ih
    obtain ⟨e, rest, htodo, hturn⟩ := step_eq_some hstep
    refine ⟨k + 1, ?_, fun m => ?_⟩
    · rw [turn_todo hturn, ← hlength, htodo, List.length_cons]
      omega
    · rw [Nat.add_right_comm, Nat.add_assoc, hrun (m + 1), run, htodo]
      simp only [hturn]

/-- The loop goes through all effects, or an exception ends it. -/
theorem run_ends {n : ℕ} (h : l.todo.length ≤ n) :
    (∃ l', Comes ctx l l' ∧ l'.todo = [] ∧ run ctx n l = (l', none)) ∨
      ∃ l' e rest world error, Comes ctx l l' ∧ l'.todo = e :: rest ∧ l'.turn ctx e rest = .error (world, error) ∧
        run ctx n l = ({ l' with world := world }, some error) := by
  induction n generalizing l with
  | zero =>
    have htodo : l.todo = [] := List.eq_nil_of_length_eq_zero (Nat.le_zero.mp h)
    exact Or.inl ⟨l, .refl, htodo, rfl⟩
  | succ n ih =>
    cases htodo : l.todo with
    | nil => exact Or.inl ⟨l, .refl, htodo, by rw [run, htodo]⟩
    | cons e rest =>
      cases hturn : l.turn ctx e rest with
      | error failure =>
        refine Or.inr ⟨l, e, rest, failure.1, failure.2, .refl, htodo, hturn, ?_⟩
        rw [run, htodo]
        simp only [hturn]
      | ok next =>
        have hcomes : Comes ctx l next := Comes.turn .refl htodo hturn
        have hrun : run ctx (n + 1) l = run ctx n next := by
          rw [run, htodo]
          simp only [hturn]
        have hlength : next.todo.length ≤ n := by
          rw [turn_todo hturn]
          rw [htodo, List.length_cons] at h
          omega
        rw [hrun]
        rcases ih hlength with ⟨l', hl', hend⟩ | ⟨l', e', rest', world, error, hl', hend⟩
        · exact Or.inl ⟨l', hcomes.trans hl', hend⟩
        · exact Or.inr ⟨l', e', rest', world, error, hcomes.trans hl', hend⟩

end ApplyLoop

open ApplyLoop

/-- The loop at its start. -/
def committedLoop (ctx : Context) (w : World) (effects : List StagedEffect) : ApplyLoop where
  world := w
  todo := (prepare ctx w effects).filter fun e => e.status = .committed

variable {ctx : Context} {w : World} {e : StagedEffect}

/-- An effect as it was staged. -/
def StagedEffect.asStaged (e : StagedEffect) : StagedEffect :=
  { e with status := .staged, error := none, applied := false, invertData := .empty }

section Staged

variable {m m' : StagedEffect}

/-- Effects that were staged alike have the same type. -/
theorem effectType_of_asStaged (h : m.asStaged = m'.asStaged) : m.effectType = m'.effectType := by
  have heq := congrArg StagedEffect.effectType h
  exact heq

/-- Effects that were staged alike have the same resource. -/
theorem resource_of_asStaged (h : m.asStaged = m'.asStaged) : m.resource = m'.resource := by
  have heq := congrArg StagedEffect.resource h
  exact heq

/-- Effects that were staged alike are in the same group. -/
theorem groupId_of_asStaged (h : m.asStaged = m'.asStaged) : m.groupId = m'.groupId := by
  have heq := congrArg StagedEffect.groupId h
  exact heq

/-- Effects that were staged alike are in their groups the same way. -/
theorem atomicity_of_asStaged (h : m.asStaged = m'.asStaged) : m.atomicity = m'.atomicity := by
  have heq := congrArg StagedEffect.atomicity h
  exact heq

end Staged

/-- The loop comes to an effect that cannot be applied, and fails it. -/
def Refused (ctx : Context) (start : ApplyLoop) (m : StagedEffect) : Prop :=
  ∃ l rest world error, Comes ctx start l ∧ l.todo = m :: rest ∧ m.status = .committed ∧
    applyEffect ctx l.world m = .failed world error

/-- An effect failed because it could not be applied, or a member of its group. -/
def FailedWith (ctx : Context) (start : ApplyLoop) (e : StagedEffect) : Prop :=
  e.status = .failed ∧ ∃ m, Refused ctx start m ∧ (m.asStaged = e.asStaged ∨ m.Grouped ∧ m.groupId = e.groupId)

/-- What the loop keeps: no effect is lost, those done are settled, and the others wait or have failed. -/
structure ApplyLoop.Settling (ctx : Context) (start l : ApplyLoop) : Prop where
  comes : Comes ctx start l
  accounted : (l.done ++ l.todo).map StagedEffect.asStaged = start.todo.map StagedEffect.asStaged
  done : ∀ e ∈ l.done, e.status = .committed ∧ e.applied = true ∨ FailedWith ctx start e
  todo : ∀ e ∈ l.todo, e.status = .committed ∨ FailedWith ctx start e

namespace ApplyLoop

variable {start l next : ApplyLoop} {rest : List StagedEffect}

/-- Failing changes nothing that was staged. -/
theorem asStaged_fail {error : String} : (e.fail error).asStaged = e.asStaged :=
  rfl

/-- Failing with a group changes nothing that was staged. -/
theorem asStaged_failMember {groupId : String} {member : StagedEffect} :
    (failMember groupId member).asStaged = member.asStaged := by
  unfold failMember
  split <;> rfl

/-- A member of the group of a refused effect has failed with it; the others stay. -/
theorem failMember_cases {member m : StagedEffect} (refused : Refused ctx start m) (grouped : m.Grouped) :
    FailedWith ctx start (failMember m.groupId member) ∨ failMember m.groupId member = member := by
  unfold failMember
  split
  next hgroup => exact Or.inl ⟨rfl, m, refused, Or.inr ⟨grouped, hgroup.symm⟩⟩
  next => exact Or.inr rfl

/-- A local failure keeps the effects settled. -/
theorem Settling.failLocally (h : Settling ctx start l) (htodo : l.todo = e :: rest) {world : World} {error : String}
    (refused : Refused ctx start e)
    (comes : Comes ctx start (ApplyLoop.failLocally { l with world := world } e rest error)) :
    Settling ctx start (ApplyLoop.failLocally { l with world := world } e rest error) := by
  have haccounted := h.accounted
  have hwaiting := h.todo
  rw [htodo] at haccounted hwaiting
  have hrefused : FailedWith ctx start (e.fail error) := ⟨rfl, e, refused, Or.inl rfl⟩
  unfold ApplyLoop.failLocally at comes ⊢
  split_ifs at comes ⊢ with hgrouped
  · constructor
    case comes => exact comes
    case accounted =>
      rw [← haccounted]
      simp [Function.comp_def, asStaged_failMember, asStaged_fail]
    case done =>
      intro m hm
      rcases List.mem_append.mp hm with hm | hm
      · obtain ⟨member, hmember, rfl⟩ := List.mem_map.mp hm
        rcases failMember_cases refused hgrouped with hfailed | hsame
        · exact Or.inr hfailed
        · rw [hsame]
          exact h.done member hmember
      · rw [List.mem_singleton.mp hm]
        exact Or.inr hrefused
    case todo =>
      intro m hm
      obtain ⟨member, hmember, rfl⟩ := List.mem_map.mp hm
      rcases failMember_cases refused hgrouped with hfailed | hsame
      · exact Or.inr hfailed
      · rw [hsame]
        exact hwaiting member (List.mem_cons_of_mem _ hmember)
  · constructor
    case comes => exact comes
    case accounted =>
      rw [← haccounted]
      simp [asStaged_fail]
    case done =>
      intro m hm
      rcases List.mem_append.mp hm with hm | hm
      · exact h.done m hm
      · rw [List.mem_singleton.mp hm]
        exact Or.inr hrefused
    case todo => exact fun m hm => hwaiting m (List.mem_cons_of_mem _ hm)

/-- A turn keeps the effects settled. -/
theorem Settling.turn (h : Settling ctx start l) (htodo : l.todo = e :: rest) (hturn : l.turn ctx e rest = .ok next) :
    Settling ctx start next := by
  have hcomes : Comes ctx start next := h.comes.turn htodo hturn
  have haccounted := h.accounted
  have hwaiting := h.todo
  rw [htodo] at haccounted hwaiting
  unfold ApplyLoop.turn at hturn
  split_ifs at hturn with hstatus
  · cases hturn
    constructor
    case comes => exact hcomes
    case accounted => simpa using haccounted
    case done =>
      intro m hm
      rcases List.mem_append.mp hm with hm | hm
      · exact h.done m hm
      · rw [List.mem_singleton.mp hm]
        exact Or.inr ((hwaiting e List.mem_cons_self).resolve_left hstatus)
    case todo => exact fun m hm => hwaiting m (List.mem_cons_of_mem _ hm)
  · have hcommitted : e.status = .committed := not_not.mp hstatus
    split at hturn
    next world undo happly =>
      cases hturn
      constructor
      case comes => exact hcomes
      case accounted => simpa [StagedEffect.asStaged] using haccounted
      case done =>
        intro m hm
        rcases List.mem_append.mp hm with hm | hm
        · exact h.done m hm
        · rw [List.mem_singleton.mp hm]
          exact Or.inl ⟨hcommitted, rfl⟩
      case todo => exact fun m hm => hwaiting m (List.mem_cons_of_mem _ hm)
    next world error happly =>
      cases hturn
      exact h.failLocally htodo ⟨l, rest, world, error, h.comes, htodo, hcommitted, happly⟩ hcomes
    next => cases hturn

/-- The effects are settled wherever the loop comes to. -/
theorem Comes.settling (h : Comes ctx start l) (begins : start.done = [])
    (committed : ∀ e ∈ start.todo, e.status = .committed) : Settling ctx start l := by
  induction h with
  | refl =>
    refine ⟨.refl, by rw [begins, List.nil_append], fun e he => ?_, fun e he => Or.inl (committed e he)⟩
    rw [begins] at he
    cases he
  | move _ _ _ moves ih =>
    obtain ⟨e, rest, htodo, hturn⟩ := step_eq_some moves
    exact ih.turn htodo hturn

end ApplyLoop

section Prepare

variable {effects : List StagedEffect}

/-- A map that changes nothing that was staged or recorded. -/
theorem mem_map_asStaged {f : StagedEffect → StagedEffect}
    (same : ∀ e, (f e).asStaged = e.asStaged ∧ (f e).invertData = e.invertData) {m : StagedEffect}
    (hm : m ∈ effects.map f) : ∃ m' ∈ effects, m.asStaged = m'.asStaged ∧ m.invertData = m'.invertData := by
  obtain ⟨m', hm', rfl⟩ := List.mem_map.mp hm
  exact ⟨m', hm', same m'⟩

/-- The effects are still the staged ones when the apply loop begins. -/
theorem mem_prepare {m : StagedEffect} (hm : m ∈ prepare ctx w effects) :
    ∃ m' ∈ effects, m.asStaged = m'.asStaged ∧ m.invertData = m'.invertData := by
  unfold prepare commitValidated at hm
  obtain ⟨m₁, hm₁, hstaged₁, hdata₁⟩ := mem_map_asStaged (fun e => by split <;> exact ⟨rfl, rfl⟩) hm
  unfold resolveConflicts at hm₁
  obtain ⟨m₂, hm₂, hstaged₂, hdata₂⟩ := mem_map_asStaged (fun e => by
    split
    · exact ⟨rfl, rfl⟩
    · split <;> exact ⟨rfl, rfl⟩) hm₁
  unfold validate at hm₂
  obtain ⟨m₃, hm₃, hstaged₃, hdata₃⟩ := mem_map_asStaged (fun e => by split <;> exact ⟨rfl, rfl⟩) hm₂
  obtain ⟨m₄, hm₄, hstaged₄, hdata₄⟩ := mem_map_asStaged (fun e => by
    unfold validateEffect
    split
    · exact ⟨rfl, rfl⟩
    · split <;> exact ⟨rfl, rfl⟩) hm₃
  exact ⟨m₄, hm₄, hstaged₁.trans (hstaged₂.trans (hstaged₃.trans hstaged₄)),
    hdata₁.trans (hdata₂.trans (hdata₃.trans hdata₄))⟩

end Prepare

/-- A tick without dates, attachments and hashes. -/
def plainContext : Context where
  privateStore := ⟨"private"⟩
  tick := 1
  passed _ := false
  sha256 text := text
  datetime _ := none
  attachments
    | .list [] => some []
    | _ => none
  parseFloat _ := none

/-- The homes of two agents, with a workspace each, and nothing else. -/
def twoHomes : World where
  files :=
    { node := fun path =>
        if path ∈ [[], ["private"], ["private", "a"], ["private", "a", "workspace"], ["private", "b"],
          ["private", "b", "workspace"]] then some .dir else none
      resolve := fun path => ((path.toList.splitOn '/').map String.ofList).filter (· ≠ "") }
  kb := {}
  records := {}
  tasks := {}
  rules _ := none
  outbox _ := none

end MyTeam.Legacy

import MyTeam.Legacy.Inverses
import MyTeam.Legacy.Settling

/-!
# One effect of a commit

What a commit makes of one of its effects can be told without the others where these leave alone
what the effect is about. A slot is such a part of the world: its effect is absent from it, or
present. At the end of a commit it is present exactly if the effect is still committed, whatever
has become of the other effects, their groups, or the tick.
-/

namespace MyTeam.Legacy

open MyTeam.Py MyTeam.Async

/-- A part of the world that one effect is about. The effects of a domain leave it alone, and so do their inverses
where they go by what was recorded; the effect itself brings it about, and its inverse takes it back. -/
structure Slot (ctx : Context) where
  mine : StagedEffect → Prop
  domain : StagedEffect → Prop
  recorded : StagedEffect → Prop
  absent : World → Prop
  present : World → Prop
  mine_congr : ∀ {e e'}, e.asStaged = e'.asStaged → mine e → mine e'
  domain_congr : ∀ {e e'}, e.asStaged = e'.asStaged → domain e → domain e'
  recorded_congr : ∀ {e e'}, e.asStaged = e'.asStaged → e.invertData = e'.invertData → recorded e → recorded e'
  blank : ∀ {e}, domain e → ¬mine e → e.invertData = .empty → recorded e
  records : ∀ {w e s undo}, domain e → absent w ∨ ¬mine e → applyEffect ctx w e = .applied s undo →
    recorded { e with applied := true, invertData := undo }
  absent_other : ∀ {w e}, domain e → ¬mine e → absent w → absent (applyEffect ctx w e).state
  present_other : ∀ {w e}, domain e → ¬mine e → present w → present (applyEffect ctx w e).state
  present_mine : ∀ {w e s undo}, domain e → mine e → absent w → applyEffect ctx w e = .applied s undo → present s
  absent_mine : ∀ {w e}, domain e → mine e → absent w → (∀ s undo, applyEffect ctx w e ≠ .applied s undo) →
    absent (applyEffect ctx w e).state
  absent_undo : ∀ {w e}, domain e → recorded e → absent w → absent (invertOne w e)
  present_undo : ∀ {w e}, domain e → recorded e → ¬mine e → present w → present (invertOne w e)
  undone : ∀ {w e}, domain e → recorded e → mine e → present w → absent (invertOne w e)

namespace Slot

open ApplyLoop

variable {ctx : Context} (slot : Slot ctx) {start l next : ApplyLoop} {w s : World} {e : StagedEffect}
  {effects rest : List StagedEffect}

section Inverses

variable {slot}

/-- Inverses leave an absent effect absent. -/
theorem absent_foldl (h : ∀ m ∈ effects, slot.domain m ∧ slot.recorded m) (habsent : slot.absent w) :
    slot.absent (effects.foldl invertOne w) := by
  induction effects generalizing w with
  | nil => exact habsent
  | cons m rest ih =>
    obtain ⟨hdomain, hrecorded⟩ := h m List.mem_cons_self
    exact ih (fun m' hm' => h m' (List.mem_cons_of_mem _ hm')) (slot.absent_undo hdomain hrecorded habsent)

/-- Inverses of other effects leave a present effect present. -/
theorem present_foldl (h : ∀ m ∈ effects, slot.domain m ∧ slot.recorded m) (others : ∀ m ∈ effects, ¬slot.mine m)
    (hpresent : slot.present w) : slot.present (effects.foldl invertOne w) := by
  induction effects generalizing w with
  | nil => exact hpresent
  | cons m rest ih =>
    obtain ⟨hdomain, hrecorded⟩ := h m List.mem_cons_self
    exact ih (fun m' hm' => h m' (List.mem_cons_of_mem _ hm')) (fun m' hm' => others m' (List.mem_cons_of_mem _ hm'))
      (slot.present_undo hdomain hrecorded (others m List.mem_cons_self) hpresent)

/-- Inverses among which is that of the effect take it back. -/
theorem undone_foldl (h : ∀ m ∈ effects, slot.domain m ∧ slot.recorded m) (hmine : ∃ m ∈ effects, slot.mine m)
    (hpresent : slot.present w) : slot.absent (effects.foldl invertOne w) := by
  induction effects generalizing w with
  | nil =>
    obtain ⟨_, hm, -⟩ := hmine
    exact absurd hm List.not_mem_nil
  | cons m rest ih =>
    obtain ⟨hdomain, hrecorded⟩ := h m List.mem_cons_self
    have hrest : ∀ m' ∈ rest, slot.domain m' ∧ slot.recorded m' := fun m' hm' => h m' (List.mem_cons_of_mem _ hm')
    by_cases hfirst : slot.mine m
    · rw [List.foldl_cons]
      exact absent_foldl hrest (slot.undone hdomain hrecorded hfirst hpresent)
    · obtain ⟨m', hm', hmine'⟩ := hmine
      have hlater : m' ∈ rest := (List.mem_cons.mp hm').resolve_left fun heq => hfirst (heq ▸ hmine')
      exact ih hrest ⟨m', hlater, hmine'⟩ (slot.present_undo hdomain hrecorded hfirst hpresent)

end Inverses

/-- The effect is undone only after its turn: no effect before it is in its group, or its inverse is harmless even
when it was not applied. -/
def Safe (effects : List StagedEffect) : Prop :=
  (effects.Pairwise fun f e => slot.mine e → f.Grouped → f.groupId ≠ e.groupId) ∨
    ∀ e, slot.domain e → slot.mine e → e.invertData = .empty → slot.recorded e

/-- The loop has the effect at most once: it is absent while it waits, and after its turn it is present exactly if it
is still committed. -/
structure Kept (l : ApplyLoop) : Prop where
  domain : ∀ e ∈ l.done ++ l.todo, slot.domain e
  unique : (l.done ++ l.todo).Pairwise fun e f => slot.mine e → ¬slot.mine f
  safe : slot.Safe l.todo
  fresh : ∀ e ∈ l.todo, e.applied = false ∧ e.invertData = .empty
  recorded : ∀ e ∈ l.done, e.applied = true → slot.recorded e
  waiting : (∀ e ∈ l.done, ¬slot.mine e) → slot.absent l.world
  settled : ∀ e ∈ l.done, slot.mine e →
    e.status = .committed ∧ slot.present l.world ∨ e.status = .failed ∧ slot.absent l.world

variable {slot}

/-- Effects that were staged alike are mine or not together. -/
theorem mine_iff {e' : StagedEffect} (h : e.asStaged = e'.asStaged) : slot.mine e ↔ slot.mine e' :=
  ⟨slot.mine_congr h, slot.mine_congr h.symm⟩

/-- Where another effect is mine, this one is not. -/
theorem Kept.not_mine (h : slot.Kept l) (htodo : l.todo = e :: rest) {m : StagedEffect} (hm : m ∈ l.done)
    (hmine : slot.mine m) : ¬slot.mine e := by
  have hunique := h.unique
  rw [htodo, List.pairwise_append] at hunique
  exact hunique.2.2 m hm e List.mem_cons_self hmine

/-- While its turn has not come, the effect is absent. -/
theorem Kept.absent (h : slot.Kept l) (htodo : l.todo = e :: rest) (hmine : slot.mine e) : slot.absent l.world :=
  h.waiting fun _ hm hother => h.not_mine htodo hm hother hmine

/-- What is kept of the effects that wait, when one has had its turn. -/
theorem Kept.tail (h : slot.Kept l) (htodo : l.todo = e :: rest) : slot.Safe rest ∧
    ∀ m ∈ rest, m.applied = false ∧ m.invertData = .empty := by
  have hsafe := h.safe
  have hfresh := h.fresh
  rw [htodo] at hsafe hfresh
  exact ⟨hsafe.imp_left List.Pairwise.of_cons, fun m hm => hfresh m (List.mem_cons_of_mem _ hm)⟩

/-- Effects that were staged alike are in the domain, and mine once, together. -/
theorem Kept.accounted (h : slot.Kept l)
    (haccounted : (next.done ++ next.todo).map StagedEffect.asStaged = (l.done ++ l.todo).map StagedEffect.asStaged) :
    (∀ e ∈ next.done ++ next.todo, slot.domain e) ∧
      (next.done ++ next.todo).Pairwise fun e f => slot.mine e → ¬slot.mine f := by
  constructor
  · intro e he
    have hmem : e.asStaged ∈ (l.done ++ l.todo).map StagedEffect.asStaged := haccounted ▸ List.mem_map_of_mem he
    obtain ⟨e', he', hsame⟩ := List.mem_map.mp hmem
    exact slot.domain_congr hsame (h.domain e' he')
  · have hstaged {effects : List StagedEffect} : (effects.Pairwise fun e f => slot.mine e → ¬slot.mine f) ↔
        (effects.map StagedEffect.asStaged).Pairwise fun e f => slot.mine e → ¬slot.mine f := by
      rw [List.pairwise_map]
      refine List.pairwise_iff_forall_sublist.trans (Iff.trans ?_ List.pairwise_iff_forall_sublist.symm)
      have hown (e : StagedEffect) : slot.mine e.asStaged ↔ slot.mine e := mine_iff rfl
      simp only [hown]
    rw [hstaged, haccounted, ← hstaged]
    exact h.unique

/-- The members of a group that are undone have recorded what their inverses go by. -/
theorem Kept.recorded_undone (h : slot.Kept l) (settling : Settling ctx start l) (htodo : l.todo = e :: rest)
    (grouped : e.Grouped) : ∀ m ∈ ApplyLoop.undone e.groupId (l.done ++ rest), slot.domain m ∧ slot.recorded m := by
  intro m hm
  obtain ⟨hmem, hmember⟩ := List.mem_filter.mp hm
  obtain ⟨hgroup, hcommitted⟩ := of_decide_eq_true hmember
  have hdomain := h.domain
  rw [htodo] at hdomain
  have hrest := (h.tail htodo).2
  obtain hm | hm := List.mem_append.mp hmem
  · refine ⟨hdomain m (List.mem_append_left _ hm), h.recorded m hm ?_⟩
    obtain happlied | hfailed := settling.done m hm
    · exact happlied.2
    · rw [hfailed.1] at hcommitted
      cases hcommitted
  · have hmdomain := hdomain m (List.mem_append_right _ (List.mem_cons_of_mem _ hm))
    refine ⟨hmdomain, ?_⟩
    by_cases hmine : slot.mine m
    · have hsafe := h.safe
      rw [htodo] at hsafe
      obtain hbefore | hharmless := hsafe
      · exact absurd hgroup.symm (List.rel_of_pairwise_cons hbefore hm hmine grouped)
      · exact hharmless m hmdomain hmine (hrest m hm).2
    · exact slot.blank hmdomain hmine (hrest m hm).2

/-- Where the slot stands when an effect fails: where it stood, if the effect is another one. -/
theorem Kept.stands_failed (h : slot.Kept l) (htodo : l.todo = e :: rest) {error : String}
    (hfailed : applyEffect ctx l.world e = .failed s error) :
    (slot.mine e → slot.absent s) ∧ (¬slot.mine e → (slot.absent l.world → slot.absent s) ∧
      (slot.present l.world → slot.present s)) := by
  have hdomain : slot.domain e := h.domain e (List.mem_append_right _ (htodo ▸ List.mem_cons_self))
  have hstate : (applyEffect ctx l.world e).state = s := by rw [hfailed]; rfl
  refine ⟨fun hmine => ?_, fun hother => ⟨fun habsent => ?_, fun hpresent => ?_⟩⟩
  · refine hstate ▸ slot.absent_mine hdomain hmine (h.absent htodo hmine) fun s undo happlied => ?_
    rw [hfailed] at happlied
    cases happlied
  · exact hstate ▸ slot.absent_other hdomain hother habsent
  · exact hstate ▸ slot.present_other hdomain hother hpresent

/-- The turn of an effect that is skipped. -/
theorem Kept.skip (h : slot.Kept l) (htodo : l.todo = e :: rest) (hstatus : e.status = .failed) :
    slot.Kept { l with done := l.done ++ [e], todo := rest } := by
  have haccounted : ((l.done ++ [e]) ++ rest).map StagedEffect.asStaged =
      (l.done ++ l.todo).map StagedEffect.asStaged := by
    rw [htodo, List.append_assoc, List.singleton_append]
  obtain ⟨hdomain, hunique⟩ := @Kept.accounted _ slot l { l with done := l.done ++ [e], todo := rest } h haccounted
  have hfresh := h.fresh e (htodo ▸ List.mem_cons_self)
  constructor
  case domain => exact hdomain
  case unique => exact hunique
  case safe => exact (h.tail htodo).1
  case fresh => exact (h.tail htodo).2
  case recorded =>
    intro m hm happlied
    obtain hm | hm := List.mem_append.mp hm
    · exact h.recorded m hm happlied
    · rw [List.mem_singleton.mp hm, hfresh.1] at happlied
      cases happlied
  case waiting => exact fun hnone => h.waiting fun m hm => hnone m (List.mem_append_left _ hm)
  case settled =>
    intro m hm hmine
    obtain hm | hm := List.mem_append.mp hm
    · exact h.settled m hm hmine
    · obtain rfl := List.mem_singleton.mp hm
      exact Or.inr ⟨hstatus, h.absent htodo hmine⟩

/-- The turn of an effect that is applied. -/
theorem Kept.applied (h : slot.Kept l) (htodo : l.todo = e :: rest) (hstatus : e.status = .committed)
    {undo : InvertData}
    (happly : applyEffect ctx l.world e = .applied s undo) :
    slot.Kept { world := s, done := l.done ++ [{ e with applied := true, invertData := undo }], todo := rest } := by
  set after : StagedEffect := { e with applied := true, invertData := undo } with hafter
  have hsame : after.asStaged = e.asStaged := rfl
  have haccounted : ((l.done ++ [after]) ++ rest).map StagedEffect.asStaged =
      (l.done ++ l.todo).map StagedEffect.asStaged := by
    rw [htodo]
    simp [hsame]
  obtain ⟨hdomain, hunique⟩ :=
    @Kept.accounted _ slot l { world := s, done := l.done ++ [after], todo := rest } h haccounted
  have hdomain_e : slot.domain e := h.domain e (List.mem_append_right _ (htodo ▸ List.mem_cons_self))
  have hstate : (applyEffect ctx l.world e).state = s := by rw [happly]; rfl
  have hframe (hother : ¬slot.mine e) :
      (slot.absent l.world → slot.absent s) ∧ (slot.present l.world → slot.present s) :=
    ⟨fun habsent => hstate ▸ slot.absent_other hdomain_e hother habsent,
      fun hpresent => hstate ▸ slot.present_other hdomain_e hother hpresent⟩
  constructor
  case domain => exact hdomain
  case unique => exact hunique
  case safe => exact (h.tail htodo).1
  case fresh => exact (h.tail htodo).2
  case recorded =>
    intro m hm happlied
    obtain hm | hm := List.mem_append.mp hm
    · exact h.recorded m hm happlied
    · obtain rfl := List.mem_singleton.mp hm
      refine slot.records hdomain_e ?_ happly
      by_cases hmine : slot.mine e
      · exact Or.inl (h.absent htodo hmine)
      · exact Or.inr hmine
  case waiting =>
    intro hnone
    have hother : ¬slot.mine e := fun hmine =>
      hnone after (List.mem_append_right _ (List.mem_singleton_self _)) (slot.mine_congr hsame.symm hmine)
    exact (hframe hother).1 (h.waiting fun m hm => hnone m (List.mem_append_left _ hm))
  case settled =>
    intro m hm hmine
    obtain hm | hm := List.mem_append.mp hm
    · have hother : ¬slot.mine e := h.not_mine htodo hm hmine
      exact (h.settled m hm hmine).imp (And.imp_right (hframe hother).2) (And.imp_right (hframe hother).1)
    · obtain rfl := List.mem_singleton.mp hm
      have hmine_e : slot.mine e := slot.mine_congr hsame hmine
      exact Or.inl ⟨hstatus, slot.present_mine hdomain_e hmine_e (h.absent htodo hmine_e) happly⟩

/-- The turn of an effect that fails alone. -/
theorem Kept.failAlone (h : slot.Kept l) (htodo : l.todo = e :: rest) {error : String}
    (hfailed : applyEffect ctx l.world e = .failed s error) :
    slot.Kept { world := s, done := l.done ++ [e.fail error], todo := rest } := by
  have hsame : (e.fail error).asStaged = e.asStaged := rfl
  have haccounted : ((l.done ++ [e.fail error]) ++ rest).map StagedEffect.asStaged =
      (l.done ++ l.todo).map StagedEffect.asStaged := by
    rw [htodo]
    simp [hsame]
  obtain ⟨hdomain, hunique⟩ :=
    @Kept.accounted _ slot l { world := s, done := l.done ++ [e.fail error], todo := rest } h haccounted
  obtain ⟨hmine_failed, hother_failed⟩ := h.stands_failed htodo hfailed
  have hfresh := h.fresh e (htodo ▸ List.mem_cons_self)
  constructor
  case domain => exact hdomain
  case unique => exact hunique
  case safe => exact (h.tail htodo).1
  case fresh => exact (h.tail htodo).2
  case recorded =>
    intro m hm happlied
    obtain hm | hm := List.mem_append.mp hm
    · exact h.recorded m hm happlied
    · obtain rfl := List.mem_singleton.mp hm
      rw [show (e.fail error).applied = e.applied from rfl, hfresh.1] at happlied
      cases happlied
  case waiting =>
    intro hnone
    have hother : ¬slot.mine e := fun hmine =>
      hnone _ (List.mem_append_right _ (List.mem_singleton_self _)) (slot.mine_congr hsame.symm hmine)
    exact (hother_failed hother).1 (h.waiting fun m hm => hnone m (List.mem_append_left _ hm))
  case settled =>
    intro m hm hmine
    obtain hm | hm := List.mem_append.mp hm
    · have hother : ¬slot.mine e := h.not_mine htodo hm hmine
      exact (h.settled m hm hmine).imp (And.imp_right (hother_failed hother).2) (And.imp_right (hother_failed hother).1)
    · obtain rfl := List.mem_singleton.mp hm
      exact Or.inr ⟨rfl, hmine_failed (slot.mine_congr hsame hmine)⟩

/-- Two effects of a loop that are mine are the same. -/
theorem Kept.same (h : slot.Kept l) {m m' : StagedEffect} (hm : m ∈ l.done ++ l.todo) (hm' : m' ∈ l.done ++ l.todo)
    (hmine : slot.mine m) (hmine' : slot.mine m') : m = m' := by
  by_contra hne
  have hsymm : Std.Symm fun e f => slot.mine e → ¬slot.mine f := ⟨fun _ _ hnot hf he => hnot he hf⟩
  exact h.unique.forall hm hm' hne hmine hmine'

/-- The turn of an effect that fails with its group. -/
theorem Kept.failGroup (h : slot.Kept l) (settling : Settling ctx start l) (htodo : l.todo = e :: rest) {error : String}
    (grouped : e.Grouped) (hfailed : applyEffect ctx l.world e = .failed s error) :
    slot.Kept
      { world := (ApplyLoop.undone e.groupId (l.done ++ rest)).foldl invertOne s
        done := l.done.map (failMember e.groupId) ++ [e.fail error]
        todo := rest.map (failMember e.groupId) } := by
  have hmember (m : StagedEffect) : (failMember e.groupId m).asStaged = m.asStaged := asStaged_failMember
  have hsame : (e.fail error).asStaged = e.asStaged := rfl
  have haccounted : ((l.done.map (failMember e.groupId) ++ [e.fail error]) ++ rest.map (failMember e.groupId)).map
      StagedEffect.asStaged = (l.done ++ l.todo).map StagedEffect.asStaged := by
    rw [htodo]
    simp [Function.comp_def, hmember, hsame]
  obtain ⟨hdomain, hunique⟩ := @Kept.accounted _ slot l
    { world := (ApplyLoop.undone e.groupId (l.done ++ rest)).foldl invertOne s
      done := l.done.map (failMember e.groupId) ++ [e.fail error]
      todo := rest.map (failMember e.groupId) } h haccounted
  have hrecorded := h.recorded_undone settling htodo grouped
  obtain ⟨hmine_failed, hother_failed⟩ := h.stands_failed htodo hfailed
  obtain ⟨hsafe, hfresh⟩ := h.tail htodo
  have hfields (m : StagedEffect) : (failMember e.groupId m).applied = m.applied ∧
      (failMember e.groupId m).invertData = m.invertData ∧ (failMember e.groupId m).groupId = m.groupId := by
    unfold failMember
    split <;> exact ⟨rfl, rfl, rfl⟩
  constructor
  case domain => exact hdomain
  case unique => exact hunique
  case safe =>
    refine hsafe.imp_left fun hbefore => ?_
    refine List.Pairwise.map _ (fun m m' hapart hmine hgrouped => ?_) hbefore
    rw [groupId_of_asStaged (hmember m), groupId_of_asStaged (hmember m')]
    refine hapart (slot.mine_congr (hmember m') hmine) ⟨?_, ?_⟩
    · exact groupId_of_asStaged (hmember m) ▸ hgrouped.1
    · exact atomicity_of_asStaged (hmember m) ▸ hgrouped.2
  case fresh =>
    intro m hm
    obtain ⟨m', hm', rfl⟩ := List.mem_map.mp hm
    rw [(hfields m').1, (hfields m').2.1]
    exact hfresh m' hm'
  case recorded =>
    intro m hm happlied
    obtain hm | hm := List.mem_append.mp hm
    · obtain ⟨m', hm', rfl⟩ := List.mem_map.mp hm
      rw [(hfields m').1] at happlied
      exact slot.recorded_congr (hmember m').symm (hfields m').2.1.symm (h.recorded m' hm' happlied)
    · obtain rfl := List.mem_singleton.mp hm
      rw [show (e.fail error).applied = e.applied from rfl, (h.fresh e (htodo ▸ List.mem_cons_self)).1] at happlied
      cases happlied
  case waiting =>
    intro hnone
    have hother : ¬slot.mine e := fun hmine =>
      hnone _ (List.mem_append_right _ (List.mem_singleton_self _)) (slot.mine_congr hsame.symm hmine)
    have hdone : ∀ m ∈ l.done, ¬slot.mine m := fun m hm hmine =>
      hnone _ (List.mem_append_left _ (List.mem_map_of_mem hm)) (slot.mine_congr (hmember m).symm hmine)
    exact absent_foldl hrecorded ((hother_failed hother).1 (h.waiting hdone))
  case settled =>
    intro m hm hmine
    obtain hm | hm := List.mem_append.mp hm
    · obtain ⟨m', hm', rfl⟩ := List.mem_map.mp hm
      have hmine' : slot.mine m' := slot.mine_congr (hmember m') hmine
      have hother : ¬slot.mine e := h.not_mine htodo hm' hmine'
      obtain ⟨hcommitted, hpresent⟩ | ⟨hstatus, habsent⟩ := h.settled m' hm' hmine'
      · -- The effect is undone with the group if it is in it; otherwise no inverse is on it.
        by_cases hgroup : m'.groupId = e.groupId
        · refine Or.inr ⟨by rw [failMember, if_pos hgroup]; rfl, undone_foldl hrecorded ⟨m', ?_, hmine'⟩ ?_⟩
          · exact List.mem_filter.mpr ⟨List.mem_append_left _ hm', decide_eq_true ⟨hgroup, hcommitted⟩⟩
          · exact (hother_failed hother).2 hpresent
        · refine Or.inl ⟨by rw [failMember, if_neg hgroup]; exact hcommitted, ?_⟩
          refine present_foldl hrecorded (fun m'' hm'' hmine'' => hgroup ?_) ((hother_failed hother).2 hpresent)
          obtain ⟨hmem, hin⟩ := List.mem_filter.mp hm''
          have hmem' : m'' ∈ l.done ++ l.todo := by
            rw [htodo]
            exact (List.mem_append.mp hmem).elim (List.mem_append_left _) fun hrest =>
              List.mem_append_right _ (List.mem_cons_of_mem _ hrest)
          rw [h.same (List.mem_append_left _ hm') hmem' hmine' hmine'']
          exact (of_decide_eq_true hin).1
      · refine Or.inr ⟨?_, absent_foldl hrecorded ((hother_failed hother).1 habsent)⟩
        unfold failMember
        split
        · rfl
        · exact hstatus
    · obtain rfl := List.mem_singleton.mp hm
      exact Or.inr ⟨rfl, absent_foldl hrecorded (hmine_failed (slot.mine_congr hsame hmine))⟩

/-- A turn keeps the slot. -/
theorem Kept.turn (h : slot.Kept l) (settling : Settling ctx start l) (htodo : l.todo = e :: rest)
    (hturn : l.turn ctx e rest = .ok next) : slot.Kept next := by
  unfold ApplyLoop.turn at hturn
  split_ifs at hturn with hstatus
  · cases hturn
    refine h.skip htodo ?_
    have hwaits := settling.todo e (htodo ▸ List.mem_cons_self)
    exact (hwaits.resolve_left hstatus).1
  · split at hturn
    next happly =>
      cases hturn
      exact h.applied htodo (not_not.mp hstatus) happly
    next hfailed =>
      cases hturn
      unfold ApplyLoop.failLocally
      split_ifs with hgrouped
      · exact h.failGroup settling htodo hgrouped hfailed
      · exact h.failAlone htodo hfailed
    next => cases hturn

/-- The slot is kept wherever the loop comes to. -/
theorem Kept.comes (h : Comes ctx start l) (begins : start.done = [])
    (committed : ∀ e ∈ start.todo, e.status = .committed)
    (kept : slot.Kept start) : slot.Kept l := by
  induction h with
  | refl => exact kept
  | move _ run _ moves ih =>
    obtain ⟨e, rest, htodo, hturn⟩ := step_eq_some moves
    exact ih.turn (Comes.settling run begins committed) htodo hturn

/-- An effect stands at the end of a commit if it is still committed. -/
def Stands (l : ApplyLoop) : Prop :=
  ∃ e ∈ l.done, slot.mine e ∧ e.status = .committed

/-- A change of an effect in its status and error alone. -/
def Relabels (g : StagedEffect → StagedEffect) : Prop :=
  ∀ e, (g e).asStaged = e.asStaged ∧ (g e).applied = e.applied ∧ (g e).invertData = e.invertData

/-- One such change after another. -/
theorem Relabels.comp {f g : StagedEffect → StagedEffect} (hf : Relabels f) (hg : Relabels g) : Relabels (f ∘ g) :=
  fun e => ⟨(hf _).1.trans (hg e).1, (hf _).2.1.trans (hg e).2.1, (hf _).2.2.trans (hg e).2.2⟩

/-- Before the apply loop the effects change in their status and error alone. -/
theorem prepare_eq_map (ctx : Context) (w : World) (effects : List StagedEffect) :
    ∃ g, prepare ctx w effects = effects.map g ∧ Relabels g := by
  unfold prepare commitValidated resolveConflicts validate
  dsimp only
  rw [List.map_map, List.map_map, List.map_map]
  refine ⟨_, rfl, Relabels.comp (Relabels.comp (Relabels.comp (fun e => ?_) fun e => ?_) fun e => ?_) fun e => ?_⟩
  · split <;> exact ⟨rfl, rfl, rfl⟩
  · split
    · exact ⟨rfl, rfl, rfl⟩
    · split <;> exact ⟨rfl, rfl, rfl⟩
  · split <;> exact ⟨rfl, rfl, rfl⟩
  · unfold validateEffect
    split
    · exact ⟨rfl, rfl, rfl⟩
    · split <;> exact ⟨rfl, rfl, rfl⟩

/-- The slot is kept at the start of the loop. -/
theorem kept_committedLoop (fresh : ∀ e ∈ effects, e.asStaged = e) (domain : ∀ e ∈ effects, slot.domain e)
    (unique : effects.Pairwise fun e f => slot.mine e → ¬slot.mine f) (safe : slot.Safe effects)
    (habsent : slot.absent w) : slot.Kept (committedLoop ctx w effects) := by
  obtain ⟨g, hprepare, hg⟩ := prepare_eq_map ctx w effects
  have htodo : (committedLoop ctx w effects).todo = (effects.map g).filter fun e => e.status = .committed := by
    rw [← hprepare]
    rfl
  constructor
  case domain =>
    intro e he
    rw [show (committedLoop ctx w effects).done = [] from rfl, List.nil_append, htodo] at he
    obtain ⟨e', he', rfl⟩ := List.mem_map.mp (List.mem_filter.mp he).1
    exact slot.domain_congr (hg e').1.symm (domain e' he')
  case unique =>
    rw [show (committedLoop ctx w effects).done = [] from rfl, List.nil_append, htodo]
    refine List.Pairwise.filter _ (List.Pairwise.map _ (fun e f hnot he hf => ?_) unique)
    exact hnot (slot.mine_congr (hg e).1 he) (slot.mine_congr (hg f).1 hf)
  case safe =>
    refine safe.imp_left fun hbefore => ?_
    rw [htodo]
    refine List.Pairwise.filter _ (List.Pairwise.map _ (fun f e hapart hmine hgrouped => ?_) hbefore)
    rw [groupId_of_asStaged (hg f).1, groupId_of_asStaged (hg e).1]
    refine hapart (slot.mine_congr (hg e).1 hmine) ⟨?_, ?_⟩
    · exact groupId_of_asStaged (hg f).1 ▸ hgrouped.1
    · exact atomicity_of_asStaged (hg f).1 ▸ hgrouped.2
  case fresh =>
    intro e he
    rw [htodo] at he
    obtain ⟨e', he', rfl⟩ := List.mem_map.mp (List.mem_filter.mp he).1
    have hfresh := fresh e' he'
    rw [(hg e').2.1, (hg e').2.2, ← hfresh]
    exact ⟨rfl, rfl⟩
  case recorded => exact fun _ hm => absurd hm List.not_mem_nil
  case waiting => exact fun _ => habsent
  case settled => exact fun _ hm => absurd hm List.not_mem_nil

/-- At the end of a commit the effect is present exactly if it stands. -/
theorem phaseCommit_slot (fresh : ∀ e ∈ effects, e.asStaged = e) (domain : ∀ e ∈ effects, slot.domain e)
    (unique : effects.Pairwise fun e f => slot.mine e → ¬slot.mine f) (safe : slot.Safe effects)
    (habsent : slot.absent w) :
    (slot.Stands (phaseCommit ctx w effects).1 → slot.present (phaseCommit ctx w effects).1.world) ∧
      (¬slot.Stands (phaseCommit ctx w effects).1 → slot.absent (phaseCommit ctx w effects).1.world) := by
  have hrun : applyCommitted ctx w effects =
      ApplyLoop.run ctx (committedLoop ctx w effects).todo.length (committedLoop ctx w effects) := rfl
  have hstart := kept_committedLoop fresh domain unique safe habsent
  have hcommitted : ∀ e ∈ (committedLoop ctx w effects).todo, e.status = .committed := fun e he => by
    simpa using (List.mem_filter.mp he).2
  rcases @run_ends ctx (committedLoop ctx w effects) _ le_rfl with
    ⟨l, hcomes, -, hend⟩ | ⟨l, e, rest, world, error, hcomes, htodo, hturn, hend⟩
  · have hcommit : phaseCommit ctx w effects = (l, false) := by rw [phaseCommit, hrun, hend]
    have hkept := Kept.comes hcomes rfl hcommitted hstart
    rw [hcommit]
    refine ⟨fun hstands => ?_, fun hstands => ?_⟩
    · obtain ⟨m, hm, hmine, hstatus⟩ := hstands
      obtain hpresent | hfailed := hkept.settled m hm hmine
      · exact hpresent.2
      · rw [hstatus] at hfailed
        cases hfailed.1
    · by_cases hdone : ∃ m ∈ l.done, slot.mine m
      · obtain ⟨m, hm, hmine⟩ := hdone
        obtain hpresent | hfailed := hkept.settled m hm hmine
        · exact absurd ⟨m, hm, hmine, hpresent.1⟩ hstands
        · exact hfailed.2
      · exact hkept.waiting fun m hm hmine => hdone ⟨m, hm, hmine⟩
  · have hcommit : phaseCommit ctx w effects = (ApplyLoop.rollback { l with world := world } error, true) := by
      rw [phaseCommit, hrun, hend]
    have hkept := Kept.comes hcomes rfl hcommitted hstart
    have hsettling := Comes.settling hcomes rfl hcommitted
    have hdomain_e : slot.domain e := hkept.domain e (List.mem_append_right _ (htodo ▸ List.mem_cons_self))
    rw [hcommit]
    constructor
    · rintro ⟨m, hm, -, hstatus⟩
      obtain ⟨m', hm', rfl⟩ := List.mem_map.mp hm
      split at hstatus
      · cases hstatus
      next hnot => exact absurd (Or.inr hstatus) hnot
    · intro _
      have hstate : (applyEffect ctx l.world e).state = world ∧ ∀ s undo,
          applyEffect ctx l.world e ≠ .applied s undo := by
        unfold ApplyLoop.turn at hturn
        split_ifs at hturn with hstatus
        split at hturn
        next => cases hturn
        next => cases hturn
        next hraised =>
          cases hturn
          exact ⟨by rw [hraised]; rfl, fun s undo happlied => by rw [hraised] at happlied; cases happlied⟩
      have happlied : ∀ m ∈ (ApplyLoop.applied { l with world := world }).reverse, slot.domain m ∧ slot.recorded m := by
        intro m hm
        obtain ⟨hm, happly⟩ := List.mem_filter.mp (List.mem_reverse.mp hm)
        exact ⟨hkept.domain m (List.mem_append_left _ hm), hkept.recorded m hm happly⟩
      change slot.absent ((ApplyLoop.applied { l with world := world }).reverse.foldl invertOne world)
      by_cases hmine : slot.mine e
      · exact absent_foldl happlied
          (hstate.1 ▸ slot.absent_mine hdomain_e hmine (hkept.absent htodo hmine) hstate.2)
      · by_cases hdone : ∃ m ∈ l.done, slot.mine m
        · obtain ⟨m, hm, hmine_m⟩ := hdone
          obtain ⟨hstatus, hpresent⟩ | ⟨-, habsent⟩ := hkept.settled m hm hmine_m
          · have happly : m.applied = true := by
              obtain happly | hfailed := hsettling.done m hm
              · exact happly.2
              · rw [hfailed.1] at hstatus
                cases hstatus
            have hmem : m ∈ (ApplyLoop.applied { l with world := world }).reverse :=
              List.mem_reverse.mpr (List.mem_filter.mpr ⟨hm, happly⟩)
            exact undone_foldl happlied ⟨m, hmem, hmine_m⟩ (hstate.1 ▸ slot.present_other hdomain_e hmine hpresent)
          · exact absent_foldl happlied (hstate.1 ▸ slot.absent_other hdomain_e hmine habsent)
        · exact absent_foldl happlied (hstate.1 ▸ slot.absent_other hdomain_e hmine
            (hkept.waiting fun m hm hmine_m => hdone ⟨m, hm, hmine_m⟩))

end Slot

end MyTeam.Legacy

import MyTeam.Legacy.Resolution
import Mathlib.Data.List.Dedup

/-!
# Rulings

What a claim comes to. It is settled by the grants that bind it in the most specific contexts in which
there are any; grants that do not bind, and the order of the others, change nothing. A claim is allowed
exactly if in each of its domains those that bind it are final words, and agree to it. Further consent
never takes anything back: it only allows claims that waited.
-/

namespace MyTeam.Legacy.Resolution

open MyTeam.Py

/-- The state, and who decided. -/
def DecisionResult.verdict (result : DecisionResult) : DecisionState × Option String := (result.state, result.winner)

/-- The state, and who decided. -/
def Ruling.verdict (ruling : Ruling) : DecisionState × Option String := (ruling.state, ruling.winner)

namespace DecisionRequest

variable (request : DecisionRequest) (grants grants' finals finals' : List AuthorityGrant) (spec : ℕ)

/-- A grant that takes part in a decision. -/
def binds (g : AuthorityGrant) : Bool :=
  g.domain = request.domain ∧ 0 < contextSpecificity g.context request.context ∧ g.effective request.conditionContext ∧
    g.decides

/-- The grants that bind a claim in the contexts of one specificity. -/
def bindingAt : List AuthorityGrant :=
  (grants.filter request.binds).filter fun g => contextSpecificity g.context request.context = spec

/-- What a tier makes of a claim, if anything. -/
def tierVerdict : Option (DecisionState × Option String) :=
  if (request.bindingAt grants spec).any fun g => g.strength = .veto then some (.blocked, none)
  else (request.decideFinals ((request.bindingAt grants spec).filter fun g => g.strength = .final)).map Ruling.verdict

/-- Final words of equal specificity that compose to a threshold have the same threshold. -/
def ThresholdsAgree : Prop :=
  ∀ g ∈ grants, ∀ h ∈ grants, request.binds g → request.binds h → g.composition = some .threshold →
    h.composition = some .threshold → contextSpecificity g.context request.context =
      contextSpecificity h.context request.context → g.thresholdN = h.thresholdN

/-- The holders of final words agree to a claim. -/
inductive Agreed : List AuthorityGrant → Prop
  | holder (g : AuthorityGrant) (hsubject : request.subject = g.subject) : Agreed [g]
  | priority (finals rest : List AuthorityGrant) (g : AuthorityGrant) (hfinals : finals.Perm (g :: rest))
      (hrest : rest ≠ [])
      (hcomposition : ∀ f ∈ finals, f.composition = some .priority) (hbest : ∀ f ∈ rest, f.priority < g.priority)
      (hsubject : request.subject = g.subject) : Agreed finals
  | joint (finals : List AuthorityGrant) (hlength : 2 ≤ finals.length)
      (hcomposition : ∀ f ∈ finals, f.composition = some .joint)
      (hconsent : ∀ f ∈ finals, f.subject ∈ request.consent) :
      Agreed finals
  | threshold (first : AuthorityGrant) (rest : List AuthorityGrant) (subjects : List String) (hrest : rest ≠ [])
      (hcomposition : ∀ f ∈ first :: rest, f.composition = some .threshold) (hdistinct : subjects.Nodup)
      (hsubjects : ∀ subject ∈ subjects, subject ∈ request.consent ∧ ∃ f ∈ first :: rest, f.subject = subject)
      (henough : max 1 first.thresholdN ≤ subjects.length) : Agreed (first :: rest)

/-- In the most specific contexts that bind a claim there are only final words, and they agree to it. -/
structure Settled : Prop where
  most_specific : ∀ g ∈ grants, request.binds g → contextSpecificity g.context request.context ≤ spec
  no_veto : ∀ g ∈ request.bindingAt grants spec, g.strength = .final
  agreed : request.Agreed (request.bindingAt grants spec)

end DecisionRequest

variable {request : DecisionRequest} {grants grants' finals finals' : List AuthorityGrant} {spec : ℕ}
  {g first : AuthorityGrant} {comp : Composition} {xs ys : List String} {x : String}

/-- The elements of a sorted set. -/
theorem mem_sortedSet : x ∈ sortedSet xs ↔ x ∈ xs := by
  rw [sortedSet, List.mem_mergeSort, List.mem_dedup]

/-- A sorted set has no element twice. -/
theorem nodup_sortedSet : (sortedSet xs).Nodup := (List.mergeSort_perm _ _).nodup_iff.mpr xs.nodup_dedup

/-- The same elements make the same sorted set. -/
theorem sortedSet_perm (h : xs.Perm ys) : sortedSet xs = sortedSet ys := by
  have hsorted (zs : List String) : (sortedSet zs).Pairwise (· ≤ ·) := by
    have hle : (sortedSet zs).Pairwise fun a b => decide (a ≤ b) = true :=
      List.pairwise_mergeSort (fun _ _ _ => by simpa using le_trans) (fun _ _ => by simpa using le_total _ _) _
    exact hle.imp of_decide_eq_true
  refine List.Perm.eq_of_pairwise (fun a b _ _ => le_antisymm) (hsorted xs) (hsorted ys) ?_
  exact (List.mergeSort_perm _ _).trans (h.dedup.trans (List.mergeSort_perm _ _).symm)

/-- The composition of all the grants is one that each of them has. -/
theorem commonComposition_eq_some : commonComposition finals = some comp ↔
    finals ≠ [] ∧ ∀ f ∈ finals, f.composition = some comp := by
  cases finals with
  | nil => simp [commonComposition]
  | cons first rest =>
    simp only [commonComposition, Option.filter_eq_some_iff, List.all_eq_true, decide_eq_true_eq, List.forall_mem_cons]
    simp

/-- The order of the grants does not matter to their composition. -/
theorem commonComposition_perm (h : finals.Perm finals') : commonComposition finals = commonComposition finals' := by
  refine Option.ext fun comp => ?_
  rw [commonComposition_eq_some, commonComposition_eq_some]
  have hnil : finals = [] ↔ finals' = [] := ⟨fun hf => (hf ▸ h).nil_eq.symm, fun hf => (hf ▸ h).eq_nil⟩
  simp only [ne_eq, hnil, h.mem_iff]

/-- The grants of the highest priority are those that no other exceeds. -/
theorem mem_best : g ∈ best finals ↔ g ∈ finals ∧ ∀ f ∈ finals, f.priority ≤ g.priority := by
  rw [best, List.mem_filter, decide_eq_true_eq, List.max?_eq_some_iff]
  simp only [List.mem_map, forall_exists_index, and_imp, forall_apply_eq_imp_iff₂]
  exact ⟨fun h => ⟨h.1, h.2.2⟩, fun h => ⟨h.1, ⟨g, h.1, rfl⟩, h.2⟩⟩

/-- The order of the grants does not matter to those of the highest priority. -/
theorem best_perm (h : finals.Perm finals') : (best finals).Perm (best finals') := by
  have hmax : (finals.map fun f => f.priority).max? = (finals'.map fun f => f.priority).max? := by
    refine Option.ext fun n => ?_
    rw [List.max?_eq_some_iff, List.max?_eq_some_iff]
    simp only [(h.map fun f => f.priority).mem_iff]
  rw [best, best, hmax]
  exact h.filter _

/-- The order of final words with priorities does not matter. -/
theorem byPriority_perm (h : finals.Perm finals') : request.byPriority finals = request.byPriority finals' := by
  have hbest := best_perm h
  unfold DecisionRequest.byPriority
  generalize best finals = holders at hbest ⊢
  generalize best finals' = holders' at hbest ⊢
  rcases holders' with _ | ⟨holder', _ | ⟨other', rest'⟩⟩
  · rw [hbest.eq_nil]
  · rw [List.perm_singleton.mp hbest]
  · rcases holders with _ | ⟨holder, _ | ⟨other, rest⟩⟩
    · rfl
    · exact absurd hbest.length_eq (by simp)
    · rfl

/-- The order of final words that compose does not matter. -/
theorem byComposition_perm {n : ℤ} (h : finals.Perm finals') :
    request.byComposition finals n = request.byComposition finals' n := by
  have hset := sortedSet_perm (h.map fun f => f.subject)
  unfold DecisionRequest.byComposition
  rw [commonComposition_perm h]
  cases commonComposition finals' with
  | none => rfl
  | some comp =>
    cases comp with
    | priority => exact byPriority_perm h
    | joint => simp only [DecisionRequest.byJoint, hset]
    | threshold => simp only [DecisionRequest.byThreshold, hset]

/-- The order of final words does not matter, if those that compose to a threshold have the same. -/
theorem decideFinals_perm (h : finals.Perm finals') (hagree : ∀ f ∈ finals, ∀ g ∈ finals,
      f.composition = some .threshold → g.composition = some .threshold → f.thresholdN = g.thresholdN) :
    request.decideFinals finals = request.decideFinals finals' := by
  rcases finals with _ | ⟨first, _ | ⟨second, rest⟩⟩
  · rw [h.nil_eq]
  · rw [List.perm_singleton.mp h.symm]
  · rcases finals' with _ | ⟨first', _ | ⟨second', rest'⟩⟩
    · exact absurd h.length_eq (by simp)
    · exact absurd h.length_eq (by simp)
    · have hfirst : first' ∈ first :: second :: rest := h.symm.subset List.mem_cons_self
      rw [DecisionRequest.decideFinals, DecisionRequest.decideFinals, byComposition_perm h]
      cases hcomp : commonComposition (first' :: second' :: rest') with
      | none => simp [DecisionRequest.byComposition, hcomp]
      | some comp =>
        cases comp with
        | threshold =>
          obtain ⟨-, hall⟩ := commonComposition_eq_some.mp hcomp
          have hn : first.thresholdN = first'.thresholdN := hagree first List.mem_cons_self first' hfirst
            (hall first (h.subset List.mem_cons_self)) (hall first' List.mem_cons_self)
          rw [hn]
        | _ => simp [DecisionRequest.byComposition, hcomp]

/-- One holder of the highest priority exceeds all others. -/
theorem best_eq_singleton :
    best finals = [g] ↔ ∃ rest, finals.Perm (g :: rest) ∧ ∀ f ∈ rest, f.priority < g.priority := by
  constructor
  · intro h
    have hg : ∀ f ∈ finals, f.priority ≤ g.priority := (mem_best.mp (h ▸ List.mem_singleton_self g)).2
    have hparts := List.filter_append_perm (fun f => decide ((finals.map fun g => g.priority).max? = some f.priority))
      finals
    rw [show (finals.filter fun f => (finals.map fun g => g.priority).max? = some f.priority) = [g] from h] at hparts
    refine ⟨_, hparts.symm, fun f hf => ?_⟩
    obtain ⟨hmem, hnot⟩ := List.mem_filter.mp hf
    have hne : f.priority ≠ g.priority := by
      intro heq
      have hbest : f ∈ best finals := mem_best.mpr ⟨hmem, fun f hf => heq ▸ hg f hf⟩
      rw [(List.mem_filter.mp hbest).2] at hnot
      cases hnot
    have hle := hg f hmem
    omega
  · rintro ⟨rest, hperm, hlower⟩
    refine List.perm_singleton.mp ((best_perm hperm).trans ?_)
    have hg : g ∈ best (g :: rest) := mem_best.mpr ⟨List.mem_cons_self, fun f hf => by
      rcases List.mem_cons.mp hf with rfl | hf
      · exact Int.le_refl _
      · exact Int.le_of_lt (hlower f hf)⟩
    have hrest : rest.filter (fun f => ((g :: rest).map fun g => g.priority).max? = some f.priority) = [] := by
      refine List.filter_eq_nil_iff.mpr fun f hf hmax => ?_
      have hbest : f ∈ best (g :: rest) := List.mem_filter.mpr ⟨List.mem_cons_of_mem _ hf, hmax⟩
      exact absurd ((mem_best.mp hbest).2 g List.mem_cons_self) (Int.not_le.mpr (hlower f hf))
    rw [best, List.filter_cons, if_pos (List.mem_filter.mp hg).2, hrest]

/-- One holder of the highest priority decides for himself. -/
theorem byPriority_allowed : (request.byPriority finals).state = .allowed ↔
    ∃ g rest, finals.Perm (g :: rest) ∧ (∀ f ∈ rest, f.priority < g.priority) ∧ request.subject = g.subject := by
  have hholder (holder : String) : (request.byHolder holder).state = .allowed ↔ request.subject = holder := by
    unfold DecisionRequest.byHolder
    split_ifs with h
    · simp [h]
    · simp [h]
  constructor
  · intro h
    unfold DecisionRequest.byPriority at h
    split at h
    next g hbest =>
      obtain ⟨rest, hperm, hlower⟩ := best_eq_singleton.mp hbest
      exact ⟨g, rest, hperm, hlower, (hholder g.subject).mp h⟩
    next => cases h
  · rintro ⟨g, rest, hperm, hlower, hsubject⟩
    rw [DecisionRequest.byPriority, best_eq_singleton.mpr ⟨rest, hperm, hlower⟩]
    exact (hholder g.subject).mpr hsubject

/-- Every holder consents. -/
theorem byJoint_allowed : (request.byJoint finals).state = .allowed ↔ ∀ f ∈ finals, f.subject ∈ request.consent := by
  have hmissing : (sortedSet (finals.map fun f => f.subject)).filter (fun subject => subject ∉ request.consent) = [] ↔
      ∀ f ∈ finals, f.subject ∈ request.consent := by
    simp [List.filter_eq_nil_iff, mem_sortedSet]
  unfold DecisionRequest.byJoint
  dsimp only
  split_ifs with h
  · exact ⟨(nomatch ·), fun hall => absurd (hmissing.mpr hall) h⟩
  · exact ⟨fun _ => hmissing.mp (not_not.mp h), fun _ => rfl⟩

/-- Enough holders consent. -/
theorem byThreshold_allowed {n : ℤ} : (request.byThreshold finals n).state = .allowed ↔
    ∃ subjects : List String, subjects.Nodup ∧ (∀ x ∈ subjects, x ∈ request.consent ∧ ∃ f ∈ finals, f.subject = x) ∧
      max 1 n ≤ subjects.length := by
  have hmem (x : String) :
      x ∈ (sortedSet (finals.map fun f => f.subject)).filter (fun subject => subject ∈ request.consent) ↔
      x ∈ request.consent ∧ ∃ f ∈ finals, f.subject = x := by
    rw [List.mem_filter, mem_sortedSet, List.mem_map, decide_eq_true_eq, and_comm]
  have hdistinct : ((sortedSet (finals.map fun f => f.subject)).filter fun subject =>
    subject ∈ request.consent).Nodup :=
    nodup_sortedSet.filter _
  unfold DecisionRequest.byThreshold
  dsimp only
  split_ifs with h
  · refine ⟨(nomatch ·), fun ⟨subjects, hnodup, hsubjects, hn⟩ => ?_⟩
    have hle : subjects.length ≤
        ((sortedSet (finals.map fun f => f.subject)).filter fun subject => subject ∈ request.consent).length :=
      List.Nodup.length_le_of_subset hnodup fun x hx => (hmem x).mpr (hsubjects x hx)
    omega
  · exact ⟨fun _ => ⟨_, hdistinct, fun x hx => (hmem x).mp hx, Int.not_lt.mp h⟩, fun _ => rfl⟩

/-- Nothing is decided exactly if there is no final word. -/
theorem decideFinals_eq_none : request.decideFinals finals = none ↔ finals = [] := by
  rcases finals with _ | ⟨first, _ | ⟨second, rest⟩⟩ <;> simp [DecisionRequest.decideFinals]

/-- A claim is allowed exactly if the holders of the final words agree to it. -/
theorem decideFinals_allowed :
    (∃ ruling, request.decideFinals finals = some ruling ∧ ruling.state = .allowed) ↔ request.Agreed finals := by
  constructor
  · rintro ⟨ruling, hruling, hstate⟩
    rcases finals with _ | ⟨first, _ | ⟨second, rest⟩⟩
    · cases hruling
    · obtain rfl := Option.some.inj hruling
      unfold DecisionRequest.byHolder at hstate
      split_ifs at hstate with hsubject
      exact .holder first hsubject
    · obtain rfl := Option.some.inj hruling
      unfold DecisionRequest.byComposition at hstate
      cases hcomp : commonComposition (first :: second :: rest) with
      | none => simp [hcomp] at hstate
      | some comp =>
        obtain ⟨-, hall⟩ := commonComposition_eq_some.mp hcomp
        rw [hcomp] at hstate
        cases comp with
        | priority =>
          obtain ⟨g, others, hperm, hlower, hsubject⟩ := byPriority_allowed.mp hstate
          have hothers : others ≠ [] := by
            rintro rfl
            exact absurd hperm.length_eq (by simp)
          exact .priority _ others g hperm hothers hall hlower hsubject
        | joint => exact .joint _ (by simp) hall (byJoint_allowed.mp hstate)
        | threshold =>
          obtain ⟨subjects, hdistinct, hsubjects, hn⟩ := byThreshold_allowed.mp hstate
          exact .threshold first _ subjects (by simp) hall hdistinct hsubjects hn
  · have hcompose (comp : Composition) (first : AuthorityGrant) (rest : List AuthorityGrant) (hrest : rest ≠ [])
        (hall : ∀ f ∈ first :: rest, f.composition = some comp) : request.decideFinals (first :: rest) =
          some (match comp with
            | .priority => request.byPriority (first :: rest)
            | .joint => request.byJoint (first :: rest)
            | .threshold => request.byThreshold (first :: rest) first.thresholdN) := by
      obtain ⟨second, rest, rfl⟩ := List.exists_cons_of_ne_nil hrest
      have hcomp := commonComposition_eq_some.mpr ⟨by simp, hall⟩
      rw [DecisionRequest.decideFinals, DecisionRequest.byComposition, hcomp]
      cases comp with
      | _ => rfl
    intro h
    cases h with
    | holder g hsubject => exact ⟨_, rfl, by simp [DecisionRequest.byHolder, hsubject]⟩
    | priority _ rest g hperm hrest hall hlower hsubject =>
      rcases finals with _ | ⟨first, others⟩
      · exact absurd hperm.length_eq (by simp)
      have hothers : others ≠ [] := by
        rintro rfl
        have hlength := hperm.length_eq
        simp only [List.length_cons, List.length_nil, Nat.add_right_cancel_iff] at hlength
        exact hrest (List.length_eq_zero_iff.mp hlength.symm)
      exact ⟨_, hcompose .priority first others hothers hall, byPriority_allowed.mpr ⟨g, rest, hperm, hlower, hsubject⟩⟩
    | joint _ hlength hall hconsent =>
      rcases finals with _ | ⟨first, _ | ⟨second, rest⟩⟩
      · simp at hlength
      · simp at hlength
      · exact ⟨_, hcompose .joint first _ (by simp) hall, byJoint_allowed.mpr hconsent⟩
    | threshold first rest subjects hrest hall hdistinct hsubjects hn =>
      exact ⟨_, hcompose .threshold first rest hrest hall, byThreshold_allowed.mpr ⟨subjects, hdistinct, hsubjects, hn⟩⟩

/-- The effective grants of a tier that decide are those that bind. -/
theorem effectiveAt_filter {strength : Strength} (hspec : 0 < spec) (hstrength : strength = .final ∨ strength = .veto) :
    (request.effectiveAt grants spec).filter (fun g => g.strength = strength) =
      (request.bindingAt grants spec).filter fun g => g.strength = strength := by
  unfold DecisionRequest.effectiveAt DecisionRequest.bindingAt
  simp only [List.filter_filter]
  refine List.filter_congr fun g _ => ?_
  by_cases hg : g.strength = strength
  · have hdecides : g.decides = true := by simpa [AuthorityGrant.decides, hg] using hstrength
    by_cases htier : contextSpecificity g.context request.context = spec
    · simp [DecisionRequest.binds, hdecides, htier, hspec, Bool.and_comm]
    · simp [htier]
  · simp [hg]

/-- The verdict is that of the most specific tier that has one. -/
theorem verdict_resolve : (request.resolve grants).verdict =
    ([3, 2, 1].findSome? (request.tierVerdict grants)).getD (.unresolved, none) := by
  have htiers (matched : List String) (specs : List ℕ) (hspecs : ∀ spec ∈ specs, 0 < spec) (consults : List String) :
      (request.resolveTiers (grants.filter fun g => g.domain = request.domain) matched specs consults).verdict =
        (specs.findSome? (request.tierVerdict grants)).getD (.unresolved, none) := by
    induction specs generalizing consults with
    | nil => rfl
    | cons spec rest ih =>
      have hspec : 0 < spec := hspecs spec List.mem_cons_self
      have heffective : request.effectiveAt (grants.filter fun g => g.domain = request.domain) spec =
          request.effectiveAt grants spec := by
        unfold DecisionRequest.effectiveAt
        rw [List.filter_filter (l := grants)]
        simp
      rw [DecisionRequest.resolveTiers, heffective, effectiveAt_filter hspec (.inr rfl), List.findSome?_cons]
      rw [effectiveAt_filter hspec (.inl rfl), DecisionRequest.tierVerdict]
      cases hvetoes : (request.bindingAt grants spec).filter fun g => g.strength = .veto with
      | cons veto others =>
        have hveto : ((request.bindingAt grants spec).any fun g => g.strength = .veto) = true := by
          have hmem : veto ∈ (request.bindingAt grants spec).filter fun g => g.strength = .veto := by simp [hvetoes]
          obtain ⟨hmem, hstrength⟩ := List.mem_filter.mp hmem
          exact List.any_eq_true.mpr ⟨veto, hmem, hstrength⟩
        simp [hveto, DecisionResult.verdict]
      | nil =>
        have hveto : ((request.bindingAt grants spec).any fun g => g.strength = .veto) = false := by
          simpa [List.filter_eq_nil_iff] using hvetoes
        rw [hveto, if_neg Bool.false_ne_true]
        dsimp only
        cases request.decideFinals ((request.bindingAt grants spec).filter fun g => g.strength = .final) with
        | none => exact ih (fun spec h => hspecs spec (List.mem_cons_of_mem _ h)) _
        | some ruling => rfl
  unfold DecisionRequest.resolve
  cases hdomain : grants.filter fun g => g.domain = request.domain with
  | nil =>
    have hnone (spec : ℕ) : request.bindingAt grants spec = [] := by
      rw [List.filter_eq_nil_iff] at hdomain
      refine List.filter_eq_nil_iff.mpr fun g hg => absurd (List.mem_filter.mp hg).2 ?_
      have hother := hdomain g (List.mem_filter.mp hg).1
      simp [DecisionRequest.binds, of_decide_eq_false (Bool.eq_false_iff.mpr hother)]
    simp [DecisionRequest.tierVerdict, hnone, DecisionRequest.decideFinals, DecisionResult.verdict]
  | cons first rest =>
    have h := htiers ((first :: rest).map AuthorityGrant.desc) [3, 2, 1] (by decide) []
    rw [hdomain] at h
    exact h

/-- The grants that bind a claim in some contexts. -/
theorem mem_bindingAt : g ∈ request.bindingAt grants spec ↔
    g ∈ grants ∧ request.binds g ∧ contextSpecificity g.context request.context = spec := by
  rw [DecisionRequest.bindingAt, List.mem_filter, List.mem_filter, decide_eq_true_eq, and_assoc]

/-- A tier leaves a claim open exactly if nothing there binds it. -/
theorem tierVerdict_eq_none : request.tierVerdict grants spec = none ↔ request.bindingAt grants spec = [] := by
  constructor
  · intro h
    unfold DecisionRequest.tierVerdict at h
    split_ifs at h with hveto
    have hfinals := decideFinals_eq_none.mp (Option.map_eq_none_iff.mp h)
    refine List.eq_nil_iff_forall_not_mem.mpr fun g hg => ?_
    obtain ⟨-, hbinds, -⟩ := mem_bindingAt.mp hg
    have hdecides : g.strength = .final ∨ g.strength = .veto := by
      simp only [DecisionRequest.binds, AuthorityGrant.decides, decide_eq_true_eq] at hbinds
      exact hbinds.2.2.2
    rcases hdecides with hfinal | hvetoes
    · exact List.filter_eq_nil_iff.mp hfinals g hg (decide_eq_true hfinal)
    · exact hveto (List.any_eq_true.mpr ⟨g, hg, decide_eq_true hvetoes⟩)
  · intro h
    simp [DecisionRequest.tierVerdict, h, DecisionRequest.decideFinals]

/-- A tier allows a claim exactly if only final words bind it there, and they agree. -/
theorem tierVerdict_allowed : (∃ verdict, request.tierVerdict grants spec = some verdict ∧ verdict.1 = .allowed) ↔
    (∀ g ∈ request.bindingAt grants spec, g.strength = .final) ∧ request.Agreed (request.bindingAt grants spec) := by
  have hself (hfinal : ∀ g ∈ request.bindingAt grants spec, g.strength = .final) :
      (request.bindingAt grants spec).filter (fun g => g.strength = .final) = request.bindingAt grants spec :=
    List.filter_eq_self.mpr fun g hg => decide_eq_true (hfinal g hg)
  constructor
  · rintro ⟨verdict, hverdict, hstate⟩
    unfold DecisionRequest.tierVerdict at hverdict
    split_ifs at hverdict with hveto
    · rw [← Option.some.inj hverdict] at hstate
      cases hstate
    · have hfinal : ∀ g ∈ request.bindingAt grants spec, g.strength = .final := by
        intro g hg
        obtain ⟨-, hbinds, -⟩ := mem_bindingAt.mp hg
        simp only [DecisionRequest.binds, AuthorityGrant.decides, decide_eq_true_eq] at hbinds
        refine hbinds.2.2.2.resolve_right fun hvetoes => hveto ?_
        exact List.any_eq_true.mpr ⟨g, hg, decide_eq_true hvetoes⟩
      rw [hself hfinal] at hverdict
      obtain ⟨ruling, hruling, rfl⟩ := Option.map_eq_some_iff.mp hverdict
      exact ⟨hfinal, decideFinals_allowed.mp ⟨ruling, hruling, hstate⟩⟩
  · rintro ⟨hfinal, hagreed⟩
    obtain ⟨ruling, hruling, hstate⟩ := decideFinals_allowed.mpr hagreed
    have hveto : ((request.bindingAt grants spec).any fun g => g.strength = .veto) = false := by
      refine List.any_eq_false.mpr fun g hg => ?_
      simp [hfinal g hg]
    refine ⟨ruling.verdict, ?_, hstate⟩
    simp [DecisionRequest.tierVerdict, hveto, hself hfinal, hruling]

/-- A request is allowed exactly if it is settled in the most specific contexts that bind it. -/
theorem resolve_allowed : (request.resolve grants).state = .allowed ↔ ∃ spec, request.Settled grants spec := by
  have hstate : (request.resolve grants).state =
      (([3, 2, 1].findSome? (request.tierVerdict grants)).getD (.unresolved, none)).1 :=
        congrArg Prod.fst verdict_resolve
  have hspec {g : AuthorityGrant} (hg : request.binds g) :
      contextSpecificity g.context request.context ∈ [3, 2, 1] := by
    have hle : contextSpecificity g.context request.context ≤ 3 := by
      unfold contextSpecificity
      split
      · decide
      · decide
      · split_ifs
        · decide
        · decide
        · decide
    simp only [DecisionRequest.binds, decide_eq_true_eq] at hg
    simp only [List.mem_cons, List.not_mem_nil, or_false]
    omega
  have hdecreasing {spec : ℕ} {before after : List ℕ} (heq : [3, 2, 1] = before ++ spec :: after) :
      (∀ s ∈ before, spec < s) ∧ ∀ s ∈ after, s < spec := by
    have hpairwise : (before ++ spec :: after).Pairwise (· > ·) := heq ▸ by decide
    obtain ⟨-, hafter, hbefore⟩ := List.pairwise_append.mp hpairwise
    exact ⟨fun s hs => hbefore s hs spec List.mem_cons_self, (List.pairwise_cons.mp hafter).1⟩
  rw [hstate]
  constructor
  · intro h
    cases hfound : [3, 2, 1].findSome? (request.tierVerdict grants) with
    | none => simp [hfound] at h
    | some verdict =>
      rw [hfound, Option.getD_some] at h
      obtain ⟨before, spec, after, heq, hverdict, hnone⟩ := List.findSome?_eq_some_iff.mp hfound
      obtain ⟨hfinal, hagreed⟩ := tierVerdict_allowed.mp ⟨verdict, hverdict, h⟩
      refine ⟨spec, fun g hg hbinds => ?_, hfinal, hagreed⟩
      have hmem := hspec hbinds
      rw [heq, List.mem_append, List.mem_cons] at hmem
      rcases hmem with hbefore | heq | hafter
      · have hempty := tierVerdict_eq_none.mp (hnone _ hbefore)
        exact absurd (mem_bindingAt.mpr ⟨hg, hbinds, rfl⟩) (hempty ▸ List.not_mem_nil)
      · exact heq.le
      · exact Nat.le_of_lt ((hdecreasing heq).2 _ hafter)
  · rintro ⟨spec, hmost, hfinal, hagreed⟩
    obtain ⟨verdict, hverdict, hallowed⟩ := tierVerdict_allowed.mpr ⟨hfinal, hagreed⟩
    have hmem : spec ∈ [3, 2, 1] := by
      obtain ⟨g, hg⟩ : ∃ g, g ∈ request.bindingAt grants spec := by
        refine List.exists_mem_of_ne_nil _ fun hempty => ?_
        rw [tierVerdict_eq_none.mpr hempty] at hverdict
        cases hverdict
      obtain ⟨-, hbinds, rfl⟩ := mem_bindingAt.mp hg
      exact hspec hbinds
    obtain ⟨before, after, heq⟩ := List.append_of_mem hmem
    have hfound : [3, 2, 1].findSome? (request.tierVerdict grants) = some verdict := by
      refine List.findSome?_eq_some_iff.mpr ⟨before, spec, after, heq, hverdict, fun s hs => ?_⟩
      refine tierVerdict_eq_none.mpr (List.eq_nil_iff_forall_not_mem.mpr fun g hg => ?_)
      obtain ⟨hmem, hbinds, rfl⟩ := mem_bindingAt.mp hg
      exact absurd (hmost g hmem hbinds) (Nat.not_le.mpr ((hdecreasing heq).1 _ hs))
    rw [hfound]
    exact hallowed

/-- The states of the results of a claim. -/
theorem mem_states {claim : DecisionClaim} {state : DecisionState} :
    state ∈ (resolveClaim claim grants).map (fun item => item.2.state) ↔
      ∃ domain ∈ claim.domains, ((claim.request domain).resolve grants).state = state := by
  have hitems (domain : Domain) (result : DecisionResult) : (domain, result) ∈ resolveClaim claim grants ↔
      domain ∈ claim.domains ∧ result = (claim.request domain).resolve grants := by
    have hmem {result : DecisionResult} (h : (domain, result) ∈ resolveClaim claim grants) :
        domain ∈ claim.domains ∧ result = (claim.request domain).resolve grants := by
      rcases mem_items_update h with h | h
      · cases h
      · obtain ⟨domain, hdomain, heq⟩ := List.mem_map.mp h
        obtain ⟨rfl, rfl⟩ := Prod.mk.inj heq
        exact ⟨hdomain, rfl⟩
    refine ⟨hmem, ?_⟩
    rintro ⟨hdomain, rfl⟩
    cases hlookup : (resolveClaim claim grants).lookup domain with
    | none =>
      rw [resolveClaim, lookup_update, Option.or_eq_none_iff, lookup_eq_none_iff_keys] at hlookup
      refine absurd ?_ hlookup.1
      simpa using hdomain
    | some result =>
      have hfound := mem_of_lookup hlookup
      exact (hmem hfound).2 ▸ hfound
  constructor
  · intro h
    obtain ⟨⟨domain, result⟩, hmem, rfl⟩ := List.mem_map.mp h
    obtain ⟨hdomain, rfl⟩ := (hitems domain result).mp hmem
    exact ⟨domain, hdomain, rfl⟩
  · rintro ⟨domain, hdomain, rfl⟩
    exact List.mem_map.mpr ⟨(domain, _), (hitems domain _).mpr ⟨hdomain, rfl⟩, rfl⟩

/-- Grants that do not bind a claim, and the order of those that do, change nothing. -/
theorem resolve_perm (request : DecisionRequest) (grants grants' : List AuthorityGrant)
    (hagree : request.ThresholdsAgree grants)
    (h : (grants.filter request.binds).Perm (grants'.filter request.binds)) :
    (request.resolve grants).verdict = (request.resolve grants').verdict := by
  have htier (spec : ℕ) : request.tierVerdict grants spec = request.tierVerdict grants' spec := by
    have hbinding : (request.bindingAt grants spec).Perm (request.bindingAt grants' spec) := h.filter _
    have hvetoes : (request.bindingAt grants spec).any (fun g => g.strength = .veto) =
        (request.bindingAt grants' spec).any fun g => g.strength = .veto := hbinding.any_eq
    unfold DecisionRequest.tierVerdict
    rw [hvetoes, decideFinals_perm (hbinding.filter _)]
    intro f hf g hg hfn hgn
    simp only [DecisionRequest.bindingAt, List.mem_filter, decide_eq_true_eq] at hf hg
    exact hagree f hf.1.1.1 g hg.1.1.1 hf.1.1.2 hg.1.1.2 hfn hgn (hf.1.2.trans hg.1.2.symm)
  rw [verdict_resolve, verdict_resolve, funext htier]

/-- Two who together decide, named in the other order and after one who has no say. -/
theorem resolve_perm_swapped :
    let a : AuthorityGrant :=
      { subject := "a", domain := .content, strength := .final, composition := some .threshold, thresholdN := 2 }
    let b : AuthorityGrant :=
      { subject := "b", domain := .content, strength := .final, composition := some .threshold, thresholdN := 2 }
    let request : DecisionRequest := { subject := "a", domain := .content, consenting := ["b"] }
    (request.resolve [a, b]).verdict =
    (request.resolve [{ subject := "c", domain := .cost, strength := .veto }, b, a]).verdict := by
  intro a b request
  refine resolve_perm request [a, b] _ ?_ (List.Perm.swap b a [])
  intro g hg h hh _ _ _ _ _
  simp only [List.mem_cons, List.not_mem_nil, or_false] at hg hh
  rcases hg with rfl | rfl <;> rcases hh with rfl | rfl <;> rfl

/-- A claim is allowed exactly if in each of its domains, in the most specific contexts that bind it, there are only
final words, and they agree to it. -/
theorem claim_allowed (claim : DecisionClaim) (grants : List AuthorityGrant) :
    claimOverall (resolveClaim claim grants) = .allowed ↔
      ∀ domain ∈ claim.domains, ∃ spec, (claim.request domain).Settled grants spec := by
  simp only [← resolve_allowed]
  unfold claimOverall
  dsimp only
  simp only [mem_states]
  constructor
  · intro h domain hdomain
    split_ifs at h with hblocked hunresolved hwaiting
    cases hstate : ((claim.request domain).resolve grants).state with
    | allowed => rfl
    | blocked => exact absurd ⟨domain, hdomain, hstate⟩ hblocked
    | unresolved => exact absurd ⟨domain, hdomain, hstate⟩ hunresolved
    | waiting => exact absurd ⟨domain, hdomain, hstate⟩ hwaiting
  · intro h
    have hnot {state : DecisionState} (hne : state ≠ .allowed) :
        ¬∃ domain ∈ claim.domains, ((claim.request domain).resolve grants).state = state := by
      rintro ⟨domain, hdomain, rfl⟩
      exact hne (h domain hdomain)
    rw [if_neg (hnot (by decide)), if_neg (hnot (by decide)), if_neg (hnot (by decide))]

/-- What further consent can make of a state. -/
def DecisionState.Follows (state state' : DecisionState) : Prop := state' = state ∨ state = .waiting ∧ state' = .allowed

/-- Further consent. -/
def DecisionRequest.consented (request : DecisionRequest) (more : List String) : DecisionRequest :=
  { request with consenting := request.consenting ++ more }

variable {more : List String}

/-- Who consented still does. -/
theorem mem_consent_consented (h : x ∈ request.consent) : x ∈ (request.consented more).consent := by
  rcases List.mem_cons.mp h with rfl | h
  · exact List.mem_cons_self
  · exact List.mem_cons_of_mem _ (List.mem_append_left _ h)

/-- Further consent to final words. -/
theorem decideFinals_consented :
    Option.Rel (fun ruling ruling' => DecisionState.Follows ruling.state ruling'.state) (request.decideFinals finals)
      ((request.consented more).decideFinals finals) := by
  have hfollows {state state' : DecisionState} (hstate : state = .waiting ∨ state = .allowed)
      (hstate' : state' = .waiting ∨ state' = .allowed) (h : state = .allowed → state' = .allowed) :
      state.Follows state' := by
    rcases hstate with rfl | rfl
    · exact hstate'.imp_right fun h => ⟨rfl, h⟩
    · exact Or.inl (h rfl)
  have hjoint (request : DecisionRequest) :
      (request.byJoint finals).state = .waiting ∨ (request.byJoint finals).state = .allowed := by
    unfold DecisionRequest.byJoint
    dsimp only
    split_ifs
    · exact Or.inl rfl
    · exact Or.inr rfl
  have hthreshold (request : DecisionRequest) (n : ℤ) :
      (request.byThreshold finals n).state = .waiting ∨ (request.byThreshold finals n).state = .allowed := by
    unfold DecisionRequest.byThreshold
    dsimp only
    split_ifs
    · exact Or.inl rfl
    · exact Or.inr rfl
  rcases finals with _ | ⟨first, _ | ⟨second, rest⟩⟩
  · exact .none
  · exact .some (Or.inl rfl)
  · refine .some ?_
    unfold DecisionRequest.byComposition
    cases commonComposition (first :: second :: rest) with
    | none => exact Or.inl rfl
    | some comp =>
      cases comp with
      | priority => exact Or.inl rfl
      | joint =>
        refine hfollows (hjoint _) (hjoint _) fun h => byJoint_allowed.mpr fun f hf => ?_
        exact mem_consent_consented (byJoint_allowed.mp h f hf)
      | threshold =>
        refine hfollows (hthreshold _ _) (hthreshold _ _) fun h => byThreshold_allowed.mpr ?_
        obtain ⟨subjects, hdistinct, hsubjects, hn⟩ := byThreshold_allowed.mp h
        exact ⟨subjects, hdistinct, fun x hx => ⟨mem_consent_consented (hsubjects x hx).1, (hsubjects x hx).2⟩, hn⟩

/-- Further consent to a request. -/
theorem resolve_consented :
    DecisionState.Follows (request.resolve grants).state ((request.consented more).resolve grants).state := by
  have htier (spec : ℕ) : Option.Rel (fun verdict verdict' => DecisionState.Follows verdict.1 verdict'.1)
      (request.tierVerdict grants spec) ((request.consented more).tierVerdict grants spec) := by
    have hsame : (request.consented more).bindingAt grants spec = request.bindingAt grants spec := rfl
    have hrel (finals : List AuthorityGrant) :
        Option.Rel (fun ruling ruling' => DecisionState.Follows ruling.state ruling'.state)
      (request.decideFinals finals) ((request.consented more).decideFinals finals) := decideFinals_consented
    unfold DecisionRequest.tierVerdict
    rw [hsame]
    split_ifs
    · exact .some (Or.inl rfl)
    · have hfinals := hrel ((request.bindingAt grants spec).filter fun g => g.strength = .final)
      generalize request.decideFinals _ = ruling at hfinals ⊢
      generalize (request.consented more).decideFinals _ = ruling' at hfinals ⊢
      cases hfinals with
      | none => exact .none
      | some h => exact .some h
  have hfound (specs : List ℕ) : Option.Rel (fun verdict verdict' => DecisionState.Follows verdict.1 verdict'.1)
      (specs.findSome? (request.tierVerdict grants))
      (specs.findSome? ((request.consented more).tierVerdict grants)) := by
    induction specs with
    | nil => exact .none
    | cons spec rest ih =>
      rw [List.findSome?_cons, List.findSome?_cons]
      have hspec := htier spec
      generalize request.tierVerdict grants spec = verdict at hspec ⊢
      generalize (request.consented more).tierVerdict grants spec = verdict' at hspec ⊢
      cases hspec with
      | none => exact ih
      | some h => exact .some h
  have hstate (request : DecisionRequest) : (request.resolve grants).state =
      (([3, 2, 1].findSome? (request.tierVerdict grants)).getD (.unresolved, none)).1 :=
        congrArg Prod.fst verdict_resolve
  rw [hstate, hstate]
  have hall := hfound [3, 2, 1]
  generalize [3, 2, 1].findSome? (request.tierVerdict grants) = verdict at hall ⊢
  generalize [3, 2, 1].findSome? ((request.consented more).tierVerdict grants) = verdict' at hall ⊢
  cases hall with
  | none => exact Or.inl rfl
  | some h => exact h

/-- Further consent to a claim changes nothing, or allows what waited, in each of its domains and overall. -/
theorem claim_consented (claim : DecisionClaim) (more : List String) (grants : List AuthorityGrant) :
    (∀ domain, DecisionState.Follows ((claim.request domain).resolve grants).state
      ((({ claim with consenting := claim.consenting ++ more } : DecisionClaim).request domain).resolve grants).state) ∧
    DecisionState.Follows (claimOverall (resolveClaim claim grants))
      (claimOverall (resolveClaim { claim with consenting := claim.consenting ++ more } grants)) := by
  have hfollows (domain : Domain) : DecisionState.Follows ((claim.request domain).resolve grants).state
      (((claim.request domain).consented more).resolve grants).state := resolve_consented
  refine ⟨hfollows, ?_⟩
  have hstates (state : DecisionState) :
      state ∈ (resolveClaim { claim with consenting := claim.consenting ++ more } grants).map
        (fun item => item.2.state) ↔
        ∃ domain ∈ claim.domains, (((claim.request domain).consented more).resolve grants).state = state := mem_states
  have hkept {state : DecisionState} (hwaiting : state ≠ .waiting) (hallowed : state ≠ .allowed) :
      (∃ domain ∈ claim.domains, ((claim.request domain).resolve grants).state = state) ↔
        ∃ domain ∈ claim.domains, (((claim.request domain).consented more).resolve grants).state = state := by
    refine exists_congr fun domain => and_congr_right fun _ => ?_
    rcases hfollows domain with heq | ⟨hbefore, hafter⟩
    · rw [heq]
    · rw [hbefore, hafter]
      exact ⟨fun h => absurd h.symm hwaiting, fun h => absurd h.symm hallowed⟩
  have hwaited : (∃ domain ∈ claim.domains, (((claim.request domain).consented more).resolve grants).state = .waiting) →
      ∃ domain ∈ claim.domains, ((claim.request domain).resolve grants).state = .waiting := by
    rintro ⟨domain, hdomain, hstate⟩
    refine ⟨domain, hdomain, ?_⟩
    rcases hfollows domain with heq | ⟨-, hafter⟩
    · exact heq ▸ hstate
    · rw [hafter] at hstate
      cases hstate
  unfold claimOverall
  dsimp only
  simp only [mem_states, hstates]
  have hblocked := @hkept .blocked (by decide) (by decide)
  have hunresolved := @hkept .unresolved (by decide) (by decide)
  simp only [hblocked, hunresolved]
  split_ifs with _ _ hbefore hafter hafter
  · exact Or.inl rfl
  · exact Or.inl rfl
  · exact Or.inl rfl
  · exact Or.inr ⟨rfl, rfl⟩
  · exact absurd (hwaited hafter) hbefore
  · exact Or.inl rfl

/-- A context that a grant is for wherever another is. -/
def ContextWithin (childCtx delegatorCtx : Option String) : Prop :=
  ∀ requestCtx, 0 < contextSpecificity childCtx requestCtx → 0 < contextSpecificity delegatorCtx requestCtx

/-- A wildcard that matches the context itself that another grant is for. -/
def ContextBeyond (childCtx delegatorCtx : Option String) : Prop :=
  ∃ a ∈ childCtx, ∃ b ∈ delegatorCtx, matchesWildcard a b

/-- A wildcard matches where a longer one does. -/
theorem matchesWildcard_trans {a b c : String} (hab : matchesWildcard a b) (hbc : matchesWildcard b c) :
    matchesWildcard a c ∨ matchesWildcard b a := by
  simp only [matchesWildcard, decide_eq_true_eq] at *
  obtain ⟨hstar, hab⟩ := hab
  obtain ⟨hstar', hbc⟩ := hbc
  have hb : b.toList.dropLast ++ ['*'] = b.toList := List.dropLast_append_getLast? '*' hstar'
  rw [← hb] at hab
  rcases List.prefix_concat_iff.mp hab with heq | hshort
  · refine Or.inr ⟨hstar', ?_⟩
    have ha : a.toList.dropLast ++ ['*'] = a.toList := List.dropLast_append_getLast? '*' hstar
    rw [← ha, heq, List.append_assoc]
    exact List.prefix_append _ _
  · exact Or.inl ⟨hstar, hshort.trans hbc⟩

/-- A context covers another exactly if it is at least as broad, or lies within the other's wildcard. -/
theorem contextCovers_iff {delegatorCtx childCtx : Option String} :
    contextCovers delegatorCtx childCtx ↔
    ContextWithin childCtx delegatorCtx ∨ ContextBeyond childCtx delegatorCtx := by
  have hmatches {a b : String} : 0 < contextSpecificity (some a) (some b) ↔ a = b ∨ matchesWildcard a b := by
    unfold contextSpecificity
    dsimp only
    split_ifs with heq hwildcard
    · simp [heq]
    · simp [hwildcard]
    · simp [heq, hwildcard]
  cases delegatorCtx with
  | none => exact iff_of_true rfl (Or.inl fun _ _ => Nat.one_pos)
  | some b =>
    cases childCtx with
    | none =>
      refine iff_of_false Bool.false_ne_true ?_
      rintro (hwithin | ⟨_, ha, -⟩)
      · exact absurd (hwithin none Nat.one_pos) (Nat.lt_irrefl 0)
      · cases ha
    | some a =>
      have hcovers : contextCovers (some b) (some a) = true ↔ b = a ∨ matchesWildcard b a ∨ matchesWildcard a b := by
        simp [contextCovers, or_assoc]
      rw [hcovers]
      constructor
      · rintro (rfl | hbroader | hbeyond)
        · exact Or.inl fun _ h => h
        · by_cases hbeyond : matchesWildcard a b
          · exact Or.inr ⟨a, rfl, b, rfl, hbeyond⟩
          · refine Or.inl fun requestCtx h => ?_
            cases requestCtx with
            | none => exact absurd h (Nat.lt_irrefl 0)
            | some r =>
              rcases hmatches.mp h with rfl | h
              · exact hmatches.mpr (Or.inr hbroader)
              · exact hmatches.mpr (Or.inr ((matchesWildcard_trans hbroader h).resolve_right hbeyond))
        · exact Or.inr ⟨a, rfl, b, rfl, hbeyond⟩
      · rintro (hwithin | ⟨_, ha, _, hb, hbeyond⟩)
        · exact (hmatches.mp (hwithin (some a) (hmatches.mpr (Or.inl rfl)))).imp_right Or.inl
        · obtain rfl := Option.some.inj ha
          obtain rfl := Option.some.inj hb
          exact Or.inr (Or.inr hbeyond)

/-- The static check of a delegation finds nothing exactly if each grant of the child that decides lies within a
grant of the delegator that decides in the same domain, or has a wildcard that goes beyond one. -/
theorem checkDelegationMonotonic_iff (delegator child : List AuthorityGrant) :
    checkDelegationMonotonic delegator child = [] ↔ ∀ cg ∈ child, cg.decides →
      ∃ dg ∈ delegator, dg.decides ∧ dg.domain = cg.domain ∧
        (ContextWithin cg.context dg.context ∨ ContextBeyond cg.context dg.context) := by
  simp only [checkDelegationMonotonic, List.map_eq_nil_iff, List.filter_eq_nil_iff, ← contextCovers_iff]
  refine forall₂_congr fun cg _ => ?_
  cases cg.decides with
  | false => simp
  | true => simp [and_comm, and_left_comm, and_assoc]

end MyTeam.Legacy.Resolution

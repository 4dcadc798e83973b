import Mathlib.Data.List.Basic

/-!
# Removing effects from a trace

Effects change a state one after the other, and each carries what it takes to undo it. Undoing
some of them afterwards, in the order in which they came, leads to the state that the others alone
would have led to, if every undone effect is undone exactly in the state that it would have found,
and no later effect that stays depends on it. One that is undone as well may depend on it, where
both inverses commute.

States are compared by a preorder, so that what nobody looks at may stay behind.
-/

namespace MyTeam.Undo

/-- Effects that can be undone. `Does w e s` says that `e` leads from `w` to `s` and records there what it carries,
`Leads w e s` that its inverse leads back from `s` to `w` at least, `Stands e w` that the mark of `e` is still in `w`.
A later effect that stays is `Independent` of one that is undone, one that is undone as well is `Together` with it. -/
structure Undoable (σ ε : Type*) where
  Does : σ → ε → σ → Prop
  Leads : σ → ε → σ → Prop
  undo : σ → ε → σ
  Sim : σ → σ → Prop
  Inv : σ → Prop
  Stands : ε → σ → Prop
  Independent : ε → ε → Prop
  Together : ε → ε → Prop
  Exact : σ → ε → Prop
  refl : ∀ w, Sim w w
  trans : ∀ {u v w}, Sim u v → Sim v w → Sim u w
  does_inv : ∀ {w e s}, Inv w → Does w e s → Inv s
  does_sim : ∀ {w v e s}, Sim w v → Does w e s → ∃ s', Does v e s' ∧ Sim s s'
  undo_sim : ∀ {w v e}, Sim w v → Stands e v → Sim (undo w e) (undo v e)
  does_undo : ∀ {d e w s}, Independent d e → Stands d w → Does w e s → ∃ s', Does (undo w d) e s' ∧ Sim (undo s d) s'
  stands_self : ∀ {w e s}, Does w e s → Stands e s
  stands_does : ∀ {d e w s}, Together d e → Stands d w → Does w e s → Stands d s
  stands_undo : ∀ {d e w}, Together d e → Stands e w → Stands e (undo w d)
  together : ∀ {d e}, Independent d e → Together d e
  leads_of_does : ∀ {w e s}, Inv w → Does w e s → Leads w e s
  leads_undo : ∀ {d e w s}, Together d e → Stands d w → Leads w e s → Leads (undo w d) e (undo s d)
  undo_exact : ∀ {w v e s}, Inv v → Exact v e → Leads w e s → Sim w v → Sim (undo s e) v

namespace Undoable

variable {σ ε : Type*} (U : Undoable σ ε)

/-- Effects that lead from one state to another. -/
inductive Trace : σ → List ε → σ → Prop
  | nil {w : σ} : Trace w [] w
  | cons {w s t : σ} {e : ε} {rest : List ε} : U.Does w e s → Trace s rest t → Trace w (e :: rest) t

variable {U} {w v s t : σ} {e : ε} {undone effects : List ε}

/-- A trace keeps the invariant. -/
theorem Trace.inv (h : U.Trace w effects t) (inv : U.Inv w) : U.Inv t := by
  induction h with
  | nil => exact inv
  | cons hdoes _ ih => exact ih (U.does_inv inv hdoes)

/-- One effect after a trace. -/
theorem Trace.concat (h : U.Trace w effects t) (hdoes : U.Does t e s) : U.Trace w (effects ++ [e]) s := by
  induction h with
  | nil => exact .cons hdoes .nil
  | cons hfirst _ ih => exact .cons hfirst (ih hdoes)

/-- Effects are undone alike in similar states. -/
theorem foldl_undo_sim (h : U.Sim w v) (stands : ∀ d ∈ undone, U.Stands d v)
    (together : undone.Pairwise U.Together) : U.Sim (undone.foldl U.undo w) (undone.foldl U.undo v) := by
  induction undone generalizing w v with
  | nil => exact h
  | cons d rest ih =>
    obtain ⟨hd, hrest⟩ := List.pairwise_cons.mp together
    refine ih (U.undo_sim h (stands d List.mem_cons_self)) (fun d' hd' => ?_) hrest
    exact U.stands_undo (hd d' hd') (stands d' (List.mem_cons_of_mem _ hd'))

/-- An effect does the same where effects that it does not depend on are undone. -/
theorem does_foldl_undo (stands : ∀ d ∈ undone, U.Stands d w) (together : undone.Pairwise U.Together)
    (apart : ∀ d ∈ undone, U.Independent d e) (h : U.Does w e s) :
    ∃ s', U.Does (undone.foldl U.undo w) e s' ∧ U.Sim (undone.foldl U.undo s) s' := by
  induction undone generalizing w s with
  | nil => exact ⟨s, h, U.refl s⟩
  | cons d rest ih =>
    obtain ⟨hd, hrest⟩ := List.pairwise_cons.mp together
    obtain ⟨s₁, hs₁, hsim⟩ := U.does_undo (apart d List.mem_cons_self) (stands d List.mem_cons_self) h
    have hstands (d' : ε) (hd' : d' ∈ rest) : U.Stands d' (U.undo w d) :=
      U.stands_undo (hd d' hd') (stands d' (List.mem_cons_of_mem _ hd'))
    have hapart (d' : ε) (hd' : d' ∈ rest) : U.Independent d' e := apart d' (List.mem_cons_of_mem _ hd')
    obtain ⟨s₂, hs₂, hsim₂⟩ := ih hstands hrest hapart hs₁
    have hfold : U.Sim (rest.foldl U.undo (U.undo s d)) (rest.foldl U.undo s₁) :=
      foldl_undo_sim hsim (fun d' hd' => U.stands_does (U.together (hapart d' hd')) (hstands d' hd') hs₁) hrest
    exact ⟨s₂, hs₂, U.trans hfold hsim₂⟩

/-- The inverse of an effect leads back also where others are undone. -/
theorem leads_foldl_undo (stands : ∀ d ∈ undone, U.Stands d w) (together : undone.Pairwise U.Together)
    (apart : ∀ d ∈ undone, U.Together d e) (h : U.Leads w e s) :
    U.Leads (undone.foldl U.undo w) e (undone.foldl U.undo s) := by
  induction undone generalizing w s with
  | nil => exact h
  | cons d rest ih =>
    obtain ⟨hd, hrest⟩ := List.pairwise_cons.mp together
    refine ih (fun d' hd' => ?_) hrest (fun d' hd' => apart d' (List.mem_cons_of_mem _ hd')) ?_
    · exact U.stands_undo (hd d' hd') (stands d' (List.mem_cons_of_mem _ hd'))
    · exact U.leads_undo (apart d List.mem_cons_self) (stands d List.mem_cons_self) h

/-- A later effect is spared when an effect is undone: it stays and is independent, or it is undone as well. -/
def Spares (U : Undoable σ ε) (chosen : ε → Bool) (d e : ε) : Prop :=
  if chosen e then U.Together d e else U.Independent d e

/-- What is spared could be undone as well. -/
theorem Spares.together {chosen : ε → Bool} {d : ε} (h : U.Spares chosen d e) : U.Together d e := by
  unfold Spares at h
  split_ifs at h
  · exact h
  · exact U.together h

/-- What is spared and stays is independent. -/
theorem Spares.independent {chosen : ε → Bool} {d : ε} (h : U.Spares chosen d e) (hstay : chosen e = false) :
    U.Independent d e := by
  rwa [Spares, hstay, if_neg Bool.false_ne_true] at h

/-- What it takes to undo the chosen effects of a list from a state: each is exact in the state that the others before
it lead to, and all later effects are spared. -/
def Removable (U : Undoable σ ε) (chosen : ε → Bool) (v : σ) (effects : List ε) : Prop :=
  ∀ before e after, effects = before ++ e :: after → chosen e = true →
    (∀ v', U.Trace v (before.filter fun e => !chosen e) v' → U.Exact v' e) ∧ ∀ f ∈ after, U.Spares chosen e f

/-- The condition after an effect that stays. -/
theorem Removable.stay {chosen : ε → Bool} (h : U.Removable chosen v (e :: effects)) (hdoes : U.Does v e s)
    (hstay : chosen e = false) : U.Removable chosen s effects := by
  intro before f after heq hf
  obtain ⟨hexact, hafter⟩ := h (e :: before) f after (by rw [heq, List.cons_append]) hf
  refine ⟨fun v' htrace => hexact v' ?_, hafter⟩
  rw [List.filter_cons, hstay]
  exact .cons hdoes htrace

/-- The condition after an effect that is removed. -/
theorem Removable.go {chosen : ε → Bool} (h : U.Removable chosen v (e :: effects)) (hgo : chosen e = true) :
    U.Removable chosen v effects := by
  intro before f after heq hf
  obtain ⟨hexact, hafter⟩ := h (e :: before) f after (by rw [heq, List.cons_append]) hf
  refine ⟨fun v' htrace => hexact v' ?_, hafter⟩
  rw [List.filter_cons, hgo]
  exact htrace

/-- Undoing the chosen effects of a trace leads to what the others lead to. -/
theorem Trace.remove {chosen : ε → Bool} (h : U.Trace w effects t) (start : U.Inv w) (inv : U.Inv v)
    (sim : U.Sim (undone.foldl U.undo w) v) (stands : ∀ d ∈ undone, U.Stands d w)
    (together : undone.Pairwise U.Together) (apart : ∀ d ∈ undone, ∀ e ∈ effects, U.Spares chosen d e)
    (removable : U.Removable chosen v effects) :
    ∃ t', U.Trace v (effects.filter fun e => !chosen e) t' ∧
      U.Sim ((undone ++ effects.filter chosen).foldl U.undo t) t' := by
  induction h generalizing v undone with
  | nil => exact ⟨v, .nil, by simpa using sim⟩
  | cons hdoes htrace ih =>
    rename_i w s t e rest
    have hnext : U.Inv s := U.does_inv start hdoes
    have hapart (d : ε) (hd : d ∈ undone) : U.Spares chosen d e := apart d hd e List.mem_cons_self
    have hstands (d : ε) (hd : d ∈ undone) : U.Stands d s :=
      U.stands_does (hapart d hd).together (stands d hd) hdoes
    have hrest (d : ε) (hd : d ∈ undone) (f : ε) (hf : f ∈ rest) : U.Spares chosen d f :=
      apart d hd f (List.mem_cons_of_mem _ hf)
    cases hchosen : chosen e with
    | false =>
      obtain ⟨s₁, hs₁, hsim₁⟩ := does_foldl_undo stands together (fun d hd => (hapart d hd).independent hchosen) hdoes
      obtain ⟨s₂, hs₂, hsim₂⟩ := U.does_sim sim hs₁
      have hsim : U.Sim (undone.foldl U.undo s) s₂ := U.trans hsim₁ hsim₂
      obtain ⟨t', ht', hsim'⟩ := ih hnext (U.does_inv inv hs₂) hsim hstands together hrest (removable.stay hs₂ hchosen)
      refine ⟨t', ?_, ?_⟩
      · rw [List.filter_cons, hchosen]
        exact .cons hs₂ ht'
      · rwa [List.filter_cons, hchosen]
    | true =>
      obtain ⟨hexact, hafter⟩ := removable [] e rest rfl hchosen
      have hback : U.Sim ((undone ++ [e]).foldl U.undo s) v := by
        have hleads : U.Leads (undone.foldl U.undo w) e (undone.foldl U.undo s) :=
          leads_foldl_undo stands together (fun d hd => (hapart d hd).together) (U.leads_of_does start hdoes)
        rw [List.foldl_append]
        exact U.undo_exact inv (hexact v .nil) hleads sim
      have hstands' (d : ε) (hd : d ∈ undone ++ [e]) : U.Stands d s := by
        rcases List.mem_append.mp hd with hd | hd
        · exact hstands d hd
        · rw [List.mem_singleton.mp hd]
          exact U.stands_self hdoes
      have htogether : (undone ++ [e]).Pairwise U.Together := by
        refine List.pairwise_append.mpr ⟨together, List.pairwise_singleton _ _, fun d hd f hf => ?_⟩
        rw [List.mem_singleton.mp hf]
        exact (hapart d hd).together
      have hrest' (d : ε) (hd : d ∈ undone ++ [e]) (f : ε) (hf : f ∈ rest) : U.Spares chosen d f := by
        rcases List.mem_append.mp hd with hd | hd
        · exact hrest d hd f hf
        · rw [List.mem_singleton.mp hd]
          exact hafter f hf
      obtain ⟨t', ht', hsim'⟩ := ih hnext inv hback hstands' htogether hrest' (removable.go hchosen)
      refine ⟨t', ?_, ?_⟩
      · rw [List.filter_cons, hchosen]
        exact ht'
      · rw [List.filter_cons, hchosen]
        rwa [List.append_assoc] at hsim'

/-- The mark of an effect stands after a trace of effects that could be undone with it. -/
theorem Trace.stands {d : ε} (h : U.Trace w effects t) (stands : U.Stands d w)
    (apart : ∀ e ∈ effects, U.Together d e) : U.Stands d t := by
  induction h with
  | nil => exact stands
  | cons hdoes _ ih =>
    exact ih (U.stands_does (apart _ List.mem_cons_self) stands hdoes) fun f hf => apart f (List.mem_cons_of_mem _ hf)

/-- Effects that can be removed are undone together, and their marks stand at the end. -/
theorem Trace.removable {chosen : ε → Bool} (h : U.Trace w effects t)
    (later : ∀ before e after, effects = before ++ e :: after → chosen e = true → ∀ f ∈ after, U.Spares chosen e f) :
    (effects.filter chosen).Pairwise U.Together ∧ ∀ d ∈ effects.filter chosen, U.Stands d t := by
  induction h with
  | nil => exact ⟨.nil, by simp⟩
  | cons hdoes htrace ih =>
    rename_i e rest
    obtain ⟨hpairwise, hstands⟩ :=
      ih fun before f after heq => later (e :: before) f after (by rw [heq, List.cons_append])
    cases hchosen : chosen e with
    | false => simpa [List.filter_cons, hchosen] using And.intro hpairwise hstands
    | true =>
      have hapart (f : ε) (hf : f ∈ rest) : U.Together e f := (later [] e rest rfl hchosen f hf).together
      rw [List.filter_cons_of_pos hchosen]
      refine ⟨List.pairwise_cons.mpr ⟨fun f hf => hapart f (List.mem_of_mem_filter hf), hpairwise⟩, fun d hd => ?_⟩
      rcases List.mem_cons.mp hd with rfl | hd
      · exact htrace.stands (U.stands_self hdoes) hapart
      · exact hstands d hd

/-- Undoing the chosen effects of a trace, in a state similar to where it leads, leads to what the others lead to. -/
theorem Trace.without {u : σ} {chosen : ε → Bool} (h : U.Trace w effects t) (inv : U.Inv w)
    (removable : U.Removable chosen w effects) (sim : U.Sim u t) :
    ∃ t', U.Trace w (effects.filter fun e => !chosen e) t' ∧ U.Sim ((effects.filter chosen).foldl U.undo u) t' := by
  obtain ⟨htogether, hstands⟩ := h.removable fun before e after heq he => (removable before e after heq he).2
  have hnothing : U.Sim (([] : List ε).foldl U.undo w) w := U.refl w
  obtain ⟨t', htrace, hsim⟩ := h.remove inv inv hnothing (by simp) .nil (by simp) removable
  exact ⟨t', htrace, U.trans (foldl_undo_sim sim hstands htogether) hsim⟩

end Undoable

end MyTeam.Undo

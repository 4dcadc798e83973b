import MyTeam.Undo.Removal
import Mathlib.Logic.Equiv.Defs

/-!
# Effects on several stores

Effects on stores that stand side by side are undone in each of them. A store in which nothing
stays behind needs two laws only: later effects commute with the inverse of an effect that they do
not depend on, and the inverse puts back what was there.
-/

namespace MyTeam.Undo.Undoable

variable {σ τ ω ε : Type*}

/-- Effects on a store that are undone without a trace. -/
def strict (Does : σ → ε → σ → Prop) (undo : σ → ε → σ) (Independent : ε → ε → Prop) (Exact : σ → ε → Prop)
    (commutes : ∀ {d e w s}, Independent d e → Does w e s → Does (undo w d) e (undo s d))
    (restores : ∀ {w e s}, Exact w e → Does w e s → undo s e = w) : Undoable σ ε where
  Does := Does
  Leads := Does
  undo := undo
  Sim := Eq
  Inv _ := True
  Stands _ _ := True
  Independent := Independent
  Together := Independent
  Exact := Exact
  refl _ := rfl
  trans := Eq.trans
  does_inv _ _ := trivial
  does_sim {_ _ _ s} same does := ⟨s, same ▸ does, rfl⟩
  undo_sim {_ _ e} same _ := congrArg (undo · e) same
  does_undo {d _ _ s} independent _ does := ⟨undo s d, commutes independent does, rfl⟩
  stands_self _ := trivial
  stands_does _ _ _ := trivial
  stands_undo _ _ := trivial
  together := id
  leads_of_does _ := id
  leads_undo independent _ := commutes independent
  undo_exact {w _ _ s} _ exact leads same := by
    subst same
    exact restores exact leads

/-- Effects on two stores. -/
def both (U : Undoable σ ε) (V : Undoable τ ε) : Undoable (σ × τ) ε where
  Does w e s := U.Does w.1 e s.1 ∧ V.Does w.2 e s.2
  Leads w e s := U.Leads w.1 e s.1 ∧ V.Leads w.2 e s.2
  undo w e := (U.undo w.1 e, V.undo w.2 e)
  Sim w v := U.Sim w.1 v.1 ∧ V.Sim w.2 v.2
  Inv w := U.Inv w.1 ∧ V.Inv w.2
  Stands e w := U.Stands e w.1 ∧ V.Stands e w.2
  Independent d e := U.Independent d e ∧ V.Independent d e
  Together d e := U.Together d e ∧ V.Together d e
  Exact w e := U.Exact w.1 e ∧ V.Exact w.2 e
  refl w := ⟨U.refl w.1, V.refl w.2⟩
  trans h h' := ⟨U.trans h.1 h'.1, V.trans h.2 h'.2⟩
  does_inv inv does := ⟨U.does_inv inv.1 does.1, V.does_inv inv.2 does.2⟩
  does_sim sim does := by
    obtain ⟨s, hs, hsim⟩ := U.does_sim sim.1 does.1
    obtain ⟨t, ht, hsim'⟩ := V.does_sim sim.2 does.2
    exact ⟨(s, t), ⟨hs, ht⟩, hsim, hsim'⟩
  undo_sim sim stands := ⟨U.undo_sim sim.1 stands.1, V.undo_sim sim.2 stands.2⟩
  does_undo independent stands does := by
    obtain ⟨s, hs, hsim⟩ := U.does_undo independent.1 stands.1 does.1
    obtain ⟨t, ht, hsim'⟩ := V.does_undo independent.2 stands.2 does.2
    exact ⟨(s, t), ⟨hs, ht⟩, hsim, hsim'⟩
  stands_self does := ⟨U.stands_self does.1, V.stands_self does.2⟩
  stands_does together stands does :=
    ⟨U.stands_does together.1 stands.1 does.1, V.stands_does together.2 stands.2 does.2⟩
  stands_undo together stands := ⟨U.stands_undo together.1 stands.1, V.stands_undo together.2 stands.2⟩
  together independent := ⟨U.together independent.1, V.together independent.2⟩
  leads_of_does inv does := ⟨U.leads_of_does inv.1 does.1, V.leads_of_does inv.2 does.2⟩
  leads_undo together stands leads :=
    ⟨U.leads_undo together.1 stands.1 leads.1, V.leads_undo together.2 stands.2 leads.2⟩
  undo_exact inv exact leads sim :=
    ⟨U.undo_exact inv.1 exact.1 leads.1 sim.1, V.undo_exact inv.2 exact.2 leads.2 sim.2⟩

/-- Effects on a state that is made of a store. -/
def along (U : Undoable σ ε) (f : ω ≃ σ) : Undoable ω ε where
  Does w e s := U.Does (f w) e (f s)
  Leads w e s := U.Leads (f w) e (f s)
  undo w e := f.symm (U.undo (f w) e)
  Sim w v := U.Sim (f w) (f v)
  Inv w := U.Inv (f w)
  Stands e w := U.Stands e (f w)
  Independent := U.Independent
  Together := U.Together
  Exact w e := U.Exact (f w) e
  refl w := U.refl (f w)
  trans := U.trans
  does_inv := U.does_inv
  does_sim sim does := by
    obtain ⟨s, hs, hsim⟩ := U.does_sim sim does
    exact ⟨f.symm s, by simpa using hs, by simpa using hsim⟩
  undo_sim sim stands := by simpa using U.undo_sim sim stands
  does_undo independent stands does := by
    obtain ⟨s, hs, hsim⟩ := U.does_undo independent stands does
    exact ⟨f.symm s, by simpa using hs, by simpa using hsim⟩
  stands_self := U.stands_self
  stands_does := U.stands_does
  stands_undo together stands := by simpa using U.stands_undo together stands
  together := U.together
  leads_of_does := U.leads_of_does
  leads_undo together stands leads := by simpa using U.leads_undo together stands leads
  undo_exact inv exact leads sim := by simpa using U.undo_exact inv exact leads sim

end MyTeam.Undo.Undoable

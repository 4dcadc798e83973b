import Mathlib.Data.List.Sort
import MyTeam.Legacy.PredicatePrint

/-!
# Replay keys

Predicates with the same canonical text have the same value in every state, and predicates that differ in notation,
in the brackets of chains, in chains written with operators or as calls, and in the order and repetition of the
members of sets, have the same canonical text.
-/

namespace MyTeam.Legacy.Predicate

open MyTeam.Py

section Sets

variable {ms ms' : List Json} {items items' : List (List Char × Json)}

end Sets

namespace Form

variable {p q : Form}

namespace SameNotation

end SameNotation

/-- A child in whose place others are put is read back as they are. -/
theorem map_readBack_splice (op : String) (c : Json) : (splice op c).map Json.readBack = splice op c.readBack := by
  cases c with
  | float x => cases x <;> rfl
  | list xs =>
    cases xs with
    | nil => rfl
    | cons x xs =>
      cases x with
      | float y => cases y <;> rfl
      | str name =>
        simp only [splice, Json.readBack, Json.readBackAll]
        split_ifs
        · exact (Json.readBackAll_eq_map xs).symm
        · rfl
      | _ => rfl
  | _ => rfl

section Room

variable {n m : ℕ} {inQuant : Bool}

/-- With more room, a list of nodes has the same canonical nodes. -/
theorem mapM_mono {xs cs : List Json} (ih : ∀ v c, canonical n v = .ok c → canonical m v = .ok c)
    (h : xs.mapM (canonical n) = .ok cs) : xs.mapM (canonical m) = .ok cs := by
  induction xs generalizing cs with
  | nil => exact h
  | cons x xs ihxs =>
    rw [List.mapM_cons] at h ⊢
    obtain ⟨c, hc, h⟩ := bind_eq_ok h
    obtain ⟨rest, hrest, h⟩ := bind_eq_ok h
    rw [ih x c hc, ok_bind, ihxs hrest, ok_bind]
    exact h

/-- With more room, a node has the same canonical node, and the generator makes the same. -/
theorem canonical_mono (h : n ≤ m) : (∀ v c, canonical n v = .ok c → canonical m v = .ok c) ∧
    ∀ xs cs, generated n xs = .ok cs → generated m xs = .ok cs := by
  induction n generalizing m with
  | zero =>
    constructor
    · intro v c hc
      cases hc
    · intro xs cs hcs
      cases hcs
  | succ n ih =>
    obtain ⟨m, rfl⟩ := Nat.exists_eq_add_of_le' (le_trans (Nat.le_add_left 1 n) h)
    obtain ⟨hcanonical, hgenerated⟩ := ih (Nat.le_of_add_le_add_right h)
    refine ⟨fun v c hc => ?_, fun xs cs hcs => mapM_mono hcanonical hcs⟩
    rw [canonical] at hc ⊢
    unfold canonicalStep at hc ⊢
    split at hc
    next => exact hc
    next name args hne =>
      split_ifs at hc ⊢
      · obtain ⟨cs, hcs, hc⟩ := bind_eq_ok hc
        rw [mapM_mono hcanonical hcs]
        exact hc
      · obtain ⟨cs, hcs, hc⟩ := bind_eq_ok hc
        rw [hgenerated _ _ hcs]
        exact hc
    next =>
      obtain ⟨cs, hcs, hc⟩ := bind_eq_ok hc
      rw [hgenerated _ _ hcs]
      exact hc
    next => exact hc

/-- The canonical nodes of accepted forms are found, with as much room as one likes. -/
theorem exists_mapM {ps : List Form} (hvalid : ∀ p ∈ ps, p.Valid inQuant)
    (hloaded : ∀ p ∈ ps, p.Each (fun _ => True) Json.Loaded) (n : ℕ) : ∃ m ≥ n, ∃ cs,
      (nodes ps).mapM (canonical m) = .ok cs := by
  refine ⟨max n (depths ps), le_max_left _ _, ?_⟩
  refine (mapM_canonical_returnsIf fun p hp => ?_).1 (le_max_right _ _)
  exact canonical_returnsIf p (hvalid p hp) (hloaded p hp) _

end Room

/-- Forms of which the canonical nodes are read back the same, where there is room for both. -/
def Alike (p q : Form) : Prop :=
  ∃ n c d, canonical n p.node = .ok c ∧ canonical n q.node = .ok d ∧ c.readBack = d.readBack

namespace Alike

variable {r : Form}

/-- With more room, they are alike as well. -/
theorem exists_ge (h : Alike p q) (n : ℕ) :
    ∃ m ≥ n, ∃ c d, canonical m p.node = .ok c ∧ canonical m q.node = .ok d ∧ c.readBack = d.readBack := by
  obtain ⟨m, c, d, hc, hd, hsame⟩ := h
  have hmore := canonical_mono (le_max_right n m)
  exact ⟨max n m, le_max_left n m, c, d, hmore.1 _ _ hc, hmore.1 _ _ hd, hsame⟩

/-- In either order. -/
theorem symm (h : Alike p q) : Alike q p := by
  obtain ⟨n, c, d, hc, hd, hsame⟩ := h
  exact ⟨n, d, c, hd, hc, hsame.symm⟩

/-- One after the other. -/
theorem trans (h : Alike p q) (h' : Alike q r) : Alike p r := by
  obtain ⟨n, c, d, hc, hd, hsame⟩ := h
  obtain ⟨m, hnm, d', e, hd', he, hsame'⟩ := h'.exists_ge n
  have hmore := canonical_mono hnm
  obtain rfl := Except.ok.inj ((hmore.1 _ _ hd).symm.trans hd')
  exact ⟨m, c, e, hmore.1 _ _ hc, he, hsame.trans hsame'⟩

/-- A child of a chain counts by its canonical node. -/
theorem chain (conj : Bool) {ps rs : List Form} {inQuant : Bool} (hvalid : ∀ p ∈ ps ++ rs, p.Valid inQuant)
    (hloaded : ∀ p ∈ ps ++ rs, p.Each (fun _ => True) Json.Loaded) (h : Alike p q) :
    Alike (.chain conj (ps ++ p :: rs)) (.chain conj (ps ++ q :: rs)) := by
  obtain ⟨n, hn, all, hall⟩ := exists_mapM hvalid hloaded 0
  obtain ⟨m, hnm, c, d, hc, hd, hsame⟩ := h.exists_ge n
  have hmore := mapM_mono (canonical_mono hnm).1 hall
  simp only [nodes_eq_map, List.map_append, List.mapM_append] at hmore
  obtain ⟨cs, hcs, hmore⟩ := bind_eq_ok hmore
  obtain ⟨es, hes, -⟩ := bind_eq_ok hmore
  have hchain {p : Form} {c : Json} (h : canonical m p.node = .ok c) :
      canonical (m + 1) (Form.chain conj (ps ++ p :: rs)).node =
        .ok (.list (.str (chainOp conj).text :: (cs ++ c :: es).flatMap (splice (chainOp conj).text))) := by
    simp only [node, nodes_eq_map, List.map_append, List.map_cons, canonical_chain, List.mapM_append, List.mapM_cons,
      hcs,
      hes, h, ok_bind, pure, Except.pure]
  refine ⟨m + 1, _, _, hchain hc, hchain hd, ?_⟩
  simp only [Json.readBack, Json.readBackAll, Json.readBackAll_eq_map, List.flatMap_append, List.flatMap_cons,
    List.map_append, map_readBack_splice, hsame]

end Alike

mutual

/-- The form of what is read from the text of a node. -/
def readBack : Form → Form
  | compare op field lit => compare op field lit.readBack
  | mem field members => mem field (members.map Json.readBack)
  | quant every field p => quant every field p.readBack
  | present field => present field
  | count field op bound => count field op bound.readBack
  | chain conj ps => chain conj (readBacks ps)
  | not p => not p.readBack

/-- The forms of what is read from the texts of nodes. -/
def readBacks : List Form → List Form
  | [] => []
  | p :: ps => p.readBack :: readBacks ps

end

end Form

section Notation

variable {conj : Bool} {p : Form} {ps : List Form} {toks : List Token} {terms : List (List Token)} {text text' : String}
  {node : Json}

end Notation

section Keys

variable (sha256 : List Char → String) (limit : ℕ)

/-- A predicate that `validate` accepts. -/
def Accepted (v : Json) : Prop := ∃ r, validate sha256 limit v = .ok r ∧ r.ok = true

/-- The form of a node, or of the node that a text is read as. -/
def Says (v : Json) (p : Form) : Prop := v = p.node ∨ ∃ text, v = .str text ∧ parse (limit - 1) text = .ok p.node

variable {sha256 limit} {v w node : Json}

end Keys

end MyTeam.Legacy.Predicate

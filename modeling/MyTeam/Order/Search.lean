import MyTeam.Order.Forest

/-!
# Cycles of a graph

A graph is searched depth first: a node is gray while its successors are visited, and black
afterwards. The gray nodes are the ones on the stack, and so an edge to a gray node closes a cycle. If
the search comes to its end without one, every node was blackened after its successors, and so the graph
has no cycle. The stack is never deeper than there are nodes with successors.
-/

namespace MyTeam.Order

open Relation

variable {α : Type*}

/-- The colors of the search: not visited, on the stack, done. -/
inductive Color
  | white
  | gray
  | black
deriving DecidableEq, Repr

/-- What ends a search early: a cycle, or a path that is longer than the limit of the recursion. -/
inductive Halt (α : Type*)
  | cycle (nodes : List α)
  | recursion

/-- The state of a search. -/
structure Search (α : Type*) where
  color : α → Color := fun _ => .white
  path : List α := []

namespace Search

section Run

variable [DecidableEq α] (succ : α → List α)

/-- A node changes its color. -/
def mark (s : Search α) (node : α) (color : Color) : Search α :=
  { s with color := Function.update s.color node color }

/-- A node is entered. -/
def enter (s : Search α) (node : α) : Search α :=
  { s.mark node .gray with path := s.path ++ [node] }

/-- A node is left. -/
def leave (s : Search α) (node : α) : Search α :=
  { s.mark node .black with path := s.path.dropLast }

/-- An edge to a node, which is visited if it was not before. -/
def follow (visit : α → Search α → Except (Halt α) (Search α)) (s : Search α) (next : α) :
    Except (Halt α) (Search α) :=
  match s.color next with
  | .gray => .error (.cycle (s.path.drop (s.path.idxOf next) ++ [next]))
  | .white => visit next s
  | .black => .ok s

/-- The visit of a node, with a limit for the depth of the recursion. -/
def visit : ℕ → α → Search α → Except (Halt α) (Search α)
  | 0, _, _ => .error .recursion
  | n + 1, node, s =>
    ((succ node).foldlM (follow (visit n)) (s.enter node)).map fun inner => inner.leave node

/-- The search from a node, if it was not visited. -/
def start (limit : ℕ) (s : Search α) (node : α) : Except (Halt α) (Search α) :=
  if s.color node = .white then visit succ limit node s else .ok s

/-- The search from all nodes. -/
def run (limit : ℕ) (nodes : List α) : Except (Halt α) (Search α) :=
  nodes.foldlM (start succ limit) {}

end Run

variable {succ : α → List α}

/-- Nodes in an order in which they can be done: each comes after its successors, the last one first. -/
inductive Finished (succ : α → List α) : List α → Prop
  | nil : Finished succ []
  | cons {a : α} {l : List α} (done : ∀ b ∈ succ a, b ∈ l) (new : a ∉ l)
      (rest : Finished succ l) : Finished succ (a :: l)

/-- What is reached from done nodes is done. -/
theorem Finished.closed {a b : α} {l : List α} (h : Finished succ l) (ha : a ∈ l)
    (hreach : ReflTransGen (fun a b => b ∈ succ a) a b) :
    b ∈ l := by
  induction h generalizing a with
  | nil => exact absurd ha List.not_mem_nil
  | cons done new rest ih =>
    obtain rfl | hl := List.mem_cons.mp ha
    · obtain rfl | ⟨c, hc, hrest⟩ := hreach.cases_head
      · exact List.mem_cons_self
      · exact List.mem_cons_of_mem _ (ih (done c hc) hrest)
    · exact List.mem_cons_of_mem _ (ih hl hreach)

/-- No done node is on a cycle. -/
theorem Finished.acyclic {a : α} {l : List α} (h : Finished succ l) (ha : a ∈ l) :
    ¬TransGen (fun a b => b ∈ succ a) a a := by
  induction h with
  | nil => exact absurd ha List.not_mem_nil
  | cons done new rest ih =>
    obtain rfl | hl := List.mem_cons.mp ha
    · intro hcycle
      obtain ⟨c, hc, hback⟩ := TransGen.head'_iff.mp hcycle
      exact new (rest.closed (done c hc) hback)
    · exact ih hl

/-- The black nodes were done in order. -/
def Sound (succ : α → List α) (s : Search α) : Prop :=
  ∃ l, Finished succ l ∧ ∀ a, a ∈ l ↔ s.color a = .black

/-- What a part of the search does: it blackens some nodes in order, and leaves those alone that are gray or black. -/
structure Extends (succ : α → List α) (s t : Search α) : Prop where
  sound : Sound succ t
  black : ∀ a, s.color a = .black → t.color a = .black
  gray : ∀ a, s.color a = .gray ↔ t.color a = .gray

variable {s t u base : Search α} {node : α}

/-- Nothing is done. -/
theorem Extends.refl (sound : Sound succ s) : Extends succ s s :=
  ⟨sound, fun _ => id, fun _ => Iff.rfl⟩

/-- Parts of the search, one after the other. -/
theorem Extends.trans (h : Extends succ s t) (h' : Extends succ t u) : Extends succ s u :=
  ⟨h'.sound, fun a ha => h'.black a (h.black a ha), fun a => (h.gray a).trans (h'.gray a)⟩

/-- Nodes that are searched one after the other are all black in the end. -/
theorem extends_foldlM {f : Search α → α → Except (Halt α) (Search α)}
    (step : ∀ s t next, Sound succ s → (∀ a, base.color a = .gray ↔ s.color a = .gray) → f s next = .ok t →
      Extends succ s t ∧ t.color next = .black)
    {nodes : List α} (sound : Sound succ s) (gray : ∀ a, base.color a = .gray ↔ s.color a = .gray)
    (h : nodes.foldlM f s = .ok t) : Extends succ s t ∧ ∀ a ∈ nodes, t.color a = .black := by
  induction nodes generalizing s with
  | nil =>
    obtain rfl := Except.ok.inj h
    exact ⟨.refl sound, fun a ha => absurd ha List.not_mem_nil⟩
  | cons next rest ih =>
    rw [List.foldlM_cons] at h
    cases hnext : f s next with
    | error halt =>
      rw [hnext] at h
      cases h
    | ok inner =>
      rw [hnext] at h
      obtain ⟨hfirst, hblack⟩ := step s inner next sound gray hnext
      obtain ⟨hrest, hall⟩ := ih hfirst.sound (fun a => (gray a).trans (hfirst.gray a)) h
      refine ⟨hfirst.trans hrest, fun a ha => ?_⟩
      obtain rfl | ha := List.mem_cons.mp ha
      · exact hrest.black a hblack
      · exact hall a ha

variable [DecidableEq α]

/-- The colors after a node is entered. -/
theorem color_enter (a : α) : (s.enter node).color a = if a = node then .gray else s.color a :=
  Function.update_apply _ _ _ _

/-- The colors after a node is left. -/
theorem color_leave (a : α) : (s.leave node).color a = if a = node then .black else s.color a :=
  Function.update_apply _ _ _ _

/-- The visit of a white node blackens it. -/
theorem extends_visit {n : ℕ} (sound : Sound succ s) (white : s.color node = .white) (h : visit succ n node s = .ok t) :
    Extends succ s t ∧ t.color node = .black := by
  induction n generalizing node s t with
  | zero => cases h
  | succ n ih =>
    have hentered : Sound succ (s.enter node) := by
      obtain ⟨l, hl, hmem⟩ := sound
      refine ⟨l, hl, fun a => ?_⟩
      rw [hmem, color_enter]
      by_cases ha : a = node
      · subst ha
        simp [white]
      · rw [if_neg ha]
    rw [visit] at h
    cases hinner : (succ node).foldlM (follow (visit succ n)) (s.enter node) with
    | error halt =>
      rw [hinner] at h
      cases h
    | ok inner =>
      rw [hinner] at h
      obtain rfl := Except.ok.inj h
      obtain ⟨hextends, hsucc⟩ := extends_foldlM (fun s t next sound _ hnext => by
        unfold follow at hnext
        cases hcolor : s.color next with
        | gray => rw [hcolor] at hnext; cases hnext
        | white => rw [hcolor] at hnext; exact ih sound hcolor hnext
        | black =>
          rw [hcolor] at hnext
          obtain rfl := Except.ok.inj hnext
          exact ⟨.refl sound, hcolor⟩) hentered (fun _ => Iff.rfl) hinner
      have hgray : inner.color node = .gray := (hextends.gray node).mp (by rw [color_enter, if_pos rfl])
      obtain ⟨l, hl, hmem⟩ := hextends.sound
      refine ⟨⟨⟨node :: l, .cons (fun b hb => (hmem b).mpr (hsucc b hb)) (fun hnode => ?_) hl, fun a => ?_⟩,
        fun a ha => ?_, fun a => ?_⟩, by rw [color_leave, if_pos rfl]⟩
      · rw [hmem, hgray] at hnode
        cases hnode
      · rw [List.mem_cons, hmem, color_leave]
        by_cases ha : a = node <;> simp [ha]
      · rw [color_leave]
        split
        · rfl
        next hne => exact hextends.black a (by rwa [color_enter, if_neg hne])
      · rw [color_leave]
        by_cases ha : a = node
        · subst ha
          simp [white]
        · rw [if_neg ha, ← hextends.gray, color_enter, if_neg ha]

/-- A graph whose search ends without a cycle has none. -/
theorem acyclic_of_run {limit : ℕ} {nodes : List α} (h : run succ limit nodes = .ok t)
    (edges : ∀ a, succ a ≠ [] → a ∈ nodes) (a : α) : ¬TransGen (fun a b => b ∈ succ a) a a := by
  have hstart : Sound succ ({} : Search α) := ⟨[], .nil, fun a => by simp⟩
  have hnone : ∀ a, ({} : Search α).color a = .gray ↔ ({} : Search α).color a = .gray := fun _ => Iff.rfl
  obtain ⟨hextends, hblack⟩ := extends_foldlM (fun s t next sound gray hnext => by
    unfold start at hnext
    split at hnext
    next hwhite => exact extends_visit sound hwhite hnext
    next hvisited =>
      obtain rfl := Except.ok.inj hnext
      refine ⟨.refl sound, ?_⟩
      cases hcolor : s.color next with
      | white => exact absurd hcolor hvisited
      | gray => cases (gray next).mpr hcolor
      | black => rfl) hstart hnone h
  intro hcycle
  obtain ⟨b, hb, -⟩ := TransGen.head'_iff.mp hcycle
  have ha : a ∈ nodes := edges a (List.ne_nil_of_mem hb)
  obtain ⟨l, hl, hmem⟩ := hextends.sound
  exact hl.acyclic ((hmem a).mpr (hblack a ha)) hcycle

/-- The stack of the search: the gray nodes, each once. -/
structure Stacked (s : Search α) : Prop where
  nodup : s.path.Nodup
  gray : ∀ a, a ∈ s.path ↔ s.color a = .gray

/-- A walk along the edges that comes back to where it began. -/
def Closed (succ : α → List α) (nodes : List α) : Prop :=
  nodes.IsChain (fun a b => b ∈ succ a) ∧ ∃ a inner, nodes = a :: (inner ++ [a])

/-- A walk along the edges that comes to no node twice. -/
def Simple (succ : α → List α) (nodes : List α) : Prop :=
  nodes.Nodup ∧ nodes.IsChain fun a b => b ∈ succ a

/-- What ends a search early is a closed walk, or a path of more nodes than the limit allows. -/
def Halts (succ : α → List α) (limit : ℕ) : Halt α → Prop
  | .cycle nodes => Closed succ nodes
  | .recursion => ∃ path, Simple succ path ∧ limit < path.length

/-- The ends that a part of the search may come to. -/
def Ends {ε σ : Type*} (done : σ → Prop) (halted : ε → Prop) : Except ε σ → Prop
  | .ok t => done t
  | .error halt => halted halt

omit [DecidableEq α] in
/-- Nodes that are searched one after the other. -/
theorem ends_foldlM {ε σ : Type*} {done : σ → Prop} {halted : ε → Prop} {f : σ → α → Except ε σ} {nodes : List α}
    {s : σ} (step : ∀ s, ∀ a ∈ nodes, done s → Ends done halted (f s a)) (h : done s) :
    Ends done halted (nodes.foldlM f s) := by
  induction nodes generalizing s with
  | nil => exact h
  | cons a rest ih =>
    rw [List.foldlM_cons]
    have hfirst := step s a List.mem_cons_self h
    cases hresult : f s a with
    | error halt =>
      rw [hresult] at hfirst
      exact hfirst
    | ok t =>
      rw [hresult] at hfirst
      exact ih (fun s b hb => step s b (List.mem_cons_of_mem _ hb)) hfirst

omit [DecidableEq α] in
/-- All nodes of a path but the last have successors. -/
theorem ne_nil_of_chain {path : List α} (hchain : (path ++ [node]).IsChain (fun a b => b ∈ succ a)) :
    ∀ a ∈ path, succ a ≠ [] := by
  induction path with
  | nil => exact fun a ha => absurd ha List.not_mem_nil
  | cons b rest ih =>
    rw [List.cons_append, List.isChain_cons] at hchain
    intro a ha
    obtain rfl | ha := List.mem_cons.mp ha
    · obtain ⟨c, hc⟩ : ∃ c, (rest ++ [node]).head? = some c := by
        cases rest with
        | nil => exact ⟨node, rfl⟩
        | cons c rest => exact ⟨c, rfl⟩
      exact List.ne_nil_of_mem (hchain.1 c hc)
    · exact ih hchain.2 a ha

/-- An edge to a node of the path closes a walk. -/
theorem closed_of_mem {path : List α} {next : α} (hmem : next ∈ path)
    (hchain : (path ++ [next]).IsChain (fun a b => b ∈ succ a)) :
    Closed succ (path.drop (path.idxOf next) ++ [next]) := by
  have hindex : path.idxOf next < path.length := List.idxOf_lt_length_of_mem hmem
  refine ⟨?_, next, path.drop (path.idxOf next + 1), ?_⟩
  · rw [← List.drop_append_of_le_length hindex.le]
    exact hchain.drop _
  · rw [List.drop_eq_getElem_cons hindex, List.getElem_idxOf, List.cons_append]

/-- A node that is entered goes on the stack. -/
theorem Stacked.enter (h : Stacked s) (white : s.color node = .white) : Stacked (s.enter node) where
  nodup := by
    have hnew : node ∉ s.path := fun hmem => by
      have hgray := (h.gray node).mp hmem
      rw [white] at hgray
      cases hgray
    exact List.nodup_append.mpr ⟨h.nodup, List.nodup_singleton node, fun a ha b hb heq =>
      hnew (List.mem_singleton.mp hb ▸ heq ▸ ha)⟩
  gray a := by
    rw [color_enter]
    change a ∈ s.path ++ [node] ↔ _
    rw [List.mem_append, List.mem_singleton, h.gray]
    by_cases ha : a = node <;> simp [ha]

/-- A node that is left goes off the stack. -/
theorem Stacked.leave {path : List α} (h : Stacked t) (hpath : t.path = path ++ [node]) :
    Stacked (t.leave node) ∧ (t.leave node).path = path := by
  have hleft : (t.leave node).path = path := by
    change t.path.dropLast = path
    rw [hpath, List.dropLast_concat]
  have hnodup : (path ++ [node]).Nodup := hpath ▸ h.nodup
  obtain ⟨hrest, -, hnew⟩ := List.nodup_append.mp hnodup
  refine ⟨⟨by rwa [hleft], fun a => ?_⟩, hleft⟩
  rw [hleft, color_leave]
  by_cases ha : a = node
  · rw [if_pos ha]
    exact ⟨fun hmem => absurd ha (hnew a hmem node (List.mem_singleton_self node)), fun hblack => by cases hblack⟩
  · rw [if_neg ha, ← h.gray, hpath, List.mem_append, List.mem_singleton]
    exact ⟨Or.inl, fun hmem => hmem.resolve_right ha⟩

/-- The visit of a white node ends with the stack as it was, or the search ends. -/
theorem ends_visit {n limit : ℕ} (hlimit : s.path.length + n = limit) (hstacked : Stacked s)
    (hchain : (s.path ++ [node]).IsChain (fun a b => b ∈ succ a)) (white : s.color node = .white) :
    Ends (fun t => Stacked t ∧ t.path = s.path) (Halts succ limit) (visit succ n node s) := by
  induction n generalizing node s with
  | zero =>
    refine ⟨s.path ++ [node], ⟨(hstacked.enter white).nodup, hchain⟩, ?_⟩
    rw [List.length_append, List.length_singleton]
    omega
  | succ n ih =>
    have hinner : Ends (fun t => Stacked t ∧ t.path = s.path ++ [node]) (Halts succ limit)
        ((succ node).foldlM (follow (visit succ n)) (s.enter node)) := by
      refine ends_foldlM (fun t next hnext ht => ?_) ⟨hstacked.enter white, rfl⟩
      obtain ⟨hstack, hpath⟩ := ht
      have hedge : (t.path ++ [next]).IsChain (fun a b => b ∈ succ a) := by
        rw [hpath]
        refine hchain.append (List.isChain_singleton next) fun x hx y hy => ?_
        rw [List.getLast?_concat] at hx
        cases hx
        cases hy
        exact hnext
      unfold follow
      cases hcolor : t.color next with
      | gray => exact closed_of_mem ((hstack.gray next).mpr hcolor) hedge
      | black => exact ⟨hstack, hpath⟩
      | white =>
        have hlength : t.path.length + n = limit := by
          rw [hpath, List.length_append, List.length_singleton]
          omega
        have hvisit := ih hlength hstack hedge hcolor
        rwa [hpath] at hvisit
    rw [visit]
    cases hresult : (succ node).foldlM (follow (visit succ n)) (s.enter node) with
    | error halt =>
      rw [hresult] at hinner
      exact hinner
    | ok inner =>
      rw [hresult] at hinner
      exact hinner.1.leave hinner.2

/-- A search from all nodes comes to its end, with nothing on the stack, or it is ended. -/
theorem ends_run {limit : ℕ} {nodes : List α} :
    Ends (fun t => Stacked t ∧ t.path = []) (Halts succ limit) (run succ limit nodes) := by
  refine ends_foldlM (fun t node _ ht => ?_) ⟨⟨List.nodup_nil, fun a => by simp⟩, rfl⟩
  obtain ⟨hstack, hpath⟩ := ht
  unfold start
  split
  next hwhite =>
    have hvisit : Ends (fun u => Stacked u ∧ u.path = t.path) (Halts succ limit) (visit succ limit node t) :=
      ends_visit (by simp [hpath]) hstack (by simp [hpath]) hwhite
    rwa [hpath] at hvisit
  next => exact ⟨hstack, hpath⟩

omit [DecidableEq α] in
/-- A closed walk is a cycle. -/
theorem Closed.exists_cycle {nodes : List α} (h : Closed succ nodes) : ∃ a, TransGen (fun a b => b ∈ succ a) a a := by
  obtain ⟨hchain, a, inner, rfl⟩ := h
  refine ⟨a, ?_⟩
  rw [List.isChain_cons] at hchain
  obtain ⟨b, rest, hnodes⟩ : ∃ b rest, inner ++ [a] = b :: rest :=
    List.exists_cons_of_ne_nil (List.append_ne_nil_of_right_ne_nil _ (List.cons_ne_nil a []))
  have hlast : (b :: rest).getLast (List.cons_ne_nil b rest) = a := by
    simp only [← hnodes, List.getLast_concat]
  refine TransGen.head' (hchain.1 b (by rw [hnodes]; rfl)) ?_
  exact List.relationReflTransGen_of_exists_isChain_cons rest (hnodes ▸ hchain.2) hlast

/-- What a search comes to: its end if the graph has no cycle, and else a closed walk, as far as the recursion goes. -/
theorem run_cases {limit : ℕ} {nodes : List α} (edges : ∀ a, succ a ≠ [] → a ∈ nodes) :
    (∃ t, run succ limit nodes = .ok t ∧ ∀ a, ¬TransGen (fun a b => b ∈ succ a) a a) ∨
      (∃ walk, run succ limit nodes = .error (.cycle walk) ∧ Closed succ walk) ∨
      run succ limit nodes = .error .recursion ∧ ∃ path, Simple succ path ∧ limit < path.length := by
  have hends := @ends_run α succ _ limit nodes
  cases hrun : run succ limit nodes with
  | ok t => exact Or.inl ⟨t, rfl, acyclic_of_run hrun edges⟩
  | error halt =>
    rw [hrun] at hends
    cases halt with
    | cycle walk => exact Or.inr (Or.inl ⟨walk, rfl, hends⟩)
    | recursion => exact Or.inr (Or.inr ⟨rfl, hends⟩)

omit [DecidableEq α] in
/-- A path has at most one node more than there are nodes with successors. -/
theorem Simple.length_le {nodes path : List α} (h : Simple succ path) (edges : ∀ a, succ a ≠ [] → a ∈ nodes) :
    path.length ≤ nodes.length + 1 := by
  rcases List.eq_nil_or_concat path with rfl | ⟨front, last, rfl⟩
  · exact Nat.zero_le _
  · obtain ⟨hnodup, hchain⟩ := h
    rw [List.concat_eq_append] at hnodup hchain
    have hfront : front.length ≤ nodes.length := ((List.nodup_append.mp hnodup).1.subperm fun a ha =>
      edges a (ne_nil_of_chain hchain a ha)).length_le
    rw [List.length_concat]
    omega

/-- What a search with enough recursion comes to. -/
theorem run_spec {limit : ℕ} {nodes : List α} (edges : ∀ a, succ a ≠ [] → a ∈ nodes)
    (hlimit : nodes.length < limit) :
    (∃ t, run succ limit nodes = .ok t ∧ ∀ a, ¬TransGen (fun a b => b ∈ succ a) a a) ∨
      ∃ walk, run succ limit nodes = .error (.cycle walk) ∧ Closed succ walk := by
  rcases run_cases edges with hacyclic | hcycle | ⟨-, path, hpath, hlong⟩
  · exact Or.inl hacyclic
  · exact Or.inr hcycle
  · have hshort := hpath.length_le edges
    omega

/-- Along a chain of nodes the search goes as deep as the chain is long. -/
theorem visit_chain {succ : ℕ → List ℕ} {s : Search ℕ} {n a : ℕ} (hsucc : ∀ b < a + n, succ b = [b + 1])
    (white : ∀ b, a < b → s.color b = .white) : visit succ n a s = .error .recursion := by
  induction n generalizing a s with
  | zero => rfl
  | succ n ih =>
    have hinner : ∀ b, a < b → (s.enter a).color b = .white := fun b hb => by
      rw [color_enter, if_neg hb.ne', white b hb]
    rw [visit, hsucc a (by omega), List.foldlM_cons, follow, hinner (a + 1) (by omega)]
    dsimp only
    rw [ih (fun b hb => hsucc b (by omega)) fun b hb => hinner b (by omega)]
    rfl

end Search

end MyTeam.Order

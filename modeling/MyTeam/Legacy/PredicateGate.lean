import MyTeam.Legacy.PredicateCanon

/-!
# Validation as a gate

What `validate` accepts is evaluated in every state: the answer is a bool, or the value of a field has a type that
does not fit. `validate` itself returns for every value, except that the operator of a `count` is looked up in a set
before it is known to be a string, that an int in a text can have more digits than Python reads, and that a predicate
can be nested more deeply than the stack has room for.
-/

namespace MyTeam.Legacy.Predicate

open MyTeam.Py

/-- Whether the walk comes to a `count` with an operator that has no hash, or to the end of the stack. -/
def stops : ℕ → Json → Bool
  | 0, _ => true
  | n + 1, .list (.str name :: args) =>
    match PredicateOp.ofText name, args with
    | some .and, children => children.any (stops n)
    | some .or, children => children.any (stops n)
    | some .not, [child] => stops n child
    | some .all, [_, child] => stops n child
    | some .any, [_, child] => stops n child
    | some .count, [_, .list _, _] => true
    | some .count, [_, .dict _, _] => true
    | _, _ => false
  | _ + 1, _ => false

section Checks

variable {f members cmp num lit node : Json} {inQuant : Bool} {op : CmpOp} {w : Findings}

/-- A value that is loaded can be shown. -/
theorem shown_returns (h : node.Loaded) : Returns (shown node) := by
  obtain ⟨text, htext⟩ := node.repr_ok h
  exact ⟨text, by rw [shown, htext]; rfl⟩

/-- The check of a field returns. -/
theorem checkField_returns (h : f.Loaded) : Returns (checkField f inQuant w) := by
  unfold checkField
  split
  · split_ifs <;> exact returns_ok _
  · exact (shown_returns h).bind fun text => returns_ok _

/-- The check of the members of a set returns. -/
theorem checkMembers_returns {ms : List Json} (h : ∀ m ∈ ms, m.Loaded) : Returns (checkMembers ms w) := by
  induction ms generalizing w with
  | nil => exact returns_ok w
  | cons m ms ih =>
    obtain ⟨hm, hms⟩ := List.forall_mem_cons.mp h
    unfold checkMembers
    split_ifs
    · exact ih hms
    · exact (shown_returns hm).bind fun text => ih hms

/-- The check of a set returns. -/
theorem checkSet_returns (h : members.Loaded) : Returns (checkSet members w) := by
  unfold checkSet
  split
  · exact checkMembers_returns (Json.allLoaded_iff.mp h)
  · exact returns_ok _

/-- The check of the operator of a `count` returns if the operator has a hash. -/
theorem checkComparator_returns (h : cmp.Loaded) :
    Returns (checkComparator cmp w) ↔ ∀ xs kvs, cmp ≠ .list xs ∧ cmp ≠ .dict kvs := by
  have hfound (found : Option CmpOp) (hfound : cmpOf cmp = .ok found) : Returns (checkComparator cmp w) := by
    unfold checkComparator
    rw [hfound, ok_bind]
    cases found with
    | some op => exact returns_ok w
    | none => exact (shown_returns h).bind fun text => returns_ok _
  cases cmp with
  | list xs => exact ⟨fun ⟨w', hw'⟩ => (by cases hw'), fun hne => absurd rfl (hne xs []).1⟩
  | dict kvs => exact ⟨fun ⟨w', hw'⟩ => (by cases hw'), fun hne => absurd rfl (hne [] kvs).2⟩
  | str text => exact ⟨fun _ => by simp, fun _ => hfound _ rfl⟩
  | _ => exact ⟨fun _ => by simp, fun _ => hfound none rfl⟩

/-- The check of the bound of a `count` returns. -/
theorem checkBound_returns (h : num.Loaded) : Returns (checkBound num w) := by
  unfold checkBound
  split_ifs
  · exact returns_ok w
  · exact (shown_returns h).bind fun text => returns_ok _

/-- The check that a literal is a scalar returns. -/
theorem checkScalar_returns (h : lit.Loaded) : Returns (checkScalar op lit w) := by
  unfold checkScalar
  split_ifs
  · exact returns_ok w
  · exact (shown_returns h).bind fun text => returns_ok _

/-- The check that a literal has an order returns. -/
theorem checkOrdered_returns (h : lit.Loaded) : Returns (checkOrdered op lit w) := by
  unfold checkOrdered
  split_ifs
  · exact returns_ok w
  · exact (shown_returns h).bind fun text => returns_ok _

end Checks

/-- The walk through children returns unless it stops at one. -/
theorem walkAll_returns {n : ℕ} {nodes : List Json} {inQuant : Bool} (ih : ∀ node : Json, node.Loaded → ∀ inQuant w,
    Returns (walk n node inQuant w) ↔ stops n node = false) (h : ∀ node ∈ nodes, node.Loaded) (w : Findings) :
    Returns (nodes.foldlM (fun w child => walk n child inQuant w) w) ↔ nodes.any (stops n) = false := by
  induction nodes generalizing w with
  | nil => exact ⟨fun _ => rfl, fun _ => returns_ok w⟩
  | cons node nodes ihnodes =>
    obtain ⟨hnode, hnodes⟩ := List.forall_mem_cons.mp h
    rw [List.foldlM_cons, List.any_cons, Bool.or_eq_false_iff]
    exact returns_bind_iff (ih node hnode inQuant w) fun u => ihnodes hnodes u

/-- The walk returns unless it stops. -/
theorem walk_returns {n : ℕ} (node : Json) (h : node.Loaded) (inQuant : Bool) (w : Findings) :
    Returns (walk n node inQuant w) ↔ stops n node = false := by
  induction n generalizing node inQuant w with
  | zero =>
    refine iff_of_false ?_ (by simp [stops])
    rintro ⟨w', hw'⟩
    cases hw'
  | succ n ih =>
    rw [walk]
    unfold walkStep
    split
    next name args =>
      have hargs := Json.allLoaded_iff.mp (And.right h)
      unfold stops
      split
      next hop => simp [hop]
      next hop => simp [hop, List.any_nil]
      next hop _ => simpa [hop] using walkAll_returns ih hargs (w.op name)
      next hop => simp [hop, List.any_nil]
      next hop _ => simpa [hop] using walkAll_returns ih hargs (w.op name)
      next child hop => simpa [hop] using ih child h.2.1 inQuant (w.op name)
      next hop hne =>
        rw [hop]
        exact ⟨fun _ => by split <;> simp_all, fun _ => returns_ok _⟩
      next f child hop =>
        have hbind := returns_bind_iff (iff_true_intro (@checkField_returns f inQuant (w.op name) h.2.1))
          fun u => ih child h.2.2.1 true u
        simpa [hop] using hbind
      next f child hop =>
        have hbind := returns_bind_iff (iff_true_intro (@checkField_returns f inQuant (w.op name) h.2.1))
          fun u => ih child h.2.2.1 true u
        simpa [hop] using hbind
      next f hop => simpa [hop] using checkField_returns h.2.1
      next f cmp num hop =>
        have hbind := returns_bind_iff (iff_true_intro (@checkField_returns f inQuant (w.op name) h.2.1))
          fun u => returns_bind_iff (@checkComparator_returns cmp u h.2.2.1)
            fun v => iff_true_intro (@checkBound_returns num v h.2.2.2.1)
        rw [hbind, hop]
        cases cmp <;> simp
      next f members hop =>
        have hbind := (@checkField_returns f inQuant (w.op name) h.2.1).bind
          fun u => @checkSet_returns members u h.2.2.1
        simpa [hop] using hbind
      next hop hne => simp [hop]
      next op f lit hop =>
        have hbind := (@checkField_returns f inQuant (w.op name) h.2.1).bind
          fun u => (@checkScalar_returns lit op u h.2.2.1).bind fun v => @checkOrdered_returns lit op v h.2.2.1
        simpa [hop] using hbind
      next hop _ _ _ _ _ _ _ _ _ =>
        rw [hop]
        exact ⟨fun _ => by split <;> simp_all, fun _ => returns_ok _⟩
    next hne =>
      have hother : stops (n + 1) node = false := by
        rw [stops]
        exact hne
      exact ⟨fun _ => hother, fun _ => (shown_returns h).bind fun text => returns_ok _⟩

namespace Form

variable {field : String} {op : CmpOp} {inQuant : Bool} {n : ℕ} {w w' : Findings}

/-- A field that can be named is noted. -/
theorem checkField_fits (h : FieldFits inQuant field) : checkField (.str field) inQuant w = .ok (w.field field) := by
  unfold FieldFits at h
  unfold checkField
  dsimp only
  split_ifs at h ⊢ with hdot
  · rw [hdot]
    rfl
  · rfl

/-- Scalars are the members of a set. -/
theorem checkMembers_scalars {ms : List Json} (h : ∀ m ∈ ms, isScalar m = true) : checkMembers ms w = .ok w := by
  induction ms with
  | nil => rfl
  | cons m ms ih =>
    obtain ⟨hm, hms⟩ := List.forall_mem_cons.mp h
    rw [checkMembers, if_pos hm, ih hms]

/-- The walk finds no errors in children, if it finds none in each. -/
theorem walkAll_valid {ps : List Form}
    (ih : ∀ p ∈ ps, ∀ {w w' : Findings}, walk n p.node inQuant w = .ok w' → w'.errors = w.errors)
    (h : (nodes ps).foldlM (fun w child => walk n child inQuant w) w = .ok w') : w'.errors = w.errors := by
  induction ps generalizing w with
  | nil => rw [← Except.ok.inj h]
  | cons p ps ihps =>
    obtain ⟨ihp, ihs⟩ := List.forall_mem_cons.mp ih
    rw [nodes, List.foldlM_cons] at h
    obtain ⟨u, hu, hrest⟩ := bind_eq_ok h
    exact (ihps ihs hrest).trans (ihp hu)

/-- The walk finds no errors in what is accepted. -/
theorem walk_valid (p : Form) : ∀ {inQuant : Bool} {n : ℕ} {w w' : Findings}, p.Valid inQuant →
    walk n p.node inQuant w = .ok w' → w'.errors = w.errors := by
  induction p using Form.induct with
  | compare op field lit =>
    rintro inQuant (_ | n) w w' hvalid h
    · cases h
    · have hop : PredicateOp.ofText op.text = some (.cmp op) := (PredicateOp.cmp op).ofText_text
      simp only [walk, walkStep, node, hop, checkField_fits hvalid.1, ok_bind, checkScalar, if_pos hvalid.2.1,
        checkOrdered, if_pos hvalid.2.2] at h
      rw [← Except.ok.inj h]
      rfl
  | mem field members =>
    rintro inQuant (_ | n) w w' hvalid h
    · cases h
    · have hop : PredicateOp.ofText "in" = some .mem := PredicateOp.mem.ofText_text
      obtain ⟨m, ms, rfl⟩ := List.exists_cons_of_ne_nil hvalid.2.1
      simp only [walk, walkStep, node, hop, checkField_fits hvalid.1, ok_bind, checkSet,
        checkMembers_scalars hvalid.2.2] at h
      rw [← Except.ok.inj h]
      rfl
  | quant every field p ih =>
    rintro inQuant (_ | n) w w' hvalid h
    · cases h
    · simp only [walk, walkStep, node, PredicateOp.ofText_text] at h
      have hchild : (checkField (.str field) inQuant (w.op (quantOp every).text) >>= walk n p.node true) = .ok w' := by
        cases every <;> exact h
      rw [checkField_fits hvalid.1, ok_bind] at hchild
      have herrors := ih hvalid.2 hchild
      exact herrors
  | present field =>
    rintro inQuant (_ | n) w w' hvalid h
    · cases h
    · have hop : PredicateOp.ofText "exists" = some .exist := PredicateOp.exist.ofText_text
      simp only [walk, walkStep, node, hop, checkField_fits hvalid] at h
      rw [← Except.ok.inj h]
      rfl
  | count field op bound =>
    rintro inQuant (_ | n) w w' hvalid h
    · cases h
    · have hop : PredicateOp.ofText "count" = some .count := PredicateOp.count.ofText_text
      simp only [walk, walkStep, node, hop, checkField_fits hvalid.1, ok_bind, checkComparator, cmpOf,
        CmpOp.ofText_text,
        pure, Except.pure, checkBound, if_pos hvalid.2] at h
      rw [← Except.ok.inj h]
      rfl
  | chain conj ps ih =>
    rintro inQuant (_ | n) w w' hvalid h
    · cases h
    · obtain ⟨p, ps, rfl⟩ := List.exists_cons_of_ne_nil hvalid.1
      simp only [walk, walkStep, node, PredicateOp.ofText_text] at h
      have hall : (nodes (p :: ps)).foldlM (fun w child => walk n child inQuant w) (w.op (chainOp conj).text) =
          .ok w' := by
        cases conj <;> exact h
      have herrors := walkAll_valid (fun q hq => ih q hq (allValid_iff.mp hvalid.2 q hq)) hall
      exact herrors
  | not p ih =>
    rintro inQuant (_ | n) w w' hvalid h
    · cases h
    · have hop : PredicateOp.ofText "not" = some .not := PredicateOp.not.ofText_text
      simp only [walk, walkStep, node, hop] at h
      have herrors := ih hvalid h
      exact herrors

/-- A path leads nowhere in an empty state. -/
theorem resolve_empty (h : FieldFits false field) : resolve (.dict []) (.str field) = .ok none := by
  have hdot : field ≠ "." := by
    rintro rfl
    cases h
  have hparts : pathParts field ≠ [] := by simp [pathParts, List.splitOn_ne_nil]
  unfold resolve
  split
  next heq => exact absurd (Json.str.inj heq) hdot
  next heq =>
    obtain ⟨part, parts, hcons⟩ := List.exists_cons_of_ne_nil hparts
    rw [← Json.str.inj heq, hcons]
    rfl
  next hne => exact absurd rfl (hne field)

/-- An accepted form has a value in the empty state. -/
theorem eval_empty (p : Form) : p.Valid false → ∃ b, p.eval (.dict []) = .ok b := by
  induction p using Form.induct with
  | compare op field lit => exact fun h => ⟨false, by rw [eval, evalLeaf, resolve_empty h.1]; rfl⟩
  | mem field members => exact fun h => ⟨false, by rw [eval, evalMem, resolve_empty h.1]; rfl⟩
  | quant every field p ih => exact fun h => ⟨false, by rw [eval, elements, resolve_empty h.1]; rfl⟩
  | present field => exact fun h => ⟨false, by rw [eval, evalExists, resolve_empty h]; rfl⟩
  | count field op bound => exact fun h => ⟨false, by rw [eval, evalCount, resolve_empty h.1]; rfl⟩
  | chain conj ps ih =>
    intro h
    have hvalid := allValid_iff.mp h.2
    rw [eval_chain]
    clear h
    induction ps with
    | nil => exact ⟨conj, rfl⟩
    | cons p ps ihps =>
      obtain ⟨ihp, ihs⟩ := List.forall_mem_cons.mp ih
      obtain ⟨hp, hps⟩ := List.forall_mem_cons.mp hvalid
      obtain ⟨b, hb⟩ := ihp hp
      rw [scan, hb, ok_bind]
      split_ifs
      · exact ihps ihs hps
      · exact ⟨_, rfl⟩
  | not p ih =>
    intro h
    obtain ⟨b, hb⟩ := ih h
    exact ⟨!b, by rw [eval, hb]; rfl⟩

end Form

section Entry

variable {sha256 : List Char → String} {n limit : ℕ} {node v : Json} {r : Validation} {p : Form}

/-- Where the literals of a node have texts, so have those of its form. -/
theorem Form.each_loaded {p : Form} (h : p.node.Loaded) : p.Each (fun _ => True) Json.Loaded := by
  induction p using Form.induct with
  | compare op field lit => exact ⟨trivial, h.2.2.1⟩
  | mem field members => exact ⟨trivial, Json.allLoaded_iff.mp h.2.2.1⟩
  | quant every field p ih => exact ⟨trivial, ih h.2.2.1⟩
  | present field => trivial
  | count field op bound => exact ⟨trivial, h.2.2.2.1⟩
  | chain conj ps ih =>
    have hnodes := Json.allLoaded_iff.mp h.2
    rw [Form.nodes_eq_map] at hnodes
    exact Form.allEach_iff.mpr fun p hp => ih p hp (hnodes _ (List.mem_map_of_mem hp))
  | not p ih => exact ih h.2.1

/-- What has been accepted is the node of a form, and its replay key is known. -/
theorem validateNode_spec (h : validateNode sha256 n node = .ok r) (hok : r.ok = true) :
    (∃ p : Form, p.node = node ∧ p.Valid false) ∧ Returns (replayKey sha256 n node) := by
  obtain ⟨w, hw, h⟩ := bind_eq_ok h
  split_ifs at h with herrors
  · cases h
    cases hok
  · obtain ⟨key, hkey, -⟩ := bind_eq_ok h
    exact ⟨(walk_spec node hw).2 (not_not.mp herrors), key, hkey⟩

/-- The replay key of a form is known if there is room for it. -/
theorem replayKey_returns (hvalid : p.Valid false) (hloaded : p.node.Loaded) (hroom : p.depth + 1 ≤ n) :
    Returns (replayKey sha256 n p.node) := by
  obtain ⟨n, rfl⟩ := Nat.exists_eq_add_of_le' (le_trans (Nat.le_add_left 1 _) hroom)
  exact (Form.canonicalJson_returns hvalid (Form.each_loaded hloaded) (Nat.le_of_add_le_add_right hroom)).bind
    fun text => returns_ok _

/-- Without it there is none. -/
theorem replayKey_recursion (hvalid : p.Valid false) (hloaded : p.node.Loaded) (hroom : ¬p.depth + 1 ≤ n) :
    replayKey sha256 n p.node = .error .recursion := by
  cases n with
  | zero => rfl
  | succ n =>
    have hcanonical := (Form.canonical_returnsIf p hvalid (Form.each_loaded hloaded) n).2 (by omega)
    rw [replayKey, canonicalJson, hcanonical]
    rfl

/-- The value of a form is that of the node, if there is room for it and for the replay key. -/
theorem evaluateTraced_value {kvs : List (String × Json)} (hvalid : p.Valid false)
    (hloaded : p.Each (fun _ => True) Json.Loaded) (hroom : p.depth + 2 ≤ n) :
    (evaluateTraced sha256 n p.node (.dict kvs) >>= fun result => .ok result.value) = p.eval (.dict kvs) := by
  obtain ⟨n, rfl⟩ := Nat.exists_eq_add_of_le' (le_trans (Nat.le_add_left 2 _) hroom)
  have hdepth : p.depth ≤ n := Nat.le_of_add_le_add_right hroom
  obtain ⟨text, htext⟩ := Form.canonicalJson_returns hvalid hloaded hdepth
  rw [evaluateTraced, replayKey, htext, Form.evalNode_of_depth hvalid (Nat.le_succ_of_le hdepth)]
  cases p.eval (.dict kvs) <;> rfl

variable (limit)

/-- The walk does not stop in a node, and if it is the node of an accepted form there is room to evaluate it, with one
more call than there is to validate it. -/
def Checkable (node : Json) : Prop :=
  stops (limit - 1) node = false ∧ ∀ p : Form, p.node = node → p.Valid false → p.depth + 3 ≤ limit

variable (sha256)

/-- Validation returns, and what it accepts is evaluated in every state. -/
def SoundGate (v : Json) : Prop :=
  ∃ r, validate sha256 limit v = .ok r ∧ (r.ok = true → ∀ kvs, Answers (evaluate sha256 limit v (.dict kvs)))

variable {sha256 limit}

/-- A checkable node is validated, and if it is accepted it is evaluated in every state. -/
theorem Checkable.sound (h : Checkable (n + 1) node) (hloaded : node.Loaded) : ∃ r, validateNode sha256 n node = .ok r ∧
    (r.ok = true → ∀ kvs, Answers (evaluateTraced sha256 n node (.dict kvs) >>= fun result => .ok result.value)) := by
  obtain ⟨hstops, hroom⟩ := h
  have hwalk : Returns (walk n node false {}) := (walk_returns node hloaded false {}).mpr hstops
  obtain ⟨w, hw⟩ := hwalk
  unfold validateNode
  rw [hw, ok_bind]
  split_ifs with herrors
  · exact ⟨_, rfl, fun hok => by cases hok⟩
  · obtain ⟨p, rfl, hvalid⟩ := (walk_spec node hw).2 (not_not.mp herrors)
    have hdepth := hroom p rfl hvalid
    obtain ⟨key, hkey⟩ := @replayKey_returns sha256 n p hvalid hloaded (by omega)
    refine ⟨_, by rw [hkey]; rfl, fun _ kvs => ?_⟩
    rw [evaluateTraced_value hvalid (Form.each_loaded hloaded) (by omega)]
    exact answers_of_valid p hvalid (.dict kvs)

/-- A node that is validated, and evaluated in the empty state if it is accepted, is checkable. -/
theorem checkable_of_sound (hloaded : node.Loaded) (h : validateNode sha256 n node = .ok r) (hanswers : r.ok = true →
    Answers (evaluateTraced sha256 n node (.dict []) >>= fun result => .ok result.value)) : Checkable (n + 1) node := by
  obtain ⟨w, hw, h⟩ := bind_eq_ok h
  refine ⟨(walk_returns node hloaded false {}).mp ⟨w, hw⟩, ?_⟩
  rintro p rfl hvalid
  rw [if_neg (by simpa using Form.walk_valid p hvalid hw)] at h
  obtain ⟨key, -, h⟩ := bind_eq_ok h
  obtain rfl := Except.ok.inj h
  by_contra hroom
  -- what is left of the stack suffices neither for the key nor, perhaps, for the value
  have hraised : (evaluateTraced sha256 n p.node (.dict []) >>= fun result => .ok result.value) =
      .error .recursion := by
    cases n with
    | zero => rfl
    | succ n =>
      rw [evaluateTraced, replayKey_recursion hvalid hloaded (by omega)]
      rcases p.evalNode_eval hvalid n (.dict []) with hvalue | ⟨-, hvalue⟩
      · obtain ⟨b, hb⟩ := p.eval_empty hvalid
        rw [hvalue, hb]
        rfl
      · rw [hvalue]
        rfl
  rcases hanswers rfl with ⟨b, hb⟩ | ⟨fault, hfault, -⟩
  · rw [hraised] at hb
    cases hb
  · rw [hraised] at hfault
    cases hfault

/-- The gate for a node. -/
theorem soundGate_node (h : node.Loaded) (hnode : ∀ text, node ≠ .str text) :
    SoundGate sha256 limit node ↔ Checkable limit node := by
  cases limit with
  | zero =>
    refine iff_of_false ?_ fun hcheckable => by cases hcheckable.1
    rintro ⟨r, hr, -⟩
    cases hr
  | succ n =>
    have hvalidate : validate sha256 (n + 1) node = validateNode sha256 n node := by
      rw [validate]
      exact hnode
    have hevaluate (state : Json) : evaluate sha256 (n + 1) node state =
        evaluateTraced sha256 n node state >>= fun result => .ok result.value := by
      rw [evaluate]
      · rfl
      · exact hnode
    simp only [SoundGate, hvalidate, hevaluate]
    constructor
    · rintro ⟨r, hr, hanswers⟩
      exact checkable_of_sound h hr fun hok => hanswers hok []
    · exact fun hcheckable => hcheckable.sound h

variable (limit)

/-- A text in which the parser comes neither to the end of the stack nor to an int that is too long, and in which it
reads a node that is checkable, if any; or such a node. -/
def CheckableText : Json → Prop
  | .str text => (∀ raised, parse (limit - 1) text = .error raised → ∃ message, raised = .syntaxError message) ∧
      ∀ node, parse (limit - 1) text = .ok node → Checkable limit node
  | node => Checkable limit node

variable {limit}

/-- The gate for a text. -/
theorem soundGate_str (text : String) : SoundGate sha256 limit (.str text) ↔ CheckableText limit (.str text) := by
  cases limit with
  | zero =>
    refine iff_of_false ?_ fun hcheckable => ?_
    · rintro ⟨r, hr, -⟩
      cases hr
    · obtain ⟨message, hmessage⟩ := hcheckable.1 .recursion rfl
      cases hmessage
  | succ n =>
    rw [CheckableText, Nat.add_sub_cancel]
    rcases parse_spec n text with ⟨node, hnode, p, rfl, hread⟩ | ⟨raised, hraised, hcases⟩
    · have hloaded : p.node.Loaded := Form.node_loaded (hread.imp (fun _ _ => trivial) fun _ h => h.loaded)
      simp only [SoundGate, validate, evaluate, hnode, ok_bind, reduceCtorEq, false_imp_iff, implies_true, true_and,
        Except.ok.injEq, forall_eq']
      constructor
      · rintro ⟨r, hr, hanswers⟩
        exact checkable_of_sound hloaded hr fun hok => hanswers hok []
      · exact fun hcheckable => hcheckable.sound hloaded
    · simp only [SoundGate, validate, hraised, Except.error.injEq, forall_eq', reduceCtorEq, false_imp_iff,
        implies_true,
        and_true]
      constructor
      · rintro ⟨r, hr, -⟩
        cases raised with
        | syntaxError message => exact ⟨message, rfl⟩
        | _ => cases hr
      · rintro ⟨message, rfl⟩
        exact ⟨_, rfl, fun hok => by cases hok⟩

/-- Validation is a sound gate for the values that it can check, and for no others. -/
theorem soundGate_iff (sha256 : List Char → String) (limit : ℕ) (v : Json) (h : v.Loaded) :
    SoundGate sha256 limit v ↔ CheckableText limit v := by
  cases v with
  | str text => exact soundGate_str text
  | _ => exact soundGate_node h (by simp)

end Entry

/-- One digit is not too many. -/
theorem loaded_one : (Json.int 1).Loaded := by
  change (Nat.toDigits 10 1).length ≤ maxStrDigits
  decide

/-- A comparison with a number, of which the hash is known. -/
theorem soundGate_iff_one :
    SoundGate (fun _ => "b84d7e174c40b2e1c0899adc2609e784f8c190b89cac25d196edc49dee2ed60d") 1000
        (.list [.str "==", .str "x", .int 1]) ↔
      CheckableText 1000 (.list [.str "==", .str "x", .int 1]) :=
  soundGate_iff _ _ _ ⟨trivial, trivial, loaded_one, trivial⟩

/-- For a `count` whose operator is a list, validation raises a `TypeError`, however much room there is. -/
theorem count_of_list : ¬∀ (sha256 : List Char → String) (v : Json), v.Loaded → ∃ limit, SoundGate sha256 limit v := by
  intro h
  obtain ⟨limit, r, hr, -⟩ := h (fun _ => "") (.list [.str "count", .str "x", .list [], .int 1])
    ⟨trivial, trivial, trivial, loaded_one, trivial⟩
  match limit with
  | 0 => cases hr
  | 1 => cases hr
  | n + 2 =>
    have hraises : validate (fun _ => "") (n + 2) (.list [.str "count", .str "x", .list [], .int 1]) =
        .error (.python (.typeError "unhashable type: 'list'")) := by
      with_unfolding_all rfl
    rw [hraises] at hr
    cases hr

end MyTeam.Legacy.Predicate

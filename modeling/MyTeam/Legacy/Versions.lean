import MyTeam.Async.Course
import MyTeam.Legacy.SharedKB
import Mathlib.Tactic.NormNum

/-!
# Versions of shared resources

A writer brings the version it has read, and the write is refused when the version has moved on.
The version is kept twice, with the resource and in the version control. A new resource starts from
one in the first and counts on in the second, and a deletion moves neither, so that a write with the
version from before it succeeds.
-/

namespace MyTeam.Legacy

open MyTeam.Py MyTeam.Async

namespace SharedKB

/-- `read`. -/
def read (kb : SharedKB) (path agent : String) : Except Exc SharedKBResource :=
  if !kb.permits agent path "read" then .error (writeError path s!"Permission denied: {agent} cannot read")
  else
    match (kb.resources path).filter SharedKBResource.present with
    | none => .error (writeError path "Resource not found")
    | some resource => .ok resource

end SharedKB

/-- A version that was read, and whether nothing has happened to the resource since. -/
structure Reading where
  path : String
  version : ℕ
  current : Bool

/-- The knowledge base in use, with the versions that have been read. -/
structure Library where
  kb : SharedKB
  readings : List Reading := []

/-- A call of the knowledge base, or a change of its rules and locks. -/
inductive LibraryCall
  | create (path agent : String) (content : Value) (tick : ℕ)
  | applyCommitted (path agent : String) (content expectedVersion : Value) (tick : ℕ)
  | delete (path agent : String)
  | read (path agent : String)
  | regulate (rules : List PermissionRule) (locks : String → Option LockInfo)

namespace Library

/-- The library after an operation on a path that took effect. -/
def moved (library : Library) (path : String) (kb : SharedKB) : Library :=
  ⟨kb, library.readings.map fun reading => if reading.path = path then { reading with current := false } else reading⟩

/-- The library after a call. A call that raises changes nothing, and neither does the deletion of what is not there. -/
def step (library : Library) : LibraryCall → Library
  | .create path agent content tick =>
    match library.kb.create path agent content tick with
    | .ok kb => library.moved path kb
    | .error _ => library
  | .applyCommitted path agent content expectedVersion tick =>
    match library.kb.applyCommitted path agent content expectedVersion tick with
    | .ok kb => library.moved path kb
    | .error _ => library
  | .delete path agent =>
    match library.kb.delete path agent with
    | .ok kb => if (library.kb.resources path).any SharedKBResource.present then library.moved path kb
        else { library with kb := kb }
    | .error _ => library
  | .read path agent =>
    match library.kb.read path agent with
    | .ok resource => { library with readings := ⟨path, resource.version, true⟩ :: library.readings }
    | .error _ => library
  | .regulate rules locks => { library with kb := { library.kb with rules := rules, locks := locks } }

/-- The two versions of every existing resource are the same. -/
def Synchronised (library : Library) : Prop :=
  ∀ path resource, library.kb.resources path = some resource → resource.present = true →
    resource.version = library.kb.getVersion path

/-- No version goes down by a call, and a write with a version that was read succeeds only if nothing has happened to
the resource since. -/
def Guarded (library : Library) (call : LibraryCall) : Prop :=
  (∀ path, library.kb.getVersion path ≤ (library.step call).kb.getVersion path) ∧
    match call with
    | .applyCommitted path agent content expectedVersion tick =>
      ∀ kb, library.kb.applyCommitted path agent content expectedVersion tick = .ok kb →
        ∀ reading ∈ library.readings, reading.path = path →
          SharedKB.sameVersion reading.version expectedVersion = true → reading.current = true
    | _ => True

/-- A call that does not make a resource again, and does not write what was deleted with a version that was read. -/
def Careful (library : Library) : LibraryCall → Prop
  | .create path agent content tick =>
    ∀ kb, library.kb.create path agent content tick = .ok kb → library.kb.getVersion path = 0
  | .applyCommitted path agent content expectedVersion tick =>
    ∀ kb, library.kb.applyCommitted path agent content expectedVersion tick = .ok kb →
      ∀ resource, library.kb.resources path = some resource → resource.present = false →
        ∀ reading ∈ library.readings, reading.path = path →
          SharedKB.sameVersion reading.version expectedVersion = false
  | _ => True

end Library

namespace SharedKB

variable {kb kb' : SharedKB} {path other agent : String} {content expectedVersion : Value} {tick version : ℕ}

/-- A creation that succeeds. -/
theorem create_eq_ok (done : kb.create path agent content tick = .ok kb') :
    kb' = kb.store path agent tick content 1 := by
  unfold create at done
  split at done
  · cases done
  · split at done
    · cases done
    · split at done
      · exact (Except.ok.inj done).symm
      · cases done

/-- A write that succeeds. -/
theorem applyCommitted_eq_ok (done : kb.applyCommitted path agent content expectedVersion tick = .ok kb') :
    kb' = kb.store path agent tick content (kb.getVersion path + 1) ∧
      sameVersion (kb.getVersion path) expectedVersion = true := by
  unfold applyCommitted at done
  split at done
  · cases done
  · split at done
    · cases done
    · split at done
      · cases done
      · split at done
        · cases done
        next hsame => exact ⟨(Except.ok.inj done).symm, by simpa using hsame⟩

/-- Two versions that are equal to what a writer expects. -/
theorem eq_of_sameVersion {first second : ℕ} (hfirst : sameVersion first expectedVersion = true)
    (hsecond : sameVersion second expectedVersion = true) : first = second := by
  unfold sameVersion at hfirst hsecond
  split at hfirst
  next q hq =>
    rw [hq] at hsecond
    exact Nat.cast_injective ((of_decide_eq_true hfirst).trans (of_decide_eq_true hsecond).symm)
  next => cases hfirst

/-- Storing counts the version of the path up. -/
theorem getVersion_store : (kb.store path agent tick content version).getVersion other =
    if other = path then kb.getVersion path + 1 else kb.getVersion other := by
  by_cases h : other = path
  · subst h
    simp [getVersion, store]
  · simp [getVersion, store, h]

/-- Storing changes the resource under the path only. -/
theorem resources_store : (kb.store path agent tick content version).resources other =
    if other = path then some ⟨content, version, agent, tick, true⟩ else kb.resources other := by
  by_cases h : other = path
  · subst h
    simp [store]
  · simp [store, h]

/-- A deletion that succeeds. -/
theorem delete_eq_ok (done : kb.delete path agent = .ok kb') :
    kb' = { kb with
      resources := Function.update kb.resources path ((kb.resources path).map fun resource =>
        if resource.present then { resource with present := false, content := .str "" } else resource) } := by
  unfold delete at done
  split at done
  · cases done
  · exact (Except.ok.inj done).symm

end SharedKB

namespace Library

variable {library : Library} {call : LibraryCall}

/-- What holds in every state of a careful course: the versions are the same, and of what was read, nothing is newer
than the version now, what is still current is of an existing resource, and what is not current is older than the
version now or of a deleted resource. -/
structure Kept (library : Library) : Prop where
  synchronised : library.Synchronised
  bounded : ∀ reading ∈ library.readings, reading.version ≤ library.kb.getVersion reading.path
  existing : ∀ reading ∈ library.readings, reading.current = true →
    ∃ resource, library.kb.resources reading.path = some resource ∧ resource.present = true
  outdated : ∀ reading ∈ library.readings, reading.current = false →
    reading.version = library.kb.getVersion reading.path →
      ∃ resource, library.kb.resources reading.path = some resource ∧ resource.present = false

/-- A reading after an operation. -/
theorem mem_moved {path : String} {kb : SharedKB} {reading : Reading}
    (hmem : reading ∈ (library.moved path kb).readings) :
    (∃ before ∈ library.readings, before.path = path ∧ reading = { before with current := false }) ∨
      reading ∈ library.readings ∧ reading.path ≠ path := by
  obtain ⟨before, hbefore, rfl⟩ := List.mem_map.mp hmem
  by_cases hpath : before.path = path
  · rw [if_pos hpath]
    exact Or.inl ⟨before, hbefore, hpath, rfl⟩
  · rw [if_neg hpath]
    exact Or.inr ⟨hbefore, hpath⟩

/-- Storing under the next version is kept. -/
theorem Kept.store (kept : library.Kept) {path agent : String} {tick version : ℕ} {content : Value}
    (next : version = library.kb.getVersion path + 1) :
    (library.moved path (library.kb.store path agent tick content version)).Kept := by
  constructor
  case synchronised =>
    intro other resource hresource hpresent
    change (library.kb.store path agent tick content version).resources other = some resource at hresource
    change resource.version = (library.kb.store path agent tick content version).getVersion other
    rw [SharedKB.resources_store] at hresource
    rw [SharedKB.getVersion_store]
    split at hresource
    next hpath =>
      rw [if_pos hpath]
      cases hresource
      exact next
    next hpath =>
      rw [if_neg hpath]
      exact kept.synchronised other resource hresource hpresent
  case bounded =>
    intro reading hmem
    change reading.version ≤ (library.kb.store path agent tick content version).getVersion reading.path
    rw [SharedKB.getVersion_store]
    rcases mem_moved hmem with ⟨before, hbefore, rfl, rfl⟩ | ⟨hreading, hpath⟩
    · have hversion := kept.bounded before hbefore
      simp only [if_true]
      omega
    · rw [if_neg hpath]
      exact kept.bounded reading hreading
  case existing =>
    intro reading hmem hcurrent
    change ∃ resource, (library.kb.store path agent tick content version).resources reading.path = some resource ∧ _
    rcases mem_moved hmem with ⟨before, hbefore, rfl, rfl⟩ | ⟨hreading, hpath⟩
    · cases hcurrent
    · rw [SharedKB.resources_store, if_neg hpath]
      exact kept.existing reading hreading hcurrent
  case outdated =>
    intro reading hmem hcurrent hversion
    change reading.version = (library.kb.store path agent tick content version).getVersion reading.path at hversion
    change ∃ resource, (library.kb.store path agent tick content version).resources reading.path = some resource ∧ _
    rw [SharedKB.getVersion_store] at hversion
    rcases mem_moved hmem with ⟨before, hbefore, rfl, rfl⟩ | ⟨hreading, hpath⟩
    · -- What was read is not newer than the version before.
      have hbounded := kept.bounded before hbefore
      simp only [if_true] at hversion
      omega
    · rw [if_neg hpath] at hversion
      rw [SharedKB.resources_store, if_neg hpath]
      exact kept.outdated reading hreading hcurrent hversion

/-- A library whose resources, versions and readings are those of a kept one is kept. -/
theorem Kept.congr (kept : library.Kept) {other : Library} (resources : other.kb.resources = library.kb.resources)
    (versions : other.kb.versions = library.kb.versions) (readings : other.readings = library.readings) :
    other.Kept := by
  have hversion (path : String) : other.kb.getVersion path = library.kb.getVersion path := by
    rw [SharedKB.getVersion, versions, SharedKB.getVersion]
  constructor
  case synchronised =>
    intro path resource hresource hpresent
    rw [resources] at hresource
    rw [hversion]
    exact kept.synchronised path resource hresource hpresent
  case bounded =>
    intro reading hmem
    rw [readings] at hmem
    rw [hversion]
    exact kept.bounded reading hmem
  case existing =>
    rw [readings, resources]
    exact kept.existing
  case outdated =>
    intro reading hmem
    rw [readings] at hmem
    rw [hversion, resources]
    exact kept.outdated reading hmem

/-- A deletion is kept, whether or not there is something to delete. -/
theorem Kept.delete (kept : library.Kept) {path agent : String} : (library.step (.delete path agent)).Kept := by
  rw [step]
  cases hdelete : library.kb.delete path agent with
  | error error => exact kept
  | ok kb =>
    have hkb := SharedKB.delete_eq_ok hdelete
    dsimp only
    split
    next hpresent =>
      obtain ⟨resource, hresource, hexists⟩ := (Option.any_eq_true _ _).mp hpresent
      have hresources (other : String) : kb.resources other =
          if other = path then some { resource with present := false, content := .str "" }
          else library.kb.resources other := by
        by_cases h : other = path
        · subst h
          simp [hkb, hresource, hexists]
        · simp [hkb, h]
      have hversion (other : String) : kb.getVersion other = library.kb.getVersion other := by
        rw [hkb]
        rfl
      constructor
      case synchronised =>
        intro other found hfound hpresent
        change kb.resources other = some found at hfound
        change found.version = kb.getVersion other
        rw [hresources] at hfound
        rw [hversion]
        split at hfound
        · cases hfound
          cases hpresent
        · exact kept.synchronised other found hfound hpresent
      case bounded =>
        intro reading hmem
        change reading.version ≤ kb.getVersion reading.path
        rw [hversion]
        rcases mem_moved hmem with ⟨before, hbefore, -, rfl⟩ | ⟨hreading, -⟩
        · exact kept.bounded before hbefore
        · exact kept.bounded reading hreading
      case existing =>
        intro reading hmem hcurrent
        change ∃ resource, kb.resources reading.path = some resource ∧ _
        rcases mem_moved hmem with ⟨before, hbefore, -, rfl⟩ | ⟨hreading, hpath⟩
        · cases hcurrent
        · rw [hresources, if_neg hpath]
          exact kept.existing reading hreading hcurrent
      case outdated =>
        intro reading hmem hcurrent hsame
        change reading.version = kb.getVersion reading.path at hsame
        change ∃ resource, kb.resources reading.path = some resource ∧ _
        rw [hversion] at hsame
        rw [hresources]
        rcases mem_moved hmem with ⟨before, hbefore, hpath, rfl⟩ | ⟨hreading, hpath⟩
        · rw [if_pos hpath]
          exact ⟨_, rfl, rfl⟩
        · rw [if_neg hpath]
          exact kept.outdated reading hreading hcurrent hsame
    next habsent =>
      refine kept.congr ?_ (by rw [hkb]) rfl
      funext other
      by_cases h : other = path
      · subst h
        rw [hkb]
        cases hresource : library.kb.resources other with
        | none => simp
        | some resource =>
          have hgone : resource.present = false := by simpa [hresource] using habsent
          simp [hgone]
      · simp [hkb, h]

/-- A reading is kept. -/
theorem Kept.read (kept : library.Kept) {path agent : String} : (library.step (.read path agent)).Kept := by
  rw [step]
  cases hread : library.kb.read path agent with
  | error error => exact kept
  | ok resource =>
    have hresource : library.kb.resources path = some resource ∧ resource.present = true := by
      unfold SharedKB.read at hread
      split at hread
      · cases hread
      · split at hread
        · cases hread
        next found hfound =>
          cases hread
          exact Option.filter_eq_some_iff.mp hfound
    have hversion := kept.synchronised path resource hresource.1 hresource.2
    constructor
    case synchronised => exact kept.synchronised
    case bounded =>
      intro reading hmem
      rcases List.mem_cons.mp hmem with rfl | hold
      · exact hversion.le
      · exact kept.bounded reading hold
    case existing =>
      intro reading hmem hcurrent
      rcases List.mem_cons.mp hmem with rfl | hold
      · exact ⟨resource, hresource⟩
      · exact kept.existing reading hold hcurrent
    case outdated =>
      intro reading hmem hcurrent
      rcases List.mem_cons.mp hmem with rfl | hold
      · cases hcurrent
      · exact kept.outdated reading hold hcurrent

/-- No call lowers a version. -/
theorem getVersion_le_step {path : String} : library.kb.getVersion path ≤ (library.step call).kb.getVersion path := by
  have hstore (other agent : String) (tick version : ℕ) (content : Value) :
      library.kb.getVersion path ≤ (library.kb.store other agent tick content version).getVersion path := by
    rw [SharedKB.getVersion_store]
    split
    next hpath => exact hpath ▸ Nat.le_succ _
    next => exact le_rfl
  cases call with
  | create other agent content tick =>
    rw [step]
    cases hcreate : library.kb.create other agent content tick with
    | error error => exact le_rfl
    | ok kb => exact SharedKB.create_eq_ok hcreate ▸ hstore _ _ _ _ _
  | applyCommitted other agent content expectedVersion tick =>
    rw [step]
    cases hwrite : library.kb.applyCommitted other agent content expectedVersion tick with
    | error error => exact le_rfl
    | ok kb => exact (SharedKB.applyCommitted_eq_ok hwrite).1 ▸ hstore _ _ _ _ _
  | delete other agent =>
    rw [step]
    cases hdelete : library.kb.delete other agent with
    | error error => exact le_rfl
    | ok kb =>
      have hversions : kb.versions = library.kb.versions := by rw [SharedKB.delete_eq_ok hdelete]
      have hsame : library.kb.getVersion path = kb.getVersion path := by
        rw [SharedKB.getVersion, SharedKB.getVersion, hversions]
      dsimp only
      split <;> exact hsame.le
  | read other agent =>
    rw [step]
    cases library.kb.read other agent <;> exact le_rfl
  | regulate rules locks => exact le_rfl

/-- A careful call is kept and guarded. -/
theorem Kept.step (kept : library.Kept) (careful : library.Careful call) :
    (library.step call).Kept ∧ library.Guarded call := by
  cases call with
  | create path agent content tick =>
    refine ⟨?_, fun _ => getVersion_le_step, trivial⟩
    rw [Library.step]
    cases hcreate : library.kb.create path agent content tick with
    | error error => exact kept
    | ok kb =>
      have hnew := careful kb hcreate
      dsimp only
      rw [SharedKB.create_eq_ok hcreate]
      exact kept.store (by rw [hnew])
  | applyCommitted path agent content expectedVersion tick =>
    refine ⟨?_, fun _ => getVersion_le_step, fun kb hwrite reading hmem hpath hsame => ?_⟩
    · rw [Library.step]
      cases hwrite : library.kb.applyCommitted path agent content expectedVersion tick with
      | error error => exact kept
      | ok kb =>
        dsimp only
        rw [(SharedKB.applyCommitted_eq_ok hwrite).1]
        exact kept.store rfl
    · by_contra hcurrent
      have hversion : reading.version = library.kb.getVersion reading.path := by
        rw [hpath]
        exact SharedKB.eq_of_sameVersion hsame (SharedKB.applyCommitted_eq_ok hwrite).2
      obtain ⟨resource, hresource, hdeleted⟩ := kept.outdated reading hmem (by simpa using hcurrent) hversion
      have hnone := careful kb hwrite resource (hpath ▸ hresource) hdeleted reading hmem hpath
      rw [hsame] at hnone
      cases hnone
  | delete path agent => exact ⟨kept.delete, fun _ => getVersion_le_step, trivial⟩
  | read path agent => exact ⟨kept.read, fun _ => getVersion_le_step, trivial⟩
  | regulate rules locks => exact ⟨kept.congr rfl rfl rfl, fun _ => getVersion_le_step, trivial⟩

/-- A guarded call that leaves the versions synchronised is careful. -/
theorem Kept.careful (kept : library.Kept) (guarded : library.Guarded call)
    (synchronised : (library.step call).Synchronised) : library.Careful call := by
  cases call with
  | create path agent content tick =>
    intro kb hcreate
    have hstep : library.step (.create path agent content tick) = library.moved path kb := by
      rw [Library.step, hcreate]
    rw [hstep, SharedKB.create_eq_ok hcreate] at synchronised
    have hversion := synchronised path _ (by simp [moved, SharedKB.resources_store]; rfl) rfl
    change 1 = (library.kb.store path agent tick content 1).getVersion path at hversion
    rw [SharedKB.getVersion_store, if_pos rfl] at hversion
    omega
  | applyCommitted path agent content expectedVersion tick =>
    intro kb hwrite resource hresource hdeleted reading hmem hpath
    by_contra hsame
    have hcurrent := guarded.2 kb hwrite reading hmem hpath (by simpa using hsame)
    obtain ⟨found, hfound, hpresent⟩ := kept.existing reading hmem hcurrent
    rw [hpath, hresource] at hfound
    cases hfound
    rw [hdeleted] at hpresent
    cases hpresent
  | _ => trivial

/-- A new knowledge base with rules and locks. -/
def opened (rules : List PermissionRule) (locks : String → Option LockInfo) : Library :=
  ⟨{ rules := rules, locks := locks }, []⟩

/-- Nothing has been stored or read in a new knowledge base. -/
theorem kept_opened {rules : List PermissionRule} {locks : String → Option LockInfo} : (opened rules locks).Kept := by
  constructor
  case synchronised =>
    intro path resource hresource
    cases hresource
  case bounded | existing | outdated =>
    intro reading hmem
    cases hmem

/-- Whatever the rules and locks, in a course of calls the versions of every existing resource are the same in every
state, no version goes down, and no write with a version that was read passes over something that happened since, if
and only if no path is created again and nothing deleted is written with a version that was read. -/
theorem no_lost_update_iff (rules : List PermissionRule) (locks : String → Option LockInfo) (calls : List LibraryCall) :
    Throughout step Synchronised Guarded (opened rules locks) calls ↔ Each step Careful (opened rules locks) calls :=
  throughout_iff_each kept_opened Kept.synchronised Kept.step Kept.careful

/-- Two agents with all rights on a project, and the lock of one of them on its plan. -/
def project : Library :=
  opened (["alice", "bob"].map fun agent => ⟨"project", agent, ["create", "read", "write", "delete"]⟩)
    fun path => if path = "project/plan" then some { ownerAgentId := "bob", lockToken := "" } else none

/-- The plan is created, read, and deleted, and written again with the version from before. -/
def resurrection : List LibraryCall :=
  [.create "project/plan" "alice" (.str "draft") 0, .read "project/plan" "bob", .delete "project/plan" "alice",
    .applyCommitted "project/plan" "bob" (.str "revision") (.int 1) 1]

/-- The write undoes the deletion, which came after the reading. -/
theorem deletion_lost : ¬Throughout step Synchronised Guarded project resurrection := by
  rintro ⟨-, -, -, -, -, -, -, hguarded, -⟩
  have hread : (⟨"project/plan", 1, false⟩ : Reading) ∈
      (((project.step (.create "project/plan" "alice" (.str "draft") 0)).step
        (.read "project/plan" "bob")).step (.delete "project/plan" "alice")).readings := List.mem_cons_self
  have hcurrent := hguarded.2 _ rfl _ hread rfl rfl
  cases hcurrent

end Library

end MyTeam.Legacy

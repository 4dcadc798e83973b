import Mathlib.Data.List.DropRight

/-!
# POSIX paths as strings

`os.path.join`, `os.path.dirname` and `os.path.normpath`, and the relation between a directory and what lies in it.
-/

namespace MyTeam.Py.Path

/-- `os.path.join` of two parts. -/
def join (head tail : String) : String :=
  if tail.toList.head? = some '/' then tail
  else if head.toList = [] ∨ head.toList.getLast? = some '/' then head ++ tail
  else head ++ "/" ++ tail

/-- `os.path.dirname`. -/
def dirname (path : String) : String :=
  let head := path.toList.rdropWhile (· ≠ '/')
  if head.all (· = '/') then .ofList head else .ofList (head.rdropWhile (· = '/'))

/-- `os.path.isabs`. -/
def isAbs (path : String) : Bool :=
  path.toList.head? = some '/'

/-- The parts of a path between slashes, empty ones included. -/
def parts (path : String) : List String :=
  (path.toList.splitOn '/').map String.ofList

/-- The loop of `normpath`, at a part. -/
def normStep (rooted : Bool) (comps : List String) (comp : String) : List String :=
  if comp = "" ∨ comp = "." then comps
  else if comp ≠ ".." ∨ (rooted = false ∧ comps = []) ∨ comps.getLast? = some ".." then comps ++ [comp]
  else comps.dropLast

/-- `os.path.normpath`. -/
def normpath (path : String) : String :=
  let slashes :=
    if ['/', '/'].isPrefixOf path.toList && !(['/', '/', '/'].isPrefixOf path.toList) then "//"
    else if isAbs path then "/"
    else ""
  let normal := slashes ++ "/".intercalate ((parts path).foldl (normStep (isAbs path)) [])
  if normal = "" then "." else normal

/-- A path is a directory or lies in it. -/
def under (dir path : String) : Prop :=
  dir = "/" ∨ path = dir ∨ dir.toList ++ ['/'] <+: path.toList

instance (dir path : String) : Decidable (under dir path) :=
  inferInstanceAs (Decidable (_ ∨ _ ∨ _))

/-- A name that may stand for one component of a path. -/
structure Component (name : String) : Prop where
  nonempty : name.toList ≠ []
  flat : '/' ∉ name.toList

variable {dir name other : String}

/-- A path that ends in a name, not in a slash. -/
def Ends (path : String) : Prop := path.toList ≠ [] ∧ path.toList.getLast? ≠ some '/'

/-- Joining a name to a path. -/
theorem join_flat (h : '/' ∉ name.toList) (hdir : Ends dir) :
    (join dir name).toList = dir.toList ++ '/' :: name.toList := by
  unfold join
  rw [if_neg fun hhead => h (List.mem_of_head? hhead), if_neg (not_or.mpr hdir)]
  simp

/-- A path ends in the component that was joined last. -/
theorem ends_join (h : Component name) : Ends (join dir name) := by
  have hlast : name.toList.getLast? ≠ some '/' := fun hl => h.flat (List.mem_of_getLast? hl)
  unfold join
  rw [if_neg fun hhead => h.flat (List.mem_of_head? hhead)]
  split <;> simp only [Ends, String.toList_append]
  · refine ⟨by simp [h.nonempty], ?_⟩
    rwa [List.getLast?_append_of_ne_nil _ h.nonempty]
  · refine ⟨by simp, ?_⟩
    rwa [List.getLast?_append_of_ne_nil _ h.nonempty]

/-- Dropping up to the last element that is to be kept. -/
theorem rdropWhile_append_cons {α : Type*} {p : α → Bool} {kept dropped : List α} {x : α}
    (hx : p x = false) (h : ∀ y ∈ dropped, p y = true) :
    (kept ++ x :: dropped).rdropWhile p = kept ++ [x] := by
  unfold List.rdropWhile
  rw [List.reverse_append, List.reverse_cons, List.append_assoc, List.dropWhile_append_of_pos (by simpa using h)]
  simp [hx]

/-- The directory of a joined path. -/
theorem dirname_join (h : Component name) (hdir : Ends dir) : dirname (join dir name) = dir := by
  obtain ⟨front, last, hfront⟩ : ∃ front last, dir.toList = front ++ [last] :=
    ⟨_, _, (List.dropLast_append_getLast hdir.1).symm⟩
  have hlast : last ≠ '/' := by simpa [hfront] using hdir.2
  have hhead : (join dir name).toList.rdropWhile (· ≠ '/') = dir.toList ++ ['/'] := by
    rw [join_flat h.flat hdir]
    refine rdropWhile_append_cons (by simp) fun c hc => ?_
    simpa using fun heq : c = '/' => h.flat (heq ▸ hc)
  unfold dirname
  simp only [hhead]
  rw [if_neg (by simp [hfront, hlast]), hfront, List.append_assoc, List.singleton_append,
    rdropWhile_append_cons (by simpa using hlast) (by simp), ← hfront, String.ofList_toList]

/-- A joined path lies in the directory. -/
theorem under_join (h : '/' ∉ name.toList) (hdir : Ends dir) : under dir (join dir name) := by
  refine Or.inr (Or.inr ?_)
  rw [join_flat h hdir]
  exact ⟨name.toList, by simp⟩

/-- An entry of a directory is not the directory. -/
theorem join_ne (h : '/' ∉ name.toList) (hdir : Ends dir) : join dir name ≠ dir := by
  intro heq
  have hlength := congrArg (fun path => path.toList.length) heq
  simp [join_flat h hdir] at hlength

/-- What lies in one entry of a directory is not another entry. -/
theorem not_under_join (h : '/' ∉ name.toList) (h' : '/' ∉ other.toList) (hne : name ≠ other)
    (hdir : Ends dir) : ¬ under (join dir name) (join dir other) := by
  have hname := join_flat h hdir
  have hother := join_flat h' hdir
  rintro (heq | heq | hin)
  · have hroot := congrArg String.toList heq
    rw [hname] at hroot
    have hlength := congrArg List.length hroot
    have hpos := List.length_pos_of_ne_nil hdir.1
    simp at hlength
    omega
  · have hsame := congrArg String.toList heq
    rw [hname, hother] at hsame
    exact hne (String.toList_injective (by simpa using hsame.symm))
  · rw [hname, hother, List.append_assoc, List.prefix_append_right_inj, List.cons_append,
      List.cons_prefix_cons] at hin
    exact h' (hin.2.subset (by simp))

end MyTeam.Py.Path

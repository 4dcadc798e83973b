import MyTeam.Legacy.TaskForest

/-!
# The end of tasks

`cancel_task` cancels a task with the tasks below it, and `check_task_timeouts` expires what is overdue.
Both go from task to task and stop at the first one whose status has no transition to the end that they
want: a submitted or reviewed task can neither be cancelled nor expire, and a draft cannot expire. The
tasks before it are left changed.
-/

namespace MyTeam.Legacy

open MyTeam.Py MyTeam.Async MyTeam.Order Relation

/-- An instant of a `datetime`, which may know its time zone or not. -/
structure Moment where
  time : ℤ
  aware : Bool
deriving DecidableEq

/-- `now > deadline`. Only two aware or two naive instants can be compared. -/
def Moment.passed (now deadline : Moment) : Except Exc Bool :=
  if now.aware = deadline.aware then .ok (deadline.time < now.time)
  else .error (.typeError "can't compare offset-naive and offset-aware datetimes")

namespace TaskTree

section Timeouts

-- what `Task` makes of the value of a deadline
variable (deadlineOf : Value → Option Moment)

/-- `task.deadline is not None and now > task.deadline`. -/
def past (now : Moment) (task : Task) : Except Exc Bool :=
  match deadlineOf task.deadline with
  | none => .ok false
  | some deadline => now.passed deadline

/-- `get_expired_tasks`, for the keys of the tasks in their order. -/
def expiredTasks (tree : TaskTree) (now : Moment) : List String → Except Exc (List Task)
  | [] => .ok []
  | id :: keys =>
    match tree.tasks id with
    | none => expiredTasks tree now keys
    | some task => do
      let overdue ← past deadlineOf now task
      let expired ← expiredTasks tree now keys
      return if overdue && !task.status.terminal then task :: expired else expired

/-- `expire_task`. -/
def expireTask (tree : TaskTree) (id : String) (tick : ℕ) : Except Exc TaskTree :=
  match tree.tasks id with
  | none => .error (.other s!"Task not found: '{id}'")
  | some task =>
    if task.status.terminal then .ok tree
    else if .expired ∉ task.status.transitions then
      .error (.valueError s!"Invalid task transition: {task.status.value} → expired")
    else .ok (tree.put (task.follow tick [.expired]) id)

/-- The loop of `check_task_timeouts`: the tree that it leaves, with the ids of the expired tasks. -/
def expireAll (tick : ℕ) : TaskTree → List Task → List String → TaskTree × Except Exc (List String)
  | tree, [], ids => (tree, .ok ids)
  | tree, task :: rest, ids =>
    match tree.expireTask task.taskId tick with
    | .error error => (tree, .error error)
    | .ok after => expireAll tick after rest (ids ++ [task.taskId])

/-- `check_task_timeouts`. -/
def checkTaskTimeouts (tree : TaskTree) (keys : List String) (now : Moment) (tick : ℕ) :
    TaskTree × Except Exc (List String) :=
  match tree.expiredTasks deadlineOf now keys with
  | .error error => (tree, .error error)
  | .ok expired => expireAll tick tree expired []

end Timeouts

/-- The keys of the tasks in some order. -/
structure Lists (tree : TaskTree) (keys : List String) : Prop where
  nodup : keys.Nodup
  complete : ∀ id, id ∈ keys ↔ tree.tasks id ≠ none

/-- A task whose deadline has passed and that has not come to an end. -/
def Overdue (deadlineOf : Value → Option Moment) (now : Moment) (task : Task) : Prop :=
  task.status.terminal = false ∧ ∃ deadline, deadlineOf task.deadline = some deadline ∧ now.passed deadline = .ok true

/-- After `cancel_task` all tasks below have come to an end and no other task has changed; and nothing has changed
if it raises. -/
def CancelsAll (tree : TaskTree) (id : String) (tick : ℕ) : Prop :=
  ∃ n after result, tree.cancelTask n id tick = some (after, result) ∧
    (∀ d, ReflTransGen (IsChild tree.parentOf) d id →
      ∀ task, after.tasks d = some task → task.status.terminal = true) ∧
    (∀ d, ¬ReflTransGen (IsChild tree.parentOf) d id → after.tasks d = tree.tasks d) ∧
    ∀ error, result = .error error → after.tasks = tree.tasks

/-- After `check_task_timeouts` all tasks that were overdue have expired; and nothing has changed if it raises. -/
def ExpiresAll (tree : TaskTree) (deadlineOf : Value → Option Moment) (keys : List String) (now : Moment) (tick : ℕ) :
    Prop :=
  ∀ after result, tree.checkTaskTimeouts deadlineOf keys now tick = (after, result) →
    (∀ d task, tree.tasks d = some task → Overdue deadlineOf now task →
      ∃ expired, after.tasks d = some expired ∧ expired.status = .expired) ∧
    ∀ error, result = .error error → after.tasks = tree.tasks

/-- No task below is submitted or in review. -/
def Cancellable (tree : TaskTree) (id : String) : Prop :=
  ∀ d, ReflTransGen (IsChild tree.parentOf) d id → ∀ task, tree.tasks d = some task →
    task.status ≠ .submitted ∧ task.status ≠ .reviewing

/-- No overdue task is a draft, submitted or in review, and if there is an overdue task then all deadlines can be
compared with the time. -/
structure Expirable (tree : TaskTree) (deadlineOf : Value → Option Moment) (now : Moment) : Prop where
  statuses : ∀ d task, tree.tasks d = some task → Overdue deadlineOf now task →
    task.status ≠ .draft ∧ task.status ≠ .submitted ∧ task.status ≠ .reviewing
  comparable : ∀ d task, tree.tasks d = some task → Overdue deadlineOf now task →
    ∀ other task' deadline, tree.tasks other = some task' → deadlineOf task'.deadline = some deadline →
      deadline.aware = now.aware

variable {tree after : TaskTree} {task : Task} {id c : String} {stack l keys : List String} {cancelled : List Task}

/-- Which statuses can be cancelled. -/
theorem mem_transitions_cancelled {status : TaskStatus} (h : status.terminal = false) :
    .cancelled ∈ status.transitions ↔ status ≠ .submitted ∧ status ≠ .reviewing := by
  cases status <;> simp_all [TaskStatus.terminal, TaskStatus.transitions]

/-- Which statuses can expire. -/
theorem mem_transitions_expired {status : TaskStatus} (h : status.terminal = false) :
    .expired ∈ status.transitions ↔ status ≠ .draft ∧ status ≠ .submitted ∧ status ≠ .reviewing := by
  cases status <;> simp_all [TaskStatus.terminal, TaskStatus.transitions]

/-- A status that has come to an end is not submitted and not in review. -/
theorem ne_of_terminal {status : TaskStatus} (h : status.terminal = true) :
    status ≠ .submitted ∧ status ≠ .reviewing := by
  cases status <;> simp_all [TaskStatus.terminal]

section Cancel

/-- What the loop of `cancel_task` does to the tasks that it visits, each of them once. -/
theorem cancelFrom_spec {tick : ℕ} (h : Visits tree.children stack l) (nodup : l.Nodup)
    (same : after.childrenMap = tree.childrenMap) (childless : ∀ x, after.tasks x = none → tree.children x = []) :
    ∃ done result, cancelFrom tick l.length after stack cancelled = some (done, result) ∧
      (∀ d ∉ l, done.tasks d = after.tasks d) ∧
      ((∀ d ∈ l, ∀ task, done.tasks d = some task → task.status.terminal = true) ↔
        ∀ d ∈ l, ∀ task, after.tasks d = some task → task.status ≠ .submitted ∧ task.status ≠ .reviewing) ∧
      ((∀ d ∈ l, ∀ task, after.tasks d = some task → task.status ≠ .submitted ∧ task.status ≠ .reviewing) →
        ∃ tasks, result = .ok tasks) := by
  have hchildren {after : TaskTree} (same : after.childrenMap = tree.childrenMap) (x : String) :
      after.children x = tree.children x := by
    unfold children
    rw [same]
  induction h generalizing after cancelled with
  | done => exact ⟨_, _, rfl, fun _ _ => rfl, by simp, fun _ => ⟨_, rfl⟩⟩
  | @pop a stack l _ ih =>
    obtain ⟨hnew, hrest⟩ := List.nodup_cons.mp nodup
    rw [List.length_cons, cancelFrom]
    simp only [List.forall_mem_cons]
    cases htask : after.tasks a with
    | none =>
      have hstack : (tree.children a).reverse ++ stack = stack := by rw [childless a htask]; rfl
      rw [hstack] at ih
      obtain ⟨done, result, hdone, hother, hiff, hok⟩ := @ih after cancelled hrest same childless
      refine ⟨done, result, hdone, fun d hd => hother d fun hmem => hd (List.mem_cons_of_mem _ hmem), ?_,
        fun h => hok h.2⟩
      rw [hother a hnew, htask, hiff]
      simp
    | some task =>
      dsimp only
      rw [hchildren same]
      split
      next hterminal =>
        obtain ⟨done, result, hdone, hother, hiff, hok⟩ := @ih after cancelled hrest same childless
        refine ⟨done, result, hdone, fun d hd => hother d fun hmem => hd (List.mem_cons_of_mem _ hmem), ?_,
          fun h => hok h.2⟩
        rw [hother a hnew, htask, hiff]
        simp [hterminal, ne_of_terminal hterminal]
      next hactive =>
        replace hactive := Bool.eq_false_iff.mpr hactive
        split
        next hstuck =>
          rw [mem_transitions_cancelled hactive] at hstuck
          refine ⟨after, _, rfl, fun _ _ => rfl, iff_of_false (fun h => ?_) (fun h => hstuck (h.1 task rfl)),
            fun h => absurd (h.1 task rfl) hstuck⟩
          have hend := h.1 task htask
          rw [hactive] at hend
          cases hend
        next hallowed =>
          rw [not_not, mem_transitions_cancelled hactive] at hallowed
          have hput {d : String} (hd : d ≠ a) :
              (after.put (task.follow tick [.cancelled]) a).tasks d = after.tasks d := Function.update_of_ne hd _ _
          obtain ⟨done, result, hdone, hother, hiff, hok⟩ :=
            @ih (after.put (task.follow tick [.cancelled]) a) (cancelled ++ [task.follow tick [.cancelled]]) hrest
              same fun x hx => childless x (by
                by_cases hxa : x = a
                · subst hxa
                  simp [put] at hx
                · exact (hput hxa).symm.trans hx)
          have hlater : (∀ d ∈ l, ∀ task', (after.put (task.follow tick [.cancelled]) a).tasks d = some task' →
              task'.status ≠ .submitted ∧ task'.status ≠ .reviewing) ↔
              ∀ d ∈ l, ∀ task', after.tasks d = some task' → task'.status ≠ .submitted ∧ task'.status ≠ .reviewing :=
            forall₂_congr fun d hd => by rw [hput fun hda => hnew (hda ▸ hd)]
          have hself : done.tasks a = some (task.follow tick [.cancelled]) :=
            (hother a hnew).trans (Function.update_self _ _ _)
          refine ⟨done, result, hdone, fun d hd => ?_, ?_, fun h => hok (hlater.mpr h.2)⟩
          · rw [List.mem_cons, not_or] at hd
            exact (hother d hd.2).trans (hput hd.1)
          · rw [hself, hiff, hlater]
            simp [Task.follow, TaskStatus.terminal, hallowed]

/-- More steps do not change the result. -/
theorem cancelFrom_mono {tick n m : ℕ} {r : TaskTree × Except Exc (List Task)} (hle : n ≤ m)
    (h : cancelFrom tick n after stack cancelled = some r) : cancelFrom tick m after stack cancelled = some r := by
  induction n generalizing m after stack cancelled with
  | zero =>
    cases stack with
    | nil =>
      cases m <;> exact h
    | cons a stack => cases h
  | succ n ih =>
    obtain ⟨k, rfl⟩ := Nat.exists_eq_add_one.mpr (Nat.zero_lt_of_lt hle)
    have hle' : n ≤ k := Nat.le_of_succ_le_succ hle
    cases stack with
    | nil => exact h
    | cons a stack =>
      rw [cancelFrom] at h ⊢
      cases htask : after.tasks a with
      | none =>
        simp only [htask] at h ⊢
        exact ih hle' h
      | some task =>
        simp only [htask] at h ⊢
        split
        next hterminal =>
          rw [if_pos hterminal] at h
          exact ih hle' h
        next hactive =>
          rw [if_neg hactive] at h
          split
          next hstuck => rwa [if_pos hstuck] at h
          next hallowed =>
            rw [if_neg hallowed] at h
            exact ih hle' h

end Cancel

section Expire

variable {deadlineOf : Value → Option Moment} {now : Moment}

/-- Comparing a deadline that can be compared. -/
theorem passed_ok {deadline : Moment} (h : deadline.aware = now.aware) :
    now.passed deadline = .ok (decide (deadline.time < now.time)) :=
  if_pos h.symm

/-- The comparison of the deadline of a task. -/
theorem past_spec : (∃ error, past deadlineOf now task = .error error ∧
      ∃ deadline, deadlineOf task.deadline = some deadline ∧ deadline.aware ≠ now.aware) ∨
    ∃ overdue, past deadlineOf now task = .ok overdue ∧
      ((overdue && !task.status.terminal) = true ↔ Overdue deadlineOf now task) ∧
      ∀ deadline, deadlineOf task.deadline = some deadline → deadline.aware = now.aware := by
  unfold Overdue past
  cases deadlineOf task.deadline with
  | none => exact Or.inr ⟨false, rfl, by simp, by simp⟩
  | some deadline =>
    by_cases haware : deadline.aware = now.aware
    · refine Or.inr ⟨decide (deadline.time < now.time), passed_ok haware, ?_, ?_⟩
      · simp [passed_ok haware, and_comm]
      · rintro _ ⟨⟩
        exact haware
    · exact Or.inl ⟨_, if_neg (Ne.symm haware), deadline, rfl, haware⟩

/-- What `get_expired_tasks` finds: a deadline that cannot be compared, or all overdue tasks. -/
theorem expiredTasks_spec (named : ∀ id task, tree.tasks id = some task → task.taskId = id) :
    (∃ error, tree.expiredTasks deadlineOf now keys = .error error ∧ ∃ id ∈ keys, ∃ task deadline,
      tree.tasks id = some task ∧ deadlineOf task.deadline = some deadline ∧ deadline.aware ≠ now.aware) ∨
    ∃ expired, tree.expiredTasks deadlineOf now keys = .ok expired ∧
      (∀ id ∈ keys, ∀ task deadline, tree.tasks id = some task → deadlineOf task.deadline = some deadline →
        deadline.aware = now.aware) ∧
      (expired.map Task.taskId).Sublist keys ∧
      ∀ task, task ∈ expired ↔
        task.taskId ∈ keys ∧ tree.tasks task.taskId = some task ∧ Overdue deadlineOf now task := by
  induction keys with
  | nil => exact Or.inr ⟨[], rfl, by simp, List.Sublist.refl _, by simp⟩
  | cons id keys ih =>
    rw [expiredTasks]
    cases htask : tree.tasks id with
    | none =>
      rcases ih with ⟨error, herror, other, hother, hbad⟩ | ⟨expired, hok, hcomparable, hsub, hmem⟩
      · exact Or.inl ⟨error, herror, other, List.mem_cons_of_mem _ hother, hbad⟩
      · refine Or.inr ⟨expired, hok, fun other hother task deadline hsome => ?_, hsub.cons _, fun task => ?_⟩
        · rcases List.mem_cons.mp hother with rfl | hother
          · rw [htask] at hsome
            cases hsome
          · exact hcomparable other hother task deadline hsome
        · rw [hmem, List.mem_cons]
          constructor
          · exact fun h => ⟨Or.inr h.1, h.2⟩
          · rintro ⟨hid | hin, hsome, hoverdue⟩
            · rw [hid, htask] at hsome
              cases hsome
            · exact ⟨hin, hsome, hoverdue⟩
    | some first =>
      have hname := named id first htask
      dsimp only
      rcases @past_spec first deadlineOf now with
        ⟨error, herror, deadline, hdeadline, haware⟩ | ⟨overdue, hoverdue, hiff, hcomparable⟩
      · exact Or.inl ⟨error, by rw [herror]; rfl, id, List.mem_cons_self, first, deadline, htask, hdeadline, haware⟩
      rcases ih with ⟨error, herror, other, hother, hbad⟩ | ⟨expired, hok, hlater, hsub, hmem⟩
      · exact Or.inl ⟨error, by rw [hoverdue, herror]; rfl, other, List.mem_cons_of_mem _ hother, hbad⟩
      refine Or.inr ⟨if overdue && !first.status.terminal then first :: expired else expired,
        by rw [hoverdue, hok]; rfl, fun other hother task deadline hsome => ?_, ?_, fun task => ?_⟩
      · rcases List.mem_cons.mp hother with rfl | hother
        · rw [htask] at hsome
          obtain rfl := Option.some_injective _ hsome
          exact hcomparable deadline
        · exact hlater other hother task deadline hsome
      · split
        · rw [List.map_cons, hname]
          exact hsub.cons_cons _
        · exact hsub.cons _
      · have hfirst : task.taskId = id ∧ tree.tasks task.taskId = some task ↔ task = first := by
          constructor
          · rintro ⟨hid, hsome⟩
            rw [hid, htask] at hsome
            exact (Option.some_injective _ hsome).symm
          · rintro rfl
            exact ⟨hname, hname.symm ▸ htask⟩
        split
        next hdue =>
          rw [List.mem_cons, List.mem_cons, hmem, or_and_right, ← and_assoc (a := task.taskId = id), hfirst]
          exact or_congr_left (iff_self_and.mpr fun h => h ▸ hiff.mp hdue)
        next hdue =>
          rw [List.mem_cons, hmem, or_and_right, ← and_assoc (a := task.taskId = id), hfirst]
          exact (or_iff_right fun h : task = first ∧ _ => hdue (hiff.mpr (h.1 ▸ h.2))).symm

/-- What the loop of `check_task_timeouts` does to the tasks that it goes through. -/
theorem expireAll_spec {tick : ℕ} {rest : List Task} {ids : List String} (nodup : (rest.map Task.taskId).Nodup)
    (present : ∀ task ∈ rest, after.tasks task.taskId = some task ∧ task.status.terminal = false) :
    ∃ done result, expireAll tick after rest ids = (done, result) ∧
      ((∀ task ∈ rest, ∃ expired, done.tasks task.taskId = some expired ∧ expired.status = .expired) ↔
        ∀ task ∈ rest, .expired ∈ task.status.transitions) ∧
      ((∀ task ∈ rest, .expired ∈ task.status.transitions) → ∃ ids, result = .ok ids) ∧
      ∀ d ∉ rest.map Task.taskId, done.tasks d = after.tasks d := by
  induction rest generalizing after ids with
  | nil => exact ⟨_, _, rfl, by simp, fun _ => ⟨_, rfl⟩, fun _ _ => rfl⟩
  | cons task rest ih =>
    obtain ⟨hnew, hrest⟩ := List.nodup_cons.mp nodup
    obtain ⟨⟨htask, hactive⟩, hlater⟩ := List.forall_mem_cons.mp present
    rw [expireAll, expireTask, htask]
    dsimp only
    rw [hactive, if_neg Bool.false_ne_true]
    simp only [List.forall_mem_cons]
    split
    next error hraised =>
      split at hraised
      next hstuck =>
        refine ⟨after, _, rfl, iff_of_false (fun h => ?_) (fun h => hstuck h.1), fun h => absurd h.1 hstuck,
          fun _ _ => rfl⟩
        obtain ⟨expired, hsome, hstatus⟩ := h.1
        obtain rfl := Option.some_injective _ (htask.symm.trans hsome)
        rw [hstatus] at hactive
        cases hactive
      next => cases hraised
    next put hput =>
      split at hput
      next => cases hput
      next hallowed =>
        obtain rfl := Except.ok.inj hput
        have hother {d : String} (hd : d ≠ task.taskId) :
            (after.put (task.follow tick [.expired]) task.taskId).tasks d = after.tasks d :=
              Function.update_of_ne hd _ _
        obtain ⟨done, result, hdone, hiff, hok, hframe⟩ :=
          @ih (after.put (task.follow tick [.expired]) task.taskId) (ids ++ [task.taskId]) hrest
            fun other hmem => ⟨(hother fun heq => hnew (heq ▸ List.mem_map_of_mem hmem)).trans (hlater other hmem).1,
              (hlater other hmem).2⟩
        refine ⟨done, result, hdone, ?_, fun h => hok h.2, fun d hd => ?_⟩
        · rw [hiff, hframe _ hnew]
          refine and_congr_left fun _ => iff_of_true ⟨_, Function.update_self _ _ _, rfl⟩ (not_not.mp hallowed)
        · rw [List.map_cons, List.mem_cons, not_or] at hd
          exact (hframe d hd.2).trans (hother hd.1)

end Expire

end TaskTree

namespace Grove

open TaskTree

variable {s : Grove} {id : String} {tick : ℕ} {keys : List String} {deadlineOf : Value → Option Moment} {now : Moment}

/-- A task that goes through transitions keeps its name. -/
theorem taskId_follow {task : Task} {way : List TaskStatus} : (task.follow tick way).taskId = task.taskId := by
  induction way generalizing task with
  | nil => rfl
  | cons target way ih => exact ih

/-- The forest stays when a task goes through transitions. -/
theorem Kept.put (kept : s.Kept) {task : Task} {way : List TaskStatus} (htask : s.tree.tasks id = some task) :
    Kept { s with tree := s.tree.put (task.follow tick way) id } := by
  refine ⟨kept.forest, fun c p hchild => ?_, fun other task' hother => ?_⟩
  · have htasks {d : String} (hd : s.tree.tasks d ≠ none) : (s.tree.put (task.follow tick way) id).tasks d ≠ none := by
      unfold TaskTree.put
      by_cases hsame : d = id
      · subst hsame
        simp
      · dsimp only
        rwa [Function.update_of_ne hsame]
    exact (kept.known c p hchild).imp htasks htasks
  · dsimp only [TaskTree.put] at hother
    by_cases hsame : other = id
    · subst hsame
      rw [Function.update_self] at hother
      obtain rfl := Option.some_injective _ hother
      exact taskId_follow.trans (kept.named other task htask)
    · rw [Function.update_of_ne hsame] at hother
      exact kept.named other task' hother

/-- Cancelling a task reaches all tasks below exactly if it can cancel them. -/
theorem Kept.cancelsAll_iff (kept : s.Kept) : s.tree.CancelsAll id tick ↔ s.tree.Cancellable id := by
  obtain ⟨l, hvisits, hnodup, hmem⟩ := kept.forest.exists_visits id
  have hchildless (x : String) (hx : s.tree.tasks x = none) : s.tree.children x = [] :=
    List.eq_nil_iff_forall_not_mem.mpr fun c hc => (kept.known c x (kept.forest.mem_children.mp hc)).2 hx
  obtain ⟨done, result, hdone, hother, hiff, hok⟩ :=
    @cancelFrom_spec _ _ _ _ [] tick hvisits hnodup rfl hchildless
  simp only [hmem] at hother hiff hok
  unfold CancelsAll Cancellable
  constructor
  · rintro ⟨n, after, result', hcancel, hends, -, -⟩
    have hsame : done = after := by
      rcases Nat.le_total n l.length with hle | hle
      · exact congrArg Prod.fst (Option.some_injective _ (hdone.symm.trans (cancelFrom_mono hle hcancel)))
      · exact congrArg Prod.fst (Option.some_injective _ ((cancelFrom_mono hle hdone).symm.trans hcancel))
    exact hiff.mp (hsame ▸ hends)
  · intro hcancellable
    obtain ⟨tasks, rfl⟩ := hok hcancellable
    exact ⟨l.length, done, .ok tasks, hdone, hiff.mpr hcancellable, hother, fun error h => by cases h⟩

/-- The overdue tasks expire exactly if they can. -/
theorem Kept.expiresAll_iff (kept : s.Kept) (lists : s.tree.Lists keys) :
    s.tree.ExpiresAll deadlineOf keys now tick ↔ s.tree.Expirable deadlineOf now := by
  have hkey {d : String} {task : Task} (h : s.tree.tasks d = some task) : d ∈ keys :=
    (lists.complete d).mpr (by rw [h]; exact Option.some_ne_none task)
  unfold ExpiresAll checkTaskTimeouts
  rcases @expiredTasks_spec _ keys deadlineOf now kept.named with
    ⟨error, herror, bad, -, task', deadline, hbad, hdeadline, haware⟩ | ⟨expired, hok, hcomparable, hsub, hmem⟩
  · -- a deadline cannot be compared, and nothing expires
    rw [herror]
    dsimp only
    constructor
    · intro h
      have hnone (d : String) (task : Task) (hd : s.tree.tasks d = some task) (hoverdue : Overdue deadlineOf now task) :
          False := by
        obtain ⟨expired, hsome, hstatus⟩ := (h _ _ rfl).1 d task hd hoverdue
        obtain rfl := Option.some_injective _ (hd.symm.trans hsome)
        rw [Overdue, hstatus] at hoverdue
        cases hoverdue.1
      exact ⟨fun d task hd hoverdue => (hnone d task hd hoverdue).elim,
        fun d task hd hoverdue => (hnone d task hd hoverdue).elim⟩
    · rintro hexpirable _ _ ⟨⟩
      refine ⟨fun d task hd hoverdue => absurd ?_ haware, fun _ _ => rfl⟩
      exact hexpirable.comparable d task hd hoverdue bad task' deadline hbad hdeadline
  · have hnodup : (expired.map Task.taskId).Nodup := hsub.nodup lists.nodup
    obtain ⟨done, result, hdone, hiff, hresult, -⟩ := @expireAll_spec _ tick _ [] hnodup fun task htask =>
      ⟨((hmem task).mp htask).2.1, ((hmem task).mp htask).2.2.1⟩
    have hexpired {d : String} {task : Task} (hd : s.tree.tasks d = some task)
        (hoverdue : Overdue deadlineOf now task) :
        task ∈ expired := by
      obtain rfl := kept.named d task hd
      exact (hmem task).mpr ⟨hkey hd, hd, hoverdue⟩
    rw [hok]
    dsimp only
    rw [hdone]
    constructor
    · intro h
      refine ⟨fun d task hd hoverdue => ?_, fun d task hd hoverdue other task' deadline hother hdeadline =>
        hcomparable other (hkey hother) task' deadline hother hdeadline⟩
      refine (mem_transitions_expired hoverdue.1).mp (hiff.mp (fun task htask => ?_) task (hexpired hd hoverdue))
      obtain ⟨-, hsome, hdue⟩ := (hmem task).mp htask
      exact (h _ _ rfl).1 task.taskId task hsome hdue
    · rintro hexpirable _ _ ⟨⟩
      have hall (task : Task) (htask : task ∈ expired) : .expired ∈ task.status.transitions := by
        obtain ⟨-, hsome, hdue⟩ := (hmem task).mp htask
        exact (mem_transitions_expired hdue.1).mpr (hexpirable.statuses task.taskId task hsome hdue)
      refine ⟨fun d task hd hoverdue => ?_, fun error herror => ?_⟩
      · obtain rfl := kept.named d task hd
        exact hiff.mpr hall task (hexpired hd hoverdue)
      · obtain ⟨ids, rfl⟩ := hresult hall
        cases herror

/-- Ends of tasks are total and atomic exactly if no task that is to be cancelled is submitted or in review, and no
overdue task is a draft, submitted or in review, while all deadlines can be compared if there are overdue tasks. -/
theorem cascades_iff (s : Grove) (deadlineOf : Value → Option Moment) (keys : List String) (id : String) (now : Moment)
    (tick : ℕ) (kept : s.Kept) (lists : s.tree.Lists keys) :
    s.tree.CancelsAll id tick ∧ s.tree.ExpiresAll deadlineOf keys now tick ↔
      s.tree.Cancellable id ∧ s.tree.Expirable deadlineOf now :=
  and_congr kept.cancelsAll_iff (kept.expiresAll_iff lists)

/-- A task with another below it that has been submitted if `submits`. -/
def chores (submits : Bool) : Grove :=
  let child := { chore "c" with derivedFrom := some "p" }
  let made := (({} : Grove).step (.create (chore "p"))).step (.create child)
  if submits then { made with tree := made.tree.put (child.follow 0 [.accepted, .inProgress, .submitted]) "c" }
    else made

/-- They form a forest. -/
theorem kept_chores (submits : Bool) : (chores submits).Kept := by
  have hmade := @Kept.step _ (.create { chore "c" with derivedFrom := some "p" })
    (@Kept.step _ (.create (chore "p")) kept_new trivial) trivial
  cases submits with
  | false => exact hmade
  | true => exact hmade.put rfl

/-- The ends of two assigned tasks, one below the other. -/
theorem cascades_iff_assigned : (chores false).tree.CancelsAll "p" 1 ∧
    (chores false).tree.ExpiresAll (fun _ => none) ["p", "c"] ⟨0, true⟩ 1 ↔
      (chores false).tree.Cancellable "p" ∧ (chores false).tree.Expirable (fun _ => none) ⟨0, true⟩ := by
  refine cascades_iff _ _ _ _ _ _ (kept_chores false) ⟨by decide, fun id => ?_⟩
  have htasks : (chores false).tree.tasks = Function.update (Function.update (fun _ => none) "p" (some (chore "p"))) "c"
      (some { chore "c" with derivedFrom := some "p" }) := rfl
  rw [htasks, Function.update_apply, Function.update_apply, List.mem_pair]
  split
  next h => simp [h]
  next h =>
    split
    next h' => simp [h']
    next h' => simp [h, h']

/-- The task below has been submitted, and cannot be cancelled with the one above. -/
theorem cancel_stuck : (chores true).Kept ∧ ¬(chores true).tree.CancelsAll "p" 1 := by
  refine ⟨kept_chores true, fun h => ?_⟩
  have hcancellable := (kept_chores true).cancelsAll_iff.mp h
  exact (hcancellable "c" (.single rfl) _ rfl).1 rfl

end Grove

end MyTeam.Legacy

import MyTeam.Async.Course
import MyTeam.Legacy.Transaction

/-!
# The outbox

An email is not sent by the commit but staged in the outbox, committed there, and delivered by a
dispatch, which comes back to an entry until its delivery succeeds or has failed too often. An
entry that is rolled back gives its key free, so that another one may take it.

The ids of entries are drawn at random and are taken never to repeat: they are numbered, and the
records are kept by their ids. A dispatch comes to every entry once, so that what its `deliver`
raises, if anything, is a function of the entry.
-/

namespace MyTeam.Legacy.Delivery

open MyTeam.Async

/-- `OutboxEntry`, with its key and what is known of its dispatch. -/
structure OutboxEntry extends MyTeam.Legacy.OutboxEntry where
  idempotencyKey : String
  attemptCount : ℕ := 0
  maxRetries : ℕ
  lastError : String := ""
  nextRetryTick : Option ℕ := none
  dispatchedAtTick : Option ℕ := none

/-- An entry that a dispatch delivers. -/
def OutboxEntry.Due (entry : OutboxEntry) (tick : ℕ) : Prop :=
  entry.status = .committed ∧ ∀ next ∈ entry.nextRetryTick, next ≤ tick

instance (entry : OutboxEntry) (tick : ℕ) : Decidable (entry.Due tick) :=
  inferInstanceAs (Decidable (_ ∧ _))

/-- An entry whose delivery was called, which raised an error or nothing. -/
def OutboxEntry.deliveryCalled (entry : OutboxEntry) (tick : ℕ) : Option String → OutboxEntry
  | none => { entry with status := .dispatched, dispatchedAtTick := some tick }
  | some error =>
    if entry.attemptCount + 1 > entry.maxRetries then
      { entry with attemptCount := entry.attemptCount + 1, lastError := error, status := .dead }
    else
      { entry with
        attemptCount := entry.attemptCount + 1
        lastError := error
        status := .committed
        nextRetryTick := some (tick + 1) }

/-- A call of the delivery leaves the key and the bound as they are. -/
theorem OutboxEntry.deliveryCalled_same {entry : OutboxEntry} {tick : ℕ} {raised : Option String} :
    (entry.deliveryCalled tick raised).idempotencyKey = entry.idempotencyKey ∧
      (entry.deliveryCalled tick raised).maxRetries = entry.maxRetries := by
  cases raised with
  | none => exact ⟨rfl, rfl⟩
  | some error =>
    rw [deliveryCalled]
    split <;> exact ⟨rfl, rfl⟩

/-- `Outbox`: the records by id, the ids of its entries, and the next id. -/
structure Outbox where
  entry : ℕ → OutboxEntry
  entries : List ℕ := []
  idempotencyKeys : Finset String := ∅
  maxRetries : ℕ
  nextId : ℕ := 0

/-- `_make_key`, with the digits drawn for it. -/
def makeKey (fromAgent subject taskId digits : String) : String :=
  s!"{fromAgent}:{subject}:{taskId}:{digits}"

namespace Outbox

variable (outbox : Outbox)

/-- Adds an entry. -/
def add (email : MyTeam.Legacy.OutboxEntry) (key : String) : Outbox :=
  { outbox with
    entry := Function.update outbox.entry outbox.nextId
      { email with status := .staged, idempotencyKey := key, maxRetries := outbox.maxRetries }
    entries := outbox.entries ++ [outbox.nextId]
    idempotencyKeys := insert key outbox.idempotencyKeys
    nextId := outbox.nextId + 1 }

/-- The key under which `stage` looks for an entry. -/
def stagedKey (email : MyTeam.Legacy.OutboxEntry) (idempotencyKey digits : String) : String :=
  if idempotencyKey = "" then makeKey email.fromAgent email.subject email.taskId digits else idempotencyKey

/-- `stage`, and the id of the entry it returns. -/
def stage (email : MyTeam.Legacy.OutboxEntry) (idempotencyKey digits : String) : Outbox × ℕ :=
  let key := stagedKey email idempotencyKey digits
  let existing := if key ∈ outbox.idempotencyKeys then
      outbox.entries.find? fun id => (outbox.entry id).idempotencyKey = key
    else none
  match existing with
  | some id => (outbox, id)
  | none => (outbox.add email key, outbox.nextId)

/-- An entry in a status. -/
def Holds (id : ℕ) (status : OutboxStatus) : Prop :=
  id ∈ outbox.entries ∧ (outbox.entry id).status = status

instance (id : ℕ) (status : OutboxStatus) : Decidable (outbox.Holds id status) :=
  inferInstanceAs (Decidable (_ ∧ _))

/-- `commit`. -/
def commit (id : ℕ) : Outbox :=
  if outbox.Holds id .staged then
    { outbox with entry := Function.update outbox.entry id { outbox.entry id with status := .committed } }
  else outbox

/-- Removes an entry in a status, and its key. -/
def removeIn (status : OutboxStatus) (id : ℕ) : Outbox :=
  if outbox.Holds id status then
    { outbox with
      entries := outbox.entries.erase id
      idempotencyKeys := outbox.idempotencyKeys.erase (outbox.entry id).idempotencyKey }
  else outbox

/-- `rollback`. -/
def rollback (id : ℕ) : Outbox :=
  outbox.removeIn .staged id

/-- `rollback_committed`. -/
def rollbackCommitted (id : ℕ) : Outbox :=
  outbox.removeIn .committed id

/-- The entries that a dispatch delivers. -/
def due (tick : ℕ) : List ℕ :=
  outbox.entries.filter fun id => (outbox.entry id).Due tick

/-- What `deliver` raises for an entry, which is in the status `DISPATCHING` meanwhile. -/
def raised (deliver : OutboxEntry → Option String) (id : ℕ) : Option String :=
  deliver { outbox.entry id with status := .dispatching }

/-- `dispatch`, with the entries it has dispatched and those that have failed. -/
def dispatch (deliver : OutboxEntry → Option String) (tick : ℕ) : Outbox × List ℕ × List ℕ :=
  ({ outbox with
      entry := fun id =>
        if id ∈ outbox.due tick then (outbox.entry id).deliveryCalled tick (outbox.raised deliver id)
        else outbox.entry id },
    (outbox.due tick).filter fun id => (outbox.raised deliver id).isNone,
    (outbox.due tick).filter fun id => (outbox.raised deliver id).isSome)

end Outbox

/-- A call of the outbox. -/
inductive Call
  | stage (email : MyTeam.Legacy.OutboxEntry) (idempotencyKey digits : String)
  | commit (id : ℕ)
  | dispatch (deliver : OutboxEntry → Option String) (tick : ℕ)
  | rollback (id : ℕ)
  | rollbackCommitted (id : ℕ)

/-- An outbox in use, with the entries that were committed and rolled back, and how often `deliver` was called for each
and succeeded. -/
structure Post where
  outbox : Outbox
  committed : Finset ℕ := ∅
  rolledBack : Finset ℕ := ∅
  deliverCalls : ℕ → ℕ := fun _ => 0
  deliveries : ℕ → ℕ := fun _ => 0

namespace Post

/-- The state after an entry in a status is rolled back. -/
def removed (post : Post) (status : OutboxStatus) (id : ℕ) : Post :=
  { post with
    outbox := post.outbox.removeIn status id
    rolledBack := if post.outbox.Holds id status then insert id post.rolledBack else post.rolledBack }

/-- The state after a call. -/
def step (post : Post) : Call → Post
  | .stage email idempotencyKey digits => { post with outbox := (post.outbox.stage email idempotencyKey digits).1 }
  | .commit id =>
    { post with
      outbox := post.outbox.commit id
      committed := if post.outbox.Holds id .staged then insert id post.committed else post.committed }
  | .dispatch deliver tick =>
    let (outbox, dispatched, _) := post.outbox.dispatch deliver tick
    { post with
      outbox := outbox
      deliverCalls := fun id => post.deliverCalls id + (post.outbox.due tick).count id
      deliveries := fun id => post.deliveries id + dispatched.count id }
  | .rollback id => post.removed .staged id
  | .rollbackCommitted id => post.removed .committed id

/-- Every entry is delivered at most once and `deliver` called for it no more often than may be, no two entries share
their key, no entry was delivered that was not committed or was rolled back, and every other one that was committed is
delivered, dead or waits. -/
structure Orderly (post : Post) : Prop where
  once : ∀ id, post.deliveries id ≤ 1
  keys : ∀ id ∈ post.outbox.entries, ∀ other ∈ post.outbox.entries,
    (post.outbox.entry id).idempotencyKey = (post.outbox.entry other).idempotencyKey → id = other
  undelivered : ∀ id, id ∉ post.committed ∨ id ∈ post.rolledBack → post.deliveries id = 0
  bounded : ∀ id, post.deliverCalls id ≤ post.outbox.maxRetries + 1
  settled : ∀ id ∈ post.committed, id ∉ post.rolledBack →
    post.outbox.Holds id .dispatched ∨ post.outbox.Holds id .dead ∨ post.outbox.Holds id .committed

/-- A call does not deliver, nor try to deliver, what was not committed or was rolled back. -/
def Silent (post : Post) (call : Call) : Prop :=
  ∀ id, id ∉ post.committed ∨ id ∈ post.rolledBack →
    (post.step call).deliverCalls id = post.deliverCalls id ∧ (post.step call).deliveries id = post.deliveries id

/-- What an entry's status says of whether it was committed and of its deliveries. -/
def Accounted (entry : OutboxEntry) (committed : Prop) (deliverCalls deliveries : ℕ) : Prop :=
  match entry.status with
  | .staged => ¬committed ∧ entry.attemptCount = 0 ∧ deliverCalls = 0 ∧ deliveries = 0
  | .committed => committed ∧ entry.attemptCount ≤ entry.maxRetries ∧ deliverCalls = entry.attemptCount ∧ deliveries = 0
  | .dispatched => committed ∧ deliverCalls ≤ entry.maxRetries + 1 ∧ deliveries = 1
  | .dead => committed ∧ deliverCalls ≤ entry.maxRetries + 1 ∧ deliveries = 0
  | .dispatching | .failed => False

/-- What holds after every call: the entries are accounted for, have their keys for themselves and their bound from the
outbox, and what is not among them was rolled back undelivered or never staged. -/
structure Kept (post : Post) : Prop where
  nodup : post.outbox.entries.Nodup
  numbered : ∀ id ∈ post.outbox.entries, id < post.outbox.nextId
  registered : ∀ id ∈ post.outbox.entries, (post.outbox.entry id).idempotencyKey ∈ post.outbox.idempotencyKeys
  keys : ∀ id ∈ post.outbox.entries, ∀ other ∈ post.outbox.entries,
    (post.outbox.entry id).idempotencyKey = (post.outbox.entry other).idempotencyKey → id = other
  retries : ∀ id ∈ post.outbox.entries, (post.outbox.entry id).maxRetries = post.outbox.maxRetries
  accounted : ∀ id ∈ post.outbox.entries,
    Accounted (post.outbox.entry id) (id ∈ post.committed) (post.deliverCalls id) (post.deliveries id)
  gone : ∀ id ∉ post.outbox.entries, post.deliverCalls id ≤ post.outbox.maxRetries + 1 ∧ post.deliveries id = 0 ∧
    (id ∈ post.committed → id ∈ post.rolledBack)
  rolledBack : ∀ id ∈ post.rolledBack, id ∉ post.outbox.entries ∧ id < post.outbox.nextId
  unused : ∀ id, post.outbox.nextId ≤ id → id ∉ post.committed ∧ post.deliverCalls id = 0

variable {post : Post} {id : ℕ}

/-- The status of an entry is one of those that a call leaves behind. -/
theorem Accounted.cases {entry : OutboxEntry} {committed : Prop} {deliverCalls deliveries : ℕ}
    (accounted : Accounted entry committed deliverCalls deliveries) :
    entry.status = .staged ∧ ¬committed ∧ deliverCalls = 0 ∧ deliveries = 0 ∨
      committed ∧ deliverCalls ≤ entry.maxRetries + 1 ∧
        (entry.status = .committed ∧ deliveries = 0 ∨ entry.status = .dispatched ∧ deliveries = 1 ∨
          entry.status = .dead ∧ deliveries = 0) := by
  unfold Accounted at accounted
  split at accounted
  next hstatus => exact Or.inl ⟨hstatus, accounted.1, accounted.2.2⟩
  next hstatus =>
    obtain ⟨hcommitted, hbound, hcalls, hdeliveries⟩ := accounted
    exact Or.inr ⟨hcommitted, by omega, Or.inl ⟨hstatus, hdeliveries⟩⟩
  next hstatus => exact Or.inr ⟨accounted.1, accounted.2.1, Or.inr (Or.inl ⟨hstatus, accounted.2.2⟩)⟩
  next hstatus => exact Or.inr ⟨accounted.1, accounted.2.1, Or.inr (Or.inr ⟨hstatus, accounted.2.2⟩)⟩
  next => exact accounted.elim
  next => exact accounted.elim

/-- What is kept is orderly. -/
theorem Kept.orderly (kept : post.Kept) : post.Orderly := by
  constructor
  case once =>
    intro id
    by_cases hmem : id ∈ post.outbox.entries
    · rcases (kept.accounted id hmem).cases with ⟨-, -, -, hnone⟩ | ⟨-, -, ⟨-, hnone⟩ | ⟨-, hone⟩ | ⟨-, hnone⟩⟩ <;>
        omega
    · have hnone := (kept.gone id hmem).2.1
      omega
  case keys => exact kept.keys
  case undelivered =>
    intro id hid
    by_cases hmem : id ∈ post.outbox.entries
    · rcases (kept.accounted id hmem).cases with ⟨-, -, -, hnone⟩ | ⟨hcommitted, -⟩
      · exact hnone
      · rcases hid with huncommitted | hrolledBack
        · exact absurd hcommitted huncommitted
        · exact absurd hmem (kept.rolledBack id hrolledBack).1
    · exact (kept.gone id hmem).2.1
  case bounded =>
    intro id
    by_cases hmem : id ∈ post.outbox.entries
    · rw [← kept.retries id hmem]
      rcases (kept.accounted id hmem).cases with ⟨-, -, hnone, -⟩ | ⟨-, hbound, -⟩
      · omega
      · exact hbound
    · exact (kept.gone id hmem).1
  case settled =>
    intro id hcommitted hrolledBack
    have hmem : id ∈ post.outbox.entries := by
      by_contra hgone
      exact hrolledBack ((kept.gone id hgone).2.2 hcommitted)
    rcases (kept.accounted id hmem).cases with ⟨-, huncommitted, -⟩ | ⟨-, -, ⟨hstatus, -⟩ | ⟨hstatus, -⟩ | ⟨hstatus, -⟩⟩
    · exact absurd hcommitted huncommitted
    · exact Or.inr (Or.inr ⟨hmem, hstatus⟩)
    · exact Or.inl ⟨hmem, hstatus⟩
    · exact Or.inr (Or.inl ⟨hmem, hstatus⟩)

/-- Entries that change, but for their keys and bounds, and are accounted for again. -/
theorem Kept.account (kept : post.Kept) {entry : ℕ → OutboxEntry} {committed : Finset ℕ}
    {deliverCalls deliveries : ℕ → ℕ}
    (same : ∀ id, (entry id).idempotencyKey = (post.outbox.entry id).idempotencyKey ∧
      (entry id).maxRetries = (post.outbox.entry id).maxRetries)
    (others : ∀ id ∉ post.outbox.entries, (id ∈ committed ↔ id ∈ post.committed) ∧
      deliverCalls id = post.deliverCalls id ∧ deliveries id = post.deliveries id)
    (accounted : ∀ id ∈ post.outbox.entries, Accounted (entry id) (id ∈ committed) (deliverCalls id) (deliveries id)) :
    Kept { post with
      outbox := { post.outbox with entry := entry }
      committed := committed
      deliverCalls := deliverCalls
      deliveries := deliveries } := by
  constructor
  case nodup => exact kept.nodup
  case numbered => exact kept.numbered
  case registered => exact fun id hmem => (same id).1 ▸ kept.registered id hmem
  case keys =>
    intro id hmem other hother hkey
    dsimp only at hkey
    rw [(same id).1, (same other).1] at hkey
    exact kept.keys id hmem other hother hkey
  case retries => exact fun id hmem => (same id).2.trans (kept.retries id hmem)
  case accounted => exact accounted
  case gone =>
    intro id hgone
    obtain ⟨hcommitted, hcalls, hdeliveries⟩ := others id hgone
    dsimp only
    rw [hcommitted, hcalls, hdeliveries]
    exact kept.gone id hgone
  case rolledBack => exact kept.rolledBack
  case unused =>
    intro id hid
    have hgone : id ∉ post.outbox.entries := fun hmem => absurd (kept.numbered id hmem) (Nat.not_lt.mpr hid)
    obtain ⟨hcommitted, hcalls, -⟩ := others id hgone
    dsimp only
    rw [hcommitted, hcalls]
    exact kept.unused id hid

/-- A new entry under a key that no entry has. -/
theorem Kept.add (kept : post.Kept) {email : MyTeam.Legacy.OutboxEntry} {key : String}
    (fresh : ∀ id ∈ post.outbox.entries, (post.outbox.entry id).idempotencyKey ≠ key) :
    Kept { post with outbox := post.outbox.add email key } := by
  have hnew : post.outbox.nextId ∉ post.outbox.entries := fun hmem => (kept.numbered _ hmem).false
  have hentry (id : ℕ) (hmem : id ∈ post.outbox.entries) :
      (post.outbox.add email key).entry id = post.outbox.entry id := by
    have hne : id ≠ post.outbox.nextId := fun h => hnew (h ▸ hmem)
    exact Function.update_of_ne hne _ _
  have hadded : (post.outbox.add email key).entry post.outbox.nextId =
      { email with status := .staged, idempotencyKey := key, maxRetries := post.outbox.maxRetries } :=
    Function.update_self _ _ _
  have hmem_add {id : ℕ} (hmem : id ∈ (post.outbox.add email key).entries) :
      id ∈ post.outbox.entries ∨ id = post.outbox.nextId :=
    (List.mem_append.mp hmem).imp_right List.mem_singleton.mp
  obtain ⟨huncommitted, hcalls⟩ := kept.unused post.outbox.nextId le_rfl
  constructor
  case nodup =>
    refine kept.nodup.append (List.nodup_singleton _) ?_
    rw [List.disjoint_singleton]
    exact hnew
  case numbered =>
    intro id hmem
    rcases hmem_add hmem with hold | rfl
    · exact Nat.lt_succ_of_lt (kept.numbered id hold)
    · exact Nat.lt_succ_self _
  case registered =>
    intro id hmem
    rcases hmem_add hmem with hold | rfl
    · dsimp only
      rw [hentry id hold]
      exact Finset.mem_insert_of_mem (kept.registered id hold)
    · dsimp only
      rw [hadded]
      exact Finset.mem_insert_self _ _
  case keys =>
    intro id hmem other hother hkey
    dsimp only at hkey
    rcases hmem_add hmem with hold | rfl
    · rcases hmem_add hother with hotherOld | rfl
      · rw [hentry id hold, hentry other hotherOld] at hkey
        exact kept.keys id hold other hotherOld hkey
      · rw [hentry id hold, hadded] at hkey
        exact absurd hkey (fresh id hold)
    · rcases hmem_add hother with hotherOld | rfl
      · rw [hadded, hentry other hotherOld] at hkey
        exact absurd hkey.symm (fresh other hotherOld)
      · rfl
  case retries =>
    intro id hmem
    dsimp only
    rcases hmem_add hmem with hold | rfl
    · rw [hentry id hold]
      exact kept.retries id hold
    · rw [hadded]
      rfl
  case accounted =>
    intro id hmem
    dsimp only
    rcases hmem_add hmem with hold | rfl
    · rw [hentry id hold]
      exact kept.accounted id hold
    · rw [hadded]
      exact ⟨huncommitted, rfl, hcalls, (kept.gone _ hnew).2.1⟩
  case gone => exact fun id hgone => kept.gone id fun hmem => hgone (List.mem_append_left _ hmem)
  case rolledBack =>
    intro id hmem
    obtain ⟨hgone, hlt⟩ := kept.rolledBack id hmem
    refine ⟨fun hmem => ?_, Nat.lt_succ_of_lt hlt⟩
    rcases hmem_add hmem with hold | rfl
    · exact hgone hold
    · exact hlt.false
  case unused => exact fun id hid => kept.unused id ((Nat.le_succ _).trans hid)

/-- Staging an email is kept. -/
theorem Kept.stage (kept : post.Kept) {email : MyTeam.Legacy.OutboxEntry} {idempotencyKey digits : String} :
    (post.step (.stage email idempotencyKey digits)).Kept := by
  rw [step, Outbox.stage]
  split
  next => exact kept
  next hnone =>
    refine kept.add fun id hmem hkey => ?_
    have hregistered := kept.registered id hmem
    rw [hkey] at hregistered
    rw [if_pos hregistered] at hnone
    exact absurd (decide_eq_true hkey) (List.find?_eq_none.mp hnone id hmem)

/-- A commit is kept. -/
theorem Kept.commit (kept : post.Kept) : (post.step (.commit id)).Kept := by
  rw [step, Outbox.commit]
  by_cases hstaged : post.outbox.Holds id .staged
  · simp only [if_pos hstaged]
    refine kept.account ?_ ?_ ?_
    · intro other
      by_cases hsame : other = id
      · subst hsame
        simp
      · simp [Function.update_of_ne hsame]
    · intro other hother
      have hne : other ≠ id := fun h => hother (h ▸ hstaged.1)
      simp [hne]
    · intro other hother
      by_cases hsame : other = id
      · subst hsame
        have haccounted := kept.accounted other hother
        rw [Accounted, hstaged.2] at haccounted
        rw [Function.update_self]
        exact ⟨Finset.mem_insert_self _ _, by simp [haccounted], by simp [haccounted], haccounted.2.2.2⟩
      · rw [Function.update_of_ne hsame]
        simpa [hsame] using kept.accounted other hother
  · simp only [if_neg hstaged]
    exact kept

/-- A rollback of an entry that has not been delivered is kept. -/
theorem Kept.removed (kept : post.Kept) {status : OutboxStatus} (undelivered : status = .staged ∨ status = .committed) :
    (post.removed status id).Kept := by
  rw [Post.removed, Outbox.removeIn]
  by_cases hholds : post.outbox.Holds id status
  · have hmem_erase {other : ℕ} : other ∈ post.outbox.entries.erase id ↔ other ≠ id ∧ other ∈ post.outbox.entries :=
      kept.nodup.mem_erase_iff
    simp only [if_pos hholds]
    constructor
    case nodup => exact kept.nodup.erase id
    case numbered => exact fun other hmem => kept.numbered other (hmem_erase.mp hmem).2
    case registered =>
      intro other hmem
      obtain ⟨hne, hold⟩ := hmem_erase.mp hmem
      exact Finset.mem_erase.mpr ⟨fun hkey => hne (kept.keys other hold id hholds.1 hkey), kept.registered other hold⟩
    case keys =>
      exact fun other hmem another hanother =>
        kept.keys other (hmem_erase.mp hmem).2 another (hmem_erase.mp hanother).2
    case retries => exact fun other hmem => kept.retries other (hmem_erase.mp hmem).2
    case accounted => exact fun other hmem => kept.accounted other (hmem_erase.mp hmem).2
    case gone =>
      intro other hgone
      by_cases hsame : other = id
      · subst hsame
        refine ⟨kept.orderly.bounded other, ?_, fun _ => Finset.mem_insert_self _ _⟩
        have hstatus := hholds.2
        rcases (kept.accounted other hholds.1).cases with ⟨-, -, -, hnone⟩ |
          ⟨-, -, ⟨-, hnone⟩ | ⟨hother, -⟩ | ⟨-, hnone⟩⟩
        · exact hnone
        · exact hnone
        · rw [hother] at hstatus
          subst hstatus
          simp at undelivered
        · exact hnone
      · obtain ⟨hbound, hnone, hrolledBack⟩ := kept.gone other fun hmem => hgone (hmem_erase.mpr ⟨hsame, hmem⟩)
        exact ⟨hbound, hnone, fun hcommitted => Finset.mem_insert_of_mem (hrolledBack hcommitted)⟩
    case rolledBack =>
      intro other hmem
      rcases Finset.mem_insert.mp hmem with rfl | hold
      · exact ⟨fun hmem => (hmem_erase.mp hmem).1 rfl, kept.numbered other hholds.1⟩
      · obtain ⟨hgone, hlt⟩ := kept.rolledBack other hold
        exact ⟨fun hmem => hgone (hmem_erase.mp hmem).2, hlt⟩
    case unused => exact kept.unused
  · simp only [if_neg hholds]
    exact kept

/-- An entry whose delivery was called is accounted for. -/
theorem Accounted.deliveryCalled {entry : OutboxEntry} {committed : Prop} {deliverCalls deliveries : ℕ}
    (accounted : Accounted entry committed deliverCalls deliveries) (hstatus : entry.status = .committed) (tick : ℕ)
    (raised : Option String) :
    Accounted (entry.deliveryCalled tick raised) committed (deliverCalls + 1)
      (deliveries + if raised.isNone then 1 else 0) := by
  rw [Accounted, hstatus] at accounted
  obtain ⟨hcommitted, hbound, hcalls, hdeliveries⟩ := accounted
  cases raised with
  | none =>
    have hwithin : deliverCalls + 1 ≤ entry.maxRetries + 1 := by omega
    exact ⟨hcommitted, hwithin, by simp [hdeliveries]⟩
  | some error =>
    rw [OutboxEntry.deliveryCalled]
    split
    next =>
      have hwithin : deliverCalls + 1 ≤ entry.maxRetries + 1 := by omega
      exact ⟨hcommitted, hwithin, by simp [hdeliveries]⟩
    next hretry =>
      have hwithin : entry.attemptCount + 1 ≤ entry.maxRetries := Nat.not_lt.mp hretry
      have hcalled : deliverCalls + 1 = entry.attemptCount + 1 := by omega
      exact ⟨hcommitted, hwithin, hcalled, by simp [hdeliveries]⟩

/-- A dispatch is kept. -/
theorem Kept.dispatch (kept : post.Kept) {deliver : OutboxEntry → Option String} {tick : ℕ} :
    (post.step (.dispatch deliver tick)).Kept := by
  have hdue {id : ℕ} : id ∈ post.outbox.due tick ↔ id ∈ post.outbox.entries ∧ (post.outbox.entry id).Due tick := by
    simp [Outbox.due]
  have hnodup : (post.outbox.due tick).Nodup := kept.nodup.filter _
  refine kept.account ?_ ?_ ?_
  · intro id
    split
    · exact OutboxEntry.deliveryCalled_same
    · exact ⟨rfl, rfl⟩
  · intro id hgone
    have hnot : id ∉ post.outbox.due tick := fun hmem => hgone (hdue.mp hmem).1
    refine ⟨Iff.rfl, ?_, ?_⟩
    · rw [List.count_eq_zero_of_not_mem hnot, Nat.add_zero]
    · rw [List.count_eq_zero_of_not_mem fun hmem => hnot (List.mem_filter.mp hmem).1, Nat.add_zero]
  · intro id hmem
    have haccounted := kept.accounted id hmem
    split
    next hnow =>
      have hcount : ((post.outbox.due tick).filter fun id => (post.outbox.raised deliver id).isNone).count id =
          if (post.outbox.raised deliver id).isNone then 1 else 0 := by
        rw [(hnodup.filter _).count]
        simp [hnow]
      rw [hnodup.count, if_pos hnow, hcount]
      exact haccounted.deliveryCalled (hdue.mp hnow).2.1 tick _
    next hlater =>
      rw [List.count_eq_zero_of_not_mem hlater,
        List.count_eq_zero_of_not_mem fun hmem => hlater (List.mem_filter.mp hmem).1]
      exact haccounted

/-- Every call is kept. -/
theorem Kept.step (kept : post.Kept) (call : Call) : (post.step call).Kept := by
  cases call with
  | stage email idempotencyKey digits => exact kept.stage
  | commit id => exact kept.commit
  | dispatch deliver tick => exact kept.dispatch
  | rollback id => exact kept.removed (Or.inl rfl)
  | rollbackCommitted id => exact kept.removed (Or.inr rfl)

/-- Only entries that were committed and not rolled back are due. -/
theorem Kept.not_due (kept : post.Kept) (hid : id ∉ post.committed ∨ id ∈ post.rolledBack) (tick : ℕ) :
    id ∉ post.outbox.due tick := by
  intro hdue
  obtain ⟨hmem, hdue⟩ := List.mem_filter.mp hdue
  have hstatus := (of_decide_eq_true hdue).1
  have haccounted := kept.accounted id hmem
  rw [Accounted, hstatus] at haccounted
  rcases hid with huncommitted | hrolledBack
  · exact huncommitted haccounted.1
  · exact (kept.rolledBack id hrolledBack).1 hmem

/-- No call delivers what was not committed or was rolled back. -/
theorem Kept.silent (kept : post.Kept) (call : Call) : post.Silent call := by
  intro id hid
  cases call with
  | dispatch deliver tick =>
    have hnot := kept.not_due hid tick
    constructor
    · exact congrArg _ (List.count_eq_zero_of_not_mem hnot)
    · exact congrArg _ (List.count_eq_zero_of_not_mem fun hmem => hnot (List.mem_filter.mp hmem).1)
  | _ => exact ⟨rfl, rfl⟩

/-- A new outbox. -/
def opened (maxRetries : ℕ) (entry : ℕ → OutboxEntry) : Post where
  outbox := { entry := entry, maxRetries := maxRetries }

/-- A new outbox is empty. -/
theorem kept_opened {maxRetries : ℕ} {entry : ℕ → OutboxEntry} : (opened maxRetries entry).Kept := by
  constructor
  case nodup => exact List.nodup_nil
  case gone => exact fun id _ => ⟨Nat.zero_le _, rfl, fun hmem => absurd hmem (Finset.notMem_empty id)⟩
  case rolledBack => exact fun id hmem => absurd hmem (Finset.notMem_empty id)
  case unused => exact fun id _ => ⟨Finset.notMem_empty id, rfl⟩
  all_goals exact fun id hmem => nomatch hmem

/-- In every course of calls, whatever deliveries fail, every entry is delivered at most once and tried at most once
more than the retries allow, no two entries share a key, what was not committed or was rolled back is neither
delivered nor tried, and what was committed and not rolled back is delivered, dead or waits. -/
theorem orderly_of_calls (maxRetries : ℕ) (entry : ℕ → OutboxEntry) (calls : List Call) :
    Throughout step Orderly Silent (opened maxRetries entry) calls :=
  .of_all kept_opened Kept.orderly fun kept => ⟨kept.step _, kept.silent _⟩

end Post

end MyTeam.Legacy.Delivery

import MyTeam.Legacy.Ingress
import MyTeam.Legacy.MemoryStore
import MyTeam.Legacy.Tick

/-!
# Save and load

A simulation is saved component by component, and loaded into a newly constructed one. The
constructor hands its ingress buffer to the human control and its private store to the tool
handlers and to the context compiler; loading then gives the simulation a new buffer and a new
store, which the others do not get. Some components are not saved at all, and some counters are
computed anew from what was.

Objects are references into lists of buffers and stores. Models are saved and validated field by
field, and what the database returns is what was stored.
-/

namespace MyTeam.Legacy

open MyTeam.Py

/-- What the agent tree says of an agent. -/
structure AgentConfig where
  agentId : String
  human : Bool := false
  bootstrap : Bool := false
deriving DecidableEq, Repr

/-- `SimulationConfig`, by the fields that the constructor hands on. -/
structure SimulationConfig where
  maxActiveAgentsPerTick : ℕ
  maxConcurrentLlmRequests : ℕ
  maxRetries : ℕ
deriving DecidableEq, Repr

/-- An email. -/
structure Email where
  emailId : String
  content : Value

/-- `Mailbox`. -/
structure Mailbox where
  inbox : List Email := []
  outbox : List Email := []

/-- `MailSystem`. -/
structure MailSystem where
  allEmails : String → Option Email := fun _ => none
  pending : List Email := []
  mailboxes : String → Option Mailbox := fun _ => none

/-- An entry of the outbox under its id, with the key that makes it unique. -/
structure KeyedEntry where
  entryId : String
  idempotencyKey : String
  entry : OutboxEntry

/-- `Outbox`. -/
structure Outbox where
  entries : List KeyedEntry := []
  idempotencyKeys : Finset String := ∅
  maxRetries : ℕ

/-- The components that later ticks read, apart from the ingress buffer and the private store. -/
structure Components where
  config : SimulationConfig
  agentTree : List AgentConfig
  currentTick : ℕ := 0
  engineState : String := "created"
  stateEpoch : ℕ := 0
  pauseReason : String := ""
  tasks : TaskTree := {}
  mail : MailSystem
  scheduler : AgentScheduler
  outbox : Outbox
  pendingOps : PendingOperationRegistry
  kb : SharedKB := {}
  lockCounter : ℕ := 0
  records : RecordStore := {}
  agentStates : String → Option AgentRuntimeState
  pendingHumanActions : String → List (List (String × Value)) := fun _ => []
  budget : Value := .dict []
  rules : String → Option ScheduleRule := fun _ => none
  memories : String → Option MemoryStore
  recallConfigs : String → Option RecallConfig
  deadlineFired : String → Option (List String) := fun _ => none

/-- A simulation in memory: its objects, and who refers to which. -/
structure Instance where
  buffers : List IngressBuffer
  stores : List PrivateStore
  /-- `_ingress`, which the tick drains. -/
  ingress : ℕ
  /-- `_private_store`, which the commit writes to. -/
  privateStore : ℕ
  /-- `_human_control._ingress`. -/
  humanIngress : ℕ
  /-- The store of the handler of `read`. -/
  readStore : ℕ
  /-- The store of the handler of `ls`. -/
  lsStore : ℕ
  /-- `_context_compiler._private_store`. -/
  compilerStore : ℕ
  components : Components

/-- The components of a new simulation. -/
def Components.initial (config : SimulationConfig) (agentTree : List AgentConfig) : Components :=
  let agents := agentTree.map AgentConfig.agentId
  let is (flag : AgentConfig → Bool) (agent : String) :=
    agentTree.any fun entry => decide (entry.agentId = agent) && flag entry
  let simulation := Simulation.initial agents (is AgentConfig.bootstrap) (is AgentConfig.human) (fun _ => .kernel)
    config.maxConcurrentLlmRequests config.maxActiveAgentsPerTick
  { config := config
    agentTree := agentTree
    mail := { mailboxes := fun agent => if agent ∈ agents then some {} else none }
    scheduler := simulation.scheduler
    outbox := { maxRetries := config.maxRetries }
    pendingOps := simulation.registry
    agentStates := simulation.runtimes
    memories := fun agent => if agent ∈ agents then some { agentId := agent } else none
    recallConfigs := fun agent => if agent ∈ agents then some {} else none }

/-- The constructor. -/
def construct (config : SimulationConfig) (agentTree : List AgentConfig) : Instance where
  buffers := [{}]
  stores := [⟨"private"⟩]
  ingress := 0
  privateStore := 0
  humanIngress := 0
  readStore := 0
  lsStore := 0
  compilerStore := 0
  components := .initial config agentTree

/-- A mailbox as it is saved, by the ids of its emails. -/
structure SavedMailbox where
  inbox : List String
  outbox : List String

/-- What `_collect_state` saves. -/
structure SavedState where
  config : SimulationConfig
  agentTree : List AgentConfig
  currentTick : ℕ
  engineState : String
  stateEpoch : ℕ
  pauseReason : String
  privateStoreBasePath : String
  tasks : TaskTree
  allEmails : String → Option Email
  pendingEmails : List String
  mailboxes : String → Option SavedMailbox
  wakeConditions : String → Option WakeCondition
  events : List QueuedEvent
  outboxEntries : List KeyedEntry
  outboxMaxRetries : ℕ
  pendingOps : PendingOperationRegistry
  ingress : IngressSnapshot
  kb : SharedKB
  lockCounter : ℕ
  schemas : String → Option RecordSchema
  records : Finmap fun _ : String => Record
  ledger : List LedgerEntry
  agentStates : String → Option AgentRuntimeState
  pendingHumanActions : String → List (List (String × Value))
  budget : Value

namespace Instance

variable (s : Instance)

/-- The buffer that the tick drains. -/
def buffer : IngressBuffer :=
  s.buffers.getD s.ingress {}

/-- The store that the commit writes to. -/
def store : PrivateStore :=
  s.stores.getD s.privateStore ⟨"private"⟩

/-- `_collect_state`. -/
def collectState : SavedState :=
  let c := s.components
  { config := c.config
    agentTree := c.agentTree
    currentTick := c.currentTick
    engineState := c.engineState
    stateEpoch := c.stateEpoch
    pauseReason := c.pauseReason
    privateStoreBasePath := s.store.basePath
    tasks := c.tasks
    allEmails := c.mail.allEmails
    pendingEmails := c.mail.pending.map Email.emailId
    mailboxes := fun agent => (c.mail.mailboxes agent).map fun mailbox =>
      ⟨mailbox.inbox.map Email.emailId, mailbox.outbox.map Email.emailId⟩
    wakeConditions := c.scheduler.wakeConditions
    events := c.scheduler.events
    outboxEntries := c.outbox.entries
    outboxMaxRetries := c.outbox.maxRetries
    pendingOps := c.pendingOps
    ingress := s.buffer.snapshot
    kb := c.kb
    lockCounter := c.lockCounter
    schemas := c.records.schemas
    records := c.records.records
    ledger := c.records.ledger
    agentStates := c.agentStates
    pendingHumanActions := c.pendingHumanActions
    budget := c.budget }

end Instance

/-- A record store with the counters that loading computes: the largest id of the ledger, and for every record the
number of its entries. -/
def RecordStore.restored (schemas : String → Option RecordSchema) (records : Finmap fun _ : String => Record)
    (ledger : List LedgerEntry) : RecordStore where
  schemas := schemas
  records := records
  ledger := ledger
  ledgerCounter := (ledger.map LedgerEntry.ledgerId).foldl max 0
  versionCounter key :=
    if key ∈ records then some (ledger.filter fun entry => entry.fullKey = key).length else none

/-- A mailbox from the ids of its emails; unknown ones are left out. -/
def SavedMailbox.restored (saved : SavedMailbox) (allEmails : String → Option Email) : Mailbox where
  inbox := saved.inbox.filterMap allEmails
  outbox := saved.outbox.filterMap allEmails

/-- The mail system of a saved state, in the mailboxes of a new simulation; `none` is a `KeyError`. -/
def SavedState.mail (saved : SavedState) (new : MailSystem) : Option MailSystem := do
  let pending ← saved.pendingEmails.mapM saved.allEmails
  return {
    allEmails := saved.allEmails
    pending := pending
    mailboxes := fun agent => (new.mailboxes agent).map fun mailbox =>
      ((saved.mailboxes agent).map fun entry => entry.restored saved.allEmails).getD mailbox }

namespace Instance

variable (s : Instance)

/-- `_restore_state`. -/
def restoreState (saved : SavedState) : Option Instance := do
  let c := s.components
  let mail ← saved.mail c.mail
  return { s with
    buffers := s.buffers ++ [.restore saved.ingress]
    ingress := s.buffers.length
    stores := s.stores ++ [⟨saved.privateStoreBasePath⟩]
    privateStore := s.stores.length
    components := { c with
      currentTick := saved.currentTick
      engineState := saved.engineState
      stateEpoch := saved.stateEpoch
      pauseReason := saved.pauseReason
      tasks := saved.tasks
      mail := mail
      scheduler := { c.scheduler with wakeConditions := saved.wakeConditions, events := saved.events }
      outbox :=
        { entries := saved.outboxEntries
          idempotencyKeys := (saved.outboxEntries.map KeyedEntry.idempotencyKey).toFinset
          maxRetries := saved.outboxMaxRetries }
      pendingOps := saved.pendingOps
      kb := saved.kb
      lockCounter := saved.lockCounter
      records := .restored saved.schemas saved.records saved.ledger
      agentStates := fun agent => (c.agentStates agent).map fun runtime => (saved.agentStates agent).getD runtime
      pendingHumanActions := saved.pendingHumanActions
      budget := saved.budget } }

/-- `load_from`, on what was saved. -/
def loadFrom (saved : SavedState) : Option Instance :=
  (construct saved.config saved.agentTree).restoreState saved

/-- The event of a human action on a task, where `submit_task_action` accepts it. -/
def taskAction (taskId action humanId : String) : Option IngressEvent :=
  if action ∉ ["accept", "complete", "fail"] then none
  else
    match s.components.tasks.tasks taskId with
    | none => none
    | some task =>
      if (s.components.agentTree.any fun entry => decide (entry.agentId = task.assigneeAgentId) && entry.human) ∧
          !task.status.terminal then
        some {
          source := "human"
          externalId := s!"{taskId}:{action}"
          eventType := "human_action"
          payload := [("action", .str action), ("task_id", .str taskId), ("human_id", .str humanId)] }
      else none

/-- An event comes to a buffer. -/
def receiveAt (ref : ℕ) (event : IngressEvent) : Instance :=
  { s with buffers := s.buffers.modify ref fun buffer => buffer.receive event }

/-- What comes in between two ticks: an action of a human, or an event of a platform. -/
inductive Input
  | human (taskId action humanId : String)
  | platform (event : IngressEvent)

/-- `submit_task_action` and `inject_ingress`. -/
def input : Input → Instance
  | .human taskId action humanId =>
    match s.taskAction taskId action humanId with
    | some event => s.receiveAt s.humanIngress event
    | none => s
  | .platform event => s.receiveAt s.ingress event

/-- What the next Ingest drains, after some inputs. -/
def drained (inputs : List Input) : List IngressEvent :=
  (inputs.foldl input s).buffer.waiting

/-- The objects that the others use are the ones that the tick reads. -/
structure Wired : Prop where
  human : s.humanIngress = s.ingress
  read : s.readStore = s.privateStore
  ls : s.lsStore = s.privateStore
  compiler : s.compilerStore = s.privateStore

/-- A simulation agrees with another on everything that later ticks read. -/
structure Agrees (t : Instance) : Prop where
  components : s.components = t.components
  events : s.buffer.events = t.buffer.events
  seen : s.buffer.seen = t.buffer.seen
  basePath : s.store.basePath = t.store.basePath

/-- A simulation can go on in the place of another: they agree, it is wired, and further inputs have the same
effect on both. -/
structure Transparent (t : Instance) : Prop where
  agrees : s.Agrees t
  wired : t.Wired
  inputs : ∀ inputs, s.drained inputs = t.drained inputs

variable {s}

/-- Loading leaves the references of the constructor, and takes new objects. -/
theorem loadFrom_eq_some {saved : SavedState} {t : Instance} (h : loadFrom saved = some t) :
    t.buffers = [{}, .restore saved.ingress] ∧ t.ingress = 1 ∧ t.humanIngress = 0 ∧
      t.stores = [⟨"private"⟩, ⟨saved.privateStoreBasePath⟩] ∧ t.privateStore = 1 ∧ t.readStore = 0 := by
  unfold loadFrom restoreState at h
  dsimp only at h
  obtain ⟨mail, -, h⟩ := Option.bind_eq_some_iff.mp h
  cases h
  exact ⟨rfl, rfl, rfl, rfl, rfl, rfl⟩

/-- Whether an input comes from a platform. -/
def Input.isPlatform : Input → Bool
  | .human .. => false
  | .platform _ => true

/-- An event that comes to another buffer is not seen. -/
theorem buffer_receiveAt_of_ne {ref : ℕ} {event : IngressEvent} (h : ref ≠ s.ingress) :
    (s.receiveAt ref event).buffer = s.buffer := by
  unfold receiveAt buffer
  simp [List.getD_eq_getElem?_getD, h]

/-- An event that comes to the buffer of the tick. -/
theorem buffer_receiveAt {event : IngressEvent} (h : s.ingress < s.buffers.length) :
    (s.receiveAt s.ingress event).buffer = s.buffer.receive event := by
  unfold receiveAt buffer
  simp [List.getD_eq_getElem?_getD, h]

/-- An input leaves the references and the components. -/
theorem input_same (i : Input) : (s.input i).ingress = s.ingress ∧ (s.input i).humanIngress = s.humanIngress ∧
    (s.input i).buffers.length = s.buffers.length := by
  unfold input
  split
  · split
    · exact ⟨rfl, rfl, List.length_modify _ _ _⟩
    · exact ⟨rfl, rfl, rfl⟩
  · exact ⟨rfl, rfl, List.length_modify _ _ _⟩

/-- Where the human control has another buffer, nothing that it accepts is ever drained: of further inputs, those of
the platforms alone count. -/
theorem drained_of_unwired (hne : s.humanIngress ≠ s.ingress) (hlength : s.ingress < s.buffers.length)
    (inputs : List Input) : s.drained inputs = s.drained (inputs.filter Input.isPlatform) := by
  -- The two runs have the same buffer, which is all that a tick drains.
  have hrun (t : Instance) (hsame : t.buffer = s.buffer) (hrefs : t.ingress = s.ingress)
      (hlength' : t.ingress < t.buffers.length) :
      (inputs.foldl input s).buffer = ((inputs.filter Input.isPlatform).foldl input t).buffer := by
    induction inputs generalizing s t with
    | nil => exact hsame.symm
    | cons i rest ih =>
      obtain ⟨hingress, hhuman, hbuffers⟩ := @input_same s i
      have hne' : (s.input i).humanIngress ≠ (s.input i).ingress := by rwa [hhuman, hingress]
      have hlength'' : (s.input i).ingress < (s.input i).buffers.length := by rwa [hingress, hbuffers]
      rw [List.foldl_cons]
      cases i with
      | human taskId action humanId =>
        refine ih hne' hlength'' t ?_ (hrefs.trans hingress.symm) hlength'
        rw [hsame, input]
        split
        · rw [buffer_receiveAt_of_ne hne]
        · rfl
      | platform event =>
        obtain ⟨hingress', -, hbuffers'⟩ := @input_same t (.platform event)
        refine ih hne' hlength'' (t.input (.platform event)) ?_ (by rw [hingress', hrefs, hingress]) ?_
        · rw [input, input, buffer_receiveAt hlength', buffer_receiveAt hlength, hsame]
        · rwa [hingress', hbuffers']
  unfold drained
  rw [hrun s rfl rfl hlength]

/-- A loaded simulation is never as the one that was saved: its human control has the buffer of the constructor. -/
theorem not_transparent_loadFrom (s : Instance) : ¬∃ t, loadFrom s.collectState = some t ∧ s.Transparent t := by
  rintro ⟨t, hload, htransparent⟩
  obtain ⟨-, hingress, hhuman, -⟩ := loadFrom_eq_some hload
  have hwired := htransparent.wired.human
  rw [hingress, hhuman] at hwired
  cases hwired

/-- No action of a human reaches the ticks of a loaded simulation. -/
theorem drained_loadFrom {saved : SavedState} {t : Instance} (h : loadFrom saved = some t) (inputs : List Input) :
    t.drained inputs = t.drained (inputs.filter Input.isPlatform) := by
  obtain ⟨hbuffers, hingress, hhuman, -⟩ := loadFrom_eq_some h
  refine drained_of_unwired ?_ ?_ inputs
  · rw [hingress, hhuman]
    exact Nat.zero_ne_one
  · rw [hingress, hbuffers]
    exact Nat.one_lt_two

/-- A simulation with one human worker and a task for it. -/
def oneTask : Instance :=
  let new := construct ⟨8, 4, 3⟩ [{ agentId := "h", human := true }]
  { new with components := { new.components with
      tasks := ({} : TaskTree).create
        { taskId := "t", title := "Review", description := "", assignerAgentId := "h", assigneeAgentId := "h",
          derivedFrom := none, status := .assigned, priority := .normal, deadline := .none, createdAtTick := 0,
          updatedAtTick := 0 } } }

/-- The worker accepts its task: the tick of the saved simulation would drain that, the tick of the loaded one does
not. -/
theorem action_lost_by_loadFrom : ¬∀ s : Instance, ∃ t, loadFrom s.collectState = some t ∧ s.Transparent t := by
  intro h
  obtain ⟨t, hload, htransparent⟩ := h oneTask
  obtain ⟨hbuffers, hingress, -⟩ := loadFrom_eq_some hload
  have hsaved : (oneTask.drained [.human "t" "accept" "u"]).length = 1 := by decide +kernel
  have hloaded : t.drained [.human "t" "accept" "u"] = [] := by
    rw [drained_loadFrom hload]
    have hbuffer : t.buffer = .restore oneTask.collectState.ingress := by
      rw [buffer, hbuffers, hingress]
      rfl
    have hnone : t.drained [] = t.buffer.waiting := rfl
    rw [hbuffer] at hnone
    exact hnone
  rw [htransparent.inputs, hloaded] at hsaved
  cases hsaved

/-- The simulation between two ticks, as these leave it: the events are under their keys, the emails are registered,
every agent of the tree has a mailbox and a state, and the outbox and the scheduler are in order. -/
structure Regular (s : Instance) : Prop where
  keyed : s.buffer.Keyed
  pending : ∀ email ∈ s.components.mail.pending, s.components.mail.allEmails email.emailId = some email
  mailboxes : ∀ agent, (s.components.mail.mailboxes agent).isSome ↔
    agent ∈ s.components.agentTree.map AgentConfig.agentId
  registered : ∀ agent mailbox, s.components.mail.mailboxes agent = some mailbox →
    ∀ email ∈ mailbox.inbox ++ mailbox.outbox, s.components.mail.allEmails email.emailId = some email
  agentStates : ∀ agent, (s.components.agentStates agent).isSome ↔
    agent ∈ s.components.agentTree.map AgentConfig.agentId
  idempotencyKeys : s.components.outbox.idempotencyKeys =
    (s.components.outbox.entries.map KeyedEntry.idempotencyKey).toFinset
  activations : s.components.scheduler.activationsThisTick = []
  maxActive : s.components.scheduler.maxActiveAgentsPerTick = s.components.config.maxActiveAgentsPerTick

/-- Nothing is lost by saving and loading: no calendar rules, memories, recall settings and deadline marks, which are
not saved, no counters of records that differ from what their ledger says, and no event that waits acknowledged. -/
structure Recoverable (s : Instance) : Prop where
  rules : s.components.rules = fun _ => none
  memories : s.components.memories = (Components.initial s.components.config s.components.agentTree).memories
  recallConfigs : s.components.recallConfigs =
    (Components.initial s.components.config s.components.agentTree).recallConfigs
  deadlineFired : s.components.deadlineFired = fun _ => none
  counters : s.components.records =
    .restored s.components.records.schemas s.components.records.records s.components.records.ledger
  unacknowledged : ∀ entry ∈ s.buffer.events, entry.1 ∉ s.buffer.acked

/-- Registered emails are found again by their ids. -/
theorem mapM_emailId {allEmails : String → Option Email} {emails : List Email}
    (h : ∀ email ∈ emails, allEmails email.emailId = some email) :
    (emails.map Email.emailId).mapM allEmails = some emails := by
  induction emails with
  | nil => rfl
  | cons email rest ih =>
    have hrest := ih fun other hother => h other (List.mem_cons_of_mem _ hother)
    rw [List.map_cons, List.mapM_cons, h email List.mem_cons_self, hrest]
    rfl

/-- Registered emails of a mailbox are found again by their ids. -/
theorem filterMap_emailId {allEmails : String → Option Email} {emails : List Email}
    (h : ∀ email ∈ emails, allEmails email.emailId = some email) :
    (emails.map Email.emailId).filterMap allEmails = emails := by
  induction emails with
  | nil => rfl
  | cons email rest ih =>
    have hrest := ih fun other hother => h other (List.mem_cons_of_mem _ hother)
    rw [List.map_cons, List.filterMap_cons, h email List.mem_cons_self, hrest]

/-- The mail of a simulation between two ticks is restored. -/
theorem Regular.mail (h : s.Regular) :
    s.collectState.mail (Components.initial s.components.config s.components.agentTree).mail =
      some s.components.mail := by
  have hmailboxes : (fun agent =>
      ((Components.initial s.components.config s.components.agentTree).mail.mailboxes agent).map fun mailbox =>
        ((s.collectState.mailboxes agent).map fun entry => entry.restored s.collectState.allEmails).getD mailbox) =
      s.components.mail.mailboxes := by
    funext agent
    cases hmailbox : s.components.mail.mailboxes agent with
    | none =>
      have hagent : agent ∉ s.components.agentTree.map AgentConfig.agentId := fun hmem => by
        simpa [hmailbox] using (h.mailboxes agent).mpr hmem
      rw [Components.initial]
      dsimp only
      rw [if_neg hagent]
      rfl
    | some mailbox =>
      have hagent : agent ∈ s.components.agentTree.map AgentConfig.agentId :=
        (h.mailboxes agent).mp (by rw [hmailbox]; rfl)
      have hinbox := filterMap_emailId fun email hemail =>
        h.registered agent mailbox hmailbox email (List.mem_append_left _ hemail)
      have houtbox := filterMap_emailId fun email hemail =>
        h.registered agent mailbox hmailbox email (List.mem_append_right _ hemail)
      rw [Components.initial]
      dsimp only
      rw [if_pos hagent, collectState]
      dsimp only
      rw [hmailbox, Option.map_some, Option.map_some, Option.map_some, Option.getD_some, SavedMailbox.restored, hinbox,
        houtbox]
  have hpending : s.collectState.pendingEmails.mapM s.collectState.allEmails = some s.components.mail.pending :=
    mapM_emailId h.pending
  rw [SavedState.mail, hpending, hmailboxes]
  rfl

/-- What loading makes of a simulation between two ticks. -/
theorem Regular.loadFrom (h : s.Regular) : ∃ t, loadFrom s.collectState = some t ∧
    t.components = { s.components with
      records := .restored s.components.records.schemas s.components.records.records s.components.records.ledger
      rules := fun _ => none
      memories := (Components.initial s.components.config s.components.agentTree).memories
      recallConfigs := (Components.initial s.components.config s.components.agentTree).recallConfigs
      deadlineFired := fun _ => none } ∧
    t.buffer = .restore s.buffer.snapshot ∧ t.store.basePath = s.store.basePath := by
  have hstates : (fun agent =>
      ((Components.initial s.components.config s.components.agentTree).agentStates agent).map fun runtime =>
        (s.components.agentStates agent).getD runtime) = s.components.agentStates := by
    funext agent
    rw [Components.initial]
    dsimp only
    rw [Simulation.initial]
    dsimp only
    cases hstate : s.components.agentStates agent with
    | none =>
      have hagent : agent ∉ s.components.agentTree.map AgentConfig.agentId := fun hmem => by
        simpa [hstate] using (h.agentStates agent).mpr hmem
      rw [if_neg hagent]
      rfl
    | some runtime =>
      have hagent : agent ∈ s.components.agentTree.map AgentConfig.agentId :=
        (h.agentStates agent).mp (by rw [hstate]; rfl)
      rw [if_pos hagent]
      rfl
  have hscheduler : { (Components.initial s.components.config s.components.agentTree).scheduler with
      wakeConditions := s.components.scheduler.wakeConditions
      events := s.components.scheduler.events } = s.components.scheduler := by
    rw [AgentScheduler.mk.injEq]
    exact ⟨h.maxActive.symm, rfl, rfl, h.activations.symm⟩
  have houtbox : Outbox.mk s.components.outbox.entries
      (s.components.outbox.entries.map KeyedEntry.idempotencyKey).toFinset s.components.outbox.maxRetries =
      s.components.outbox := by
    rw [← h.idempotencyKeys]
  have hnew : (construct s.collectState.config s.collectState.agentTree).components =
      Components.initial s.components.config s.components.agentTree := rfl
  unfold Instance.loadFrom restoreState
  rw [hnew]
  dsimp only
  rw [h.mail]
  refine ⟨_, rfl, ?_, rfl, rfl⟩
  rw [Components.mk.injEq]
  exact ⟨rfl, rfl, rfl, rfl, rfl, rfl, rfl, rfl, hscheduler, houtbox, rfl, rfl, rfl, rfl, hstates, rfl, rfl, rfl, rfl,
    rfl,
    rfl⟩

/-- A simulation between two ticks comes back in full exactly if it is recoverable. -/
theorem agrees_loadFrom_iff (h : s.Regular) :
    (∃ t, loadFrom s.collectState = some t ∧ s.Agrees t) ↔ s.Recoverable := by
  obtain ⟨t, hload, hcomponents, hbuffer, hstore⟩ := h.loadFrom
  have hevents := h.keyed.events_restore_snapshot
  have hseen := h.keyed.seen_restore_snapshot
  rw [← hbuffer] at hevents hseen
  constructor
  · rintro ⟨t', hload', hagrees⟩
    rw [hload] at hload'
    cases hload'
    have hsame := hagrees.components.trans hcomponents
    constructor
    case rules => exact congrArg Components.rules hsame
    case memories =>
      have hmemories := congrArg Components.memories hsame
      exact hmemories
    case recallConfigs =>
      have hconfigs := congrArg Components.recallConfigs hsame
      exact hconfigs
    case deadlineFired => exact congrArg Components.deadlineFired hsame
    case counters => exact congrArg Components.records hsame
    case unacknowledged =>
      intro entry hentry
      rw [hagrees.events, hevents] at hentry
      simpa using (List.mem_filter.mp hentry).2
  · intro hrecoverable
    refine ⟨t, hload, ?_, ?_, hseen.symm, hstore.symm⟩
    · rw [hcomponents, ← hrecoverable.counters, ← hrecoverable.rules, ← hrecoverable.memories,
        ← hrecoverable.recallConfigs, ← hrecoverable.deadlineFired]
    · rw [hevents, List.filter_eq_self.mpr]
      intro entry hentry
      simpa using hrecoverable.unacknowledged entry hentry

end Instance

end MyTeam.Legacy

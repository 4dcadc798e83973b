import MyTeam.Async.Course
import MyTeam.Legacy.Mail

/-!
# Independent mailboxes

Every email enters the inboxes of its recipients once, in time and under an id of its own. But its
status says whether it was read by whichever of them: when one recipient reads it, it is unread for
none, so that mailboxes are independent only as far as they share no unread email.
-/

namespace MyTeam.Legacy.Mail

open MyTeam.Py MyTeam.Async

/-- A call of the mail system, or of an agent's mailbox. -/
inductive MailCall
  | registerAgent (agentId : String)
  | createEmail (draft : Draft)
  | deliver (tick : ℤ)
  | markRead (agentId emailId : String)
  | markAllRead (agentId : String)
  | removeFromInbox (agentId emailId : String)

/-- The agent whose mailbox a call is about. -/
def MailCall.owner : MailCall → Option String
  | .registerAgent agentId => some agentId
  | .createEmail draft => some draft.fromAgent
  | .deliver _ => none
  | .markRead agentId _ => some agentId
  | .markAllRead agentId => some agentId
  | .removeFromInbox agentId _ => some agentId

/-- The mail system after a call. -/
def MailSystem.after (s : MailSystem) : MailCall → MailSystem
  | .registerAgent agentId => s.registerAgent agentId
  | .createEmail draft => s.createEmail draft
  | .deliver tick => (s.deliver tick).1
  | .markRead agentId emailId => s.markRead agentId emailId
  | .markAllRead agentId => s.markAllRead agentId
  | .removeFromInbox agentId emailId => s.removeFromInbox agentId emailId

/-- A mail system in use, with how often each email has entered each inbox, and when each was delivered and which agents
had a mailbox then. -/
structure PostOffice where
  system : MailSystem
  entered : String → ℕ → ℕ := fun _ _ => 0
  deliveredAt : ℕ → Option ℤ := fun _ => none
  registeredAt : ℕ → String → Bool := fun _ _ => false

namespace PostOffice

/-- The emails that a call delivers, and the tick. -/
def deliveries (p : PostOffice) : MailCall → List ℕ × ℤ
  | .deliver tick => ((p.system.deliver tick).2, tick)
  | _ => ([], 0)

/-- The state after a call. An email enters an inbox when it is there after the call and was not before. -/
def step (p : PostOffice) (call : MailCall) : PostOffice where
  system := p.system.after call
  entered agentId e := p.entered agentId e +
    if e ∉ p.system.inbox agentId ∧ e ∈ (p.system.after call).inbox agentId then 1 else 0
  deliveredAt e := if e ∈ (p.deliveries call).1 then some (p.deliveries call).2 else p.deliveredAt e
  registeredAt e agentId :=
    if e ∈ (p.deliveries call).1 then (p.system.mailboxes agentId).isSome else p.registeredAt e agentId

/-- The ids of emails are unique, each has entered the inbox of each recipient that was registered when it was
delivered exactly once, and no other, and was not delivered before the tick after its creation. -/
structure Orderly (p : PostOffice) : Prop where
  ids : ∀ e < p.system.created, ∀ other < p.system.created,
    (p.system.email e).emailId = (p.system.email other).emailId → e = other
  entered : ∀ agentId, ∀ e < p.system.created, p.entered agentId e =
    if (p.deliveredAt e).isSome ∧ agentId ∈ (p.system.email e).toAgents ∧ p.registeredAt e agentId then 1 else 0
  timely : ∀ e < p.system.created, ∀ tick ∈ p.deliveredAt e, (p.system.email e).createdAtTick + 1 ≤ tick

/-- A call leaves the unread emails of agents as they are whose mailbox it is not about, and a delivery delivers every
email that is due. -/
structure Independent (p : PostOffice) (call : MailCall) : Prop where
  unread : ∀ agentId, call.owner = some agentId → ∀ other, other ≠ agentId →
    (p.step call).system.unread other = p.system.unread other
  prompt : ∀ tick, call = .deliver tick → ∀ e < p.system.created, p.system.dueTick e ≤ tick →
    ((p.step call).deliveredAt e).isSome

/-- A call that marks only emails as read that are in no other inbox, or not unread. -/
def Private (p : PostOffice) : MailCall → Prop
  | .markRead agentId emailId => ∀ mailbox, p.system.mailboxes agentId = some mailbox →
      ∀ e, mailbox.inbox.lookup emailId = some e → (p.system.email e).status = .delivered →
        ∀ other, other ≠ agentId → e ∉ p.system.inbox other
  | .markAllRead agentId => ∀ e ∈ p.system.inbox agentId, (p.system.email e).status = .delivered →
      ∀ other, other ≠ agentId → e ∉ p.system.inbox other
  | _ => True

/-- What holds in every state: the emails are filed, are pending until they are delivered, and have been delivered as
they are to be. -/
structure Kept (p : PostOffice) : Prop where
  filed : p.system.Filed
  registry : p.system.allEmails.length = p.system.created
  keys : ∀ entry ∈ p.system.allEmails, ∃ e < p.system.created, entry.1 = mailId e
  pending : ∀ e, e ∈ p.system.pending ↔ e < p.system.created ∧ p.deliveredAt e = none
  absent : ∀ agentId, ∀ e ∈ p.system.inbox agentId, (p.deliveredAt e).isSome
  entered : ∀ agentId, ∀ e < p.system.created, p.entered agentId e =
    if (p.deliveredAt e).isSome ∧ agentId ∈ (p.system.email e).toAgents ∧ p.registeredAt e agentId then 1 else 0
  timely : ∀ e < p.system.created, ∀ tick ∈ p.deliveredAt e, (p.system.email e).createdAtTick + 1 ≤ tick
  unused : ∀ e, p.system.created ≤ e → p.deliveredAt e = none ∧ ∀ agentId, p.entered agentId e = 0

variable {p : PostOffice} {call : MailCall}

/-- What is kept is orderly. -/
theorem Kept.orderly (kept : p.Kept) : p.Orderly := by
  constructor
  case ids =>
    intro e he other hother hsame
    rw [kept.filed.ids e he, kept.filed.ids other hother] at hsame
    exact MailSystem.mailId_injective hsame
  case entered => exact kept.entered
  case timely => exact kept.timely

/-- A call that creates and delivers nothing and adds nothing to an inbox is kept. -/
theorem Kept.quiet (kept : p.Kept) (hdeliveries : (p.deliveries call).1 = []) (filed : (p.system.after call).Filed)
    (created : (p.system.after call).created = p.system.created)
    (allEmails : (p.system.after call).allEmails = p.system.allEmails)
    (pending : (p.system.after call).pending = p.system.pending)
    (toAgents : ∀ e, ((p.system.after call).email e).toAgents = (p.system.email e).toAgents)
    (createdAtTick : ∀ e, ((p.system.after call).email e).createdAtTick = (p.system.email e).createdAtTick)
    (inbox : ∀ agentId, ∀ e ∈ (p.system.after call).inbox agentId,
      e ∈ p.system.inbox agentId) : (p.step call).Kept := by
  have hdeliveredAt (e : ℕ) : (p.step call).deliveredAt e = p.deliveredAt e := by simp [step, hdeliveries]
  have hregisteredAt (e : ℕ) : (p.step call).registeredAt e = p.registeredAt e := by simp [step, hdeliveries]
  have hentered (agentId : String) (e : ℕ) : (p.step call).entered agentId e = p.entered agentId e := by
    rw [step]
    dsimp only
    rw [if_neg fun h => h.1 (inbox agentId e h.2), Nat.add_zero]
  have hcreated : (p.step call).system.created = p.system.created := created
  constructor
  case filed => exact filed
  case registry => exact (congrArg List.length allEmails).trans (kept.registry.trans created.symm)
  case keys =>
    rw [hcreated]
    exact fun entry hentry => kept.keys entry (allEmails ▸ hentry)
  case pending =>
    intro e
    rw [hcreated, hdeliveredAt]
    exact (iff_of_eq (congrArg (e ∈ ·) pending)).trans (kept.pending e)
  case absent =>
    intro agentId e hmem
    rw [hdeliveredAt]
    exact kept.absent agentId e (inbox agentId e hmem)
  case entered =>
    intro agentId e he
    rw [hentered, hdeliveredAt, hregisteredAt, step, toAgents]
    exact kept.entered agentId e (he.trans_eq created)
  case timely =>
    intro e he
    rw [hdeliveredAt, step, createdAtTick]
    exact kept.timely e (he.trans_eq created)
  case unused =>
    intro e he
    rw [hcreated] at he
    simp only [hdeliveredAt, hentered]
    exact kept.unused e he

/-- The delivery of the emails that are due is kept. -/
theorem Kept.deliver (kept : p.Kept) (tick : ℤ) : (p.step (.deliver tick)).Kept := by
  obtain ⟨hdelivered, hpending, hfiled, hgains⟩ :=
    kept.filed.deliver tick fun e hmem => ((kept.pending e).mp hmem).1
  have hmem {e : ℕ} : e ∈ (p.system.deliver tick).2 ↔
      (e < p.system.created ∧ p.deliveredAt e = none) ∧ p.system.dueTick e ≤ tick := by
    rw [hdelivered, List.mem_filter, kept.pending, decide_eq_true_eq]
  have hdeliveredAt (e : ℕ) : (p.step (.deliver tick)).deliveredAt e =
      if e ∈ (p.system.deliver tick).2 then some tick else p.deliveredAt e := rfl
  have hcreated : (p.step (.deliver tick)).system.created = p.system.created := hgains.created
  have hentered (agentId : String) (e : ℕ) : (p.step (.deliver tick)).entered agentId e = p.entered agentId e +
      if (p.system.mailboxes agentId).isSome ∧ agentId ∈ (p.system.email e).toAgents ∧ e ∈ (p.system.deliver tick).2
      then 1 else 0 := by
    have hiff : (e ∉ p.system.inbox agentId ∧ e ∈ (p.system.deliver tick).1.inbox agentId) ↔
        (p.system.mailboxes agentId).isSome ∧ agentId ∈ (p.system.email e).toAgents ∧
          e ∈ (p.system.deliver tick).2 := by
      rw [hgains.inbox]
      constructor
      · rintro ⟨habsent, hold | hnew⟩
        · exact absurd hold habsent
        · exact hnew
      · intro hnew
        refine ⟨fun hold => ?_, Or.inr hnew⟩
        have hsome := kept.absent agentId e hold
        rw [(hmem.mp hnew.2.2).1.2] at hsome
        exact absurd hsome (by decide)
    exact congrArg (p.entered agentId e + ·) (if_congr hiff rfl rfl)
  constructor
  case filed => exact hfiled
  case registry => exact (congrArg List.length hgains.allEmails).trans (kept.registry.trans hgains.created.symm)
  case keys =>
    rw [hcreated]
    exact fun entry hentry => kept.keys entry (hgains.allEmails ▸ hentry)
  case pending =>
    intro e
    have hremains : e ∈ (p.step (.deliver tick)).system.pending ↔
        e ∈ p.system.pending ∧ ¬p.system.dueTick e ≤ tick := by
      simp only [step, MailSystem.after, hpending, List.mem_filter, decide_eq_true_eq]
    rw [hremains, hcreated, hdeliveredAt, kept.pending]
    by_cases hnow : e ∈ (p.system.deliver tick).2
    · rw [if_pos hnow]
      simp [(hmem.mp hnow).2]
    · rw [if_neg hnow]
      rw [hmem, not_and] at hnow
      exact ⟨And.left, fun hwaits => ⟨hwaits, hnow hwaits⟩⟩
  case absent =>
    intro agentId e hinbox
    rw [hdeliveredAt]
    split
    next => rfl
    next hnot =>
      rcases (hgains.inbox agentId e).mp hinbox with hold | hnew
      · exact kept.absent agentId e hold
      · exact absurd hnew.2.2 hnot
  case entered =>
    intro agentId e he
    have htoAgents : ((p.step (.deliver tick)).system.email e).toAgents = (p.system.email e).toAgents :=
      hgains.toAgents e
    rw [hentered, hdeliveredAt, htoAgents, kept.entered agentId e (he.trans_eq hcreated)]
    by_cases hnow : e ∈ (p.system.deliver tick).2
    · have hregisteredAt : (p.step (.deliver tick)).registeredAt e agentId = (p.system.mailboxes agentId).isSome :=
        if_pos hnow
      rw [hregisteredAt, if_pos hnow, (hmem.mp hnow).1.2]
      simp [hnow, and_comm]
    · have hregisteredAt : (p.step (.deliver tick)).registeredAt e agentId = p.registeredAt e agentId := if_neg hnow
      rw [hregisteredAt, if_neg hnow]
      simp [hnow]
  case timely =>
    intro e he moment hat
    have hcreatedAtTick : ((p.step (.deliver tick)).system.email e).createdAtTick = (p.system.email e).createdAtTick :=
      hgains.createdAtTick e
    rw [hcreatedAtTick]
    rw [hdeliveredAt] at hat
    split at hat
    next hnow =>
      obtain rfl := Option.mem_some.mp hat
      exact (le_max_right _ _).trans (hmem.mp hnow).2
    next => exact kept.timely e (he.trans_eq hcreated) moment hat
  case unused =>
    intro e he
    rw [hcreated] at he
    have hnot : e ∉ (p.system.deliver tick).2 := fun hnow => absurd (hmem.mp hnow).1.1 (Nat.not_lt.mpr he)
    obtain ⟨hnone, hzero⟩ := kept.unused e he
    refine ⟨by rw [hdeliveredAt, if_neg hnot, hnone], fun agentId => ?_⟩
    rw [hentered, hzero, if_neg fun h => hnot h.2.2]

/-- The creation of an email is kept. -/
theorem Kept.createEmail (kept : p.Kept) (draft : Draft) : (p.step (.createEmail draft)).Kept := by
  set added := p.system.add (draft.email (mailId p.system.allEmails.length)) with hadded
  have hsent : added.Gains (added.send p.system.created draft.fromAgent) fun _ _ => False := MailSystem.Gains.send
  have hid : (added.email p.system.created).emailId = mailId p.system.created := by
    rw [hadded, MailSystem.email_add_self, ← kept.registry]
    rfl
  have hfiled : added.Filed := kept.filed.add (congrArg mailId kept.registry)
  have hinbox (agentId : String) (e : ℕ) :
      e ∈ (p.step (.createEmail draft)).system.inbox agentId ↔ e ∈ p.system.inbox agentId :=
    (hsent.inbox agentId e).trans (or_iff_left id)
  have hentered (agentId : String) (e : ℕ) : (p.step (.createEmail draft)).entered agentId e = p.entered agentId e := by
    have hnot : ¬(e ∉ p.system.inbox agentId ∧ e ∈ (p.step (.createEmail draft)).system.inbox agentId) :=
      fun h => h.1 ((hinbox agentId e).mp h.2)
    exact congrArg (p.entered agentId e + ·) (if_neg hnot)
  have hcreated : (p.step (.createEmail draft)).system.created = p.system.created + 1 := hsent.created
  have hallEmails : (p.step (.createEmail draft)).system.allEmails =
      p.system.allEmails ++ [(mailId p.system.created, p.system.created)] := by
    have hassign : (p.step (.createEmail draft)).system.allEmails = assign
        ((added.send p.system.created draft.fromAgent).email p.system.created).emailId p.system.created
        (added.send p.system.created draft.fromAgent).allEmails := rfl
    rw [hassign, hsent.emailId, hid, hsent.allEmails]
    refine assign_of_not_mem fun hmem => ?_
    obtain ⟨entry, hentry, hkey⟩ := List.mem_map.mp hmem
    obtain ⟨e, he, hkey'⟩ := kept.keys entry hentry
    exact he.ne (MailSystem.mailId_injective (hkey'.symm.trans hkey))
  have hpending : (p.step (.createEmail draft)).system.pending = p.system.pending ++ [p.system.created] :=
    congrArg (· ++ [p.system.created]) MailSystem.pending_send
  obtain ⟨hnone, hzero⟩ := kept.unused p.system.created le_rfl
  constructor
  case filed => exact ⟨hfiled.send.ids, hfiled.send.inboxes⟩
  case registry =>
    rw [hallEmails, hcreated, List.length_append, kept.registry]
    rfl
  case keys =>
    intro entry hentry
    rw [hallEmails] at hentry
    rw [hcreated]
    rcases List.mem_append.mp hentry with hold | hnew
    · obtain ⟨e, he, hkey⟩ := kept.keys entry hold
      exact ⟨e, Nat.lt_succ_of_lt he, hkey⟩
    · rw [List.mem_singleton.mp hnew]
      exact ⟨p.system.created, Nat.lt_succ_self _, rfl⟩
  case pending =>
    intro e
    rw [hpending, hcreated, List.mem_append, List.mem_singleton, kept.pending]
    change _ ↔ _ ∧ p.deliveredAt e = none
    constructor
    · rintro (⟨hlt, hwaits⟩ | rfl)
      · exact ⟨Nat.lt_succ_of_lt hlt, hwaits⟩
      · exact ⟨Nat.lt_succ_self _, hnone⟩
    · rintro ⟨hlt, hwaits⟩
      rcases Nat.lt_succ_iff_lt_or_eq.mp hlt with hold | rfl
      · exact Or.inl ⟨hold, hwaits⟩
      · exact Or.inr rfl
  case absent => exact fun agentId e hmem => kept.absent agentId e ((hinbox agentId e).mp hmem)
  case entered =>
    intro agentId e he
    rw [hcreated] at he
    rw [hentered]
    rcases Nat.lt_succ_iff_lt_or_eq.mp he with hold | rfl
    · have htoAgents : ((p.step (.createEmail draft)).system.email e).toAgents = (p.system.email e).toAgents :=
        (hsent.toAgents e).trans (congrArg Email.toAgents (MailSystem.email_add_of_lt hold))
      rw [htoAgents]
      exact kept.entered agentId e hold
    · have hundelivered : (p.step (.createEmail draft)).deliveredAt p.system.created = none := hnone
      rw [hzero, hundelivered]
      rfl
  case timely =>
    intro e he tick htick
    rw [hcreated] at he
    rcases Nat.lt_succ_iff_lt_or_eq.mp he with hold | rfl
    · have hcreatedAtTick : ((p.step (.createEmail draft)).system.email e).createdAtTick =
          (p.system.email e).createdAtTick :=
        (hsent.createdAtTick e).trans (congrArg Email.createdAtTick (MailSystem.email_add_of_lt hold))
      rw [hcreatedAtTick]
      exact kept.timely e hold tick htick
    · have hundelivered : (p.step (.createEmail draft)).deliveredAt p.system.created = none := hnone
      rw [hundelivered] at htick
      exact nomatch htick
  case unused =>
    intro e he
    rw [hcreated] at he
    obtain ⟨hnone, hzero⟩ := kept.unused e ((Nat.le_succ _).trans he)
    exact ⟨hnone, fun agentId => (hentered agentId e).trans (hzero agentId)⟩

/-- A call that does nothing is kept. -/
theorem Kept.unchanged (kept : p.Kept) (hdeliveries : (p.deliveries call).1 = [])
    (hsame : p.system.after call = p.system) :
    (p.step call).Kept := by
  refine kept.quiet hdeliveries ?_ ?_ ?_ ?_ ?_ ?_ ?_ <;> rw [hsame]
  · exact kept.filed
  · exact fun _ => rfl
  · exact fun _ => rfl
  · exact fun _ _ h => h

/-- A change to one mailbox that only takes emails out of its inbox is kept. -/
theorem Kept.put (kept : p.Kept) (hdeliveries : (p.deliveries call).1 = []) {agentId : String} {mailbox : Mailbox}
    (hput : p.system.after call = p.system.put agentId mailbox)
    (entries : ∀ entry ∈ mailbox.inbox, entry.1 = mailId entry.2 ∧ entry.2 < p.system.created)
    (hinbox : ∀ e ∈ mailbox.inbox.map Prod.snd, e ∈ p.system.inbox agentId) : (p.step call).Kept := by
  refine kept.quiet hdeliveries ?_ ?_ ?_ ?_ ?_ ?_ ?_ <;> rw [hput]
  · exact kept.filed.put entries
  · rfl
  · rfl
  · rfl
  · exact fun _ => rfl
  · exact fun _ => rfl
  · intro other e hmem
    rw [MailSystem.inbox_put] at hmem
    split at hmem
    next hsame => exact hsame ▸ hinbox e hmem
    next => exact hmem

/-- Every call is kept. -/
theorem Kept.step (kept : p.Kept) (call : MailCall) : (p.step call).Kept := by
  cases call with
  | registerAgent agentId => exact kept.put rfl rfl (fun _ hmem => nomatch hmem) fun _ hmem => nomatch hmem
  | createEmail draft => exact kept.createEmail draft
  | deliver tick => exact kept.deliver tick
  | markRead agentId emailId =>
    rcases @MailSystem.markRead_cases p.system agentId emailId with hsame | ⟨-, -, e, -, hmarked⟩
    · exact kept.unchanged rfl hsame
    · have hgains := @MailSystem.Gains.mark p.system e .read
      refine kept.quiet rfl ?_ ?_ ?_ ?_ ?_ ?_ ?_ <;> rw [MailSystem.after, hmarked]
      · exact kept.filed.mark
      · rfl
      · rfl
      · rfl
      · exact hgains.toAgents
      · exact hgains.createdAtTick
      · exact fun _ _ h => h
  | markAllRead agentId =>
    refine kept.quiet rfl ⟨fun e he => ?_, kept.filed.inboxes⟩ rfl rfl rfl ?_ ?_ fun _ _ h => h
    · exact (MailSystem.email_markAllRead Email.emailId (fun _ => rfl) e).trans (kept.filed.ids e he)
    · exact MailSystem.email_markAllRead Email.toAgents fun _ => rfl
    · exact MailSystem.email_markAllRead Email.createdAtTick fun _ => rfl
  | removeFromInbox agentId emailId =>
    rcases @MailSystem.removeFromInbox_cases p.system agentId emailId with hsame | ⟨mailbox, hmailbox, hput⟩
    · exact kept.unchanged rfl hsame
    · refine kept.put rfl hput ?_ ?_
      · exact fun entry hentry => kept.filed.inboxes agentId mailbox hmailbox entry (List.mem_filter.mp hentry).1
      · intro e hmem
        rw [MailSystem.inbox_of_mailbox hmailbox]
        exact (List.filter_sublist.map Prod.snd).subset hmem

/-- Every pending email that is due is delivered. -/
theorem Kept.prompt (kept : p.Kept) {tick : ℤ} {e : ℕ} (he : e < p.system.created) (hdue : p.system.dueTick e ≤ tick) :
    ((p.step (.deliver tick)).deliveredAt e).isSome := by
  have hdelivered := (kept.filed.deliver tick fun e hmem => ((kept.pending e).mp hmem).1).1
  have hdeliveredAt : (p.step (.deliver tick)).deliveredAt e =
      if e ∈ (p.system.deliver tick).2 then some tick else p.deliveredAt e := rfl
  rw [hdeliveredAt]
  split
  next => rfl
  next hnot =>
    rw [hdelivered, List.mem_filter, kept.pending, decide_eq_true_eq, not_and] at hnot
    by_contra hnone
    exact hnot ⟨he, Option.not_isSome_iff_eq_none.mp hnone⟩ hdue

/-- A private call leaves the unread emails of others as they are. -/
theorem Kept.unread (kept : p.Kept) (hprivate : p.Private call) {agentId : String} (howner : call.owner = some agentId)
    {other : String} (hother : other ≠ agentId) : (p.step call).system.unread other = p.system.unread other := by
  change (p.system.after call).unread other = p.system.unread other
  cases call with
  | registerAgent owner =>
    obtain rfl := Option.some.inj howner
    exact MailSystem.unread_put hother
  | createEmail draft => exact kept.filed.unread_createEmail
  | deliver tick => cases howner
  | markRead owner emailId =>
    obtain rfl := Option.some.inj howner
    rcases @MailSystem.markRead_cases p.system owner emailId with hsame | ⟨mailbox, hmailbox, e, hlookup, hmarked⟩
    · rw [MailSystem.after, hsame]
    · rw [MailSystem.after, hmarked]
      exact MailSystem.unread_mark_read fun hdelivered => hprivate mailbox hmailbox e hlookup hdelivered other hother
  | markAllRead owner =>
    obtain rfl := Option.some.inj howner
    exact MailSystem.unread_markAllRead fun e hmem hdelivered => hprivate e hmem hdelivered other hother
  | removeFromInbox owner emailId =>
    obtain rfl := Option.some.inj howner
    rcases @MailSystem.removeFromInbox_cases p.system owner emailId with hsame | ⟨mailbox, -, hput⟩
    · rw [MailSystem.after, hsame]
    · rw [MailSystem.after, hput]
      exact MailSystem.unread_put hother

/-- A private call is independent. -/
theorem Kept.independent (kept : p.Kept) (hprivate : p.Private call) : p.Independent call := by
  constructor
  case unread => exact fun agentId howner other hother => kept.unread hprivate howner hother
  case prompt =>
    rintro tick rfl e he hdue
    exact kept.prompt he hdue

/-- A call that leaves the unread emails of others as they are is private. -/
theorem Independent.private (h : p.Independent call) : p.Private call := by
  cases call with
  | markRead agentId emailId =>
    intro mailbox hmailbox e hlookup hdelivered other hother hmem
    have hunread : e ∈ p.system.unread other := MailSystem.mem_unread.mpr ⟨hmem, hdelivered⟩
    rw [← h.unread agentId rfl other hother] at hunread
    have hread : (p.step (.markRead agentId emailId)).system = p.system.mark e .read := by
      simp [step, MailSystem.after, MailSystem.markRead, hmailbox, hlookup]
    rw [hread, MailSystem.mem_unread, MailSystem.status_mark, if_pos rfl] at hunread
    exact absurd hunread.2 (by decide)
  | markAllRead agentId =>
    intro e hinbox hdelivered other hother hmem
    have hunread : e ∈ p.system.unread other := MailSystem.mem_unread.mpr ⟨hmem, hdelivered⟩
    rw [← h.unread agentId rfl other hother, MailSystem.mem_unread] at hunread
    have hread : ((p.step (.markAllRead agentId)).system.email e).status = .read := by
      simp [step, MailSystem.after, MailSystem.markAllRead, hinbox, hdelivered]
    rw [hread] at hunread
    exact absurd hunread.2 (by decide)
  | _ => trivial

/-- A new mail system. -/
def opened (email : ℕ → Email) : PostOffice :=
  { system := { email := email } }

/-- A new mail system is empty. -/
theorem kept_opened {email : ℕ → Email} : (opened email).Kept := by
  constructor
  case filed => exact ⟨fun _ he => (nomatch he), fun _ _ hmailbox => (nomatch hmailbox)⟩
  case registry => rfl
  case keys => exact fun _ hentry => nomatch hentry
  case pending => exact fun e => iff_of_false List.not_mem_nil fun h => Nat.not_lt_zero e h.1
  case absent => exact fun _ _ hmem => nomatch hmem
  case entered => exact fun _ _ he => nomatch he
  case timely => exact fun _ he => nomatch he
  case unused => exact fun _ _ => ⟨rfl, fun _ => rfl⟩

/-- In a course of calls the ids of emails are unique, every email enters the inbox of every recipient that is
registered when it is delivered exactly once and not before the tick after its creation, emails that are due are
delivered, and no operation on one mailbox changes what is unread in another, if and only if no agent marks an unread
email as read that is in another inbox, too. -/
theorem independent_iff_private (email : ℕ → Email) (calls : List MailCall) :
    Throughout step Orderly Independent (opened email) calls ↔ Each step Private (opened email) calls :=
  throughout_iff_each kept_opened Kept.orderly
    (fun kept hprivate => ⟨kept.step _, kept.independent hprivate⟩) fun _ independent _ => independent.private

/-- A notice to two agents. -/
def notice : Draft where
  fromAgent := "root"
  toAgents := ["ann", "bob"]
  subject := "Meeting"

/-- When one recipient reads an email, it is not unread for the other any more. -/
theorem notice_read_by_one : ¬Throughout step Orderly Independent (opened fun _ => notice.email "")
    [.registerAgent "ann", .registerAgent "bob", .createEmail notice, .deliver 1, .markRead "ann" "mail.000001"] := by
  rintro ⟨-, -, -, -, -, -, -, -, -, hindependent, -⟩
  exact absurd (hindependent.unread "ann" rfl "bob" (by decide)) (by decide +kernel)

end PostOffice

end MyTeam.Legacy.Mail

import Mathlib.Data.Finset.Dedup
import Mathlib.Algebra.Order.Ring.Int
import MyTeam.Py.Dict
import MyTeam.Py.Format

/-!
# The mail system

An email is one record, which the outbox of its sender, the list of pending emails and the inboxes
of all its recipients refer to, and which holds its status. The records are numbered in the order of
their creation, and the dictionaries hold the numbers.
-/

namespace MyTeam.Legacy.Mail

open MyTeam.Py

/-- `EmailStatus`. -/
inductive EmailStatus
  | queued
  | delivered
  | read
deriving DecidableEq, Repr

/-- `EmailType`. -/
inductive EmailType
  | delegation
  | acceptance
  | progress
  | question
  | answer
  | result
  | reviewRequest
  | reviewResult
  | failure
  | blocked
  | cancellation
  | humanMessage
  | systemNotice
deriving DecidableEq, Repr

/-- `EmailPriority`. -/
inductive EmailPriority
  | low
  | normal
  | high
  | urgent
deriving DecidableEq, Repr

/-- `Email`. -/
structure Email where
  emailId : String
  threadId : String
  fromAgent : String
  toAgents : List String
  subject : String
  body : String
  attachments : List Value
  emailType : EmailType
  taskId : String
  createdAtTick : ℤ
  deliverAtTick : ℤ
  status : EmailStatus := .queued
  priority : EmailPriority
  requiresReply : Bool
  replyTo : Option String

/-- The arguments of `create_email`, with a status that its `kwargs` may give. -/
structure Draft where
  fromAgent : String
  toAgents : List String
  subject : String
  body : String := ""
  emailType : EmailType := .systemNotice
  taskId : String := ""
  tick : ℤ := 0
  deliverAtTick : Option ℤ := none
  priority : EmailPriority := .normal
  requiresReply : Bool := false
  replyTo : Option String := none
  threadId : String := ""
  attachments : List Value := []
  status : EmailStatus := .queued

/-- `Mailbox`: the records by the ids of the emails. -/
structure Mailbox where
  inbox : List (String × ℕ) := []
  outbox : List (String × ℕ) := []

/-- `MailSystem`. -/
structure MailSystem where
  email : ℕ → Email
  created : ℕ := 0
  mailboxes : String → Option Mailbox := fun _ => none
  pending : List ℕ := []
  allEmails : List (String × ℕ) := []

/-- The id that an email gets after some others. -/
def mailId (count : ℕ) : String :=
  "mail." ++ zeroPadded 6 (count + 1)

/-- The email that `create_email` makes. A thread id is kept only if there is a task id. -/
def Draft.email (draft : Draft) (emailId : String) : Email where
  emailId := emailId
  threadId := if draft.taskId = "" then "" else if draft.threadId = "" then "thread." ++ draft.taskId
    else draft.threadId
  fromAgent := draft.fromAgent
  toAgents := draft.toAgents
  subject := draft.subject
  body := draft.body
  attachments := draft.attachments
  emailType := draft.emailType
  taskId := draft.taskId
  createdAtTick := draft.tick
  deliverAtTick := draft.deliverAtTick.getD (draft.tick + 1)
  status := draft.status
  priority := draft.priority
  requiresReply := draft.requiresReply
  replyTo := draft.replyTo

namespace MailSystem

variable (s : MailSystem)

/-- Changes a record. -/
def edit (e : ℕ) (f : Email → Email) : MailSystem :=
  { s with email := Function.update s.email e (f (s.email e)) }

/-- Changes the status of a record. -/
def mark (e : ℕ) (status : EmailStatus) : MailSystem :=
  s.edit e fun email => { email with status := status }

/-- Changes the mailbox of an agent. -/
def put (agentId : String) (mailbox : Mailbox) : MailSystem :=
  { s with mailboxes := Function.update s.mailboxes agentId (some mailbox) }

/-- `register_agent`. -/
def registerAgent (agentId : String) : MailSystem :=
  s.put agentId {}

/-- `Mailbox.receive` of a recipient, if it has a mailbox. -/
def receive (e : ℕ) (agentId : String) : MailSystem :=
  match s.mailboxes agentId with
  | none => s
  | some mailbox =>
    (s.mark e .delivered).put agentId { mailbox with inbox := assign (s.email e).emailId e mailbox.inbox }

/-- `Mailbox.send` of the sender, if it has a mailbox. -/
def send (e : ℕ) (agentId : String) : MailSystem :=
  match s.mailboxes agentId with
  | none => s
  | some mailbox =>
    (s.mark e .queued).put agentId { mailbox with outbox := assign (s.email e).emailId e mailbox.outbox }

/-- `queue_email`. -/
def queueEmail (e : ℕ) : MailSystem :=
  { s with pending := s.pending ++ [e], allEmails := assign (s.email e).emailId e s.allEmails }

/-- Adds a record. -/
def add (email : Email) : MailSystem :=
  { s with email := Function.update s.email s.created email, created := s.created + 1 }

/-- `create_email`. -/
def createEmail (draft : Draft) : MailSystem :=
  let added := s.add (draft.email (mailId s.allEmails.length))
  (added.send s.created draft.fromAgent).queueEmail s.created

/-- The correction of a delivery before the tick after the creation. -/
def correct (e : ℕ) : MailSystem :=
  s.edit e fun email =>
    if email.deliverAtTick < email.createdAtTick + 1 then { email with deliverAtTick := email.createdAtTick + 1 }
    else email

/-- An email is put into the inboxes of its recipients. -/
def route (e : ℕ) : MailSystem :=
  (s.email e).toAgents.foldl (fun s agentId => s.receive e agentId) s

/-- One round of the loop of `deliver`, with the emails that have been delivered and those that remain. -/
def deliverOne (tick : ℤ) : MailSystem × List ℕ × List ℕ → ℕ → MailSystem × List ℕ × List ℕ
  | (s, delivered, remaining), e =>
    let corrected := s.correct e
    if (corrected.email e).deliverAtTick ≤ tick then (corrected.route e, delivered ++ [e], remaining)
    else (corrected, delivered, remaining ++ [e])

/-- `deliver`, with the emails it returns. -/
def deliver (tick : ℤ) : MailSystem × List ℕ :=
  let (after, delivered, remaining) := s.pending.foldl (deliverOne tick) (s, [], [])
  ({ after with pending := remaining }, delivered)

/-- `Mailbox.mark_read` of an agent. -/
def markRead (agentId emailId : String) : MailSystem :=
  match (s.mailboxes agentId).bind fun mailbox => mailbox.inbox.lookup emailId with
  | none => s
  | some e => s.mark e .read

/-- The emails in the inbox of an agent. -/
def inbox (agentId : String) : List ℕ :=
  ((s.mailboxes agentId).map fun mailbox => mailbox.inbox.map Prod.snd).getD []

/-- `Mailbox.mark_all_read` of an agent. -/
def markAllRead (agentId : String) : MailSystem :=
  { s with email := fun e =>
      if e ∈ s.inbox agentId ∧ (s.email e).status = .delivered then { s.email e with status := .read } else s.email e }

/-- `Mailbox.remove_from_inbox` of an agent. -/
def removeFromInbox (agentId emailId : String) : MailSystem :=
  match s.mailboxes agentId with
  | none => s
  | some mailbox =>
    s.put agentId { mailbox with inbox := mailbox.inbox.filter fun entry => entry.1 ≠ emailId }

/-- The emails that `get_unread` returns, in whatever order. -/
def unread (agentId : String) : Finset ℕ :=
  ((s.inbox agentId).filter fun e => (s.email e).status = .delivered).toFinset

variable {s} {t u : MailSystem} {e : ℕ} {agentId : String}

/-- The ids of emails are different. -/
theorem mailId_injective : Function.Injective mailId := by
  intro m n hsame
  rw [mailId, mailId, String.append_right_inj] at hsame
  exact Nat.succ_injective (zeroPadded_injective hsame)

/-- The emails in an inbox. -/
theorem mem_inbox : e ∈ s.inbox agentId ↔
    ∃ mailbox, s.mailboxes agentId = some mailbox ∧ ∃ emailId, (emailId, e) ∈ mailbox.inbox := by
  rw [inbox]
  cases s.mailboxes agentId with
  | none => simp
  | some mailbox => simp

/-- The unread emails. -/
theorem mem_unread : e ∈ s.unread agentId ↔ e ∈ s.inbox agentId ∧ (s.email e).status = .delivered := by
  simp [unread]

/-- The tick from which an email is delivered. -/
def dueTick (s : MailSystem) (e : ℕ) : ℤ :=
  max (s.email e).deliverAtTick ((s.email e).createdAtTick + 1)

/-- Every email has the id of its number, under which the inboxes hold it. -/
structure Filed (s : MailSystem) : Prop where
  ids : ∀ e < s.created, (s.email e).emailId = mailId e
  inboxes : ∀ agentId mailbox, s.mailboxes agentId = some mailbox →
    ∀ entry ∈ mailbox.inbox, entry.1 = mailId entry.2 ∧ entry.2 < s.created

/-- A change to the statuses and inboxes, which gain some emails. -/
structure Gains (s t : MailSystem) (gained : String → ℕ → Prop) : Prop where
  created : t.created = s.created
  allEmails : t.allEmails = s.allEmails
  emailId : ∀ e, (t.email e).emailId = (s.email e).emailId
  toAgents : ∀ e, (t.email e).toAgents = (s.email e).toAgents
  createdAtTick : ∀ e, (t.email e).createdAtTick = (s.email e).createdAtTick
  dueTick : ∀ e, t.dueTick e = s.dueTick e
  registered : ∀ agentId, (t.mailboxes agentId).isSome = (s.mailboxes agentId).isSome
  inbox : ∀ agentId e, e ∈ t.inbox agentId ↔ e ∈ s.inbox agentId ∨ gained agentId e

variable {gained more : String → ℕ → Prop}

/-- No change. -/
theorem Gains.refl : Gains s s fun _ _ => False := by
  constructor <;> simp

/-- One change after another. -/
theorem Gains.trans (first : Gains s t gained) (second : Gains t u more) :
    Gains s u fun agentId e => gained agentId e ∨ more agentId e where
  created := second.created.trans first.created
  allEmails := second.allEmails.trans first.allEmails
  emailId e := (second.emailId e).trans (first.emailId e)
  toAgents e := (second.toAgents e).trans (first.toAgents e)
  createdAtTick e := (second.createdAtTick e).trans (first.createdAtTick e)
  dueTick e := (second.dueTick e).trans (first.dueTick e)
  registered agentId := (second.registered agentId).trans (first.registered agentId)
  inbox agentId e := by rw [second.inbox, first.inbox, or_assoc]

/-- The same gains in other words. -/
theorem Gains.congr (h : Gains s t gained) (iff : ∀ agentId e, gained agentId e ↔ more agentId e) : Gains s t more :=
  { h with inbox := fun agentId e => by rw [h.inbox, iff] }

/-- The fields of a record that is edited in one that keeps them. -/
theorem email_edit {α : Type} {f : Email → Email} (field : Email → α) (keeps : ∀ email, field (f email) = field email)
    (other : ℕ) : field ((s.edit e f).email other) = field (s.email other) := by
  by_cases hsame : other = e
  · subst hsame
    simp [edit, keeps]
  · simp [edit, Function.update_of_ne hsame]

/-- A correction gains nothing and changes no due tick. -/
theorem Gains.correct : Gains s (s.correct e) fun _ _ => False where
  created := rfl
  allEmails := rfl
  emailId := email_edit Email.emailId fun email => by split <;> rfl
  toAgents := email_edit Email.toAgents fun email => by split <;> rfl
  createdAtTick := email_edit Email.createdAtTick fun email => by split <;> rfl
  dueTick := email_edit (fun email => max email.deliverAtTick (email.createdAtTick + 1)) fun email => by
    split
    next hearly => simp [max_eq_right hearly.le]
    next => rfl
  registered _ := rfl
  inbox _ _ := (or_iff_left id).symm

/-- After the correction an email is delivered from its due tick. -/
theorem deliverAtTick_correct : ((s.correct e).email e).deliverAtTick = s.dueTick e := by
  simp only [MailSystem.correct, edit, Function.update_self, MailSystem.dueTick]
  split
  next hearly => exact (max_eq_right hearly.le).symm
  next hlate => exact (max_eq_left (not_lt.mp hlate)).symm

/-- A change of status gains nothing. -/
theorem Gains.mark {status : EmailStatus} : Gains s (s.mark e status) fun _ _ => False where
  created := rfl
  allEmails := rfl
  emailId := email_edit Email.emailId fun _ => rfl
  toAgents := email_edit Email.toAgents fun _ => rfl
  createdAtTick := email_edit Email.createdAtTick fun _ => rfl
  dueTick := email_edit (fun email => max email.deliverAtTick (email.createdAtTick + 1)) fun _ => rfl
  registered _ := rfl
  inbox _ _ := (or_iff_left id).symm

/-- The inboxes when one mailbox is changed. -/
theorem inbox_put {mailbox : Mailbox} (other : String) :
    (s.put agentId mailbox).inbox other = if other = agentId then mailbox.inbox.map Prod.snd else s.inbox other := by
  by_cases hsame : other = agentId
  · simp [inbox, put, hsame]
  · simp [inbox, put, hsame]

/-- The emails of an agent with a mailbox. -/
theorem inbox_of_mailbox {mailbox : Mailbox} (hmailbox : s.mailboxes agentId = some mailbox) :
    s.inbox agentId = mailbox.inbox.map Prod.snd := by
  rw [inbox, hmailbox]
  rfl

/-- A mailbox is replaced by one whose inbox has gained some emails. -/
theorem Gains.put {mailbox replaced : Mailbox} (hmailbox : s.mailboxes agentId = some replaced) {new : ℕ → Prop}
    (hinbox : ∀ e, e ∈ mailbox.inbox.map Prod.snd ↔ e ∈ replaced.inbox.map Prod.snd ∨ new e) :
    Gains s (s.put agentId mailbox) fun other e => other = agentId ∧ new e := by
  constructor
  case registered =>
    intro other
    by_cases hsame : other = agentId
    · subst hsame
      simp [MailSystem.put, hmailbox]
    · simp [MailSystem.put, Function.update_of_ne hsame]
  case inbox =>
    intro other e
    rw [inbox_put]
    split
    next hsame =>
      subst hsame
      rw [hinbox, inbox_of_mailbox hmailbox]
      simp
    next hother => simp [hother]
  case created | allEmails => rfl
  case emailId | toAgents | createdAtTick | dueTick => exact fun _ => rfl

/-- An email that is put into an inbox under its id. -/
theorem Filed.gains_put (filed : s.Filed) (hcreated : e < s.created) {mailbox : Mailbox}
    (hmailbox : s.mailboxes agentId = some mailbox) :
    Gains s (s.put agentId { mailbox with inbox := assign (s.email e).emailId e mailbox.inbox })
      fun other another => other = agentId ∧ another = e := by
  refine Gains.put hmailbox fun another => ?_
  have hagree : ∀ entry ∈ mailbox.inbox, entry.1 = (s.email e).emailId → entry.2 = e := by
    intro entry hentry hkey
    rw [filed.ids e hcreated, (filed.inboxes agentId mailbox hmailbox entry hentry).1] at hkey
    exact mailId_injective hkey
  simp only [List.mem_map, mem_assign_iff hagree, or_and_right, exists_or, exists_eq_left]
  rw [or_comm, eq_comm]

/-- What a recipient receives is in its inbox, if it has one. -/
theorem Filed.gains_receive (filed : s.Filed) (hcreated : e < s.created) :
    Gains s (s.receive e agentId) fun other another => (s.mailboxes agentId).isSome ∧ other = agentId ∧
    another = e := by
  rw [receive]
  split
  next hnone => exact Gains.refl.congr (by simp [hnone])
  next mailbox hmailbox =>
    have hmarked : (s.mark e .delivered).Filed :=
      ⟨fun other hother => (Gains.mark.emailId other).trans (filed.ids other hother), filed.inboxes⟩
    have hgains := Gains.mark.trans (hmarked.gains_put hcreated hmailbox)
    rw [Gains.mark.emailId] at hgains
    exact hgains.congr (by simp [hmailbox])

/-- What is received is filed. -/
theorem Filed.receive (filed : s.Filed) (hcreated : e < s.created) : (s.receive e agentId).Filed := by
  refine ⟨fun other hother => ?_, ?_⟩
  · have hgains := @Filed.gains_receive _ _ agentId filed hcreated
    exact (hgains.emailId other).trans (filed.ids other (hgains.created ▸ hother))
  · rw [MailSystem.receive]
    split
    next => exact filed.inboxes
    next mailbox hmailbox =>
      intro other box hbox entry hentry
      by_cases hsame : other = agentId
      · subst hsame
        simp only [put, Function.update_self, Option.some.injEq] at hbox
        subst hbox
        rcases mem_items_assign hentry with rfl | hold
        · exact ⟨filed.ids e hcreated, hcreated⟩
        · exact filed.inboxes other mailbox hmailbox entry hold
      · simp only [put, Function.update_of_ne hsame] at hbox
        exact filed.inboxes other box hbox entry hentry

/-- A correction leaves everything filed. -/
theorem Filed.correct (filed : s.Filed) : (s.correct e).Filed :=
  ⟨fun other hother => (Gains.correct.emailId other).trans (filed.ids other hother), filed.inboxes⟩

/-- The recipients of a list that have a mailbox receive an email. -/
theorem Filed.foldl_receive (filed : s.Filed) (hcreated : e < s.created) (agents : List String) :
    (agents.foldl (fun s agentId => s.receive e agentId) s).Filed ∧
      Gains s (agents.foldl (fun s agentId => s.receive e agentId) s) fun agentId another =>
        (s.mailboxes agentId).isSome ∧ agentId ∈ agents ∧ another = e := by
  induction agents generalizing s with
  | nil => exact ⟨filed, Gains.refl.congr (by simp)⟩
  | cons agentId agents ih =>
    have hfirst := @Filed.gains_receive _ _ agentId filed hcreated
    obtain ⟨hfiled, hrest⟩ := ih (filed.receive hcreated) (hfirst.created ▸ hcreated)
    refine ⟨hfiled, (hfirst.trans hrest).congr fun other another => ?_⟩
    simp only [hfirst.registered, List.mem_cons]
    constructor
    · rintro (⟨hregistered, rfl, rfl⟩ | ⟨hregistered, hmem, rfl⟩)
      · exact ⟨hregistered, Or.inl rfl, rfl⟩
      · exact ⟨hregistered, Or.inr hmem, rfl⟩
    · rintro ⟨hregistered, rfl | hmem, rfl⟩
      · exact Or.inl ⟨hregistered, rfl, rfl⟩
      · exact Or.inr ⟨hregistered, hmem, rfl⟩

/-- The emails of a list that are due are put into the inboxes of their recipients, and the others remain. -/
theorem Filed.foldl_deliverOne (filed : s.Filed) {tick : ℤ} (emails delivered remaining : List ℕ)
    (hcreated : ∀ e ∈ emails, e < s.created) :
    ∃ after, emails.foldl (deliverOne tick) (s, delivered, remaining) =
        (after, delivered ++ emails.filter fun e => s.dueTick e ≤ tick,
          remaining ++ emails.filter fun e => ¬s.dueTick e ≤ tick) ∧
      after.Filed ∧ Gains s after fun agentId e =>
        (s.mailboxes agentId).isSome ∧ agentId ∈ (s.email e).toAgents ∧ e ∈ emails ∧ s.dueTick e ≤ tick := by
  induction emails generalizing s delivered remaining with
  | nil => exact ⟨s, by simp, filed, Gains.refl.congr (by simp)⟩
  | cons e emails ih =>
    have hfirst := hcreated e List.mem_cons_self
    have hrest : ∀ other ∈ emails, other < s.created :=
      fun other hother => hcreated other (List.mem_cons_of_mem _ hother)
    rw [List.foldl_cons, deliverOne, deliverAtTick_correct]
    by_cases hdue : s.dueTick e ≤ tick
    · obtain ⟨hroutedFiled, hrouted⟩ := (@Filed.correct _ e filed).foldl_receive hfirst (s.email e).toAgents
      have hstep := Gains.correct.trans hrouted
      obtain ⟨after, hfold, hafter, hgains⟩ := ih hroutedFiled (delivered ++ [e]) remaining
        fun other hother => (hrest other hother).trans_eq hstep.created.symm
      refine ⟨after, ?_, hafter, (hstep.trans hgains).congr fun agentId other => ?_⟩
      · simp only [hdue, if_true, MailSystem.route, Gains.correct.toAgents]
        rw [hfold]
        simp [hstep.dueTick, hdue]
      · simp only [hstep.registered, hstep.toAgents, hstep.dueTick, Gains.correct.registered, List.mem_cons, false_or]
        constructor
        · rintro (⟨hregistered, hmem, rfl⟩ | ⟨hregistered, hmem, hother, htick⟩)
          · exact ⟨hregistered, hmem, Or.inl rfl, hdue⟩
          · exact ⟨hregistered, hmem, Or.inr hother, htick⟩
        · rintro ⟨hregistered, hmem, rfl | hother, htick⟩
          · exact Or.inl ⟨hregistered, hmem, rfl⟩
          · exact Or.inr ⟨hregistered, hmem, hother, htick⟩
    · have hstep : Gains s (s.correct e) fun _ _ => False := Gains.correct
      obtain ⟨after, hfold, hafter, hgains⟩ := ih filed.correct delivered (remaining ++ [e]) hrest
      refine ⟨after, ?_, hafter, (hstep.trans hgains).congr fun agentId other => ?_⟩
      · simp only [hdue, if_false]
        rw [hfold]
        simp [hstep.dueTick, hdue, not_le.mp hdue]
      · simp only [hstep.registered, hstep.toAgents, hstep.dueTick, List.mem_cons, false_or]
        constructor
        · rintro ⟨hregistered, hmem, hother, htick⟩
          exact ⟨hregistered, hmem, Or.inr hother, htick⟩
        · rintro ⟨hregistered, hmem, rfl | hother, htick⟩
          · exact absurd htick hdue
          · exact ⟨hregistered, hmem, hother, htick⟩

/-- `deliver` puts the pending emails that are due into the inboxes of their recipients. -/
theorem Filed.deliver (filed : s.Filed) (tick : ℤ) (hcreated : ∀ e ∈ s.pending, e < s.created) :
    (s.deliver tick).2 = s.pending.filter (fun e => s.dueTick e ≤ tick) ∧
      (s.deliver tick).1.pending = s.pending.filter (fun e => ¬s.dueTick e ≤ tick) ∧
      (s.deliver tick).1.Filed ∧ Gains s (s.deliver tick).1 fun agentId e =>
        (s.mailboxes agentId).isSome ∧ agentId ∈ (s.email e).toAgents ∧ e ∈ (s.deliver tick).2 := by
  obtain ⟨after, hfold, hafter, hgains⟩ := @Filed.foldl_deliverOne _ filed tick s.pending [] [] hcreated
  rw [MailSystem.deliver, hfold]
  refine ⟨rfl, rfl, ⟨hafter.ids, hafter.inboxes⟩, ?_⟩
  have hsame : Gains s { after with pending := s.pending.filter fun e => ¬s.dueTick e ≤ tick } _ :=
    ⟨hgains.created, hgains.allEmails, hgains.emailId, hgains.toAgents, hgains.createdAtTick, hgains.dueTick,
      hgains.registered, hgains.inbox⟩
  exact hsame.congr (by simp)

/-- A mailbox is replaced by one whose emails are filed. -/
theorem Filed.put (filed : s.Filed) {mailbox : Mailbox}
    (entries : ∀ entry ∈ mailbox.inbox, entry.1 = mailId entry.2 ∧ entry.2 < s.created) :
    (s.put agentId mailbox).Filed := by
  refine ⟨filed.ids, fun other box hbox => ?_⟩
  by_cases hsame : other = agentId
  · rw [MailSystem.put, hsame] at hbox
    simp only [Function.update_self, Option.some.injEq] at hbox
    exact hbox ▸ entries
  · rw [MailSystem.put] at hbox
    simp only [Function.update_of_ne hsame] at hbox
    exact filed.inboxes other box hbox

/-- A change of status leaves everything filed. -/
theorem Filed.mark (filed : s.Filed) {status : EmailStatus} : (s.mark e status).Filed :=
  ⟨fun other hother => (Gains.mark.emailId other).trans (filed.ids other hother), filed.inboxes⟩

/-- What is sent goes to an outbox only. -/
theorem Gains.send : Gains s (s.send e agentId) fun _ _ => False := by
  rw [MailSystem.send]
  split
  next => exact Gains.refl
  next mailbox hmailbox =>
    have hmarked : (s.mark e .queued).mailboxes agentId = some mailbox := hmailbox
    have hput : Gains (s.mark e .queued) ((s.mark e .queued).put agentId
        { mailbox with outbox := assign (s.email e).emailId e mailbox.outbox }) fun other _ => other = agentId ∧
          False :=
      Gains.put hmarked fun _ => (or_iff_left id).symm
    exact (Gains.mark.trans hput).congr (by simp)

/-- What is sent does not change what is pending. -/
theorem pending_send : (s.send e agentId).pending = s.pending := by
  rw [send]
  split <;> rfl

/-- What is sent is filed. -/
theorem Filed.send (filed : s.Filed) : (s.send e agentId).Filed := by
  rw [MailSystem.send]
  split
  next => exact filed
  next mailbox hmailbox => exact filed.mark.put (filed.inboxes agentId mailbox hmailbox)

/-- The records that were there before one is added. -/
theorem email_add_of_lt {email : Email} (h : e < s.created) : (s.add email).email e = s.email e :=
  Function.update_of_ne h.ne _ _

/-- The record that is added. -/
theorem email_add_self {email : Email} : (s.add email).email s.created = email :=
  Function.update_self _ _ _

/-- A record with the id of its number is filed. -/
theorem Filed.add (filed : s.Filed) {email : Email} (hid : email.emailId = mailId s.created) : (s.add email).Filed := by
  constructor
  case ids =>
    intro e he
    rcases Nat.lt_succ_iff_lt_or_eq.mp he with hold | rfl
    · rw [email_add_of_lt hold]
      exact filed.ids e hold
    · rw [email_add_self]
      exact hid
  case inboxes =>
    intro agentId mailbox hmailbox entry hentry
    obtain ⟨hkey, hlt⟩ := filed.inboxes agentId mailbox hmailbox entry hentry
    exact ⟨hkey, Nat.lt_succ_of_lt hlt⟩

/-- What `mark_read` does. -/
theorem markRead_cases (emailId : String) :
    s.markRead agentId emailId = s ∨ ∃ mailbox, s.mailboxes agentId = some mailbox ∧
      ∃ e, mailbox.inbox.lookup emailId = some e ∧ s.markRead agentId emailId = s.mark e .read := by
  rw [markRead]
  split
  next => exact Or.inl rfl
  next e hfound =>
    obtain ⟨mailbox, hmailbox, hlookup⟩ := Option.bind_eq_some_iff.mp hfound
    exact Or.inr ⟨mailbox, hmailbox, e, hlookup, rfl⟩

/-- The fields of a record that is marked as read. -/
theorem email_markAllRead {α : Type} (field : Email → α)
    (keeps : ∀ email : Email, field { email with status := .read } = field email) (e : ℕ) :
    field ((s.markAllRead agentId).email e) = field (s.email e) := by
  rw [markAllRead]
  dsimp only
  split
  · exact keeps _
  · rfl

/-- What `remove_from_inbox` does. -/
theorem removeFromInbox_cases (emailId : String) :
    s.removeFromInbox agentId emailId = s ∨ ∃ mailbox, s.mailboxes agentId = some mailbox ∧
      s.removeFromInbox agentId emailId =
        s.put agentId { mailbox with inbox := mailbox.inbox.filter fun entry => entry.1 ≠ emailId } := by
  rw [removeFromInbox]
  split
  next => exact Or.inl rfl
  next mailbox hmailbox => exact Or.inr ⟨mailbox, hmailbox, rfl⟩

/-- The unread emails are the same if the inbox is and no status in it has changed from or to delivered. -/
theorem unread_eq (hinbox : ∀ e, e ∈ t.inbox agentId ↔ e ∈ s.inbox agentId)
    (hstatus : ∀ e ∈ s.inbox agentId, (t.email e).status = .delivered ↔ (s.email e).status = .delivered) :
    t.unread agentId = s.unread agentId := by
  ext e
  rw [mem_unread, mem_unread, hinbox]
  exact and_congr_right (hstatus e)

/-- A change of one mailbox leaves the unread emails of other agents. -/
theorem unread_put {mailbox : Mailbox} {other : String} (h : other ≠ agentId) :
    (s.put agentId mailbox).unread other = s.unread other := by
  refine unread_eq (fun e => ?_) fun _ _ => Iff.rfl
  rw [inbox_put, if_neg h]

/-- What is in an inbox has been created. -/
theorem Filed.lt_of_mem_inbox (filed : s.Filed) (hmem : e ∈ s.inbox agentId) : e < s.created := by
  obtain ⟨mailbox, hmailbox, emailId, hentry⟩ := mem_inbox.mp hmem
  exact (filed.inboxes agentId mailbox hmailbox _ hentry).2

/-- The records that are not sent. -/
theorem email_send_of_ne {other : ℕ} (h : other ≠ e) : (s.send e agentId).email other = s.email other := by
  rw [send]
  split
  · rfl
  · exact Function.update_of_ne h _ _

/-- A new email is unread for nobody. -/
theorem Filed.unread_createEmail (filed : s.Filed) {draft : Draft} :
    (s.createEmail draft).unread agentId = s.unread agentId := by
  refine unread_eq (fun e => (Gains.send.inbox agentId e).trans (or_iff_left id)) fun e hmem => ?_
  have hlt := filed.lt_of_mem_inbox hmem
  have hrecord : (s.createEmail draft).email e = s.email e :=
    (email_send_of_ne hlt.ne).trans (email_add_of_lt hlt)
  rw [hrecord]

/-- The status after a change of status. -/
theorem status_mark {status : EmailStatus} (other : ℕ) :
    ((s.mark e status).email other).status = if other = e then status else (s.email other).status := by
  by_cases hsame : other = e
  · subst hsame
    simp [mark, edit]
  · simp [mark, edit, hsame]

/-- What is marked as read leaves the unread emails as they are if it is not in the inbox, or was not unread. -/
theorem unread_mark_read (h : (s.email e).status = .delivered → e ∉ s.inbox agentId) :
    (s.mark e .read).unread agentId = s.unread agentId := by
  refine unread_eq (fun _ => Iff.rfl) fun other hmem => ?_
  rw [status_mark]
  split
  next hsame =>
    subst hsame
    exact iff_of_false (by decide) fun hdelivered => h hdelivered hmem
  next => exact Iff.rfl

/-- Marking an inbox as read leaves the unread emails of another as they are if these share none that is unread. -/
theorem unread_markAllRead {other : String}
    (h : ∀ e ∈ s.inbox agentId, (s.email e).status = .delivered → e ∉ s.inbox other) :
    (s.markAllRead agentId).unread other = s.unread other := by
  refine unread_eq (fun _ => Iff.rfl) fun e hmem => ?_
  rw [markAllRead]
  dsimp only
  split
  next hread => exact absurd hmem (h e hread.1 hread.2)
  next => exact Iff.rfl

end MailSystem

end MyTeam.Legacy.Mail

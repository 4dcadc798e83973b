import MyTeam.Legacy.Persistence

/-!
# Restarts between two ticks

What is not saved is lost by the first restart, and so are the references of the human control.
Later restarts lose nothing more: a simulation that was loaded once goes on as if it was never
restarted again, however restarts come between the inputs.
-/

namespace MyTeam.Legacy

/-- Every email stands under its own id, where `queue_email` puts it. -/
def Filed (allEmails : String → Option Email) : Prop :=
  ∀ id email, allEmails id = some email → email.emailId = id

/-- The emails that are found by ids are registered under their own. -/
theorem Filed.of_mapM {allEmails : String → Option Email} (filed : Filed allEmails) {ids : List String}
    {emails : List Email} (h : ids.mapM allEmails = some emails) :
    ∀ email ∈ emails, allEmails email.emailId = some email := by
  induction ids generalizing emails with
  | nil =>
    cases h
    exact fun _ hmem => absurd hmem List.not_mem_nil
  | cons id rest ih =>
    rw [List.mapM_cons] at h
    obtain ⟨first, hfirst, h⟩ := Option.bind_eq_some_iff.mp h
    obtain ⟨others, hothers, h⟩ := Option.bind_eq_some_iff.mp h
    cases h
    intro email hmem
    obtain rfl | hmem := List.mem_cons.mp hmem
    · rwa [filed id email hfirst]
    · exact ih hothers email hmem

/-- The emails of a restored mailbox are registered under their own ids. -/
theorem Filed.of_restored {allEmails : String → Option Email} (filed : Filed allEmails) (saved : SavedMailbox) :
    ∀ email ∈ (saved.restored allEmails).inbox ++ (saved.restored allEmails).outbox,
      allEmails email.emailId = some email := by
  intro email hmem
  rw [SavedMailbox.restored, ← List.filterMap_append] at hmem
  obtain ⟨id, -, hid⟩ := List.mem_filterMap.mp hmem
  rwa [filed id email hid]

namespace Instance

/-- What happens to a simulation between two ticks: an input, or that it is saved and loaded again. -/
inductive Event
  | input (i : Input)
  | restart

/-- The input of an event. -/
def Event.input? : Event → Option Input
  | .input i => some i
  | .restart => none

/-- One event; `none` is a load that fails. -/
def after (s : Instance) : Event → Option Instance
  | .input i => some (s.input i)
  | .restart => loadFrom s.collectState

/-- Some events, one after the other. -/
def play (s : Instance) (events : List Event) : Option Instance :=
  events.foldlM after s

/-- A simulation as it is after a restart: nothing of it is lost by another one, and the human control has a buffer
that no tick drains. -/
structure Restarted (s : Instance) : Prop where
  regular : s.Regular
  recoverable : s.Recoverable
  filed : Filed s.components.mail.allEmails
  acked : s.buffer.acked = ∅
  apart : s.humanIngress ≠ s.ingress
  present : s.ingress < s.buffers.length

variable {s t : Instance} {saved : SavedState}

/-- Whatever is loaded is restarted. -/
theorem restarted_of_loadFrom (filed : Filed saved.allEmails) (h : loadFrom saved = some t) : t.Restarted := by
  obtain ⟨hbuffers, hingress, hhuman, -⟩ := loadFrom_eq_some h
  have hbuffer : t.buffer = .restore saved.ingress := by
    rw [buffer, hbuffers, hingress]
    rfl
  have hacked : t.buffer.acked = ∅ := by rw [hbuffer, IngressBuffer.restore]
  have hkeyed : t.buffer.Keyed := hbuffer ▸ IngressBuffer.keyed_restore saved.ingress
  unfold loadFrom restoreState at h
  dsimp only at h
  obtain ⟨mail, hmail, h⟩ := Option.bind_eq_some_iff.mp h
  obtain ⟨pending, hpending, hmail⟩ := Option.bind_eq_some_iff.mp hmail
  cases hmail
  cases h
  constructor
  case regular =>
    constructor
    case keyed => exact hkeyed
    case pending => exact filed.of_mapM hpending
    case mailboxes =>
      intro agent
      simp [construct, Components.initial]
    case registered =>
      intro agent mailbox hmailbox
      obtain ⟨new, hnew, rfl⟩ := Option.map_eq_some_iff.mp hmailbox
      simp only [construct, Components.initial] at hnew
      split_ifs at hnew
      cases hnew
      cases saved.mailboxes agent with
      | none => exact fun email hmem => absurd hmem List.not_mem_nil
      | some entry => exact filed.of_restored entry
    case agentStates =>
      intro agent
      simp [construct, Components.initial, Simulation.initial]
    case idempotencyKeys => rfl
    case activations => rfl
    case maxActive => rfl
  case recoverable =>
    refine ⟨rfl, rfl, rfl, rfl, rfl, fun entry _ => ?_⟩
    rw [hacked]
    exact Finset.notMem_empty _
  case filed => exact filed
  case acked => exact hacked
  case apart => exact Nat.zero_ne_one
  case present => exact Nat.one_lt_two

/-- An input changes the buffers alone. -/
theorem exists_input (s : Instance) (i : Input) :
    ∃ buffers, s.input i = { s with buffers := buffers } ∧ buffers.length = s.buffers.length := by
  unfold input
  split
  · split
    · exact ⟨_, rfl, List.length_modify _ _ _⟩
    · exact ⟨_, rfl, rfl⟩
  · exact ⟨_, rfl, List.length_modify _ _ _⟩

/-- The buffer that a tick drains after an input: what a human does goes to another one. -/
theorem Restarted.buffer_input (h : s.Restarted) (i : Input) : (s.input i).buffer =
    match i with
    | .human .. => s.buffer
    | .platform event => s.buffer.receive event := by
  cases i with
  | human taskId action humanId =>
    dsimp only [input]
    split
    · exact buffer_receiveAt_of_ne h.apart
    · rfl
  | platform event => exact buffer_receiveAt h.present

/-- An input leaves a restarted simulation restarted. -/
theorem Restarted.input (h : s.Restarted) (i : Input) : (s.input i).Restarted := by
  have hbuffer : (s.input i).buffer.Keyed ∧ (s.input i).buffer.acked = ∅ := by
    rw [h.buffer_input]
    cases i with
    | human => exact ⟨h.regular.keyed, h.acked⟩
    | platform event => exact ⟨h.regular.keyed.receive event, (IngressBuffer.acked_receive event).trans h.acked⟩
  obtain ⟨buffers, heq, hlength⟩ := exists_input s i
  rw [heq] at hbuffer ⊢
  exact {
    regular := { h.regular with keyed := hbuffer.1 }
    recoverable := { h.recoverable with unacknowledged := fun _ _ => hbuffer.2 ▸ Finset.notMem_empty _ }
    filed := h.filed
    acked := hbuffer.2
    apart := h.apart
    present := hlength.symm ▸ h.present }

/-- A restarted simulation that is saved and loaded agrees with what comes back. -/
theorem Restarted.restart (h : s.Restarted) : ∃ t, loadFrom s.collectState = some t ∧ s.Agrees t ∧ t.Restarted := by
  obtain ⟨t, hload, hagrees⟩ := (agrees_loadFrom_iff h.regular).mpr h.recoverable
  exact ⟨t, hload, hagrees, restarted_of_loadFrom h.filed hload⟩

/-- Agreeing is transitive. -/
theorem Agrees.trans {u : Instance} (h : s.Agrees t) (h' : t.Agrees u) : s.Agrees u :=
  ⟨h.components.trans h'.components, h.events.trans h'.events, h.seen.trans h'.seen, h.basePath.trans h'.basePath⟩

/-- Restarted simulations that agree do so after an input. -/
theorem Agrees.input (h : s.Agrees t) (hs : s.Restarted) (ht : t.Restarted) (i : Input) :
    (s.input i).Agrees (t.input i) := by
  have hbuffer : (s.input i).buffer.events = (t.input i).buffer.events ∧
      (s.input i).buffer.seen = (t.input i).buffer.seen := by
    rw [hs.buffer_input, ht.buffer_input]
    cases i with
    | human => exact ⟨h.events, h.seen⟩
    | platform event =>
      dsimp only [IngressBuffer.receive]
      rw [h.seen]
      split
      · exact ⟨h.events, h.seen⟩
      · rw [h.events]
        exact ⟨rfl, rfl⟩
  obtain ⟨buffers, heq, -⟩ := exists_input s i
  obtain ⟨buffers', heq', -⟩ := exists_input t i
  rw [heq, heq'] at hbuffer ⊢
  exact ⟨h.components, hbuffer.1, hbuffer.2, h.basePath⟩

/-- Restarted simulations that agree do so after some inputs. -/
theorem Agrees.inputs (h : s.Agrees t) (hs : s.Restarted) (ht : t.Restarted) (inputs : List Input) :
    (inputs.foldl Instance.input s).Agrees (inputs.foldl Instance.input t) := by
  induction inputs generalizing s t with
  | nil => exact h
  | cons i rest ih => exact ih (h.input hs ht i) (hs.input i) (ht.input i)

/-- A simulation that is restarted now and then agrees with one that gets the inputs alone. -/
theorem Restarted.play (hs : s.Restarted) (ht : t.Restarted) (h : s.Agrees t) (events : List Event) :
    ∃ u, t.play events = some u ∧ u.Restarted ∧
      ((events.filterMap Event.input?).foldl Instance.input s).Restarted ∧
      ((events.filterMap Event.input?).foldl Instance.input s).Agrees u := by
  induction events generalizing s t with
  | nil => exact ⟨t, rfl, ht, hs, h⟩
  | cons event rest ih =>
    cases event with
    | input i => exact ih (hs.input i) (ht.input i) (h.input hs ht i)
    | restart =>
      obtain ⟨loaded, hload, hagrees, hloaded⟩ := ht.restart
      obtain ⟨u, hplay, hu⟩ := ih hs hloaded (h.trans hagrees)
      refine ⟨u, ?_, hu⟩
      unfold Instance.play at hplay ⊢
      rw [List.foldlM_cons, after, hload]
      exact hplay

/-- Once loaded, a simulation does not notice later restarts: it comes back from every one of them, agrees with the
simulation that only got the inputs, and whatever comes in later is drained as there. -/
theorem restarts_unnoticed (filed : Filed saved.allEmails) (h : loadFrom saved = some t) (events : List Event) :
    ∃ u, t.play events = some u ∧ ((events.filterMap Event.input?).foldl input t).Agrees u ∧
      ∀ inputs, u.drained inputs = t.drained (events.filterMap Event.input? ++ inputs) := by
  have hrestarted := restarted_of_loadFrom filed h
  obtain ⟨u, hplay, hu, hplain, hagrees⟩ := hrestarted.play hrestarted ⟨rfl, rfl, rfl, rfl⟩ events
  refine ⟨u, hplay, hagrees, fun inputs => ?_⟩
  have hevents := (hagrees.inputs hplain hu inputs).events
  unfold drained IngressBuffer.waiting
  rw [List.foldl_append, hevents]

/-- The simulation with one task is loaded, hears of a mail, is restarted, and hears of it again and of another. -/
theorem restarts_unnoticed_mail : ∃ t u, loadFrom oneTask.collectState = some t ∧
    t.play [.input (.platform ⟨"imap", "1", "mail", []⟩), .restart, .input (.platform ⟨"imap", "1", "mail", []⟩)] =
      some u ∧
    (u.drained [.platform ⟨"imap", "2", "mail", []⟩]).map IngressEvent.externalId = ["1", "2"] := by
  have hload : loadFrom oneTask.collectState = some _ := rfl
  obtain ⟨u, hplay, -, hdrained⟩ := restarts_unnoticed (fun _ _ h => by cases h) hload
    [.input (.platform ⟨"imap", "1", "mail", []⟩), .restart, .input (.platform ⟨"imap", "1", "mail", []⟩)]
  refine ⟨_, u, hload, hplay, ?_⟩
  rw [hdrained]
  decide +kernel

end Instance

end MyTeam.Legacy

import MyTeam.Kernel.Requests
import MyTeam.Kernel.Wiring

/-!
# The memory of an agent and the history of its grants

The Authority shows an agent what its position may see now, and the agent brings its memory up to
date entry by entry. After an injection the memory holds exactly what the tables say, whatever
happened before. The order of the memory is another matter: an entry keeps the place it got when
its name was first stored. Since a task goes to the first entry that matches, it depends on the
history which one this is, unless only one does.
-/

namespace MyTeam.Agent

open MyTeam.Py MyTeam.Kernel

/-- The Authority, and the memory of one agent. -/
structure Session where
  authority : Authority
  entries : Entries

/-- The commands of a history. -/
inductive Scoping where
  | grant (position device token : String)
  | revoke (position device token : String)
  | inject (agent : String)

/-- The payload of a command. -/
def Scoping.payload : Scoping → List (String × Value)
  | .grant position device token => [("command", .str "grant_request"), ("position", .str position),
      ("device", .str device), ("token", .str token)]
  | .revoke position device token => [("command", .str "revoke_request"), ("position", .str position),
      ("device", .str device), ("token", .str token)]
  | .inject agent => [("command", .str "inject_request"), ("agent", .str agent)]

namespace Session

/-- The Authority answers a command; the answer goes to the agent if it is for this one. -/
def serve (me : String) (s : Session) (command : Scoping) : Session :=
  match s.authority.respond (systemRequest "authority" command.payload) with
  | .error _ => s
  | .ok (authority, reply) =>
    if (reply.field "target").isStr me then
      ⟨authority, (onInject (reply.field "payload") s.entries).1⟩
    else ⟨authority, s.entries⟩

/-- One command after the other. -/
def play (me : String) (s : Session) (history : List Scoping) : Session := history.foldl (serve me) s

/-- Nothing has been injected into the agent yet; grants are on devices. -/
structure Fresh (me : String) (s : Session) : Prop where
  entries : s.entries = []
  injected : s.authority.injected.lookup (.str me) = none
  devices : ∀ grant ∈ s.authority.grants, ∃ name, grant.device = .str name

/-- The end of a history that is completed by an injection of the agent. -/
def Completed (me : String) (t : Session) : Prop :=
  ∃ s history new, Fresh me s ∧ t = s.play me (history ++ [.inject me]) ∧
    (s.play me history).authority.view (.str me) = .ok new

/-- The agent remembers what the Authority has injected last. -/
structure Synced (me : String) (s : Session) : Prop where
  memory : ∀ name, s.entries.lookup name = (s.authority.snapshot (.str me)).lookup name
  distinct : (s.entries.map Prod.fst).Nodup
  devices : ∀ grant ∈ s.authority.grants, ∃ name, grant.device = .str name

variable {me : String} {s t t' : Session}

/-- At first there is nothing to remember. -/
theorem Fresh.synced (h : s.Fresh me) : s.Synced me where
  memory name := by simp [h.entries, Authority.snapshot, h.injected]
  distinct := by simp [h.entries]
  devices := h.devices

section Serve

/-- A grant is added to the table. -/
theorem serve_grant (s : Session) (position device token : String) : s.serve me (.grant position device token) =
    ⟨s.authority.addGrant ⟨.str position, .str device, .str token⟩, s.entries⟩ := by
  simp only [serve, Scoping.payload, Authority.respond_grant, Value.key_str, ok_bind, pure, Except.pure]
  rfl

/-- A grant is dropped from the table. -/
theorem serve_revoke (s : Session) (position device token : String) :
    s.serve me (.revoke position device token) =
      ⟨s.authority.dropGrant ⟨.str position, .str device, .str token⟩, s.entries⟩ := by
  simp only [serve, Scoping.payload, Authority.respond_revoke]
  rfl

/-- An injection that succeeds. -/
theorem serve_inject {agent : String} {new : Entries} (h : s.authority.view (.str agent) = .ok new) :
    s.serve me (.inject agent) =
      ⟨{ s.authority with injected := assign (.str agent) new s.authority.injected },
        if agent = me then
          (onInject (.dict (injectPayload (s.authority.snapshot (.str agent)) new)) s.entries).1
        else s.entries⟩ := by
  simp only [serve, Scoping.payload, Authority.respond_inject, Authority.buildInject_eq, h, ok_bind,
    Value.key_str, pure, Except.pure]
  by_cases hagent : agent = me <;> simp [applicationEvent, Value.field, List.lookup_cons, Value.isStr, hagent]

/-- An injection that fails. -/
theorem serve_inject_error {agent : String} {error : Exc} (h : s.authority.view (.str agent) = .error error) :
    s.serve me (.inject agent) = s := by
  simp only [serve, Scoping.payload, Authority.respond_inject, Authority.buildInject_eq, h, error_bind]

/-- An injection grants nothing and revokes nothing. -/
theorem serve_inject_grants (s : Session) (agent : String) :
    (s.serve me (.inject agent)).authority.grants = s.authority.grants := by
  cases hview : s.authority.view (.str agent) with
  | ok new => rw [serve_inject hview]
  | error error => rw [serve_inject_error hview]

/-- No command of a history registers anything. -/
theorem serve_identities (s : Session) (command : Scoping) :
    (s.serve me command).authority.identities = s.authority.identities := by
  cases command with
  | grant position device token => rw [serve_grant]; rfl
  | revoke position device token => rw [serve_revoke]; rfl
  | inject agent =>
    cases hview : s.authority.view (.str agent) with
    | ok new => rw [serve_inject hview]
    | error error => rw [serve_inject_error hview]

/-- No history registers anything. -/
theorem play_identities (s : Session) (history : List Scoping) :
    (s.play me history).authority.identities = s.authority.identities := by
  induction history generalizing s with
  | nil => rfl
  | cons command rest ih => exact (ih _).trans (serve_identities s command)

end Serve

/-- An injection of the agent leaves it with the view. -/
theorem Synced.inject (h : s.Synced me) {new : Entries} (hview : s.authority.view (.str me) = .ok new) :
    (s.serve me (.inject me)).Synced me ∧
      (s.serve me (.inject me)).authority.grants = s.authority.grants ∧
      ∀ name, (s.serve me (.inject me)).entries.lookup name = new.lookup name := by
  have hmemory := lookup_onInject (Authority.named_view hview) (Authority.nodup_view hview) h.memory
  rw [serve_inject hview, if_pos rfl]
  refine ⟨⟨fun name => ?_, nodup_onInject (Authority.named_view hview) h.distinct, h.devices⟩, rfl, hmemory⟩
  simp only [Authority.snapshot, lookup_assign, if_true, Option.getD_some]
  exact hmemory name

/-- Every command leaves the agent with what was injected last. -/
theorem Synced.serve (h : s.Synced me) (command : Scoping) : (s.serve me command).Synced me := by
  cases command with
  | grant position device token =>
    rw [serve_grant]
    refine ⟨h.memory, h.distinct, fun grant hmem => ?_⟩
    rcases List.mem_insert_iff.mp hmem with rfl | hmem
    · exact ⟨device, rfl⟩
    · exact h.devices grant hmem
  | revoke position device token =>
    rw [serve_revoke]
    exact ⟨h.memory, h.distinct, fun grant hmem => h.devices grant (List.mem_filter.mp hmem).1⟩
  | inject agent =>
    cases hview : s.authority.view (.str agent) with
    | error error => rwa [serve_inject_error hview]
    | ok new =>
      by_cases hagent : agent = me
      · subst hagent
        exact (h.inject hview).1
      · have hother : Key.str me ≠ .str agent := fun heq => hagent (Key.str.inj heq).symm
        rw [serve_inject hview, if_neg hagent]
        refine ⟨fun name => ?_, h.distinct, h.devices⟩
        simpa only [Authority.snapshot, lookup_assign, if_neg hother] using h.memory name

/-- So does every history. -/
theorem Synced.play (h : s.Synced me) (history : List Scoping) : (s.play me history).Synced me := by
  induction history generalizing s with
  | nil => exact h
  | cons command rest ih => exact ih (h.serve command)

/-- After a completed history the memory holds exactly what the position may see. -/
theorem Completed.memory (h : Completed me t) : t.Synced me ∧ ∃ info position,
    t.authority.identities.lookup (.str me) = some info ∧ info.position.key = .ok position ∧
    ∀ name, t.entries.lookup name = (update [] (t.authority.visible
      (t.authority.grants.filter fun grant => grant.position = position))).lookup name := by
  obtain ⟨s, history, new, hfresh, rfl, hview⟩ := h
  obtain ⟨hsynced, hgrants, hmemory⟩ := (hfresh.synced.play history).inject hview
  obtain ⟨key, info, position, hkey, hinfo, hposition, hnew⟩ := Authority.view_eq hview
  obtain rfl := Except.ok.inj hkey
  have hplay : s.play me (history ++ [.inject me]) = (s.play me history).serve me (.inject me) := by
    simp [Session.play]
  rw [hplay]
  refine ⟨hsynced, info, position, by rw [serve_identities, hinfo], hposition, fun name => ?_⟩
  rw [hmemory, hnew, hgrants, Authority.visible, Authority.visible, serve_identities]

/-- Two completed histories that end in the same tables leave the same memory, up to its order;
a task that at most one entry answers goes to the same entry. -/
theorem dispatch_same (h : Completed me t) (h' : Completed me t')
    (hidentities : t'.authority.identities = t.authority.identities)
    (hgrants : ∀ grant, grant ∈ t.authority.grants ↔ grant ∈ t'.authority.grants) :
    (∀ name, t.entries.lookup name = t'.entries.lookup name) ∧
    ∀ content, (∀ entry ∈ t.entries, ∀ other ∈ t.entries, Loud content entry.2 → Loud content other.2 →
      other.2 = entry.2) → matchEntry content t.entries = matchEntry content t'.entries := by
  obtain ⟨hsynced, info, position, hinfo, hposition, hmemory⟩ := h.memory
  obtain ⟨hsynced', info', position', hinfo', hposition', hmemory'⟩ := h'.memory
  obtain rfl : info = info' := Option.some.inj (hinfo.symm.trans (hidentities ▸ hinfo'))
  obtain rfl : position = position' := Except.ok.inj (hposition.symm.trans hposition')
  have hsame (name : Key) : t.entries.lookup name = t'.entries.lookup name := by
    rw [hmemory, hmemory', Authority.visible_congr hidentities (fun grant => ?_) fun grant hmem =>
      hsynced.devices grant (List.mem_filter.mp hmem).1]
    simp only [List.mem_filter, hgrants]
  exact ⟨hsame, fun content honly =>
    matchEntry_perm (perm_of_lookup_eq hsynced.distinct hsynced'.distinct hsame) honly⟩

section Scenario

/-- A tool that is triggered by a word. -/
def wordTool (name trigger : String) : Value :=
  .dict [("name", .str name), ("trigger", .list [.str trigger])]

/-- An agent `a` at `p`, and two devices with one tool each. -/
def twoDevices (trigger trigger' : String) : Session where
  authority := {
    identities := [(.str "a", ⟨.list [], .list [], true, .str "p"⟩),
      (.str "d", ⟨.list [wordTool "t" trigger], .list [], false, .none⟩),
      (.str "e", ⟨.list [wordTool "u" trigger'], .list [], false, .none⟩)]
    grants := []
    injected := [] }
  entries := []

/-- The two devices are granted one after the other, and the agent is told each time. -/
def grantBoth (first second : String) : List Scoping :=
  [.grant "p" first "use", .inject "a", .grant "p" second "use"]

/-- Nothing has been injected yet. -/
theorem twoDevices_fresh (trigger trigger' : String) : (twoDevices trigger trigger').Fresh "a" :=
  ⟨rfl, rfl, by simp [twoDevices]⟩

/-- The end of the history in which `first` is granted before `second`. -/
def afterBoth (trigger trigger' first second : String) : Session :=
  (twoDevices trigger trigger').play "a" (grantBoth first second ++ [.inject "a"])

/-- The history is completed if its last injection succeeds. -/
theorem afterBoth_completed {trigger trigger' first second : String}
    (h : (((twoDevices trigger trigger').play "a" (grantBoth first second)).authority.view
      (.str "a")).toOption.isSome = true) : Completed "a" (afterBoth trigger trigger' first second) := by
  obtain ⟨new, hnew⟩ := Option.isSome_iff_exists.mp h
  exact ⟨_, _, new, twoDevices_fresh trigger trigger', rfl, Authority.eq_ok_of_toOption hnew⟩

/-- Nothing is registered. -/
theorem afterBoth_identities (trigger trigger' : String) :
    (afterBoth trigger trigger' "e" "d").authority.identities =
      (afterBoth trigger trigger' "d" "e").authority.identities := by
  rw [afterBoth, afterBoth, play_identities, play_identities]

/-- Both devices are granted in the end, the second one last. -/
theorem grants_afterBoth (trigger trigger' first second : String) :
    (afterBoth trigger trigger' first second).authority.grants =
      List.insert ⟨.str "p", .str second, .str "use"⟩ [⟨.str "p", .str first, .str "use"⟩] := by
  simp only [afterBoth, grantBoth, play, List.cons_append, List.nil_append, List.foldl_cons, List.foldl_nil]
  rw [serve_inject_grants, serve_grant, Authority.addGrant, serve_inject_grants, serve_grant]
  rfl

/-- It does not matter which one this is. -/
theorem afterBoth_grants (trigger trigger' : String) (grant : Grant) :
    grant ∈ (afterBoth trigger trigger' "d" "e").authority.grants ↔
      grant ∈ (afterBoth trigger trigger' "e" "d").authority.grants := by
  rw [grants_afterBoth, grants_afterBoth, List.mem_insert_iff, List.mem_insert_iff, List.mem_singleton,
    List.mem_singleton, or_comm]

/-- The identifier of the entry that answers a task. -/
def answering (content : String) (entries : Entries) : String :=
  match matchEntry content entries with
  | .ok (some entry) => (entry.field "entry_id").toStr
  | _ => ""

/-- Two tools with different triggers, granted in one order or the other: the memories have
different orders, and the task goes to the same tool. -/
theorem dispatch_same_words :
    (afterBoth "one" "two" "d" "e").entries.map Prod.fst ≠ (afterBoth "one" "two" "e" "d").entries.map Prod.fst ∧
    matchEntry "one" (afterBoth "one" "two" "d" "e").entries =
      matchEntry "one" (afterBoth "one" "two" "e" "d").entries := by
  have hde : Completed "a" (afterBoth "one" "two" "d" "e") := afterBoth_completed (by decide +kernel)
  have hed : Completed "a" (afterBoth "one" "two" "e" "d") := afterBoth_completed (by decide +kernel)
  refine ⟨by decide +kernel, (dispatch_same hde hed (afterBoth_identities "one" "two")
    (afterBoth_grants "one" "two")).2 "one"
    fun entry hentry other hother hloud hloud' => ?_⟩
  have hnames : (afterBoth "one" "two" "d" "e").entries.all fun entry => entry.1 = .str "t" ∨
      (matched "one" entry.2).toOption = some false := by decide +kernel
  have hname {entry : Key × Value} (hmem : entry ∈ (afterBoth "one" "two" "d" "e").entries)
      (hloud : Loud "one" entry.2) : entry.1 = .str "t" :=
    (of_decide_eq_true (List.all_eq_true.mp hnames entry hmem)).resolve_right
      fun hsilent => hloud (Authority.eq_ok_of_toOption hsilent)
  have hdistinct : ((afterBoth "one" "two" "d" "e").entries.map Prod.fst).Nodup := by decide +kernel
  have hlookup := lookup_of_mem hdistinct hentry
  rw [hname hentry hloud, ← hname hother hloud', lookup_of_mem hdistinct hother] at hlookup
  exact Option.some.inj hlookup

/-- Two tools with the same trigger: the task goes to the tool that was granted first. -/
theorem dispatch_follows_history : ∃ t t', Completed "a" t ∧ Completed "a" t' ∧
    t'.authority.identities = t.authority.identities ∧
    (∀ grant, grant ∈ t.authority.grants ↔ grant ∈ t'.authority.grants) ∧
    matchEntry "one" t.entries ≠ matchEntry "one" t'.entries := by
  refine ⟨afterBoth "one" "one" "d" "e", afterBoth "one" "one" "e" "d",
    afterBoth_completed (by decide +kernel), afterBoth_completed (by decide +kernel),
    afterBoth_identities "one" "one", afterBoth_grants "one" "one", fun hsame => ?_⟩
  have hd : answering "one" (afterBoth "one" "one" "d" "e").entries = "tool:d:t" := by decide +kernel
  have he : answering "one" (afterBoth "one" "one" "e" "d").entries = "tool:e:u" := by decide +kernel
  rw [answering, hsame, ← answering, he] at hd
  exact absurd hd (by decide)

end Scenario

end Session

end MyTeam.Agent

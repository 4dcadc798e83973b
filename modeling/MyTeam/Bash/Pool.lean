import MyTeam.Bash.Device
import Mathlib.Data.List.Nodup

/-!
# The pool of jobs

How the tables of the device fit together in every state of every run: a job has its slot while
its driver is under way, a queued job waits behind the one job of its source that has a slot, and
the results that were sent are those of the drivers that returned and of the jobs that expired in
the queue.
-/

namespace MyTeam.Bash

open MyTeam.Py

/-- Whether a job has a driver. -/
inductive Phase where
  | absent
  | holding
  | returned
deriving DecidableEq

/-- A driver under way has a slot, and so has one that raised an exception. -/
def Driver.phase : Driver → Phase
  | .absent => .absent
  | .returned => .returned
  | _ => .holding

/-- A window that is still open is answered. -/
def Window.answer : Window → Window
  | .pending => .answered
  | window => window

/-- The result of this job. -/
def Sent.isResultOf (id : ℕ) : Sent → Bool
  | .result r => r.job = id
  | _ => false

namespace BashDevice

/-- The number of results of a job that were sent. -/
def results (d : BashDevice) (id : ℕ) : ℕ := d.sent.countP (Sent.isResultOf id)

/-- The number of results that a job should have. -/
def expected (d : BashDevice) (id : ℕ) : ℕ :=
  match (d.drivers id).phase with
  | .absent => if id < d.seq ∧ (d.table id).state = .expired then 1 else 0
  | .holding => 0
  | .returned => 1

/-- How the tables of the device fit together. -/
structure Sound (d : BashDevice) : Prop where
  fresh : ∀ id, d.seq ≤ id → (d.drivers id).phase = .absent
  slots : ∀ id, id ∈ d.jobs ↔ (d.drivers id).phase = .holding
  queues : ∀ id source, id ∈ d.pending source ↔
    id < d.seq ∧ (d.table id).source = source ∧ (d.table id).state = .queued
  distinct : ∀ source, (d.pending source).Nodup
  undriven : ∀ id, id < d.seq → (d.drivers id).phase = .absent →
    (d.table id).state = .queued ∨ (d.table id).state = .expired
  queued : ∀ id, id < d.seq → (d.table id).state = .queued →
    (d.drivers id).phase = .absent ∧ d.watches id ≠ .returned
  tally : ∀ id, d.results id = d.expected id
  single : ∀ id other, (d.drivers id).phase = .holding → (d.drivers other).phase = .holding →
    (d.table id).source = (d.table other).source → id = other
  busy : ∀ source, d.sourceBusy source = true ↔
    ∃ id, (d.drivers id).phase = .holding ∧ (d.table id).source = source
  waiting : ∀ source, d.pending source ≠ [] → d.sourceBusy source = true
  watched : ∀ id, d.watches id = .absent ↔ d.seq ≤ id

variable {d d' : BashDevice} {id : ℕ}

/-- A job with a slot exists. -/
theorem Sound.lt_of_holding (h : d.Sound) (hid : (d.drivers id).phase = .holding) : id < d.seq := by
  by_contra hnot
  simp [h.fresh id (not_lt.mp hnot)] at hid

/-- Where the tables are as they were, up to what jobs with a driver are doing, they fit. -/
theorem Sound.congr (h : d.Sound) (seq : d'.seq = d.seq) (jobs : d'.jobs = d.jobs)
    (pending : d'.pending = d.pending) (sourceBusy : d'.sourceBusy = d.sourceBusy)
    (drivers : ∀ id, (d'.drivers id).phase = (d.drivers id).phase)
    (source : ∀ id < d.seq, (d'.table id).source = (d.table id).source)
    (state : ∀ id < d.seq, (d'.table id).state = (d.table id).state ∨
      (d.drivers id).phase ≠ .absent ∧ (d'.table id).state ≠ .queued)
    (watches : ∀ id < d.seq, (d.table id).state = .queued → d'.watches id ≠ .returned)
    (watched : ∀ id, d'.watches id = .absent ↔ d.watches id = .absent)
    (results : ∀ id, d'.results id = d.results id) : d'.Sound := by
  have hqueued (id : ℕ) (hid : id < d.seq) :
      (d'.table id).state = .queued ↔ (d.table id).state = .queued := by
    rcases state id hid with hsame | ⟨hdriver, hstate⟩
    · rw [hsame]
    · exact ⟨fun hq => absurd hq hstate, fun hq => absurd (h.queued id hid hq).1 hdriver⟩
  refine ⟨fun id hid => ?_, fun id => ?_, fun id name => ?_, fun name => ?_, fun id hid habsent => ?_,
    fun id hid hq => ?_, fun id => ?_, fun id other hid hother hsource => ?_, fun name => ?_,
    fun name hne => ?_, fun id => by rw [watched, seq, h.watched]⟩
  · rw [drivers, h.fresh id (seq ▸ hid)]
  · rw [jobs, drivers, h.slots]
  · rw [pending, seq, h.queues]
    refine and_congr_right fun hid => ?_
    rw [source id hid, hqueued id hid]
  · rw [pending]
    exact h.distinct name
  · rw [seq] at hid
    rw [drivers] at habsent
    rcases state id hid with hsame | ⟨hdriver, -⟩
    · rw [hsame]
      exact h.undriven id hid habsent
    · exact absurd habsent hdriver
  · rw [seq] at hid
    have hq' := (hqueued id hid).mp hq
    exact ⟨(drivers id).trans (h.queued id hid hq').1, watches id hid hq'⟩
  · rw [results, h.tally, expected, expected, drivers, seq]
    cases hphase : (d.drivers id).phase with
    | absent =>
      refine if_congr (and_congr_right fun hid => ?_) rfl rfl
      rcases state id hid with hsame | ⟨hdriver, -⟩
      · rw [hsame]
      · exact absurd hphase hdriver
    | _ => rfl
  · rw [drivers] at hid hother
    rw [source id (h.lt_of_holding hid), source other (h.lt_of_holding hother)] at hsource
    exact h.single id other hid hother hsource
  · rw [sourceBusy, h.busy]
    refine exists_congr fun id => ?_
    rw [drivers]
    refine and_congr_right fun hid => ?_
    rw [source id (h.lt_of_holding hid)]
  · rw [pending] at hne
    rw [sourceBusy]
    exact h.waiting name hne

/-- Sending anything but a result. -/
theorem Sound.emit (h : d.Sound) {event : Sent} (hevent : ∀ id, event.isResultOf id = false) :
    (d.emit event).Sound :=
  h.congr rfl rfl rfl rfl (fun _ => rfl) (fun _ _ => rfl) (fun _ _ => Or.inl rfl)
    (fun id hid hq => (h.queued id hid hq).2) (fun _ => Iff.rfl) fun id => by
      simp [results, BashDevice.emit, hevent id]

/-- Changing the record of a job, its state only if it has a driver. -/
theorem Sound.edit (h : d.Sound) {f : Job → Job}
    (hsource : (f (d.table id)).source = (d.table id).source)
    (hstate : id < d.seq → (f (d.table id)).state = (d.table id).state ∨
      (d.drivers id).phase ≠ .absent ∧ (f (d.table id)).state ≠ .queued) : (d.edit id f).Sound := by
  have htable (other : ℕ) (hne : other ≠ id) : (d.edit id f).table other = d.table other := by
    simp [BashDevice.edit, hne]
  have hself : (d.edit id f).table id = f (d.table id) := by simp [BashDevice.edit]
  refine h.congr rfl rfl rfl rfl (fun _ => rfl) (fun other _ => ?_) (fun other hother => ?_)
    (fun other hother hq => (h.queued other hother hq).2) (fun _ => Iff.rfl) fun _ => rfl
  · by_cases hne : other = id
    · rw [hne, hself, hsource]
    · rw [htable other hne]
  · by_cases hne : other = id
    · subst hne
      rw [hself]
      exact hstate hother
    · rw [htable other hne]
      exact Or.inl rfl

/-- Moving a driver on. -/
theorem Sound.drive (h : d.Sound) {driver : Driver} (hphase : driver.phase = (d.drivers id).phase) :
    (d.drive id driver).Sound := by
  refine h.congr rfl rfl rfl rfl (fun other => ?_) (fun _ _ => rfl) (fun _ _ => Or.inl rfl)
    (fun other hother hq => (h.queued other hother hq).2) (fun _ => Iff.rfl) fun _ => rfl
  by_cases hne : other = id
  · subst hne
    simp [BashDevice.drive, hphase]
  · simp [BashDevice.drive, hne]

/-- Moving a watch on, unless it gives up a queued job. -/
theorem Sound.watch (h : d.Sound) (hid : id < d.seq) {watch : Watch} (hpresent : watch ≠ .absent)
    (hwatch : (d.table id).state = .queued → watch ≠ .returned) : (d.watch id watch).Sound := by
  refine h.congr rfl rfl rfl rfl (fun _ => rfl) (fun _ _ => rfl) (fun _ _ => Or.inl rfl)
    (fun other hother hq => ?_) (fun other => ?_) fun _ => rfl
  · by_cases hne : other = id
    · subst hne
      simpa [BashDevice.watch] using hwatch hq
    · simpa [BashDevice.watch, hne] using (h.queued other hother hq).2
  · by_cases hne : other = id
    · subst hne
      simpa [BashDevice.watch, hpresent, h.watched] using hid
    · simp [BashDevice.watch, hne]

/-- An answer that is no result, to the window or to the bus. -/
theorem Sound.deliver (h : d.Sound) {event : Sent} (hevent : ∀ id, event.isResultOf id = false) :
    (d.deliver id event).Sound := by
  unfold BashDevice.deliver
  have hemitted := h.emit hevent
  split
  · exact hemitted.congr rfl rfl rfl rfl (fun _ => rfl) (fun _ _ => rfl) (fun _ _ => Or.inl rfl)
      (fun other hother hq => (hemitted.queued other hother hq).2) (fun _ => Iff.rfl) fun _ => rfl
  · exact hemitted

/-- An answer moves no driver. -/
theorem deliver_drivers {event : Sent} : (d.deliver id event).drivers = d.drivers := by
  unfold BashDevice.deliver
  split <;> rfl

/-- A way to send an event: besides, only the window of the job may be answered. -/
def Sends (id : ℕ) (send : BashDevice → Sent → BashDevice) (answer : Window → Window) : Prop :=
  ∀ d event, send d event = { d with
    windows := Function.update d.windows id (answer (d.windows id)), sent := d.sent ++ [event] }

/-- To the bus. -/
theorem sends_emit (id : ℕ) : Sends id BashDevice.emit fun window => window := by
  intro d event
  simp [BashDevice.emit]

/-- To the window, or to the bus. -/
theorem sends_deliver (id : ℕ) : Sends id (·.deliver id) Window.answer := by
  intro d event
  change d.deliver id event = _
  unfold BashDevice.deliver
  split
  next hpending => simp [BashDevice.emit, hpending, Window.answer]
  next hpending =>
    have hanswer : (d.windows id).answer = d.windows id := by
      cases h : d.windows id <;> simp_all [Window.answer]
    simp [BashDevice.emit, hanswer]

/-- The driver of a job returns with a result, and the next job of its source, if there is one,
takes its place. -/
theorem Sound.relay (h : d.Sound) (hid : (d.drivers id).phase = .holding) (next : Option ℕ)
    (rest : List ℕ) (hpending : d.pending (d.table id).source = next.toList ++ rest)
    (hrest : next = none → rest = []) {d' : BashDevice}
    (seq : d'.seq = d.seq) (watches : d'.watches = d.watches)
    (source : ∀ other, (d'.table other).source = (d.table other).source)
    (state : ∀ other, (d'.table other).state = if next = some other then .running else (d.table other).state)
    (jobs : ∀ other, other ∈ d'.jobs ↔ other ∈ d.jobs ∧ other ≠ id ∨ next = some other)
    (pending : d'.pending = Function.update d.pending (d.table id).source rest)
    (sourceBusy : d'.sourceBusy = Function.update d.sourceBusy (d.table id).source next.isSome)
    (drivers : ∀ other, (d'.drivers other).phase =
      if other = id then .returned else if next = some other then .holding else (d.drivers other).phase)
    (results : ∀ other, d'.results other = d.results other + if other = id then 1 else 0) : d'.Sound := by
  -- the next job was queued, so it had no driver
  have hnext (other : ℕ) (heq : next = some other) : other < d.seq ∧
      (d.table other).source = (d.table id).source ∧ (d.drivers other).phase = .absent ∧ other ∉ rest := by
    have hmem : other ∈ d.pending (d.table id).source := by simp [hpending, heq]
    obtain ⟨hlt, hsource, hq⟩ := (h.queues other _).mp hmem
    have hdistinct := h.distinct (d.table id).source
    rw [hpending, heq] at hdistinct
    exact ⟨hlt, hsource, (h.queued other hlt hq).1, (List.nodup_cons.mp hdistinct).1⟩
  have hne (other : ℕ) (heq : next = some other) : other ≠ id := by
    rintro rfl
    simp [(hnext other heq).2.2.1] at hid
  have hholding (other : ℕ) : (d'.drivers other).phase = .holding ↔
      other ≠ id ∧ (d.drivers other).phase = .holding ∨ next = some other := by
    rw [drivers]
    by_cases hself : other = id
    · simp [hself, show next ≠ some id from fun heq => hne id heq rfl]
    · by_cases heq : next = some other <;> simp [hself, heq]
  have hqueued (other : ℕ) : (d'.table other).state = .queued ↔
      next ≠ some other ∧ (d.table other).state = .queued := by
    rw [state]
    split <;> simp_all
  refine ⟨fun other hlt => ?_, fun other => ?_, fun other name => ?_, fun name => ?_,
    fun other hlt habsent => ?_, fun other hlt hq => ?_, fun other => ?_,
    fun one other hone hother hsource => ?_, fun name => ?_, fun name hname => ?_,
    fun other => by rw [watches, seq, h.watched]⟩
  · rw [seq] at hlt
    have hself : other ≠ id := fun heq => absurd (h.lt_of_holding hid) (heq ▸ not_lt.mpr hlt)
    have hother : next ≠ some other := fun heq => absurd (hnext other heq).1 (not_lt.mpr hlt)
    rw [drivers, if_neg hself, if_neg hother, h.fresh other hlt]
  · rw [jobs, hholding, h.slots, and_comm]
  · rw [pending, seq, source, hqueued]
    by_cases hname : name = (d.table id).source
    · subst hname
      have hmem := h.queues other (d.table id).source
      rw [hpending, List.mem_append, Option.mem_toList] at hmem
      rw [Function.update_self]
      by_cases heq : next = some other
      · simp [heq, (hnext other heq).2.2.2]
      · simpa [heq] using hmem
    · rw [Function.update_of_ne hname, h.queues]
      refine and_congr_right fun _ => and_congr_right fun hsource => ?_
      have hother : next ≠ some other := fun heq => hname (hsource.symm.trans (hnext other heq).2.1)
      simp [hother]
  · rw [pending]
    by_cases hname : name = (d.table id).source
    · subst hname
      rw [Function.update_self]
      have hdistinct := h.distinct (d.table id).source
      rw [hpending] at hdistinct
      exact (List.nodup_append.mp hdistinct).2.1
    · rw [Function.update_of_ne hname]
      exact h.distinct name
  · rw [seq] at hlt
    rw [drivers] at habsent
    rw [state]
    split at habsent
    · cases habsent
    split at habsent
    · cases habsent
    next hother =>
      rw [if_neg hother]
      exact h.undriven other hlt habsent
  · rw [seq] at hlt
    obtain ⟨hother, hq⟩ := (hqueued other).mp hq
    obtain ⟨habsent, hwatch⟩ := h.queued other hlt hq
    have hself : other ≠ id := fun heq => by simp [← heq, habsent] at hid
    rw [drivers, if_neg hself, if_neg hother, watches]
    exact ⟨habsent, hwatch⟩
  · rw [results, h.tally, expected, expected, drivers, seq, state]
    by_cases hself : other = id
    · subst hself
      simp [hid]
    · by_cases heq : next = some other
      · have hlt := (hnext other heq).1
        have hq := (h.queues other _).mp (by simp [hpending, heq] : other ∈ d.pending (d.table id).source)
        simp [hself, heq, (hnext other heq).2.2.1, hq.2.2]
      · simp [hself, heq]
  · rw [source, source] at hsource
    rcases (hholding one).mp hone with ⟨hself, hone⟩ | hone <;>
      rcases (hholding other).mp hother with ⟨hself', hother⟩ | hother
    · exact h.single one other hone hother hsource
    · exact absurd (h.single one id hone hid (hsource.trans (hnext other hother).2.1)) hself
    · exact absurd (h.single other id hother hid (hsource.symm.trans (hnext one hone).2.1)) hself'
    · exact Option.some.inj (hone.symm.trans hother)
  · rw [sourceBusy]
    by_cases hname : name = (d.table id).source
    · subst hname
      rw [Function.update_self, Option.isSome_iff_exists]
      refine exists_congr fun other => ?_
      rw [hholding, source]
      refine ⟨fun heq => ⟨Or.inr heq, (hnext other heq).2.1⟩, fun ⟨hheld, hsource⟩ => ?_⟩
      rcases hheld with ⟨hself, hheld⟩ | heq
      · exact absurd (h.single other id hheld hid hsource) hself
      · exact heq
    · rw [Function.update_of_ne hname, h.busy]
      refine exists_congr fun other => ?_
      rw [hholding, source]
      refine and_congr_left fun hsource => ⟨fun hheld => Or.inl ⟨?_, hheld⟩, fun hheld => ?_⟩
      · rintro rfl
        exact hname hsource.symm
      · rcases hheld with ⟨-, hheld⟩ | heq
        · exact hheld
        · exact absurd (hsource.symm.trans (hnext other heq).2.1) hname
  · rw [sourceBusy]
    rw [pending] at hname
    by_cases hsource : name = (d.table id).source
    · subst hsource
      rw [Function.update_self] at hname ⊢
      cases next with
      | some next => rfl
      | none => exact absurd (hrest rfl) hname
    · rw [Function.update_of_ne hsource] at hname ⊢
      exact h.waiting name hname

/-- A result that is sent counts for its job. -/
theorem results_append_result {e : BashDevice} {error : Option String} {other : ℕ}
    (h : d'.sent = d.sent ++ [e.result id error]) :
    d'.results other = d.results other + if other = id then 1 else 0 := by
  simp only [results, h, List.countP_append, List.countP_singleton, result, Sent.isResultOf, decide_eq_true_eq]
  simp [eq_comm]

/-- A source without queue is released. -/
theorem wakeSource_nil {source : String} (h : d.pending source = []) :
    d.wakeSource source = { d with sourceBusy := Function.update d.sourceBusy source false } := by
  simp only [BashDevice.wakeSource, h]

/-- The first job in the queue of a source is started. -/
theorem wakeSource_cons {source : String} {next : ℕ} {rest : List ℕ} (h : d.pending source = next :: rest) :
    d.wakeSource source = { d with
      pending := Function.update d.pending source rest
      jobs := d.jobs ++ [next]
      table := Function.update d.table next { d.table next with state := .running }
      drivers := Function.update d.drivers next .ready } := by
  simp only [BashDevice.wakeSource, h]
  rfl

/-- A driver concludes. -/
theorem Sound.conclude (h : d.Sound) (hid : (d.drivers id).phase = .holding)
    {send : BashDevice → Sent → BashDevice} {answer : Window → Window} (hsend : Sends id send answer)
    (error : Option String) : (d.conclude id send error).Sound := by
  unfold BashDevice.conclude
  simp only [hsend (d.finish id)]
  generalize hreported : ({ d.finish id with
    windows := Function.update (d.finish id).windows id (answer ((d.finish id).windows id))
    sent := (d.finish id).sent ++ [(d.finish id).result id error] } : BashDevice) = reported
  cases hpending : d.pending (d.table id).source with
  | nil =>
    have hwoken : reported.pending (d.table id).source = [] := by rw [← hreported]; exact hpending
    rw [wakeSource_nil hwoken]
    subst hreported
    refine h.relay hid none [] hpending (fun _ => rfl) rfl rfl (fun _ => rfl) (fun _ => rfl)
      (fun other => ?_) ?_ rfl (fun other => ?_) fun other => results_append_result rfl
    · simp [BashDevice.drive, BashDevice.finish]
    · simp [BashDevice.drive, BashDevice.finish, ← hpending]
    · by_cases hother : other = id <;> simp [BashDevice.drive, BashDevice.finish, hother, Driver.phase]
  | cons next rest =>
    have hwoken : reported.pending (d.table id).source = next :: rest := by rw [← hreported]; exact hpending
    rw [wakeSource_cons hwoken]
    subst hreported
    have hbusy : d.sourceBusy (d.table id).source = true := (h.busy _).mpr ⟨id, hid, rfl⟩
    refine h.relay hid (some next) rest hpending (fun h => nomatch h) rfl rfl (fun other => ?_)
      (fun other => ?_) (fun other => ?_) rfl ?_ (fun other => ?_) fun other => results_append_result rfl
    · by_cases hother : other = next <;> simp [BashDevice.drive, BashDevice.finish, hother]
    · by_cases hother : other = next
      · simp [BashDevice.drive, BashDevice.finish, hother]
      · simp [BashDevice.drive, BashDevice.finish, hother, Ne.symm hother]
    · simp [BashDevice.drive, BashDevice.finish, @eq_comm ℕ next other]
    · simp [BashDevice.drive, BashDevice.finish, ← hbusy]
    · by_cases hother : other = id
      · simp [BashDevice.drive, hother, Driver.phase]
      · by_cases hnext : other = next
        · subst hnext
          simp [BashDevice.drive, hother, Driver.phase]
        · simp [BashDevice.drive, BashDevice.finish, hother, hnext, Ne.symm hnext]

/-- A job expires in the queue. -/
theorem Sound.expire (h : d.Sound) (hid : id < d.seq) (hq : (d.table id).state = .queued)
    {d' : BashDevice} (seq : d'.seq = d.seq) (jobs : d'.jobs = d.jobs)
    (pending : d'.pending = Function.update d.pending (d.table id).source
      ((d.pending (d.table id).source).erase id))
    (sourceBusy : d'.sourceBusy = d.sourceBusy) (drivers : d'.drivers = d.drivers)
    (table : d'.table = Function.update d.table id { d.table id with state := .expired })
    (watches : ∀ other ≠ id, d'.watches other = d.watches other) (watch : d'.watches id ≠ .absent)
    (results : ∀ other, d'.results other = d.results other + if other = id then 1 else 0) : d'.Sound := by
  obtain ⟨habsent, -⟩ := h.queued id hid hq
  have hsource (other : ℕ) : (d'.table other).source = (d.table other).source := by
    by_cases hother : other = id <;> simp [table, hother]
  have hstate (other : ℕ) (hother : other ≠ id) : (d'.table other).state = (d.table other).state := by
    simp [table, hother]
  have hself : (d'.table id).state = .expired := by simp [table]
  refine ⟨fun other hlt => ?_, fun other => ?_, fun other name => ?_, fun name => ?_,
    fun other hlt hundriven => ?_, fun other hlt hqueued => ?_, fun other => ?_,
    fun one other hone hother hsame => ?_, fun name => ?_, fun name hname => ?_, fun other => ?_⟩
  · rw [drivers, h.fresh other (seq ▸ hlt)]
  · rw [jobs, drivers, h.slots]
  · rw [pending, seq, hsource]
    by_cases hother : other = id
    · subst hother
      have hnot : other ∉ (d.pending (d.table other).source).erase other :=
        (h.distinct _).not_mem_erase
      by_cases hname : name = (d.table other).source
      · subst hname
        simp [hnot, hself]
      · have hnever : other ∉ d.pending name := fun hmem => hname ((h.queues other name).mp hmem).2.1.symm
        simp [Function.update_of_ne hname, hnever, hself]
    · rw [hstate other hother, ← h.queues]
      by_cases hname : name = (d.table id).source
      · subst hname
        rw [Function.update_self, List.mem_erase_of_ne hother]
      · rw [Function.update_of_ne hname]
  · rw [pending]
    by_cases hname : name = (d.table id).source
    · subst hname
      rw [Function.update_self]
      exact (h.distinct _).erase id
    · rw [Function.update_of_ne hname]
      exact h.distinct name
  · rw [seq] at hlt
    rw [drivers] at hundriven
    by_cases hother : other = id
    · exact Or.inr (hother ▸ hself)
    · rw [hstate other hother]
      exact h.undriven other hlt hundriven
  · rw [seq] at hlt
    have hother : other ≠ id := fun heq => by simp [heq, hself] at hqueued
    rw [hstate other hother] at hqueued
    rw [drivers, watches other hother]
    exact h.queued other hlt hqueued
  · rw [results, h.tally, expected, expected, drivers, seq]
    by_cases hother : other = id
    · subst hother
      simp [habsent, hid, hself, hq]
    · simp [hother, hstate other hother]
  · rw [drivers] at hone hother
    rw [hsource, hsource] at hsame
    exact h.single one other hone hother hsame
  · rw [sourceBusy, drivers, h.busy]
    simp only [hsource]
  · rw [sourceBusy]
    refine h.waiting name fun hnil => hname ?_
    rw [pending]
    by_cases heq : name = (d.table id).source
    · subst heq
      simp [hnil]
    · rw [Function.update_of_ne heq, hnil]
  · rw [seq]
    by_cases hother : other = id
    · subst hother
      simpa [watch] using hid
    · rw [watches other hother, h.watched]

/-- A running job has a driver. -/
theorem Sound.driven (h : d.Sound) (hid : id < d.seq) (hstate : (d.table id).state ≠ .queued)
    (hexpired : (d.table id).state ≠ .expired) : (d.drivers id).phase ≠ .absent := by
  intro habsent
  rcases h.undriven id hid habsent with hq | hq
  · exact hstate hq
  · exact hexpired hq

/-- The tables of a new device fit. -/
theorem Sound.new {maxJobs : ℤ} {timeout deadline maxDeadline : Number} {outputCap completedCap : ℕ}
    {defaultCwd : Value} {now : ℚ}
    (made : new maxJobs timeout deadline maxDeadline outputCap completedCap defaultCwd now = some d) :
    d.Sound := by
  unfold BashDevice.new at made
  split at made
  · cases made
    constructor <;> simp [Driver.phase, results, expected]
  · cases made

section Admission

variable {source cmd : String} {cwd toolCallId : Value} {timeout deadline : Number}

/-- The number of a new job is in no table. -/
theorem Sound.notMem_pending (h : d.Sound) (name : String) : d.seq ∉ d.pending name :=
  fun hmem => lt_irrefl _ ((h.queues d.seq name).mp hmem).1

/-- A new job is watched. -/
theorem Sound.watched_enlist (h : d.Sound) (id : ℕ) :
    Function.update d.watches d.seq .ready id = .absent ↔ d.seq + 1 ≤ id := by
  by_cases hself : id = d.seq
  · simp [hself]
  · rw [Function.update_of_ne hself, h.watched]
    omega

/-- A new job is queued behind the job of its source. -/
theorem Sound.enqueue (h : d.Sound) (hbusy : d.sourceBusy source = true) :
    { d.enlist source cmd cwd toolCallId timeout deadline .queued with
      pending := Function.update d.pending source (d.pending source ++ [d.seq]) }.Sound := by
  have hfresh := h.fresh d.seq le_rfl
  have hne {id : ℕ} (hid : id < d.seq) : id ≠ d.seq := Nat.ne_of_lt hid
  refine ⟨fun id hid => h.fresh id (Nat.le_of_succ_le hid), h.slots, fun id name => ?_, fun name => ?_,
    fun id hid habsent => ?_, fun id hid hq => ?_, fun id => ?_, fun id other hid hother hsource => ?_,
    fun name => ?_, fun name hname => ?_, h.watched_enlist⟩
  · by_cases hself : id = d.seq
    · subst hself
      by_cases hname : name = source
      · simp [enlist, hname]
      · simp [enlist, hname, Ne.symm hname, h.notMem_pending]
    · have hlt : id < d.seq + 1 ↔ id < d.seq := by omega
      by_cases hname : name = source
      · simp [enlist, hname, hself, hlt, h.queues]
      · simp [enlist, hname, hself, hlt, h.queues]
  · by_cases hname : name = source
    · subst hname
      simpa [List.nodup_append, h.notMem_pending] using
        ⟨h.distinct name, fun id hmem heq => h.notMem_pending name (heq ▸ hmem)⟩
    · simpa [enlist, hname] using h.distinct name
  · by_cases hself : id = d.seq
    · simp [enlist, hself]
    · simpa [enlist, hself] using h.undriven id (by simp [enlist] at hid; omega) habsent
  · by_cases hself : id = d.seq
    · subst hself
      simp [enlist, hfresh]
    · simp only [enlist, Function.update_of_ne hself] at hq ⊢
      exact h.queued id (by simp [enlist] at hid; omega) hq
  · change d.results id = _
    by_cases hself : id = d.seq
    · subst hself
      have htally := h.tally d.seq
      simp only [expected, hfresh, lt_self_iff_false, false_and, if_false] at htally
      simpa [expected, enlist, hfresh] using htally
    · have hlt : id < d.seq + 1 ↔ id < d.seq := by omega
      simpa [expected, enlist, hself, hlt] using h.tally id
  · have hid' := h.lt_of_holding hid
    have hother' := h.lt_of_holding hother
    simp only [enlist, Function.update_of_ne (hne hid'), Function.update_of_ne (hne hother')] at hsource
    exact h.single id other hid hother hsource
  · refine (h.busy name).trans (exists_congr fun id => and_congr_right fun hid => ?_)
    simp [enlist, hne (h.lt_of_holding hid)]
  · by_cases hsource : name = source
    · simpa [enlist, hsource] using hbusy
    · exact h.waiting name (by simpa [enlist, hsource] using hname)

/-- A new job is started. -/
theorem Sound.begin (h : d.Sound) (hbusy : d.sourceBusy source = false) :
    { d.enlist source cmd cwd toolCallId timeout deadline .running with
      jobs := d.jobs ++ [d.seq]
      sourceBusy := Function.update d.sourceBusy source true
      windows := Function.update d.windows d.seq .pending
      drivers := Function.update d.drivers d.seq .ready }.Sound := by
  have hfresh := h.fresh d.seq le_rfl
  have hne {id : ℕ} (hid : id < d.seq) : id ≠ d.seq := Nat.ne_of_lt hid
  -- no job of this source has a slot
  have hidle (id : ℕ) (hid : (d.drivers id).phase = .holding) : (d.table id).source ≠ source := by
    intro hsource
    simp [(h.busy source).mpr ⟨id, hid, hsource⟩] at hbusy
  refine ⟨fun id hid => ?_, fun id => ?_, fun id name => ?_, h.distinct,
    fun id hid habsent => ?_, fun id hid hq => ?_, fun id => ?_, fun id other hid hother hsource => ?_,
    fun name => ?_, fun name hname => ?_, h.watched_enlist⟩
  · have hself : id ≠ d.seq := by simp [enlist] at hid; omega
    simpa [enlist, hself] using h.fresh id (Nat.le_of_succ_le hid)
  · by_cases hself : id = d.seq
    · simp [hself, Driver.phase]
    · simp [hself, h.slots]
  · by_cases hself : id = d.seq
    · subst hself
      simp [enlist, h.notMem_pending]
    · have hlt : id < d.seq + 1 ↔ id < d.seq := by omega
      simp [enlist, hself, hlt, h.queues]
  · by_cases hself : id = d.seq
    · simp [hself, Driver.phase] at habsent
    · simp only [enlist, Function.update_of_ne hself] at habsent ⊢
      exact h.undriven id (by simp [enlist] at hid; omega) habsent
  · by_cases hself : id = d.seq
    · simp [enlist, hself] at hq
    · simp only [enlist, Function.update_of_ne hself] at hq ⊢
      exact h.queued id (by simp [enlist] at hid; omega) hq
  · change d.results id = _
    by_cases hself : id = d.seq
    · subst hself
      have htally := h.tally d.seq
      simp only [expected, hfresh, lt_self_iff_false, false_and, if_false] at htally
      simpa [expected, enlist, Driver.phase] using htally
    · have hlt : id < d.seq + 1 ↔ id < d.seq := by omega
      simpa [expected, enlist, hself, hlt] using h.tally id
  · by_cases hself : id = d.seq <;> by_cases hself' : other = d.seq
    · rw [hself, hself']
    · simp only [Function.update_of_ne hself'] at hother
      simp only [enlist, hself, Function.update_self, Function.update_of_ne hself'] at hsource
      exact absurd hsource.symm (hidle other hother)
    · simp only [Function.update_of_ne hself] at hid
      simp only [enlist, hself', Function.update_self, Function.update_of_ne hself] at hsource
      exact absurd hsource (hidle id hid)
    · simp only [enlist, Function.update_of_ne hself, Function.update_of_ne hself'] at hid hother hsource
      exact h.single id other hid hother hsource
  · by_cases hname : name = source
    · simp only [hname, Function.update_self, true_iff]
      exact ⟨d.seq, by simp [enlist, Driver.phase]⟩
    · simp only [enlist, Function.update_of_ne hname, h.busy]
      refine exists_congr fun id => ?_
      by_cases hself : id = d.seq
      · simp [hself, hfresh, Ne.symm hname]
      · simp [hself]
  · by_cases hsource : name = source
    · simp [hsource]
    · simpa [hsource] using h.waiting name hname

/-- An accepted request. -/
theorem Sound.accept (h : d.Sound) : (d.accept source cmd cwd toolCallId timeout deadline).Sound := by
  unfold BashDevice.accept
  split
  next hbusy => exact h.enqueue hbusy
  next hbusy => exact h.begin (Bool.eq_false_iff.mpr hbusy)

end Admission

section Requests

variable {source : String} {job : Option ℕ}

/-- A request that is refused. -/
theorem Sound.refuse (h : d.Sound) {refusal : Refusal} : (d.refuse source refusal).Sound :=
  h.emit fun _ => rfl

/-- `_on_run`. -/
theorem Sound.onRun (h : d.Sound) {cmd : Option String} {cwd toolCallId : Value} {timeout deadline : Arg} :
    (d.onRun source cmd cwd toolCallId timeout deadline).Sound := by
  unfold BashDevice.onRun
  split
  · exact h.refuse
  split
  · exact h.refuse
  split
  · exact h.refuse
  split
  · split
    · exact h.refuse
    split
    · exact h.refuse
    · exact h.accept
  · exact h.refuse

/-- `_on_kill`. -/
theorem Sound.onKill (h : d.Sound) : (d.onKill source job).Sound := by
  unfold BashDevice.onKill
  split
  · exact h.refuse
  split
  · exact h.refuse
  next id _ hrunning =>
    rw [not_not] at hrunning
    refine h.edit rfl fun hid => Or.inr ⟨h.driven hid ?_ ?_, nofun⟩ <;> simp [hrunning]

/-- `_on_extend`. -/
theorem Sound.onExtend (h : d.Sound) {seconds : Arg} : (d.onExtend source job seconds).Sound := by
  unfold BashDevice.onExtend
  split
  · exact h.refuse
  dsimp only
  split
  · exact h.refuse
  split
  · split
    · exact h.refuse
    split
    · exact h.refuse
    · exact h.edit rfl fun _ => Or.inl rfl
  · exact h.refuse

/-- `_on_status`. -/
theorem Sound.onStatus (h : d.Sound) {offset : Option ℤ} : (d.onStatus source job offset).Sound := by
  unfold BashDevice.onStatus
  split
  · exact h.refuse
  dsimp only
  split
  · exact h.emit fun _ => rfl
  split
  · exact h.emit fun _ => rfl
  · exact h.emit fun _ => rfl

/-- Every request. -/
theorem Sound.respond (h : d.Sound) {request : Request} : (d.respond source request).Sound := by
  cases request with
  | run cmd cwd toolCallId timeout deadline => exact h.onRun
  | status job offset => exact h.onStatus
  | kill job => exact h.onKill
  | extend job seconds => exact h.onExtend
  | unknown command => exact h.refuse

end Requests

/-- A subprocess was started. -/
theorem Sound.launch (h : d.Sound) (hid : (d.drivers id).phase = .holding) : (d.launch id).Sound := by
  have hlaunched : (d.edit id ({ · with proc := some .started })).Sound := h.edit rfl fun _ => Or.inl rfl
  unfold BashDevice.launch
  dsimp only
  split
  · exact hlaunched.drive hid.symm
  · refine (hlaunched.deliver fun _ => rfl).drive ?_
    rw [deliver_drivers]
    exact hid.symm

/-- The output has ended. -/
theorem Sound.reachEof (h : d.Sound) (hid : (d.drivers id).phase = .holding) {driver : Driver}
    (hdriver : driver.phase = .holding) : (d.reachEof id driver).Sound := by
  refine Sound.drive (h.edit rfl fun hlt => ?_) (hdriver.trans hid.symm)
  dsimp only
  split
  · exact Or.inr ⟨by simp [hid], nofun⟩
  · exact Or.inl rfl

/-- Reading raised an exception. -/
theorem Sound.readFails (h : d.Sound) (hid : (d.drivers id).phase = .holding) {message : String} :
    (d.readFails id message).Sound := by
  have hconcluded := h.conclude hid (sends_emit id) (some message)
  unfold BashDevice.readFails
  dsimp only
  split
  · exact hconcluded.edit rfl fun _ => Or.inl rfl
  · exact hconcluded

/-- A round of the watch. -/
theorem Sound.watchRound (h : d.Sound) (hid : id < d.seq) : (d.watchRound id).Sound := by
  unfold BashDevice.watchRound
  dsimp only
  split
  · split
    next hrunning =>
      obtain ⟨hrunning, -⟩ := hrunning
      have hexpired : (d.edit id fun job => { job.killpg with state := .expired }).Sound := by
        refine h.edit rfl fun hid => Or.inr ⟨h.driven hid ?_ ?_, nofun⟩ <;> simp [hrunning]
      exact hexpired.watch hid nofun fun hq => by simp [BashDevice.edit] at hq
    next =>
      split
      next hq =>
        refine h.expire hid hq rfl rfl rfl rfl rfl rfl (fun other hother => ?_) ?_ fun other => ?_
        · simp [BashDevice.watch, BashDevice.emit, BashDevice.edit, BashDevice.dequeue, hother]
        · simp [BashDevice.watch]
        · exact results_append_result rfl
      next hq => exact h.watch hid nofun fun hq' => absurd hq' hq
  · exact h.watch hid nofun fun _ => nofun

/-- Every move keeps the tables together. -/
theorem Sound.step (h : d.Sound) {move : Move} (moved : d.step move = some d') : d'.Sound := by
  cases move with
  | request source request =>
    cases moved
    exact h.respond
  | advance now =>
    simp only [BashDevice.step] at moved
    split at moved
    · cases moved
      exact h.congr rfl rfl rfl rfl (fun _ => rfl) (fun _ _ => rfl) (fun _ _ => Or.inl rfl)
        (fun id hid hq => (h.queued id hid hq).2) (fun _ => Iff.rfl) fun _ => rfl
    · cases moved
  | watch id =>
    have hid (hwatch : d.watches id ≠ .absent) : id < d.seq := not_le.mp ((h.watched id).not.mp hwatch)
    simp only [BashDevice.step] at moved
    split at moved
    next hwatch =>
      cases moved
      exact h.watchRound (hid (by simp [hwatch]))
    next hwatch =>
      split at moved
      · cases moved
      · cases moved
        exact h.watchRound (hid (by simp [hwatch]))
    next => cases moved
  | start id =>
    simp only [BashDevice.step] at moved
    split at moved
    next hdriver =>
      cases moved
      exact h.drive (by rw [hdriver]; rfl)
    next => cases moved
  | launch id =>
    simp only [BashDevice.step] at moved
    split at moved
    next hdriver =>
      cases moved
      exact h.launch (by rw [hdriver]; rfl)
    next => cases moved
  | launchFails id message =>
    simp only [BashDevice.step] at moved
    split at moved
    next hdriver =>
      cases moved
      exact h.conclude (by rw [hdriver]; rfl) (sends_deliver id) (some message)
    next => cases moved
  | launchRaises id =>
    simp only [BashDevice.step] at moved
    split at moved
    next hdriver =>
      cases moved
      exact h.drive (by rw [hdriver]; rfl)
    next => cases moved
  | output id chunk =>
    have happend (job : Job) : (job.append d.outputCap chunk).source = job.source ∧
        (job.append d.outputCap chunk).state = job.state := by
      unfold Job.append
      dsimp only
      split <;> simp
    have hedit : (d.edit id (Job.append d.outputCap chunk)).Sound :=
      h.edit (happend _).1 fun _ => Or.inl (happend _).2
    simp only [BashDevice.step] at moved
    split at moved
    · split at moved
      · cases moved
      · cases moved
        exact hedit
    · split at moved
      · cases moved
      · cases moved
        exact hedit
    · cases moved
  | eof id =>
    simp only [BashDevice.step] at moved
    split at moved
    next hdriver =>
      cases moved
      exact h.reachEof (by rw [hdriver]; rfl) rfl
    next hdriver =>
      cases moved
      exact h.reachEof (by rw [hdriver]; rfl) rfl
    next => cases moved
  | readRaises id message =>
    simp only [BashDevice.step] at moved
    split at moved
    next hdriver =>
      cases moved
      exact h.readFails (by rw [hdriver]; rfl)
    next hdriver =>
      cases moved
      exact h.readFails (by rw [hdriver]; rfl)
    next => cases moved
  | timeout id =>
    simp only [BashDevice.step] at moved
    split at moved
    next drain hdriver =>
      cases moved
      exact (h.deliver fun _ => rfl).drive (by rw [deliver_drivers, hdriver]; rfl)
    next => cases moved
  | exit id code =>
    simp only [BashDevice.step] at moved
    split at moved
    next p _ =>
      split at moved
      · cases moved
        exact h.edit rfl fun _ => Or.inl rfl
      · cases moved
    next => cases moved
  | reap id =>
    simp only [BashDevice.step] at moved
    split at moved
    next p _ =>
      split at moved
      · cases moved
      · cases moved
        exact h.edit rfl fun _ => Or.inl rfl
    next => cases moved
  | resume id =>
    simp only [BashDevice.step] at moved
    split at moved
    · cases moved
    split at moved
    next hdriver =>
      cases moved
      exact h.conclude (by rw [hdriver]; rfl) (sends_deliver id) none
    next hdriver =>
      cases moved
      exact h.conclude (by rw [hdriver]; rfl) (sends_emit id) none
    next => cases moved

/-- The tables fit together in every run. -/
theorem Reachable.sound {rule : BashDevice → Move → Prop} (h : Reachable rule d) : d.Sound := by
  induction h with
  | new made => exact Sound.new made
  | step reached allowed moved ih => exact ih.step moved

end BashDevice

end MyTeam.Bash

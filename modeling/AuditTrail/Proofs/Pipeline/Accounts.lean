import AuditTrail.Proofs.Pipeline.Changes
import AuditTrail.Proofs.Queue.Depth
import Mathlib.Data.ZMod.Basic
import Mathlib.Tactic.Ring
/-!
# Accounts

The counters account for the data: events that were stored are in the rows, deleted or purged, and messages that
were published are on the queue, acknowledged or discarded. The counters wrap around, so what they say is
compared modulo their size.
-/

namespace AuditTrail

/-! ## Counters -/

theorem wrapWord_eq_self {n : Nat} : wrapWord n = n ↔ n < wordBound 64 := by
  constructor
  · intro h
    rw [← h]
    exact Nat.mod_lt _ (by decide)
  · exact Nat.mod_eq_of_lt

private theorem Counter.all_getElem? (c : Counter) : Counter.all[c.ctorIdx]? = some c := by
  cases c <;> rfl

namespace Metrics

variable {m : Metrics}

/-- What a counter says, modulo its size. -/
def tally (m : Metrics) (c : Counter) : ZMod (wordBound 64) := m.get c

/-- There are all counters, and each is a number of 64 bits. -/
structure Whole (m : Metrics) : Prop where
  length : m.counts.length = Counter.all.length
  bounded : ∀ c, m.get c < wordBound 64

theorem whole_zero : zero.Whole := by
  constructor
  · rfl
  · intro c
    cases c <;> decide

private theorem get_add (h : m.Whole) (c d : Counter) (n : Nat) :
    (m.add c n).get d = if c = d then raised (m.get c) n else m.get d := by
  have hslot : c.ctorIdx < m.counts.length := by
    rw [h.length]
    exact (List.getElem?_eq_some_iff.mp c.all_getElem?).1
  have hsame : c.ctorIdx = d.ctorIdx ↔ c = d := by
    constructor
    · intro hidx
      have hc := c.all_getElem?
      rw [hidx, d.all_getElem?] at hc
      exact (Option.some_inj.mp hc).symm
    · exact congrArg _
  unfold add
  generalize raised (m.get c) n = value
  simp only [get, List.getD_eq_getElem?_getD, List.getElem?_set, hsame, if_pos hslot]
  split
  · rfl
  · rfl

theorem tally_add (h : m.Whole) (c d : Counter) (n : Nat) :
    (m.add c n).tally d = m.tally d + if c = d then (n : ZMod (wordBound 64)) else 0 := by
  rw [tally, tally, get_add h]
  split
  · rename_i hcd
    rw [hcd, raised, wrapWord, ZMod.natCast_mod, Nat.cast_add]
  · rw [add_zero]

theorem Whole.add (h : m.Whole) (c : Counter) (n : Nat) : (m.add c n).Whole := by
  constructor
  · rw [← h.length, Metrics.add, List.length_set]
  · intro d
    rw [get_add h]
    split
    · exact Nat.mod_lt _ (by decide)
    · exact h.bounded d

theorem tally_zero (c : Counter) : zero.tally c = 0 := by
  cases c <;> rfl

/-- A counter that says a total modulo its size says the total, wrapped around. -/
theorem Whole.get_eq_wrapWord (h : m.Whole) {c : Counter} {total : Nat} (htotal : m.tally c = total) :
    m.get c = wrapWord total := by
  have hmod := (ZMod.natCast_eq_natCast_iff' _ _ _).mp htotal
  rw [Nat.mod_eq_of_lt (h.bounded c)] at hmod
  exact hmod

end Metrics

namespace Pipeline

variable {p q r : Pipeline} {a b : Nat}

/-! ## Balances -/

/-- The events that were stored, less those there are and those that were purged. -/
def eventBalance (p : Pipeline) : ZMod (wordBound 64) :=
  p.metrics.tally .eventsPersisted - p.records.rows.events.length - p.metrics.tally .retentionPurged

/-- The messages that were published, less those there are and those that were dealt with. -/
def messageBalance (p : Pipeline) : ZMod (wordBound 64) :=
  p.metrics.tally .messagesPublished - p.queue.depth - p.metrics.tally .messagesAcked -
    p.metrics.tally .messagesDiscarded

structure Sound (p : Pipeline) : Prop where
  metrics : p.metrics.Whole
  queue : p.queue.Orderly
  up : p.outages = .empty

/-- From one pipeline to another, which is as sound, some events were deleted and all else is accounted for. -/
structure Balanced (deleted : Nat) (p q : Pipeline) : Prop where
  sound : q.Sound
  events : q.eventBalance = p.eventBalance + deleted
  messages : q.messageBalance = p.messageBalance

/-- A sound pipeline stays so, some events are deleted and all else is accounted for. -/
def Accounts (deleted : Nat) (p q : Pipeline) : Prop := p.Sound → Balanced deleted p q

theorem Accounts.trans (h : Accounts a p q) (k : Accounts b q r) : Accounts (a + b) p r := by
  intro hp
  have hq := h hp
  have hr := k hq.sound
  constructor
  · exact hr.sound
  · rw [hr.events, hq.events, Nat.cast_add, add_assoc]
  · rw [hr.messages, hq.messages]

instance : IsPreorder Pipeline (Accounts 0) where
  refl p hp := ⟨hp, by simp, rfl⟩
  trans _ _ _ h k := h.trans k

theorem Sound.add (h : p.Sound) (c : Counter) (n : Nat) : Sound { p with metrics := p.metrics.add c n } :=
  ⟨h.metrics.add c n, h.queue, h.up⟩

instance : Blind (Accounts 0) where
  count p c n hc hp := by
    simp only [Counter.accounts, List.mem_cons, List.not_mem_nil, or_false, not_or] at hc
    constructor
    · exact hp.add c n
    · simp [eventBalance, Metrics.tally_add hp.metrics, hc]
    · simp [messageBalance, Metrics.tally_add hp.metrics, hc]
  strike p s hp := by
    have hup : (p.outages.strike s).2 = .empty := by rw [hp.up, strike_empty]
    exact ⟨⟨hp.metrics, hp.queue, hup⟩, by simp [eventBalance], rfl⟩
  note p health hp := ⟨⟨hp.metrics, hp.queue, hp.up⟩, by simp [eventBalance], rfl⟩
  measure p n hp := ⟨⟨⟨hp.metrics.length, hp.metrics.bounded⟩, hp.queue, hp.up⟩,
    by simp [eventBalance, Metrics.tally, Metrics.get], rfl⟩

theorem accounts_manage (p : Pipeline) (registry : Registry) (index : SearchIndex) :
    Accounts 0 p { p with registry, index } :=
  fun hp => ⟨⟨hp.metrics, hp.queue, hp.up⟩, by simp [eventBalance], rfl⟩

/-! ## Writes -/

private theorem accounts_persist (ctx : Context) (events : List Event) : Leaves (Accounts 0) (persist ctx events) := by
  intro p
  have hrun := outcome_persist ctx events p
  cases hcreate : p.records.create ctx events with
  | error f =>
    rw [hcreate] at hrun
    exact ends_of_error hrun (Blind.count p _ _ (by decide))
  | ok records =>
    rw [hcreate] at hrun
    obtain ⟨tenant, -, -, -, rows, hrows, rfl⟩ := RecordStore.create_eq_ok.mp hcreate
    apply ends_of_ok hrun
    intro hp
    constructor
    · exact ⟨hp.metrics.add _ _, hp.queue, hp.up⟩
    · simp [eventBalance, Metrics.tally_add hp.metrics, EventTable.length_addAll hrows]
    · simp [messageBalance, Metrics.tally_add hp.metrics]

private theorem ends_publish_accounts (message : Except Failure Message) (p : Pipeline) :
    Ends (publish message) p (fun _ q => Accounts 0 p q) fun _ _ => False := by
  cases message with
  | error f =>
    have hrun : outcome (publish (.error f)) p =
        (.ok (.degraded f.message), { p with metrics := p.metrics.add .publishDegraded 1 }) := by
      simp [publish, degraded]
    exact ends_of_ok hrun (Blind.count p _ _ (by decide))
  | ok m =>
    apply ends_of_ok (outcome_offer m p)
    intro hp
    have htaken : p.refuses = false := by
      rw [refuses, hp.up]
      rfl
    simp only [offer_of_up hp.up, htaken, Bool.false_eq_true, if_false]
    constructor
    · exact ⟨hp.metrics.add _ _, hp.queue.send m, hp.up⟩
    · simp [eventBalance, Metrics.tally_add hp.metrics]
    · simp [messageBalance, Metrics.tally_add hp.metrics, Queue.depth_send]

private theorem accounts_publish (message : Except Failure Message) : Leaves (Accounts 0) (publish message) :=
  fun p => (ends_publish_accounts message p).mono (fun _ _ h => h) fun _ _ h => h.elim

private theorem reads_validated {α : Type} (accepted : Except Failure α) : Reads (validated accepted) := by
  intro R _
  cases accepted with
  | ok a => exact .pure a
  | error f => exact (reads_count (by decide) _ R).bind fun _ => .throw f

theorem accounts_createEvent (now : Instant) (freshId : String) (ctx : Context) (request : NewEvent) :
    Leaves (Accounts 0) (createEvent now freshId ctx request) := by
  apply Leaves.bind (.lift _)
  intro tenant
  apply (reads_count (by decide) _ _).bind
  intro _
  apply (reads_validated _ _).bind
  intro e
  apply (accounts_persist ctx [e]).bind
  intro _
  exact (accounts_publish _).bind fun _ => .pure _

theorem accounts_createEvents (now : Instant) (freshIds : Nat → String) (ctx : Context)
    (requests : List NewEvent) : Leaves (Accounts 0) (createEvents now freshIds ctx requests) := by
  apply Leaves.bind (.lift _)
  intro tenant
  apply Leaves.bind (.lift _)
  intro _
  apply (reads_count (by decide) _ _).bind
  intro _
  apply (reads_validated _ _).bind
  intro events
  apply (reads_validated _ _).bind
  intro _
  apply (accounts_persist ctx events).bind
  intro _
  exact (accounts_publish _).bind fun _ => .pure _

private theorem accounts_deleteRecord (ctx : Context) (id : String) (p : Pipeline) :
    Ends (deleteRecord ctx id) p (fun found q => Accounts (if found then 1 else 0) p q)
      fun _ q => Accounts 0 p q := by
  refine (reads_struck .storeVanish (Accounts 0) p).bind (fun fails q hq => ?_) fun _ _ hq => hq
  cases fails with
  | true => exact .pure hq
  | false =>
    refine (Ends.got q).bind ?_ fun _ _ h => h.elim
    rintro _ _ ⟨rfl, rfl⟩
    refine (Ends.lifted _ _).bind ?_ fun _ _ h => h ▸ hq
    rintro ⟨found, records⟩ _ ⟨hdelete, rfl⟩
    simp only [RecordStore.delete, Failure.bind_eq_ok] at hdelete
    obtain ⟨tenant, -, _, -, hdelete⟩ := hdelete
    cases hdelete
    have hlength := q.records.rows.length_erase tenant id
    have hone : Accounts (if q.records.rows.has tenant id then 1 else 0) q
        { q with records := { q.records with rows := q.records.rows.erase tenant id } } := by
      intro hq
      constructor
      · exact ⟨hq.metrics, hq.queue, hq.up⟩
      · rw [eventBalance, eventBalance, ← hlength, Nat.cast_add]
        ring
      · rfl
    have hdone := hq.trans hone
    rw [Nat.zero_add] at hdone
    exact Ends.bind (Ends.set hdone) (fun _ _ h => .pure h) fun _ _ h => h

theorem accounts_deleteEvent (now : Instant) (ctx : Context) (id : String) (p : Pipeline) :
    Ends (deleteEvent now ctx id) p (fun _ q => Accounts 1 p q) fun _ q => Accounts 0 p q := by
  refine (Leaves.lift (R := Accounts 0) ctx.writeTenant p).bind (fun tenant q hq => ?_) fun _ _ hq => hq
  refine (reads_getRecord ctx id (Accounts 0) q).bind (fun found r hr => ?_) fun _ _ hr => Trans.trans hq hr
  have hr : Accounts 0 p r := Trans.trans hq hr
  cases found with
  | none => exact .throw hr
  | some e =>
    refine (accounts_deleteRecord ctx id r).bind (fun found s hs => ?_) fun _ _ hs => Trans.trans hr hs
    cases found with
    | false => exact .throw (hr.trans hs)
    | true =>
      exact (ends_publish_accounts _ s).bind (fun _ _ ht => .pure (hr.trans (hs.trans ht))) fun _ _ h => h.elim

/-! ## Purges -/

private theorem accounts_purged (p : Pipeline) (stale : Event → Bool) :
    Accounts 0 p { p with
      records := { p.records with rows := p.records.rows.filter fun e => !stale e }
      metrics := p.metrics.add .retentionPurged (p.records.rows.events.countP stale) } := by
  intro hp
  have hlength : p.records.rows.events.length = p.records.rows.events.countP stale +
      (p.records.rows.filter fun e => !stale e).events.length := by
    rw [List.countP_eq_length_filter]
    exact p.records.rows.events.length_eq_length_filter_add stale
  constructor
  · exact ⟨hp.metrics.add _ _, hp.queue, hp.up⟩
  · simp only [eventBalance, Metrics.tally_add hp.metrics, hlength, Nat.cast_add, Nat.cast_zero, reduceCtorEq,
      if_true, if_false]
    ring
  · simp [messageBalance, Metrics.tally_add hp.metrics]

theorem accounts_purge (now : Instant) (ctx : Context) (policy : RetentionPolicy) :
    Leaves (Accounts 0) (purge now ctx policy) := by
  apply Leaves.bind (.lift _)
  intro _
  cases policy.cutoff? now with
  | none => exact .throw _
  | some cutoff =>
    -- The events are gone before they are counted, so the two steps are looked at as one.
    simp only [purgeRecords, bind_assoc]
    apply (reads_pass .storePurge _).bind
    intro _ p
    refine (Ends.got p).bind ?_ fun _ _ h => h.elim
    rintro _ _ ⟨rfl, rfl⟩
    refine (Ends.lifted _ p).bind ?_ fun _ _ h => h ▸ refl p
    rintro ⟨n, records⟩ _ ⟨hpurge, rfl⟩
    simp only [RecordStore.purge, Failure.bind_eq_ok] at hpurge
    obtain ⟨tenant, -, _, -, hpurge⟩ := hpurge
    cases hpurge
    have hdone := accounts_purged p (RecordStore.isStale tenant cutoff)
    refine Ends.bind (Ends.set rfl : Ends _ p (fun _ q => _ = q) fun _ _ => False) ?_ fun _ _ h => h.elim
    rintro _ _ rfl
    rw [pure_bind]
    exact Ends.bind (Ends.modify hdone) (fun _ _ h => .pure h) fun _ _ h => h

private theorem accounts_purgeOrSkip (now : Instant) (policy : RetentionPolicy) (t : Tenant) :
    Leaves (Accounts 0) (purgeOrSkip now policy t) := by
  apply Leaves.returned
  apply Leaves.tryCatch
  · exact (accounts_purge now _ policy).bind fun _ => .pure _
  · intro f
    split
    · exact (Leaves.throw _).bind fun _ => .pure _
    · exact .pure _

theorem accounts_runRetention (now : Instant) (policy : RetentionPolicy) :
    Leaves (Accounts 0) (runRetention now policy) := by
  apply (reads_listTenants _).bind
  intro tenants
  exact (Leaves.mapM (accounts_purgeOrSkip now policy) tenants).bind fun _ => .pure _

/-! ## Tenants -/

private theorem accounts_replaceRegistry (change : Registry → Except Failure Registry) :
    Leaves (Accounts 0) (do
      let p ← get
      let registry ← change p.registry
      set { p with registry } : Action Unit) := by
  intro p
  apply (ends_replaceRegistry change p).mono
  · rintro _ _ ⟨registry, -, rfl⟩
    exact accounts_manage p registry p.index
  · rintro _ _ rfl
    exact refl p

theorem accounts_registerTenant (now : Instant) (freshId keyUuid : String) (request : NewTenant) :
    Leaves (Accounts 0) (registerTenant now freshId keyUuid request) := by
  apply Leaves.bind (.lift _)
  intro t
  have hcreate : Leaves (Accounts 0) (createTenant t) := accounts_replaceRegistry (·.create t)
  have hpartition : Leaves (Accounts 0) (createPartition t.id now) := by
    apply (reads_pass .indexCreate _).bind
    intro _
    exact .modify fun p => accounts_manage p p.registry _
  apply hcreate.bind
  intro _
  exact (Leaves.tryCatch hpartition fun _ => .pure _).bind fun _ => .pure _

theorem accounts_renameTenant (now : Instant) (id : TenantId) (request : TenantUpdate) :
    Leaves (Accounts 0) (renameTenant now id request) := by
  apply Leaves.bind (.lift _)
  intro _
  apply (reads_requireTenant id _).bind
  intro t
  exact (accounts_replaceRegistry (·.update (t.rename request.name now))).bind fun _ => .pure _

theorem accounts_removeTenant (id : TenantId) : Leaves (Accounts 0) (removeTenant id) := by
  have hdelete : Leaves (Accounts 0) (deleteTenant id) := .modifyGet fun p => accounts_manage p _ p.index
  have hdrop : Leaves (Accounts 0) (dropIndex id) := by
    apply (reads_pass .indexDrop _).bind
    intro _
    exact .modify fun p => accounts_manage p p.registry _
  apply hdelete.bind
  intro found
  cases found with
  | false => exact .throw _
  | true => exact Leaves.returned (Leaves.tryCatch (hdrop.bind fun _ => .pure _) fun _ => .pure _)

/-! ## The queue -/

theorem accounts_receiveMessages (max wait : Nat) : Leaves (Accounts 0) (receiveMessages max wait) := by
  apply (reads_pass .queueReceive _).bind
  intro _
  apply Leaves.modifyGet
  intro p hp
  obtain ⟨_, hreceived⟩ := p.queue.receive_handsOut max wait p.clock
  constructor
  · exact ⟨hp.metrics, hreceived.orderly hp.queue, hp.up⟩
  · simp [eventBalance]
  · simp [messageBalance, hreceived.depth]

end Pipeline

end AuditTrail

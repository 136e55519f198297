import AuditTrail.Proofs.Pipeline.Accounts
import AuditTrail.Proofs.Worker.Applied
import AuditTrail.Proofs.Worker.Cycles
/-!
# The accounts of workers

A message that a worker counts as acknowledged or discarded is off the queue: the worker holds the lease of each
delivery that it was handed out until it has handled it.
-/

namespace AuditTrail

namespace Pipeline

variable {p q : Pipeline} {token : String}

/-! ## Projecting -/

/-- All is accounted for, and the queue is as it was. -/
structure Rests (p q : Pipeline) : Prop where
  accounts : Accounts 0 p q
  queue : q.queue = p.queue

instance : IsPreorder Pipeline Rests where
  refl p := ⟨refl p, rfl⟩
  trans _ _ _ h k := ⟨Trans.trans h.accounts k.accounts, k.queue.trans h.queue⟩

instance : Blind Rests where
  count p c n hc := ⟨Blind.count p c n hc, rfl⟩
  strike p s := ⟨Blind.strike p s, rfl⟩
  note p health := ⟨Blind.note p health, rfl⟩
  measure p n := ⟨Blind.measure p n, rfl⟩

private theorem rests_index (p : Pipeline) (index : SearchIndex) : Rests p { p with index } :=
  ⟨accounts_manage p p.registry index, rfl⟩

private theorem rests_replaceIndex (seam : Seam) (change : SearchIndex → Except Failure SearchIndex) :
    Leaves Rests (do
      pass seam
      let p ← get
      let index ← change p.index
      set { p with index } : Action Unit) := by
  apply (reads_pass seam Rests).bind
  intro _ p
  refine (Ends.got p).bind ?_ fun _ _ h => h.elim
  rintro _ _ ⟨rfl, rfl⟩
  refine (Ends.lifted _ p).bind ?_ fun _ _ h => h ▸ refl p
  rintro index _ ⟨-, rfl⟩
  exact .set (rests_index p index)

private theorem rests_applyMessage (m : Message) : Leaves Rests (applyMessage m) := by
  have hmake (x : Partition) : Leaves Rests (indexTarget.createPartition x) := by
    unfold IndexTarget.createPartition
    split
    · apply (reads_pass .indexCreate Rests).bind
      intro _
      exact .modify fun p => rests_index p _
    · exact .throw _
  have hput (ctx : Context) (events : List Event) : Leaves Rests (indexTarget.put ctx events) := by
    obtain ⟨seam, hseam⟩ := put_indexTarget ctx events
    rw [hseam]
    exact rests_replaceIndex seam (·.put ctx events)
  apply Leaves.bind
  · apply Leaves.bind (.lift _)
    intro action
    cases action with
    | upsert events =>
      apply (Leaves.forM hmake _).bind
      intro _
      exact (hput _ _).bind fun _ => .pure _
    | delete id => exact (rests_replaceIndex .indexDelete (·.delete _ id)).bind fun _ => .pure _
  · intro n
    exact reads_count (c := .eventsIndexed) (by decide) n Rests

/-! ## Handling -/

private theorem rests_note (d : Delivery) (p : Pipeline) : Rests p ((workerBackend.note d).run p).2 := by
  have hreceived : Rests p { p with metrics := p.metrics.add .messagesReceived 1 } :=
    Blind.count p _ 1 (by decide)
  unfold WorkerBackend.note
  by_cases hagain : 1 < d.count
  · rw [if_pos hagain]
    exact Trans.trans hreceived (Blind.count (R := Rests) _ .messagesRedelivered 1 (by decide))
  · rw [if_neg hagain]
    exact hreceived

theorem run_bind {α β : Type} (a : StateM Pipeline α) (f : α → StateM Pipeline β) (p : Pipeline) :
    (a >>= f).run p = (f (a.run p).1).run (a.run p).2 := rfl

private theorem run_count (c : Counter) (n : Nat) (p : Pipeline) :
    (workerBackend.count c n).run p = ((), { p with metrics := p.metrics.add c n }) := rfl

private theorem run_acknowledged (hup : p.outages = .empty) (htoken : token ∈ p.queue.held) :
    (workerBackend.acknowledged token).run p = (true, { p with queue := p.queue.settle token }) := by
  have hrun : ((workerBackend.acknowledge token).run.run p : Except Failure Unit × Pipeline) =
      (.ok (), { p with queue := p.queue.settle token }) := by
    have hacknowledge := outcome_acknowledge hup token
    rw [Queue.acknowledge_held htoken] at hacknowledge
    exact hacknowledge
  unfold WorkerBackend.acknowledged
  rw [run_bind, hrun]
  rfl

private theorem balanced_settle (hp : p.Sound) (htoken : token ∈ p.queue.held) {c : Counter}
    (hc : c = .messagesAcked ∨ c = .messagesDiscarded) :
    Balanced 0 p { p with queue := p.queue.settle token, metrics := p.metrics.add c 1 } := by
  have hdepth := Queue.depth_settle hp.queue htoken
  constructor
  · exact ⟨hp.metrics.add c 1, hp.queue.settle token, hp.up⟩
  · rcases hc with rfl | rfl <;> simp [eventBalance, Metrics.tally_add hp.metrics]
  · rw [messageBalance, messageBalance, ← hdepth]
    rcases hc with rfl | rfl <;> simp [Metrics.tally_add hp.metrics] <;> ring

/-- A delivery was handled: its lease has ended or goes on, and all others go on. -/
structure Handled (token : String) (p q : Pipeline) : Prop where
  balanced : Balanced 0 p q
  queue : q.queue = p.queue ∨ q.queue = p.queue.settle token

private theorem handled_of_held (d : Delivery) (hp : p.Sound) (hheld : d.token ∈ p.queue.held) :
    Handled d.token p ((workerBackend.handle d).run p).2 := by
  have hnoted := rests_note d p
  rw [WorkerBackend.handle_eq, run_bind]
  generalize ((workerBackend.note d).run p).2 = q at hnoted
  have hdone {q : Pipeline} (hq : Rests p q) {c : Counter} (hc : c = .messagesAcked ∨ c = .messagesDiscarded) :
      Handled d.token p { q with queue := q.queue.settle d.token, metrics := q.metrics.add c 1 } := by
    have hsettled := balanced_settle (hq.accounts hp).sound (hq.queue ▸ hheld) hc
    exact ⟨(hq.accounts.trans fun _ => hsettled) hp, .inr (by rw [hq.queue])⟩
  cases Message.decode d.body with
  | error f =>
    simp only [WorkerBackend.discard, run_bind, run_count]
    rw [run_acknowledged]
    · exact hdone hnoted (.inr rfl)
    · exact (hnoted.accounts hp).sound.up
    · exact hnoted.queue ▸ hheld
  | ok m =>
    have happlied : Rests q (outcome (applyMessage m) q).2 := after_of_ends (rests_applyMessage m _)
    simp only [run_bind]
    change Handled d.token p
      ((workerBackend.conclude d.token (outcome (applyMessage m) q).1).run (outcome (applyMessage m) q).2).2
    generalize outcome (applyMessage m) q = result at happlied
    rcases result with ⟨f | _, r⟩
    · have hr : Rests p r := Trans.trans hnoted happlied
      have hfailed : Rests p { r with metrics := r.metrics.add .projectionFailures 1 } :=
        Trans.trans hr (Blind.count (R := Rests) r _ 1 (by decide))
      exact ⟨hfailed.accounts hp, .inl hfailed.queue⟩
    · have hr : Rests p r := Trans.trans hnoted happlied
      rw [WorkerBackend.conclude, run_bind, run_acknowledged (hr.accounts hp).sound.up (hr.queue ▸ hheld)]
      exact hdone hr (.inl rfl)

private theorem balanced_process {deliveries : List Delivery} (r : CycleReport) (hp : p.Sound)
    (hdistinct : (deliveries.map Delivery.token).Nodup)
    (hheld : ∀ token ∈ deliveries.map Delivery.token, token ∈ p.queue.held) :
    Balanced 0 p
      ((deliveries.foldlM (fun (r : CycleReport) d => do
        return r.add (← workerBackend.handle d)) r).run p).2 := by
  induction deliveries generalizing p r with
  | nil => exact (refl p : Accounts 0 p p) hp
  | cons d rest ih =>
    rw [List.map_cons, List.nodup_cons] at hdistinct
    have hhandled := handled_of_held d hp (hheld d.token (by simp))
    have hothers : ∀ token ∈ rest.map Delivery.token,
        token ∈ ((workerBackend.handle d).run p).2.queue.held := by
      intro token htoken
      have hbefore : token ∈ p.queue.held := hheld token (List.mem_cons_of_mem _ htoken)
      rcases hhandled.queue with hsame | hsettled
      · rw [hsame]
        exact hbefore
      · rw [hsettled, Queue.held_settle]
        have hne : token ≠ d.token := fun h => hdistinct.1 (h ▸ htoken)
        simpa using ⟨hbefore, hne⟩
    rw [List.foldlM_cons, run_bind]
    have hrest := ih (r.add ((workerBackend.handle d).run p).1) hhandled.balanced.sound hdistinct.2 hothers
    have hboth : Accounts 0 p _ := Accounts.trans (fun _ => hhandled.balanced) fun _ => hrest
    exact hboth hp

theorem balanced_poll (w : WorkerSettings) (hp : p.Sound) : Balanced 0 p (outcome (poll w) p).2 := by
  have hreceive := outcome_receiveMessages hp.up w.maxMessages w.waitMillis
  obtain ⟨_, hhanded⟩ := p.queue.receive_handsOut w.maxMessages w.waitMillis p.clock
  obtain ⟨hdistinct, hheld⟩ := hhanded.holds hp.queue
  have hreceived : Accounts 0 p (outcome (receiveMessages w.maxMessages w.waitMillis) p).2 :=
    after_of_ends (accounts_receiveMessages w.maxMessages w.waitMillis p)
  unfold poll
  rw [outcome_bind]
  rw [hreceive] at hreceived ⊢
  rw [proceed_ok]
  have hprocessed := balanced_process .empty (hreceived hp).sound hdistinct hheld
  exact (hreceived.trans fun _ => hprocessed) hp

end Pipeline

end AuditTrail

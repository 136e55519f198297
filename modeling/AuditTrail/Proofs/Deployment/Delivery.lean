import AuditTrail.Proofs.Deployment.Basic
import AuditTrail.Proofs.Worker.Applied
/-!
# Nothing published is lost

`Deployment.Sound` is what every move keeps: the record store has absorbed the published messages, the
documents of the index have absorbed the applied ones, and a published message has been applied or is still
on the queue.
-/

namespace AuditTrail

open Pipeline

namespace Deployment

/-- What holds of every deployment whose published messages are readable. -/
structure Sound (d : Deployment) : Prop where
  up : d.pipeline.outages = .empty
  tokens : Function.Injective d.pipeline.queue.tokens
  tracks : d.pipeline.queue.Tracks d.received
  /-- What was applied is what a delivery was read as. -/
  read : ∀ a ∈ d.applied, a.1 ∈ d.received ∧ Message.decode a.1.body = .ok a.2
  /-- A text on the queue is that of a published message or of none. -/
  queued : ∀ b ∈ d.pipeline.queue.bodies, ∀ m, Message.decode b = .ok m → m ∈ d.published
  /-- So is the text of a delivery. -/
  delivered : ∀ x ∈ d.received, ∀ m, Message.decode x.body = .ok m → m ∈ d.published
  /-- A published message has been applied, or is on the queue. -/
  kept : ∀ m ∈ d.published, m ∈ d.appliedMessages ∨ m.encode ∈ d.pipeline.queue.bodies
  rows : d.pipeline.records.rows = EventTable.absorbAll .empty d.published
  documents : d.pipeline.index.documents = EventTable.absorbAll .empty d.appliedMessages

namespace Sound

variable {d : Deployment}

theorem new (visibility : Nat) {tokens : Nat → String} (h : Function.Injective tokens) :
    (Deployment.new visibility tokens).Sound where
  up := rfl
  tokens := h
  tracks := by
    refine ⟨?_, ?_, ?_⟩ <;> simp [Deployment.new, Pipeline.new, Queue.new]
  read := by simp [Deployment.new]
  queued := by simp [Deployment.new, Pipeline.new, Queue.new, Queue.bodies]
  delivered := by simp [Deployment.new]
  kept := by simp [Deployment.new]
  rows := rfl
  documents := rfl

theorem hand (h : d.Sound) {p : Pipeline} {deliveries : List Delivery} (hup : p.outages = .empty)
    (hrecords : p.records = d.pipeline.records)
    (hdocuments : p.index.documents = d.pipeline.index.documents)
    (hqueue : d.pipeline.queue.Hands deliveries p.queue) :
    ({ d.set p with received := d.received ++ deliveries } : Deployment).Sound where
  up := hup
  tokens := by
    change Function.Injective p.queue.tokens
    rw [hqueue.tokens]
    exact h.tokens
  tracks := hqueue.tracks d.received h.tracks
  read a ha := ⟨List.mem_append_left _ (h.read a ha).1, (h.read a ha).2⟩
  queued b hb := h.queued b ((hqueue.bodies b).mp hb)
  delivered x hx := by
    rcases List.mem_append.mp hx with hx | hx
    · exact h.delivered x hx
    · exact h.queued x.body (hqueue.delivered x hx)
  kept m hm := (h.kept m hm).imp_right (hqueue.bodies m.encode).mpr
  rows := by
    change p.records.rows = _
    rw [hrecords]
    exact h.rows
  documents := by
    change p.index.documents = _
    rw [hdocuments]
    exact h.documents

private theorem same (h : d.Sound) {p : Pipeline} (hup : p.outages = .empty)
    (hrecords : p.records = d.pipeline.records)
    (hdocuments : p.index.documents = d.pipeline.index.documents)
    (hqueue : d.pipeline.queue.Hands [] p.queue) : (d.set p).Sound := by
  have hhand := h.hand hup hrecords hdocuments hqueue
  rw [List.append_nil] at hhand
  exact hhand

theorem published_of_applied (h : d.Sound) : ∀ m ∈ d.appliedMessages, m ∈ d.published := by
  intro m hm
  obtain ⟨a, ha, rfl⟩ := List.mem_map.mp hm
  obtain ⟨hreceived, hread⟩ := h.read a ha
  exact h.delivered a.1 hreceived a.2 hread

/-! ## Moves -/

private theorem publish (h : d.Sound) {p : Pipeline} {m : Message} (hup : p.outages = .empty)
    (hrows : p.records.rows = d.pipeline.records.rows.absorb m) (hindex : p.index = d.pipeline.index)
    (hqueue : p.queue = d.pipeline.queue.send m) (hread : Message.decode m.encode = .ok m) :
    ({ d.set p with published := d.published ++ [m] } : Deployment).Sound where
  up := hup
  tokens := by
    change Function.Injective p.queue.tokens
    rw [hqueue]
    exact h.tokens
  tracks := by
    change p.queue.Tracks d.received
    rw [hqueue]
    exact h.tracks.of_subset fun l hl => hl
  read := h.read
  queued b hb m' hm' := by
    change b ∈ p.queue.bodies at hb
    rw [hqueue, Queue.send, Queue.mem_bodies_sendText] at hb
    rcases hb with hb | rfl
    · exact List.mem_append_left _ (h.queued b hb m' hm')
    · rw [hread] at hm'
      cases hm'
      exact List.mem_append_right _ (List.mem_singleton.mpr rfl)
  delivered x hx m' hm' := List.mem_append_left _ (h.delivered x hx m' hm')
  kept m' hm' := by
    change _ ∨ m'.encode ∈ p.queue.bodies
    rw [hqueue, Queue.send, Queue.mem_bodies_sendText]
    rcases List.mem_append.mp hm' with hm' | hm'
    · exact (h.kept m' hm').imp_right .inl
    · rw [List.mem_singleton.mp hm']
      exact .inr (.inr rfl)
  rows := by
    change p.records.rows = _
    rw [hrows, h.rows, EventTable.absorbAll_append]
  documents := by
    change p.index.documents = _
    rw [hindex]
    exact h.documents

theorem write (h : d.Sound) (w : Write) (hread : (d.after (.write w)).Readable) :
    (d.after (.write w)).Sound := by
  change (d.afterWrite w).Readable at hread
  change (d.afterWrite w).Sound
  unfold afterWrite at hread ⊢
  cases hx : w.effect d.pipeline.records with
  | ok x =>
    obtain ⟨metrics, hw⟩ := Write.outcome_perform_ok h.up hx
    simp only [Write.published, hx, hw] at hread ⊢
    exact h.publish h.up (Write.effect_rows hx) rfl rfl (hread x.message (by simp))
  | error f =>
    obtain ⟨metrics, hw⟩ := Write.outcome_perform_error h.up hx
    simp only [Write.published, hx, hw, List.append_nil]
    exact h.same h.up rfl rfl (Queue.Hands.refl _)

theorem receive (h : d.Sound) (max wait : Nat) : (d.after (.receive max wait)).Sound := by
  have hhands := Queue.receive_hands h.tokens max wait d.pipeline.clock
  change (d.afterReceive max wait).Sound
  unfold afterReceive
  rw [outcome_receiveMessages h.up]
  exact h.hand h.up rfl rfl hhands

private theorem absorbed (h : d.Sound) {p : Pipeline} {x : Delivery} {m : Message}
    (hx : x ∈ d.received) (hread : Message.decode x.body = .ok m) (hup : p.outages = .empty)
    (hrecords : p.records = d.pipeline.records) (hqueue : p.queue = d.pipeline.queue)
    (hdocuments : p.index.documents = d.pipeline.index.documents.absorb m) :
    ({ d.set p with applied := d.applied ++ [(x, m)] } : Deployment).Sound where
  up := hup
  tokens := by
    change Function.Injective p.queue.tokens
    rw [hqueue]
    exact h.tokens
  tracks := by
    change p.queue.Tracks d.received
    rw [hqueue]
    exact h.tracks
  read a ha := by
    rcases List.mem_append.mp ha with ha | ha
    · exact h.read a ha
    · rw [List.mem_singleton.mp ha]
      exact ⟨hx, hread⟩
  queued b hb := by
    change b ∈ p.queue.bodies at hb
    rw [hqueue] at hb
    exact h.queued b hb
  delivered := h.delivered
  kept m' hm' := by
    change m' ∈ (d.applied ++ [(x, m)]).map Prod.snd ∨ m'.encode ∈ p.queue.bodies
    rw [hqueue, List.map_append, List.mem_append]
    exact (h.kept m' hm').imp_left .inl
  rows := by
    change p.records.rows = _
    rw [hrecords]
    exact h.rows
  documents := by
    change p.index.documents = EventTable.absorbAll .empty ((d.applied ++ [(x, m)]).map Prod.snd)
    rw [hdocuments, h.documents, List.map_append]
    exact (EventTable.absorbAll_append _ _).symm

theorem apply (h : d.Sound) {x : Delivery} (hx : d.Allows (.apply x)) :
    (d.after (.apply x)).Sound := by
  cases hread : Message.decode x.body with
  | error f =>
    change (d.afterApply x).Sound
    rw [afterApply, hread]
    exact h
  | ok m =>
    rw [after_apply hread, afterMessage, outcome_applyMessage h.up (Message.check_of_decode hread)]
    exact h.absorbed hx hread h.up rfl rfl rfl

private theorem applied_of_acknowledge (h : d.Sound) {x : Delivery} (hx : d.Allows (.acknowledge x)) :
    x ∈ d.received ∧ ∀ m, Message.decode x.body = .ok m → m ∈ d.appliedMessages := by
  rcases hx with hx | ⟨hx, hunread⟩
  · obtain ⟨a, ha, rfl⟩ := List.mem_map.mp hx
    obtain ⟨hx, hread⟩ := h.read a ha
    refine ⟨hx, ?_⟩
    intro m hm
    rw [hread] at hm
    cases hm
    exact List.mem_map_of_mem ha
  · refine ⟨hx, ?_⟩
    intro m hm
    rw [readable, hm] at hunread
    cases hunread

theorem acknowledge (h : d.Sound) {x : Delivery} (hx : d.Allows (.acknowledge x))
    (hread : d.Readable) : (d.after (.acknowledge x)).Sound := by
  obtain ⟨hreceived, happlied⟩ := h.applied_of_acknowledge hx
  change (d.set (outcome (Pipeline.acknowledge x.token) d.pipeline).2).Sound
  rw [outcome_acknowledge h.up]
  cases hqueue : d.pipeline.queue.acknowledge x.token with
  | error f => exact h.same h.up rfl rfl (Queue.Hands.refl _)
  | ok queue =>
    have hbodies (b : String) := Queue.mem_bodies_acknowledge h.tracks hreceived hqueue (b := b)
    obtain ⟨htokens, htracks⟩ := h.tracks.of_acknowledge hqueue
    refine ⟨h.up, ?_, htracks, h.read, ?_, h.delivered, ?_, h.rows, h.documents⟩
    · change Function.Injective queue.tokens
      rw [htokens]
      exact h.tokens
    · intro b hb
      exact h.queued b ((hbodies b).1 hb)
    · intro m hm
      rcases h.kept m hm with hdone | hqueued
      · exact .inl hdone
      · rcases (hbodies m.encode).2 hqueued with hstill | hgone
        · exact .inr hstill
        · exact .inl (happlied m (hgone ▸ hread m hm))

theorem inject (h : d.Sound) {body : String} (hbody : d.Allows (.inject body)) :
    (d.after (.inject body)).Sound := by
  have hbodies (b : String) := Queue.mem_bodies_sendText d.pipeline.queue body b
  refine ⟨h.up, h.tokens, h.tracks.of_subset fun l hl => hl, h.read, ?_, h.delivered, ?_, h.rows,
    h.documents⟩
  · intro b hb m hm
    rcases (hbodies b).mp hb with hb | rfl
    · exact h.queued b hb m hm
    · have hunread : readable b = false := hbody
      rw [readable, hm] at hunread
      cases hunread
  · intro m hm
    exact (h.kept m hm).imp_right fun hb => (hbodies m.encode).mpr (.inl hb)

theorem reorder (h : d.Sound) {ready : List QueueEntry} (hready : d.Allows (.reorder ready)) :
    (d.after (.reorder ready)).Sound :=
  h.same h.up rfl rfl (Queue.reorder_hands hready)

theorem after (h : d.Sound) {v : Move} (hallowed : d.Allows v) (hread : d.Readable)
    (hread' : (d.after v).Readable) : (d.after v).Sound := by
  cases v with
  | write w => exact h.write w hread'
  | receive max wait => exact h.receive max wait
  | apply x => exact h.apply hallowed
  | acknowledge x => exact h.acknowledge hallowed hread
  | pass millis => exact h.same h.up rfl rfl (Queue.Hands.refl _)
  | releaseAll => exact h.same h.up rfl rfl (Queue.releaseAll_hands _)
  | inject body => exact h.inject hallowed
  | reorder ready => exact h.reorder hallowed
  | favour i => exact h.same h.up rfl rfl (Queue.favour_hands _ i)

end Sound

/-- A move publishes the message of a write that goes through, and else nothing. -/
theorem published_after (d : Deployment) (v : Move) :
    (d.after v).published = d.published ∨
      ∃ w x, v = .write w ∧ w.effect d.pipeline.records = .ok x ∧
        (d.after v).published = d.published ++ [x.message] := by
  cases v with
  | write w =>
    change (d.afterWrite w).published = _ ∨ ∃ w' x, _ ∧ _ ∧ (d.afterWrite w).published = _
    cases hx : w.effect d.pipeline.records with
    | error f => exact .inl (by simp [afterWrite, Write.published, hx])
    | ok x => exact .inr ⟨w, x, rfl, hx, by simp [afterWrite, Write.published, hx]⟩
  | receive max wait =>
    left
    change (d.afterReceive max wait).published = _
    unfold afterReceive
    split <;> rfl
  | apply x =>
    left
    change (d.afterApply x).published = _
    unfold afterApply afterMessage
    split
    · rfl
    · split <;> rfl
  | _ => exact .inl rfl

theorem Readable.before {d : Deployment} {v : Move} (h : (d.after v).Readable) : d.Readable := by
  intro m hm
  apply h
  rcases published_after d v with heq | ⟨w, x, -, -, heq⟩
  · exact heq ▸ hm
  · exact heq ▸ List.mem_append_left _ hm

/-- A deployment whose published messages are readable is sound, whatever moves led to it. -/
theorem Reachable.sound {sort : Move → Prop} {visibility : Nat} {tokens : Nat → String}
    (htokens : Function.Injective tokens) {d : Deployment} (h : Reachable sort visibility tokens d)
    (hread : d.Readable) : d.Sound := by
  induction h with
  | new => exact Sound.new visibility htokens
  | @move d v before hsort hallowed ih =>
    exact (ih hread.before).after hallowed hread.before hread

end Deployment

end AuditTrail

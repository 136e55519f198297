import AuditTrail.Proofs.Deployment.Delivery
/-!
# When the index converges

Once the queue is empty, every published message has been applied, but a message that was delivered again
may have been applied after a newer one. `Deployment.documents_eq_rows_iff`: the index and the record store
agree just when the last applied message about an event says of it what the last published one says.
`Deployment.resurrected_event_found`: they need not agree, and a deleted event can come back.
-/

namespace AuditTrail

open Pipeline

namespace Deployment

/-- Once the queue is empty, the messages that were applied are the published ones. The documents of a
tenant are its rows just when, for each identifier, the last applied message about it and the last published
one say the same; and a document is there just when the last applied message about it put it there. -/
theorem documents_eq_rows_iff {visibility : Nat} {tokens : Nat → String}
    (htokens : Function.Injective tokens) {d : Deployment}
    (h : Reachable (fun _ => True) visibility tokens d) (hread : d.Readable)
    (hdepth : d.pipeline.queue.depth = 0) :
    (∀ m, m ∈ d.appliedMessages ↔ m ∈ d.published) ∧
      ∀ tenant,
        ((d.pipeline.index.documents.ofTenant tenant).Perm (d.pipeline.records.rows.ofTenant tenant) ↔
          ∀ id, Message.lastTold d.appliedMessages (tenant, id) =
            Message.lastTold d.published (tenant, id)) ∧
        ∀ id, d.pipeline.index.documents.get? tenant id =
          Message.lastTold d.appliedMessages (tenant, id) := by
  have hsound := h.sound htokens hread
  refine ⟨?_, ?_⟩
  · intro m
    refine ⟨hsound.published_of_applied m, ?_⟩
    intro hm
    rcases hsound.kept m hm with hdone | hqueued
    · exact hdone
    · rw [Queue.bodies_eq_nil.mpr hdepth] at hqueued
      cases hqueued
  · intro tenant
    have hdocuments (id : String) : d.pipeline.index.documents.get? tenant id =
        Message.lastTold d.appliedMessages (tenant, id) := by
      rw [hsound.documents, EventTable.get?_absorbAll]
    have hrows (id : String) : d.pipeline.records.rows.get? tenant id =
        Message.lastTold d.published (tenant, id) := by
      rw [hsound.rows, EventTable.get?_absorbAll]
    refine ⟨?_, hdocuments⟩
    rw [EventTable.ofTenant_perm_iff]
    simp only [hdocuments, hrows]

def signInDeleted : Message := .delete .acme "e1" .epoch

def deletionDelivery : Delivery := ⟨signInDeleted.encode, unaryToken 1, 1⟩

private theorem decode_signInDeleted : Message.decode signInDeleted.encode = .ok signInDeleted := by
  have hsound : signInDeleted.SoundBlobs := by
    intro e he
    cases he
  rw [Message.decode_encode hsound]
  rfl

/-- The deployment after a sign-in was deleted while a worker held the message about it for too long. -/
def deletedMeanwhile : Deployment :=
  (signedIn 50).afterAll [.write (.delete (.ofTenant .acme "") "e1" .epoch), .pass 50, .receive 10 0]

/-- The deployment after the deletion was applied, then the message about the sign-in that was delivered
again, and both were acknowledged. -/
def resurrected : Deployment :=
  ((deletedMeanwhile.afterMessage deletionDelivery signInDeleted).afterMessage (signInDelivery 2 2)
    (.signIn "e1")).afterAll [.acknowledge deletionDelivery, .acknowledge (signInDelivery 2 2)]

private theorem resurrected_reachable :
    Reachable (fun _ => True) 50 unaryToken resurrected := by
  have hdeleted : Reachable (fun _ => True) 50 unaryToken deletedMeanwhile :=
    (signedIn_reachable 50 ⟨trivial, trivial⟩).afterAll _ (by simp) ⟨trivial, trivial, trivial, trivial⟩
  have hdeletion : deletionDelivery ∈ deletedMeanwhile.received :=
    List.mem_cons_of_mem _ (List.mem_cons_self)
  have hsignIn : signInDelivery 2 2 ∈
      (deletedMeanwhile.afterMessage deletionDelivery signInDeleted).received :=
    List.mem_cons_of_mem _ (List.mem_cons_of_mem _ (List.mem_singleton.mpr rfl))
  have happlied := (hdeleted.afterMessage trivial hdeletion decode_signInDeleted).afterMessage trivial
    hsignIn (decode_signInDelivery 2 2)
  exact happlied.afterAll _ (by simp)
    ⟨.inl (List.mem_cons_self), .inl (List.mem_cons_of_mem _ (List.mem_cons_self)), trivial⟩

set_option maxRecDepth 2000 in
/-- A deleted event is found again when the message about its creation is delivered once more after that
about its deletion. -/
theorem resurrected_event_found :
    Reachable (fun _ => True) 50 unaryToken resurrected ∧ resurrected.Readable ∧
      resurrected.pipeline.queue.depth = 0 ∧
      resurrected.pipeline.records.rows.events = [] ∧
      resurrected.pipeline.index.documents.get? .acme "e1" = some (.signIn "e1") ∧
      ¬ (resurrected.pipeline.index.documents.ofTenant .acme).Perm
        (resurrected.pipeline.records.rows.ofTenant .acme) := by
  have hpublished : resurrected.published = [.signIn "e1", signInDeleted] := rfl
  have happlied : resurrected.appliedMessages = [signInDeleted, .signIn "e1"] := rfl
  have hread : resurrected.Readable := by
    intro m hm
    rw [hpublished] at hm
    rcases List.mem_cons.mp hm with rfl | hm
    · exact Message.decode_signIn "e1"
    · rw [List.mem_singleton.mp hm]
      exact decode_signInDeleted
  have hdepth : resurrected.pipeline.queue.depth = 0 := rfl
  obtain ⟨-, htenant⟩ :=
    documents_eq_rows_iff unaryToken_injective resurrected_reachable hread hdepth
  obtain ⟨hiff, hdocuments⟩ := htenant .acme
  have htold : Message.lastTold resurrected.appliedMessages (.acme, "e1") = some (.signIn "e1") := by
    rw [happlied]
    rfl
  have hgone : Message.lastTold resurrected.published (.acme, "e1") = none := by
    rw [hpublished]
    rfl
  refine ⟨resurrected_reachable, hread, hdepth, rfl, (hdocuments "e1").trans htold, ?_⟩
  intro hperm
  have hsame := hiff.mp hperm "e1"
  rw [htold, hgone] at hsame
  cases hsame

end Deployment

end AuditTrail

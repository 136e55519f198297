import AuditTrail.Pipeline.Queries
import AuditTrail.Proofs.Isolation.Backends
import AuditTrail.Proofs.Worker.Applied
/-!
# Calls keep tenants apart

A call is one use of the pipeline in the context of a tenant. Every call stays within its tenant, since it is
built of uses of the backends in that context.
-/

namespace AuditTrail

open Pipeline

inductive Call where
  | write (w : Write)
  | get (ctx : Context) (id : String)
  | list (ctx : Context) (f : Filter)
  | stats (ctx : Context) (f : Filter)
  | download (ctx : Context) (f : Filter) (format : ExportFormat)
  | purge (ctx : Context) (policy : RetentionPolicy) (now : Instant)
  /-- A worker applies a message, whatever the message is. -/
  | apply (m : Message)

inductive Answer where
  | receipt (r : Receipt)
  | event (e : Event)
  | events (es : List Event)
  | stats (s : Stats)
  | file (text : String)
  | purged (n : Nat)
  | applied

namespace Call

def tenant : Call → Option TenantId
  | write w => w.context.tenant
  | get ctx _ => ctx.tenant
  | list ctx _ => ctx.tenant
  | stats ctx _ => ctx.tenant
  | download ctx _ _ => ctx.tenant
  | purge ctx _ _ => ctx.tenant
  | apply m => some m.tenant

def perform : Call → Action Answer
  | write w => Answer.receipt <$> w.perform
  | get ctx id => Answer.event <$> getEvent ctx id
  | list ctx f => Answer.events <$> listEvents ctx f
  | stats ctx f => Answer.stats <$> Pipeline.stats ctx f
  | download ctx f format => Answer.file <$> exportEvents ctx f format
  | purge ctx policy now => Answer.purged <$> Pipeline.purge now ctx policy
  | apply m => (fun _ => Answer.applied) <$> applyMessage m

end Call

namespace Pipeline

variable {α : Type} {owner : Option TenantId}

/-! ## Writing -/

private theorem within_validated (accepted : Except Failure α) : Within owner (validated accepted) := by
  cases accepted with
  | ok a => exact .pure a
  | error f => exact (Within.count _ _).bind fun _ => .throw f

private theorem within_persist (ctx : Context) (events : List Event) : Within ctx.tenant (persist ctx events) := by
  refine Within.bind ?_ fun _ => .count _ _
  refine (within_createRecords ctx events).tryCatch fun f => ?_
  exact (Within.count _ _).bind fun _ => .throw f

private theorem within_publish (message : Except Failure Message) : Within owner (publish message) where
  confined tenant _ p q h := by
    cases message with
    | error f => exact ⟨rfl, h.of_queue p.queue q.queue _ _⟩
    | ok m =>
      obtain ⟨metrics, hp⟩ := outcome_publish h.left.up m
      obtain ⟨metrics', hq⟩ := outcome_publish h.right.up m
      rw [hp, hq]
      exact ⟨rfl, h.of_queue _ _ metrics metrics'⟩
  unseen tenant _ p h := by
    cases message with
    | error f => exact (Alike.refl h).of_queue p.queue p.queue p.metrics _
    | ok m =>
      obtain ⟨metrics, hp⟩ := outcome_publish h.up m
      rw [hp]
      exact (Alike.refl h).of_queue p.queue _ p.metrics metrics

private theorem within_createEvent (now : Instant) (freshId : String) (ctx : Context) (request : NewEvent) :
    Within ctx.tenant (createEvent now freshId ctx request) := by
  refine (Within.lift _).bind fun tenant => (Within.count _ _).bind fun _ => ?_
  refine (within_validated _).bind fun e => (within_persist ctx [e]).bind fun _ => ?_
  exact (within_publish _).bind fun _ => .pure _

private theorem within_createEvents (now : Instant) (freshIds : Nat → String) (ctx : Context)
    (requests : List NewEvent) : Within ctx.tenant (createEvents now freshIds ctx requests) := by
  refine (Within.lift _).bind fun tenant => (Within.lift _).bind fun _ => ?_
  refine (Within.count _ _).bind fun _ => (within_validated _).bind fun events => ?_
  refine (within_validated _).bind fun _ => (within_persist ctx events).bind fun _ => ?_
  exact (within_publish _).bind fun _ => .pure _

private theorem within_deleteEvent (now : Instant) (ctx : Context) (id : String) :
    Within ctx.tenant (deleteEvent now ctx id) := by
  refine (Within.lift _).bind fun tenant => (within_getRecord ctx id).bind fun found => ?_
  refine Within.refused _ _ ((within_deleteRecord ctx id).bind fun deleted => ?_)
  exact Within.refused _ _ ((within_publish _).bind fun _ => .pure _)

private theorem within_purge (now : Instant) (ctx : Context) (policy : RetentionPolicy) :
    Within ctx.tenant (purge now ctx policy) := by
  refine (Within.lift _).bind fun _ => ?_
  cases policy.cutoff? now with
  | none => exact .throw _
  | some cutoff =>
    exact (within_purgeRecords ctx cutoff).bind fun _ => (Within.count _ _).bind fun _ => .pure _

/-! ## Reading -/

private theorem within_getEvent (ctx : Context) (id : String) : Within ctx.tenant (getEvent ctx id) := by
  refine (within_getRecord ctx id).bind fun found => ?_
  cases found with
  | none => exact .throw _
  | some e => exact .pure e

private theorem within_listEvents (ctx : Context) (f : Filter) : Within ctx.tenant (listEvents ctx f) := by
  refine (Within.lift _).bind fun tenant => ?_
  split
  · exact (Within.count _ _).bind fun _ => within_searchDocuments ctx _
  · exact (Within.count _ _).bind fun _ => within_listRecords ctx _

/-! ## Applying messages -/

private theorem within_makePartition (partition : Partition) :
    Within (some partition.tenant) (indexTarget.createPartition partition) := by
  unfold IndexTarget.createPartition
  split
  · exact within_createPartition _ _
  · exact .throw _

private theorem within_project (m : Message) : Within (some m.tenant) (indexTarget.project m) := by
  refine (Within.lift m.action).bind fun action => ?_
  cases action with
  | upsert events =>
    obtain ⟨seam, hput⟩ := put_indexTarget (.system m.tenant "") events
    refine (Within.forM fun partition hpartition => ?_).bind fun _ => ?_
    · rw [← Partition.tenant_of_mem_covering hpartition]
      exact within_makePartition partition
    · rw [hput]
      exact (within_putDocuments seam (.system m.tenant "") events).bind fun _ => .pure _
  | delete id => exact (within_deleteDocument (.system m.tenant "") id).bind fun _ => .pure _

private theorem within_applyMessage (m : Message) : Within (some m.tenant) (applyMessage m) :=
  (within_project m).bind fun n => .count .eventsIndexed n

end Pipeline

theorem Call.within (c : Call) : Within c.tenant c.perform := by
  cases c with
  | write w =>
    refine Within.map ?_ _
    cases w with
    | create ctx request now freshId => exact within_createEvent now freshId ctx request
    | createAll ctx requests now freshIds => exact within_createEvents now freshIds ctx requests
    | delete ctx id now => exact within_deleteEvent now ctx id
  | get ctx id => exact (within_getEvent ctx id).map _
  | list ctx f => exact (within_listEvents ctx f).map _
  | stats ctx f => exact ((within_listEvents ctx _).bind fun _ => .pure _).map _
  | download ctx f format => exact ((within_listEvents ctx f).bind fun _ => .pure _).map _
  | purge ctx policy now => exact (within_purge now ctx policy).map _
  | apply m => exact (within_applyMessage m).map _

end AuditTrail

import AuditTrail.Proofs.Index.Partitions
import AuditTrail.Proofs.Pipeline.Running
/-!
# What a tenant sees of a pipeline

A tenant sees its rows, its documents and its partitions. An action stays within a tenant when its answer
and what the tenant sees after it follow from what the tenant saw before it, and no other tenant sees that it
was done. Every way to build an action from others keeps it so.
-/

namespace AuditTrail

/-- What there is of one tenant, and whether the record store takes writes. -/
structure View where
  rows : List Event
  writable : Bool
  documents : List Event
  partitions : List Partition

namespace Pipeline

variable {α β : Type} {tenant : TenantId} {p q r : Pipeline}

def view (p : Pipeline) (tenant : TenantId) : View where
  rows := p.records.rows.ofTenant tenant
  writable := p.records.writable
  documents := p.index.documents.ofTenant tenant
  partitions := p.index.partitionsOf tenant

/-- No seam is out of order, and the partitions are in order. -/
structure Orderly (p : Pipeline) : Prop where
  up : p.outages = .empty
  inOrder : Partition.InOrder p.index.partitions

/-- Orderly pipelines that a tenant cannot tell apart. -/
structure Alike (tenant : TenantId) (p q : Pipeline) : Prop where
  left : Orderly p
  right : Orderly q
  view : p.view tenant = q.view tenant

namespace Alike

theorem refl (h : Orderly p) : Alike tenant p p := ⟨h, h, rfl⟩

theorem symm (h : Alike tenant p q) : Alike tenant q p := ⟨h.right, h.left, h.view.symm⟩

theorem trans (h : Alike tenant p q) (h' : Alike tenant q r) : Alike tenant p r :=
  ⟨h.left, h'.right, h.view.trans h'.view⟩

theorem rows (h : Alike tenant p q) :
    p.records.rows.ofTenant tenant = q.records.rows.ofTenant tenant := congrArg View.rows h.view

theorem writable (h : Alike tenant p q) : p.records.writable = q.records.writable :=
  congrArg View.writable h.view

theorem documents (h : Alike tenant p q) :
    p.index.documents.ofTenant tenant = q.index.documents.ofTenant tenant :=
  congrArg View.documents h.view

theorem partitions (h : Alike tenant p q) : p.index.partitionsOf tenant = q.index.partitionsOf tenant :=
  congrArg View.partitions h.view

theorem of_queue (h : Alike tenant p q) (k l : Queue) (m n : Metrics) :
    Alike tenant { p with queue := k, metrics := m } { q with queue := l, metrics := n } :=
  ⟨⟨h.left.up, h.left.inOrder⟩, ⟨h.right.up, h.right.inOrder⟩, h.view⟩

/-- Rows that a tenant cannot tell apart may be put in place of those that are there. -/
theorem of_rows (h : Alike tenant p q) {t u : EventTable} (htu : t.ofTenant tenant = u.ofTenant tenant) :
    Alike tenant { p with records := { p.records with rows := t } }
      { q with records := { q.records with rows := u } } := by
  refine ⟨⟨h.left.up, h.left.inOrder⟩, ⟨h.right.up, h.right.inOrder⟩, ?_⟩
  rw [Pipeline.view, Pipeline.view, View.mk.injEq]
  exact ⟨htu, h.writable, h.documents, h.partitions⟩

theorem of_documents (h : Alike tenant p q) {t u : EventTable}
    (htu : t.ofTenant tenant = u.ofTenant tenant) :
    Alike tenant { p with index := { p.index with documents := t } }
      { q with index := { q.index with documents := u } } := by
  refine ⟨⟨h.left.up, h.left.inOrder⟩, ⟨h.right.up, h.right.inOrder⟩, ?_⟩
  rw [Pipeline.view, Pipeline.view, View.mk.injEq]
  exact ⟨h.rows, h.writable, htu, h.partitions⟩

theorem of_partitions (h : Alike tenant p q) {ps qs : List Partition} (hps : Partition.InOrder ps)
    (hqs : Partition.InOrder qs)
    (hsame : ps.filter (fun r => decide (r.tenant = tenant)) =
      qs.filter fun r => decide (r.tenant = tenant)) :
    Alike tenant { p with index := { p.index with partitions := ps } }
      { q with index := { q.index with partitions := qs } } := by
  refine ⟨⟨h.left.up, hps⟩, ⟨h.right.up, hqs⟩, ?_⟩
  rw [Pipeline.view, Pipeline.view, View.mk.injEq]
  exact ⟨h.rows, h.writable, h.documents, hsame⟩

end Alike

/-- The answer of an action, and what a tenant sees after it, follow from what the tenant saw before it. -/
def Confined (tenant : TenantId) (a : Action α) : Prop :=
  ∀ p q, Alike tenant p q →
    (outcome a p).1 = (outcome a q).1 ∧ Alike tenant (outcome a p).2 (outcome a q).2

/-- A tenant does not see that an action was done. -/
def Unseen (tenant : TenantId) (a : Action α) : Prop :=
  ∀ p, Orderly p → Alike tenant p (outcome a p).2

/-- An action stays within its tenant, if it has one. -/
structure Within (owner : Option TenantId) (a : Action α) : Prop where
  confined : ∀ tenant, owner = some tenant → Confined tenant a
  unseen : ∀ tenant, owner ≠ some tenant → Unseen tenant a

namespace Within

variable {owner : Option TenantId}

theorem of_read {a : Action α} {read : Pipeline → Except Failure α}
    (h : ∀ p, p.outages = .empty → outcome a p = (read p, p))
    (hread : ∀ tenant, owner = some tenant → ∀ p q, Alike tenant p q → read p = read q) :
    Within owner a where
  confined tenant howner p q hpq := by
    rw [h p hpq.left.up, h q hpq.right.up]
    exact ⟨hread tenant howner p q hpq, hpq⟩
  unseen tenant _ p hp := by
    rw [h p hp.up]
    exact .refl hp

theorem pure (a : α) : Within owner (Pure.pure a : Action α) :=
  of_read (fun _ _ => rfl) fun _ _ _ _ _ => rfl

theorem throw (f : Failure) : Within owner (throw f : Action α) :=
  of_read (fun _ _ => rfl) fun _ _ _ _ _ => rfl

theorem lift (x : Except Failure α) : Within owner (liftM x : Action α) :=
  of_read (fun _ _ => rfl) fun _ _ _ _ _ => rfl

theorem count (c : Counter) (n : Nat) : Within owner (count c n) where
  confined _ _ p q h := ⟨rfl, h.of_queue p.queue q.queue (p.metrics.add c n) (q.metrics.add c n)⟩
  unseen _ _ p h := (Alike.refl h).of_queue p.queue p.queue p.metrics (p.metrics.add c n)

theorem bind {a : Action α} {f : α → Action β} (ha : Within owner a) (hf : ∀ x, Within owner (f x)) :
    Within owner (a >>= f) where
  confined tenant howner p q h := by
    obtain ⟨hanswer, hafter⟩ := ha.confined tenant howner p q h
    rw [outcome_bind, outcome_bind]
    rcases hp : outcome a p with ⟨x | x, p'⟩ <;> rcases hq : outcome a q with ⟨y | y, q'⟩ <;>
      rw [hp, hq] at hanswer hafter <;> cases hanswer
    · exact ⟨rfl, hafter⟩
    · exact (hf x).confined tenant howner p' q' hafter
  unseen tenant howner p h := by
    have hafter := ha.unseen tenant howner p h
    rw [outcome_bind]
    rcases hp : outcome a p with ⟨x | x, p'⟩ <;> rw [hp] at hafter
    · exact hafter
    · exact hafter.trans ((hf x).unseen tenant howner p' hafter.right)

theorem tryCatch {a : Action α} {handle : Failure → Action α} (ha : Within owner a)
    (hhandle : ∀ f, Within owner (handle f)) : Within owner (tryCatch a handle) where
  confined tenant howner p q h := by
    obtain ⟨hanswer, hafter⟩ := ha.confined tenant howner p q h
    rw [outcome_tryCatch, outcome_tryCatch]
    rcases hp : outcome a p with ⟨x | x, p'⟩ <;> rcases hq : outcome a q with ⟨y | y, q'⟩ <;>
      rw [hp, hq] at hanswer hafter <;> cases hanswer
    · exact (hhandle x).confined tenant howner p' q' hafter
    · exact ⟨rfl, hafter⟩
  unseen tenant howner p h := by
    have hafter := ha.unseen tenant howner p h
    rw [outcome_tryCatch]
    rcases hp : outcome a p with ⟨x | x, p'⟩ <;> rw [hp] at hafter
    · exact hafter.trans ((hhandle x).unseen tenant howner p' hafter.right)
    · exact hafter

theorem map {a : Action α} (ha : Within owner a) (f : α → β) : Within owner (f <$> a) := by
  rw [← bind_pure_comp]
  exact ha.bind fun x => .pure (f x)

theorem forM {f : β → Action PUnit} {xs : List β} (h : ∀ x ∈ xs, Within owner (f x)) :
    Within owner (xs.forM f) := by
  induction xs with
  | nil => exact .pure _
  | cons x rest ih =>
    simp only [List.forM_eq_forM, List.forM_cons] at ih ⊢
    exact (h x (by simp)).bind fun _ => ih fun y hy => h y (by simp [hy])

theorem refused (c : Prop) [Decidable c] (f : Failure) {a : Action α} (ha : Within owner a) :
    Within owner (if c then (MonadExcept.throw f : Action PUnit) >>= fun _ => a else a) := by
  split
  · exact (throw f).bind fun _ => ha
  · exact ha

end Within

end Pipeline

end AuditTrail

import AuditTrail.Proofs.Queue.Leases
/-!
# Other texts on a queue

A queue does not look at the texts that are on it. When they are replaced by others, everything goes on as
before, with the other texts: the same messages are handed out, under the same tokens and at the same times.
-/

namespace AuditTrail

def QueueEntry.relabel (f : String → String) (e : QueueEntry) : QueueEntry := { e with body := f e.body }

def QueueLease.relabel (f : String → String) (l : QueueLease) : QueueLease :=
  { l with entry := l.entry.relabel f }

def Delivery.relabel (f : String → String) (x : Delivery) : Delivery := { x with body := f x.body }

namespace Queue

/-- The queue with each text replaced by another one. -/
def relabel (f : String → String) (q : Queue) : Queue :=
  { q with
    ready := q.ready.map (QueueEntry.relabel f)
    leased := q.leased.map (QueueLease.relabel f) }

variable (f : String → String) (q : Queue)

@[simp] theorem bodies_relabel : (q.relabel f).bodies = q.bodies.map f := by
  simp [bodies, relabel, QueueEntry.relabel, QueueLease.relabel, Function.comp_def]

@[simp] theorem depth_relabel : (q.relabel f).depth = q.depth := by
  simp [depth, relabel]

theorem relabel_congr {f g : String → String} {q : Queue} (h : ∀ b ∈ q.bodies, f b = g b) :
    q.relabel f = q.relabel g := by
  simp only [bodies, List.mem_append, List.mem_map] at h
  have hready : q.ready.map (QueueEntry.relabel f) = q.ready.map (QueueEntry.relabel g) := by
    apply List.map_congr_left
    intro e he
    simp only [QueueEntry.relabel, h e.body (.inl ⟨e, he, rfl⟩)]
  have hleased : q.leased.map (QueueLease.relabel f) = q.leased.map (QueueLease.relabel g) := by
    apply List.map_congr_left
    intro l hl
    simp only [QueueLease.relabel, QueueEntry.relabel, h l.entry.body (.inr ⟨l, hl, rfl⟩)]
  rw [relabel, hready, hleased, relabel]

theorem sendText_relabel (body : String) :
    (q.relabel f).sendText (f body) = (q.sendText body).relabel f := by
  simp [relabel, sendText, QueueEntry.relabel]

private theorem reclaim_relabel (now : Nat) : (q.relabel f).reclaim now = (q.reclaim now).relabel f := by
  simp only [reclaim_eq, relabel, List.filter_map, List.map_append, List.map_map]
  rfl

theorem releaseAll_relabel : (q.relabel f).releaseAll = q.releaseAll.relabel f := by
  simp only [releaseAll, relabel, List.map_append, List.map_map, List.map_nil]
  rfl

private theorem leaseFirst_relabel (entry : QueueEntry) (rest : List QueueEntry) (now : Nat) :
    (q.relabel f).leaseFirst (entry.relabel f) (rest.map (QueueEntry.relabel f)) now =
      (q.leaseFirst entry rest now).relabel f := by
  simp only [leaseFirst, relabel, List.map_append, List.map_cons, List.map_nil]
  rfl

private theorem lease_relabel (max now : Nat) :
    lease max (q.relabel f) now =
      ((lease max q now).1.map (Delivery.relabel f), (lease max q now).2.relabel f) := by
  induction max generalizing q with
  | zero => rfl
  | succ max ih =>
    cases hready : q.ready with
    | nil =>
      have hready' : (q.relabel f).ready = [] := by simp [relabel, hready]
      rw [lease_of_ready_nil hready, lease_of_ready_nil hready']
      rfl
    | cons entry rest =>
      have hready' : (q.relabel f).ready = entry.relabel f :: rest.map (QueueEntry.relabel f) := by
        simp [relabel, hready]
      rw [lease_succ hready, lease_succ hready', leaseFirst_relabel, ih]
      rfl

theorem take_relabel (max now : Nat) :
    (q.relabel f).take max now =
      ((q.take max now).1.map (Delivery.relabel f), (q.take max now).2.relabel f) := by
  rw [take, reclaim_relabel, lease_relabel]
  rfl

theorem wakeAt_relabel (deadline : Nat) : (q.relabel f).wakeAt deadline = q.wakeAt deadline := by
  have hexpiry : (q.relabel f).nextExpiry = q.nextExpiry := by
    simp [nextExpiry, relabel, QueueLease.relabel, Function.comp_def]
  rw [wakeAt, hexpiry, wakeAt]

theorem receive_relabel (max wait now : Nat) :
    (q.relabel f).receive max wait now =
      (((q.receive max wait now).1.1.map (Delivery.relabel f), (q.receive max wait now).1.2),
        (q.receive max wait now).2.relabel f) := by
  simp only [receive, take_relabel, wakeAt_relabel, List.isEmpty_map]
  split <;> rfl

theorem acknowledge_relabel (token : String) :
    (q.relabel f).acknowledge token = (q.acknowledge token).map (relabel f) := by
  have hany : ((q.relabel f).leased.any fun l => l.token = token) =
      q.leased.any fun l => l.token = token := by
    rw [relabel, List.any_map]
    rfl
  rw [acknowledge, hany, acknowledge]
  split
  · simp only [relabel, List.filter_map, Except.map]
    rfl
  · rfl

end Queue

end AuditTrail

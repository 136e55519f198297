import AuditTrail.Proofs.Queue.Course
import Mathlib.Data.List.Nodup
/-!
# The depth of a queue

Only what is sent makes a queue deeper, and only what is acknowledged makes it less deep, by one each time: the
tokens of leases differ, so an acknowledgement ends one lease. Whoever receives messages holds the newest leases.
-/

namespace AuditTrail

namespace Queue

variable {q q' : Queue} {older : List String} {deliveries : List Delivery}

def held (q : Queue) : List String := q.leased.map QueueLease.token

/-- The tokens of leases differ and are used ones, and none of them will come again. -/
structure Orderly (q : Queue) : Prop where
  injective : Function.Injective q.tokens
  used : ∀ token ∈ q.held, ∃ i < q.issued, token = q.tokens i
  distinct : q.held.Nodup

/-- A queue has handed out some deliveries: as many messages are on it, and the leases are older ones and then
those of the deliveries. -/
structure HandsOut (q : Queue) (older : List String) (deliveries : List Delivery) (q' : Queue) : Prop where
  depth : q'.depth = q.depth
  orderly : q.Orderly → q'.Orderly
  held : q'.held = older ++ deliveries.map Delivery.token

/-! ## What becomes of leases -/

theorem Orderly.sublist (h : q.Orderly) {ready : List QueueEntry} {leased : List QueueLease}
    (hsub : leased.Sublist q.leased) : ({ q with ready, leased } : Queue).Orderly := by
  have hheld : (leased.map QueueLease.token).Sublist q.held := hsub.map _
  constructor
  · exact h.injective
  · intro token htoken
    exact h.used token (hheld.subset htoken)
  · exact h.distinct.sublist hheld

theorem orderly_new (visibility : Nat) {tokens : Nat → String} (h : Function.Injective tokens) :
    (new visibility tokens).Orderly := by
  constructor
  · exact h
  · intro token htoken
    cases htoken
  · exact List.nodup_nil

theorem Orderly.releaseAll (h : q.Orderly) : q.releaseAll.Orderly := h.sublist (List.nil_sublist _)

theorem depth_releaseAll (q : Queue) : q.releaseAll.depth = q.depth := by
  simp [depth, Queue.releaseAll]

theorem Orderly.send (h : q.Orderly) (m : Message) : (q.send m).Orderly := h.sublist (List.Sublist.refl _)

theorem depth_send (q : Queue) (m : Message) : (q.send m).depth = q.depth + 1 := by
  simp [depth, Queue.send, sendText]
  omega

private theorem depth_reclaim (q : Queue) (now : Nat) : (q.reclaim now).depth = q.depth := by
  have hsplit := q.leased.length_eq_length_filter_add fun l => decide (l.expiresAt ≤ now)
  simp only [reclaim_eq, depth, List.length_append, List.length_map]
  omega

theorem Orderly.reclaim (h : q.Orderly) (now : Nat) : (q.reclaim now).Orderly := by
  rw [reclaim_eq]
  exact h.sublist List.filter_sublist

/-! ## Receiving -/

theorem Orderly.leaseFirst (h : q.Orderly) (entry : QueueEntry) (rest : List QueueEntry) (now : Nat) :
    (q.leaseFirst entry rest now).Orderly := by
  have hheld : (q.leaseFirst entry rest now).held = q.held ++ [q.tokens q.issued] := by
    simp [held, Queue.leaseFirst]
  constructor
  · exact h.injective
  · intro token htoken
    rw [hheld, List.mem_append, List.mem_singleton] at htoken
    cases htoken with
    | inl hold =>
      obtain ⟨i, hi, heq⟩ := h.used token hold
      exact ⟨i, Nat.lt_succ_of_lt hi, heq⟩
    | inr hnew => exact ⟨q.issued, Nat.lt_succ_self _, hnew⟩
  · rw [hheld]
    apply h.distinct.append (List.nodup_singleton _)
    intro token hold hnew
    obtain ⟨i, hi, heq⟩ := h.used token hold
    have hsame := h.injective (heq.symm.trans (List.mem_singleton.mp hnew))
    omega

private theorem lease_handsOut (q : Queue) (max now : Nat) :
    q.HandsOut q.held (lease max q now).1 (lease max q now).2 := by
  induction max generalizing q with
  | zero => exact ⟨rfl, id, by simp [lease]⟩
  | succ max ih =>
    cases hready : q.ready with
    | nil =>
      rw [lease_of_ready_nil hready]
      exact ⟨rfl, id, by simp⟩
    | cons entry rest =>
      rw [lease_succ hready]
      have hrest := ih (q.leaseFirst entry rest now)
      constructor
      · rw [hrest.depth]
        simp [Queue.depth, leaseFirst, hready]
        omega
      · exact fun h => hrest.orderly (h.leaseFirst entry rest now)
      · rw [hrest.held]
        simp [Queue.held, leaseFirst]

private theorem take_handsOut (q : Queue) (max now : Nat) :
    q.HandsOut (q.reclaim now).held (q.take max now).1 (q.take max now).2 := by
  have hleased := lease_handsOut (q.reclaim now) (Nat.max max 1) now
  constructor
  · exact hleased.depth.trans (q.depth_reclaim now)
  · exact fun h => hleased.orderly (h.reclaim now)
  · exact hleased.held

theorem receive_handsOut (q : Queue) (max wait now : Nat) :
    ∃ older, q.HandsOut older (q.receive max wait now).1.1 (q.receive max wait now).2 := by
  have hfirst := q.take_handsOut max now
  simp only [receive]
  split
  · have hagain := (q.take max now).2.take_handsOut max ((q.take max now).2.wakeAt (now + wait))
    exact ⟨_, hagain.depth.trans hfirst.depth, fun h => hagain.orderly (hfirst.orderly h), hagain.held⟩
  · exact ⟨_, hfirst⟩

/-- Whoever is handed out deliveries holds a lease for each, under tokens that differ. -/
theorem HandsOut.holds (h : q.HandsOut older deliveries q') (hq : q.Orderly) :
    (deliveries.map Delivery.token).Nodup ∧ ∀ token ∈ deliveries.map Delivery.token, token ∈ q'.held := by
  have hdistinct := (h.orderly hq).distinct
  rw [h.held] at hdistinct ⊢
  exact ⟨hdistinct.of_append_right, fun token htoken => List.mem_append_right _ htoken⟩

/-- The lease that a delivery comes with at some time. -/
def leaseOf (q : Queue) (time : Nat) (d : Delivery) : QueueLease :=
  ⟨d.token, ⟨d.body, d.count⟩, time + q.visibility⟩

private theorem leased_lease (q : Queue) (max now : Nat) :
    (lease max q now).2.leased = q.leased ++ (lease max q now).1.map (q.leaseOf now) := by
  induction max generalizing q with
  | zero => simp [lease]
  | succ max ih =>
    cases hready : q.ready with
    | nil =>
      rw [lease_of_ready_nil hready]
      simp
    | cons entry rest =>
      rw [lease_succ hready, ih, List.map_cons, List.append_cons]
      rfl

private theorem visibility_lease (q : Queue) (max now : Nat) : (lease max q now).2.visibility = q.visibility := by
  induction max generalizing q with
  | zero => rfl
  | succ max ih =>
    cases hready : q.ready with
    | nil => rw [lease_of_ready_nil hready]
    | cons entry rest => rw [lease_succ hready, ih, leaseFirst]

theorem leaseOf_mem_receive (q : Queue) (max wait now : Nat) :
    ∀ d ∈ (q.receive max wait now).1.1,
      q.leaseOf (q.receive max wait now).1.2 d ∈ (q.receive max wait now).2.leased := by
  have htake (q : Queue) (now : Nat) : ∀ d ∈ (q.take max now).1, q.leaseOf now d ∈ (q.take max now).2.leased := by
    intro d hd
    rw [take, leased_lease]
    exact List.mem_append_right _ (List.mem_map_of_mem hd)
  have hvisibility (q : Queue) (now : Nat) : (q.take max now).2.visibility = q.visibility :=
    visibility_lease (q.reclaim now) _ now
  simp only [receive]
  split
  · intro d hd
    have hmem := htake _ _ d hd
    rw [leaseOf, hvisibility] at hmem
    exact hmem
  · exact htake q now

/-! ## Acknowledging -/

/-- The queue after the lease under a token was ended. -/
def settle (q : Queue) (token : String) : Queue :=
  { q with leased := q.leased.filter fun l => l.token ≠ token }

theorem acknowledge_held {token : String} (h : token ∈ q.held) : q.acknowledge token = .ok (q.settle token) := by
  obtain ⟨l, hl, htoken⟩ := List.mem_map.mp h
  exact acknowledge_eq_ok.mpr ⟨⟨l, hl, htoken⟩, rfl⟩

theorem held_settle (q : Queue) (token : String) : (q.settle token).held = q.held.filter fun t => t ≠ token := by
  rw [held, held, settle, List.filter_map]
  rfl

theorem Orderly.settle (h : q.Orderly) (token : String) : (q.settle token).Orderly :=
  h.sublist List.filter_sublist

theorem depth_settle (hq : q.Orderly) {token : String} (h : token ∈ q.held) :
    (q.settle token).depth + 1 = q.depth := by
  have hlength : (q.settle token).held.length + 1 = q.held.length := by
    have herase : (q.held.filter fun t => t ≠ token) = q.held.erase token := by
      rw [hq.distinct.erase_eq_filter]
      apply List.filter_congr
      intro t _
      rw [Bool.eq_iff_iff]
      simp
    rw [held_settle, herase, List.length_erase_of_mem h]
    have hpos := List.length_pos_of_mem h
    omega
  simp only [held, List.length_map] at hlength
  rw [depth, depth, ← hlength]
  rfl

/-! ## Courses -/

theorem Orderly.favour (h : q.Orderly) (i : Nat) : (q.favour i).Orderly := by
  have hperm : (q.favour i).held.Perm q.held := (q.favour_perm i).map _
  constructor
  · exact h.injective
  · intro token htoken
    exact h.used token (hperm.mem_iff.mp htoken)
  · exact hperm.nodup_iff.mpr h.distinct

end Queue

namespace QueueCourse

variable {c : QueueCourse}

private theorem orderly_after (h : c.queue.Orderly) (v : QueueMove) : (c.after v).queue.Orderly := by
  cases v with
  | send m => exact h.send m
  | sendText body => exact h.sublist (List.Sublist.refl _)
  | receive max wait =>
    obtain ⟨_, hhands⟩ := c.queue.receive_handsOut max wait c.clock
    exact hhands.orderly h
  | acknowledge token =>
    change (c.afterAcknowledge token).queue.Orderly
    unfold QueueCourse.afterAcknowledge
    split
    · rename_i hqueue
      obtain ⟨-, rfl⟩ := Queue.acknowledge_eq_ok.mp hqueue
      exact h.settle token
    · exact h
  | releaseAll => exact h.releaseAll
  | pass millis => exact h
  | favour i => exact h.favour i

/-- Whatever is done to a queue, the tokens of its leases differ. -/
theorem orderly_run (visibility : Nat) {tokens : Nat → String} (h : Function.Injective tokens)
    (moves : List QueueMove) : (run visibility tokens moves).queue.Orderly := by
  have hstart : (new visibility tokens).queue.Orderly := Queue.orderly_new visibility h
  unfold run
  generalize new visibility tokens = c at hstart ⊢
  induction moves generalizing c with
  | nil => exact hstart
  | cons v rest ih => exact ih _ (orderly_after hstart v)

end QueueCourse

end AuditTrail

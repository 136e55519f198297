import AuditTrail.Queue.Basic
import Mathlib.Data.List.Perm.Basic
/-!
# Handing messages out

Whatever a queue does but for taking in a message and acknowledging one, it keeps the texts that are on it,
hands out texts that are on it, and gives every delivery a token of its own. So an acknowledgement removes
the text that was delivered under its token and no other.
-/

namespace AuditTrail

namespace Queue

def bodies (q : Queue) : List String :=
  q.ready.map QueueEntry.body ++ q.leased.map fun l => l.entry.body

theorem bodies_eq_nil {q : Queue} : q.bodies = [] ↔ q.depth = 0 := by
  simp [bodies, depth]

/-- The tokens of leases and of deliveries that were received are used ones, and a lease under the token of
a delivery is for the text of that delivery. -/
structure Tracks (q : Queue) (received : List Delivery) : Prop where
  lease_used : ∀ l ∈ q.leased, ∃ i < q.issued, l.token = q.tokens i
  delivery_used : ∀ x ∈ received, ∃ i < q.issued, x.token = q.tokens i
  agree : ∀ x ∈ received, ∀ l ∈ q.leased, l.token = x.token → l.entry.body = x.body

/-- A queue has handed out some deliveries, and is another one after that. -/
structure Hands (q : Queue) (deliveries : List Delivery) (q' : Queue) : Prop where
  tokens : q'.tokens = q.tokens
  bodies : ∀ b, b ∈ q'.bodies ↔ b ∈ q.bodies
  delivered : ∀ x ∈ deliveries, x.body ∈ q.bodies
  tracks : ∀ received, q.Tracks received → q'.Tracks (received ++ deliveries)

namespace Hands

variable {q q' q'' : Queue} {deliveries others : List Delivery}

theorem refl (q : Queue) : q.Hands [] q where
  tokens := rfl
  bodies _ := Iff.rfl
  delivered _ hx := by cases hx
  tracks received h := by simpa using h

theorem trans (h : q.Hands deliveries q') (h' : q'.Hands others q'') :
    q.Hands (deliveries ++ others) q'' where
  tokens := h'.tokens.trans h.tokens
  bodies b := (h'.bodies b).trans (h.bodies b)
  delivered x hx := by
    rcases List.mem_append.mp hx with hx | hx
    · exact h.delivered x hx
    · exact (h.bodies x.body).mp (h'.delivered x hx)
  tracks received ht := by
    rw [← List.append_assoc]
    exact h'.tracks _ (h.tracks received ht)

end Hands

/-! ## Operations of the queue -/

variable {q : Queue}

theorem Tracks.of_subset {received : List Delivery} (h : q.Tracks received) {ready : List QueueEntry}
    {leased : List QueueLease} (hsub : ∀ l ∈ leased, l ∈ q.leased) :
    ({ q with ready, leased } : Queue).Tracks received where
  lease_used l hl := h.lease_used l (hsub l hl)
  delivery_used := h.delivery_used
  agree x hx l hl := h.agree x hx l (hsub l hl)

theorem reclaim_eq (q : Queue) (now : Nat) :
    q.reclaim now =
      { q with
        ready := q.ready ++ (q.leased.filter fun l => l.expiresAt ≤ now).map QueueLease.entry
        leased := q.leased.filter fun l => !decide (l.expiresAt ≤ now) } := by
  simp only [reclaim, List.partition_eq_filter_filter]
  rfl

private theorem reclaim_hands (q : Queue) (now : Nat) : q.Hands [] (q.reclaim now) := by
  rw [reclaim_eq]
  refine ⟨rfl, ?_, by simp, ?_⟩
  · intro b
    simp only [bodies, List.map_append, List.map_map, List.mem_append, List.mem_map, List.mem_filter]
    grind
  · intro received h
    rw [List.append_nil]
    exact h.of_subset fun l hl => (List.mem_filter.mp hl).1

theorem releaseAll_hands (q : Queue) : q.Hands [] q.releaseAll where
  tokens := rfl
  bodies b := by simp [bodies, releaseAll]
  delivered _ hx := by cases hx
  tracks received h := by
    rw [List.append_nil]
    apply h.of_subset
    intro l hl
    cases hl

theorem reorder_hands {ready : List QueueEntry} (h : ready.Perm q.ready) :
    q.Hands [] { q with ready } where
  tokens := rfl
  bodies b := by
    simp only [bodies, List.mem_append, List.mem_map, h.mem_iff]
  delivered _ hx := by cases hx
  tracks received ht := by
    rw [List.append_nil]
    exact ht.of_subset fun l hl => hl

def favour (q : Queue) (i : Nat) : Queue :=
  { q with leased := q.leased[i]?.toList ++ q.leased.eraseIdx i }

theorem favour_perm (q : Queue) (i : Nat) : (q.favour i).leased.Perm q.leased := by
  by_cases h : i < q.leased.length
  · simp only [favour, List.getElem?_eq_getElem h, Option.toList_some, List.singleton_append]
    exact List.getElem_cons_eraseIdx_perm h
  · simp only [favour, List.getElem?_eq_none (Nat.le_of_not_lt h), Option.toList_none, List.nil_append]
    rw [List.eraseIdx_of_length_le (Nat.le_of_not_lt h)]

theorem favour_hands (q : Queue) (i : Nat) : q.Hands [] (q.favour i) where
  tokens := rfl
  bodies b := by
    have hleased := (q.favour_perm i).map fun l => l.entry.body
    simp only [bodies, List.mem_append, hleased.mem_iff]
    rfl
  delivered _ hx := by cases hx
  tracks received ht := by
    rw [List.append_nil]
    exact ht.of_subset fun l hl => (q.favour_perm i).mem_iff.mp hl

/-- The queue after its first message was leased. -/
def leaseFirst (q : Queue) (entry : QueueEntry) (rest : List QueueEntry) (now : Nat) : Queue :=
  { q with
    ready := rest
    leased := q.leased ++
      [⟨q.tokens q.issued, { entry with count := entry.count + 1 }, now + q.visibility⟩]
    issued := q.issued + 1 }

private theorem mem_bodies_leaseFirst {entry : QueueEntry} {rest : List QueueEntry} (hready : q.ready = entry :: rest)
    (now : Nat) {b : String} : b ∈ (q.leaseFirst entry rest now).bodies ↔ b ∈ q.bodies := by
  simp only [bodies, leaseFirst, hready, List.map_append, List.map_cons, List.map_nil, List.mem_append,
    List.mem_cons, List.not_mem_nil, or_false]
  grind

private theorem leaseFirst_hands (htokens : Function.Injective q.tokens) {entry : QueueEntry}
    {rest : List QueueEntry} (hready : q.ready = entry :: rest) (now : Nat) :
    q.Hands [⟨entry.body, q.tokens q.issued, entry.count + 1⟩] (q.leaseFirst entry rest now) where
  tokens := rfl
  bodies b := mem_bodies_leaseFirst hready now
  delivered x hx := by
    rw [List.mem_singleton] at hx
    simp [bodies, hready, hx]
  tracks received h := by
    have hold (i : Nat) (hi : i < q.issued) : q.tokens i ≠ q.tokens q.issued := by
      intro heq
      have := htokens heq
      omega
    refine ⟨?_, ?_, ?_⟩
    · intro l hl
      rcases List.mem_append.mp hl with hl | hl
      · obtain ⟨i, hi, htoken⟩ := h.lease_used l hl
        exact ⟨i, Nat.lt_succ_of_lt hi, htoken⟩
      · rw [List.mem_singleton] at hl
        exact ⟨q.issued, Nat.lt_succ_self _, hl ▸ rfl⟩
    · intro x hx
      rcases List.mem_append.mp hx with hx | hx
      · obtain ⟨i, hi, htoken⟩ := h.delivery_used x hx
        exact ⟨i, Nat.lt_succ_of_lt hi, htoken⟩
      · rw [List.mem_singleton] at hx
        exact ⟨q.issued, Nat.lt_succ_self _, hx ▸ rfl⟩
    · intro x hx l hl htoken
      rcases List.mem_append.mp hx with hx | hx <;> rcases List.mem_append.mp hl with hl | hl
      · exact h.agree x hx l hl htoken
      · obtain ⟨i, hi, hxtoken⟩ := h.delivery_used x hx
        rw [List.mem_singleton] at hl
        subst hl
        exact absurd (hxtoken.symm.trans htoken.symm) (hold i hi)
      · obtain ⟨i, hi, hltoken⟩ := h.lease_used l hl
        rw [List.mem_singleton] at hx
        subst hx
        exact absurd (hltoken.symm.trans htoken) (hold i hi)
      · rw [List.mem_singleton] at hx hl
        rw [hx, hl]

theorem lease_of_ready_nil (h : q.ready = []) (max now : Nat) : lease max q now = ([], q) := by
  cases max with
  | zero => rfl
  | succ max => simp [lease, h]

theorem lease_succ {entry : QueueEntry} {rest : List QueueEntry} (h : q.ready = entry :: rest)
    (max now : Nat) :
    lease (max + 1) q now =
      (⟨entry.body, q.tokens q.issued, entry.count + 1⟩ :: (lease max (q.leaseFirst entry rest now) now).1,
        (lease max (q.leaseFirst entry rest now) now).2) := by
  simp [lease, h, leaseFirst]

theorem bodies_lease (q : Queue) (max now : Nat) :
    (lease max q now).1.map Delivery.body = (q.ready.map QueueEntry.body).take max := by
  induction max generalizing q with
  | zero => rfl
  | succ max ih =>
    cases hready : q.ready with
    | nil =>
      rw [lease_of_ready_nil hready]
      rfl
    | cons entry rest =>
      rw [lease_succ hready, List.map_cons, ih, List.map_cons, List.take_succ_cons]
      rfl

private theorem mem_bodies_lease (max now : Nat) {b : String} : b ∈ (lease max q now).2.bodies ↔ b ∈ q.bodies := by
  induction max generalizing q with
  | zero => rfl
  | succ max ih =>
    cases hready : q.ready with
    | nil => rw [lease_of_ready_nil hready]
    | cons entry rest =>
      rw [lease_succ hready, ih]
      exact mem_bodies_leaseFirst hready now

private theorem mem_bodies_take (q : Queue) (max now : Nat) {b : String} :
    b ∈ (q.take max now).2.bodies ↔ b ∈ q.bodies :=
  (mem_bodies_lease _ now).trans ((q.reclaim_hands now).bodies b)

private theorem body_of_mem_take {max now : Nat} {x : Delivery} (h : x ∈ (q.take max now).1) : x.body ∈ q.bodies := by
  have hbody : x.body ∈ (q.take max now).1.map Delivery.body := List.mem_map_of_mem h
  rw [take, bodies_lease] at hbody
  exact ((q.reclaim_hands now).bodies x.body).mp (List.mem_append_left _ (List.mem_of_mem_take hbody))

/-- Whatever the tokens are, a receive keeps the texts on the queue and hands out some of them. -/
theorem bodies_receive (q : Queue) (max wait now : Nat) :
    (∀ b, b ∈ (q.receive max wait now).2.bodies ↔ b ∈ q.bodies) ∧
      ∀ x ∈ (q.receive max wait now).1.1, x.body ∈ q.bodies := by
  unfold receive
  simp only
  split
  · exact ⟨fun b => (mem_bodies_take _ max _).trans (mem_bodies_take q max now),
      fun x hx => (mem_bodies_take q max now).mp (body_of_mem_take hx)⟩
  · exact ⟨fun b => mem_bodies_take q max now, fun x hx => body_of_mem_take hx⟩

private theorem lease_hands (htokens : Function.Injective q.tokens) (max now : Nat) :
    q.Hands (lease max q now).1 (lease max q now).2 := by
  induction max generalizing q with
  | zero => exact Hands.refl q
  | succ max ih =>
    cases hready : q.ready with
    | nil =>
      rw [lease_of_ready_nil hready]
      exact Hands.refl q
    | cons entry rest =>
      rw [lease_succ hready]
      exact (leaseFirst_hands htokens hready now).trans (ih htokens)

private theorem take_hands (htokens : Function.Injective q.tokens) (max now : Nat) :
    q.Hands (q.take max now).1 (q.take max now).2 := by
  have htokens' : Function.Injective (q.reclaim now).tokens := htokens
  exact (q.reclaim_hands now).trans (lease_hands htokens' _ now)

theorem receive_hands (htokens : Function.Injective q.tokens) (max wait now : Nat) :
    q.Hands (q.receive max wait now).1.1 (q.receive max wait now).2 := by
  have hfirst := take_hands htokens max now
  unfold receive
  simp only
  split
  · rename_i hempty
    have hnil : (q.take max now).1 = [] := by simpa using hempty.1
    rw [hnil] at hfirst
    have htokens' : Function.Injective (q.take max now).2.tokens := hfirst.tokens ▸ htokens
    exact hfirst.trans (take_hands htokens' max _)
  · exact hfirst

theorem mem_bodies_sendText (q : Queue) (body b : String) :
    b ∈ (q.sendText body).bodies ↔ b ∈ q.bodies ∨ b = body := by
  simp only [bodies, sendText, List.map_append, List.map_cons, List.map_nil, List.mem_append,
    List.mem_cons, List.not_mem_nil, or_false]
  grind

theorem acknowledge_eq_ok {token : String} {q' : Queue} :
    q.acknowledge token = .ok q' ↔
      (∃ l ∈ q.leased, l.token = token) ∧
        q' = { q with leased := q.leased.filter fun l => l.token ≠ token } := by
  have hany : (q.leased.any fun l => l.token = token) = true ↔ ∃ l ∈ q.leased, l.token = token := by
    simp
  rw [acknowledge, ← hany]
  split
  · rename_i hleased
    rw [Except.ok.injEq, eq_comm]
    simp [hleased]
  · rename_i hnone
    simp [hnone]

theorem Tracks.of_acknowledge {received : List Delivery} (h : q.Tracks received) {token : String}
    {q' : Queue} (hq : q.acknowledge token = .ok q') : q'.tokens = q.tokens ∧ q'.Tracks received := by
  obtain ⟨-, rfl⟩ := acknowledge_eq_ok.mp hq
  exact ⟨rfl, h.of_subset fun l hl => (List.mem_filter.mp hl).1⟩

theorem mem_bodies_of_acknowledge {token : String} {q' : Queue} (hq : q.acknowledge token = .ok q') {b : String}
    (hb : b ∈ q'.bodies) : b ∈ q.bodies := by
  obtain ⟨-, rfl⟩ := acknowledge_eq_ok.mp hq
  simp only [bodies, List.mem_append, List.mem_map, List.mem_filter] at hb ⊢
  grind

/-- An acknowledgement removes no text but that of the delivery with its token. -/
theorem mem_bodies_acknowledge {received : List Delivery} (h : q.Tracks received) {x : Delivery}
    (hx : x ∈ received) {q' : Queue} (hq : q.acknowledge x.token = .ok q') {b : String} :
    (b ∈ q'.bodies → b ∈ q.bodies) ∧ (b ∈ q.bodies → b ∈ q'.bodies ∨ b = x.body) := by
  refine ⟨mem_bodies_of_acknowledge hq, ?_⟩
  obtain ⟨-, rfl⟩ := acknowledge_eq_ok.mp hq
  simp only [bodies, List.mem_append, List.mem_map, List.mem_filter, decide_eq_true_eq]
  have hagree := h.agree x hx
  grind

end Queue

end AuditTrail

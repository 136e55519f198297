import AuditTrail.Proofs.Queue.Course
/-!
# Steps of a queue

Whatever is done to a queue, it takes a number of small steps, at each of which at most one thing happens. A
property that every step keeps is one of every course: `QueueCourse.run_invariant`.
-/

namespace AuditTrail

namespace QueueLedger

def send (l : QueueLedger) (body : String) : QueueLedger :=
  { l with names := l.names.sendText (toString l.sent.length), events := l.events ++ [.sent body] }

def look (l : QueueLedger) : QueueLedger :=
  { l with names := l.names.reclaim l.clock, events := l.events ++ [.looked l.clock] }

/-- The first entry as it is handed out next. -/
def handing (l : QueueLedger) (entry : QueueEntry) : Handing :=
  ⟨entry.body, ⟨l.text entry.body, l.names.tokens l.names.issued, entry.count + 1⟩, l.clock⟩

def hand (l : QueueLedger) (entry : QueueEntry) (rest : List QueueEntry) : QueueLedger :=
  { l with
    names := l.names.leaseFirst entry rest l.clock
    events := l.events ++ [.handed (l.handing entry)] }

/-- The account after the message that is leased under a token was acknowledged. -/
def remove (l : QueueLedger) (token : String) : QueueLedger :=
  { l with
    names := { l.names with leased := l.names.leased.filter fun x => x.token ≠ token }
    events := l.events ++ [.acknowledged token] }

def passTo (l : QueueLedger) (time : Nat) : QueueLedger := { l with clock := time }

/-- What can happen to a queue at a time. -/
inductive Step (l : QueueLedger) : QueueLedger → Prop
  | send (body : String) : Step l (l.send body)
  | look : Step l l.look
  | hand {entry : QueueEntry} {rest : List QueueEntry} (h : l.names.ready = entry :: rest) :
    Step l (l.hand entry rest)
  | acknowledge {x : QueueLease} (h : x ∈ l.names.leased) : Step l (l.remove x.token)
  | release : Step l { l with names := l.names.releaseAll, events := l.events ++ [.released] }
  | pass {time : Nat} (h : l.clock ≤ time) : Step l (l.passTo time)
  | favour (i : Nat) : Step l { l with names := l.names.favour i }

abbrev Steps : QueueLedger → QueueLedger → Prop := Relation.ReflTransGen Step

@[simp] theorem text_look (l : QueueLedger) : l.look.text = l.text := by
  apply text_congr
  simp [look, sent, QueueEvent.sent?]

@[simp] theorem text_hand (l : QueueLedger) (entry : QueueEntry) (rest : List QueueEntry) :
    (l.hand entry rest).text = l.text := by
  apply text_congr
  simp [hand, sent, QueueEvent.sent?]

@[simp] theorem text_passTo (l : QueueLedger) (time : Nat) : (l.passTo time).text = l.text := rfl

/-! ## Receiving -/

/-- The ledger after so many messages at most were handed out. -/
def afterLease (l : QueueLedger) (max : Nat) : QueueLedger :=
  { l with
    names := (Queue.lease max l.names l.clock).2
    events := l.events ++ (Queue.lease max l.names l.clock).1.map fun y =>
      .handed ⟨y.body, y.relabel l.text, l.clock⟩ }

private theorem steps_lease (l : QueueLedger) (max : Nat) : l.Steps (l.afterLease max) := by
  induction max generalizing l with
  | zero =>
    have hsame : l.afterLease 0 = l := by simp [afterLease, Queue.lease]
    rw [hsame]
  | succ max ih =>
    cases hready : l.names.ready with
    | nil =>
      have hsame : l.afterLease (max + 1) = l := by
        simp [afterLease, Queue.lease_of_ready_nil hready]
      rw [hsame]
    | cons entry rest =>
      have hfirst : (l.hand entry rest).afterLease max = l.afterLease (max + 1) := by
        simp only [afterLease, text_hand, Queue.lease_succ hready, List.map_cons]
        simp only [hand, List.append_assoc, List.singleton_append]
        rfl
      rw [← hfirst]
      exact (ih _).head (Step.hand hready)

/-- The ledger after somebody has looked for so many messages. -/
def afterTake (l : QueueLedger) (max : Nat) : QueueLedger := l.look.afterLease (Nat.max max 1)

theorem steps_take (l : QueueLedger) (max : Nat) : l.Steps (l.afterTake max) :=
  (steps_lease _ _).head Step.look

@[simp] theorem text_afterTake (l : QueueLedger) (max : Nat) : (l.afterTake max).text = l.text := by
  rw [← text_look l]
  apply text_congr
  simp [afterTake, afterLease, sent, QueueEvent.sent?, Function.comp_def]

theorem afterTake_eq (l : QueueLedger) (max : Nat) :
    l.afterTake max =
      { l with
        names := (l.names.take max l.clock).2
        events := l.events ++ .looked l.clock :: (l.names.take max l.clock).1.map fun y =>
          .handed ⟨y.body, y.relabel l.text, l.clock⟩ } := by
  simp only [afterTake, afterLease, text_look]
  simp only [look, Queue.take, List.append_assoc, List.singleton_append]

end QueueLedger

namespace Queue

/-- Whoever finds nothing waits, and does not look again before now. -/
theorem le_wakeAt {q : Queue} {max now : Nat} (h : (q.take max now).1 = []) (wait : Nat) :
    now ≤ (q.take max now).2.wakeAt (now + wait) := by
  have hempty : (q.take max now).2 = q.reclaim now := by
    cases hready : (q.reclaim now).ready with
    | nil => rw [take, lease_of_ready_nil hready]
    | cons entry rest =>
      have hpos : 0 < Nat.max max 1 := Nat.le_max_right max 1
      obtain ⟨k, hk⟩ := Nat.exists_eq_add_one.mpr hpos
      rw [take, hk, lease_succ hready] at h
      cases h
  rw [hempty, wakeAt]
  cases hexpiry : (q.reclaim now).nextExpiry with
  | none => exact Nat.le_add_right now wait
  | some time =>
    have hmem := List.min?_mem hexpiry
    rw [reclaim_eq] at hmem
    obtain ⟨l, hl, rfl⟩ := List.mem_map.mp hmem
    have hvalid := (List.mem_filter.mp hl).2
    simp only [Bool.not_eq_true', decide_eq_false_iff_not] at hvalid
    exact Nat.le_min.mpr ⟨by omega, Nat.le_add_right now wait⟩

end Queue

namespace QueueCourse

variable {c : QueueCourse}

private theorem Linked.afterReceive_ledger (h : c.Linked) (max wait : Nat) :
    (c.afterReceive max wait).toQueueLedger =
      { names := (c.names.receive max wait c.clock).2
        clock := (c.names.receive max wait c.clock).1.2
        events := c.events ++ (c.names.looks max wait c.clock).map .looked ++
          (c.names.receive max wait c.clock).1.1.map fun y =>
            .handed ⟨y.body, y.relabel c.text, (c.names.receive max wait c.clock).1.2⟩ } := by
  have hzip (ys : List Delivery) (f : Delivery → Delivery) :
      ys.zip (ys.map f) = ys.map fun y => (y, f y) := by
    induction ys with
    | nil => rfl
    | cons y ys ih => rw [List.map_cons, List.zip_cons_cons, ih, List.map_cons]
  simp only [QueueCourse.afterReceive, h.queue, Queue.receive_relabel, Queue.looks_relabel, hzip, List.map_map]
  rfl

private theorem Linked.steps_receive (h : c.Linked) (max wait : Nat) :
    c.toQueueLedger.Steps (c.afterReceive max wait).toQueueLedger := by
  have hfirst := QueueLedger.steps_take c.toQueueLedger max
  rw [h.afterReceive_ledger]
  by_cases hwait : (c.names.take max c.clock).1.isEmpty ∧ 0 < wait
  · have hnone : (c.names.take max c.clock).1 = [] := List.isEmpty_iff.mp hwait.1
    let wake := (c.names.take max c.clock).2.wakeAt (c.clock + wait)
    have hlater : c.clock ≤ wake := Queue.le_wakeAt hnone wait
    have hpass := QueueLedger.Step.pass (l := c.toQueueLedger.afterTake max) hlater
    have hsecond := QueueLedger.steps_take ((c.toQueueLedger.afterTake max).passTo wake) max
    rw [QueueLedger.afterTake_eq ((c.toQueueLedger.afterTake max).passTo wake), QueueLedger.text_passTo,
      QueueLedger.text_afterTake] at hsecond
    have hboth := (hfirst.tail hpass).trans hsecond
    simp only [QueueLedger.afterTake_eq, QueueLedger.passTo, hnone, List.map_nil] at hboth
    simpa only [Queue.receive, Queue.looks, if_pos hwait, List.map_cons, List.map_nil, List.append_assoc,
      List.cons_append, List.nil_append] using hboth
  · rw [QueueLedger.afterTake_eq] at hfirst
    simpa only [Queue.receive, Queue.looks, if_neg hwait, List.map_cons, List.map_nil, List.append_assoc,
      List.singleton_append] using hfirst

private theorem Linked.steps_acknowledge (h : c.Linked) (token : String) :
    c.toQueueLedger.Steps (c.afterAcknowledge token).toQueueLedger := by
  cases hnames : c.names.acknowledge token with
  | error f =>
    rw [((h.afterAcknowledge_eq token).2 f hnames).2]
  | ok names =>
    rw [((h.afterAcknowledge_eq token).1 names hnames).2]
    obtain ⟨⟨x, hx, rfl⟩, rfl⟩ := Queue.acknowledge_eq_ok.mp hnames
    exact .single (.acknowledge hx)

private theorem Linked.steps_after (h : c.Linked) (v : QueueMove) :
    c.toQueueLedger.Steps (c.after v).toQueueLedger := by
  cases v with
  | send m => exact .single (.send m.encode)
  | sendText body => exact .single (.send body)
  | receive max wait => exact h.steps_receive max wait
  | acknowledge token => exact h.steps_acknowledge token
  | releaseAll => exact .single .release
  | pass millis => exact .single (.pass (Nat.le_add_right c.clock millis))
  | favour i => exact .single (.favour i)

theorem steps_run (visibility : Nat) {tokens : Nat → String} (h : Function.Injective tokens)
    (moves : List QueueMove) :
    (new visibility tokens).toQueueLedger.Steps (run visibility tokens moves).toQueueLedger := by
  have hstart := Linked.new visibility h
  unfold run
  generalize new visibility tokens = c at hstart ⊢
  induction moves generalizing c with
  | nil => exact .refl
  | cons v rest ih => exact (hstart.steps_after v).trans (ih _ (hstart.after v))

end QueueCourse

end AuditTrail

import AuditTrail.Proofs.Number.Integers
import AuditTrail.Proofs.Queue.Relabel
import Mathlib.Logic.Relation
/-!
# What happens to a queue

A course is a queue with what has happened to it. Messages may have the same text, so next to the queue
there is one that is treated alike and has on it, in place of each text, the number of texts sent before it.
By these names the entries are told apart.
-/

namespace AuditTrail

inductive QueueMove where
  | send (m : Message)
  | sendText (body : String)
  | receive (max wait : Nat)
  | acknowledge (token : String)
  | releaseAll
  | pass (millis : Nat)
  /-- Leases are in no order: another one comes to be the first to become ready again. -/
  | favour (i : Nat)

/-- An entry that was handed out, and when. -/
structure Handing where
  name : String
  delivery : Delivery
  time : Nat

namespace Handing

def token (h : Handing) : String := h.delivery.token

/-- The lease that the delivery came with. -/
def lease (h : Handing) (visibility : Nat) : QueueLease :=
  ⟨h.token, ⟨h.name, h.delivery.count⟩, h.time + visibility⟩

end Handing

inductive QueueEvent where
  | sent (body : String)
  /-- Somebody looked for messages, at which expired leases end. -/
  | looked (time : Nat)
  | handed (h : Handing)
  | acknowledged (token : String)
  | released

namespace QueueEvent

def sent? : QueueEvent → Option String
  | sent body => some body
  | _ => none

def handing? : QueueEvent → Option Handing
  | handed h => some h
  | _ => none

def acknowledged? : QueueEvent → Option String
  | acknowledged token => some token
  | _ => none

def Ends (x : QueueLease) : QueueEvent → Prop
  | looked time => x.expiresAt ≤ time
  | acknowledged token => x.token = token
  | released => True
  | _ => False

end QueueEvent

/-- The account of a course, by the names of the entries. -/
structure QueueLedger where
  names : Queue
  clock : Nat
  events : List QueueEvent

namespace QueueLedger

def sent (l : QueueLedger) : List String := l.events.filterMap QueueEvent.sent?

def handings (l : QueueLedger) : List Handing := l.events.filterMap QueueEvent.handing?

/-- The tokens with which messages were acknowledged. -/
def acknowledged (l : QueueLedger) : List String := l.events.filterMap QueueEvent.acknowledged?

/-- The deliveries that were acknowledged. -/
def removed (l : QueueLedger) : List Handing := l.handings.filter fun h => h.token ∈ l.acknowledged

/-- The text that was sent under a name. -/
def text (l : QueueLedger) (name : String) : String :=
  ((parseDigits name.toList).bind fun n => l.sent[n]?).getD ""

/-- Whether the lease that a delivery came with has not been ended. -/
def Lasts (l : QueueLedger) (h : Handing) : Prop :=
  ∃ before after, l.events = before ++ .handed h :: after ∧
    ∀ e ∈ after, ¬ e.Ends (h.lease l.names.visibility)

end QueueLedger

structure QueueCourse extends QueueLedger where
  queue : Queue

namespace Queue

/-- When a receiver looks for messages: at once, and once more if it has to wait. -/
def looks (q : Queue) (max wait now : Nat) : List Nat :=
  let (deliveries, q) := q.take max now
  if deliveries.isEmpty ∧ 0 < wait then [now, q.wakeAt (now + wait)] else [now]

private theorem favour_relabel (f : String → String) (q : Queue) (i : Nat) :
    (q.relabel f).favour i = (q.favour i).relabel f := by
  simp [favour, relabel, List.eraseIdx_eq_take_drop_succ, Option.toList_map]

theorem looks_relabel (f : String → String) (q : Queue) (max wait now : Nat) :
    (q.relabel f).looks max wait now = q.looks max wait now := by
  simp only [looks, take_relabel, wakeAt_relabel, List.isEmpty_map]

end Queue

namespace QueueCourse

def new (visibility : Nat) (tokens : Nat → String) : QueueCourse :=
  ⟨⟨.new visibility tokens, 0, []⟩, .new visibility tokens⟩

def afterSend (c : QueueCourse) (body : String) : QueueCourse :=
  { c with
    names := c.names.sendText (toString c.sent.length)
    events := c.events ++ [.sent body]
    queue := c.queue.sendText body }

def afterReceive (c : QueueCourse) (max wait : Nat) : QueueCourse :=
  let ((deliveries, time), queue) := c.queue.receive max wait c.clock
  let ((named, _), names) := c.names.receive max wait c.clock
  { names, clock := time, queue
    events := c.events ++ (c.queue.looks max wait c.clock).map .looked ++
      (named.zip deliveries).map fun (n, x) => .handed ⟨n.body, x, time⟩ }

/-- The course after somebody has tried to acknowledge a message. -/
def afterAcknowledge (c : QueueCourse) (token : String) : QueueCourse :=
  match c.names.acknowledge token, c.queue.acknowledge token with
  | .ok names, .ok queue => { c with names, queue, events := c.events ++ [.acknowledged token] }
  | _, _ => c

def after (c : QueueCourse) : QueueMove → QueueCourse
  | .send m => { c.afterSend m.encode with queue := c.queue.send m }
  | .sendText body => c.afterSend body
  | .receive max wait => c.afterReceive max wait
  | .acknowledge token => c.afterAcknowledge token
  | .releaseAll =>
    { c with
      names := c.names.releaseAll
      events := c.events ++ [.released]
      queue := c.queue.releaseAll }
  | .pass millis => { c with clock := c.clock + millis }
  | .favour i => { c with names := c.names.favour i, queue := c.queue.favour i }

def run (visibility : Nat) (tokens : Nat → String) (moves : List QueueMove) : QueueCourse :=
  moves.foldl after (new visibility tokens)

end QueueCourse

/-! ## Names stand for texts -/

namespace QueueLedger

theorem text_congr {l l' : QueueLedger} (h : l'.sent = l.sent) : l'.text = l.text := by
  funext name
  rw [text, h, text]

variable {l l' : QueueLedger} {body : String}

theorem text_decimal (l : QueueLedger) (n : Nat) : l.text (toString n) = (l.sent[n]?).getD "" := by
  have hread : parseDigits (toString n).toList = some n := by
    rw [← parseDigits_toDigits n]
    exact congrArg parseDigits Nat.toList_repr
  rw [text, hread, Option.bind_some]

theorem text_of_sent (h : l'.sent = l.sent ++ [body]) {n : Nat} (hn : n < l.sent.length) :
    l'.text (toString n) = l.text (toString n) := by
  rw [text_decimal, text_decimal, h, List.getElem?_append_left hn]

private theorem text_last (h : l'.sent = l.sent ++ [body]) : l'.text (toString l.sent.length) = body := by
  rw [text_decimal, h]
  simp

end QueueLedger

namespace QueueCourse

/-- The queue is that of the names, with the texts that were sent under them. -/
structure Linked (c : QueueCourse) : Prop where
  injective : Function.Injective c.names.tokens
  named : ∀ b ∈ c.names.bodies, ∃ n < c.sent.length, b = toString n
  queue : c.queue = c.names.relabel c.text

namespace Linked

variable {c c' : QueueCourse}

theorem new (visibility : Nat) {tokens : Nat → String} (h : Function.Injective tokens) :
    (QueueCourse.new visibility tokens).Linked where
  injective := h
  named := by simp [QueueCourse.new, Queue.new, Queue.bodies]
  queue := rfl

private theorem afterSend (h : c.Linked) (body : String) : (c.afterSend body).Linked := by
  have hsent : (c.afterSend body).sent = c.sent ++ [body] := by
    simp [QueueLedger.sent, QueueCourse.afterSend, QueueEvent.sent?]
  refine ⟨h.injective, ?_, ?_⟩
  · intro b hb
    rw [hsent, List.length_append]
    rcases (Queue.mem_bodies_sendText _ _ b).mp hb with hold | rfl
    · obtain ⟨n, hn, rfl⟩ := h.named b hold
      exact ⟨n, Nat.lt_add_right 1 hn, rfl⟩
    · exact ⟨c.sent.length, Nat.lt_succ_self _, rfl⟩
  · have hold : c.names.relabel c.text = c.names.relabel (c.afterSend body).text := by
      apply Queue.relabel_congr
      intro b hb
      obtain ⟨n, hn, rfl⟩ := h.named b hb
      exact (QueueLedger.text_of_sent hsent hn).symm
    have hlast := QueueLedger.text_last hsent
    change c.queue.sendText body = (c.names.sendText (toString c.sent.length)).relabel _
    rw [h.queue, hold, ← Queue.sendText_relabel, hlast]

private theorem of_subset (h : c.Linked) (htokens : c'.names.tokens = c.names.tokens)
    (hsent : c'.sent = c.sent) (hbodies : ∀ b ∈ c'.names.bodies, b ∈ c.names.bodies)
    (hqueue : c'.queue = c'.names.relabel c.text) : c'.Linked where
  injective := htokens ▸ h.injective
  named b hb := hsent ▸ h.named b (hbodies b hb)
  queue := by rw [hqueue, QueueLedger.text_congr hsent]

theorem afterReceive (h : c.Linked) (max wait : Nat) : (c.afterReceive max wait).Linked := by
  have hhands := Queue.receive_hands h.injective max wait c.clock
  refine h.of_subset hhands.tokens ?_ (fun b hb => (hhands.bodies b).mp hb) ?_
  · simp only [QueueLedger.sent, QueueCourse.afterReceive, List.filterMap_append, List.filterMap_map]
    simp [QueueEvent.sent?, Function.comp_def]
  · simp only [QueueCourse.afterReceive]
    rw [h.queue, Queue.receive_relabel]

/-- The queue and that of the names agree on which tokens acknowledge a message. -/
theorem afterAcknowledge_eq (h : c.Linked) (token : String) :
    (∀ names, c.names.acknowledge token = .ok names →
      c.queue.acknowledge token = .ok (names.relabel c.text) ∧
        c.afterAcknowledge token =
          { c with
            names
            queue := names.relabel c.text
            events := c.events ++ [.acknowledged token] }) ∧
    (∀ f, c.names.acknowledge token = .error f →
      c.queue.acknowledge token = .error f ∧ c.afterAcknowledge token = c) := by
  have hqueue : c.queue.acknowledge token = (c.names.acknowledge token).map (Queue.relabel c.text) := by
    rw [h.queue, Queue.acknowledge_relabel]
  constructor
  · intro names hnames
    rw [hnames] at hqueue
    refine ⟨hqueue, ?_⟩
    rw [QueueCourse.afterAcknowledge, hnames, hqueue]
    rfl
  · intro f hnames
    rw [hnames] at hqueue
    refine ⟨hqueue, ?_⟩
    rw [QueueCourse.afterAcknowledge, hnames, hqueue]

theorem afterAcknowledge (h : c.Linked) (token : String) : (c.afterAcknowledge token).Linked := by
  cases hnames : c.names.acknowledge token with
  | error f =>
    rw [((h.afterAcknowledge_eq token).2 f hnames).2]
    exact h
  | ok names =>
    rw [((h.afterAcknowledge_eq token).1 names hnames).2]
    obtain ⟨-, rfl⟩ := Queue.acknowledge_eq_ok.mp hnames
    refine h.of_subset rfl ?_ ?_ rfl
    · simp [QueueLedger.sent, QueueEvent.sent?]
    · simp only [Queue.bodies, List.mem_append, List.mem_map, List.mem_filter]
      grind

theorem after (h : c.Linked) (v : QueueMove) : (c.after v).Linked := by
  cases v with
  | send m => exact h.afterSend m.encode
  | sendText body => exact h.afterSend body
  | receive max wait => exact h.afterReceive max wait
  | acknowledge token => exact h.afterAcknowledge token
  | releaseAll =>
    have hhands := Queue.releaseAll_hands c.names
    refine h.of_subset rfl ?_ (fun b hb => (hhands.bodies b).mp hb) ?_
    · simp [QueueLedger.sent, QueueCourse.after, QueueEvent.sent?]
    · change c.queue.releaseAll = c.names.releaseAll.relabel c.text
      rw [h.queue, Queue.releaseAll_relabel]
  | pass millis => exact h.of_subset rfl rfl (fun _ hb => hb) h.queue
  | favour i =>
    refine h.of_subset rfl rfl ?_ ?_
    · intro b hb
      have hperm := (Queue.favour_perm c.names i).map fun x => x.entry.body
      exact ((List.Perm.refl _).append hperm).mem_iff.mp hb
    · change c.queue.favour i = (c.names.favour i).relabel c.text
      rw [h.queue, Queue.favour_relabel]

theorem run (visibility : Nat) {tokens : Nat → String} (h : Function.Injective tokens)
    (moves : List QueueMove) : (QueueCourse.run visibility tokens moves).Linked := by
  have hstart := Linked.new visibility h
  unfold QueueCourse.run
  generalize QueueCourse.new visibility tokens = c at hstart ⊢
  induction moves generalizing c with
  | nil => exact hstart
  | cons v rest ih => exact ih _ (hstart.after v)

end Linked

end QueueCourse

end AuditTrail

import AuditTrail.Proofs.Message.RoundTrip
import AuditTrail.Proofs.Pipeline.Writes
import AuditTrail.Proofs.Queue.Leases
import AuditTrail.Worker.Cycle
/-!
# Deployments

A deployment is a pipeline at work. Clients write to it, any number of workers receive deliveries, apply
their messages and acknowledge them or stop before that, time passes and leases end. Each of these is a
move, and moves come in any order. To apply a message is one move: nobody sees an index in which a part of
it has been done.
-/

namespace AuditTrail

open Pipeline

/-- A pipeline with what has happened to it so far. -/
structure Deployment where
  pipeline : Pipeline
  /-- The messages that were published, in order. -/
  published : List Message
  /-- The deliveries that workers received. -/
  received : List Delivery
  /-- The deliveries whose messages were applied and these messages, in order. -/
  applied : List (Delivery × Message)

inductive Move where
  | write (w : Write)
  | receive (max wait : Nat)
  /-- A worker applies the message of a delivery; this may fail. -/
  | apply (x : Delivery)
  | acknowledge (x : Delivery)
  | pass (millis : Nat)
  | releaseAll
  /-- A text that is not published by a write is put onto the queue. -/
  | inject (body : String)
  /-- The messages that are ready come into another order. -/
  | reorder (ready : List QueueEntry)
  /-- Leases are in no order: another one comes to be the first to become ready again. -/
  | favour (i : Nat)

namespace Deployment

def new (visibility : Nat) (tokens : Nat → String) : Deployment :=
  ⟨.new visibility tokens, [], [], []⟩

def set (d : Deployment) (p : Pipeline) : Deployment := { d with pipeline := p }

def setQueue (d : Deployment) (queue : Queue) : Deployment := d.set { d.pipeline with queue }

def appliedMessages (d : Deployment) : List Message := d.applied.map Prod.snd

/-- The deployment after a worker has tried to apply a message that it was delivered. -/
def afterMessage (d : Deployment) (x : Delivery) (m : Message) : Deployment :=
  match outcome (applyMessage m) d.pipeline with
  | (.ok _, p) => { d.set p with applied := d.applied ++ [(x, m)] }
  | (.error _, p) => d.set p

/-- The deployment after a worker has tried to apply the message of a delivery, if it can read it. -/
def afterApply (d : Deployment) (x : Delivery) : Deployment :=
  match Message.decode x.body with
  | .error _ => d
  | .ok m => d.afterMessage x m

/-- The deployment after a write, which publishes a message if it goes through. -/
def afterWrite (d : Deployment) (w : Write) : Deployment :=
  { d.set (outcome w.perform d.pipeline).2 with
    published := d.published ++ Write.published d.pipeline.records [w] }

def afterReceive (d : Deployment) (max wait : Nat) : Deployment :=
  match outcome (receiveMessages max wait) d.pipeline with
  | (.ok deliveries, p) => { d.set p with received := d.received ++ deliveries }
  | (.error _, p) => d.set p

def after (d : Deployment) : Move → Deployment
  | .write w => d.afterWrite w
  | .receive max wait => d.afterReceive max wait
  | .apply x => d.afterApply x
  | .acknowledge x => d.set (outcome (acknowledge x.token) d.pipeline).2
  | .pass millis => d.set { d.pipeline with clock := d.pipeline.clock + millis }
  | .releaseAll => d.setQueue d.pipeline.queue.releaseAll
  | .inject body => d.setQueue (d.pipeline.queue.sendText body)
  | .reorder ready => d.setQueue { d.pipeline.queue with ready }
  | .favour i => d.setQueue (d.pipeline.queue.favour i)

theorem after_apply {d : Deployment} {x : Delivery} {m : Message} (h : Message.decode x.body = .ok m) :
    d.after (.apply x) = d.afterMessage x m := by
  change d.afterApply x = _
  rw [afterApply, h]

/-- Whether a text is that of a sound message. -/
def readable (body : String) : Bool := (Message.decode body).isOk

/-- When a move is possible. Workers apply what they received, and acknowledge what they applied or cannot
read. A text that is injected is not readable. -/
def Allows (d : Deployment) : Move → Prop
  | .apply x => x ∈ d.received
  | .acknowledge x => x ∈ d.applied.map Prod.fst ∨ (x ∈ d.received ∧ readable x.body = false)
  | .inject body => readable body = false
  | .reorder ready => ready.Perm d.pipeline.queue.ready
  | _ => True

instance (d : Deployment) (v : Move) : Decidable (d.Allows v) :=
  match v with
  | .write _ => inferInstanceAs (Decidable True)
  | .receive _ _ => inferInstanceAs (Decidable True)
  | .apply x => inferInstanceAs (Decidable (x ∈ d.received))
  | .acknowledge x =>
    inferInstanceAs (Decidable (x ∈ d.applied.map Prod.fst ∨ (x ∈ d.received ∧ readable x.body = false)))
  | .pass _ => inferInstanceAs (Decidable True)
  | .releaseAll => inferInstanceAs (Decidable True)
  | .inject body => inferInstanceAs (Decidable (readable body = false))
  | .reorder ready => inferInstanceAs (Decidable (ready.Perm d.pipeline.queue.ready))
  | .favour _ => inferInstanceAs (Decidable True)

/-- The deployments that moves of some sort lead to, from empty backends. -/
inductive Reachable (sort : Move → Prop) (visibility : Nat) (tokens : Nat → String) : Deployment → Prop
  | new : Reachable sort visibility tokens (.new visibility tokens)
  | move {d : Deployment} {v : Move} (before : Reachable sort visibility tokens d) (hsort : sort v)
      (hallowed : d.Allows v) : Reachable sort visibility tokens (d.after v)

/-- Moves of which each is possible after those before it. -/
def Legal (d : Deployment) : List Move → Prop
  | [] => True
  | v :: rest => d.Allows v ∧ (d.after v).Legal rest

instance decidableLegal (d : Deployment) : (moves : List Move) → Decidable (d.Legal moves)
  | [] => inferInstanceAs (Decidable True)
  | v :: rest =>
    have := decidableLegal (d.after v) rest
    inferInstanceAs (Decidable (d.Allows v ∧ (d.after v).Legal rest))

def afterAll (d : Deployment) (moves : List Move) : Deployment := moves.foldl after d

theorem Reachable.afterAll {sort : Move → Prop} {visibility : Nat} {tokens : Nat → String}
    {d : Deployment} (h : Reachable sort visibility tokens d) (moves : List Move)
    (hsort : ∀ v ∈ moves, sort v) (hlegal : d.Legal moves) :
    Reachable sort visibility tokens (d.afterAll moves) := by
  induction moves generalizing d with
  | nil => exact h
  | cons v rest ih =>
    have hnext := h.move (hsort v (by simp)) hlegal.1
    exact ih hnext (fun u hu => hsort u (by simp [hu])) hlegal.2

theorem Reachable.afterMessage {sort : Move → Prop} {visibility : Nat} {tokens : Nat → String}
    {d : Deployment} (h : Reachable sort visibility tokens d) {x : Delivery} {m : Message}
    (hsort : sort (.apply x)) (hx : x ∈ d.received) (hm : Message.decode x.body = .ok m) :
    Reachable sort visibility tokens (d.afterMessage x m) := by
  rw [← after_apply hm]
  exact h.move hsort hx

/-- The text of every published message is that of the message and of no other. -/
def Readable (d : Deployment) : Prop := ∀ m ∈ d.published, Message.decode m.encode = .ok m

end Deployment

/-! ## A sign-in that is delivered -/

namespace Message

def signIn (id : String) : Message := .index (.signIn id) .epoch

theorem decode_signIn (id : String) : decode (signIn id).encode = .ok (signIn id) := by
  have hsound : (signIn id).SoundBlobs := by
    intro e he
    rw [signIn, index, List.mem_singleton] at he
    subst he
    exact ⟨by simp [Event.signIn], by simp [Event.signIn], by simp [Event.signIn]⟩
  rw [decode_encode hsound]
  rfl

end Message

namespace Deployment

/-- A token for each number, that many characters long. -/
def unaryToken (n : Nat) : String := String.ofList (List.replicate n 'x')

theorem unaryToken_injective : Function.Injective unaryToken := by
  intro m n h
  have hlength := congrArg (fun s => s.toList.length) h
  simpa [unaryToken] using hlength

/-- The deployment after somebody has signed in and a worker has received the message about it. -/
def signedIn (visibility : Nat) : Deployment :=
  (new visibility unaryToken).afterAll [.write (.signIn "e1"), .receive 10 0]

theorem signedIn_reachable {sort : Move → Prop} (visibility : Nat)
    (hsort : sort (.write (.signIn "e1")) ∧ sort (.receive 10 0)) :
    Reachable sort visibility unaryToken (signedIn visibility) :=
  Reachable.new.afterAll _ (by simpa using hsort) ⟨trivial, trivial, trivial⟩

/-- The message about a sign-in as it is delivered under a token. -/
def signInDelivery (token count : Nat) : Delivery :=
  ⟨(Message.signIn "e1").encode, unaryToken token, count⟩

theorem decode_signInDelivery (token count : Nat) :
    Message.decode (signInDelivery token count).body = .ok (.signIn "e1") := Message.decode_signIn "e1"

end Deployment

end AuditTrail

import AuditTrail.Proofs.Message.RoundTrip
import AuditTrail.Proofs.Pipeline.Writes
import AuditTrail.Proofs.Queue.Depth
import AuditTrail.Worker.Cycle
/-!
# Cycles of a worker

A worker handles a batch with an index of any kind, whose calls may fail at any time, and a queue on which
others act as they like before each of its calls. Nothing but the text of a delivery and what the index says
decides its fate, and the worker ends no lease but those of deliveries that it could not read or has
applied.
-/

namespace AuditTrail

abbrev Attempt (τ α : Type) : Type := ExceptT Failure (StateM τ) α

namespace Attempt

variable {τ α β : Type}

def outcome (a : Attempt τ α) (s : τ) : Except Failure α × τ := a.run.run s

theorem outcome_bind (a : Attempt τ α) (f : α → Attempt τ β) (s : τ) :
    outcome (a >>= f) s =
      match outcome a s with
      | (.ok x, t) => outcome (f x) t
      | (.error e, t) => (.error e, t) := by
  simp only [outcome, ExceptT.run_bind, StateT.run_bind]
  rcases (a.run.run s : Except Failure α × τ) with ⟨x | x, t⟩ <;> rfl

end Attempt

/-! ## Parts of handling a delivery -/

namespace WorkerBackend

variable {m : Type → Type} [Monad m] (backend : WorkerBackend m)

def note (d : Delivery) : m Unit := do
  backend.count .messagesReceived 1
  if 1 < d.count then backend.count .messagesRedelivered 1

/-- Ends the handling of a message that could not be read. -/
def discard (token : String) : m Handling := do
  backend.count .messagesDiscarded 1
  let _ ← backend.acknowledged token
  return .discarded

/-- Ends the handling of a message that a worker has tried to apply. -/
def conclude (token : String) : Except Failure Unit → m Handling
  | .error _ => do
    backend.count .projectionFailures 1
    return .failed
  | .ok _ => do
    if ← backend.acknowledged token then
      backend.count .messagesAcked 1
      return .acked
    else return .failed

theorem handle_eq [LawfulMonad m] (d : Delivery) :
    backend.handle d = (do
      backend.note d
      match Message.decode d.body with
      | .error _ => backend.discard d.token
      | .ok message => do backend.conclude d.token (← (backend.apply message).run)) := by
  unfold handle note
  simp only [bind_assoc]
  by_cases hagain : 1 < d.count
  · simp only [hagain, if_true]
    rfl
  · simp only [hagain, if_false, pure_bind]
    rfl

end WorkerBackend

/-! ## The fates of deliveries -/

inductive Fate where
  | unreadable
  /-- The index has failed. -/
  | refused
  | applied
  deriving DecidableEq, Repr

/-- How a delivery is reported, depending on whether a lease of it was ended. -/
def Fate.handling (ended : Bool) : Fate → Handling
  | unreadable => .discarded
  | refused => .failed
  | applied => if ended then .acked else .failed

namespace IndexTarget

variable {σ : Type} (target : IndexTarget (StateM σ))

/-- The fate of a delivery that is alone, and the index after it. -/
def fate (d : Delivery) (s : σ) : Fate × σ :=
  match Message.decode d.body with
  | .error _ => (.unreadable, s)
  | .ok m =>
    let answer := Attempt.outcome (target.project m) s
    (if answer.1.isOk then .applied else .refused, answer.2)

/-- The fates of deliveries one after the other, and the index after them. -/
def fates : List Delivery → σ → List (Delivery × Fate) × σ
  | [], s => ([], s)
  | d :: rest, s =>
    ((d, (target.fate d s).1) :: (fates rest (target.fate d s).2).1, (fates rest (target.fate d s).2).2)

private theorem deliveries_fates (batch : List Delivery) (s : σ) : (target.fates batch s).1.map Prod.fst = batch := by
  induction batch generalizing s with
  | nil => rfl
  | cons d rest ih => rw [fates, List.map_cons, ih]

private theorem fates_append (before after : List Delivery) (s : σ) :
    target.fates (before ++ after) s =
      ((target.fates before s).1 ++ (target.fates after (target.fates before s).2).1,
        (target.fates after (target.fates before s).2).2) := by
  induction before generalizing s with
  | nil => rfl
  | cons d rest ih => rw [List.cons_append, fates, ih, fates, List.cons_append]

/-- A delivery that leaves the index as it was does not matter to the others. -/
private theorem fates_idle {before after : List Delivery} {d : Delivery} {s : σ}
    (h : (target.fate d (target.fates before s).2).2 = (target.fates before s).2) :
    target.fates (before ++ after) s =
      ((target.fates (before ++ d :: after) s).1.eraseIdx before.length,
        (target.fates (before ++ d :: after) s).2) := by
  have hlength : (target.fates before s).1.length = before.length := by
    rw [← List.length_map Prod.fst, target.deliveries_fates]
  rw [fates_append, fates_append, fates, h, ← hlength, List.eraseIdx_append_of_length_le (Nat.le_refl _)]
  simp

private theorem fates_readable (batch : List Delivery) (s : σ) :
    target.fates (batch.filter fun d => (Message.decode d.body).isOk) s =
      ((target.fates batch s).1.filter fun x => x.2 ≠ .unreadable, (target.fates batch s).2) := by
  induction batch generalizing s with
  | nil => rfl
  | cons d rest ih =>
    cases hread : Message.decode d.body with
    | error f =>
      have hfate : target.fate d s = (.unreadable, s) := by rw [fate, hread]
      rw [List.filter_cons_of_neg (by simp [hread, Except.isOk, Except.toBool]), ih, fates, hfate]
      rfl
    | ok m =>
      have hne : (target.fate d s).1 ≠ .unreadable := by
        simp only [fate, hread]
        split <;> exact Fate.noConfusion
      rw [List.filter_cons_of_pos (by simp [hread, Except.isOk, Except.toBool]), fates, ih, fates,
        List.filter_cons_of_pos (by simpa using hne)]

end IndexTarget

/-! ## Reports -/

namespace CycleReport

private theorem received_foldl_add (r : CycleReport) (xs : List Handling) :
    (xs.foldl add r).received = r.received + xs.length := by
  induction xs generalizing r with
  | nil => rfl
  | cons x rest ih =>
    rw [List.foldl_cons, ih, List.length_cons]
    cases x <;> simp only [add] <;> omega

private theorem parts_foldl_add (r : CycleReport) (xs : List Handling) :
    (xs.foldl add r).acked + (xs.foldl add r).failed + (xs.foldl add r).discarded =
      r.acked + r.failed + r.discarded + xs.length := by
  induction xs generalizing r with
  | nil => rfl
  | cons x rest ih =>
    rw [List.foldl_cons, ih, List.length_cons]
    cases x <;> simp only [add] <;> omega

end CycleReport

/-! ## The place of work -/

/-- A queue and an index that a worker works with. -/
structure Workplace (σ : Type) where
  queue : Queue
  index : σ
  metrics : Metrics
  /-- How often others have acted on the queue. -/
  turn : Nat
  /-- The leases that the worker has ended. -/
  ended : List QueueLease

namespace Workplace

variable {σ α β : Type} (others : Nat → Queue → Queue)

/-- The place after others have acted on the queue. -/
def yield (w : Workplace σ) : Workplace σ :=
  { w with queue := others w.turn w.queue, turn := w.turn + 1 }

def onIndex (call : Attempt σ α) : Attempt (Workplace σ) α := ExceptT.mk fun w =>
  let answer := Attempt.outcome call w.index
  (answer.1, { yield others w with index := answer.2 })

/-- Acknowledges a delivery, and notes which leases that ends. -/
def acknowledge (token : String) : Attempt (Workplace σ) Unit := ExceptT.mk fun w =>
  let w := yield others w
  match w.queue.acknowledge token with
  | .ok queue =>
    (.ok (), { w with queue, ended := w.ended ++ w.queue.leased.filter fun l => l.token = token })
  | .error f => (.error f, w)

def backend (target : IndexTarget (StateM σ)) : WorkerBackend (StateM (Workplace σ)) where
  target :=
    { create := fun tenant t => onIndex others (target.create tenant t)
      index := fun ctx e => onIndex others (target.index ctx e)
      bulkIndex := fun ctx events => onIndex others (target.bulkIndex ctx events)
      delete := fun ctx id => onIndex others (target.delete ctx id) }
  acknowledge := acknowledge others
  count c n := modify fun w => { w with metrics := w.metrics.add c n }

def Spared (x : QueueLease) : Prop := ∀ n q, x ∈ q.leased → x ∈ (others n q).leased

/-- Nobody but others has acted on the queue. -/
structure Kept (w w' : Workplace σ) : Prop where
  ended : w'.ended = w.ended
  leased : ∀ x, Spared others x → x ∈ w.queue.leased → x ∈ w'.queue.leased

variable {others} {w w' w'' : Workplace σ}

theorem Kept.refl (w : Workplace σ) : Kept others w w := ⟨rfl, fun _ _ h => h⟩

theorem Kept.trans (h : Kept others w w') (h' : Kept others w' w'') : Kept others w w'' :=
  ⟨h'.ended.trans h.ended, fun x hx hmem => h'.leased x hx (h.leased x hx hmem)⟩

/-! ## Projecting -/

/-- Work at the place does to the index what other work does to it alone, and nothing to the queue. -/
def Mirrors (others : Nat → Queue → Queue) (a : Attempt (Workplace σ) α) (b : Attempt σ α) : Prop :=
  ∀ w, (Attempt.outcome a w).1 = (Attempt.outcome b w.index).1 ∧
    (Attempt.outcome a w).2.index = (Attempt.outcome b w.index).2 ∧ Kept others w (Attempt.outcome a w).2

namespace Mirrors

theorem pure (x : α) : Mirrors others (Pure.pure x : Attempt (Workplace σ) α) (Pure.pure x) :=
  fun w => ⟨rfl, rfl, .refl w⟩

theorem throw (f : Failure) : Mirrors others (throw f : Attempt (Workplace σ) α) (throw f) :=
  fun w => ⟨rfl, rfl, .refl w⟩

theorem lift (x : Except Failure α) : Mirrors others (liftM x : Attempt (Workplace σ) α) (liftM x) :=
  fun w => ⟨rfl, rfl, .refl w⟩

private theorem onIndex (call : Attempt σ α) : Mirrors others (onIndex others call) call :=
  fun w => ⟨rfl, rfl, rfl, fun _ hx hmem => hx w.turn w.queue hmem⟩

theorem bind {a : Attempt (Workplace σ) α} {b : Attempt σ α} {f : α → Attempt (Workplace σ) β}
    {g : α → Attempt σ β} (h : Mirrors others a b) (hf : ∀ x, Mirrors others (f x) (g x)) :
    Mirrors others (a >>= f) (b >>= g) := by
  intro w
  obtain ⟨hanswer, hindex, hkept⟩ := h w
  rw [Attempt.outcome_bind, Attempt.outcome_bind]
  rcases hw : Attempt.outcome a w with ⟨x | x, w'⟩ <;>
    rcases hs : Attempt.outcome b w.index with ⟨y | y, t⟩ <;>
    rw [hw, hs] at hanswer hindex <;> rw [hw] at hkept <;> cases hanswer <;> cases hindex
  · exact ⟨rfl, rfl, hkept⟩
  · obtain ⟨hanswer, hindex, hrest⟩ := hf x w'
    exact ⟨hanswer, hindex, hkept.trans hrest⟩

theorem forM {f : β → Attempt (Workplace σ) PUnit} {g : β → Attempt σ PUnit}
    (h : ∀ x, Mirrors others (f x) (g x)) (xs : List β) : Mirrors others (xs.forM f) (xs.forM g) := by
  induction xs with
  | nil => exact .pure _
  | cons x rest ih =>
    simp only [List.forM_eq_forM, List.forM_cons] at ih ⊢
    exact (h x).bind fun _ => ih

/-- A message is projected with the same calls of the index, whatever others do to the queue. -/
theorem project (target : IndexTarget (StateM σ)) (m : Message) :
    Mirrors others ((backend others target).target.project m) (target.project m) := by
  unfold IndexTarget.project
  apply (Mirrors.lift m.action).bind
  intro action
  cases action with
  | upsert events =>
    apply Mirrors.bind
    · apply Mirrors.forM
      intro p
      unfold IndexTarget.createPartition
      split
      · exact .onIndex _
      · exact .throw _
    · intro _
      apply Mirrors.bind
      · unfold IndexTarget.put
        split
        · exact .onIndex _
        · exact .onIndex _
      · intro _
        exact .pure _
  | delete id => exact (Mirrors.onIndex _).bind fun _ => .pure _

end Mirrors

/-! ## What comes of it -/

/-- What comes of an attempt to end the leases under a token: those that were ended, and whether there
were any. -/
structure Acknowledged (others : Nat → Queue → Queue) (token : String) (w : Workplace σ)
    (gone : List QueueLease) (r : Bool × Workplace σ) : Prop where
  index : r.2.index = w.index
  ended : r.2.ended = w.ended ++ gone
  token_eq : ∀ l ∈ gone, l.token = token
  went : r.1 = !gone.isEmpty
  spared : ∀ x, Spared others x → x ∈ w.queue.leased →
    if x.token = token then x ∈ gone else x ∈ r.2.queue.leased

/-- What comes of handling a delivery, by its fate and the index after it: the leases that were ended, all
under its token, and none if the index has refused it. -/
structure Handled (others : Nat → Queue → Queue) (d : Delivery) (fate : Fate × σ) (w : Workplace σ)
    (gone : List QueueLease) (r : Handling × Workplace σ) : Prop where
  index : r.2.index = fate.2
  ended : r.2.ended = w.ended ++ gone
  token_eq : ∀ l ∈ gone, l.token = d.token ∧ fate.1 ≠ .refused
  handling : r.1 = fate.1.handling !gone.isEmpty
  spared : ∀ x, Spared others x → x ∈ w.queue.leased →
    if x.token = d.token ∧ fate.1 ≠ .refused then x ∈ gone else x ∈ r.2.queue.leased

private theorem Handled.of_kept {d : Delivery} {fate : Fate × σ} {gone : List QueueLease}
    {r : Handling × Workplace σ} (h : Handled others d fate w' gone r) (hkept : Kept others w w') :
    Handled others d fate w gone r where
  index := h.index
  ended := hkept.ended ▸ h.ended
  token_eq := h.token_eq
  handling := h.handling
  spared x hx hmem := h.spared x hx (hkept.leased x hx hmem)

private theorem Handled.counted {d : Delivery} {fate : Fate × σ} {gone : List QueueLease} {x : Handling}
    (h : Handled others d fate w gone (x, w')) (metrics : Metrics) :
    Handled others d fate w gone (x, { w' with metrics }) :=
  ⟨h.index, h.ended, h.token_eq, h.handling, h.spared⟩

private theorem Acknowledged.handled {d : Delivery} {gone : List QueueLease} {r : Bool × Workplace σ}
    (h : Acknowledged others d.token w gone r) {fate : Fate} (hfate : fate ≠ .refused) :
    Handled others d (fate, w.index) w gone (fate.handling r.1, r.2) where
  index := h.index
  ended := h.ended
  token_eq l hl := ⟨h.token_eq l hl, hfate⟩
  handling := by rw [h.went]
  spared x hx hmem := by
    rw [if_congr (and_iff_left hfate) rfl rfl]
    exact h.spared x hx hmem

/-- What comes of handling a batch, by the fates of its deliveries and the index after it. -/
structure Processed (others : Nat → Queue → Queue) (fates : List (Delivery × Fate) × σ) (before : CycleReport)
    (w : Workplace σ) (gone : List QueueLease) (r : CycleReport × Workplace σ) : Prop where
  index : r.2.index = fates.2
  ended : r.2.ended = w.ended ++ gone
  token_eq : ∀ l ∈ gone, ∃ x ∈ fates.1, l.token = x.1.token ∧ x.2 ≠ .refused
  report : r.1 =
    (fates.1.map fun x => x.2.handling (decide (∃ l ∈ gone, l.token = x.1.token))).foldl .add before
  spared : ∀ l, Spared others l → l ∈ w.queue.leased →
    if ∃ x ∈ fates.1, l.token = x.1.token ∧ x.2 ≠ .refused then l ∈ gone else l ∈ r.2.queue.leased

/-- A delivery is handled before others, whose tokens are other ones. -/
theorem Handled.cons {d : Delivery} {fate : Fate × σ} {fates : List (Delivery × Fate) × σ}
    {before : CycleReport} {gone gone' : List QueueLease} {x : Handling} {r : CycleReport × Workplace σ}
    (h : Handled others d fate w gone (x, w')) (hrest : Processed others fates (before.add x) w' gone' r)
    (hother : ∀ y ∈ fates.1, y.1.token ≠ d.token) :
    Processed others ((d, fate.1) :: fates.1, fates.2) before w (gone ++ gone') r where
  index := hrest.index
  ended := by rw [hrest.ended, h.ended, List.append_assoc]
  token_eq l hl := by
    rcases List.mem_append.mp hl with hfirst | hlater
    · exact ⟨_, List.mem_cons_self, h.token_eq l hfirst⟩
    · obtain ⟨y, hy, htoken⟩ := hrest.token_eq l hlater
      exact ⟨y, List.mem_cons_of_mem _ hy, htoken⟩
  report := by
    have hsame : (∃ l ∈ gone ++ gone', l.token = d.token) ↔ gone ≠ [] := by
      constructor
      · rintro ⟨l, hl, htoken⟩ rfl
        obtain ⟨y, hy, hsame, -⟩ := hrest.token_eq l hl
        exact hother y hy (hsame.symm.trans htoken)
      · intro hne
        obtain ⟨l, hl⟩ := List.exists_mem_of_ne_nil gone hne
        exact ⟨l, List.mem_append_left _ hl, (h.token_eq l hl).1⟩
    have hlater (y : Delivery × Fate) (hy : y ∈ fates.1) :
        (∃ l ∈ gone ++ gone', l.token = y.1.token) ↔ ∃ l ∈ gone', l.token = y.1.token := by
      constructor
      · rintro ⟨l, hl, htoken⟩
        rcases List.mem_append.mp hl with hfirst | hlater
        · exact absurd (htoken.symm.trans (h.token_eq l hfirst).1) (hother y hy)
        · exact ⟨l, hlater, htoken⟩
      · rintro ⟨l, hl, htoken⟩
        exact ⟨l, List.mem_append_right _ hl, htoken⟩
    have hx : x = fate.1.handling (decide (∃ l ∈ gone ++ gone', l.token = d.token)) := by
      have hhandling : x = fate.1.handling !gone.isEmpty := h.handling
      rw [decide_eq_decide.mpr hsame, hhandling]
      cases gone <;> rfl
    rw [List.map_cons, List.foldl_cons, ← hx, hrest.report]
    congr 1
    apply List.map_congr_left
    intro y hy
    rw [decide_eq_decide.mpr (hlater y hy)]
  spared l hspared hmem := by
    have hfirst := h.spared l hspared hmem
    simp only [List.exists_mem_cons_iff]
    split at hfirst
    · rename_i hthis
      rw [if_pos (.inl hthis)]
      exact List.mem_append_left _ hfirst
    · rename_i hnot
      have hlater := hrest.spared l hspared hfirst
      rw [if_congr (or_iff_right hnot) rfl rfl]
      split at hlater
      · rename_i hthat
        rw [if_pos hthat]
        exact List.mem_append_right _ hlater
      · rename_i hneither
        rw [if_neg hneither]
        exact hlater

/-! ## Running -/

section Running

variable (others) (target : IndexTarget (StateM σ))

private theorem acknowledged_run (token : String) (w : Workplace σ) :
    ∃ gone, Acknowledged others token w gone (((backend others target).acknowledged token).run w) := by
  have hacknowledge : ((backend others target).acknowledge token).run.run w =
      match (yield others w).queue.acknowledge token with
      | .ok queue => (.ok (), { yield others w with
          queue
          ended := w.ended ++ (yield others w).queue.leased.filter fun l => l.token = token })
      | .error f => (.error f, yield others w) := rfl
  have hspared (x : QueueLease) (hx : Spared others x) (hmem : x ∈ w.queue.leased) :
      x ∈ (yield others w).queue.leased := hx w.turn w.queue hmem
  unfold WorkerBackend.acknowledged
  rw [StateT.run_bind, hacknowledge]
  cases hqueue : (yield others w).queue.acknowledge token with
  | ok queue =>
    obtain ⟨⟨l, hl, htoken⟩, rfl⟩ := Queue.acknowledge_eq_ok.mp hqueue
    refine ⟨(yield others w).queue.leased.filter fun l => l.token = token, rfl, rfl, ?_, ?_, ?_⟩
    · intro l hl
      simpa using (List.mem_filter.mp hl).2
    · have hne : ((yield others w).queue.leased.filter fun l => l.token = token) ≠ [] :=
        List.ne_nil_of_mem (List.mem_filter.mpr ⟨hl, by simpa using htoken⟩)
      rw [List.isEmpty_eq_false_iff.mpr hne]
      rfl
    · intro x hx hmem
      have hthere := hspared x hx hmem
      split
      · rename_i hsame
        exact List.mem_filter.mpr ⟨hthere, by simpa using hsame⟩
      · rename_i hother
        exact List.mem_filter.mpr ⟨hthere, by simpa using hother⟩
  | error f =>
    have hnone : ∀ l ∈ (yield others w).queue.leased, l.token ≠ token := by
      intro l hl htoken
      rw [Queue.acknowledge_eq_ok.mpr ⟨⟨l, hl, htoken⟩, rfl⟩] at hqueue
      cases hqueue
    refine ⟨[], rfl, (List.append_nil _).symm, by simp, rfl, ?_⟩
    intro x hx hmem
    have hthere := hspared x hx hmem
    rw [if_neg (hnone x hthere)]
    exact hthere

private theorem note_run (d : Delivery) (w : Workplace σ) :
    ∃ w', Kept others w w' ∧ w'.index = w.index ∧ ((backend others target).note d).run w = ((), w') := by
  unfold WorkerBackend.note
  by_cases hagain : 1 < d.count
  · simp only [hagain, if_true]
    exact ⟨{ w with metrics := (w.metrics.add .messagesReceived 1).add .messagesRedelivered 1 },
      ⟨rfl, fun _ _ h => h⟩, rfl, rfl⟩
  · simp only [hagain, if_false]
    exact ⟨{ w with metrics := w.metrics.add .messagesReceived 1 }, ⟨rfl, fun _ _ h => h⟩, rfl, rfl⟩

private theorem apply_run (m : Message) (w : Workplace σ) :
    ∃ w', Kept others w w' ∧ w'.index = (Attempt.outcome (target.project m) w.index).2 ∧
      ((backend others target).apply m).run.run w =
        ((Attempt.outcome (target.project m) w.index).1.map fun _ => (), w') := by
  obtain ⟨hanswer, hindex, hkept⟩ := Mirrors.project target m w
  have hrun : ((backend others target).apply m).run.run w =
      Attempt.outcome ((backend others target).apply m) w := rfl
  rw [hrun, WorkerBackend.apply, Attempt.outcome_bind]
  rcases hproject : Attempt.outcome ((backend others target).target.project m) w with ⟨x | n, w'⟩ <;>
    rw [hproject] at hanswer hindex hkept <;> rw [← hanswer]
  · exact ⟨w', hkept, hindex, rfl⟩
  · exact ⟨{ w' with metrics := w'.metrics.add .eventsIndexed n }, ⟨hkept.ended, hkept.leased⟩, hindex, rfl⟩

private theorem discard_run (d : Delivery) (w : Workplace σ) :
    ∃ gone, Handled others d (.unreadable, w.index) w gone
      (((backend others target).discard d.token).run w) := by
  let counted : Workplace σ := { w with metrics := w.metrics.add .messagesDiscarded 1 }
  obtain ⟨gone, h⟩ := acknowledged_run others target d.token counted
  have hhandled : Handled others d (.unreadable, w.index) counted gone _ := h.handled Fate.noConfusion
  exact ⟨gone, hhandled.of_kept (w := w) ⟨rfl, fun _ _ hmem => hmem⟩⟩

private theorem conclude_run (d : Delivery) (x : Except Failure Unit) (w : Workplace σ) :
    ∃ gone, Handled others d (if x.isOk then .applied else .refused, w.index) w gone
      (((backend others target).conclude d.token x).run w) := by
  cases x with
  | error f =>
    refine ⟨[], rfl, (List.append_nil _).symm, by simp, rfl, fun x _ hmem => ?_⟩
    rw [if_neg fun h => h.2 rfl]
    exact hmem
  | ok u =>
    obtain ⟨gone, h⟩ := acknowledged_run others target d.token w
    have hhandled : Handled others d (.applied, w.index) w gone _ := h.handled Fate.noConfusion
    refine ⟨gone, ?_⟩
    unfold WorkerBackend.conclude
    rw [StateT.run_bind]
    rcases hrun : ((backend others target).acknowledged d.token).run w with ⟨went, w'⟩
    rw [hrun] at hhandled
    cases went with
    | true => exact hhandled.counted _
    | false => exact hhandled

private theorem handle_run (d : Delivery) (w : Workplace σ) :
    ∃ gone, Handled others d (target.fate d w.index) w gone (((backend others target).handle d).run w) := by
  obtain ⟨w', hkept, hindex, hnote⟩ := note_run others target d w
  rw [WorkerBackend.handle_eq, StateT.run_bind, hnote, ← hindex]
  unfold IndexTarget.fate
  cases Message.decode d.body with
  | error f =>
    obtain ⟨gone, h⟩ := discard_run others target d w'
    exact ⟨gone, h.of_kept hkept⟩
  | ok m =>
    obtain ⟨w'', hkept', hindex', happly⟩ := apply_run others target m w'
    obtain ⟨gone, h⟩ := conclude_run others target d
      ((Attempt.outcome (target.project m) w'.index).1.map fun _ => ()) w''
    refine ⟨gone, ?_⟩
    have hisOk (x : Except Failure Nat) : (x.map fun _ => ()).isOk = x.isOk := by cases x <;> rfl
    rw [hisOk, hindex'] at h
    change Handled others d _ w gone ((do
      (backend others target).conclude d.token (← ((backend others target).apply m).run)).run w')
    rw [StateT.run_bind, happly]
    exact h.of_kept (hkept.trans hkept')

private theorem process_run (batch : List Delivery) (hdistinct : (batch.map Delivery.token).Nodup)
    (before : CycleReport) (w : Workplace σ) :
    ∃ gone, Processed others (target.fates batch w.index) before w gone
      ((batch.foldlM (fun (r : CycleReport) d => do
        return r.add (← (backend others target).handle d)) before).run w) := by
  induction batch generalizing before w with
  | nil =>
    refine ⟨[], rfl, (List.append_nil _).symm, by simp, rfl, ?_⟩
    intro l _ hmem
    rw [if_neg (by simp [IndexTarget.fates])]
    exact hmem
  | cons d rest ih =>
    rw [List.map_cons, List.nodup_cons] at hdistinct
    obtain ⟨gone, hfirst⟩ := handle_run others target d w
    rw [List.foldlM_cons, StateT.run_bind, StateT.run_bind]
    rcases hrun : ((backend others target).handle d).run w with ⟨x, w'⟩
    rw [hrun] at hfirst
    obtain ⟨gone', hrest⟩ := ih hdistinct.2 (before.add x) w'
    have hindex : w'.index = (target.fate d w.index).2 := hfirst.index
    rw [hindex] at hrest
    have hother : ∀ y ∈ (target.fates rest (target.fate d w.index).2).1, y.1.token ≠ d.token := by
      intro y hy htoken
      have hmem : y.1 ∈ rest := by
        rw [← target.deliveries_fates rest]
        exact List.mem_map_of_mem hy
      exact hdistinct.1 (htoken ▸ List.mem_map_of_mem hmem)
    exact ⟨gone ++ gone', hfirst.cons hrest hother⟩

end Running

private theorem exists_token_iff {fates : List (Delivery × Fate)} (hdistinct : (fates.map fun x => x.1.token).Nodup)
    {x : Delivery × Fate} (hx : x ∈ fates) {l : QueueLease} (htoken : l.token = x.1.token) :
    (∃ y ∈ fates, l.token = y.1.token ∧ y.2 ≠ .refused) ↔ x.2 ≠ .refused := by
  constructor
  · rintro ⟨y, hy, hsame, hne⟩
    have heq : x = y := List.inj_on_of_nodup_map hdistinct hx hy (htoken.symm.trans hsame)
    exact heq ▸ hne
  · intro hne
    exact ⟨x, hx, htoken, hne⟩

/-- A worker that receives a batch from a queue and handles it, with an index whose calls may fail and a queue
on which others act before each call, reports every delivery once. The index is as after handling the
deliveries in their order, each as if it were alone, so that one that could not be read, or has failed and left
the index as it was, could as well be missing. No lease is ended but those of deliveries that could not be read
or were applied: a delivery that has failed keeps the lease that it came with, and all others lose it, unless
others have ended it before. -/
theorem process_accounts (others : Nat → Queue → Queue) (target : IndexTarget (StateM σ))
    {tokens : Nat → String} (htokens : Function.Injective tokens) (visibility : Nat)
    (moves : List QueueMove) (max wait : Nat) (index : σ) (metrics : Metrics) :
    let c := QueueCourse.run visibility tokens moves
    let received := c.queue.receive max wait c.clock
    let batch := received.1.1
    let lease := c.queue.leaseOf received.1.2
    let cycle := ((backend others target).process batch).run ⟨received.2, index, metrics, 0, []⟩
    let report := cycle.1
    let done := cycle.2
    let fates := target.fates batch index
    report.received = batch.length ∧
      report.acked + report.failed + report.discarded = batch.length ∧
      report = (fates.1.map fun x =>
        x.2.handling (decide (∃ l ∈ done.ended, l.token = x.1.token))).foldl .add .empty ∧
      fates.1.map Prod.fst = batch ∧
      done.index = fates.2 ∧
      target.fates (batch.filter fun d => (Message.decode d.body).isOk) index =
        (fates.1.filter fun x => x.2 ≠ .unreadable, fates.2) ∧
      (∀ before d after, batch = before ++ d :: after →
        (target.fate d (target.fates before index).2).2 = (target.fates before index).2 →
          target.fates (before ++ after) index = (fates.1.eraseIdx before.length, fates.2)) ∧
      (∀ l ∈ done.ended, ∃ x ∈ fates.1, l.token = x.1.token ∧ x.2 ≠ .refused) ∧
      ∀ x ∈ fates.1, lease x.1 ∈ received.2.leased ∧
        (x.2 = .refused → lease x.1 ∉ done.ended) ∧
        (Spared others (lease x.1) →
          if x.2 = .refused then lease x.1 ∈ done.queue.leased else lease x.1 ∈ done.ended) := by
  intro c received batch lease cycle report done fates
  have horderly : c.queue.Orderly := QueueCourse.orderly_run visibility htokens moves
  obtain ⟨_, hhands⟩ := c.queue.receive_handsOut max wait c.clock
  have hdistinct : (batch.map Delivery.token).Nodup := (hhands.holds horderly).1
  obtain ⟨gone, h⟩ := process_run others target batch hdistinct .empty
    ⟨received.2, index, metrics, 0, []⟩
  change Processed others fates .empty _ gone cycle at h
  have hdeliveries : fates.1.map Prod.fst = batch := target.deliveries_fates batch index
  have hlength : fates.1.length = batch.length := by rw [← hdeliveries, List.length_map]
  have hended : done.ended = gone := h.ended
  have hreport : report = (fates.1.map fun x =>
      x.2.handling (decide (∃ l ∈ done.ended, l.token = x.1.token))).foldl .add .empty := by
    rw [hended]
    exact h.report
  refine ⟨?_, ?_, hreport, hdeliveries, h.index, target.fates_readable batch index, ?_, ?_, ?_⟩
  · rw [hreport, CycleReport.received_foldl_add, List.length_map, hlength]
    exact Nat.zero_add _
  · rw [hreport, CycleReport.parts_foldl_add, List.length_map, hlength]
    exact Nat.zero_add _
  · intro before d after hsplit hidle
    have herased : target.fates (before ++ after) index = _ := target.fates_idle hidle
    rw [← hsplit] at herased
    exact herased
  · rw [hended]
    exact h.token_eq
  · intro x hx
    have hmem : lease x.1 ∈ received.2.leased := by
      apply c.queue.leaseOf_mem_receive max wait c.clock
      change x.1 ∈ batch
      rw [← hdeliveries]
      exact List.mem_map_of_mem hx
    have htokens : (fates.1.map fun x => x.1.token).Nodup := by
      rw [← hdeliveries, List.map_map] at hdistinct
      exact hdistinct
    have hiff := exists_token_iff (l := lease x.1) htokens hx rfl
    rw [hended]
    refine ⟨hmem, ?_, ?_⟩
    · intro hrefused hgone
      exact hiff.mp (h.token_eq _ hgone) hrefused
    · intro hspared
      have hlease := h.spared _ hspared hmem
      rw [if_congr hiff rfl rfl, ite_not] at hlease
      exact hlease

/-- An index that remembers what it is asked to delete, and refuses to delete one event. -/
def stubborn : IndexTarget (StateM (List String)) where
  create _ _ := pure ()
  index _ _ := pure ()
  bulkIndex _ _ := pure ()
  delete _ id := ExceptT.mk fun asked =>
    (if id = "e1" then .error (.search "event is in use") else .ok (), asked ++ [id])

/-- Something that is no message, and two deletions. -/
def assorted : List QueueMove :=
  [.sendText "", .send (.delete .acme "e1" .epoch), .send (.delete .acme "e2" .epoch)]

private theorem fates_assorted :
    let c := QueueCourse.run 50 toString assorted
    stubborn.fates (c.queue.receive 10 0 c.clock).1.1 [] =
      ([(⟨"", toString 0, 1⟩, .unreadable),
        (⟨(Message.delete .acme "e1" .epoch).encode, toString 1, 1⟩, .refused),
        (⟨(Message.delete .acme "e2" .epoch).encode, toString 2, 1⟩, .applied)], ["e1", "e2"]) := by
  intro c
  have hdecode (id : String) : Message.decode (Message.delete .acme id .epoch).encode =
      (Message.delete .acme id .epoch).check := by
    rw [Message.decode_encode (by simp [Message.SoundBlobs, Message.delete]),
      if_pos (by simp [Event.NestWithin, Message.delete])]
  have hfirst : Message.decode "" = .error .malformed := rfl
  have hbatch : (c.queue.receive 10 0 c.clock).1.1 =
      [⟨"", toString 0, 1⟩, ⟨(Message.delete .acme "e1" .epoch).encode, toString 1, 1⟩,
        ⟨(Message.delete .acme "e2" .epoch).encode, toString 2, 1⟩] := rfl
  have hrefused (d : Delivery) (hbody : d.body = (Message.delete .acme "e1" .epoch).encode) :
      stubborn.fate d [] = (.refused, ["e1"]) := by
    simp only [IndexTarget.fate, hbody, hdecode]
    rfl
  have happlied (d : Delivery) (hbody : d.body = (Message.delete .acme "e2" .epoch).encode) :
      stubborn.fate d ["e1"] = (.applied, ["e1", "e2"]) := by
    simp only [IndexTarget.fate, hbody, hdecode]
    rfl
  have hunreadable (d : Delivery) (hbody : d.body = "") (s : List String) :
      stubborn.fate d s = (.unreadable, s) := by
    simp only [IndexTarget.fate, hbody, hfirst]
  rw [hbatch]
  simp only [IndexTarget.fates, hunreadable, hrefused, happlied]

theorem assorted_accounted :
    let c := QueueCourse.run 50 toString assorted
    let received := c.queue.receive 10 0 c.clock
    let cycle := ((backend (fun _ q => q) stubborn).process received.1.1).run ⟨received.2, [], .zero, 0, []⟩
    Function.Injective (toString : Nat → String) ∧
      (stubborn.fates received.1.1 []).1.map Prod.snd = [.unreadable, .refused, .applied] ∧
      cycle.1 = ⟨3, 1, 1, 1⟩ ∧ cycle.2.index = ["e1", "e2"] ∧
      c.queue.leaseOf received.1.2 ⟨(Message.delete .acme "e1" .epoch).encode, toString 1, 1⟩ ∈
        cycle.2.queue.leased := by
  have h := process_accounts (fun _ q => q) stubborn decimal_injective 50 assorted 10 0 [] .zero
  have hfates := fates_assorted
  dsimp only at h hfates ⊢
  obtain ⟨-, -, hreport, -, hindex, -, -, -, hleases⟩ := h
  rw [hfates] at hreport hindex hleases
  have hspared (l : QueueLease) : Spared (fun _ q => q) l := fun _ _ h => h
  have hrefused := (hleases (⟨(Message.delete .acme "e1" .epoch).encode, toString 1, 1⟩, .refused)
    (by simp)).2.2 (hspared _)
  have happlied := (hleases (⟨(Message.delete .acme "e2" .epoch).encode, toString 2, 1⟩, .applied)
    (by simp)).2.2 (hspared _)
  rw [if_pos rfl] at hrefused
  rw [if_neg Fate.noConfusion] at happlied
  generalize StateT.run (WorkerBackend.process (backend (fun _ q => q) stubborn) _) _ = cycle
    at hreport hindex hrefused happlied ⊢
  have hended : ∃ l ∈ cycle.2.ended, l.token = toString 2 := ⟨_, happlied, rfl⟩
  simp only [List.map_cons, List.map_nil, Fate.handling, hended, decide_true, if_true] at hreport
  exact ⟨decimal_injective, by rw [hfates]; rfl, hreport, hindex, hrefused⟩

end Workplace

end AuditTrail

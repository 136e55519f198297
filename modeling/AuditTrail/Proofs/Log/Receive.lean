import AuditTrail.Proofs.Log.Readers
/-!
# Receiving from a log

Whoever receives deliveries over a connection takes the steps of a reader in a row, whichever broker there
is, and whoever acknowledges one does with the queue what is done with the account.
-/

namespace AuditTrail.Log

private theorem answers_recordsFrom (entries : List Entry) (position : Nat) :
    Answers (recordsFrom entries 0) position (recordsFrom entries position) := by
  have hdrop : recordsFrom entries position = (recordsFrom entries 0).drop position := by
    simp [recordsFrom, List.map_drop]
  rw [hdrop]
  refine ⟨(List.drop_suffix position _).isInfix, ?_⟩
  intro r hr hfirst _
  obtain ⟨i, hi, rfl⟩ := List.mem_iff_getElem.mp hr
  have hposition : ((recordsFrom entries 0)[i]).position = i := by
    simp [recordsFrom]
  rw [List.mem_drop_iff_getElem]
  have hle := hfirst.le
  rw [hposition] at hle
  exact ⟨i - position, by omega, by simp [Nat.add_sub_of_le hle]⟩

section Running

variable {m : Type → Type} [Monad m] {α β : Type}

/-- The answer of an action, and the queue after it. -/
def ran (a : Action m α) (q : LogQueue) : m (Except Failure α × LogQueue) := a.run.run q

/-- Goes on with an answer, and ends with a failure. -/
def proceed (f : α → LogQueue → m (Except Failure β × LogQueue)) :
    Except Failure α × LogQueue → m (Except Failure β × LogQueue)
  | (.ok a, q) => f a q
  | (.error e, q) => pure (.error e, q)

@[simp] theorem ran_pure (a : α) (q : LogQueue) : ran (pure a : Action m α) q = pure (.ok a, q) := rfl

@[simp] theorem ran_throw (e : Failure) (q : LogQueue) :
    ran (throw e : Action m α) q = pure (.error e, q) := rfl

@[simp] theorem ran_bind (a : Action m α) (f : α → Action m β) (q : LogQueue) :
    ran (a >>= f) q = ran a q >>= proceed fun x => ran (f x) := by
  simp only [ran, ExceptT.run_bind, StateT.run_bind]
  congr 1
  funext ⟨x, q⟩
  cases x <;> rfl

@[simp] theorem ran_map (f : α → β) (a : Action m α) (q : LogQueue) :
    ran (f <$> a) q = ran a q >>= proceed fun x q => pure (.ok (f x), q) := by
  change ran (a >>= fun x => pure (f x)) q = _
  rw [ran_bind]
  rfl

@[simp] theorem ran_liftExcept (x : Except Failure α) (q : LogQueue) :
    ran (liftM x : Action m α) q = pure (x, q) := by
  cases x <;> rfl

variable [LawfulMonad m]

@[simp] theorem ran_get (q : LogQueue) : ran (get : Action m LogQueue) q = pure (.ok q, q) :=
  pure_bind _ _

@[simp] theorem ran_set (q q' : LogQueue) : ran (set q' : Action m PUnit) q = pure (.ok (), q') :=
  pure_bind _ _

@[simp] theorem ran_modify (f : LogQueue → LogQueue) (q : LogQueue) :
    ran (modify f : Action m PUnit) q = pure (.ok (), f q) :=
  pure_bind _ _

@[simp] theorem ran_lift (x : m α) (q : LogQueue) :
    ran (liftM x : Action m α) q = (fun a => (.ok a, q)) <$> x := by
  change ((x >>= fun a => pure (a, q)) >>= fun p => pure (Except.ok p.1, p.2)) = _
  simp

variable (broker : Broker m) (settings : QueueSettings) {q : LogQueue}

@[simp] theorem ran_withLeases (f : Leases → α × Leases) (q : LogQueue) :
    ran (withLeases f : Action m α) q =
      pure (.ok (f (q.leases.getD (.startingAt 0))).1,
        { q with leases := some (f (q.leases.getD (.startingAt 0))).2 }) := by
  simp [withLeases, proceed]

private theorem ran_connect (h : q.connected = true) : ran (connect broker settings) q = pure (.ok (), q) := by
  simp [connect, proceed, h]

end Running

namespace Readers

variable {s : Readers} {reader : Nat}

def handedSince (s s' : Readers) : List Delivery := s'.handed.drop s.handed.length

/-- What a reader ends with that has reclaimed leases and then is given an answer by the broker. -/
def received (s s' : Readers) (reader now : Nat) (q : LogQueue) :
    Except String (List Record × Nat) → Except Failure (List Delivery) × LogQueue
  | .ok (records, length) =>
    let last := s'.afterAll [.look reader, .fetch reader records, .merge reader now]
    (.ok (s.handedSince last), { q with leases := some last.leases, length })
  | .error report =>
    (if (s.handedSince s').isEmpty then .error (.queue ("Failed to fetch records: " ++ report))
      else .ok (s.handedSince s'), { q with connected := false, leases := some s'.leases })

variable {m : Type → Type} [Monad m] [LawfulMonad m] (broker : Broker m) (settings : QueueSettings)
  {q : LogQueue}

theorem ran_receive (hconnected : q.connected = true) (hleases : q.leases = some s.leases)
    (hvisibility : s.visibility = settings.visibilitySeconds * 1000) (hidle : s.stages reader = .idle)
    (max now : Nat) :
    ran (receive broker settings max now) q =
      let s' := s.after (.reclaim reader max now)
      match s'.stages reader with
      | .idle => pure (.ok (s.handedSince s'), { q with leases := some s'.leases })
      | _ => s.received s' reader now q <$> (broker.read s'.leases.next).run := by
  have hconnect := ran_connect broker settings hconnected
  simp only [receive, after, afterReclaim, hidle, hvisibility]
  generalize Nat.max max 1 = most
  generalize hout : s.leases.reclaim now (settings.visibilitySeconds * 1000) most = out
  by_cases hfull : most ≤ out.1.length
  · simp [hconnect, hleases, proceed, turn, Ledger.give, hfull, hout, handedSince]
  · simp only [readOn, bind_pure_comp, List.isEmpty_iff, ExceptT.map_throw, ran_bind, hconnect,
      pure_bind, proceed, ran_withLeases, hleases, Option.getD_some, hout, hfull, ↓reduceIte, ran_get,
      Option.map_some, ran_lift, bind_map_left, turn, Ledger.give, Function.update_self]
    rw [← bind_pure_comp]
    congr 1
    funext answer
    cases answer with
    | error report =>
      by_cases hnone : out.1 = []
      · simp [received, handedSince, proceed, LogQueue.reset, hnone]
      · simp [received, handedSince, proceed, LogQueue.reset, hnone]
    | ok answer =>
      simp [received, handedSince, proceed, afterAll, after, afterLook, afterFetch, afterMerge, turn,
        Ledger.give, hvisibility]

/-- A broker that answers with all records from a position on lets a reader read on. -/
theorem legal_read {entries : List Entry} (hlog : s.log = recordsFrom entries 0) {room : Nat}
    (hstage : s.stages reader = .reclaimed room) (now : Nat) :
    s.Legal [.look reader, .fetch reader (recordsFrom entries s.leases.next), .merge reader now] := by
  have hlooked : s.after (.look reader) = s.turn s.toLedger reader (.looked room s.leases.next) := by
    simp only [after, afterLook, hstage]
  refine ⟨trivial, ?_, trivial, trivial⟩
  rw [hlooked]
  simp only [Allows, turn, Function.update_self, Stage.Expects, hlog]
  exact answers_recordsFrom entries s.leases.next

theorem ran_acknowledge (hleases : q.leases = some s.leases) (receipt : String) :
    ran (acknowledge receipt : Action m Unit) q =
      pure ((s.leases.acknowledge receipt).map fun _ => (),
        { q with leases := some (s.after (.acknowledge receipt)).leases }) := by
  have hreached : ran (acknowledge receipt : Action m Unit) q =
      proceed (fun q' => ran (set q')) (q.acknowledge receipt, q) := by
    simp [acknowledge, proceed]
  rw [hreached, LogQueue.acknowledge, hleases, Option.getD_some]
  cases hanswer : s.leases.acknowledge receipt with
  | ok leases => simp [proceed, after, afterAcknowledge, hanswer, Except.map]
  | error e =>
    simp only [after, afterAcknowledge, hanswer, Except.map]
    rw [← hleases]
    rfl

end Readers

end AuditTrail.Log

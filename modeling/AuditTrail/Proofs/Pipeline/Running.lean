import AuditTrail.Pipeline.Basic
/-!
# Running actions

What an action answers and which pipeline it leaves behind, one equation for each way to build an action.
Without outages no seam fails, and the calls of the backends are what the backends say.
-/

namespace AuditTrail

namespace Failure

variable {α β : Type}

/-! ## Results -/

@[simp] theorem ok_bind (a : α) (f : α → Except Failure β) : (Except.ok a >>= f) = f a := rfl

@[simp] theorem error_bind (e : Failure) (f : α → Except Failure β) :
    (Except.error e >>= f) = .error e := rfl

theorem bind_eq_ok {x : Except Failure α} {f : α → Except Failure β} {b : β} :
    (x >>= f) = .ok b ↔ ∃ a, x = .ok a ∧ f a = .ok b := by
  cases x <;> simp

@[simp] theorem pure_eq (a : α) : (pure a : Except Failure α) = .ok a := rfl

@[simp] theorem throw_eq (e : Failure) : (throw e : Except Failure α) = .error e := rfl

end Failure

namespace Pipeline

variable {α β : Type}

/-! ## Actions -/

/-- The answer of an action, and the pipeline after it. -/
def outcome (a : Action α) (p : Pipeline) : Except Failure α × Pipeline := a.run.run p

/-- Goes on with an answer, and ends with a failure. -/
def proceed (r : Except Failure α × Pipeline) (f : α → Pipeline → Except Failure β × Pipeline) :
    Except Failure β × Pipeline :=
  match r with
  | (.ok a, p) => f a p
  | (.error e, p) => (.error e, p)

@[simp] theorem proceed_ok (a : α) (p : Pipeline)
    (f : α → Pipeline → Except Failure β × Pipeline) : proceed (.ok a, p) f = f a p := rfl

@[simp] theorem proceed_error (e : Failure) (p : Pipeline)
    (f : α → Pipeline → Except Failure β × Pipeline) : proceed (.error e, p) f = (.error e, p) := rfl

@[simp] theorem outcome_pure (a : α) (p : Pipeline) : outcome (pure a) p = (.ok a, p) := rfl

@[simp] theorem outcome_throw (e : Failure) (p : Pipeline) :
    outcome (throw e : Action α) p = (.error e, p) := rfl

@[simp] theorem outcome_bind (a : Action α) (f : α → Action β) (p : Pipeline) :
    outcome (a >>= f) p = proceed (outcome a p) fun x q => outcome (f x) q := by
  simp only [outcome, ExceptT.run_bind, StateT.run_bind]
  rcases (a.run.run p : Except Failure α × Pipeline) with ⟨x | x, q⟩ <;> rfl

@[simp] theorem outcome_map (f : α → β) (a : Action α) (p : Pipeline) :
    outcome (f <$> a) p = proceed (outcome a p) fun x q => (.ok (f x), q) := by
  rw [← bind_pure_comp, outcome_bind]
  rfl

theorem outcome_map_eq_ok {f : α → β} {a : Action α} {p : Pipeline} {y : β} :
    (outcome (f <$> a) p).1 = .ok y ↔ ∃ x, (outcome a p).1 = .ok x ∧ f x = y := by
  rw [outcome_map]
  rcases outcome a p with ⟨x | x, q⟩ <;> simp

@[simp] theorem outcome_tryCatch (a : Action α) (handle : Failure → Action α) (p : Pipeline) :
    outcome (tryCatch a handle) p =
      match outcome a p with
      | (.ok x, q) => (.ok x, q)
      | (.error e, q) => outcome (handle e) q := by
  change (StateT.run (ExceptT.tryCatch a handle) p : Except Failure α × Pipeline) = _
  simp only [ExceptT.tryCatch, ExceptT.mk, StateT.run_bind]
  rcases h : outcome a p with ⟨x | x, q⟩
  · have hrun : (a p : Except Failure α × Pipeline) = (.error x, q) := h
    simp only [StateT.run, hrun]
    rfl
  · have hrun : (a p : Except Failure α × Pipeline) = (.ok x, q) := h
    simp only [StateT.run, hrun]
    rfl

@[simp] theorem outcome_get (p : Pipeline) : outcome (get : Action Pipeline) p = (.ok p, p) := rfl

@[simp] theorem outcome_set (p q : Pipeline) : outcome (set q : Action PUnit) p = (.ok (), q) := rfl

@[simp] theorem outcome_modify (f : Pipeline → Pipeline) (p : Pipeline) :
    outcome (modify f : Action PUnit) p = (.ok (), f p) := rfl

@[simp] theorem outcome_modifyGet (f : Pipeline → α × Pipeline) (p : Pipeline) :
    outcome (modifyGet f : Action α) p = (.ok (f p).1, (f p).2) := rfl

@[simp] theorem outcome_lift (x : Except Failure α) (p : Pipeline) :
    outcome (liftM x : Action α) p = (x, p) := rfl

@[simp] theorem outcome_count (c : Counter) (n : Nat) (p : Pipeline) :
    outcome (count c n) p = (.ok (), { p with metrics := p.metrics.add c n }) := rfl

/-! ## Backends without outages -/

section Backends

variable {p : Pipeline} (h : p.outages = .empty)

include h

private theorem outcome_struck (s : Seam) : outcome (struck s) p = (.ok false, p) := by
  obtain ⟨records, registry, index, queue, metrics, health, outages, clock⟩ := p
  subst h
  rfl

theorem outcome_pass (s : Seam) : outcome (pass s) p = (.ok (), p) := by
  simp [pass, outcome_struck h]

theorem outcome_getRecord (ctx : Context) (id : String) :
    outcome (getRecord ctx id) p = (p.records.get ctx id, p) := by
  simp [getRecord, outcome_pass h]

theorem outcome_listRecords (ctx : Context) (f : Filter) :
    outcome (listRecords ctx f) p = (p.records.list ctx f, p) := by
  simp [listRecords, outcome_pass h]

theorem outcome_deleteRecord (ctx : Context) (id : String) :
    outcome (deleteRecord ctx id) p =
      match p.records.delete ctx id with
      | .ok (found, records) => (.ok found, { p with records })
      | .error e => (.error e, p) := by
  cases hx : p.records.delete ctx id <;> simp [deleteRecord, outcome_struck h, hx]

theorem outcome_purgeRecords (ctx : Context) (cutoff : Instant) :
    outcome (purgeRecords ctx cutoff) p =
      match p.records.purge ctx cutoff with
      | .ok (n, records) => (.ok n, { p with records })
      | .error e => (.error e, p) := by
  cases hx : p.records.purge ctx cutoff <;> simp [purgeRecords, outcome_pass h, hx]

theorem outcome_createPartition (tenant : TenantId) (asOf : Instant) :
    outcome (createPartition tenant asOf) p =
      (.ok (), { p with index := p.index.createPartition tenant asOf }) := by
  simp [createPartition, outcome_pass h]

theorem outcome_putDocuments (seam : Seam) (ctx : Context) (events : List Event) :
    outcome (putDocuments seam ctx events) p =
      match p.index.put ctx events with
      | .ok index => (.ok (), { p with index })
      | .error e => (.error e, p) := by
  cases hx : p.index.put ctx events <;> simp [putDocuments, outcome_pass h, hx]

theorem outcome_deleteDocument (ctx : Context) (id : String) :
    outcome (deleteDocument ctx id) p =
      match p.index.delete ctx id with
      | .ok index => (.ok (), { p with index })
      | .error e => (.error e, p) := by
  cases hx : p.index.delete ctx id <;> simp [deleteDocument, outcome_pass h, hx]

theorem outcome_searchDocuments (ctx : Context) (f : Filter) :
    outcome (searchDocuments ctx f) p = (p.index.search ctx f, p) := by
  simp [searchDocuments, outcome_pass h]

theorem outcome_receiveMessages (max wait : Nat) :
    outcome (receiveMessages max wait) p =
      (.ok (p.queue.receive max wait p.clock).1.1,
        { p with
          queue := (p.queue.receive max wait p.clock).2
          clock := (p.queue.receive max wait p.clock).1.2 }) := by
  simp [receiveMessages, outcome_pass h]

theorem outcome_acknowledge (token : String) :
    outcome (acknowledge token) p =
      match p.queue.acknowledge token with
      | .ok queue => (.ok (), { p with queue })
      | .error e => (.error e, p) := by
  cases hx : p.queue.acknowledge token <;> simp [acknowledge, outcome_pass h, hx]

end Backends

theorem outcome_createRecords (ctx : Context) (events : List Event) (p : Pipeline) :
    outcome (createRecords ctx events) p =
      match p.records.create ctx events with
      | .ok records => (.ok (), { p with records })
      | .error e => (.error e, p) := by
  cases hx : p.records.create ctx events <;> simp [createRecords, hx]

end Pipeline

end AuditTrail

import AuditTrail.Pipeline.Queries
import AuditTrail.Pipeline.Ingestion
import AuditTrail.Proofs.Pipeline.Running
import Mathlib.Order.Defs.Unbundled
/-!
# How actions end

An action ends with an answer or is refused, and leaves some state behind either way. What holds at its ends
follows from what holds at the ends of its parts. An action that reads leaves the stores behind as it found
them, at whichever end and whichever seams are out of order.
-/

namespace AuditTrail

section Endings

variable {ε σ α β : Type}

/-- What is done in a state ends with an answer and a state for which one thing holds, or with an error and
a state for which another one holds. -/
def Ends (a : ExceptT ε (StateM σ) α) (s : σ) (done : α → σ → Prop) (failed : ε → σ → Prop) : Prop :=
  match (a.run.run s : Except ε α × σ) with
  | (.ok x, t) => done x t
  | (.error e, t) => failed e t

namespace Ends

variable {a : ExceptT ε (StateM σ) α} {f : α → ExceptT ε (StateM σ) β} {s : σ} {done : α → σ → Prop}
  {failed : ε → σ → Prop}

theorem mono {done' : α → σ → Prop} {failed' : ε → σ → Prop} (h : Ends a s done failed)
    (hdone : ∀ x t, done x t → done' x t) (hfailed : ∀ e t, failed e t → failed' e t) :
    Ends a s done' failed' := by
  unfold Ends at *
  split at h
  · exact hdone _ _ h
  · exact hfailed _ _ h

theorem and {done' : α → σ → Prop} {failed' : ε → σ → Prop} (h : Ends a s done failed)
    (h' : Ends a s done' failed') :
    Ends a s (fun x t => done x t ∧ done' x t) fun e t => failed e t ∧ failed' e t := by
  unfold Ends at *
  generalize (a.run.run s : Except ε α × σ) = result at h h' ⊢
  rcases result with ⟨e | x, t⟩
  · exact ⟨h, h'⟩
  · exact ⟨h, h'⟩

theorem pure {x : α} (h : done x s) : Ends (Pure.pure x) s done failed := h

theorem throw {e : ε} (h : failed e s) : Ends (MonadExcept.throw e) s done failed := h

theorem lift {x : Except ε α} (hdone : ∀ y, x = .ok y → done y s)
    (hfailed : ∀ e, x = .error e → failed e s) : Ends (liftM x) s done failed := by
  cases x with
  | ok y => exact hdone y rfl
  | error e => exact hfailed e rfl

theorem lifted (x : Except ε α) (s : σ) :
    Ends (liftM x : ExceptT ε (StateM σ) α) s (fun y t => x = .ok y ∧ s = t) fun _ t => s = t :=
  .lift (fun _ h => ⟨h, rfl⟩) fun _ _ => rfl

theorem got (s : σ) :
    Ends (MonadState.get : ExceptT ε (StateM σ) σ) s (fun t u => s = t ∧ s = u) fun _ _ => False :=
  ⟨rfl, rfl⟩

theorem get {done : σ → σ → Prop} (h : done s s) :
    Ends (MonadState.get : ExceptT ε (StateM σ) σ) s done failed := h

theorem set {t : σ} {done : PUnit → σ → Prop} (h : done ⟨⟩ t) :
    Ends (MonadState.set t : ExceptT ε (StateM σ) PUnit) s done failed := h

theorem modifyGet {g : σ → α × σ} (h : done (g s).1 (g s).2) :
    Ends (MonadState.modifyGet g : ExceptT ε (StateM σ) α) s done failed := h

theorem modify {g : σ → σ} {done : PUnit → σ → Prop} (h : done ⟨⟩ (g s)) :
    Ends (modify g : ExceptT ε (StateM σ) PUnit) s done failed := h

theorem bind {middle : α → σ → Prop} {broken : ε → σ → Prop} {done : β → σ → Prop}
    (ha : Ends a s middle broken) (hf : ∀ x t, middle x t → Ends (f x) t done failed)
    (hbroken : ∀ e t, broken e t → failed e t) : Ends (a >>= f) s done failed := by
  unfold Ends at ha
  rw [Ends, ExceptT.run_bind, StateT.run_bind]
  rcases hrun : (a.run.run s : Except ε α × σ) with ⟨e | x, t⟩
  · rw [hrun] at ha
    exact hbroken e t ha
  · rw [hrun] at ha
    exact hf x t ha

theorem tryCatch {broken : ε → σ → Prop} {handle : ε → ExceptT ε (StateM σ) α}
    (ha : Ends a s done broken) (hhandle : ∀ e t, broken e t → Ends (handle e) t done failed) :
    Ends (MonadExcept.tryCatch a handle) s done failed := by
  unfold Ends at ha
  change Ends (ExceptT.tryCatch a handle) s done failed
  simp only [Ends, ExceptT.tryCatch, ExceptT.mk, ExceptT.run, StateT.run_bind]
  rcases hrun : (a.run.run s : Except ε α × σ) with ⟨e | x, t⟩
  · rw [hrun] at ha
    have hrun : (StateT.run a s : Except ε α × σ) = (.error e, t) := hrun
    rw [hrun]
    exact hhandle e t ha
  · rw [hrun] at ha
    have hrun : (StateT.run a s : Except ε α × σ) = (.ok x, t) := hrun
    rw [hrun]
    exact ha

theorem adapt {ε' : Type} {rename : ε → ε'} {failed : ε' → σ → Prop}
    (ha : Ends a s done fun e t => failed (rename e) t) : Ends (a.adapt rename) s done failed := by
  unfold Ends at ha
  change Ends (ExceptT.mk (Except.mapError rename <$> a.run)) s done failed
  simp only [Ends, ExceptT.mk, ExceptT.run, StateT.run_map]
  rcases hrun : (a.run.run s : Except ε α × σ) with ⟨e | x, t⟩
  · rw [hrun] at ha
    have hrun : (StateT.run a s : Except ε α × σ) = (.error e, t) := hrun
    rw [hrun]
    exact ha
  · rw [hrun] at ha
    have hrun : (StateT.run a s : Except ε α × σ) = (.ok x, t) := hrun
    rw [hrun]
    exact ha

theorem returned {a : ExceptT ε (StateM σ) (Except α α)}
    (ha : Ends a s (fun x t => match x with | .error y => done y t | .ok y => done y t) failed) :
    Ends (a >>= fun x => EarlyReturn.runK x (fun y => Pure.pure y) fun y => Pure.pure y) s done failed := by
  refine ha.bind (fun x t ht => ?_) fun _ _ h => h
  cases x with
  | error y => exact ht
  | ok y => exact ht

theorem result {r : Except ε α} (h : Ends a s (fun x _ => r = .ok x) fun e _ => r = .error e) :
    (a.run.run s : Except ε α × σ).1 = r := by
  unfold Ends at h
  rcases hrun : (a.run.run s : Except ε α × σ) with ⟨e | x, t⟩
  · rw [hrun] at h
    exact h.symm
  · rw [hrun] at h
    exact h.symm

end Ends

/-- At both its ends an action has led from each state to one that is related to it. -/
def Leaves (R : σ → σ → Prop) (a : ExceptT ε (StateM σ) α) : Prop :=
  ∀ s, Ends a s (fun _ t => R s t) fun _ t => R s t

namespace Leaves

variable {R : σ → σ → Prop} {a : ExceptT ε (StateM σ) α} {f : α → ExceptT ε (StateM σ) β}

theorem modifyGet {g : σ → α × σ} (h : ∀ s, R s (g s).2) :
    Leaves R (MonadState.modifyGet g : ExceptT ε (StateM σ) α) := h

theorem modify {g : σ → σ} (h : ∀ s, R s (g s)) :
    Leaves R (modify g : ExceptT ε (StateM σ) PUnit) := h

theorem adapt {ε' : Type} (ha : Leaves R a) (rename : ε → ε') : Leaves R (a.adapt rename) := by
  intro s
  apply Ends.adapt
  exact ha s

variable [IsPreorder σ R]

theorem pure (x : α) : Leaves R (Pure.pure x : ExceptT ε (StateM σ) α) := fun s => refl s

theorem throw (e : ε) : Leaves R (MonadExcept.throw e : ExceptT ε (StateM σ) α) := fun s => refl s

theorem get : Leaves R (MonadState.get : ExceptT ε (StateM σ) σ) := fun s => refl s

theorem lift (x : Except ε α) : Leaves R (liftM x : ExceptT ε (StateM σ) α) :=
  fun s => .lift (fun _ _ => refl s) fun _ _ => refl s

theorem bind (ha : Leaves R a) (hf : ∀ x, Leaves R (f x)) : Leaves R (a >>= f) := by
  intro s
  refine (ha s).bind (fun x t ht => ?_) fun _ _ ht => ht
  exact (hf x t).mono (fun _ _ hu => Trans.trans ht hu) fun _ _ hu => Trans.trans ht hu

theorem tryCatch {handle : ε → ExceptT ε (StateM σ) α} (ha : Leaves R a)
    (hhandle : ∀ e, Leaves R (handle e)) : Leaves R (MonadExcept.tryCatch a handle) := by
  intro s
  refine (ha s).tryCatch fun e t ht => ?_
  exact (hhandle e t).mono (fun _ _ hu => Trans.trans ht hu) fun _ _ hu => Trans.trans ht hu

theorem returned {a : ExceptT ε (StateM σ) (Except α α)} (ha : Leaves R a) :
    Leaves R (a >>= fun x => EarlyReturn.runK x (fun y => Pure.pure y) fun y => Pure.pure y) := by
  apply ha.bind
  intro x
  cases x with
  | error y => exact .pure y
  | ok y => exact .pure y

theorem mapM {γ : Type} {f : γ → ExceptT ε (StateM σ) β} (hf : ∀ x, Leaves R (f x)) (xs : List γ) :
    Leaves R (xs.mapM f) := by
  induction xs with
  | nil =>
    rw [List.mapM_nil]
    exact .pure []
  | cons x rest ih =>
    rw [List.mapM_cons]
    exact (hf x).bind fun _ => ih.bind fun _ => .pure _

theorem forM {γ : Type} {f : γ → ExceptT ε (StateM σ) PUnit} (hf : ∀ x, Leaves R (f x)) (xs : List γ) :
    Leaves R (xs.forM f) := by
  induction xs with
  | nil => exact .pure PUnit.unit
  | cons x rest ih =>
    rw [List.forM_eq_forM] at ih ⊢
    rw [List.forM_cons]
    exact (hf x).bind fun _ => ih

end Leaves

end Endings

/-- The counters that account for what is stored, queued and done with. -/
def Counter.accounts : List Counter :=
  [.eventsPersisted, .retentionPurged, .messagesPublished, .messagesAcked, .messagesDiscarded]

namespace Pipeline

/-- The stores, the queue and the clock of two pipelines are the same; the counters and what is known about
outages may differ, but outages do not come up. -/
structure SameStores (p q : Pipeline) : Prop where
  records : q.records = p.records
  registry : q.registry = p.registry
  index : q.index = p.index
  queue : q.queue = p.queue
  clock : q.clock = p.clock
  outages : p.outages = .empty → q.outages = .empty

instance : IsPreorder Pipeline SameStores where
  refl _ := ⟨rfl, rfl, rfl, rfl, rfl, id⟩
  trans _ _ _ h k :=
    ⟨k.records.trans h.records, k.registry.trans h.registry, k.index.trans h.index,
      k.queue.trans h.queue, k.clock.trans h.clock, fun hp => k.outages (h.outages hp)⟩

section Outcomes

variable {α : Type} {a : Action α} {p q : Pipeline} {done : α → Pipeline → Prop}
  {failed : Failure → Pipeline → Prop}

theorem ends_of_ok {x : α} (h : outcome a p = (.ok x, q)) (hdone : done x q) : Ends a p done failed := by
  have hrun : (a.run.run p : Except Failure α × Pipeline) = (.ok x, q) := h
  rw [Ends, hrun]
  exact hdone

theorem ends_of_error {f : Failure} (h : outcome a p = (.error f, q)) (hfailed : failed f q) :
    Ends a p done failed := by
  have hrun : (a.run.run p : Except Failure α × Pipeline) = (.error f, q) := h
  rw [Ends, hrun]
  exact hfailed

theorem done_of_outcome {x : α} (h : Ends a p done failed) (hrun : outcome a p = (.ok x, q)) : done x q := by
  have hrun : (a.run.run p : Except Failure α × Pipeline) = (.ok x, q) := hrun
  rw [Ends, hrun] at h
  exact h

theorem failed_of_outcome {f : Failure} (h : Ends a p done failed) (hrun : outcome a p = (.error f, q)) :
    failed f q := by
  have hrun : (a.run.run p : Except Failure α × Pipeline) = (.error f, q) := hrun
  rw [Ends, hrun] at h
  exact h

theorem ends_bind_of_ok {β : Type} {x : α} {f : α → Action β} {done : β → Pipeline → Prop}
    (h : outcome a p = (.ok x, q)) (hf : Ends (f x) q done failed) : Ends (a >>= f) p done failed := by
  have ha : Ends a p (fun y r => x = y ∧ q = r) fun _ _ => False := ends_of_ok h ⟨rfl, rfl⟩
  apply ha.bind
  · rintro _ _ ⟨rfl, rfl⟩
    exact hf
  · exact fun _ _ h => h.elim

/-- What holds at both ends of an action holds of the pipeline after it. -/
theorem after_of_ends {R : Pipeline → Prop} (h : Ends a p (fun _ q => R q) fun _ q => R q) :
    R (outcome a p).2 := by
  unfold Ends at h
  unfold outcome
  split at h
  · rename_i hrun
    rw [hrun]
    exact h
  · rename_i hrun
    rw [hrun]
    exact h

end Outcomes

theorem SameStores.of_eq {p q : Pipeline} (h : p = q) : SameStores p q := by
  rw [h]
  exact refl q

theorem strike_empty {σ : Type} [DecidableEq σ] (s : σ) :
    (Table.empty : Table σ Outage).strike s = (false, .empty) := rfl

/-- A relation that does not see what reading does to a pipeline: all other counters and the gauges, health, and
outages that are used up. -/
class Blind (R : Pipeline → Pipeline → Prop) : Prop extends IsPreorder Pipeline R where
  count : ∀ p c n, c ∉ Counter.accounts → R p { p with metrics := p.metrics.add c n }
  strike : ∀ p s, R p { p with outages := (p.outages.strike s).2 }
  note : ∀ p health, R p { p with health }
  measure : ∀ p n, R p { p with metrics := { p.metrics with queueDepth := n } }

instance : Blind SameStores where
  count _ _ _ _ := ⟨rfl, rfl, rfl, rfl, rfl, id⟩
  strike p s := by
    refine ⟨rfl, rfl, rfl, rfl, rfl, fun hp => ?_⟩
    rw [hp, strike_empty]
  note _ _ := ⟨rfl, rfl, rfl, rfl, rfl, id⟩
  measure _ _ := ⟨rfl, rfl, rfl, rfl, rfl, id⟩

/-- What an action that reads does is not seen. -/
abbrev Reads {α : Type} (a : Action α) : Prop := ∀ (R : Pipeline → Pipeline → Prop) [Blind R], Leaves R a

/-! ## Parts of actions -/

theorem reads_count {c : Counter} (hc : c ∉ Counter.accounts) (n : Nat) : Reads (count c n) :=
  fun _ _ => .modify fun p => Blind.count p c n hc

theorem reads_struck (s : Seam) : Reads (struck s) := fun _ _ => .modifyGet fun p => Blind.strike p s

theorem reads_pass (s : Seam) : Reads (pass s) := by
  intro R _
  refine (reads_struck s R).bind fun fails => ?_
  split
  · exact .throw _
  · exact .pure _

theorem reads_getRecord (ctx : Context) (id : String) : Reads (getRecord ctx id) :=
  fun R _ => (reads_pass _ R).bind fun _ => Leaves.get.bind fun _ => .lift _

private theorem reads_listRecords (ctx : Context) (f : Filter) : Reads (listRecords ctx f) :=
  fun R _ => (reads_pass _ R).bind fun _ => Leaves.get.bind fun _ => .lift _

private theorem reads_getTenant (id : TenantId) : Reads (getTenant id) := fun _ _ => Leaves.get.bind fun _ => .pure _

theorem reads_listTenants : Reads listTenants :=
  fun R _ => (reads_pass _ R).bind fun _ => Leaves.get.bind fun _ => .pure _

theorem reads_findTenant (key : String) : Reads (findTenant key) :=
  fun R _ => (reads_pass _ R).bind fun _ => Leaves.get.bind fun _ => .pure _

private theorem reads_searchDocuments (ctx : Context) (f : Filter) : Reads (searchDocuments ctx f) :=
  fun R _ => (reads_pass _ R).bind fun _ => Leaves.get.bind fun _ => .lift _

private theorem reads_queueDepth : Reads queueDepth :=
  fun R _ => (reads_pass _ R).bind fun _ => Leaves.get.bind fun _ => .pure _

/-! ## Whole actions -/

theorem reads_requireTenant (id : TenantId) : Reads (requireTenant id) := by
  intro R _
  refine (reads_getTenant id R).bind fun found => ?_
  cases found with
  | none => exact .throw _
  | some t => exact .pure t

theorem reads_listEvents (ctx : Context) (f : Filter) : Reads (listEvents ctx f) := by
  intro R _
  refine Leaves.bind (.lift _) fun _ => ?_
  cases f.normalized.backend with
  | searchIndex => exact (reads_count (by decide) _ R).bind fun _ => reads_searchDocuments _ _ R
  | recordStore => exact (reads_count (by decide) _ R).bind fun _ => reads_listRecords _ _ R

theorem reads_getEvent (ctx : Context) (id : String) : Reads (getEvent ctx id) := by
  intro R _
  refine (reads_getRecord ctx id R).bind fun found => ?_
  cases found with
  | none => exact .throw _
  | some e => exact .pure e

theorem reads_stats (ctx : Context) (f : Filter) : Reads (stats ctx f) :=
  fun R _ => (reads_listEvents _ _ R).bind fun _ => .pure _

theorem reads_exportEvents (ctx : Context) (f : Filter) (format : ExportFormat) :
    Reads (exportEvents ctx f format) := fun R _ => (reads_listEvents _ _ R).bind fun _ => .pure _

private theorem reads_record {α : Type} (c : Component) {check : Action α} (h : Reads check) :
    Reads (record c check) := by
  intro R _
  have hnote (f : Pipeline → Health) : Leaves R (modify fun p => { p with health := f p } : Action PUnit) :=
    .modify fun p => Blind.note p (f p)
  refine Leaves.bind (Leaves.tryCatch ?_ fun _ => ?_) fun found => ?_
  · exact (h R).bind fun a => (hnote _).bind fun _ => .pure (Except.error (some a))
  · exact (hnote _).bind fun _ => .pure (Except.error none)
  · cases found with
    | error a => exact .pure a
    | ok a => exact .pure a

private theorem reads_measureQueue : Reads measureQueue := by
  intro R _
  refine (reads_record _ reads_queueDepth R).bind fun depth => ?_
  cases depth with
  | none => exact .pure none
  | some n => exact (Leaves.modify fun p => Blind.measure p n).bind fun _ => .pure _

theorem reads_probe : Reads probe := by
  intro R _
  refine (reads_record _ (reads_pass _) R).bind fun _ => (reads_record _ (reads_pass _) R).bind fun _ => ?_
  refine (reads_measureQueue R).bind fun depth => ?_
  cases depth with
  | none => exact Leaves.get.bind fun _ => .pure _
  | some n => exact .pure n

end Pipeline

end AuditTrail

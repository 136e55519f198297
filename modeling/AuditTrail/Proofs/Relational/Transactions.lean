import AuditTrail.Proofs.Pipeline.Endings
import AuditTrail.Proofs.Relational.Insertion
/-!
# Batches in transactions

What is asked of a database for a batch of events is noted, with what the database reports. However the database
behaves, the batch is inserted part by part between the start of a transaction and its end, up to the first request
that fails: either all events are committed or no commit succeeds.
-/

namespace AuditTrail.Relational

variable {σ : Type}

/-! ## Requests that are noted -/

inductive Request where
  | startTransaction
  | commit
  | statement (s : Statement)

/-- A request, with the report if it failed. -/
structure Exchange where
  request : Request
  report : Option Report

def Request.done (r : Request) : Exchange := ⟨r, none⟩

def Request.failed (r : Request) (report : Report) : Exchange := ⟨r, some report⟩

@[simp] theorem Request.report_done (r : Request) : r.done.report = none := rfl

@[simp] theorem Request.report_failed (r : Request) (report : Report) : (r.failed report).report = some report := rfl

def Request.answered {α : Type} (r : Request) : Except Report α → Exchange
  | .ok _ => r.done
  | .error report => r.failed report

def noting {α : Type} (request : Request) (act : ExceptT Report (StateM σ) α) :
    ExceptT Report (StateM (σ × List Exchange)) α :=
  ExceptT.mk fun p =>
    let r : Except Report α × σ := act.run.run p.1
    (r.1, r.2, p.2 ++ [request.answered r.1])

/-- A database whose requests are noted. -/
def Database.noted (db : Database (StateM σ)) : Database (StateM (σ × List Exchange)) where
  startTransaction := noting .startTransaction db.startTransaction
  commit := noting .commit db.commit
  execute s := noting (.statement s) (db.execute s)
  events s := noting (.statement s) (db.events s)
  tenants s := noting (.statement s) (db.tenants s)

private theorem asking_noting {α : Type} (request : Request) (act : ExceptT Report (StateM σ) α)
    (failure : Report → Failure)
    (p : σ × List Exchange) :
    Ends (asking (noting request act) failure) p (fun _ q => q.2 = p.2 ++ [request.done]) fun e q =>
      ∃ report, e = failure report ∧ q.2 = p.2 ++ [request.failed report] := by
  apply Ends.adapt
  have hrun : ((noting request act).run.run p : Except Report α × σ × List Exchange) =
      let r : Except Report α × σ := act.run.run p.1
      (r.1, r.2, p.2 ++ [request.answered r.1]) := rfl
  rw [Ends, hrun]
  rcases (act.run.run p.1 : Except Report α × σ) with ⟨report | x, st⟩
  · exact ⟨report, rfl, rfl⟩
  · rfl

/-! ## The parts of a batch -/

section

variable {α : Type} {size : Nat}

private theorem chunks_cons (fuel : Nat) (x : α) (xs : List α) :
    chunks size (fuel + 1) (x :: xs) = (x :: xs).take size :: chunks size fuel ((x :: xs).drop size) := rfl

private theorem flatten_chunks (fuel : Nat) (xs : List α) : (chunks size fuel xs).flatten = xs := by
  induction fuel generalizing xs with
  | zero => cases xs <;> simp [chunks]
  | succ fuel ih =>
    cases xs with
    | nil => rfl
    | cons x xs => rw [chunks_cons, List.flatten_cons, ih, List.take_append_drop]

variable (hsize : 0 < size)

include hsize

private theorem length_chunks {fuel : Nat} {xs : List α} (hfuel : xs.length ≤ fuel) :
    (chunks size fuel xs).length = (xs.length + size - 1) / size := by
  induction fuel generalizing xs with
  | zero =>
    obtain rfl := List.length_eq_zero_iff.mp (Nat.le_zero.mp hfuel)
    exact (Nat.div_eq_of_lt (by rw [List.length_nil]; omega)).symm
  | succ fuel ih =>
    cases xs with
    | nil => exact (Nat.div_eq_of_lt (by rw [List.length_nil]; omega)).symm
    | cons x xs =>
      have hlength : (x :: xs).length = xs.length + 1 := rfl
      have hrest : ((x :: xs).drop size).length ≤ fuel := by
        rw [List.length_drop]
        omega
      have hmore : (x :: xs).length + size - 1 = xs.length + size := by omega
      rw [chunks_cons, List.length_cons, ih hrest, List.length_drop, hmore, Nat.add_div_right _ hsize]
      congr 1
      rcases Nat.lt_or_ge xs.length size with hlt | hge
      · rw [Nat.div_eq_of_lt hlt, Nat.div_eq_of_lt (by omega)]
      · congr 1
        omega

private theorem length_of_mem_chunks {fuel : Nat} {xs : List α} (hfuel : xs.length ≤ fuel) {part : List α}
    (hpart : part ∈ chunks size fuel xs) : 1 ≤ part.length ∧ part.length ≤ size := by
  induction fuel generalizing xs with
  | zero =>
    obtain rfl := List.length_eq_zero_iff.mp (Nat.le_zero.mp hfuel)
    cases hpart
  | succ fuel ih =>
    cases xs with
    | nil => cases hpart
    | cons x xs =>
      rw [chunks_cons] at hpart
      rcases List.mem_cons.mp hpart with rfl | hpart
      · rw [List.length_take, List.length_cons]
        omega
      · refine ih ?_ hpart
        rw [List.length_drop]
        omega

end

private theorem eventChunks_parts (events : List Event) :
    (eventChunks events).flatten = events ∧ (eventChunks events).length = (events.length + 99) / 100 ∧
      ∀ part ∈ eventChunks events, 1 ≤ part.length ∧ part.length ≤ 100 :=
  ⟨flatten_chunks _ _, length_chunks (by decide) (Nat.le_refl _), fun _ =>
    length_of_mem_chunks (by decide) (Nat.le_refl _)⟩

/-! ## The course of a batch -/

variable (db : Database (StateM σ)) (tenant : TenantId)

def insertion (events : List Event) : Request := .statement (insertStatement tenant events)

/-- Parts are inserted one after the other, up to the first one that fails. -/
private theorem insertParts_ends (parts : List (List Event)) (p : σ × List Exchange) :
    Ends (parts.forM (insertEvents db.noted tenant)) p
      (fun _ q => q.2 = p.2 ++ parts.map fun part => (insertion tenant part).done)
      fun e q => ∃ before part after report, parts = before ++ part :: after ∧ e = insertFailure report ∧
        q.2 = p.2 ++ (before.map fun part => (insertion tenant part).done) ++
          [(insertion tenant part).failed report] := by
  induction parts generalizing p with
  | nil => exact .pure (List.append_nil p.2).symm
  | cons part parts ih =>
    rw [List.forM_eq_forM] at ih ⊢
    rw [List.forM_cons]
    have hinsert : Ends (insertEvents db.noted tenant part) p
        (fun _ q => q.2 = p.2 ++ [(insertion tenant part).done]) fun e q =>
          ∃ report, e = insertFailure report ∧ q.2 = p.2 ++ [(insertion tenant part).failed report] :=
      (asking_noting _ _ _ p).bind (fun _ _ h => .pure h) fun _ _ h => h
    refine hinsert.bind (fun _ q hq => ?_) ?_
    · refine (ih q).mono (fun _ r hr => ?_) ?_
      · rw [hr, hq, List.map_cons, List.append_assoc, List.singleton_append]
      · rintro e r ⟨before, failing, after, report, rfl, he, hr⟩
        refine ⟨part :: before, failing, after, report, rfl, he, ?_⟩
        rw [hr, hq, List.map_cons, List.append_assoc p.2, List.singleton_append]
    · rintro e q ⟨report, he, hq⟩
      exact ⟨[], part, parts, report, rfl, he, by simpa using hq⟩

/-- What was asked for the first parts of a batch, without fail. -/
def begun (tenant : TenantId) (parts : List (List Event)) : List Exchange :=
  Request.startTransaction.done :: parts.map fun part => (insertion tenant part).done

private theorem of_mem_begun {tenant : TenantId} {parts : List (List Event)} {x : Exchange}
    (hx : x ∈ begun tenant parts) :
    x.report = none ∧ x.request ≠ .commit := by
  rcases List.mem_cons.mp hx with rfl | hx
  · exact ⟨rfl, Request.noConfusion⟩
  · obtain ⟨part, -, rfl⟩ := List.mem_map.mp hx
    exact ⟨rfl, Request.noConfusion⟩

private theorem eq_of_append_failed (sent : List Exchange) {before after : List Exchange} {last failed : Exchange}
    (hsent : ∀ x ∈ sent, x.report = none) (hfailed : failed.report ≠ none)
    (h : sent ++ [last] = before ++ failed :: after) : before = sent ∧ failed = last ∧ after = [] := by
  induction sent generalizing before with
  | nil =>
    cases before with
    | nil =>
      obtain ⟨rfl, rfl⟩ := List.cons.inj h
      exact ⟨rfl, rfl, rfl⟩
    | cons x before => exact absurd (List.cons.inj h).2 (by simp)
  | cons x sent ih =>
    cases before with
    | nil =>
      obtain ⟨rfl, -⟩ := List.cons.inj h
      exact absurd (hsent _ (by simp)) hfailed
    | cons y before =>
      obtain ⟨rfl, hrest⟩ := List.cons.inj h
      obtain ⟨rfl, hlast⟩ := ih (fun z hz => hsent z (by simp [hz])) hrest
      exact ⟨rfl, hlast⟩

/-- How a batch of a tenant can end, with what was asked of the database. -/
inductive BatchEnds (tenant : TenantId) (events : List Event) : Except Failure Unit → List Exchange → Prop where
  /-- An event is of another tenant. -/
  | foreign {e : Event} (text : String) : e ∈ events → e.tenant ≠ tenant →
      BatchEnds tenant events (.error (.storeWrite text)) []
  | notStarted (report : Report) : (∀ e ∈ events, e.tenant = tenant) →
      BatchEnds tenant events (.error (.storeWrite ("failed to start transaction: " ++ report.words)))
        [Request.startTransaction.failed report]
  /-- A part is not inserted. -/
  | refused (before : List (List Event)) (part : List Event) (after : List (List Event)) (report : Report) :
      (∀ e ∈ events, e.tenant = tenant) → eventChunks events = before ++ part :: after →
      BatchEnds tenant events (.error (insertFailure report))
        (begun tenant before ++ [(insertion tenant part).failed report])
  | notCommitted (report : Report) : (∀ e ∈ events, e.tenant = tenant) →
      BatchEnds tenant events (.error (.storeWrite ("failed to commit audit events: " ++ report.words)))
        (begun tenant (eventChunks events) ++ [Request.commit.failed report])
  | committed : (∀ e ∈ events, e.tenant = tenant) →
      BatchEnds tenant events (.ok ()) (begun tenant (eventChunks events) ++ [Request.commit.done])

private theorem createEvents_ends {ctx : Context} {tenant : TenantId} (hctx : ctx.tenant = some tenant)
    (events : List Event) (st : σ) :
    Ends (createEvents db.noted ctx events) (st, []) (fun _ q => BatchEnds tenant events (.ok ()) q.2)
      fun e q => BatchEnds tenant events (.error e) q.2 := by
  unfold createEvents
  rw [Context.requireTenant_eq_ok.mpr hctx]
  change Ends ((liftM (RecordStore.checkOwner tenant events) : Action (StateM (σ × List Exchange)) Unit) >>= _) _ _ _
  cases hcheck : RecordStore.checkOwner tenant events with
  | error e =>
    unfold RecordStore.checkOwner at hcheck
    split at hcheck
    · rename_i foreign hforeign
      obtain rfl := Except.error.inj hcheck
      have hother : foreign.tenant ≠ tenant := by simpa using List.find?_some hforeign
      exact .foreign _ (List.mem_of_find?_eq_some hforeign) hother
    · cases hcheck
  | ok _ =>
    have hown := RecordStore.checkOwner_eq_ok.mp hcheck
    change Ends (asking db.noted.startTransaction _ >>= _) _ _ _
    refine (asking_noting _ _ _ _).bind (fun _ q hq => ?_) ?_
    · refine (insertParts_ends db tenant (eventChunks events) q).bind (fun _ r hr => ?_) ?_
      · refine (asking_noting _ _ _ r).mono (fun _ t ht => ?_) ?_
        · rw [ht, hr, hq]
          exact .committed hown
        · rintro _ t ⟨report, rfl, ht⟩
          rw [ht, hr, hq]
          exact .notCommitted report hown
      · rintro _ r ⟨before, part, after, report, hparts, rfl, hr⟩
        rw [hr, hq]
        exact .refused before part after report hown hparts
    · rintro _ q ⟨report, rfl, hq⟩
      rw [hq]
      exact .notStarted report hown

namespace BatchEnds

variable {tenant : TenantId} {events : List Event} {answer : Except Failure Unit} {log : List Exchange}
  (h : BatchEnds tenant events answer log)

include h

private theorem of_foreign {e : Event} (he : e ∈ events) (hforeign : e.tenant ≠ tenant) :
    (∃ text, answer = .error (.storeWrite text)) ∧ log = [] := by
  cases h with
  | foreign text _ _ => exact ⟨⟨text, rfl⟩, rfl⟩
  | notStarted _ hown => exact absurd (hown e he) hforeign
  | refused _ _ _ _ hown _ => exact absurd (hown e he) hforeign
  | notCommitted _ hown => exact absurd (hown e he) hforeign
  | committed hown => exact absurd (hown e he) hforeign

private theorem eq_ok_iff : answer = .ok () ↔ (∀ e ∈ events, e.tenant = tenant) ∧ ∀ x ∈ log, x.report = none := by
  have hlast (sent : List Exchange) {request : Request} {report : Report}
      (hall : ∀ x ∈ sent ++ [request.failed report], x.report = none) : False := by
    simpa using hall (request.failed report) (List.mem_append_right _ (List.mem_singleton_self _))
  cases h with
  | foreign text he hforeign => exact ⟨nofun, fun hall => absurd (hall.1 _ he) hforeign⟩
  | notStarted report _ => exact ⟨nofun, fun hall => (hlast [] hall.2).elim⟩
  | refused before part after report _ _ => exact ⟨nofun, fun hall => (hlast _ hall.2).elim⟩
  | notCommitted report _ => exact ⟨nofun, fun hall => (hlast _ hall.2).elim⟩
  | committed hown =>
    refine ⟨fun _ => ⟨hown, fun x hx => ?_⟩, fun _ => rfl⟩
    rcases List.mem_append.mp hx with hx | hx
    · exact (of_mem_begun hx).1
    · rw [List.mem_singleton.mp hx, Request.report_done]

private theorem log_of_ok (hok : answer = .ok ()) :
    (∀ e ∈ events, e.tenant = tenant) ∧ log = begun tenant (eventChunks events) ++ [Request.commit.done] := by
  cases h with
  | committed hown => exact ⟨hown, rfl⟩
  | foreign => cases hok
  | notStarted => cases hok
  | refused => cases hok
  | notCommitted => cases hok

private theorem of_failed {before after : List Exchange} {s : Statement} {report : Report}
    (hlog : log = before ++ (Request.statement s).failed report :: after) :
    after = [] ∧ (∀ x ∈ before, x.request ≠ .commit) ∧ answer = .error (insertFailure report) := by
  have hlast {parts : List (List Event)} {last : Exchange}
      (heq : begun tenant parts ++ [last] = before ++ (Request.statement s).failed report :: after) :=
    eq_of_append_failed _ (fun x hx => (of_mem_begun hx).1) (by simp) heq
  cases h with
  | foreign => exact absurd hlog (by simp)
  | notStarted report' _ =>
    obtain ⟨-, heq, -⟩ := eq_of_append_failed [] (by simp) (by simp) hlog
    cases heq
  | refused parts part rest report' _ _ =>
    obtain ⟨rfl, heq, rfl⟩ := hlast hlog
    cases heq
    exact ⟨rfl, fun x hx => (of_mem_begun hx).2, rfl⟩
  | notCommitted report' _ =>
    obtain ⟨-, heq, -⟩ := hlast hlog
    cases heq
  | committed _ =>
    obtain ⟨-, heq, -⟩ := hlast hlog
    cases heq

private theorem ok_of_commit (hcommit : Request.commit.done ∈ log) : answer = .ok () := by
  have hlast {parts : List (List Event)} {last : Exchange} (hmem : Request.commit.done ∈ begun tenant parts ++ [last]) :
      Request.commit.done = last := by
    rcases List.mem_append.mp hmem with hx | hx
    · exact absurd rfl (of_mem_begun hx).2
    · exact List.mem_singleton.mp hx
  cases h with
  | foreign => cases hcommit
  | notStarted report _ => cases List.mem_singleton.mp hcommit
  | refused before part after report _ _ => cases hlast hcommit
  | notCommitted report _ => cases hlast hcommit
  | committed _ => rfl

end BatchEnds

/-- However the database behaves, a batch with an event of another tenant is refused before anything is asked. A batch
is answered well just when nothing fails, and then it was inserted as a whole, in as few parts as can be, before it was
committed. After an insertion that fails nothing more is asked, and the answer tells a repeated identifier from other
failures. -/
theorem batch_committed_or_refused {ctx : Context} {tenant : TenantId} (hctx : ctx.tenant = some tenant)
    (events : List Event) (st : σ) :
    let r : Except Failure Unit × σ × List Exchange := (createEvents db.noted ctx events).run.run (st, [])
    let answer := r.1
    let log := r.2.2
    let parts := eventChunks events
    ((∃ e ∈ events, e.tenant ≠ tenant) → (∃ text, answer = .error (.storeWrite text)) ∧ log = []) ∧
    (answer = .ok () ↔ (∀ e ∈ events, e.tenant = tenant) ∧ ∀ x ∈ log, x.report = none) ∧
    (answer = .ok () →
      log = Request.startTransaction.done :: (parts.map fun part => (insertion tenant part).done) ++
        [Request.commit.done] ∧
      parts.length = (events.length + 99) / 100 ∧ parts.flatten = events ∧
      ∀ part ∈ parts, (1 ≤ part.length ∧ part.length ≤ 100) ∧ (insertStatement tenant part).Inserts part) ∧
    (∀ before s report after, log = before ++ (Request.statement s).failed report :: after →
      after = [] ∧ (∀ x ∈ before, x.request ≠ .commit) ∧
      answer = .error (if report.state = "23505" then .conflict "audit event id already exists"
        else .storeWrite ("failed to insert audit events: " ++ report.words))) ∧
    (Request.commit.done ∈ log → answer = .ok ()) := by
  intro r answer log parts
  obtain ⟨hflatten, hlength, hsize⟩ := eventChunks_parts events
  have hends : BatchEnds tenant events r.1 r.2.2 := by
    have h := createEvents_ends db hctx events st
    unfold Ends at h
    split at h
    · rename_i hrun
      rw [show r = _ from hrun]
      exact h
    · rename_i hrun
      rw [show r = _ from hrun]
      exact h
  refine ⟨fun ⟨e, he, hforeign⟩ => hends.of_foreign he hforeign, hends.eq_ok_iff, fun hok => ?_,
    fun before s report after hlog => ?_, hends.ok_of_commit⟩
  · obtain ⟨hown, hlog⟩ := hends.log_of_ok hok
    refine ⟨hlog, hlength, hflatten, fun part hpart => ⟨hsize part hpart, ?_⟩⟩
    apply insertStatement_inserts
    · exact List.ne_nil_of_length_pos (hsize part hpart).1
    · intro e he
      exact hown e (hflatten ▸ List.mem_flatten_of_mem hpart he)
  · obtain ⟨hafter, hbefore, hanswer⟩ := hends.of_failed hlog
    refine ⟨hafter, hbefore, hanswer.trans ?_⟩
    simp [insertFailure, Report.isRepeatedKey]

/-- A database that takes as many insertions as it counts, and then reports a repeated identifier. -/
def counting : Database (StateM Nat) where
  startTransaction := pure ()
  commit := pure ()
  execute _ := do
    if (← get) = 0 then throw ⟨"23505", "duplicate key"⟩
    modify (· - 1)
    return 1
  events _ := pure []
  tenants _ := pure []

/-- More sign-ins than go into one statement. -/
def manySignIns : List Event := (List.range 101).map fun n => .signIn (toString n)

/-- When the last of them is there already, the part before it is not committed either. -/
theorem repeatedSignIn_refused :
    let ctx := Context.ofTenant .acme "r1"
    let r : Except Failure Unit × Nat × List Exchange :=
      (createEvents counting.noted ctx manySignIns).run.run (1, [])
    ctx.tenant = some .acme ∧
      r.2.2 = [Request.startTransaction.done, (insertion .acme (manySignIns.take 100)).done,
        (insertion .acme [.signIn "100"]).failed ⟨"23505", "duplicate key"⟩] ∧
      r.1 = .error (.conflict "audit event id already exists") ∧ Request.commit.done ∉ r.2.2 := by
  intro ctx r
  have hctx : ctx.tenant = some .acme := rfl
  have hlog : r.2.2 = [Request.startTransaction.done, (insertion .acme (manySignIns.take 100)).done,
      (insertion .acme [.signIn "100"]).failed ⟨"23505", "duplicate key"⟩] := rfl
  obtain ⟨-, -, -, hfailed, hcommit⟩ := batch_committed_or_refused counting hctx manySignIns 1
  obtain ⟨-, -, hanswer⟩ := hfailed [_, _] _ _ [] hlog
  refine ⟨hctx, hlog, hanswer, ?_⟩
  intro hmem
  cases hanswer.symm.trans (hcommit hmem)

end AuditTrail.Relational

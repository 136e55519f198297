import AuditTrail.Proofs.Filter.Select
import AuditTrail.Proofs.Isolation.Calls
/-!
# Runs keep tenants apart

Calls of any tenants are made one after the other on one pipeline. Each tenant is answered as if it were
alone, finds its data as if it were alone, and is never shown an event of another tenant.
-/

namespace AuditTrail

open Pipeline

/-- An answer shows no events but those of a sort. -/
def Answer.MadeOf (sort : Event → Prop) : Answer → Prop
  | event e => sort e
  | events es => ∀ e ∈ es, sort e
  | stats s => ∃ es, (∀ e ∈ es, sort e) ∧ s = .ofEvents es
  | file text => ∃ (format : ExportFormat) (es : List Event), (∀ e ∈ es, sort e) ∧ text = format.render es
  | receipt _ => True
  | purged _ => True
  | applied => True

namespace Pipeline

variable {ctx : Context} {tenant : TenantId} {p q : Pipeline}

/-! ## Events of answers -/

private theorem tenant_of_getEvent (h : ctx.tenant = some tenant) (hp : Orderly p) {id : String} {e : Event}
    (he : (outcome (getEvent ctx id) p).1 = .ok e) : e.tenant = tenant := by
  simp only [getEvent, outcome_bind, outcome_getRecord hp.up, RecordStore.get,
    Context.requireTenant_eq_ok.mpr h, Failure.ok_bind, Failure.pure_eq, proceed_ok] at he
  cases hfound : p.records.rows.get? tenant id with
  | none =>
    rw [hfound] at he
    cases he
  | some d =>
    rw [hfound] at he
    cases he
    exact congrArg Prod.fst (EventTable.get?_eq_some_iff.mp hfound).2

private theorem tenant_of_listEvents (h : ctx.tenant = some tenant) (hp : Orderly p) {f : Filter}
    {es : List Event} (hes : (outcome (listEvents ctx f) p).1 = .ok es) : ∀ e ∈ es, e.tenant = tenant := by
  have hselected (t : EventTable) : ∀ e ∈ f.normalized.select (t.ofTenant tenant), e.tenant = tenant :=
    fun e he => (EventTable.mem_ofTenant.mp (Filter.mem_of_mem_select he)).2
  have hcounted (c : Counter) : Orderly { p with metrics := p.metrics.add c 1 } := ⟨hp.up, hp.inOrder⟩
  simp only [listEvents, Context.requireTenant_eq_ok.mpr h, outcome_bind, outcome_lift, proceed_ok] at hes
  split at hes
  · simp only [outcome_bind, outcome_count, proceed_ok, outcome_searchDocuments (hcounted _).up,
      SearchIndex.search, Context.requireTenant_eq_ok.mpr h, Failure.ok_bind] at hes
    cases hes
    exact hselected _
  · simp only [outcome_bind, outcome_count, proceed_ok, outcome_listRecords (hcounted _).up,
      RecordStore.list, Context.requireTenant_eq_ok.mpr h, Failure.ok_bind] at hes
    cases hes
    exact hselected _

end Pipeline

private theorem Call.madeOf_tenant {c : Call} {tenant : TenantId} {p : Pipeline} {a : Answer}
    (h : c.tenant = some tenant) (hp : Orderly p) (ha : (outcome c.perform p).1 = .ok a) :
    a.MadeOf fun e => e.tenant = tenant := by
  cases c with
  | write w =>
    obtain ⟨r, -, rfl⟩ := outcome_map_eq_ok.mp ha
    trivial
  | get ctx id =>
    obtain ⟨e, he, rfl⟩ := outcome_map_eq_ok.mp ha
    exact tenant_of_getEvent h hp he
  | list ctx f =>
    obtain ⟨es, hes, rfl⟩ := outcome_map_eq_ok.mp ha
    exact tenant_of_listEvents h hp hes
  | stats ctx f =>
    obtain ⟨s, hs, rfl⟩ := outcome_map_eq_ok.mp ha
    rw [Pipeline.stats, bind_pure_comp] at hs
    obtain ⟨es, hes, rfl⟩ := outcome_map_eq_ok.mp hs
    exact ⟨es, tenant_of_listEvents h hp hes, rfl⟩
  | download ctx f format =>
    obtain ⟨text, htext, rfl⟩ := outcome_map_eq_ok.mp ha
    rw [exportEvents, bind_pure_comp] at htext
    obtain ⟨es, hes, rfl⟩ := outcome_map_eq_ok.mp htext
    exact ⟨format, es, tenant_of_listEvents h hp hes, rfl⟩
  | purge ctx policy now =>
    obtain ⟨n, -, rfl⟩ := outcome_map_eq_ok.mp ha
    trivial
  | apply m =>
    obtain ⟨_, -, rfl⟩ := outcome_map_eq_ok.mp ha
    trivial

namespace Pipeline

variable {tenant : TenantId} {p q : Pipeline}

def afterCalls (p : Pipeline) (calls : List Call) : Pipeline :=
  calls.foldl (fun p c => (outcome c.perform p).2) p

/-- What a tenant is answered when calls are made one after the other. -/
def answersTo (tenant : TenantId) : Pipeline → List Call → List (Except Failure Answer)
  | _, [] => []
  | p, c :: rest =>
    if c.tenant = some tenant then (outcome c.perform p).1 :: answersTo tenant (outcome c.perform p).2 rest
    else answersTo tenant (outcome c.perform p).2 rest

def callsOf (tenant : TenantId) (calls : List Call) : List Call :=
  calls.filter fun c => c.tenant = some tenant

/-- From pipelines that a tenant cannot tell apart, all calls give it the same as its own calls alone. -/
private theorem alike_afterCalls (h : Alike tenant p q) (calls : List Call) :
    answersTo tenant p calls = answersTo tenant q (callsOf tenant calls) ∧
      Alike tenant (p.afterCalls calls) (q.afterCalls (callsOf tenant calls)) := by
  induction calls generalizing p q with
  | nil => exact ⟨rfl, h⟩
  | cons c rest ih =>
    by_cases hc : c.tenant = some tenant
    · have hown : callsOf tenant (c :: rest) = c :: callsOf tenant rest := by simp [callsOf, hc]
      obtain ⟨hanswer, hafter⟩ := c.within.confined tenant hc p q h
      obtain ⟨hanswers, hend⟩ := ih hafter
      rw [hown, answersTo, answersTo, if_pos hc, if_pos hc, hanswer, hanswers]
      exact ⟨rfl, hend⟩
    · have hown : callsOf tenant (c :: rest) = callsOf tenant rest := by simp [callsOf, hc]
      obtain ⟨hanswers, hend⟩ := ih ((c.within.unseen tenant hc p h.left).symm.trans h)
      rw [hown, answersTo, if_neg hc, hanswers]
      exact ⟨rfl, hend⟩

private theorem madeOf_answersTo (h : Orderly p) (calls : List Call) {a : Answer}
    (ha : .ok a ∈ answersTo tenant p calls) : a.MadeOf fun e => e.tenant = tenant := by
  induction calls generalizing p with
  | nil => cases ha
  | cons c rest ih =>
    rw [answersTo] at ha
    split at ha
    · rename_i hc
      rcases List.mem_cons.mp ha with ha | ha
      · exact Call.madeOf_tenant hc h ha.symm
      · exact ih (c.within.confined tenant hc p p (.refl h)).2.left ha
    · rename_i hc
      exact ih (c.within.unseen tenant hc p h).right ha

/-- A tenant is answered as if no other tenant had made calls, its rows, documents and partitions are what
they would be then, and it is shown no event but its own. -/
theorem tenant_isolated (visibility : Nat) (tokens : Nat → String) (calls : List Call)
    (tenant : TenantId) :
    let p := Pipeline.new visibility tokens
    answersTo tenant p calls = answersTo tenant p (callsOf tenant calls) ∧
      (p.afterCalls calls).view tenant = (p.afterCalls (callsOf tenant calls)).view tenant ∧
      ∀ a, .ok a ∈ answersTo tenant p calls → a.MadeOf fun e => e.tenant = tenant := by
  intro p
  have horderly : Orderly p := ⟨rfl, List.Pairwise.nil⟩
  obtain ⟨hanswers, hend⟩ := alike_afterCalls (.refl horderly) calls
  exact ⟨hanswers, hend.view, fun a ha => madeOf_answersTo horderly calls ha⟩

end Pipeline

end AuditTrail

import AuditTrail.Pipeline.Queries
import AuditTrail.Proofs.Filter.Pages
import AuditTrail.Proofs.Pipeline.Writes
import Mathlib.Data.List.Permutation
/-!
# Listings of a pipeline

What is listed for a tenant and a filter are the events that the backend for the filter holds for the tenant and
that the filter admits. Its pages cover it, and they are the same for any order in which the events came.
-/

namespace AuditTrail

namespace Pipeline

variable {p : Pipeline} {ctx : Context} {tenant : TenantId}

/-- The events of a tenant that the backend for a filter holds. -/
def held (p : Pipeline) (tenant : TenantId) (f : Filter) : List Event :=
  match f.backend with
  | .recordStore => p.records.rows.ofTenant tenant
  | .searchIndex => p.index.documents.ofTenant tenant

private theorem held_eq_ofTenant (p : Pipeline) (tenant : TenantId) (f : Filter) :
    ∃ t : EventTable, p.held tenant f = t.ofTenant tenant := by
  unfold held
  split
  · exact ⟨p.records.rows, rfl⟩
  · exact ⟨p.index.documents, rfl⟩

theorem ids_held (p : Pipeline) (tenant : TenantId) (f : Filter) :
    ∀ a ∈ p.held tenant f, ∀ b ∈ p.held tenant f, a.id = b.id → a = b := by
  obtain ⟨t, ht⟩ := p.held_eq_ofTenant tenant f
  rw [ht]
  exact t.ids_ofTenant tenant

theorem nodup_held (p : Pipeline) (tenant : TenantId) (f : Filter) : (p.held tenant f).Nodup := by
  obtain ⟨t, ht⟩ := p.held_eq_ofTenant tenant f
  rw [ht]
  exact (t.nodup.of_map _).filter _

/-- An event that is stored and indexed is held by either backend. -/
theorem mem_held {e : Event} (hrow : p.records.rows.get? tenant e.id = some e)
    (hdocument : p.index.documents.get? tenant e.id = some e) (f : Filter) : e ∈ p.held tenant f := by
  have hmem {t : EventTable} (h : t.get? tenant e.id = some e) : e ∈ t.ofTenant tenant := by
    obtain ⟨he, hkey⟩ := EventTable.get?_eq_some_iff.mp h
    exact EventTable.mem_ofTenant.mpr ⟨he, congrArg Prod.fst hkey⟩
  unfold held
  split
  · exact hmem hrow
  · exact hmem hdocument

/-- What is listed under the identifier of an event that is held is that event, if the filter admits it. -/
theorem filter_id_listing {e : Event} {f : Filter} (he : e ∈ p.held tenant f) :
    ((f.listing (p.held tenant f)).filter fun d => decide (d.id = e.id)) = if f.admits e then [e] else [] := by
  have hnodup : (f.listing (p.held tenant f)).Nodup :=
    (List.mergeSort_perm _ _).nodup_iff.mpr ((p.nodup_held tenant f).filter _)
  have hmem (d : Event) : (d ∈ (f.listing (p.held tenant f)).filter fun d => decide (d.id = e.id)) ↔
      d = e ∧ f.admits e = true := by
    rw [List.mem_filter, Filter.mem_listing, decide_eq_true_eq]
    constructor
    · rintro ⟨⟨hd, hadmits⟩, hid⟩
      obtain rfl := p.ids_held tenant f d hd e he hid
      exact ⟨rfl, hadmits⟩
    · rintro ⟨rfl, hadmits⟩
      exact ⟨⟨he, hadmits⟩, rfl⟩
  split
  · rename_i hadmits
    apply List.perm_singleton.mp
    rw [List.perm_ext_iff_of_nodup (hnodup.filter _) (List.nodup_singleton e)]
    intro d
    rw [hmem, List.mem_singleton, and_iff_left hadmits]
  · rename_i hadmits
    exact List.eq_nil_iff_forall_not_mem.mpr fun d hd => hadmits ((hmem d).mp hd).2

/-- A listing is a page of what the backend for the filter holds. -/
theorem outcome_listEvents (hup : p.outages = .empty) (hctx : ctx.tenant = some tenant) (f : Filter) :
    (outcome (listEvents ctx f) p).1 = .ok (f.normalized.select (p.held tenant f)) := by
  have hbackend : f.normalized.backend = f.backend := rfl
  have hcounted (c : Counter) : { p with metrics := p.metrics.add c 1 }.outages = .empty := hup
  simp only [listEvents, Context.requireTenant_eq_ok.mpr hctx, outcome_bind, outcome_lift, proceed_ok, held,
    hbackend]
  cases f.backend with
  | recordStore =>
    simp [outcome_listRecords (hcounted _), RecordStore.list, Context.requireTenant_eq_ok.mpr hctx]
  | searchIndex =>
    simp [outcome_searchDocuments (hcounted _), SearchIndex.search, Context.requireTenant_eq_ok.mpr hctx]

/-- The pages that are listed for a filter cover the events that it admits, each once and the newest first, and
do not depend on the order in which the events came. The events are no more than 64 bits count, which holds for
all that fit into a memory. -/
theorem listEvents_pages (hctx : ctx.tenant = some tenant) (f : Filter)
    (hfits : ((p.held tenant f).length : Int) ≤ maxInt 64) :
    ∃ page : Int → List Event,
      (∀ number q, q.outages = .empty → (q.held tenant f).Perm (p.held tenant f) →
        (outcome (listEvents ctx (f.onPage number)) q).1 = .ok (page number)) ∧
      Pages f.size (f.listing (p.held tenant f)) page ∧
      ((f.listing (p.held tenant f)).Pairwise fun a b =>
        b.timestamp < a.timestamp ∨ (a.timestamp = b.timestamp ∧ a.id < b.id)) ∧
      (f.listing (p.held tenant f)).Nodup ∧
      (∀ e, e ∈ f.listing (p.held tenant f) ↔ e ∈ p.held tenant f ∧ f.admits e = true) ∧
      (1 ≤ f.size ∧ f.size ≤ 1000) ∧ f.normalized.window = f.window := by
  obtain ⟨t, ht⟩ := p.held_eq_ofTenant tenant f
  have hids : ∀ a ∈ p.held tenant f, ∀ b ∈ p.held tenant f, a.id = b.id → a = b := by
    rw [ht]
    exact t.ids_ofTenant tenant
  have hnodup : (p.held tenant f).Nodup := by
    rw [ht]
    exact (t.nodup.of_map _).filter _
  refine ⟨fun number => (f.onPage number).normalized.select (p.held tenant f),
    ?_, f.pages_select hfits, ?_, ?_, fun _ => Filter.mem_listing, f.size_bounds,
    PageWindow.normalize_normalize f.page f.pageSize⟩
  · intro number q hq hperm
    rw [outcome_listEvents hq hctx]
    exact congrArg Except.ok ((f.onPage number).normalized.select_eq_of_perm hperm.symm hids).symm
  · exact Event.pairwise_newestFirst (hnodup.filter _) fun a ha b hb =>
      hids a (List.mem_filter.mp ha).1 b (List.mem_filter.mp hb).1
  · exact (List.mergeSort_perm _ _).nodup_iff.mpr (hnodup.filter _)

/-- Two sign-ins at one instant, the second one recorded first. -/
def twoSignIns : Pipeline :=
  { Pipeline.new 30000 toString with records := ⟨(EventTable.empty.put (.signIn "b")).put (.signIn "a"), true⟩ }

/-- On pages of one entry they are listed by their identifiers. -/
theorem twoSignIns_on_pages :
    let ctx := Context.ofTenant .acme ""
    let f := Filter.all 1 1
    ((twoSignIns.held .acme f).length : Int) ≤ maxInt 64 ∧
      (outcome (listEvents ctx (f.onPage 1)) twoSignIns).1 = .ok [.signIn "a"] ∧
      (outcome (listEvents ctx (f.onPage 2)) twoSignIns).1 = .ok [.signIn "b"] ∧
      (outcome (listEvents ctx (f.onPage 9223372036854775807)) twoSignIns).1 = .ok [] := by
  intro ctx f
  have hfits : ((twoSignIns.held .acme f).length : Int) ≤ maxInt 64 := by decide +kernel
  have hctx : ctx.tenant = some .acme := rfl
  obtain ⟨page, hpage, hpages, -⟩ := listEvents_pages hctx f hfits
  have hlisting : f.listing (twoSignIns.held .acme f) = [.signIn "a", .signIn "b"] := by cbv
  have hsize : f.size = 1 := rfl
  rw [hlisting, hsize] at hpages
  have hlisted (number : Int) : (outcome (listEvents ctx (f.onPage number)) twoSignIns).1 = .ok (page number) :=
    hpage number twoSignIns rfl (.refl _)
  have hall : page 1 ++ page 2 = [.signIn "a"] ++ [.signIn "b"] := by
    simpa [List.range_succ] using hpages.all 2 (by decide)
  have hfirst := hpages.room 1
  have hsecond := hpages.room 2
  have hlast : page 9223372036854775807 = [] := hpages.past 9223372036854775806 (by decide)
  have hone : (page 1).length = 1 := by
    have hlength := congrArg List.length hall
    simp only [List.length_append, List.length_singleton] at hlength
    omega
  obtain ⟨hpage₁, hpage₂⟩ := List.append_inj hall hone
  rw [hlisted, hlisted, hlisted, hpage₁, hpage₂, hlast]
  exact ⟨hfits, rfl, rfl, rfl⟩

end Pipeline

end AuditTrail

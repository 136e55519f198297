import AuditTrail.Proofs.Pipeline.Listings
import AuditTrail.Proofs.Stats.Tally
/-!
# Statistics of a pipeline

Statistics are made of one large page, the first one, whatever page the filter asks for. So they count the newest
of the events that the filter admits.
-/

namespace AuditTrail

/-- Each of the three tallies says how often its values occur among some events, and its counts add up to the
number of the events. -/
structure Stats.Counts (s : Stats) (events : List Event) : Prop where
  total : s.total = events.length
  actions : s.byAction.Counts (events.map Event.action)
  severities : s.bySeverity.Counts (events.map (·.severity.word))
  resourceTypes : s.byResourceType.Counts (events.map Event.resourceType)
  sums : s.byAction.sum = s.total ∧ s.bySeverity.sum = s.total ∧ s.byResourceType.sum = s.total

private theorem Stats.counts_ofEvents (events : List Event) : (Stats.ofEvents events).Counts events where
  total := rfl
  actions := Tally.counts_ofNames _
  severities := Tally.counts_ofNames _
  resourceTypes := Tally.counts_ofNames _
  sums := by
    have hsum (value : Event → String) : (Tally.ofNames (events.map value)).sum = events.length := by
      rw [(Tally.counts_ofNames _).sum_eq, List.length_map]
    exact ⟨hsum _, hsum _, hsum _⟩

private theorem Filter.select_sample (f : Filter) (events : List Event) :
    ({ f with page := 1, pageSize := Pipeline.statsSample } : Filter).normalized.select events =
      (f.listing events).take 1000 := rfl

namespace Pipeline

variable {p : Pipeline} {ctx : Context} {tenant : TenantId}

private theorem outcome_stats (hup : p.outages = .empty) (hctx : ctx.tenant = some tenant) (f : Filter) :
    (outcome (stats ctx f) p).1 = .ok (.ofEvents ((f.listing (p.held tenant f)).take 1000)) := by
  have hpage := outcome_listEvents hup hctx { f with page := 1, pageSize := statsSample }
  have hheld : p.held tenant { f with page := 1, pageSize := statsSample } = p.held tenant f := rfl
  rw [hheld, Filter.select_sample] at hpage
  rw [stats, outcome_bind]
  generalize outcome (listEvents ctx { f with page := 1, pageSize := statsSample }) p = answer at hpage ⊢
  obtain ⟨result, q⟩ := answer
  obtain rfl : result = _ := hpage
  rfl

/-- Statistics count the newest thousand of the events that the backend for the filter holds for the tenant and
that the filter admits, or all of them when they are fewer, and the page of the filter does not matter. -/
theorem stats_count_newest (hup : p.outages = .empty) (hctx : ctx.tenant = some tenant) (f : Filter) :
    let matching := (p.held tenant f).filter f.admits
    ∃ listing : List Event, listing.Perm matching ∧
      (listing.Pairwise fun a b => b.timestamp < a.timestamp ∨ (a.timestamp = b.timestamp ∧ a.id < b.id)) ∧
      ∃ s : Stats,
        (∀ page pageSize, (outcome (stats ctx { f with page := page, pageSize := pageSize }) p).1 = .ok s) ∧
        s.total = min 1000 matching.length ∧ s.Counts (listing.take 1000) := by
  intro matching
  have hperm : (f.listing (p.held tenant f)).Perm matching := List.mergeSort_perm _ _
  refine ⟨f.listing (p.held tenant f), hperm, ?_, .ofEvents ((f.listing (p.held tenant f)).take 1000), ?_, ?_,
    Stats.counts_ofEvents _⟩
  · exact Event.pairwise_newestFirst ((p.nodup_held tenant f).filter _) fun a ha b hb =>
      p.ids_held tenant f a (List.mem_filter.mp ha).1 b (List.mem_filter.mp hb).1
  · intro page pageSize
    exact outcome_stats hup hctx { f with page := page, pageSize := pageSize }
  · rw [(Stats.counts_ofEvents _).total, List.length_take, hperm.length_eq]

/-- The index of a pipeline holds a sign-in and a sign-out, and its records one more sign-in. -/
def signedOut : Pipeline :=
  let found := (EventTable.empty.put (.signIn "a")).put { Event.signIn "b" with action := "logout" }
  let index := SearchIndex.empty.createPartition .acme .epoch
  { Pipeline.new 30000 toString with
    records := ⟨found.put (.signIn "c"), true⟩, index := { index with documents := found } }

/-- Statistics about a severity are made of what the index holds, also on a page that there is not. -/
theorem signedOut_counted :
    let ctx := Context.ofTenant .acme ""
    let f := { Filter.all 1 1 with severity := some .info }
    signedOut.outages = .empty ∧ ctx.tenant = some .acme ∧
      ∃ s : Stats, (outcome (stats ctx { f with page := 7, pageSize := -3 }) signedOut).1 = .ok s ∧
        s.total = 2 ∧ ("login", 1) ∈ s.byAction ∧ ("logout", 1) ∈ s.byAction ∧ ("info", 2) ∈ s.bySeverity ∧
        s.byAction.sum = 2 := by
  intro ctx f
  have hup : signedOut.outages = .empty := rfl
  have hctx : ctx.tenant = some .acme := rfl
  obtain ⟨listing, hperm, -, s, hs, htotal, hcounts⟩ := stats_count_newest hup hctx f
  have hmatching : (signedOut.held .acme f).filter f.admits =
      [.signIn "a", { Event.signIn "b" with action := "logout" }] := by cbv
  rw [hmatching] at hperm htotal
  have hall : listing.take 1000 = listing := List.take_of_length_le (by simp [hperm.length_eq])
  rw [hall] at hcounts
  have hcount (value : Event → String) (name : String) :
      (listing.map value).count name =
        ([Event.signIn "a", { Event.signIn "b" with action := "logout" }].map value).count name :=
    (hperm.map value).count_eq name
  refine ⟨hup, hctx, s, hs 7 (-3), htotal, ?_, ?_, ?_, hcounts.sums.1.trans htotal⟩
  · exact (hcounts.actions.mem_iff _ _).mpr ⟨by decide, by rw [hcount]; decide⟩
  · exact (hcounts.actions.mem_iff _ _).mpr ⟨by decide, by rw [hcount]; decide⟩
  · exact (hcounts.severities.mem_iff _ _).mpr ⟨by decide, by rw [hcount]; decide⟩

end Pipeline

end AuditTrail

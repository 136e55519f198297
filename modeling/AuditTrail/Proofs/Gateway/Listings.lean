import AuditTrail.Proofs.Filter.Exact
import AuditTrail.Proofs.Gateway.Remembering
import AuditTrail.Proofs.Http.Query
import AuditTrail.Proofs.Pipeline.Listings
/-!
# Pages that a tenant asks for

A tenant who presents its key and asks for a page of the events with some value of a field is answered with that
page of the listing, or that there were too many requests. Asking changes nothing that is stored, so whatever
pages are asked for one after the other are pages of one listing.
-/

namespace AuditTrail

namespace Gateway

open Http Pipeline

/-! ## Tenants who are recognized -/

/-- A gateway finds a key to be of a tenant. -/
structure Recognizes (g : Gateway) (key : ApiKey) (t : Tenant) : Prop where
  faithful : g.Faithful
  up : g.pipeline.outages = .empty
  registered : g.pipeline.registry.ofKey? key.text = some t

variable {g h : Gateway} {key : ApiKey} {t : Tenant} {m : Moment} {r : Request}

theorem Recognizes.kept (hg : Recognizes g key t) (hk : Kept g h) : Recognizes h key t where
  faithful := hk.faithful hg.faithful
  up := hk.stores.outages hg.up
  registered := by rw [hk.stores.registry]; exact hg.registered

/-- Tenants are limited, and this one has asked too often. -/
def Limits (limit : RateLimit) (refusal : Refusal) : Prop :=
  limit.enabled = true ∧ ∃ seconds, refusal = .busy seconds

private theorem limits_of_check {l : RateLimiter} {name : String} {elapsed seconds : Nat}
    (h : (l.check name elapsed).1 = .error seconds) : Limits l.limit (.busy seconds) := by
  refine ⟨?_, seconds, rfl⟩
  by_contra hdisabled
  rw [RateLimiter.check, if_pos (by simpa using hdisabled)] at h
  cases h

private theorem ends_authenticate_recognized (hg : Recognizes g key t) (m : Moment) (hkey : Presents r key.text) :
    Ends (authenticate m r) g (fun ctx h => ctx = .ofTenant t.id (requestId m r) ∧ Kept g h)
      fun refusal _ => Limits g.limiter.limit refusal := by
  have hcaller : Ends (authenticate m r) g (fun ctx _ => g.caller m r = .ok ctx)
      fun refusal _ => g.caller m r = .error refusal := by
    unfold Ends caller
    rcases ((authenticate m r).run.run g : Except Refusal Context × Gateway) with ⟨refusal | ctx, h⟩
    · rfl
    · rfl
  rw [caller_eq_verdict hg.faithful hg.up m hkey, verdict, hg.registered] at hcaller
  refine (hcaller.and (ends_authenticate m r g)).mono ?_ ?_
  · rintro ctx h ⟨hctx, hh, -⟩
    dsimp only at hctx
    split at hctx
    · cases hctx
      exact ⟨rfl, hh⟩
    · cases hctx
  · rintro refusal h ⟨hrefusal, -⟩
    dsimp only at hrefusal
    split at hrefusal
    · cases hrefusal
    · rename_i seconds hcheck
      cases hrefusal
      exact limits_of_check hcheck

/-! ## One page -/

def pageAnswer (events : List Event) : Http.Answer := .json 200 (.array (events.map Event.toJson))

private theorem ends_getEvents_recognized (hg : Recognizes g key t) (m : Moment) (hkey : Presents r key.text)
    {f : Filter}
    (hread : readFilter r = pure f) :
    Ends (getEvents m r) g (fun a _ => a = pageAnswer (f.normalized.select (g.pipeline.held t.id f)))
      fun refusal _ => Limits g.limiter.limit refusal := by
  refine (ends_authenticate_recognized hg m hkey).bind ?_ fun _ _ h => h
  rintro _ h ⟨rfl, hh⟩
  rw [hread, pure_bind]
  have hheld : h.pipeline.held t.id f = g.pipeline.held t.id f := by
    rw [held, held, hh.stores.records, hh.stores.index]
  have hlisted := outcome_listEvents (hh.stores.outages hg.up)
    (rfl : (Context.ofTenant t.id (requestId m r)).tenant = _) f
  rw [hheld] at hlisted
  have hlist : Ends (listEvents (.ofTenant t.id (requestId m r)) f) h.pipeline
      (fun events _ => events = f.normalized.select (g.pipeline.held t.id f)) fun _ _ => False :=
    ends_of_ok (Prod.ext hlisted rfl) rfl
  refine (ends_performed hlist).bind ?_ ?_
  · rintro _ _ ⟨p, rfl, rfl⟩
    exact .pure rfl
  · rintro _ _ ⟨_, _, hfalse⟩
    exact hfalse.elim

/-- A tenant asks for a page of the events with a value of a field. Pages are counted from one. -/
structure AsksFor (x : ExactField) (value : String) (pageSize : Option Int) (key : String) (number : Nat)
    (r : Request) : Prop where
  method : r.method = .get
  target : r.target = "/api/v1/logs" ++ "?" ++ encodeQuery (x.parameters value pageSize (number + 1))
  presents : Presents r key

/-- A request is answered with some events, or that there were too many requests. -/
def Shows (limit : RateLimit) (events : List Event) (answer : Option Http.Answer) : Prop :=
  answer = some (pageAnswer events) ∨ ∃ refusal, answer = refusal.toAnswer? ∧ Limits limit refusal

variable {x : ExactField} {value : String} {pageSize : Option Int} {number : Nat}

/-- The pages of the events that a tenant has with a value of a field, counted from zero. -/
def valuePage (g : Gateway) (tenant : TenantId) (x : ExactField) (value : String) (pageSize : Option Int)
    (number : Nat) : List Event :=
  let f := x.search value pageSize
  (f.onPage (number + 1)).normalized.select (g.pipeline.held tenant f)

private theorem shows_page (hg : Recognizes g key t) (hsize : ∀ n ∈ pageSize, minInt 64 ≤ n ∧ n ≤ maxInt 64)
    (hnumber : (number : Int) < maxInt 64) (hr : AsksFor x value pageSize key.text number r) (m : Moment) :
    Shows g.limiter.limit (g.valuePage t.id x value pageSize number) (served m r g).1 ∧
      Kept g (served m r g).2 := by
  have hpath : ∀ c ∈ "/api/v1/logs".toList, c ≠ '#' ∧ c ≠ '?' := by simp
  obtain ⟨hsegments, hquery⟩ := parts_of_encoded hr.target hpath
  have hroute : Route.ofSegments? r.segments = some .events := by
    rw [hsegments]
    decide +kernel
  have hserve : serveRoute m r .events = getEvents m r := by
    rw [serveRoute_of_mem (by rw [hr.method]; decide), hr.method]
    rfl
  have hleast : minInt 64 ≤ 0 := by decide
  have hread := ExactField.readFilter_parameters hquery ⟨by omega, by omega⟩ hsize
  have hends := ends_getEvents_recognized hg m hr.presents hread
  constructor
  · rcases served_of_ends (by rw [hr.method]; decide) hroute (hserve ▸ hends) with
      ⟨a, ha, rfl⟩ | ⟨refusal, ha, hlimits⟩
    · exact .inl ha
    · exact .inr ⟨refusal, ha, hlimits⟩
  · rcases served_cases m r g with hkept | ⟨hchanging, -⟩
    · exact hkept
    · rw [hr.method] at hchanging
      exact absurd hchanging (by decide)

/-! ## All pages -/

/-- The answers to requests for pages that are served one after the other. -/
def pageAnswers (ask : Nat → Request) : List (Moment × Nat) → Gateway → List (Option Http.Answer)
  | [], _ => []
  | (m, number) :: rest, g => (served m (ask number) g).1 :: pageAnswers ask rest (served m (ask number) g).2

private theorem Kept.valuePage_eq (hk : Kept g h) (tenant : TenantId) (x : ExactField) (value : String)
    (pageSize : Option Int) : h.valuePage tenant x value pageSize = g.valuePage tenant x value pageSize := by
  funext number
  simp only [valuePage, held, hk.stores.records, hk.stores.index]

/-- Whichever pages are asked for one after the other are pages of one listing. -/
theorem shows_pages (hg : Recognizes g key t) (hsize : ∀ n ∈ pageSize, minInt 64 ≤ n ∧ n ≤ maxInt 64)
    {ask : Nat → Request} (hask : ∀ number, AsksFor x value pageSize key.text number (ask number))
    (calls : List (Moment × Nat)) (hcalls : ∀ c ∈ calls, (c.2 : Int) < maxInt 64) :
    List.Forall₂ (fun c answer => Shows g.limiter.limit (g.valuePage t.id x value pageSize c.2) answer) calls
      (pageAnswers ask calls g) := by
  induction calls generalizing g with
  | nil => exact .nil
  | cons c rest ih =>
    obtain ⟨m, number⟩ := c
    obtain ⟨hnumber, hrest⟩ := List.forall_mem_cons.mp hcalls
    obtain ⟨hshown, hkept⟩ := shows_page hg hsize hnumber (hask number) m
    have hothers := ih (hg.kept hkept) hrest
    rw [hkept.limit, hkept.valuePage_eq] at hothers
    exact .cons hshown hothers

theorem answers_of_unlimited {limit : RateLimit} (hlimit : limit.enabled = false) {page : Nat → List Event}
    {calls : List (Moment × Nat)} {answers : List (Option Http.Answer)}
    (h : List.Forall₂ (fun c answer => Shows limit (page c.2) answer) calls answers) :
    answers = calls.map fun c => some (pageAnswer (page c.2)) := by
  induction h with
  | nil => rfl
  | cons hshown _ ih =>
    rcases hshown with rfl | ⟨_, _, henabled, -⟩
    · rw [ih, List.map_cons]
    · rw [hlimit] at henabled
      cases henabled

end Gateway

end AuditTrail

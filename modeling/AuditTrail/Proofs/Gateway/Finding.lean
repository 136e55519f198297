import AuditTrail.Proofs.Gateway.Listings
import AuditTrail.Proofs.Gateway.ReadBack
import AuditTrail.Proofs.Worker.Projected
/-!
# Finding an event by its own fields

An event that a tenant has written, and that a worker has put into the index, is listed when its tenant asks for
the value of one of its fields. It is on one of the pages, and only once, if the value has no blanks at its ends,
or nothing but blanks: a request that names the value does so without these blanks, and the event keeps them.
-/

namespace AuditTrail

open Http Pipeline

/-! ## Indexing -/

private theorem Event.sound_of_plain {e : Event} (h : e.blobs = []) : e.SoundBlobs ∧ e.nesting = 0 := by
  simp only [blobs, List.append_eq_nil_iff, Option.toList_eq_nil_iff] at h
  obtain ⟨⟨hbefore, hafter⟩, hmetadata⟩ := h
  exact ⟨⟨by simp [hbefore], by simp [hafter], by simp [hmetadata]⟩, by
    simp [nesting, hbefore, hafter, hmetadata, Json.blobNesting]⟩

private theorem Message.decode_index {e : Event} (h : e.blobs = []) (now : Instant) :
    decode (index e now).encode = .ok (index e now) := by
  obtain ⟨hsound, hnesting⟩ := Event.sound_of_plain h
  have hsound : (index e now).SoundBlobs := by
    intro d hd
    rw [List.mem_singleton.mp hd]
    exact hsound
  have hwithin : Event.NestWithin maxBlobDepth (index e now).events := by
    intro d hd
    rw [List.mem_singleton.mp hd, hnesting]
    exact Nat.zero_le _
  have hcheck : (index e now).check = .ok (index e now) :=
    check_iff_sound.mpr ⟨fun _ => ⟨e, rfl⟩, by simp [index], by simp [index], by simp [index]⟩
  rw [decode_encode hsound, if_pos hwithin, hcheck]

/-- A worker that applies a message puts an event into the index, and leaves rows and tenants as they are. -/
def Message.Indexes (m : Message) (e : Event) : Prop :=
  decode m.encode = .ok m ∧ ∀ p : Pipeline, p.outages = .empty →
    ∃ q, outcome (applyMessage m) p = (.ok (), q) ∧ q.index.documents = p.index.documents.put e ∧
      q.records = p.records ∧ q.registry = p.registry ∧ q.outages = .empty

private theorem Message.indexes_index {e : Event} (h : e.blobs = []) (now : Instant) : (index e now).Indexes e := by
  refine ⟨decode_index h now, fun p hup => ?_⟩
  refine ⟨_, outcome_applyMessage hup (check_of_decode (decode_index h now)), ?_, rfl, rfl, hup⟩
  change p.index.documents.absorb (index e now) = _
  rw [EventTable.absorb_of_ne_delete (by simp [index])]
  rfl

namespace Gateway

variable {g h : Gateway} {t : Tenant} {m : Moment} {r : Request} {e : Event}

/-! ## Pages -/

/-- An event is stored and indexed, its tenant is registered under its key, and 64 bits count all events. -/
structure Holds (g : Gateway) (t : Tenant) (e : Event) : Prop where
  registered : ∃ u ∈ g.pipeline.registry.tenants, u.id = t.id ∧ u.apiKey = t.apiKey
  row : g.pipeline.records.rows.get? t.id e.id = some e
  document : g.pipeline.index.documents.get? t.id e.id = some e
  rowsFit : (g.pipeline.records.rows.events.length : Int) < maxInt 64
  documentsFit : (g.pipeline.index.documents.events.length : Int) < maxInt 64

private theorem Holds.of_put {p : Pipeline} (ht : t ∈ g.pipeline.registry.tenants) (htenant : e.tenant = t.id)
    (hrow : g.pipeline.records.rows.get? t.id e.id = some e)
    (hrows : (g.pipeline.records.rows.events.length : Int) < maxInt 64)
    (hdocuments : (g.pipeline.index.documents.events.length : Int) + 1 < maxInt 64)
    (hput : p.index.documents = g.pipeline.index.documents.put e) (hrecords : p.records = g.pipeline.records)
    (hregistry : p.registry = g.pipeline.registry) : Holds { g with pipeline := p } t e where
  registered := ⟨t, hregistry ▸ ht, rfl, rfl⟩
  row := hrecords ▸ hrow
  document := by
    rw [← htenant, hput]
    exact (EventTable.get?_put _ e e.tenant e.id).trans (if_pos rfl)
  rowsFit := hrecords ▸ hrows
  documentsFit := by
    have hlength := g.pipeline.index.documents.length_put e
    rw [hput]
    omega

private theorem Holds.length_held_lt (h : Holds g t e) (f : Filter) :
    ((g.pipeline.held t.id f).length : Int) < maxInt 64 := by
  have hle (table : EventTable) : (table.ofTenant t.id).length ≤ table.events.length := List.length_filter_le _ _
  have hrows := h.rowsFit
  have hdocuments := h.documentsFit
  unfold held
  split
  · have := hle g.pipeline.records.rows
    omega
  · have := hle g.pipeline.index.documents
    omega

variable {x : ExactField} {value : String} {pageSize : Option Int}

private theorem Holds.last_page (h : Holds g t e) (x : ExactField) (value : String) (pageSize : Option Int) :
    ∃ n : Nat, (n : Int) < maxInt 64 ∧
      (g.valuePage t.id x value pageSize n).length < (x.search value pageSize).size := by
  let f := x.search value pageSize
  have hfits := h.length_held_lt f
  have hpages := f.pages_select (Int.le_of_lt hfits)
  have hlength := f.length_listing_le (g.pipeline.held t.id f)
  have hempty := hpages.past (f.listing (g.pipeline.held t.id f)).length
    (Nat.le_mul_of_pos_right _ f.size_bounds.1)
  refine ⟨(f.listing (g.pipeline.held t.id f)).length, by omega, ?_⟩
  rw [valuePage, hempty, List.length_nil]
  exact f.size_bounds.1

/-- On the pages up to one that is not full an event is found once or not at all: once if the value is blank, or
is that of the field of the event when it has lost the blanks at its ends. -/
theorem Holds.found (h : Holds g t e) {n : Nat}
    (hlast : (g.valuePage t.id x value pageSize n).length < (x.search value pageSize).size) :
    (((List.range (n + 1)).flatMap (g.valuePage t.id x value pageSize)).filter fun d => decide (d.id = e.id)) =
      if Text.blank value = true ∨ Text.trim value = x.value e then [e] else [] := by
  let f := x.search value pageSize
  have hpages := f.pages_select (Int.le_of_lt (h.length_held_lt f))
  have hall := hpages.all_of_last f.size_bounds.1 hlast
  have hlisted : (List.range (n + 1)).flatMap (g.valuePage t.id x value pageSize) =
      f.listing (g.pipeline.held t.id f) := hall
  rw [hlisted, filter_id_listing (mem_held h.row h.document f)]
  exact if_congr (x.admits_search value pageSize e) rfl rfl

/-! ## Writing and finding -/

theorem InService.limit_eq {auth : AuthSettings} {limit : RateLimit} (hg : InService auth limit g) :
    g.limiter.limit = limit := by
  induction hg with
  | new p hup => rfl
  | serve before m r ih => exact (sameRules_served m r _).limit.trans ih
  | evict before keep ih => exact ih
  | tidy before maxAge elapsed ih => exact ih
  | behind before p hregistry hup ih => exact ih

private theorem stored_of_created (hfaithful : g.Faithful) (hup : g.pipeline.outages = .empty)
    (hmethod : r.method = .post)
    (hpath : r.segments = ["", "api", "v1", "logs"]) (hcreated : (served m r g).1.map Http.Answer.status = some 201) :
    ∃ (key : ApiKey) (t : Tenant) (e : Event) (a : Http.Answer), t.apiKey = key.text ∧ Presents r t.apiKey ∧
      g.pipeline.registry.get? t.id = some t ∧ (served m r g).1 = some a ∧
        Stored t m r e a g (served m r g).2 := by
  rcases served_of_postEvent hmethod hpath (ends_postEvent_stored hup m r) with
    ⟨a, ha, key, t, e, hkey, hknows, -, hstored⟩ | ⟨refusal, hrefused, -⟩
  · obtain ⟨hmem, htext⟩ := Registry.ofKey?_eq_some.mp (hfaithful key.text t hknows)
    have hpresents := presents_of_extract hkey
    rw [← htext] at hpresents
    exact ⟨key, t, e, a, htext, hpresents, Registry.get?_eq_some.mpr ⟨hmem, rfl⟩, ha, hstored⟩
  · rw [hrefused] at hcreated
    obtain ⟨a, ha, hstatus⟩ := Option.map_eq_some_iff.mp hcreated
    have herror := status_of_toAnswer? ha
    omega

/-- An event that a tenant has written is stored with all that the request says, and the message about it is
published; if it has no structured values, a worker that applies the message puts the event into the index. As long
as the event is stored and indexed and the tenant is registered under its key, the tenant may ask for the value of
any of the fields of the event. All pages, which are shown unless there are too many requests, have the event just
once if the value has no blanks at its ends, or nothing but blanks, and else do not have it. -/
theorem InService.found_by_own_field {auth : AuthSettings} {limit : RateLimit} (hg : InService auth limit g)
    (hmethod : r.method = .post) (hpath : r.segments = ["", "api", "v1", "logs"])
    (hcreated : (served m r g).1.map Http.Answer.status = some 201) :
    ∃ (t : Tenant) (q : NewEvent) (e : Event),
      g.pipeline.registry.get? t.id = some t ∧ Presents r t.apiKey ∧
        NewEvent.read.ofBytes r.body.bytes = some q ∧ e.Restates q ∧ e.tenant = t.id ∧
        (served m r g).1 = some (receiptAnswer 201 ⟨[e.id], .ok⟩) ∧
        (served m r g).2.pipeline.records.rows.get? t.id e.id = some e ∧
        (served m r g).2.pipeline.queue = g.pipeline.queue.send (.index e m.now) ∧
        (e.blobs = [] → (Message.index e m.now).Indexes e) ∧
        ∀ h, InService auth limit h → Holds h t e →
          ∀ (x : ExactField) (pageSize : Option Int) (ask : Nat → Request),
            (∀ n ∈ pageSize, minInt 64 ≤ n ∧ n ≤ maxInt 64) →
            (∀ number, AsksFor x (x.value e) pageSize t.apiKey number (ask number)) →
            ∃ page : Nat → List Event,
              (∀ calls : List (Moment × Nat), (∀ c ∈ calls, (c.2 : Int) < maxInt 64) →
                List.Forall₂ (fun c answer => Shows limit (page c.2) answer) calls (pageAnswers ask calls h)) ∧
              (∃ n : Nat, (n : Int) < maxInt 64 ∧
                (page n).length < (x.search (x.value e) pageSize).size) ∧
              ∀ n, (page n).length < (x.search (x.value e) pageSize).size →
                (((List.range (n + 1)).flatMap page).filter fun d => decide (d.id = e.id)) =
                  if Text.blank (x.value e) = true ∨ Text.trim (x.value e) = x.value e then [e] else [] := by
  obtain ⟨key, t, e, a, hkey, hpresents, ht, ha, hstored⟩ :=
    stored_of_created hg.faithful hg.up hmethod hpath hcreated
  obtain ⟨q, hread, haccept⟩ := hstored.accepted
  refine ⟨t, q, e, ht, hpresents, hread, NewEvent.restates_of_accept haccept, (NewEvent.accept_eq_ok haccept).1,
    by rw [ha, hstored.answer], hstored.row, hstored.published,
    fun hplain => Message.indexes_index hplain m.now, ?_⟩
  intro h hh hholds x pageSize ask hsize hask
  obtain ⟨u, hu, huid, hukey⟩ := hholds.registered
  have hrecognizes : Recognizes h key u :=
    ⟨hh.faithful, hh.up, Registry.ofKey?_eq_some.mpr ⟨hu, hukey.trans hkey⟩⟩
  refine ⟨h.valuePage t.id x (x.value e) pageSize, fun calls hcalls => ?_, hholds.last_page x _ pageSize,
    fun n hlast => hholds.found hlast⟩
  have hshown := shows_pages hrecognizes hsize (fun number => hkey ▸ hask number) calls hcalls
  rw [hh.limit_eq, huid] at hshown
  exact hshown

/-- The name of the user has a blank before it. -/
def spacedSignIn : NewEvent := { NewEvent.signIn "e1" with userId := " alice" }

def spacedWritten : Request :=
  ⟨.post, "/api/v1/logs", [("X-API-Key", Tenant.acme.apiKey)], spacedSignIn.toJson.compact⟩

/-- The tenant asks for a page of the usual size. -/
def valueAsked (x : ExactField) (value : String) (number : Nat) : Request :=
  ⟨.get, "/api/v1/logs" ++ "?" ++ encodeQuery (x.parameters value none (number + 1)),
    [("X-API-Key", Tenant.acme.apiKey)], ""⟩

private theorem read_spacedWritten : NewEvent.read.ofBytes spacedWritten.body.bytes = some spacedSignIn := by
  have hwords : spacedSignIn.toJson.numbersAll Json.Number.isWord = true := by decide
  exact Json.Reader.ofBytes_compact hwords

private theorem spacedWritten_created :
    (served .first spacedWritten (ofAcme ⟨false, 100, 10⟩)).1 = some (receiptAnswer 201 ⟨["e1"], .ok⟩) ∧
      (served .first spacedWritten (ofAcme ⟨false, 100, 10⟩)).2.pipeline.records =
        ⟨EventTable.empty.put { Event.signIn "e1" with userId := " alice" }, true⟩ ∧
      (served .first spacedWritten (ofAcme ⟨false, 100, 10⟩)).2.pipeline.registry =
        (ofAcme ⟨false, 100, 10⟩).pipeline.registry ∧
      (served .first spacedWritten (ofAcme ⟨false, 100, 10⟩)).2.pipeline.index =
        (ofAcme ⟨false, 100, 10⟩).pipeline.index := by
  have hletsIn : LetsIn (ofAcme ⟨false, 100, 10⟩) ⟨Tenant.acme.apiKey, by decide⟩ .acme :=
    ⟨.new _ _ _, rfl, rfl, rfl⟩
  have hsigned : (Write.create (.ofTenant .acme (requestId .first spacedWritten)) spacedSignIn
      Moment.first.now (Moment.first.fresh 1)).effect (ofAcme ⟨false, 100, 10⟩).pipeline.records =
      .ok ⟨⟨EventTable.empty.put { Event.signIn "e1" with userId := " alice" }, true⟩,
        .index { Event.signIn "e1" with userId := " alice" } .epoch, ["e1"]⟩ := by
    rfl
  have hsize : spacedWritten.body.bytes.length ≤ maxContent := by
    rw [spacedWritten, Text.length_bytes, Json.compact, String.utf8ByteSize_ofList]
    decide +kernel
  exact created_effect hletsIn rfl (by decide +kernel) (presents_acme rfl) hsize read_spacedWritten hsigned

/-- When a worker has applied the message about it, the event is found by its action, but not by the name of its
user. -/
theorem spaced_not_found :
    ∃ written, served .first spacedWritten (ofAcme ⟨false, 100, 10⟩) = written ∧
      written.1 = some (receiptAnswer 201 ⟨["e1"], .ok⟩) ∧
      ∃ e : Event, e.id = "e1" ∧ e.userId = " alice" ∧ e.action = "login" ∧
        ∃ p, outcome (applyMessage (.index e .epoch)) written.2.pipeline = (.ok (), p) ∧
          ∀ x ∈ [ExactField.userId, .action], ∃ (page : Nat → List Event) (n : Nat),
            pageAnswers (valueAsked x (x.value e)) ((List.range (n + 1)).map (Moment.first, ·))
                { written.2 with pipeline := p } =
              (List.range (n + 1)).map (fun number => some (pageAnswer (page number))) ∧
            (page n).length < 10 ∧
            (((List.range (n + 1)).flatMap page).filter fun d => decide (d.id = e.id)) =
              match x with
              | .action => [e]
              | _ => [] := by
  have hg : InService { adminKey := some "sesame" } ⟨false, 100, 10⟩ (ofAcme ⟨false, 100, 10⟩) := .new _ rfl
  obtain ⟨hcreated, hwrittenRecords, hwrittenRegistry, hwrittenIndex⟩ := spacedWritten_created
  have hstatus : (served .first spacedWritten (ofAcme ⟨false, 100, 10⟩)).1.map Http.Answer.status = some 201 := by
    rw [hcreated]
    rfl
  have hwritten := hg.serve .first spacedWritten
  obtain ⟨t, q, e, ht, -, hread, hrestates, htenant, -, hrow, -, hindexes, hfound⟩ :=
    hg.found_by_own_field rfl (by decide +kernel) hstatus
  -- From here on the gateway is what these facts say of it.
  generalize served .first spacedWritten (ofAcme ⟨false, 100, 10⟩) = written at *
  obtain rfl : t = .acme := List.mem_singleton.mp (Registry.get?_eq_some.mp ht).1
  rw [read_spacedWritten, Option.some_inj] at hread
  subst hread
  have hid : e.id = "e1" := hrestates.id "e1" rfl (by decide)
  have hplain : e.blobs = [] := by
    rw [Event.blobs, hrestates.beforeState, hrestates.afterState, hrestates.metadata]
    rfl
  obtain ⟨-, happlied⟩ := hindexes hplain
  obtain ⟨p, hrun, hput, hrecords, hregistry, hup⟩ := happlied written.2.pipeline hwritten.up
  have hservice := hwritten.behind p hregistry hup
  have hholds : Holds { written.2 with pipeline := p } .acme e := by
    have hthere : Tenant.acme ∈ written.2.pipeline.registry.tenants := by
      rw [hwrittenRegistry]
      exact List.mem_singleton.mpr rfl
    have hrowsFit : (written.2.pipeline.records.rows.events.length : Int) < maxInt 64 := by
      rw [hwrittenRecords]
      decide
    have hdocumentsFit : (written.2.pipeline.index.documents.events.length : Int) + 1 < maxInt 64 := by
      rw [hwrittenIndex]
      decide
    exact .of_put hthere htenant hrow hrowsFit hdocumentsFit hput hrecords hregistry
  refine ⟨written, rfl, hcreated, e, hid, hrestates.userId, hrestates.action, p, hrun, fun x hx => ?_⟩
  have hask (number : Nat) : AsksFor x (x.value e) none Tenant.acme.apiKey number (valueAsked x (x.value e) number) :=
    ⟨rfl, rfl, presents_acme rfl⟩
  obtain ⟨page, hshown, ⟨n, hn, hlast⟩, hpages⟩ := hfound _ hservice hholds x none _ (by simp) hask
  have hten : (x.search (x.value e) none).size = 10 := by cases x <;> rfl
  rw [hten] at hlast hpages
  refine ⟨page, n, ?_, hlast, ?_⟩
  · have hcalls : ∀ c ∈ (List.range (n + 1)).map (Moment.first, ·), (c.2 : Int) < maxInt 64 := by
      intro c hc
      obtain ⟨number, hnumber, rfl⟩ := List.mem_map.mp hc
      have := List.mem_range.mp hnumber
      dsimp only
      omega
    rw [answers_of_unlimited rfl (hshown _ hcalls), List.map_map]
    rfl
  · rw [hpages n hlast]
    simp only [List.mem_cons, List.not_mem_nil, or_false] at hx
    rcases hx with rfl | rfl
    · rw [ExactField.value, hrestates.userId]
      exact if_neg (by decide)
    · rw [ExactField.value, hrestates.action]
      exact if_pos (by decide)

end Gateway

end AuditTrail

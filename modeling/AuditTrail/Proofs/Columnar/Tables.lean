import AuditTrail.Proofs.Columnar.Groups
import AuditTrail.Proofs.Columnar.Pattern
import AuditTrail.Proofs.Columnar.Store
import AuditTrail.Proofs.Time.Calendar
/-!
# What the index does to tables

The index puts events into the tables of their partitions, and finds the tables of a tenant by their pattern
when it searches, deletes or drops. So it works on the tables of the tenant's own partitions and on no other
ones, but it does not find the partitions of years before 0 and after 9999.
-/

namespace AuditTrail.Columnar

variable {σ : Type} {content : σ → Content}

/-! ## One table after the other -/

/-- An action changes one table and leaves the others as they are. If it fails it leaves them as well. -/
def Alters (content : σ → Content) (act : Action (StateM σ) Unit) (table : String)
    (change : Option (List IndexRow) → Option (List IndexRow)) : Prop :=
  ∀ st, StoreEnds act st
    (fun _ st' => ∀ name, content st' name = if table = name then change (content st name) else content st name)
    fun _ st' => ∀ name, table ≠ name → content st' name = content st name

/-- What actions do one after the other is done to each table by those that are for it. -/
theorem Alters.forM {ι : Type} {act : ι → Action (StateM σ) Unit} (table : ι → String)
    {change : ι → Option (List IndexRow) → Option (List IndexRow)}
    (hact : ∀ i, Alters content (act i) (table i) (change i)) (is : List ι) (st : σ) :
    StoreEnds (is.forM act) st
      (fun _ st' => ∀ name, content st' name =
        (is.filter fun i => table i = name).foldl (fun rows i => change i rows) (content st name))
      fun _ st' => ∀ name, (∀ i ∈ is, table i ≠ name) → content st' name = content st name := by
  induction is generalizing st with
  | nil => exact .pure fun _ => rfl
  | cons i rest ih =>
    rw [List.forM_eq_forM] at ih ⊢
    rw [List.forM_cons]
    refine (hact i st).bind (fun _ st₁ hst₁ => ?_) fun _ _ h name hname => h name (hname i (by simp))
    refine (ih st₁).mono (fun _ st₂ hst₂ name => ?_) fun _ st₂ hst₂ name hname => ?_
    · rw [hst₂ name, hst₁ name, List.filter_cons]
      by_cases heq : table i = name
      · simp [heq]
      · simp [heq]
    · rw [hst₂ name fun j hj => hname j (by simp [hj]), hst₁ name, if_neg (hname i (by simp))]

private theorem foldl_idempotent {α ι : Type} {change : α → α} (hchange : ∀ x, change (change x) = change x)
    (is : List ι) (x : α) : is.foldl (fun x _ => change x) x = if is = [] then x else change x := by
  induction is generalizing x with
  | nil => rfl
  | cons i rest ih =>
    rw [List.foldl_cons, ih]
    split
    · rfl
    · exact hchange x

/-! ## The tables of a tenant -/

/-- Whether a name is found by the pattern for the tables of a tenant. -/
def isTableOf (s : SearchSettings) (tenant : TenantId) (name : String) : Bool :=
  Pattern.test (Partition.tablePattern s.indexPrefix tenant) name

/-- An action finds the tables of a tenant that there are, and changes none. -/
def Lists (content : σ → Content) (s : SearchSettings) (tenant : TenantId)
    (act : Action (StateM σ) (List String)) : Prop :=
  ∀ st, StoreEnds act st
    (fun names st' => content st' = content st ∧
      ∀ name, name ∈ names ↔ (content st name).isSome ∧ isTableOf s tenant name = true)
    fun _ st' => content st' = content st

/-- What is done to the tables of a tenant is done to all that the pattern finds, and to no other ones. -/
theorem Lists.forM {s : SearchSettings} {tenant : TenantId} {list : Action (StateM σ) (List String)}
    (hlist : Lists content s tenant list) {act : String → Action (StateM σ) Unit}
    (change : Option (List IndexRow) → Option (List IndexRow))
    (hact : ∀ table, Alters content (act table) table change) (hnone : change none = none)
    (hchange : ∀ rows, change (change rows) = change rows) (st : σ) :
    StoreEnds (list >>= fun names => names.forM act) st
      (fun _ st' => ∀ name, content st' name =
        if isTableOf s tenant name then change (content st name) else content st name)
      fun _ st' => ∀ name, isTableOf s tenant name = false → content st' name = content st name := by
  refine (hlist st).bind ?_ fun _ _ h name _ => congrFun h name
  rintro names st₁ ⟨hst₁, hnames⟩
  refine (Alters.forM id hact names st₁).mono (fun _ st₂ hst₂ name => ?_)
    fun _ st₂ hst₂ name hname => ?_
  · have hmem : (names.filter fun table => id table = name) = [] ↔ name ∉ names := by
      simp only [List.filter_eq_nil_iff, id, decide_eq_true_eq]
      exact ⟨fun h hmem => h name hmem rfl, fun h table hmem heq => h (heq ▸ hmem)⟩
    simp only [hst₂ name, foldl_idempotent hchange, hmem, hst₁, hnames]
    cases hrows : content st name with
    | none => simp [hnone]
    | some rows => cases isTableOf s tenant name <;> simp
  · rw [hst₂ name, hst₁]
    rintro table htable rfl
    have hfound := ((hnames table).mp htable).2
    exact Bool.false_ne_true (hname.symm.trans hfound)

section

variable {server : Server (StateM σ)} {occurs : String → String → Bool} {s : SearchSettings}
  (h : server.Keeps occurs s.indexPrefix content)

include h

private theorem Server.Keeps.alters {c : Command} {table : String}
    {change : Option (List IndexRow) → Option (List IndexRow)}
    (hc : ∀ name rows, c.leaves name rows = if table = name then change rows else rows)
    (failure : String → Failure) : Alters content (asking (server.run c) failure) table change := by
  intro st
  apply StoreEnds.asking
  refine (h.run c st).mono (fun _ st' hst' name => ?_) fun _ st' hst' name hname => ?_
  · rw [hst' name, hc]
  · have := hst' name
    rwa [hc, if_neg hname, or_self] at this

private theorem Server.Keeps.lists (tenant : TenantId) : Lists content s tenant (tenantTables server s tenant) := by
  intro st
  apply StoreEnds.asking
  exact h.tables tenant st

private theorem dropIndex_ends (tenant : TenantId) (st : σ) :
    StoreEnds (dropIndex server s tenant) st
      (fun _ st' => ∀ name, content st' name = if isTableOf s tenant name then none else content st name)
      fun _ st' => ∀ name, isTableOf s tenant name = false → content st' name = content st name := by
  apply (h.lists tenant).forM fun _ => none
  · intro table st
    refine (h.alters (c := .dropTable table) (fun _ _ => rfl) _ st).bind (fun _ st' hst' => ?_) fun _ _ h => h
    exact .forget hst'
  · rfl
  · exact fun _ => rfl

private theorem deleteDocument_ends {ctx : Context} {tenant : TenantId} (hctx : ctx.tenant = some tenant) (id : String)
    (st : σ) :
    StoreEnds (deleteDocument server s ctx id) st
      (fun _ st' => ∀ name, content st' name = if isTableOf s tenant name then
        (content st name).map fun rows => rows.filter (·.id ≠ id) else content st name)
      fun _ st' => ∀ name, isTableOf s tenant name = false → content st' name = content st name := by
  have hlists : Lists content s tenant
      ((tenantTables server s tenant).adapt fun failure => .projection failure.message) :=
    fun st => (h.lists tenant st).adapt
  unfold deleteDocument
  apply StoreEnds.ofTenant hctx
  apply hlists.forM (Option.map fun rows => rows.filter (·.id ≠ id))
  · intro table st
    exact h.alters (c := .deleteRow table id) (fun _ _ => rfl) _ st
  · rfl
  · intro rows
    cases rows with
    | none => rfl
    | some rows => simp

private theorem search_ends {ctx : Context} {tenant : TenantId} (hctx : ctx.tenant = some tenant) (f : Filter)
    (st : σ) :
    StoreEnds (search server s ctx f) st
      (fun events st' => content st' = content st ∧ ∃ found,
        let q := Query.ofFilter s.database s.indexPrefix tenant f
        q.Finds occurs (content st) found ∧ (q.page found).mapM IndexRow.toEvent = .ok events)
      fun _ st' => content st' = content st := by
  unfold search
  apply StoreEnds.ofTenant hctx
  refine (h.lists tenant st).bind ?_ fun _ _ h => h
  rintro names st₁ ⟨hst₁, hnames⟩
  split
  · rename_i hempty
    obtain rfl := List.isEmpty_iff.mp hempty
    refine .pure ⟨hst₁, [], ⟨by simp, ?_⟩, by simp [Query.page, pure, Except.pure]⟩
    intro name rows hmatch hrows
    have := (hnames name).mpr ⟨by rw [hrows]; rfl, hmatch⟩
    cases this
  · have hrows := h.rows (Query.ofFilter s.database s.indexPrefix tenant f) tenant st₁ rfl
    rw [hst₁] at hrows
    refine (StoreEnds.asking hrows).bind ?_ fun _ _ h => h
    rintro _ st₂ ⟨hst₂, found, hfound, rfl⟩
    refine (StoreEnds.mapM IndexRow.toEvent _ st₂).mono ?_ ?_
    · rintro events _ ⟨rfl, hevents⟩
      exact ⟨hst₂, found, hfound, hevents⟩
    · rintro _ _ rfl
      exact hst₂

end

/-! ## The tables of partitions -/

private theorem foldl_append_rows (groups : List (String × List IndexRow)) (rows : Option (List IndexRow)) :
    groups.foldl (fun rows g => rows.map (· ++ g.2)) rows = rows.map (· ++ groups.flatMap (·.2)) := by
  induction groups generalizing rows with
  | nil => cases rows <;> simp
  | cons g rest ih =>
    rw [List.foldl_cons, ih]
    cases rows <;> simp

section

variable {server : Server (StateM σ)} {occurs : String → String → Bool} {s : SearchSettings} {tenant : TenantId}
  (h : server.Keeps occurs s.indexPrefix content)

include h

private theorem insertRows_alters (table : String) (rows : List IndexRow) :
    Alters content (insertRows server table rows) table (Option.map (· ++ rows)) := by
  intro st
  unfold insertRows
  apply StoreEnds.request
  refine (h.run (.insert table rows) st).mono (fun _ _ h => .pure h) fun report st' hst' => ?_
  have hforget : StoreEnds (forget table) st' (fun _ st₁ => st₁ = st') fun _ _ => False := .forget rfl
  refine hforget.bind ?_ fun _ _ h => h.elim
  rintro _ _ rfl
  refine .throw fun name hname => ?_
  have := hst' name
  rwa [Command.leaves, if_neg hname, or_self] at this

private theorem indexEvents_ends {ctx : Context} (hctx : ctx.tenant = some tenant) (indexedAt : Instant)
    (events : List Event) (st : σ) :
    StoreEnds (indexEvents server s indexedAt ctx events) st
      (fun _ st' => ∀ name, content st' name =
        (content st name).map (· ++ eventRows s tenant indexedAt name events))
      fun _ st' => ∀ name, (∀ e ∈ events, tableOf s tenant e.timestamp ≠ name) →
        content st' name = content st name := by
  unfold indexEvents
  apply StoreEnds.ofTenant hctx
  refine (StoreEnds.lifted (groupEvents s tenant indexedAt events) st).bind ?_ fun _ _ h _ _ => by rw [h]
  rintro groups st' ⟨rfl, hgroups⟩
  obtain ⟨hrows, htables⟩ := rowsOf_groupEvents hgroups
  have halters (g : String × List IndexRow) := insertRows_alters h g.1 g.2
  refine (Alters.forM Prod.fst halters groups st').mono (fun _ after hafter name => ?_)
    fun _ after hafter name hname => ?_
  · rw [hafter name, foldl_append_rows, ← hrows, rowsOf]
  · apply hafter name
    rintro g hg rfl
    obtain ⟨e, he, htable⟩ := htables g.1 (List.mem_map_of_mem hg)
    exact hname e he htable

end

/-! ## Which tables are reached -/

private theorem IndexRow.id_of_toEvent {r : IndexRow} {e : Event} (h : r.toEvent = .ok e) : e.id = r.id := by
  simp only [IndexRow.toEvent, Failure.bind_eq_ok] at h
  obtain ⟨_, -, _, -, _, -, _, -, _, -, _, -, _, -, _, -, h⟩ := h
  cases h
  rfl

private theorem Query.page_ofFilter {database indexPrefix : String} {tenant : TenantId} {f : Filter}
    (hpage : f.page ≤ 1)
    (found : List IndexRow) :
    (Query.ofFilter database indexPrefix tenant f).page found = found.take f.window.limit.toNat := by
  have hoffset : f.window.offset = 0 := by
    rw [PageWindow.offset, Filter.window, PageWindow.normalize, Int.max_eq_right hpage, Int.sub_self, Int.zero_mul]
    rfl
  rw [page, ofFilter, hoffset]
  rfl

/-- What is done for a tenant reaches a table: its rows go when the index or the document is taken out, and a
search that fits on the first page finds them. -/
structure Reaches (server : Server (StateM σ)) (occurs : String → String → Bool) (s : SearchSettings)
    (content : σ → Content) (tenant : TenantId) (table : String) : Prop where
  dropped : ∀ st, StoreEnds (dropIndex server s tenant) st (fun _ st' => content st' table = none) fun _ _ => True
  deleted : ∀ ctx id st, ctx.tenant = some tenant → StoreEnds (deleteDocument server s ctx id) st
    (fun _ st' => content st' table = (content st table).map fun rows => rows.filter (·.id ≠ id)) fun _ _ => True
  found : ∀ ctx (f : Filter) st, ctx.tenant = some tenant → f.page ≤ 1 → StoreEnds (search server s ctx f) st
    (fun events _ => (events.length : Int) < f.window.limit → ∀ rows, content st table = some rows →
      ∀ r ∈ rows, (Query.ofFilter s.database s.indexPrefix tenant f).selects occurs r = true →
        ∃ e ∈ events, e.id = r.id)
    fun _ _ => True

/-- What is done for a tenant leaves a table as it is, and a search finds nothing by it. -/
structure Spares (server : Server (StateM σ)) (s : SearchSettings) (content : σ → Content) (tenant : TenantId)
    (table : String) : Prop where
  dropped : ∀ st, StoreEnds (dropIndex server s tenant) st (fun _ st' => content st' table = content st table)
    fun _ st' => content st' table = content st table
  deleted : ∀ ctx id st, ctx.tenant = some tenant → StoreEnds (deleteDocument server s ctx id) st
    (fun _ st' => content st' table = content st table) fun _ st' => content st' table = content st table
  found : ∀ ctx f st, ctx.tenant = some tenant → StoreEnds (search server s ctx f) st
    (fun events st' => content st' table = content st table ∧ ∀ e ∈ events, ∃ name rows, name ≠ table ∧
      content st name = some rows ∧ ∃ r ∈ rows, r.toEvent = .ok e)
    fun _ st' => content st' table = content st table

section

variable {server : Server (StateM σ)} {occurs : String → String → Bool} {s : SearchSettings}
  (h : server.Keeps occurs s.indexPrefix content)
  {tenant : TenantId} {table : String}

include h

private theorem Reaches.of_pattern (htable : isTableOf s tenant table = true) :
    Reaches server occurs s content tenant table where
  dropped st := (dropIndex_ends h tenant st).mono (fun _ _ h => by rw [h, if_pos htable]) fun _ _ _ => trivial
  deleted ctx id st hctx :=
    (deleteDocument_ends h hctx id st).mono (fun _ _ h => by rw [h, if_pos htable]) fun _ _ _ => trivial
  found ctx f st hctx hpage := by
    refine (search_ends h hctx f st).mono ?_ fun _ _ _ => trivial
    rintro events st' ⟨-, found, hfound, hevents⟩ hlength rows hrows r hr hselects
    have hevents := NewEvent.mapM_eq_ok.mp hevents
    rw [Query.page_ofFilter hpage] at hevents
    have hshort : found.length ≤ f.window.limit.toNat := by
      have := congrArg List.length hevents
      simp only [List.length_map, List.length_take] at this
      omega
    rw [List.take_of_length_le hshort] at hevents
    obtain ⟨k, hk, hid⟩ := hfound.complete table rows htable hrows r hr hselects
    have hmem := List.mem_map_of_mem (f := IndexRow.toEvent) hk
    rw [hevents] at hmem
    obtain ⟨e, he, heq⟩ := List.mem_map.mp hmem
    exact ⟨e, he, (IndexRow.id_of_toEvent heq.symm).trans hid⟩

private theorem Spares.of_pattern (htable : isTableOf s tenant table = false) :
    Spares server s content tenant table where
  dropped st := (dropIndex_ends h tenant st).mono (fun _ _ h => by simp [h, htable]) fun _ _ h => h table htable
  deleted ctx id st hctx :=
    (deleteDocument_ends h hctx id st).mono (fun _ _ h => by simp [h, htable]) fun _ _ h => h table htable
  found ctx f st hctx := by
    refine (search_ends h hctx f st).mono ?_ fun _ _ h => congrFun h table
    rintro events st' ⟨hst', found, hfound, hevents⟩
    refine ⟨congrFun hst' table, fun e he => ?_⟩
    have hevents := NewEvent.mapM_eq_ok.mp hevents
    have hmem := List.mem_map_of_mem (f := (Except.ok : Event → Except Failure Event)) he
    rw [← hevents] at hmem
    obtain ⟨r, hr, heq⟩ := List.mem_map.mp hmem
    obtain ⟨name, rows, hname, hrows, hmem, -⟩ :=
      hfound.sound r (List.mem_of_mem_drop (List.mem_of_mem_take hr))
    refine ⟨name, rows, ?_, hrows, r, hmem, heq⟩
    rintro rfl
    exact Bool.false_ne_true (htable.symm.trans hname)

end

/-- Events go to the tables of their partitions, and what is done for a tenant reaches such a table if it is one
of the tenant's own and its year has four digits. It spares all others, those of other tenants as well as those of
years before 0 and after 9999. -/
theorem reaches_iff {server : Server (StateM σ)} {occurs : String → String → Bool} {s : SearchSettings}
    (hpre : s.indexPrefix.toList.all Pattern.isPlain = true) (h : server.Keeps occurs s.indexPrefix content)
    (tenant other : TenantId) :
    (∀ t : Instant, let table := tableOf s other t
      let own := tenant = other ∧ 0 ≤ t.date.year ∧ t.date.year ≤ 9999
      (Pattern.test (Partition.tablePattern s.indexPrefix tenant) table = true ↔ own) ∧
        (own → Reaches server occurs s content tenant table) ∧ (¬own → Spares server s content tenant table)) ∧
      ∀ indexedAt ctx events st, ctx.tenant = some other → StoreEnds (indexEvents server s indexedAt ctx events) st
        (fun _ st' => ∀ name, content st' name =
          (content st name).map (· ++ eventRows s other indexedAt name events))
        fun _ st' => ∀ name, (∀ e ∈ events, tableOf s other e.timestamp ≠ name) →
          content st' name = content st name := by
  refine ⟨fun t => ?_, fun indexedAt ctx events st hctx => indexEvents_ends h hctx indexedAt events st⟩
  have hmonth : (Partition.ofInstant other t).month < 100 := by
    have hvalid := Date.valid_ofDays (t.seconds / 86400)
    exact Nat.lt_of_le_of_lt hvalid.2.1 (by decide)
  have hown := Pattern.test_name_iff hpre tenant hmonth
  refine ⟨hown, fun h' => .of_pattern h (hown.mpr h'), fun h' => .of_pattern h ?_⟩
  exact Bool.eq_false_iff.mpr fun htable => h' (hown.mp htable)

/-- A column store in memory with tables under the usual prefix: what is done for a tenant reaches its table for
the first month of 1970, and spares the one for the first month of the year 10000. -/
theorem january10000_spared :
    let s : SearchSettings := {}
    let t : Instant := ⟨253402300800, 0, by decide, by decide, by decide⟩
    s.indexPrefix.toList.all Pattern.isPlain = true ∧ Memory.server.Keeps Memory.occurs s.indexPrefix Table.get? ∧
      tableOf s .acme .epoch = "audit_events_acme_197001" ∧ tableOf s .acme t = "audit_events_acme_1000001" ∧
      Reaches Memory.server Memory.occurs s Table.get? .acme (tableOf s .acme .epoch) ∧
      Spares Memory.server s Table.get? .acme (tableOf s .acme t) := by
  intro s t
  have hpre : s.indexPrefix.toList.all Pattern.isPlain = true := by decide +kernel
  have hkeeps := Memory.keeps s.indexPrefix
  have htables := (reaches_iff hpre hkeeps .acme .acme).1
  refine ⟨hpre, hkeeps, by decide +kernel, by decide +kernel, ?_, ?_⟩
  · exact (htables .epoch).2.1 (by decide +kernel)
  · exact (htables t).2.2 (by decide +kernel)

end AuditTrail.Columnar

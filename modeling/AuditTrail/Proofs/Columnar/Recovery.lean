import AuditTrail.Proofs.Columnar.Tables
import AuditTrail.Proofs.Index.Rows
import AuditTrail.Proofs.Worker.Applied
/-!
# Recovery from dropped tables

A table that is known may have been dropped by someone else, so that it is not made again and rows cannot be put
into it. The first such table of a message that rows are put into is forgotten, and made when the message is
projected again. So a message with so many of them is projected after as many failures.
-/

namespace AuditTrail.Columnar

variable {σ : Type} {content : σ → Content}

/-- A column store that does what it is asked, only that it refuses rows for a table that is not there. -/
structure Server.Dependable (server : Server (StateM σ)) (content : σ → Content) : Prop where
  create : ∀ table st, Ends (server.run (.createTable table)) st
    (fun _ st' => ∀ name, content st' name = (Command.createTable table).leaves name (content st name))
    fun _ _ => False
  insert : ∀ table rows st, (content st table).isSome → Ends (server.run (.insert table rows)) st
    (fun _ st' => ∀ name, content st' name = (Command.insert table rows).leaves name (content st name))
    fun _ _ => False
  missing : ∀ table rows st, content st table = none → Ends (server.run (.insert table rows)) st
    (fun _ _ => False) fun _ st' => content st' = content st

/-! ## Tables that are made -/

/-- Some tables of a store, made unless they are known. -/
def made (known tables : List String) (content : Content) : Content := fun name =>
  if name ∈ tables ∧ name ∉ known then some ((content name).getD []) else content name

private theorem made_nil (known : Known) (content : Content) : made known [] content = content := by
  funext name
  exact if_neg fun h => List.not_mem_nil h.1

private theorem made_cons {known known' : Known} {table : String} (hknown : ∀ t, t ∈ known' ↔ t ∈ known ∨ t = table)
    (tables : List String) (content : Content) :
    made known' tables (made known [table] content) = made known (table :: tables) content := by
  funext name
  simp only [made, hknown, List.mem_cons, not_or]
  by_cases hname : name = table
  · simp [hname]
  · simp [hname]

private theorem made_eq_none {known tables : List String} {content : Content} {name : String} :
    made known tables content name = none ↔ content name = none ∧ (name ∈ tables → name ∈ known) := by
  unfold made
  split
  · rename_i h
    simp [h.1, h.2]
  · rename_i h
    rw [not_and_not_right] at h
    exact ⟨fun hnone => ⟨hnone, h⟩, fun h => h.1⟩

section

variable {server : Server (StateM σ)} (h : server.Dependable content) {s : SearchSettings} {tenant : TenantId}
  {indexedAt : Instant}

include h

private theorem createPartition_leads (asOf : Instant) (known : Known) (st : σ) :
    Leads (createPartition server s tenant asOf) known st
      (fun _ known' st' => (∀ t, t ∈ known' ↔ t ∈ known ∨ t = tableOf s tenant asOf) ∧
        content st' = made known [tableOf s tenant asOf] (content st))
      fun _ _ _ => False := by
  unfold createPartition
  apply Leads.get_bind
  generalize tableOf s tenant asOf = table
  split
  · rename_i hknown
    have hmem : table ∈ known := by simpa using hknown
    refine .pure ⟨fun t => ?_, ?_⟩
    · exact ⟨.inl, fun h => h.elim id fun heq => heq ▸ hmem⟩
    · funext name
      refine (if_neg ?_).symm
      rintro ⟨hname, hnot⟩
      exact hnot (List.mem_singleton.mp hname ▸ hmem)
  · rename_i hunknown
    have hmem : table ∉ known := by simpa using hunknown
    have hask : Leads (asking (server.run (.createTable table)) fun report =>
        .projection ("Failed to create partition " ++ table ++ ": " ++ report)) known st
        (fun _ known' st' => known' = known ∧
          ∀ name, content st' name = (Command.createTable table).leaves name (content st name))
        fun _ _ _ => False := by
      apply Leads.asking
      exact (h.create table st).mono (fun _ _ hst' => ⟨rfl, hst'⟩) fun _ _ h => h
    refine hask.bind ?_ fun _ _ _ h => h
    rintro _ _ st' ⟨rfl, hst'⟩
    refine .modify ⟨fun t => by simp, ?_⟩
    funext name
    rw [hst' name, Command.leaves, made]
    by_cases heq : table = name
    · simp [← heq, hmem]
    · simp [heq, Ne.symm heq]

private theorem createPartitions_leads {ps : List Partition}
    (hps : ∀ p ∈ ps, ∃ t, Partition.ofInstant tenant t = p) (known : Known) (st : σ) :
    Leads (ps.forM (target server s indexedAt).createPartition) known st
      (fun _ known' st' => (∀ t, t ∈ known' ↔ t ∈ known ∨ t ∈ ps.map (·.name s.indexPrefix)) ∧
        content st' = made known (ps.map (·.name s.indexPrefix)) (content st))
      fun _ _ _ => False := by
  induction ps generalizing known st with
  | nil => exact .pure ⟨fun t => by simp, (made_nil known _).symm⟩
  | cons p ps ih =>
    rw [List.forM_eq_forM] at ih ⊢
    rw [List.forM_cons]
    obtain ⟨t, rfl⟩ := hps p (by simp)
    obtain ⟨start, hstart, hmonth⟩ := Partition.start?_ofInstant tenant t
    have hone : (target server s indexedAt).createPartition (.ofInstant tenant t) =
        createPartition server s tenant start := by
      rw [IndexTarget.createPartition, hstart]
      rfl
    have htable : tableOf s tenant start = (Partition.ofInstant tenant t).name s.indexPrefix := by
      rw [tableOf, hmonth]
    rw [hone]
    refine (createPartition_leads h start known st).bind ?_ fun _ _ _ h => h
    rintro _ known₁ st₁ ⟨hknown₁, hst₁⟩
    rw [htable] at hknown₁ hst₁
    refine (ih (fun q hq => hps q (by simp [hq])) known₁ st₁).mono ?_ fun _ _ _ h => h
    rintro _ known₂ st₂ ⟨hknown₂, hst₂⟩
    refine ⟨fun t => ?_, ?_⟩
    · rw [hknown₂, hknown₁, List.map_cons, List.mem_cons, or_assoc]
    · rw [hst₂, hst₁, made_cons hknown₁, List.map_cons]

/-! ## Rows that are put into tables -/

private theorem insertRows_leads (table : String) (rows : List IndexRow) (known : Known) (st : σ) :
    Leads (insertRows server table rows) known st
      (fun _ known' st' => (content st table).isSome ∧ known' = known ∧
        ∀ name, content st' name = if table = name then (content st name).map (· ++ rows) else content st name)
      fun _ known' st' => content st table = none ∧ (∀ t, t ∈ known' ↔ t ≠ table ∧ t ∈ known) ∧
        content st' = content st := by
  unfold insertRows
  apply Leads.request
  cases htable : content st table with
  | some old =>
    have hthere : (content st table).isSome := by simp [htable]
    exact (h.insert table rows st hthere).mono (fun _ _ hst' => .pure ⟨rfl, rfl, hst'⟩) fun _ _ h => h.elim
  | none =>
    refine (h.missing table rows st htable).mono (fun _ _ h => h.elim) fun _ st' hst' => ?_
    have hforget : Leads (forget table) known st'
        (fun _ known' st₁ => st₁ = st' ∧ ∀ t, t ∈ known' ↔ t ≠ table ∧ t ∈ known) fun _ _ _ => False := by
      refine .modify ⟨rfl, fun t => ?_⟩
      simp [and_comm]
    refine hforget.bind ?_ fun _ _ _ h => h.elim
    rintro _ known' _ ⟨rfl, hknown'⟩
    exact .throw ⟨rfl, hknown', hst'⟩

private theorem insertGroups_leads (groups : List (String × List IndexRow)) (known : Known) (st : σ) :
    Leads (groups.forM fun (table, rows) => insertRows server table rows) known st
      (fun _ known' st' => (∀ t ∈ groups.map Prod.fst, (content st t).isSome) ∧ known' = known ∧
        ∀ name, content st' name = (content st name).map (· ++ rowsOf name groups))
      fun _ known' st' => ∃ table ∈ groups.map Prod.fst, content st table = none ∧
        (∀ t, t ∈ known' ↔ t ≠ table ∧ t ∈ known) ∧ ∀ name, content st' name = none ↔ content st name = none := by
  induction groups generalizing known st with
  | nil => exact .pure ⟨by simp, rfl, fun name => by simp⟩
  | cons g groups ih =>
    obtain ⟨table, rows⟩ := g
    rw [List.forM_eq_forM] at ih ⊢
    rw [List.forM_cons]
    refine (insertRows_leads h table rows known st).bind ?_ ?_
    · rintro _ _ st₁ ⟨hthere, rfl, hst₁⟩
      have hnone (name : String) : content st₁ name = none ↔ content st name = none := by
        rw [hst₁]
        split <;> simp
      refine (ih _ st₁).mono ?_ ?_
      · rintro _ known₂ st₂ ⟨hall, rfl, hst₂⟩
        refine ⟨?_, rfl, fun name => ?_⟩
        · intro t ht
          rcases List.mem_cons.mp ht with rfl | ht
          · exact hthere
          · rw [Option.isSome_iff_ne_none, ne_eq, ← hnone, ← ne_eq, ← Option.isSome_iff_ne_none]
            exact hall t ht
        · rw [hst₂, hst₁, rowsOf_cons]
          split <;> simp [Function.comp_def]
      · rintro _ known₂ st₂ ⟨missing, hmem, hmissing, hknown₂, hst₂⟩
        exact ⟨missing, by simp_all, (hnone missing).mp hmissing, hknown₂, fun name => (hst₂ name).trans (hnone name)⟩
    · rintro _ known₁ st₁ ⟨hmissing, hknown₁, hst₁⟩
      exact ⟨table, by simp, hmissing, hknown₁, fun name => by rw [hst₁]⟩

end

/-! ## Attempts to project a message -/

private theorem exists_groupEvents (s : SearchSettings) (tenant : TenantId) (indexedAt : Instant) {events : List Event}
    (hown : ∀ e ∈ events, e.tenant = tenant) : ∃ groups, groupEvents s tenant indexedAt events = .ok groups := by
  unfold groupEvents
  generalize ([] : List (String × List IndexRow)) = before
  induction events generalizing before with
  | nil => exact ⟨before, rfl⟩
  | cons e rest ih =>
    have htenant : ¬e.tenant ≠ tenant := not_not.mpr (hown e (by simp))
    rw [List.foldlM_cons, if_neg htenant]
    exact ih (fun d hd => hown d (by simp [hd])) _

/-- The tables that a message is about, one for each month of its events. -/
def messageTables (s : SearchSettings) (m : Message) : List String := m.partitions.map (·.name s.indexPrefix)

private theorem mem_messageTables {s : SearchSettings} {m : Message} (hkind : m.kind ≠ .delete) {table : String} :
    table ∈ messageTables s m ↔ ∃ e ∈ m.events, tableOf s m.tenant e.timestamp = table := by
  simp only [messageTables, List.mem_map, Message.mem_partitions, hkind, not_false_eq_true, true_and, ne_eq]
  constructor
  · rintro ⟨_, ⟨e, he, rfl⟩, htable⟩
    exact ⟨e, he, htable⟩
  · rintro ⟨e, he, htable⟩
    exact ⟨_, ⟨e, he, rfl⟩, htable⟩

private theorem nodup_messageTables (s : SearchSettings) (m : Message) : (messageTables s m).Nodup := by
  have hmonth {p : Partition} (hp : p ∈ m.partitions) : 1 ≤ p.month ∧ p.month ≤ 12 := by
    obtain ⟨-, e, -, rfl⟩ := Message.mem_partitions.mp hp
    have hvalid := e.timestamp.valid_date
    exact ⟨hvalid.1, hvalid.2.1⟩
  have hnodup : m.partitions.Nodup := by
    unfold Message.partitions
    split
    · exact List.nodup_nil
    · have hordered : Partition.InOrder (Partition.covering m.tenant m.events) := by
        rw [Partition.covering_eq]
        exact Partition.InOrder.insertAll List.Pairwise.nil _
      refine hordered.imp fun {p q} hpq => ?_
      rintro rfl
      rw [Partition.precedes_irrefl] at hpq
      cases hpq
  refine hnodup.map_on fun p hp q hq hname => ?_
  obtain ⟨htenant, hyear, hmonth⟩ := (Partition.name_eq_name_iff s.indexPrefix (hmonth hp) (hmonth hq)).mp hname
  cases p
  cases q
  simp_all

section

variable {server : Server (StateM σ)} (h : server.Dependable content) (s : SearchSettings) {tenant : TenantId}
  (indexedAt : Instant)

include h

private theorem indexEvents_leads {ctx : Context} (hctx : ctx.tenant = some tenant) {events : List Event}
    (hown : ∀ e ∈ events, e.tenant = tenant) (known : Known) (st : σ) :
    Leads (indexEvents server s indexedAt ctx events) known st
      (fun _ known' st' => (∀ e ∈ events, (content st (tableOf s tenant e.timestamp)).isSome) ∧ known' = known ∧
        ∀ name, content st' name = (content st name).map (· ++ eventRows s tenant indexedAt name events))
      fun _ known' st' => ∃ e ∈ events, content st (tableOf s tenant e.timestamp) = none ∧
        (∀ t, t ∈ known' ↔ t ≠ tableOf s tenant e.timestamp ∧ t ∈ known) ∧
        ∀ name, content st' name = none ↔ content st name = none := by
  obtain ⟨groups, hgroups⟩ := exists_groupEvents s tenant indexedAt hown
  obtain ⟨hrows, htables⟩ := rowsOf_groupEvents hgroups
  unfold indexEvents
  rw [Context.requireTenant_eq_ok.mpr hctx]
  change Leads ((liftM (groupEvents s tenant indexedAt events) : Action (StateM σ) _) >>= _) known st _ _
  rw [hgroups]
  refine (insertGroups_leads h groups known st).mono ?_ ?_
  · rintro _ known' st' ⟨hall, hknown', hst'⟩
    refine ⟨fun e he => hall _ ?_, hknown', fun name => by rw [hst', hrows]⟩
    by_contra hnot
    have hnil : rowsOf (tableOf s tenant e.timestamp) groups = [] :=
      rowsOf_eq_nil fun g hg heq => hnot (heq ▸ List.mem_map_of_mem hg)
    rw [hrows, eventRows, List.map_eq_nil_iff, List.filter_eq_nil_iff] at hnil
    exact hnil e he (by simp)
  · rintro _ known' st' ⟨table, hmem, hmissing, hknown', hst'⟩
    obtain ⟨e, he, rfl⟩ := htables table hmem
    exact ⟨e, he, hmissing, hknown', hst'⟩

/-- A message is projected if none of its tables is known and missing. Otherwise one such table is forgotten, and
all others of the message are known. -/
private theorem project_leads {m : Message} (hm : m.check = .ok m) (hkind : m.kind ≠ .delete) (known : Known) (st : σ) :
    Leads ((target server s indexedAt).project m) known st
      (fun n known' st' => n = m.events.length ∧
        (∀ t ∈ messageTables s m, t ∈ known → (content st t).isSome) ∧
        (∀ t, t ∈ known' ↔ t ∈ known ∨ t ∈ messageTables s m) ∧
        ∀ name, content st' name = (made known (messageTables s m) (content st) name).map
          (· ++ eventRows s m.tenant indexedAt name m.events))
      fun _ known' st' => ∃ table ∈ messageTables s m, table ∈ known ∧ content st table = none ∧
        (∀ t, t ∈ known' ↔ t ≠ table ∧ (t ∈ known ∨ t ∈ messageTables s m)) ∧
        ∀ name, content st' name = none ↔ made known (messageTables s m) (content st) name = none := by
  have hpartitions : Partition.covering m.tenant m.events = m.partitions := (if_neg hkind).symm
  have hput : (target server s indexedAt).put (.system m.tenant "") m.events =
      indexEvents server s indexedAt (.system m.tenant "") m.events := by
    rcases m.events with - | ⟨e, - | ⟨d, rest⟩⟩ <;> rfl
  unfold IndexTarget.project
  rw [Message.action_of_check hm, if_neg hkind]
  change Leads (do
    (Partition.covering m.tenant m.events).forM (target server s indexedAt).createPartition
    (target server s indexedAt).put (.system m.tenant "") m.events
    return m.events.length) known st _ _
  rw [hput, hpartitions]
  have hcovered : ∀ p ∈ m.partitions, ∃ t, Partition.ofInstant m.tenant t = p := by
    intro p hp
    obtain ⟨-, e, -, he⟩ := Message.mem_partitions.mp hp
    exact ⟨e.timestamp, he⟩
  refine (createPartitions_leads h hcovered known st).bind ?_ fun _ _ _ h => h.elim
  rintro _ known₁ st₁ ⟨hknown₁, hst₁⟩
  rw [← messageTables] at hknown₁ hst₁
  have hctx : (Context.system m.tenant "").tenant = some m.tenant := rfl
  have hindexed := indexEvents_leads h s indexedAt hctx (fun e he => Message.tenant_of_check hm he) known₁ st₁
  refine hindexed.bind ?_ ?_
  · rintro _ _ st₂ ⟨hthere, rfl, hst₂⟩
    refine .pure ⟨rfl, fun t ht htknown => ?_, hknown₁, fun name => by rw [hst₂, hst₁]⟩
    obtain ⟨e, he, rfl⟩ := (mem_messageTables hkind).mp ht
    have hsome := hthere e he
    rw [hst₁, Option.isSome_iff_ne_none, ne_eq, made_eq_none, not_and] at hsome
    rw [Option.isSome_iff_ne_none]
    exact fun hnone => hsome hnone fun _ => htknown
  · rintro _ known₂ st₂ ⟨e, he, hmissing, hknown₂, hst₂⟩
    have htable := (mem_messageTables (s := s) hkind).mpr ⟨e, he, rfl⟩
    -- a table that is still missing was not made, so it was known
    obtain ⟨hnone, hmem⟩ := made_eq_none.mp (hst₁ ▸ hmissing)
    refine ⟨_, htable, hmem htable, hnone, fun t => ?_, fun name => ?_⟩
    · rw [hknown₂, hknown₁]
    · rw [hst₂, hst₁]

end

/-! ## One attempt after the other -/

section

variable (server : Server (StateM σ)) (s : SearchSettings)
  (acknowledge : String → ExceptT Failure (StateT Known (StateM σ)) Unit)
  (count : Counter → Nat → StateT Known (StateM σ) Unit) (m : Message)

/-- A worker on the index at an instant. -/
def workerAt (indexedAt : Instant) : WorkerBackend (StateT Known (StateM σ)) where
  target := target server s indexedAt
  acknowledge
  count

/-- The answer to an attempt to apply a message, and what is known and stored then. -/
def attempt (indexedAt : Instant) (p : Known × σ) : Except Failure Unit × Known × σ :=
  let r : (Except Failure Unit × Known) × σ :=
    (((workerAt server s acknowledge count indexedAt).apply m).run.run p.1).run p.2
  (r.1.1, r.1.2, r.2)

/-- What is known and stored after some attempts, each at an instant of its own. -/
def afterAttempts (indexedAt : Nat → Instant) (p : Known × σ) : Nat → Known × σ
  | 0 => p
  | n + 1 => (attempt server s acknowledge count m (indexedAt n) (afterAttempts indexedAt p n)).2

/-- The tables of a message that are known and missing. -/
def staleTables (content : σ → Content) (p : Known × σ) : List String :=
  (messageTables s m).filter fun table => p.1.contains table && (content p.2 table).isNone

end

section

variable {s : SearchSettings} {m : Message} {p q : Known × σ}

private theorem mem_staleTables {table : String} : table ∈ staleTables s m content p ↔
    table ∈ messageTables s m ∧ table ∈ p.1 ∧ content p.2 table = none := by
  simp [staleTables]

/-- After a failed attempt a table of the message that was known and missing is not known any more. The other
tables of the message are known, and no further one is missing. -/
structure Forgets (s : SearchSettings) (m : Message) (content : σ → Content) (table : String) (p q : Known × σ) :
    Prop where
  stale : table ∈ staleTables s m content p
  known : ∀ t, t ∈ q.1 ↔ t ≠ table ∧ (t ∈ p.1 ∨ t ∈ messageTables s m)
  missing : ∀ t, content q.2 t = none ↔ content p.2 t = none ∧ (t ∈ messageTables s m → t ∈ p.1)

private theorem Forgets.stale_iff {table : String} (h : Forgets s m content table p q) (t : String) :
    t ∈ q.1 ∧ content q.2 t = none ↔ t ≠ table ∧ t ∈ p.1 ∧ content p.2 t = none := by
  rw [h.known, h.missing]
  tauto

private theorem Forgets.staleTables_eq {table : String} (h : Forgets s m content table p q) :
    staleTables s m content q = (staleTables s m content p).erase table := by
  have hnodup : (staleTables s m content p).Nodup := (nodup_messageTables s m).filter _
  rw [hnodup.erase_eq_filter, staleTables, staleTables, List.filter_filter]
  refine List.filter_congr fun t _ => ?_
  rw [Bool.eq_iff_iff]
  simpa [and_assoc] using h.stale_iff t

variable (s) {server : Server (StateM σ)} (h : server.Dependable content)
  (acknowledge : String → ExceptT Failure (StateT Known (StateM σ)) Unit)
  (count : Counter → Nat → StateT Known (StateM σ) Unit)
  (hcount : ∀ c n known st, ∃ st', ((count c n).run known).run st = (((), known), st') ∧ content st' = content st)

include h hcount

/-- An attempt succeeds if no table of the message is known and missing. Otherwise one such table is forgotten. -/
private theorem attempt_cases (hm : m.check = .ok m) (hkind : m.kind ≠ .delete) (indexedAt : Instant) (p : Known × σ) :
    let r := attempt server s acknowledge count m indexedAt p
    (staleTables s m content p = [] ∧ r.1 = .ok () ∧ ∀ name, content r.2.2 name =
      (made p.1 (messageTables s m) (content p.2) name).map (· ++ eventRows s m.tenant indexedAt name m.events)) ∨
    ∃ e table, r.1 = .error e ∧ Forgets s m content table p r.2 := by
  have hcounted (n : Nat) (known : Known) (st : σ) :
      Leads (liftM (count .eventsIndexed n) : Action (StateM σ) Unit) known st
        (fun _ known' st' => known' = known ∧ content st' = content st) fun _ _ _ => False := by
    obtain ⟨st', hrun, hst'⟩ := hcount .eventsIndexed n known st
    have hlift : (((liftM (count .eventsIndexed n) : Action (StateM σ) Unit).run.run known).run st :
        (Except Failure Unit × Known) × σ) = ((.ok (), known), st') := by
      change ((Except.ok <$> count .eventsIndexed n).run known).run st = _
      rw [StateT.run_map, StateT.run_map, hrun]
      rfl
    rw [Leads, hlift]
    exact ⟨rfl, hst'⟩
  have happly : Leads ((workerAt server s acknowledge count indexedAt).apply m) p.1 p.2
      (fun _ known' st' => staleTables s m content p = [] ∧ ∀ name, content st' name =
        (made p.1 (messageTables s m) (content p.2) name).map (· ++ eventRows s m.tenant indexedAt name m.events))
      fun _ known' st' => ∃ table, Forgets s m content table p (known', st') := by
    refine (project_leads h s indexedAt hm hkind p.1 p.2).bind ?_ ?_
    · rintro n known₁ st₁ ⟨-, hnone, -, hst₁⟩
      refine (hcounted n known₁ st₁).mono ?_ fun _ _ _ h => h.elim
      rintro _ _ st₂ ⟨-, hst₂⟩
      refine ⟨?_, fun name => by rw [hst₂, hst₁]⟩
      rw [List.eq_nil_iff_forall_not_mem]
      intro table htable
      obtain ⟨hmem, hknown, hmissing⟩ := mem_staleTables.mp htable
      have := hnone table hmem hknown
      rw [hmissing] at this
      cases this
    · rintro _ known₁ st₁ ⟨table, hmem, hknown, hmissing, hknown₁, hst₁⟩
      exact ⟨table, mem_staleTables.mpr ⟨hmem, hknown, hmissing⟩, hknown₁, fun t => (hst₁ t).trans made_eq_none⟩
  unfold Leads at happly
  intro r
  rcases hrun : ((((workerAt server s acknowledge count indexedAt).apply m).run.run p.1).run p.2 :
    (Except Failure Unit × Known) × σ) with ⟨⟨e | x, known'⟩, st'⟩
  · rw [hrun] at happly
    have hr : r = (.error e, known', st') := by simp only [r, attempt, hrun]
    obtain ⟨table, hforgets⟩ := happly
    exact .inr ⟨e, table, by rw [hr], by rwa [hr]⟩
  · rw [hrun] at happly
    have hr : r = (.ok (), known', st') := by simp only [r, attempt, hrun]
    exact .inl ⟨happly.1, by rw [hr], by rw [hr]; exact happly.2⟩

/-- So many attempts fail as tables of the message are known and missing. -/
private theorem length_staleTables (hm : m.check = .ok m) (hkind : m.kind ≠ .delete) (indexedAt : Nat → Instant)
    (p : Known × σ) (n : Nat) (hn : n ≤ (staleTables s m content p).length) :
    n + (staleTables s m content (afterAttempts server s acknowledge count m indexedAt p n)).length =
      (staleTables s m content p).length := by
  induction n with
  | zero => exact Nat.zero_add _
  | succ n ih =>
    have hbefore := ih (Nat.le_of_succ_le hn)
    rcases attempt_cases s h acknowledge count hcount hm hkind (indexedAt n)
        (afterAttempts server s acknowledge count m indexedAt p n) with ⟨hnil, -⟩ | ⟨e, table, -, hforgets⟩
    · rw [hnil] at hbefore
      exact absurd hn (by simp only [List.length_nil] at hbefore; omega)
    · have hlength := List.length_erase_of_mem hforgets.stale
      have hpos := List.length_pos_of_mem hforgets.stale
      rw [afterAttempts, hforgets.staleTables_eq, hlength]
      omega

/-- A message is projected after one failure for each of its tables that are known and missing. Each failure makes
the index forget one of these tables, so that none is known and missing that was not, and in the end the row of
every event is in the table of its month. -/
theorem attempts_recover (hm : m.check = .ok m) (hkind : m.kind ≠ .delete) (indexedAt : Nat → Instant)
    (known : Known) (st : σ) :
    let after := afterAttempts server s acknowledge count m indexedAt (known, st)
    let answer n := (attempt server s acknowledge count m (indexedAt n) (after n)).1
    let stale n := staleTables s m content (after n)
    let failures := (stale 0).length
    (∀ n < failures, ∃ e table, answer n = .error e ∧ table ∈ stale n ∧ stale (n + 1) = (stale n).erase table ∧
      (∀ t, t ∈ (after (n + 1)).1 ↔ t ≠ table ∧ (t ∈ (after n).1 ∨ t ∈ messageTables s m)) ∧
      ∀ t, t ∈ (after (n + 1)).1 ∧ content (after (n + 1)).2 t = none ↔
        t ≠ table ∧ t ∈ (after n).1 ∧ content (after n).2 t = none) ∧
    answer failures = .ok () ∧
    ∀ e ∈ m.events, ∃ rows, content (after (failures + 1)).2 (tableOf s m.tenant e.timestamp) = some rows ∧
      IndexRow.ofEvent e (indexedAt failures) ∈ rows := by
  intro after answer stale failures
  have hlength (n : Nat) (hn : n ≤ failures) : n + (stale n).length = failures :=
    length_staleTables s h acknowledge count hcount hm hkind indexedAt (known, st) n hn
  have hcases (n : Nat) := attempt_cases s h acknowledge count hcount hm hkind (indexedAt n) (after n)
  refine ⟨fun n hn => ?_, ?_⟩
  · rcases hcases n with ⟨hnil, -⟩ | ⟨e, table, he, hforgets⟩
    · have := hlength n (Nat.le_of_lt hn)
      simp only [stale, hnil, List.length_nil] at this
      omega
    · exact ⟨e, table, he, hforgets.stale, hforgets.staleTables_eq, hforgets.known, hforgets.stale_iff⟩
  · rcases hcases failures with ⟨hnil, hok, hrows⟩ | ⟨e, table, -, hforgets⟩
    · refine ⟨hok, fun e he => ?_⟩
      have htable := (mem_messageTables (s := s) hkind).mpr ⟨e, he, rfl⟩
      obtain ⟨old, hold⟩ : ∃ old, made (after failures).1 (messageTables s m) (content (after failures).2)
          (tableOf s m.tenant e.timestamp) = some old := by
        rw [← Option.ne_none_iff_exists', ne_eq, made_eq_none]
        rintro ⟨hnone, hknown⟩
        exact List.not_mem_nil (hnil ▸ mem_staleTables.mpr ⟨htable, hknown htable, hnone⟩)
      refine ⟨_, (hrows _).trans (congrArg _ hold), List.mem_append_right old ?_⟩
      exact List.mem_map_of_mem (List.mem_filter.mpr ⟨he, by simp⟩)
    · have hnone : failures + (staleTables s m content (after failures)).length = failures :=
        hlength failures (Nat.le_refl _)
      have hpos := List.length_pos_of_mem hforgets.stale
      omega

end

private theorem Memory.dependable : Memory.server.Dependable Table.get? where
  create table tables := Memory.ends_run (.createTable table) tables
  insert table rows tables hthere := by
    obtain ⟨old, hold⟩ := Option.isSome_iff_exists.mp hthere
    have hrun : ((Memory.server.run (.insert table rows)).run.run tables : Except String Unit × Memory) =
        (.ok (), tables.insert table (old ++ rows)) := by
      change Memory.alter table (· ++ rows) tables = _
      rw [Memory.alter, hold]
    have hends := Memory.ends_run (.insert table rows) tables
    unfold Ends at hends ⊢
    rw [hrun] at hends ⊢
    exact hends
  missing table rows tables hmissing := by
    have hrun : ((Memory.server.run (.insert table rows)).run.run tables : Except String Unit × Memory) =
        (.error "no such table", tables) := by
      change Memory.alter table (· ++ rows) tables = _
      rw [Memory.alter, hmissing]
    unfold Ends
    rw [hrun]

/-- Two sign-ins, of January 1970 and of December 2016. -/
def signIns : Message where
  kind := .bulkIndex
  tenant := .acme
  events := [.signIn "e1", { Event.signIn "e2" with timestamp := NewEvent.leapSecond }]
  eventId := none
  sentAt := .epoch

/-- Two sign-ins are projected at the third attempt when the tables of their months were dropped by someone else. -/
theorem signIns_recover :
    let s : SearchSettings := {}
    let m := signIns
    let known := ["audit_events_acme_197001", "audit_events_acme_201612"]
    let after := afterAttempts Memory.server s (fun _ => pure ()) (fun _ _ => pure ()) m (fun _ => .epoch)
      (known, .empty)
    m.check = .ok m ∧ m.kind ≠ .delete ∧ Memory.server.Dependable Table.get? ∧
      staleTables s m Table.get? (known, (.empty : Memory)) = known ∧
      (attempt Memory.server s (fun _ => pure ()) (fun _ _ => pure ()) m .epoch (after 2)).1 = .ok () ∧
      ∀ e ∈ m.events, ∃ rows, (after 3).2.get? (tableOf s .acme e.timestamp) = some rows ∧
        IndexRow.ofEvent e .epoch ∈ rows := by
  intro s m known after
  have hsound : m.check = .ok m := rfl
  have hkind : m.kind ≠ .delete := by decide
  have hstale : staleTables s m Table.get? (known, (.empty : Memory)) = known := by decide +kernel
  have hrecover := attempts_recover s Memory.dependable (fun _ => pure ()) (fun _ _ => pure ())
    (fun _ _ _ st => ⟨st, rfl, rfl⟩) hsound hkind (fun _ => .epoch) known .empty
  simp only [afterAttempts, hstale] at hrecover
  exact ⟨hsound, hkind, Memory.dependable, hstale, hrecover.2⟩

end AuditTrail.Columnar

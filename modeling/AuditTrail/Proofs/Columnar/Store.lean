import AuditTrail.Columnar.Index
import AuditTrail.Proofs.Pipeline.Endings
import AuditTrail.Proofs.Pipeline.Writes
/-!
# What a column store keeps

A column store keeps tables of rows and does with them what the statements say, if it does not fail. That
the index relies on this is a condition on the store. A store in memory meets it. Rows that expire are left
out, and so are repeated rows that are merged.
-/

namespace AuditTrail.Columnar

/-- The rows of the tables that there are, by the names of the tables. -/
abbrev Content := String → Option (List IndexRow)

/-- What a command makes of the table of a name. -/
def Command.leaves (name : String) (rows : Option (List IndexRow)) : Command → Option (List IndexRow)
  | ping | createDatabase => rows
  | createTable table => if table = name then some (rows.getD []) else rows
  | dropTable table => if table = name then none else rows
  | deleteRow table id => if table = name then rows.map fun rows => rows.filter (·.id ≠ id) else rows
  | insert table added => if table = name then rows.map (· ++ added) else rows

/-- The rows that a query pages through: they are among those it asks for, and none of the identifiers is
missing. -/
structure Query.Finds (occurs : String → String → Bool) (q : Query) (content : Content)
    (found : List IndexRow) : Prop where
  sound : ∀ r ∈ found, ∃ name rows, Pattern.test q.pattern name = true ∧ content name = some rows ∧
    r ∈ rows ∧ q.selects occurs r = true
  complete : ∀ name rows, Pattern.test q.pattern name = true → content name = some rows →
    ∀ r ∈ rows, q.selects occurs r = true → ∃ k ∈ found, k.id = r.id

/-- The page of rows that a query asks for. -/
def Query.page (q : Query) (found : List IndexRow) : List IndexRow :=
  (found.drop q.offset.toNat).take q.limit.toNat

section

variable {σ : Type}

/-- A column store keeps tables, and finds those of a tenant by the pattern for them. A command that fails
may have been carried out or not. -/
structure Server.Keeps (server : Server (StateM σ)) (occurs : String → String → Bool) (pre : String)
    (content : σ → Content) : Prop where
  run : ∀ c st, Ends (server.run c) st
    (fun _ st' => ∀ name, content st' name = c.leaves name (content st name))
    fun _ st' => ∀ name, content st' name = content st name ∨
      content st' name = c.leaves name (content st name)
  tables : ∀ tenant st, Ends (server.tables (Partition.tablePattern pre tenant)) st
    (fun names st' => content st' = content st ∧ ∀ name, name ∈ names ↔
      (content st name).isSome ∧ Pattern.test (Partition.tablePattern pre tenant) name = true)
    fun _ st' => content st' = content st
  rows : ∀ q tenant st, q.pattern = Partition.tablePattern pre tenant → Ends (server.rows q) st
    (fun rows st' => content st' = content st ∧ ∃ found,
      q.Finds occurs (content st) found ∧ rows = q.page found)
    fun _ st' => content st' = content st

/-! ## Ends of actions on the index -/

/-- An action on the index, with the tables that are known, ends with an answer for which one thing holds, or with a
failure for which another one holds. -/
def Leads {α : Type} (a : Action (StateM σ) α) (known : Known) (st : σ) (done : α → Known → σ → Prop)
    (failed : Failure → Known → σ → Prop) : Prop :=
  match ((a.run.run known).run st : (Except Failure α × Known) × σ) with
  | ((.ok x, known'), st') => done x known' st'
  | ((.error e, known'), st') => failed e known' st'

namespace Leads

variable {α β : Type} {a : Action (StateM σ) α} {f : α → Action (StateM σ) β} {known : Known} {st : σ}
  {done : α → Known → σ → Prop} {failed : Failure → Known → σ → Prop}

theorem mono {done' : α → Known → σ → Prop} {failed' : Failure → Known → σ → Prop}
    (h : Leads a known st done failed) (hdone : ∀ x k st', done x k st' → done' x k st')
    (hfailed : ∀ e k st', failed e k st' → failed' e k st') : Leads a known st done' failed' := by
  unfold Leads at *
  split at h
  · exact hdone _ _ _ h
  · exact hfailed _ _ _ h

theorem pure {x : α} (h : done x known st) : Leads (Pure.pure x) known st done failed := h

theorem throw {e : Failure} (h : failed e known st) : Leads (MonadExcept.throw e) known st done failed := h

theorem bind {middle : α → Known → σ → Prop} {broken : Failure → Known → σ → Prop} {done : β → Known → σ → Prop}
    (ha : Leads a known st middle broken)
    (hf : ∀ x k st', middle x k st' → Leads (f x) k st' done failed)
    (hbroken : ∀ e k st', broken e k st' → failed e k st') : Leads (a >>= f) known st done failed := by
  unfold Leads at ha
  unfold Leads
  rw [ExceptT.run_bind, StateT.run_bind, StateT.run_bind]
  rcases hrun : ((a.run.run known).run st : (Except Failure α × Known) × σ) with ⟨⟨e | x, known'⟩, st'⟩
  · rw [hrun] at ha
    exact hbroken e known' st' ha
  · rw [hrun] at ha
    exact hf x known' st' ha

theorem get_bind {f : Known → Action (StateM σ) β} {done : β → Known → σ → Prop}
    (h : Leads (f known) known st done failed) : Leads (get >>= f) known st done failed := h

theorem modify {change : Known → Known} {done : PUnit → Known → σ → Prop} (h : done ⟨⟩ (change known) st) :
    Leads (modify change) known st done failed := h

theorem request {request : ExceptT String (StateM σ) α} {k : Except String α → Action (StateM σ) β}
    {done : β → Known → σ → Prop}
    (h : Ends request st (fun x st' => Leads (k (.ok x)) known st' done failed) fun report st' =>
      Leads (k (.error report)) known st' done failed) :
    Leads ((liftM (request.run : StateM σ (Except String α)) : Action (StateM σ) _) >>= k) known st done
      failed := by
  have hlift : Leads (liftM (request.run : StateM σ (Except String α)) : Action (StateM σ) _) known st
      (fun result known' st' => known' = known ∧
        (request.run.run st : Except String α × σ) = (result, st')) fun _ _ _ => False := ⟨rfl, rfl⟩
  refine hlift.bind ?_ fun _ _ _ h => h.elim
  rintro result _ st' ⟨rfl, hrun⟩
  unfold Ends at h
  rw [hrun] at h
  cases result with
  | ok x => exact h
  | error report => exact h

theorem asking {request : ExceptT String (StateM σ) α} {failure : String → Failure}
    (h : Ends request st (fun x st' => done x known st') fun report st' => failed (failure report) known st') :
    Leads (Columnar.asking request failure) known st done failed := by
  unfold Columnar.asking
  apply Leads.request
  exact h.mono (fun _ _ h => h) fun _ _ h => h

end Leads

/-- Whatever tables are known, an action on the index ends with an answer and a store for which one thing holds,
or with a failure and a store for which another one holds. -/
def StoreEnds {α : Type} (a : Action (StateM σ) α) (st : σ) (done : α → σ → Prop)
    (failed : Failure → σ → Prop) : Prop :=
  ∀ known, match ((a.run.run known).run st : (Except Failure α × Known) × σ) with
    | ((.ok x, _), st') => done x st'
    | ((.error e, _), st') => failed e st'

namespace StoreEnds

variable {α β : Type} {a : Action (StateM σ) α} {f : α → Action (StateM σ) β} {st : σ} {done : α → σ → Prop}
  {failed : Failure → σ → Prop}

private theorem leads (h : StoreEnds a st done failed) (known : Known) :
    Leads a known st (fun x _ st' => done x st') fun e _ st' => failed e st' := h known

private theorem of_leads
    (h : ∀ known, Leads a known st (fun x _ st' => done x st') fun e _ st' => failed e st') :
    StoreEnds a st done failed := h

theorem mono {done' : α → σ → Prop} {failed' : Failure → σ → Prop} (h : StoreEnds a st done failed)
    (hdone : ∀ x st', done x st' → done' x st') (hfailed : ∀ e st', failed e st' → failed' e st') :
    StoreEnds a st done' failed' :=
  of_leads fun known => (h.leads known).mono (fun x _ => hdone x) fun e _ => hfailed e

theorem pure {x : α} (h : done x st) : StoreEnds (Pure.pure x) st done failed := fun _ => h

theorem throw {e : Failure} (h : failed e st) : StoreEnds (MonadExcept.throw e) st done failed := fun _ => h

theorem lifted (x : Except Failure α) (st : σ) :
    StoreEnds (liftM x) st (fun y st' => st' = st ∧ x = .ok y) fun _ st' => st' = st := by
  cases x with
  | ok y => exact fun _ => ⟨rfl, rfl⟩
  | error e => exact fun _ => rfl

theorem bind {middle : α → σ → Prop} {broken : Failure → σ → Prop} {done : β → σ → Prop}
    (ha : StoreEnds a st middle broken) (hf : ∀ x st', middle x st' → StoreEnds (f x) st' done failed)
    (hbroken : ∀ e st', broken e st' → failed e st') : StoreEnds (a >>= f) st done failed :=
  of_leads fun known => (ha.leads known).bind (fun x k st' h => (hf x st' h).leads k) fun e _ => hbroken e

theorem mapM {γ : Type} (act : γ → Except Failure α) (xs : List γ) (st : σ) :
    StoreEnds (xs.mapM fun x => (liftM (act x) : Action (StateM σ) α)) st
      (fun ys st' => st' = st ∧ xs.mapM act = .ok ys) fun _ st' => st' = st := by
  induction xs with
  | nil => exact .pure ⟨rfl, rfl⟩
  | cons x rest ih =>
    rw [List.mapM_cons, List.mapM_cons]
    refine (lifted (act x) st).bind ?_ fun _ _ h => h
    rintro y _ ⟨rfl, hy⟩
    refine ih.bind ?_ fun _ _ h => h
    rintro ys _ ⟨rfl, hys⟩
    exact .pure ⟨rfl, by rw [hy, hys]; rfl⟩

theorem forget {table : String} {done : PUnit → σ → Prop} (h : done ⟨⟩ st) :
    StoreEnds (Columnar.forget table) st done failed := fun _ => h

/-- The tenant of a request is there before anything is asked of the store. -/
theorem ofTenant {ctx : Context} {tenant : TenantId} {f : TenantId → Action (StateM σ) β} {done : β → σ → Prop}
    (hctx : ctx.tenant = some tenant) (hf : StoreEnds (f tenant) st done failed) :
    StoreEnds ((liftM ctx.requireTenant : Action (StateM σ) TenantId) >>= f) st done failed := by
  rw [Context.requireTenant_eq_ok.mpr hctx]
  exact hf

theorem adapt {rename : Failure → Failure} (ha : StoreEnds a st done fun e st' => failed (rename e) st') :
    StoreEnds (a.adapt rename) st done failed := by
  intro known
  have ha := ha known
  have hadapt : (((a.adapt rename).run.run known).run st : (Except Failure α × Known) × σ) =
      let r : (Except Failure α × Known) × σ := (a.run.run known).run st
      ((r.1.1.mapError rename, r.1.2), r.2) := by
    change (((Except.mapError rename <$> a.run).run known).run st : (Except Failure α × Known) × σ) = _
    simp only [StateT.run_map]
    rfl
  rw [hadapt]
  rcases hrun : ((a.run.run known).run st : (Except Failure α × Known) × σ) with ⟨⟨e | x, known'⟩, st'⟩
  · rw [hrun] at ha
    exact ha
  · rw [hrun] at ha
    exact ha

theorem request {request : ExceptT String (StateM σ) α} {k : Except String α → Action (StateM σ) β}
    {done : β → σ → Prop}
    (h : Ends request st (fun x st' => StoreEnds (k (.ok x)) st' done failed) fun report st' =>
      StoreEnds (k (.error report)) st' done failed) :
    StoreEnds ((liftM (request.run : StateM σ (Except String α)) : Action (StateM σ) _) >>= k) st done
      failed :=
  of_leads fun known => .request (h.mono (fun _ _ h => h.leads known) fun _ _ h => h.leads known)

theorem asking {request : ExceptT String (StateM σ) α} {failure : String → Failure}
    (h : Ends request st done fun report st' => failed (failure report) st') :
    StoreEnds (Columnar.asking request failure) st done failed :=
  of_leads fun _ => .asking h

end StoreEnds

end

/-! ## A store in memory -/

def firstOfEach : List IndexRow → List IndexRow
  | [] => []
  | r :: rest => r :: (firstOfEach rest).filter (·.id ≠ r.id)

private theorem mem_of_mem_firstOfEach {r : IndexRow} {rows : List IndexRow} (h : r ∈ firstOfEach rows) : r ∈ rows := by
  induction rows with
  | nil => exact h
  | cons k rest ih =>
    rcases List.mem_cons.mp h with rfl | h
    · exact List.mem_cons_self
    · exact List.mem_cons_of_mem k (ih (List.mem_filter.mp h).1)

private theorem exists_firstOfEach {r : IndexRow} {rows : List IndexRow} (h : r ∈ rows) :
    ∃ k ∈ firstOfEach rows, k.id = r.id := by
  induction rows with
  | nil => cases h
  | cons first rest ih =>
    by_cases hid : first.id = r.id
    · exact ⟨first, List.mem_cons_self, hid⟩
    · have hr : r ∈ rest := (List.mem_cons.mp h).resolve_left fun heq => hid (congrArg _ heq.symm)
      obtain ⟨k, hk, hkid⟩ := ih hr
      have hne : k.id ≠ first.id := fun heq => hid (heq.symm.trans hkid)
      exact ⟨k, List.mem_cons_of_mem _ (List.mem_filter.mpr ⟨hk, decide_eq_true hne⟩), hkid⟩

/-- Newer rows come first, and rows of one time in the order of their identifiers. -/
def newestFirst (a b : IndexRow) : Bool :=
  decide (b.timestamp < a.timestamp) || (a.timestamp == b.timestamp && decide (a.id ≤ b.id))

abbrev Memory := Table String (List IndexRow)

namespace Memory

/-- Changes the rows of a table, which has to be there. -/
def alter (table : String) (change : List IndexRow → List IndexRow) (tables : Memory) :
    Except String Unit × Memory :=
  match tables.get? table with
  | some rows => (.ok (), tables.insert table (change rows))
  | none => (.error "no such table", tables)

def run (c : Command) (tables : Memory) : Except String Unit × Memory :=
  match c with
  | .ping | .createDatabase => (.ok (), tables)
  | .createTable table => (.ok (), tables.insert table ((tables.get? table).getD []))
  | .dropTable table => (.ok (), tables.erase table)
  | .deleteRow table id => alter table (fun rows => rows.filter (·.id ≠ id)) tables
  | .insert table added => alter table (· ++ added) tables

/-- Whether a text occurs in a message, in letters of any case. -/
def occurs (part message : String) : Bool :=
  Text.occursIn (Text.lowerChars part.toList) (Text.lowerChars message.toList)

/-- The rows that a query pages through. -/
def found (q : Query) (tables : Memory) : List IndexRow :=
  firstOfEach (((tables.entries.filter fun e => Pattern.test q.pattern e.1).flatMap fun e =>
    e.2.filter (q.selects occurs)).mergeSort newestFirst)

def server : Server (StateM Memory) where
  run c := ExceptT.mk fun tables => run c tables
  tables pattern := ExceptT.mk fun tables =>
    (.ok ((tables.keys.filter (Pattern.test pattern)).mergeSort fun a b => decide (a ≤ b)), tables)
  rows q := ExceptT.mk fun tables => (.ok (q.page (found q tables)), tables)

theorem finds (q : Query) (tables : Memory) : q.Finds occurs tables.get? (found q tables) := by
  have hget (name : String) (rows : List IndexRow) :
      tables.get? name = some rows ↔ (name, rows) ∈ tables.entries := Table.find?_eq_some tables.nodup
  constructor
  · intro r hr
    have hr := List.mem_mergeSort.mp (mem_of_mem_firstOfEach hr)
    obtain ⟨⟨name, rows⟩, hentry, hr⟩ := List.mem_flatMap.mp hr
    obtain ⟨hentry, hmatch⟩ := List.mem_filter.mp hentry
    obtain ⟨hr, hselects⟩ := List.mem_filter.mp hr
    exact ⟨name, rows, hmatch, (hget name rows).mpr hentry, hr, hselects⟩
  · intro name rows hmatch hrows r hr hselects
    apply exists_firstOfEach
    refine List.mem_mergeSort.mpr (List.mem_flatMap.mpr ⟨(name, rows), ?_, ?_⟩)
    · exact List.mem_filter.mpr ⟨(hget name rows).mp hrows, hmatch⟩
    · exact List.mem_filter.mpr ⟨hr, hselects⟩

private theorem ends_alter (table : String) (change : List IndexRow → List IndexRow) (tables : Memory) :
    Ends (ExceptT.mk (alter table change) : ExceptT String (StateM Memory) Unit) tables
      (fun _ after => ∀ name, after.get? name =
        if table = name then (tables.get? name).map change else tables.get? name)
      fun _ after => after = tables := by
  have hrun : ((ExceptT.mk (alter table change) : ExceptT String (StateM Memory) Unit).run.run tables :
      Except String Unit × Memory) = alter table change tables := rfl
  rw [Ends, hrun, alter]
  cases hget : tables.get? table with
  | none => rfl
  | some rows =>
    intro name
    rw [Table.get?_insert]
    split
    · rename_i heq
      rw [← heq, hget, Option.map_some]
    · rfl

theorem ends_run (c : Command) (tables : Memory) :
    Ends (server.run c) tables
      (fun _ after => ∀ name, after.get? name = c.leaves name (tables.get? name))
      fun _ after => after = tables := by
  cases c with
  | ping => exact fun _ => rfl
  | createDatabase => exact fun _ => rfl
  | createTable table =>
    intro name
    rw [Table.get?_insert, Command.leaves]
    split
    · rename_i heq
      rw [heq]
    · rfl
  | dropTable table => exact Table.get?_erase tables table
  | deleteRow table id => exact ends_alter table _ tables
  | insert table added => exact ends_alter table _ tables

theorem keeps (pre : String) : server.Keeps occurs pre Table.get? where
  run c tables := (ends_run c tables).mono (fun _ _ h => h) fun _ _ h name => .inl (by rw [h])
  tables tenant tables := by
    have hmem (name : String) : name ∈ tables.keys ↔ (tables.get? name).isSome := by
      rw [Option.isSome_iff_exists]
      simp [Table.get?, Table.find?_eq_some tables.nodup, Table.keys]
    refine ⟨rfl, fun name => ?_⟩
    rw [List.mem_mergeSort, List.mem_filter, hmem]
  rows q tenant tables _ := ⟨rfl, found q tables, finds q tables, rfl⟩

end Memory

end AuditTrail.Columnar

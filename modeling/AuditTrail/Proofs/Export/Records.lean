import AuditTrail.Export
import AuditTrail.Proofs.Time.Written
/-!
# Written records

The form of comma-separated values as rules, without a reader: what stands for a field, for a record and for
several records. `Csv.read_eq_some_iff`: the reader finds the records of a text that has this form, and finds
none in any other text. So a text stands for one list of records at most.
-/

namespace AuditTrail

namespace Csv

/-! ## The rules -/

/-- What stands for a field: the field as it is, or in quotes with its own quotes doubled. -/
inductive FieldWritten : List Char → List Char → Prop where
  | bare {cs : List Char} (h : ∀ c ∈ cs, isSpecial c = false) : FieldWritten cs cs
  | quoted (cs : List Char) : FieldWritten ('"' :: doubleQuotes cs ++ ['"']) cs

/-- What stands for a record: its fields with commas between them, and a line feed. -/
inductive RecordWritten : List Char → List String → Prop where
  | last {text : List Char} {field : String} (h : FieldWritten text field.toList) :
      RecordWritten (text ++ ['\n']) [field]
  | more {text rest : List Char} {field : String} {fields : List String}
      (h : FieldWritten text field.toList) (hrest : RecordWritten rest fields) :
      RecordWritten (text ++ ',' :: rest) (field :: fields)

/-- What stands for several records: one after the other. -/
inductive Written : List Char → List (List String) → Prop where
  | nil : Written [] []
  | cons {text rest : List Char} {record : List String} {records : List (List String)}
      (h : RecordWritten text record) (hrest : Written rest records) :
      Written (text ++ rest) (record :: records)

def EndsField (c : Char) : Prop := c = ',' ∨ c = '\n'

variable {c : Char} {cs text rest field : List Char} {record fields : List String}
  {records : List (List String)} {place : Place}

@[simp] private theorem doubleQuotes_nil : doubleQuotes [] = [] := rfl

private theorem doubleQuotes_cons (c : Char) (cs : List Char) :
    doubleQuotes (c :: cs) = (if c = '"' then ['"', '"'] else [c]) ++ doubleQuotes cs := rfl

/-! ## One step of the reader -/

private theorem readFrom_cons : readFrom place field record (c :: rest) =
    match place with
    | .quoted =>
      if c = '"' then readFrom .quote field record rest else readFrom .quoted (field ++ [c]) record rest
    | .start =>
      if c = '"' then readFrom .quoted field record rest else readFrom .bare field record (c :: rest)
    | .quote =>
      if c = '"' then readFrom .quoted (field ++ ['"']) record rest
      else if c = ',' ∨ c = '\n' then readFrom .bare field record (c :: rest)
      else none
    | .bare =>
      if c = ',' then readFrom .start [] (record ++ [String.ofList field]) rest
      else if c = '\n' then
        (readFrom .start [] [] rest).map fun records => (record ++ [String.ofList field]) :: records
      else if isSpecial c then none
      else readFrom .bare (field ++ [c]) record rest := by
  cases place with
  | quoted => rw [readFrom]
  | bare => simp [readFrom]
  | start =>
    by_cases hc : c = '"'
    · subst hc
      simp [readFrom]
    · simp [readFrom, hc]
  | quote =>
    by_cases hc : c = '"'
    · subst hc
      simp [readFrom]
    · by_cases hend : c = ',' ∨ c = '\n'
      · rcases hend with rfl | rfl <;> simp [readFrom]
      · have hnone := not_or.mp hend
        simp [readFrom, hc, hnone]

private theorem readFrom_nil (h : readFrom place field record [] = some records) :
    place = .start ∧ record = [] ∧ records = [] := by
  unfold readFrom at h
  split at h <;> simp_all

private theorem readFrom_quoted (hc : c ≠ '"') :
    readFrom .quoted field record (c :: rest) = readFrom .quoted (field ++ [c]) record rest :=
  readFrom_cons.trans (if_neg hc)

private theorem readFrom_quoted_quote :
    readFrom .quoted field record ('"' :: rest) = readFrom .quote field record rest :=
  readFrom_cons.trans (if_pos rfl)

private theorem readFrom_start_quote :
    readFrom .start field record ('"' :: rest) = readFrom .quoted field record rest :=
  readFrom_cons.trans (if_pos rfl)

private theorem readFrom_quote_quote :
    readFrom .quote field record ('"' :: rest) = readFrom .quoted (field ++ ['"']) record rest :=
  readFrom_cons.trans (if_pos rfl)

private theorem readFrom_start (hc : c ≠ '"') :
    readFrom .start field record (c :: rest) = readFrom .bare field record (c :: rest) :=
  readFrom_cons.trans (if_neg hc)

private theorem readFrom_plain (hplace : place = .start ∨ place = .bare) (hc : isSpecial c = false) :
    readFrom place field record (c :: rest) = readFrom .bare (field ++ [c]) record rest := by
  have hne := hc
  simp only [isSpecial, Bool.or_eq_false_iff, beq_eq_false_iff_ne] at hne
  obtain ⟨⟨⟨hcomma, hquote⟩, hline⟩, -⟩ := hne
  have hbare : readFrom .bare field record (c :: rest) = readFrom .bare (field ++ [c]) record rest := by
    simp [readFrom_cons, hcomma, hline, hc]
  rcases hplace with rfl | rfl
  · rw [readFrom_start hquote, hbare]
  · exact hbare

private theorem readFrom_comma (hplace : place ≠ .quoted) :
    readFrom place field record (',' :: rest) = readFrom .start [] (record ++ [String.ofList field]) rest := by
  cases place with
  | quoted => exact absurd rfl hplace
  | _ => simp [readFrom_cons]

private theorem readFrom_line (hplace : place ≠ .quoted) :
    readFrom place field record ('\n' :: rest) =
      (readFrom .start [] [] rest).map fun records => (record ++ [String.ofList field]) :: records := by
  cases place with
  | quoted => exact absurd rfl hplace
  | _ => simp [readFrom_cons]

private theorem readFrom_bare_special (hc : isSpecial c = true) (hend : ¬EndsField c) :
    readFrom .bare field record (c :: rest) = none := by
  simp only [EndsField, not_or] at hend
  simp [readFrom_cons, hc, hend]

private theorem readFrom_endsField (hplace : place ≠ .quoted) (hc : EndsField c) :
    readFrom place field record (c :: rest) = readFrom .quote field record (c :: rest) := by
  rcases hc with rfl | rfl
  · rw [readFrom_comma hplace, readFrom_comma (by decide)]
  · rw [readFrom_line hplace, readFrom_line (by decide)]

/-! ## What is written is read -/

private theorem readFrom_bare (hcs : ∀ x ∈ cs, isSpecial x = false) (hc : EndsField c) :
    readFrom .bare field record (cs ++ c :: rest) = readFrom .quote (field ++ cs) record (c :: rest) := by
  induction cs generalizing field with
  | nil =>
    rw [List.append_nil]
    exact readFrom_endsField (by decide) hc
  | cons x cs ih =>
    rw [List.forall_mem_cons] at hcs
    rw [List.cons_append, readFrom_plain (.inr rfl) hcs.1, ih hcs.2, List.append_assoc, List.singleton_append]

private theorem readFrom_doubleQuotes (cs field rest : List Char) (record : List String) :
    readFrom .quoted field record (doubleQuotes cs ++ '"' :: rest) =
      readFrom .quote (field ++ cs) record rest := by
  induction cs generalizing field with
  | nil => rw [doubleQuotes_nil, List.nil_append, readFrom_quoted_quote, List.append_nil]
  | cons x cs ih =>
    rw [doubleQuotes_cons, List.append_assoc]
    split
    · rename_i hx
      subst hx
      rw [List.cons_append, readFrom_quoted_quote, List.singleton_append, readFrom_quote_quote, ih,
        List.append_assoc, List.singleton_append]
    · rename_i hx
      rw [List.singleton_append, readFrom_quoted hx, ih, List.append_assoc, List.singleton_append]

private theorem FieldWritten.read (h : FieldWritten text cs) (hc : EndsField c) :
    readFrom .start [] record (text ++ c :: rest) = readFrom .quote cs record (c :: rest) := by
  cases h with
  | bare hcs =>
    cases cs with
    | nil => exact readFrom_endsField (by decide) hc
    | cons x cs =>
      rw [List.forall_mem_cons] at hcs
      rw [List.cons_append, readFrom_plain (.inl rfl) hcs.1]
      exact readFrom_bare hcs.2 hc
  | quoted =>
    rw [List.append_assoc, List.cons_append, readFrom_start_quote]
    exact readFrom_doubleQuotes cs [] (c :: rest) record

private theorem RecordWritten.read (h : RecordWritten text fields) :
    readFrom .start [] record (text ++ rest) =
      (readFrom .start [] [] rest).map fun records => (record ++ fields) :: records := by
  induction h generalizing record with
  | last h =>
    rw [List.append_assoc, List.singleton_append, h.read (.inr rfl), readFrom_line (by decide),
      String.ofList_toList]
  | more h _ ih =>
    rw [List.append_assoc, List.cons_append, h.read (.inl rfl), readFrom_comma (by decide),
      String.ofList_toList, ih]
    simp only [List.append_assoc, List.singleton_append]

theorem Written.read (h : Written text records) : Csv.read text = some records := by
  induction h with
  | nil => rfl
  | cons h _ ih =>
    rw [Csv.read, h.read, ← Csv.read, ih]
    rfl

/-! ## What is read is written -/

private theorem exists_bare (h : readFrom .bare field record cs = some records) :
    ∃ text c rest, cs = text ++ c :: rest ∧ (∀ x ∈ text, isSpecial x = false) ∧ EndsField c ∧
      readFrom .quote (field ++ text) record (c :: rest) = some records := by
  induction cs generalizing field with
  | nil => cases (readFrom_nil h).1
  | cons x cs ih =>
    by_cases hx : EndsField x
    · refine ⟨[], x, cs, rfl, by simp, hx, ?_⟩
      rw [List.append_nil]
      exact (readFrom_endsField (by decide) hx).symm.trans h
    · cases hspecial : isSpecial x with
      | true =>
        rw [readFrom_bare_special hspecial hx] at h
        cases h
      | false =>
        rw [readFrom_plain (.inr rfl) hspecial] at h
        obtain ⟨text, c, rest, rfl, htext, hc, hread⟩ := ih h
        refine ⟨x :: text, c, rest, rfl, List.forall_mem_cons.mpr ⟨hspecial, htext⟩, hc, ?_⟩
        rw [← List.singleton_append, ← List.append_assoc]
        exact hread

private theorem exists_quoted (h : readFrom .quoted field record cs = some records) :
    ∃ inner rest, cs = doubleQuotes inner ++ '"' :: rest ∧ rest.head? ≠ some '"' ∧
      readFrom .quote (field ++ inner) record rest = some records := by
  -- Two quotes inside the field are read at once, so the induction is on the length.
  induction hn : cs.length using Nat.strongRecOn generalizing cs field with
  | _ n ih =>
    subst hn
    cases cs with
    | nil => cases (readFrom_nil h).1
    | cons x cs =>
      by_cases hx : x = '"'
      · subst hx
        rw [readFrom_quoted_quote] at h
        by_cases hquote : cs.head? = some '"'
        · obtain ⟨cs, rfl⟩ := List.head?_eq_some_iff.mp hquote
          rw [readFrom_quote_quote] at h
          obtain ⟨inner, rest, rfl, hrest, hread⟩ := ih _ (by simp only [List.length_cons]; omega) h rfl
          refine ⟨'"' :: inner, rest, rfl, hrest, ?_⟩
          rw [← List.singleton_append, ← List.append_assoc]
          exact hread
        · refine ⟨[], cs, rfl, hquote, ?_⟩
          rw [List.append_nil]
          exact h
      · rw [readFrom_quoted hx] at h
        obtain ⟨inner, rest, rfl, hrest, hread⟩ := ih _ (by simp) h rfl
        refine ⟨x :: inner, rest, by simp [doubleQuotes_cons, hx], hrest, ?_⟩
        rw [← List.singleton_append, ← List.append_assoc]
        exact hread

private theorem exists_endsField (h : readFrom .quote field record cs = some records)
    (hquote : cs.head? ≠ some '"') : ∃ c rest, cs = c :: rest ∧ EndsField c := by
  cases cs with
  | nil => cases (readFrom_nil h).1
  | cons c rest =>
    by_cases hc : EndsField c
    · exact ⟨c, rest, rfl, hc⟩
    · simp only [EndsField, not_or] at hc
      have hne : c ≠ '"' := by simpa using hquote
      simp [readFrom_cons, hne, hc] at h

private theorem exists_field (h : readFrom .start [] record cs = some records) :
    (cs = [] ∧ record = [] ∧ records = []) ∨
      ∃ text field c rest, cs = text ++ c :: rest ∧ FieldWritten text field ∧ EndsField c ∧
        readFrom .quote field record (c :: rest) = some records := by
  cases cs with
  | nil =>
    left
    exact ⟨rfl, (readFrom_nil h).2⟩
  | cons x cs =>
    right
    by_cases hx : x = '"'
    · subst hx
      rw [readFrom_start_quote] at h
      obtain ⟨inner, rest, rfl, hquote, hread⟩ := exists_quoted h
      obtain ⟨c, rest, rfl, hc⟩ := exists_endsField hread hquote
      exact ⟨_, inner, c, rest, by simp, .quoted inner, hc, hread⟩
    · rw [readFrom_start hx] at h
      obtain ⟨text, c, rest, htext, hplain, hc, hread⟩ := exists_bare h
      exact ⟨text, text, c, rest, htext, .bare hplain, hc, hread⟩

private theorem exists_record (h : readFrom .start [] record cs = some records) :
    (cs = [] ∧ record = [] ∧ records = []) ∨
      ∃ text rest fields later, cs = text ++ rest ∧ text ≠ [] ∧ RecordWritten text fields ∧
        records = (record ++ fields) :: later ∧ read rest = some later := by
  induction hn : cs.length using Nat.strongRecOn generalizing cs record with
  | _ n ih =>
    subst hn
    obtain hend | ⟨text, field, c, rest, rfl, hfield, hc, hread⟩ := exists_field h
    · exact .inl hend
    · right
      have hfield' : FieldWritten text (String.ofList field).toList := by rwa [String.toList_ofList]
      rcases hc with rfl | rfl
      · rw [readFrom_comma (by decide)] at hread
        obtain ⟨-, hnil, -⟩ | ⟨text', rest', fields, later, rfl, -, hfields, rfl, hlater⟩ :=
          ih _ (by simp; omega) hread rfl
        · simp at hnil
        · refine ⟨text ++ ',' :: text', rest', String.ofList field :: fields, later, by simp, by simp,
            .more hfield' hfields, by simp, hlater⟩
      · rw [readFrom_line (by decide)] at hread
        obtain ⟨later, hlater, rfl⟩ := Option.map_eq_some_iff.mp hread
        refine ⟨text ++ ['\n'], rest, [String.ofList field], later, by simp, by simp, .last hfield', rfl, ?_⟩
        exact hlater

private theorem written_of_read (h : read cs = some records) : Written cs records := by
  induction hn : cs.length using Nat.strongRecOn generalizing cs records with
  | _ n ih =>
    subst hn
    obtain ⟨rfl, -, rfl⟩ | ⟨text, rest, fields, later, rfl, htext, hfields, rfl, hlater⟩ :=
      exists_record h
    · exact .nil
    · refine .cons hfields (ih _ ?_ hlater rfl)
      have := List.length_pos_iff.mpr htext
      rw [List.length_append]
      omega

theorem read_eq_some_iff : read cs = some records ↔ Written cs records := ⟨written_of_read, Written.read⟩

/-! ## Exports -/

private theorem fieldWritten_fieldChars (value : String) : FieldWritten (fieldChars value) value.toList := by
  unfold fieldChars
  dsimp only
  split
  · exact .quoted _
  · rename_i h
    exact .bare (by simpa using h)

private theorem recordWritten_recordChars {record : List String} (h : record ≠ []) :
    RecordWritten (recordChars record) record := by
  induction record with
  | nil => exact absurd rfl h
  | cons field fields ih =>
    cases fields with
    | nil => exact .last (fieldWritten_fieldChars field)
    | cons next rest => exact .more (fieldWritten_fieldChars field) (ih (List.cons_ne_nil _ _))

private theorem written_chars {records : List (List String)} (h : ∀ record ∈ records, record ≠ []) :
    Written (chars records) records := by
  induction records with
  | nil => exact .nil
  | cons record records ih =>
    rw [List.forall_mem_cons] at h
    exact .cons (recordWritten_recordChars h.1) (ih h.2)

end Csv

namespace ExportFormat

/-- The text of exported events is read as a header and one record for each event, in their order, with the
fields of the event unchanged, and the rules allow no other reading. What the last fields say is the second
that the event happened in. -/
theorem export_read_back (events : List Event) :
    let text := (csv.render events).toList
    let records := ["ID", "TenantID", "UserID", "SessionID", "Action", "Resource", "ResourceID", "IPAddress",
        "UserAgent", "Severity", "Timestamp"] ::
      events.map fun e => [e.id, e.tenant.name, e.userId, e.sessionId, e.action, e.resourceType,
        e.resourceId, e.ipAddress, e.userAgent, e.severity.word, e.timestamp.writtenToSecond]
    Csv.read text = some records ∧
      (∀ others, Csv.Written text others ↔ others = records) ∧
      ∀ t : Instant, Instant.ofText? t.writtenToSecond = some t.startOfSecond := by
  intro text records
  have htext : text = Csv.chars records := String.toList_ofList
  have hwritten : Csv.Written text records := by
    rw [htext]
    refine Csv.written_chars fun record hrecord => ?_
    rcases List.mem_cons.mp hrecord with rfl | hrecord
    · exact List.cons_ne_nil _ _
    · obtain ⟨e, -, rfl⟩ := List.mem_map.mp hrecord
      exact List.cons_ne_nil _ _
  refine ⟨hwritten.read, fun others => ⟨fun hothers => ?_, fun h => h ▸ hwritten⟩, fun t => ?_⟩
  · exact Option.some.inj (hothers.read.symm.trans hwritten.read)
  · exact t.ofText?_writtenToSecond

end ExportFormat

end AuditTrail

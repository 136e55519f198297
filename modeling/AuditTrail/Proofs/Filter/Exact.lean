import AuditTrail.Gateway.Reading
import AuditTrail.Proofs.Filter.Pages
import AuditTrail.Proofs.Number.Integers
import AuditTrail.Proofs.Tenant.Names
/-!
# Parameters that name the value of a field

Seven parameters of a listing name the value that a field has to have. A value loses the blanks at its ends before
it is compared, and is dropped when nothing is left of it; the fields of events keep their blanks. So an event is
found by the value of its own field if that has no blanks at its ends, or nothing but blanks.
-/

namespace AuditTrail

/-! ## Texts without blanks at their ends -/

private theorem Text.trim_eq_self {s : String} (h : ∀ c ∈ s.toList, Text.isBlank c = false) : Text.trim s = s := by
  have hkept {cs : List Char} (hcs : ∀ c ∈ cs, Text.isBlank c = false) : Text.trimLeft cs = cs := by
    cases cs with
    | nil => rfl
    | cons c rest => rw [Text.trimLeft, List.dropWhile_cons_of_neg (by simp [hcs c List.mem_cons_self])]
  rw [Text.trim, Text.trimChars, hkept h, hkept fun c hc => h c (List.mem_reverse.mp hc), List.reverse_reverse,
    String.ofList_toList]

namespace FilterParameters

private theorem nonBlank_some (s : String) :
    nonBlank (some s) = if Text.blank s then none else some (Text.trim s) := by
  rw [nonBlank, Option.map_some, Option.filter_some]
  by_cases h : Text.blank s = true
  · rw [if_pos h, Text.trim_eq_empty_iff.mpr h]
    rfl
  · have hne : Text.trim s ≠ "" := fun hempty => h (Text.trim_eq_empty_iff.mp hempty)
    rw [if_neg h, if_pos (by simpa using hne)]

private theorem number_decimal {n : Int} (hlo : minInt 64 ≤ n) (hhi : n ≤ maxInt 64) :
    number (some (toString n)) = n := by
  have hsolid : ∀ c ∈ (toString n).toList, Text.isBlank c = false := by
    intro c hc
    rcases isDigit_of_mem_decimal hc with hdigit | rfl
    · simp only [Char.isDigit, Bool.and_eq_true, decide_eq_true_eq] at hdigit
      have hlo : 48 ≤ c.toNat := hdigit.1
      have hhi : c.toNat ≤ 57 := hdigit.2
      simp only [Text.isBlank, Bool.or_eq_false_iff, Bool.and_eq_false_iff, decide_eq_false_iff_not,
        beq_eq_false_iff_ne]
      omega
    · decide
  have hne : toString n ≠ "" := by
    intro hempty
    have hread := parseInteger_decimal hlo hhi
    rw [hempty] at hread
    cases hread
  have hkept : nonBlank (some (toString n)) = some (toString n) := by
    rw [nonBlank_some, Text.trim_eq_self hsolid, if_neg]
    intro hblank
    rw [← Text.trim_eq_empty_iff, Text.trim_eq_self hsolid] at hblank
    exact hne hblank
  rw [number, hkept, Option.bind_some, parseInteger_decimal hlo hhi, Option.getD_some]

end FilterParameters

/-! ## Fields -/

/-- The fields that a parameter names the value of. -/
inductive ExactField where
  | userId
  | action
  | resourceType
  | resourceId
  | sessionId
  | ipAddress
  | userAgent

namespace ExactField

def name : ExactField → String
  | userId => "user_id"
  | action => "action"
  | resourceType => "resource_type"
  | resourceId => "resource_id"
  | sessionId => "session_id"
  | ipAddress => "ip_address"
  | userAgent => "user_agent"

def value : ExactField → Event → String
  | userId => Event.userId
  | action => Event.action
  | resourceType => Event.resourceType
  | resourceId => Event.resourceId
  | sessionId => Event.sessionId
  | ipAddress => Event.ipAddress
  | userAgent => Event.userAgent

/-- The filter with no other criterion than that the field has a value, if one is given. -/
def filter (x : ExactField) (wanted : Option String) (page pageSize : Int) : Filter :=
  let all := Filter.all page pageSize
  match x with
  | userId => { all with userId := wanted }
  | action => { all with action := wanted }
  | resourceType => { all with resourceType := wanted }
  | resourceId => { all with resourceId := wanted }
  | sessionId => { all with sessionId := wanted }
  | ipAddress => { all with ipAddress := wanted }
  | userAgent => { all with userAgent := wanted }

/-- What is searched for a value of the field: the value without the blanks at its ends, if anything is left. -/
def search (x : ExactField) (value : String) (pageSize : Option Int) : Filter :=
  x.filter (FilterParameters.nonBlank (some value)) 1 (pageSize.getD 0)

/-- The parameters that name a value for the field and ask for a page, which may be of the usual size. -/
def parameters (x : ExactField) (value : String) (pageSize : Option Int) (page : Int) : List (String × String) :=
  (x.name, value) :: ("page", toString page) :: (pageSize.map toString).toList.map ("page_size", ·)

variable {x : ExactField} {value : String} {pageSize : Option Int} {page : Int}

private theorem onPage_filter (x : ExactField) (wanted : Option String) (page number pageSize : Int) :
    (x.filter wanted page pageSize).onPage number = x.filter wanted number pageSize := by
  cases x <;> rfl

private theorem admits_filter (x : ExactField) (wanted : Option String) (page pageSize : Int) (e : Event) :
    (x.filter wanted page pageSize).admits e = true ↔ ∀ s ∈ wanted, s = x.value e := by
  cases wanted with
  | none => cases x <;> simp [filter, Filter.all, Filter.admits, Filter.meets]
  | some s => cases x <;> simp [filter, Filter.all, Filter.admits, Filter.meets, value]

/-- An event is found by a value if that is blank, or is the one of the event when it has lost its blanks. -/
theorem admits_search (x : ExactField) (value : String) (pageSize : Option Int) (e : Event) :
    (x.search value pageSize).admits e = true ↔ Text.blank value = true ∨ Text.trim value = x.value e := by
  rw [search, admits_filter, FilterParameters.nonBlank_some]
  by_cases h : Text.blank value = true
  · simp [h]
  · simp [h]

private theorem lookup_parameters (x : ExactField) (value : String) (pageSize : Option Int) (page : Int) :
    Gateway.parameters? FilterParameters.names (x.parameters value pageSize page) =
      some ((x.parameters value pageSize page).lookup ·) := by
  cases pageSize with
  | none => cases x <;> rfl
  | some n => cases x <;> rfl

private theorem toFilter_given (x : ExactField) (s page : String) (pageSize : Option String) :
    (FilterParameters.ofLookup
        (((x.name, s) :: ("page", page) :: pageSize.toList.map ("page_size", ·)).lookup ·)).toFilter =
      .ok (x.filter (FilterParameters.nonBlank (some s)) (FilterParameters.number (some page))
        (FilterParameters.number pageSize)) := by
  have hnone : FilterParameters.nonBlank none = none := rfl
  have hlast : (pageSize.toList.map ("page_size", ·)).lookup "page_size" = pageSize := by
    cases pageSize <;> rfl
  have hothers {n : String} (hn : n ≠ "page_size") : (pageSize.toList.map ("page_size", ·)).lookup n = none := by
    cases pageSize with
    | none => rfl
    | some k => simp [List.lookup_cons, beq_false_of_ne hn]
  cases x <;>
    simp [FilterParameters.toFilter, FilterParameters.ofLookup, name, List.lookup_cons,
      FilterParameters.convert, hnone, hlast, hothers, filter, Filter.all]

theorem readFilter_parameters {r : Http.Request} (hquery : r.query = x.parameters value pageSize page)
    (hpage : minInt 64 ≤ page ∧ page ≤ maxInt 64) (hsize : ∀ n ∈ pageSize, minInt 64 ≤ n ∧ n ≤ maxInt 64) :
    Gateway.readFilter r = pure ((x.search value pageSize).onPage page) := by
  have hnumber : FilterParameters.number (pageSize.map toString) = pageSize.getD 0 := by
    cases pageSize with
    | none => rfl
    | some n => exact FilterParameters.number_decimal (hsize n rfl).1 (hsize n rfl).2
  have hfilter := x.toFilter_given value (toString page) (pageSize.map toString)
  rw [FilterParameters.number_decimal hpage.1 hpage.2, hnumber, ← onPage_filter x _ 1 page] at hfilter
  rw [Gateway.readFilter, Gateway.readParameters, hquery, lookup_parameters, pure_bind]
  exact congrArg Gateway.accept hfilter

end ExactField

end AuditTrail

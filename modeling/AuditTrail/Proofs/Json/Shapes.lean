import AuditTrail.Json.Reader
import Mathlib.Data.List.Forall2
/-!
# The structures that texts are read as

Which structures of texts a reader takes, and what for, without the reader. `Json.Gives` says what the fields
of a structure are: the members of an object, each known name at most once and others left aside, or the
items of an array by position. A field is then there, `Json.Holds`, or may be missing, `Json.HoldsOr`.
-/

namespace AuditTrail

namespace Json

theorem exists_of_forall₂ {α β : Type} {R : α → β → Prop} {xs : List α} {ys : List β}
    (h : List.Forall₂ R xs ys) : ∀ y ∈ ys, ∃ x, R x y := by
  induction h with
  | nil => simp
  | cons hxy _ ih => exact List.forall_mem_cons.mpr ⟨⟨_, hxy⟩, ih⟩

theorem bind_eq_some {α β : Type} {x : Option α} {f : α → Option β} {y : β} :
    (x >>= f) = some y ↔ ∃ a, x = some a ∧ f a = some y := Option.bind_eq_some_iff

/-! ## Values -/

def IsText (s : String) (t : Tree) : Prop := t = .text (some s)

/-- A text, or `null` for none. -/
def IsTextOrNull (s : Option String) (t : Tree) : Prop :=
  t = .null ∧ s = none ∨ ∃ x, t = .text (some x) ∧ s = some x

/-- A word as a text, or as the name of the only member of an object, which is `null`. -/
def IsWord (w : String) (t : Tree) : Prop := t = .text (some w) ∨ t = .object [(some w, .null)]

/-- Any value of at most so many levels of nesting, or `null` for none. -/
def IsBlob (depth : Nat) (v : Option Json) (t : Tree) : Prop :=
  t = .null ∧ v = none ∨ t ≠ .null ∧ ∃ w, Reader.json depth t = some w ∧ v = some w

namespace Reader

theorem text_eq_some {depth : Nat} {t : Tree} {s : String} : text depth t = some s ↔ IsText s t := by
  unfold IsText
  cases t <;> simp [text]

theorem optional_text_eq_some {depth : Nat} {t : Tree} {s : Option String} :
    optional text depth t = some s ↔ IsTextOrNull s t := by
  unfold IsTextOrNull
  cases t <;> simp [optional, text, eq_comm]

theorem word_eq_some {α : Type} {meaning : String → Option α} {x : α} {w : String}
    (h : ∀ s, meaning s = some x ↔ s = w) {depth : Nat} {t : Tree} :
    word meaning (depth + 1) t = some x ↔ IsWord w t := by
  unfold IsWord word
  split <;> simp_all [Option.bind_eq_some_iff]

theorem andThen_eq_some {α β : Type} {read : Reader α} {convert : α → Option β} {depth : Nat} {t : Tree}
    {y : β} : andThen read convert depth t = some y ↔ ∃ x, read depth t = some x ∧ convert x = some y :=
  Option.bind_eq_some_iff

theorem optional_json_eq_some {depth : Nat} {t : Tree} {v : Option Json} :
    optional json depth t = some v ↔ IsBlob depth v t := by
  have hvalue : (json depth t).map some = some v ↔ ∃ w, json depth t = some w ∧ v = some w := by
    constructor
    · intro h
      obtain ⟨w, hw, rfl⟩ := Option.map_eq_some_iff.mp h
      exact ⟨w, hw, rfl⟩
    · rintro ⟨w, hw, rfl⟩
      rw [hw]
      rfl
  unfold IsBlob
  cases t with
  | null => simp [optional, eq_comm]
  | _ => simpa [optional] using hvalue

theorem list_eq_some {α : Type} {read : Reader α} {depth : Nat} {t : Tree} {xs : List α} :
    list read (depth + 1) t = some xs ↔
      ∃ items, t = .array items ∧ List.Forall₂ (fun t x => read depth t = some x) items xs := by
  have hitems (items : List Tree) :
      items.mapM (read depth) = some xs ↔ List.Forall₂ (fun t x => read depth t = some x) items xs := by
    induction items generalizing xs with
    | nil => simp [eq_comm]
    | cons t rest ih =>
      simp only [List.mapM_cons, Option.bind_eq_bind, Option.bind_eq_some_iff, List.forall₂_cons_left_iff]
      constructor
      · rintro ⟨x, hx, ys, hys, h⟩
        cases h
        exact ⟨x, ys, hx, ih.mp hys, rfl⟩
      · rintro ⟨x, ys, hx, hys, rfl⟩
        exact ⟨x, hx, ys, ih.mpr hys, rfl⟩
  cases t <;> simp [list, hitems]

end Reader

/-! ## Fields -/

/-- A structure gives these fields of some names. In an object all names have to be texts, and none of those
that are known stands twice; an array gives the first of the fields. -/
inductive Gives (names : List String) : Tree → (String → Option Tree) → Prop
  | object (members : List (String × Tree)) (honce : ∀ name ∈ names, (members.map Prod.fst).count name ≤ 1) :
      Gives names (.object (members.map fun m => (some m.1, m.2))) fun name => members.lookup name
  | array (items : List Tree) (hlength : items.length ≤ names.length) :
      Gives names (.array items) fun name => (names.zip items).lookup name

def Holds (given : String → Option Tree) (name : String) (P : Tree → Prop) : Prop :=
  ∃ t, given name = some t ∧ P t

/-- A field that is there or stands for something when it is missing. -/
def HoldsOr (given : String → Option Tree) (name : String) (P : Tree → Prop) (missing : Prop) : Prop :=
  match given name with
  | some t => P t
  | none => missing

theorem hasRepeated_eq_false_iff {names : List String} : hasRepeated names = false ↔ names.Nodup := by
  induction names with
  | nil => simp [hasRepeated]
  | cons n rest ih => simp [hasRepeated, ih]

/-- Leaving members of other names aside does not change what is found under a name. -/
theorem lookup_filter_known {names : List String} {name : String} (hname : name ∈ names)
    (members : List (String × Tree)) :
    (members.filter fun m => names.contains m.1).lookup name = members.lookup name := by
  induction members with
  | nil => rfl
  | cons m rest ih =>
    rw [List.filter_cons, List.lookup_cons]
    split
    · rw [List.lookup_cons, ih]
    · rename_i hother
      have hne : (name == m.1) = false := by
        rw [beq_eq_false_iff_ne]
        rintro rfl
        simp [hname] at hother
      rw [ih, hne]

private theorem nodup_known {names : List String} {members : List (String × Tree)} :
    ((members.filter fun m => names.contains m.1).map Prod.fst).Nodup ↔
      ∀ name ∈ names, (members.map Prod.fst).count name ≤ 1 := by
  have hknown : (members.filter fun m => names.contains m.1).map Prod.fst =
      (members.map Prod.fst).filter fun name => names.contains name := by
    rw [List.filter_map]
    rfl
  rw [hknown, List.nodup_iff_count]
  constructor
  · intro h name hname
    have hcount := h name
    rwa [List.count_filter (by simpa using hname)] at hcount
  · intro h name
    by_cases hname : name ∈ names
    · rw [List.count_filter (by simpa using hname)]
      exact h name hname
    · rw [List.count_eq_zero.mpr (by simp [hname])]
      exact Nat.zero_le 1

private theorem mapM_name_eq_some {members : List (Option String × Tree)} {named : List (String × Tree)} :
    members.mapM (fun m => m.1.map (·, m.2)) = some named ↔
      members = named.map fun m => (some m.1, m.2) := by
  induction members generalizing named with
  | nil => cases named <;> simp
  | cons m rest ih =>
    obtain ⟨name, t⟩ := m
    simp only [List.mapM_cons, Option.bind_eq_bind, Option.bind_eq_some_iff, Option.map_eq_some_iff]
    constructor
    · rintro ⟨_, ⟨n, rfl, rfl⟩, ms, hms, h⟩
      cases h
      rw [ih.mp hms, List.map_cons]
    · intro h
      cases named with
      | nil => cases h
      | cons n ns =>
        rw [List.map_cons, List.cons.injEq, Prod.mk.injEq] at h
        obtain ⟨⟨rfl, rfl⟩, hrest⟩ := h
        exact ⟨n, ⟨n.1, rfl, rfl⟩, ns, ih.mpr hrest, rfl⟩

/-- Fields that were read give what a structure gives under its names. -/
structure Fields.Match (f : Fields) (names : List String) (depth : Nat) (given : String → Option Tree) :
    Prop where
  depth_eq : f.depth = depth
  lookup : ∀ name ∈ names, f.given.lookup name = given name

section

variable {α : Type} {names : List String} {depth : Nat} {t : Tree}

theorem gives_of_fields {f : Fields} (h : fields names (depth + 1) t = some f) :
    ∃ given, Gives names t given ∧ f.Match names depth given := by
  cases t with
  | object members =>
    simp only [fields] at h
    split at h
    · rename_i named hnamed
      split at h
      · cases h
      · rename_i hrepeated
        cases h
        rw [mapM_name_eq_some.mp hnamed]
        have honce := nodup_known.mp (hasRepeated_eq_false_iff.mp (by simpa using hrepeated))
        exact ⟨_, .object named honce, rfl, fun name hname => lookup_filter_known hname named⟩
    · cases h
  | array items =>
    simp only [fields] at h
    split at h
    · rename_i hlength
      cases h
      exact ⟨_, .array items hlength, rfl, fun _ _ => rfl⟩
    · cases h
  | null => cases h
  | bool b => cases h
  | number n => cases h
  | text s => cases h

private theorem fields_of_gives {given : String → Option Tree} (h : Gives names t given) :
    ∃ f, fields names (depth + 1) t = some f ∧ f.Match names depth given := by
  cases h with
  | object members honce =>
    refine ⟨⟨depth, true, members.filter fun m => names.contains m.1⟩, ?_, rfl,
      fun name hname => lookup_filter_known hname members⟩
    have hrepeated := hasRepeated_eq_false_iff.mpr (nodup_known.mpr honce)
    rw [fields, mapM_name_eq_some.mpr rfl]
    simp only [hrepeated]
    rfl
  | array items hlength =>
    exact ⟨⟨depth, false, names.zip items⟩, if_pos hlength, rfl, fun _ _ => rfl⟩

/-- What is read from the fields of a structure is what the given fields say. -/
theorem bind_fields_eq_some {read : Fields → Option α} {x : α} {P : (String → Option Tree) → Prop}
    (h : ∀ f given, f.Match names depth given → (read f = some x ↔ P given)) :
    (fields names (depth + 1) t).bind read = some x ↔ ∃ given, Gives names t given ∧ P given := by
  rw [Option.bind_eq_some_iff]
  constructor
  · rintro ⟨f, hf, hread⟩
    obtain ⟨given, hgives, hmatch⟩ := gives_of_fields hf
    exact ⟨given, hgives, (h f given hmatch).mp hread⟩
  · rintro ⟨given, hgives, hgiven⟩
    obtain ⟨f, hf, hmatch⟩ := fields_of_gives hgives
    exact ⟨f, hf, (h f given hmatch).mpr hgiven⟩

end

namespace Fields.Match

variable {α : Type} {f : Fields} {names : List String} {depth : Nat} {given : String → Option Tree}
  {name : String} {read : Reader α} {x : α}

theorem required_eq_some (h : f.Match names depth given) (hname : name ∈ names) :
    f.required name read = some x ↔ Holds given name fun t => read depth t = some x := by
  rw [required, h.lookup name hname, h.depth_eq, Option.bind_eq_some_iff]
  rfl

theorem withDefault_eq_some (h : f.Match names depth given) (hname : name ∈ names) {default : α} :
    f.withDefault name read default = some x ↔
      HoldsOr given name (fun t => read depth t = some x) (x = default) := by
  rw [withDefault, HoldsOr, h.lookup name hname, h.depth_eq]
  cases given name <;> simp [eq_comm]

end Fields.Match

end Json

end AuditTrail

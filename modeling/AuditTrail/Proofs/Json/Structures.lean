import AuditTrail.Event.Basic
import AuditTrail.Proofs.Json.Printed
import AuditTrail.Proofs.Json.Shapes
import AuditTrail.Proofs.Json.Values
/-!
# Structures and their members

The fields of a structure are the members of the object that it is written as. A field that is required is
the member of its name, and one with a default may be missing.
-/

namespace AuditTrail

namespace Json

private theorem ofMembers_eq_map (members : List (String × Json)) :
    Tree.ofMembers members = members.map fun m => (some m.1, Tree.ofJson m.2) := by
  induction members with
  | nil => rfl
  | cons m rest ih => rw [Tree.ofMembers, ih, List.map_cons]

theorem memberNumbersAll_append (p : Number → Bool) (ms ns : List (String × Json)) :
    memberNumbersAll p (ms ++ ns) = (memberNumbersAll p ms && memberNumbersAll p ns) := by
  induction ms with
  | nil => rfl
  | cons m rest ih => rw [List.cons_append, memberNumbersAll, ih, memberNumbersAll, Bool.and_assoc]

theorem itemNumbersAll_map {α : Type} (p : Number → Bool) (f : α → Json) (xs : List α)
    (h : ∀ x ∈ xs, (f x).numbersAll p = true) : itemNumbersAll p (xs.map f) = true := by
  induction xs with
  | nil => rfl
  | cons x rest ih =>
    rw [List.map_cons, itemNumbersAll, h x (by simp), ih fun y hy => h y (by simp [hy])]
    rfl

theorem some_bind {α β : Type} (a : α) (f : α → Option β) : (some a >>= f) = f a := rfl

namespace Fields

def ofMembers (depth : Nat) (members : List (String × Json)) : Fields :=
  ⟨depth, true, members.map fun m => (m.1, Tree.ofJson m.2)⟩

private theorem lookup_given (members : List (String × Json)) (name : String) :
    (members.map fun m => (m.1, Tree.ofJson m.2)).lookup name =
      (members.lookup name).map Tree.ofJson := by
  induction members with
  | nil => rfl
  | cons m rest ih =>
    rw [List.map_cons, List.lookup_cons, List.lookup_cons, ih]
    cases name == m.1 <;> rfl

theorem required_ofMembers {α : Type} (depth : Nat) (members : List (String × Json)) (name : String)
    (read : Reader α) :
    (ofMembers depth members).required name read =
      (members.lookup name).bind fun v => read depth (Tree.ofJson v) := by
  rw [required, ofMembers, lookup_given]
  cases members.lookup name <;> rfl

theorem withDefault_ofMembers {α : Type} (depth : Nat) (members : List (String × Json)) (name : String)
    (read : Reader α) (default : α) :
    (ofMembers depth members).withDefault name read default =
      (members.lookup name).elim (some default) fun v => read depth (Tree.ofJson v) := by
  rw [withDefault, ofMembers, lookup_given]
  cases members.lookup name <;> rfl

end Fields

private theorem mapM_named (members : List (String × Json)) :
    (Tree.ofMembers members).mapM (fun (m : Option String × Tree) => m.1.map (·, m.2)) =
      some (members.map fun m => (m.1, Tree.ofJson m.2)) := by
  rw [ofMembers_eq_map]
  induction members with
  | nil => rfl
  | cons m rest ih => simp [List.mapM_cons, ih]

/-- An object of known members, each once, gives its members as fields. -/
theorem fields_ofJson {names : List String} {members : List (String × Json)} (depth : Nat)
    (h : (members.map Prod.fst).Sublist names) (hnames : names.Nodup) :
    fields names (depth + 1) (Tree.ofJson (object members)) = some (Fields.ofMembers depth members) := by
  have hknown : (members.map fun m => (m.1, Tree.ofJson m.2)).filter (fun m => names.contains m.1) =
      members.map fun m => (m.1, Tree.ofJson m.2) := by
    rw [List.filter_eq_self]
    intro m hm
    obtain ⟨k, hk, rfl⟩ := List.mem_map.mp hm
    simpa using h.subset (List.mem_map_of_mem hk)
  have hrepeated : hasRepeated ((members.map fun m => (m.1, Tree.ofJson m.2)).map Prod.fst) = false := by
    rw [List.map_map]
    exact hasRepeated_eq_false_iff.mpr (hnames.sublist h)
  rw [Tree.ofJson, fields, mapM_named]
  simp only [hknown, hrepeated]
  rfl

/-- A member that comes among the first ones of an object gives the field of its name. -/
theorem required_of_first {α : Type} {names : List String} {first : List (String × Json)}
    {more : List (Option String × Tree)} {depth : Nat} {f : Fields}
    (h : fields names (depth + 1) (.object (Tree.ofMembers first ++ more)) = some f) {name : String}
    (hname : name ∈ names) {v : Json} (hv : first.lookup name = some v) (read : Reader α) :
    f.required name read = read depth (Tree.ofJson v) := by
  rw [fields, List.mapM_append, mapM_named] at h
  cases hmore : more.mapM fun (m : Option String × Tree) => m.1.map (·, m.2) with
  | none => simp [hmore] at h
  | some others =>
    simp only [hmore, Option.bind_eq_bind, Option.bind_some, Option.pure_def] at h
    split at h
    · cases h
    · cases h
      rw [Fields.required, lookup_filter_known hname, List.lookup_append, Fields.lookup_given, hv]
      rfl

/-! ## Fields of one kind -/

namespace Reader

@[simp] theorem text_ofJson (depth : Nat) (s : String) : text depth (Tree.ofJson (.text s)) = some s := by
  rw [Tree.ofJson]
  rfl

@[simp] theorem optional_text_ofJson (depth : Nat) (s : String) :
    optional text depth (Tree.ofJson (.text s)) = some (some s) := by
  rw [Tree.ofJson]
  rfl

@[simp] theorem word_ofJson {α : Type} (meaning : String → Option α) (depth : Nat) (s : String) :
    word meaning depth (Tree.ofJson (.text s)) = meaning s := by
  rw [Tree.ofJson]
  rfl

end Reader

theorem lookup_member? (name other : String) (v : Option Json) :
    (member? name v).lookup other = if other == name then v else none := by
  cases v with
  | none => simp [member?]
  | some v =>
    simp only [member?, Option.elim_some, List.lookup_cons, List.lookup_nil]
    cases other == name <;> rfl

/-! ## Structured values -/

/-- A structured value as it is kept: no `null`, and its numbers are integers of 64 bits. -/
structure SoundBlob (v : Json) : Prop where
  not_null : v ≠ null
  ordered : v.Ordered
  words : v.numbersAll Number.isWord = true

/-- The levels of nesting of a structured value that may be absent. -/
def blobNesting (v : Option Json) : Nat := v.elim 0 nesting

private theorem Reader.ne_null_of_json {depth : Nat} {t : Tree} {v : Json} (ht : t ≠ .null)
    (h : json depth t = some v) : v ≠ .null := by
  rintro rfl
  cases t with
  | null => exact ht rfl
  | bool b => simp [json] at h
  | number n => simp [json] at h
  | text s => simp [json] at h
  | array items => cases depth <;> simp [json] at h
  | object members => cases depth <;> simp [json] at h

/-- A structured value as it is read: no `null`, and of at most so many levels of nesting. -/
structure ReadBlob (depth : Nat) (v : Json) : Prop where
  not_null : v ≠ null
  ordered : v.Ordered
  nesting_le : v.nesting ≤ depth

theorem ReadBlob.mono {depth more : Nat} {v : Json} (h : ReadBlob depth v) (hle : depth ≤ more) :
    ReadBlob more v := ⟨h.not_null, h.ordered, Nat.le_trans h.nesting_le hle⟩

theorem IsBlob.read {depth : Nat} {t : Tree} {v : Option Json} (h : IsBlob depth v t) :
    ∀ w ∈ v, ReadBlob depth w := by
  rcases h with ⟨-, rfl⟩ | ⟨hne, w, hw, rfl⟩
  · simp
  · rintro _ ⟨⟩
    exact ⟨Reader.ne_null_of_json hne hw, Reader.ordered_of_json t depth w hw,
      Reader.nesting_of_json t depth w hw⟩

private theorem blob_ofJson {v : Json} (h : SoundBlob v) (depth : Nat) :
    Reader.blob depth (Tree.ofJson v) = if v.nesting ≤ depth then some (some v) else none := by
  have hjson := Reader.json_ofJson v depth h.ordered
  have hoptional : Reader.blob depth (Tree.ofJson v) = (Reader.json depth (Tree.ofJson v)).map some := by
    cases v with
    | null => exact absurd rfl h.not_null
    | _ =>
      rw [Tree.ofJson]
      rfl
  rw [hoptional, hjson]
  split <;> rfl

/-- The member of a structured value is read back, and so is its absence. -/
theorem blob_field {v : Option Json} (h : ∀ w ∈ v, SoundBlob w) (depth : Nat) :
    (v.elim (some none) fun w => Reader.blob depth (Tree.ofJson w)) =
      if blobNesting v ≤ depth then some v else none := by
  cases v with
  | none => simp [blobNesting]
  | some w => exact blob_ofJson (h w rfl) depth

end Json

end AuditTrail

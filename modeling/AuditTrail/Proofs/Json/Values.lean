import AuditTrail.Json.Reader
/-!
# Values and their structure

`Json.Reader.json_ofJson`: a value whose members are in order is read from its own structure exactly when it
does not nest deeper than allowed. `Json.Reader.ordered_of_json`: a value that was read has its members in
order, and by `Json.Reader.nesting_of_json` it nests no deeper than allowed.
-/

namespace AuditTrail

namespace Json

mutual

def nesting : Json → Nat
  | null | bool _ | number _ | text _ => 0
  | array items => itemNesting items + 1
  | object members => memberNesting members + 1

def itemNesting : List Json → Nat
  | [] => 0
  | v :: rest => max (nesting v) (itemNesting rest)

def memberNesting : List (String × Json) → Nat
  | [] => 0
  | (_, v) :: rest => max (nesting v) (memberNesting rest)

end

mutual

/-- The members of every object are in the order of their names, each name once. -/
def Ordered : Json → Prop
  | null | bool _ | number _ | text _ => True
  | array items => ItemsOrdered items
  | object members => (members.map Prod.fst).Pairwise (· < ·) ∧ MembersOrdered members

def ItemsOrdered : List Json → Prop
  | [] => True
  | v :: rest => Ordered v ∧ ItemsOrdered rest

def MembersOrdered : List (String × Json) → Prop
  | [] => True
  | (_, v) :: rest => Ordered v ∧ MembersOrdered rest

end

/-! ## The order of members -/

private theorem insertMember_last (name : String) (v : Json) (members : List (String × Json))
    (h : ∀ m ∈ members, m.1 < name) : insertMember name v members = members ++ [(name, v)] := by
  induction members with
  | nil => rfl
  | cons m rest ih =>
    have hm := h m (by simp)
    have hne : name ≠ m.1 := by
      intro heq
      rw [heq] at hm
      exact String.lt_irrefl _ hm
    rw [insertMember, if_neg hne, if_neg (String.lt_asymm hm), ih fun m' hm' => h m' (by simp [hm'])]
    rfl

private theorem sortMembers_eq {members : List (String × Json)}
    (h : (members.map Prod.fst).Pairwise (· < ·)) : sortMembers members = members := by
  have hgeneral (rest sorted : List (String × Json))
      (h : ((sorted ++ rest).map Prod.fst).Pairwise (· < ·)) :
      rest.foldl (fun sorted m => insertMember m.1 m.2 sorted) sorted = sorted ++ rest := by
    induction rest generalizing sorted with
    | nil => simp
    | cons m rest ih =>
      have hlast : ∀ k ∈ sorted, k.1 < m.1 := by
        intro k hk
        rw [List.map_append, List.pairwise_append] at h
        exact h.2.2 k.1 (List.mem_map_of_mem hk) m.1 (by simp)
      rw [List.foldl_cons, insertMember_last _ _ _ hlast, ih _ (by simpa using h)]
      simp
  exact hgeneral members [] h

private theorem mem_names_insertMember (name n : String) (v : Json) (members : List (String × Json)) :
    n ∈ (insertMember name v members).map Prod.fst ↔ n = name ∨ n ∈ members.map Prod.fst := by
  induction members with
  | nil => simp [insertMember]
  | cons m rest ih =>
    unfold insertMember
    split
    · rename_i h
      simp [h]
    · split
      · simp
      · rw [List.map_cons, List.mem_cons, ih, List.map_cons, List.mem_cons]
        grind

private theorem pairwise_insertMember (name : String) (v : Json) (members : List (String × Json))
    (h : (members.map Prod.fst).Pairwise (· < ·)) :
    ((insertMember name v members).map Prod.fst).Pairwise (· < ·) := by
  induction members with
  | nil => simp [insertMember]
  | cons m rest ih =>
    rw [List.map_cons, List.pairwise_cons] at h
    unfold insertMember
    split
    · rename_i heq
      rw [List.map_cons, List.pairwise_cons]
      exact ⟨fun k hk => heq ▸ h.1 k hk, h.2⟩
    · split
      · rename_i hlt
        rw [List.map_cons, List.map_cons, List.pairwise_cons, List.pairwise_cons]
        refine ⟨?_, h⟩
        intro k hk
        rcases List.mem_cons.mp hk with rfl | hk
        · exact hlt
        · exact String.lt_trans hlt (h.1 k hk)
      · rename_i hne hnlt
        rw [List.map_cons, List.pairwise_cons]
        refine ⟨?_, ih h.2⟩
        intro k hk
        rcases (mem_names_insertMember name k v rest).mp hk with rfl | hk
        · grind
        · exact h.1 k hk

private theorem membersOrdered_insertMember {name : String} {v : Json}
    {members : List (String × Json)} (hv : v.Ordered) (h : MembersOrdered members) :
    MembersOrdered (insertMember name v members) := by
  induction members with
  | nil => exact ⟨hv, trivial⟩
  | cons m rest ih =>
    obtain ⟨n, w⟩ := m
    unfold insertMember
    split
    · exact ⟨hv, h.2⟩
    · split
      · exact ⟨hv, h⟩
      · exact ⟨h.1, ih h.2⟩

private theorem ordered_sortMembers {members : List (String × Json)} (h : MembersOrdered members) :
    (object (sortMembers members)).Ordered := by
  have hgeneral (rest sorted : List (String × Json)) (hrest : MembersOrdered rest)
      (hnames : (sorted.map Prod.fst).Pairwise (· < ·)) (hsorted : MembersOrdered sorted) :
      (object (rest.foldl (fun sorted m => insertMember m.1 m.2 sorted) sorted)).Ordered := by
    induction rest generalizing sorted with
    | nil => exact ⟨hnames, hsorted⟩
    | cons m rest ih =>
      obtain ⟨n, v⟩ := m
      exact ih _ hrest.2 (pairwise_insertMember n v sorted hnames)
        (membersOrdered_insertMember hrest.1 hsorted)
  exact hgeneral members [] h List.Pairwise.nil trivial

namespace Reader

/-! ## Reading a value from its structure -/

mutual

/-- A value is read back from its structure if that does not nest too deeply, and else refused. -/
theorem json_ofJson : ∀ (v : Json) (depth : Nat), v.Ordered →
    json depth (Tree.ofJson v) = if v.nesting ≤ depth then some v else none
  | .null, depth, _ => by simp [Tree.ofJson, json, nesting]
  | .bool b, depth, _ => by simp [Tree.ofJson, json, nesting]
  | .number n, depth, _ => by simp [Tree.ofJson, json, nesting]
  | .text s, depth, _ => by simp [Tree.ofJson, json, nesting]
  | .array items, 0, _ => by simp [Tree.ofJson, json, nesting]
  | .array items, depth + 1, h => by
    have hitems := jsonItems_ofItems items depth h
    rw [Tree.ofJson, json, hitems, nesting]
    by_cases hn : itemNesting items ≤ depth <;> simp [hn]
  | .object members, 0, _ => by simp [Tree.ofJson, json, nesting]
  | .object members, depth + 1, h => by
    have hmembers := jsonMembers_ofMembers members depth h.2
    rw [Tree.ofJson, json, hmembers, nesting]
    by_cases hn : memberNesting members ≤ depth <;> simp [hn, sortMembers_eq h.1]

private theorem jsonItems_ofItems : ∀ (items : List Json) (depth : Nat), ItemsOrdered items →
    jsonItems depth (Tree.ofItems items) = if itemNesting items ≤ depth then some items else none
  | [], depth, _ => by simp [Tree.ofItems, jsonItems, itemNesting]
  | v :: rest, depth, h => by
    have hv := json_ofJson v depth h.1
    have hrest := jsonItems_ofItems rest depth h.2
    rw [Tree.ofItems, jsonItems, hv, hrest, itemNesting]
    simp only [Nat.max_le]
    by_cases hn : v.nesting ≤ depth <;> by_cases hm : itemNesting rest ≤ depth <;> simp [hn, hm]

private theorem jsonMembers_ofMembers : ∀ (members : List (String × Json)) (depth : Nat),
    MembersOrdered members →
    jsonMembers depth (Tree.ofMembers members) =
      if memberNesting members ≤ depth then some members else none
  | [], depth, _ => by simp [Tree.ofMembers, jsonMembers, memberNesting]
  | (n, v) :: rest, depth, h => by
    have hv := json_ofJson v depth h.1
    have hrest := jsonMembers_ofMembers rest depth h.2
    rw [Tree.ofMembers, jsonMembers, hv, hrest, memberNesting]
    simp only [Nat.max_le]
    by_cases hn : v.nesting ≤ depth <;> by_cases hm : memberNesting rest ≤ depth <;> simp [hn, hm]

end

/-! ## Values that were read -/

mutual

theorem ordered_of_json : ∀ (t : Tree) (depth : Nat) (v : Json), json depth t = some v → v.Ordered
  | .null, depth, v, h => by
    simp only [json, Option.some.injEq] at h
    subst h
    trivial
  | .bool b, depth, v, h => by
    simp only [json, Option.some.injEq] at h
    subst h
    trivial
  | .number n, depth, v, h => by
    obtain ⟨n, -, rfl⟩ := Option.map_eq_some_iff.mp (by simpa [json] using h)
    trivial
  | .text s, depth, v, h => by
    obtain ⟨s, -, rfl⟩ := Option.map_eq_some_iff.mp (by simpa [json] using h)
    trivial
  | .array items, 0, v, h => by simp [json] at h
  | .array items, depth + 1, v, h => by
    obtain ⟨vs, hvs, rfl⟩ := Option.map_eq_some_iff.mp (by simpa [json] using h)
    exact ordered_of_jsonItems items depth vs hvs
  | .object members, 0, v, h => by simp [json] at h
  | .object members, depth + 1, v, h => by
    obtain ⟨ms, hms, rfl⟩ := Option.map_eq_some_iff.mp (by simpa [json] using h)
    exact ordered_sortMembers (ordered_of_jsonMembers members depth ms hms)

private theorem ordered_of_jsonItems : ∀ (items : List Tree) (depth : Nat) (vs : List Json),
    jsonItems depth items = some vs → ItemsOrdered vs
  | [], depth, vs, h => by
    simp only [jsonItems, Option.some.injEq] at h
    subst h
    trivial
  | t :: rest, depth, vs, h => by
    simp only [jsonItems, Option.bind_eq_bind, Option.bind_eq_some_iff, Option.some.injEq] at h
    obtain ⟨v, hv, vs, hvs, rfl⟩ := h
    exact ⟨ordered_of_json t depth v hv, ordered_of_jsonItems rest depth vs hvs⟩

private theorem ordered_of_jsonMembers : ∀ (members : List (Option String × Tree)) (depth : Nat)
    (ms : List (String × Json)), jsonMembers depth members = some ms → MembersOrdered ms
  | [], depth, ms, h => by
    simp only [jsonMembers, Option.some.injEq] at h
    subst h
    trivial
  | (n, t) :: rest, depth, ms, h => by
    simp only [jsonMembers, Option.bind_eq_bind, Option.bind_eq_some_iff, Option.some.injEq] at h
    obtain ⟨n, -, v, hv, ms, hms, rfl⟩ := h
    exact ⟨ordered_of_json t depth v hv, ordered_of_jsonMembers rest depth ms hms⟩

end

private theorem memberNesting_insertMember (name : String) (v : Json) (members : List (String × Json)) :
    memberNesting (insertMember name v members) ≤ max v.nesting (memberNesting members) := by
  induction members with
  | nil => simp [insertMember, memberNesting]
  | cons m rest ih =>
    obtain ⟨n, w⟩ := m
    unfold insertMember
    split
    · simp only [memberNesting]
      omega
    · split
      · simp only [memberNesting]
        omega
      · simp only [memberNesting]
        omega

private theorem memberNesting_sortMembers (members : List (String × Json)) :
    memberNesting (sortMembers members) ≤ memberNesting members := by
  have hgeneral (rest sorted : List (String × Json)) :
      memberNesting (rest.foldl (fun sorted m => insertMember m.1 m.2 sorted) sorted) ≤
        max (memberNesting rest) (memberNesting sorted) := by
    induction rest generalizing sorted with
    | nil => simp [memberNesting]
    | cons m rest ih =>
      obtain ⟨n, v⟩ := m
      have hinsert := memberNesting_insertMember n v sorted
      rw [List.foldl_cons, memberNesting]
      exact Nat.le_trans (ih (insertMember n v sorted)) (by omega)
  have hall := hgeneral members []
  rwa [memberNesting, Nat.max_zero] at hall

mutual

theorem nesting_of_json : ∀ (t : Tree) (depth : Nat) (v : Json), json depth t = some v → v.nesting ≤ depth
  | .null, depth, v, h => by
    simp only [json, Option.some.injEq] at h
    subst h
    exact Nat.zero_le depth
  | .bool b, depth, v, h => by
    simp only [json, Option.some.injEq] at h
    subst h
    exact Nat.zero_le depth
  | .number n, depth, v, h => by
    obtain ⟨n, -, rfl⟩ := Option.map_eq_some_iff.mp (by simpa [json] using h)
    exact Nat.zero_le depth
  | .text s, depth, v, h => by
    obtain ⟨s, -, rfl⟩ := Option.map_eq_some_iff.mp (by simpa [json] using h)
    exact Nat.zero_le depth
  | .array items, 0, v, h => by simp [json] at h
  | .array items, depth + 1, v, h => by
    obtain ⟨vs, hvs, rfl⟩ := Option.map_eq_some_iff.mp (by simpa [json] using h)
    exact Nat.succ_le_succ (nesting_of_jsonItems items depth vs hvs)
  | .object members, 0, v, h => by simp [json] at h
  | .object members, depth + 1, v, h => by
    obtain ⟨ms, hms, rfl⟩ := Option.map_eq_some_iff.mp (by simpa [json] using h)
    have hmembers := nesting_of_jsonMembers members depth ms hms
    exact Nat.succ_le_succ (Nat.le_trans (memberNesting_sortMembers ms) hmembers)

private theorem nesting_of_jsonItems : ∀ (items : List Tree) (depth : Nat) (vs : List Json),
    jsonItems depth items = some vs → itemNesting vs ≤ depth
  | [], depth, vs, h => by
    simp only [jsonItems, Option.some.injEq] at h
    subst h
    exact Nat.zero_le depth
  | t :: rest, depth, vs, h => by
    simp only [jsonItems, Option.bind_eq_bind, Option.bind_eq_some_iff, Option.some.injEq] at h
    obtain ⟨v, hv, vs, hvs, rfl⟩ := h
    exact Nat.max_le.mpr ⟨nesting_of_json t depth v hv, nesting_of_jsonItems rest depth vs hvs⟩

private theorem nesting_of_jsonMembers : ∀ (members : List (Option String × Tree)) (depth : Nat)
    (ms : List (String × Json)), jsonMembers depth members = some ms → memberNesting ms ≤ depth
  | [], depth, ms, h => by
    simp only [jsonMembers, Option.some.injEq] at h
    subst h
    exact Nat.zero_le depth
  | (n, t) :: rest, depth, ms, h => by
    simp only [jsonMembers, Option.bind_eq_bind, Option.bind_eq_some_iff, Option.some.injEq] at h
    obtain ⟨n, -, v, hv, ms, hms, rfl⟩ := h
    exact Nat.max_le.mpr ⟨nesting_of_json t depth v hv, nesting_of_jsonMembers rest depth ms hms⟩

end

end Reader

end Json

end AuditTrail

import AuditTrail.Json.Reader
import AuditTrail.Proofs.Json.Text
import AuditTrail.Proofs.Number.Digits
/-!
# Printed values are read back

`Json.parse?_compact`: the compact text of a value has the structure of the value and no other. The numbers
in it have to be integers of 64 bits; texts, names and the nesting may be anything.
-/

namespace AuditTrail

namespace Json

/-! ## Values -/

/-- An integer of 64 bits, signed or not. -/
def Number.isWord : Number → Bool
  | .int n => minInt 64 ≤ n && n < wordBound 64
  | .float _ => false

mutual

def numbersAll (p : Number → Bool) : Json → Bool
  | null | bool _ | text _ => true
  | number n => p n
  | array items => itemNumbersAll p items
  | object members => memberNumbersAll p members

def itemNumbersAll (p : Number → Bool) : List Json → Bool
  | [] => true
  | v :: rest => numbersAll p v && itemNumbersAll p rest

def memberNumbersAll (p : Number → Bool) : List (String × Json) → Bool
  | [] => true
  | (_, v) :: rest => numbersAll p v && memberNumbersAll p rest

end

/-- A text that goes on as it may after a value. -/
def EndsValue (cs : List Char) : Prop := ∀ c ∈ cs.head?, c = ',' ∨ c = ']' ∨ c = '}'

@[simp] theorem endsValue_nil : EndsValue [] := by simp [EndsValue]

@[simp] theorem endsValue_cons (c : Char) (cs : List Char) :
    EndsValue (c :: cs) ↔ c = ',' ∨ c = ']' ∨ c = '}' := by simp [EndsValue]

private theorem EndsValue.endsDigits {cs : List Char} (h : EndsValue cs) : EndsDigits cs := by
  intro c hc
  rcases h c hc with rfl | rfl | rfl <;> rfl

/-! ## Numbers -/

private theorem digitValue_digitChar {n : Nat} (h : n < 10) : digitValue (Nat.digitChar n) = n :=
  Nat.toNat_digitChar_sub_48_of_lt_ten h

private theorem natChars_digits (n : Nat) :
    ∃ d ds, (natChars n).map digitValue = d :: ds ∧ (d = 0 → ds = []) ∧ (0 < n → d ≠ 0) := by
  induction n using Nat.strongRecOn with
  | ind n ih =>
    by_cases h : n < 10
    · refine ⟨n, [], ?_, fun _ => rfl, by omega⟩
      rw [natChars, Nat.toDigits_of_lt_base h]
      simp [digitValue_digitChar h]
    · obtain ⟨d, ds, hds, -, hpos⟩ := ih (n / 10) (by omega)
      have hne : d ≠ 0 := hpos (by omega)
      refine ⟨d, ds ++ [n % 10], ?_, fun hzero => absurd hzero hne, fun _ => hne⟩
      rw [natChars, Nat.toDigits_of_base_le (by decide) (by omega), List.map_append, ← natChars, hds]
      simp [digitValue_digitChar (show n % 10 < 10 by omega)]

private theorem isDigit_natChars {n : Nat} {c : Char} (h : c ∈ natChars n) : c.isDigit = true :=
  Nat.isDigit_of_mem_toDigits (by decide) (by decide) h

private theorem spanDigits_natChars (n : Nat) {rest : List Char} (h : EndsDigits rest) :
    spanDigits (natChars n ++ rest) = ((natChars n).map digitValue, rest) := by
  rw [spanDigits, List.takeWhile_append_of_pos (fun _ => isDigit_natChars),
    List.dropWhile_append_of_pos (fun _ => isDigit_natChars), h.takeWhile, h.dropWhile, List.append_nil]

private theorem readFraction_end {rest : List Char} (h : EndsValue rest) :
    readFraction rest = some ([], rest) := by
  cases rest with
  | nil => rfl
  | cons c rest =>
    rcases (endsValue_cons c rest).mp h with rfl | rfl | rfl <;> simp [readFraction]

private theorem readExponent_end {rest : List Char} (h : EndsValue rest) :
    readExponent rest = some (none, rest) := by
  cases rest with
  | nil => rfl
  | cons c rest =>
    rcases (endsValue_cons c rest).mp h with rfl | rfl | rfl <;> simp [readExponent]

private theorem readLiteral_natChars (n : Nat) {rest : List Char} (h : EndsValue rest) :
    readLiteral (natChars n ++ rest) = some (⟨false, (natChars n).map digitValue, [], none⟩, rest) := by
  obtain ⟨d, ds, hds, hzero, -⟩ := natChars_digits n
  rw [readLiteral, spanDigits_natChars n h.endsDigits, hds]
  · cases d with
    | zero => simp [hzero rfl, readFraction_end h, readExponent_end h]
    | succ d => simp [readFraction_end h, readExponent_end h]
  · intro cs hcs
    have hminus : '-' ∈ natChars n := by
      cases hn : natChars n with
      | nil => exact absurd hn Nat.toDigits_ne_nil
      | cons c rest =>
        rw [hn, List.cons_append] at hcs
        simp [(List.cons.inj hcs).1]
    exact absurd (isDigit_natChars hminus) (by decide)

private theorem readLiteral_negative (n : Nat) {rest : List Char} (h : EndsValue rest) :
    readLiteral ('-' :: (natChars n ++ rest)) =
      some (⟨true, (natChars n).map digitValue, [], none⟩, rest) := by
  obtain ⟨d, ds, hds, hzero, -⟩ := natChars_digits n
  rw [readLiteral, spanDigits_natChars n h.endsDigits, hds]
  cases d with
  | zero => simp [hzero rfl, readFraction_end h, readExponent_end h]
  | succ d => simp [readFraction_end h, readExponent_end h]

private theorem appendDigits_eq (ds : List Nat) (n : Nat)
    (h : ds.foldl (fun n d => n * 10 + d) n < wordBound 64) :
    appendDigits n ds = (ds.foldl (fun n d => n * 10 + d) n, []) := by
  have hle (ds : List Nat) (n : Nat) : n ≤ ds.foldl (fun n d => n * 10 + d) n := by
    induction ds generalizing n with
    | nil => exact Nat.le_refl n
    | cons d ds ih =>
      have := ih (n * 10 + d)
      rw [List.foldl_cons]
      omega
  induction ds generalizing n with
  | nil => rfl
  | cons d ds ih =>
    have hd := hle ds (n * 10 + d)
    rw [List.foldl_cons] at h
    rw [appendDigits, if_pos (by omega), ih _ h, List.foldl_cons]

private theorem appendDigits_natChars {n : Nat} (h : n < wordBound 64) :
    appendDigits 0 ((natChars n).map digitValue) = (n, []) := by
  have hvalue : ((natChars n).map digitValue).foldl (fun n d => n * 10 + d) 0 = n := by
    rw [List.foldl_map]
    exact foldl_toDigits n
  rw [appendDigits_eq _ _ (by rw [hvalue]; exact h), hvalue]

private theorem readLiteral_intChars {n : Int} (hn : (Number.int n).isWord = true) {rest : List Char}
    (h : EndsValue rest) :
    ∃ l, readLiteral (intChars n ++ rest) = some (l, rest) ∧ l.number? = some (.int n) := by
  simp only [Number.isWord, Bool.and_eq_true, decide_eq_true_eq] at hn
  cases n with
  | ofNat k =>
    refine ⟨_, readLiteral_natChars k h, ?_⟩
    have hk : k < wordBound 64 := by
      have := hn.2
      simp only [Int.ofNat_eq_natCast] at this
      omega
    simp [Literal.number?, appendDigits_natChars hk]
  | negSucc k =>
    refine ⟨_, readLiteral_negative (k + 1) h, ?_⟩
    have hk : k + 1 ≤ wordBound 63 := by
      have := hn.1
      simp only [minInt, Nat.add_one_sub_one] at this
      omega
    have hword : wordBound 63 < wordBound 64 := by decide
    simp only [Literal.number?, appendDigits_natChars (show k + 1 < wordBound 64 by omega)]
    rw [if_neg (by simp), if_neg (by omega)]
    simp [Int.negSucc_eq]

/-! ## Structure -/

private theorem skipBlanks_cons {c : Char} (h : isBlank c = false) (cs : List Char) :
    skipBlanks (c :: cs) = c :: cs := by simp [skipBlanks, h]

/-- The items after the first one, with the comma before them. -/
private def moreItems : List Json → List Char
  | [] => []
  | v :: rest => ',' :: itemChars (v :: rest)

private def moreMembers : List (String × Json) → List Char
  | [] => []
  | m :: rest => ',' :: memberChars (m :: rest)

private theorem itemChars_cons (v : Json) (rest : List Json) :
    itemChars (v :: rest) = v.chars ++ moreItems rest := by
  cases rest <;> simp [itemChars, moreItems]

private theorem memberChars_cons (n : String) (v : Json) (rest : List (String × Json)) :
    memberChars ((n, v) :: rest) =
      '"' :: (n.toList.flatMap escapeChar ++ '"' :: ':' :: (v.chars ++ moreMembers rest)) := by
  cases rest <;> simp [memberChars, moreMembers, textChars]

private theorem intChars_cons (n : Int) :
    ∃ c cs, intChars n = c :: cs ∧ (c.isDigit = true ∨ c = '-') := by
  cases n with
  | ofNat k =>
    cases h : natChars k with
    | nil => exact absurd h Nat.toDigits_ne_nil
    | cons c cs => exact ⟨c, cs, h, .inl (isDigit_natChars (n := k) (by simp [h]))⟩
  | negSucc k => exact ⟨'-', _, rfl, .inr rfl⟩

private theorem chars_cons (v : Json) (hv : v.numbersAll Number.isWord = true) :
    ∃ c cs, v.chars = c :: cs ∧ isBlank c = false ∧ c ≠ ']' := by
  cases v with
  | null => exact ⟨_, _, rfl, rfl, by decide⟩
  | bool b => cases b <;> exact ⟨_, _, rfl, rfl, by decide⟩
  | number n =>
    cases n with
    | int n =>
      obtain ⟨c, cs, hcs, hc⟩ := intChars_cons n
      refine ⟨c, cs, hcs, ?_⟩
      rcases hc with hc | rfl
      · constructor
        · rw [isBlank, Bool.or_eq_false_iff, Bool.or_eq_false_iff, Bool.or_eq_false_iff]
          refine ⟨⟨⟨?_, ?_⟩, ?_⟩, ?_⟩ <;>
            (rw [beq_eq_false_iff_ne]; rintro rfl; exact absurd hc (by decide))
        · rintro rfl
          exact absurd hc (by decide)
      · exact ⟨rfl, by decide⟩
    | float x => simp [numbersAll, Number.isWord] at hv
  | text s => exact ⟨_, _, rfl, rfl, by decide⟩
  | array items => exact ⟨_, _, rfl, rfl, by decide⟩
  | object members => exact ⟨_, _, rfl, rfl, by decide⟩

private theorem readTree_number {fuel : Nat} {n : Int} (hn : (Number.int n).isWord = true)
    {rest : List Char} (h : EndsValue rest) :
    readTree (fuel + 1) (intChars n ++ rest) = some (.number (some (.int n)), rest) := by
  obtain ⟨c, cs, hcs, hc⟩ := intChars_cons n
  obtain ⟨l, hread, hvalue⟩ := readLiteral_intChars hn h
  have hother (d : Char) (hd : d.isDigit = false) (hminus : d ≠ '-') : c ≠ d := by
    rintro rfl
    rcases hc with hc | hc
    · rw [hd] at hc
      exact absurd hc (by decide)
    · exact hminus hc
  rw [hcs, List.cons_append] at hread ⊢
  rw [readTree]
  · simp only [hread, Option.map_some, hvalue]
  all_goals
    intro cs' heq
    exact hother _ rfl (by decide) (List.cons.inj heq).1

mutual

/-- A printed value is read back, and what follows it is left. -/
private theorem readTree_chars (v : Json) (fuel : Nat) (rest : List Char)
    (hv : v.numbersAll Number.isWord = true) (hfuel : v.chars.length ≤ fuel) (hrest : EndsValue rest) :
    readTree fuel (v.chars ++ rest) = some (Tree.ofJson v, rest) := by
  obtain ⟨fuel, rfl⟩ : ∃ k, fuel = k + 1 := by
    obtain ⟨c, cs, hcs, -⟩ := chars_cons v hv
    refine ⟨fuel - 1, ?_⟩
    rw [hcs, List.length_cons] at hfuel
    omega
  cases v with
  | null => simp [chars, readTree, dropWord, Tree.ofJson]
  | bool b => cases b <;> simp [chars, readTree, dropWord, Tree.ofJson]
  | number n =>
    cases n with
    | int n => exact readTree_number (by simpa [numbersAll] using hv) hrest
    | float x => simp [numbersAll, Number.isWord] at hv
  | text s =>
    rw [chars, textChars, List.append_assoc, List.cons_append, readTree, List.singleton_append,
      readText_quoted, Option.map_some, Tree.ofJson]
  | array items =>
    cases items with
    | nil => simp [chars, itemChars, readTree, skipBlanks, isBlank, Tree.ofJson, Tree.ofItems]
    | cons v items =>
      have hall : itemNumbersAll Number.isWord (v :: items) = true := by simpa [numbersAll] using hv
      obtain ⟨c, cs, hcs, hblank, hend⟩ := chars_cons v (by simp_all [itemNumbersAll])
      have hread := readItems_chars v items fuel [] rest hall (by
        simp only [chars, List.length_append, List.length_cons, List.length_nil] at hfuel
        omega)
      rw [chars, List.append_assoc, List.cons_append, readTree, List.singleton_append]
      rw [itemChars_cons, hcs, List.append_assoc, List.cons_append] at hread ⊢
      rw [skipBlanks_cons hblank]
      split
      · rename_i heq
        exact absurd (List.cons.inj heq).1 hend
      · rw [hread, Tree.ofJson, List.reverse_nil, List.nil_append]
  | object members =>
    cases members with
    | nil => simp [chars, memberChars, readTree, skipBlanks, isBlank, Tree.ofJson, Tree.ofMembers]
    | cons m members =>
      obtain ⟨n, v⟩ := m
      have hall : memberNumbersAll Number.isWord ((n, v) :: members) = true := by
        simpa [numbersAll] using hv
      have hread := readMembers_chars n v members fuel [] rest hall (by
        simp only [chars, List.length_append, List.length_cons, List.length_nil] at hfuel
        omega)
      rw [chars, List.append_assoc, List.cons_append, readTree, List.singleton_append, memberChars_cons,
        List.cons_append, skipBlanks_cons rfl]
      simp only [List.append_assoc, List.cons_append, hread, Tree.ofJson, List.reverse_nil,
        List.nil_append]
termination_by fuel

private theorem readItems_chars (v : Json) (items : List Json) (fuel : Nat) (read : List Tree)
    (rest : List Char) (hv : itemNumbersAll Number.isWord (v :: items) = true)
    (hfuel : (itemChars (v :: items)).length < fuel) :
    readItems fuel read (itemChars (v :: items) ++ ']' :: rest) =
      some (.array (read.reverse ++ Tree.ofItems (v :: items)), rest) := by
  obtain ⟨fuel, rfl⟩ : ∃ k, fuel = k + 1 := ⟨fuel - 1, by omega⟩
  simp only [itemNumbersAll, Bool.and_eq_true] at hv
  rw [itemChars_cons, List.length_append] at hfuel
  rw [itemChars_cons, List.append_assoc, readItems]
  cases items with
  | nil =>
    rw [moreItems, List.nil_append, readTree_chars v fuel _ hv.1 (by omega) (by simp)]
    simp only [skipBlanks_cons (show isBlank ']' = false from rfl)]
    simp [Tree.ofItems]
  | cons w items =>
    have hw : w.numbersAll Number.isWord = true := by simp_all [itemNumbersAll]
    obtain ⟨c, cs, hcs, hblank, -⟩ := chars_cons w hw
    have hnext := readItems_chars w items fuel (Tree.ofJson v :: read) rest
      (by simpa [itemNumbersAll] using hv.2) (by
        simp only [moreItems, List.length_cons] at hfuel
        omega)
    have hskip : skipBlanks (itemChars (w :: items) ++ ']' :: rest) =
        itemChars (w :: items) ++ ']' :: rest := by
      rw [itemChars_cons, hcs, List.append_assoc, List.cons_append]
      exact skipBlanks_cons hblank _
    rw [moreItems, List.cons_append, readTree_chars v fuel _ hv.1 (by omega) (by simp)]
    simp only [skipBlanks_cons (show isBlank ',' = false from rfl)]
    rw [hskip, hnext]
    simp [Tree.ofItems]
termination_by fuel

private theorem readMembers_chars (n : String) (v : Json) (members : List (String × Json)) (fuel : Nat)
    (read : List (Option String × Tree)) (rest : List Char)
    (hv : memberNumbersAll Number.isWord ((n, v) :: members) = true)
    (hfuel : (memberChars ((n, v) :: members)).length < fuel) :
    readMembers fuel read
        (n.toList.flatMap escapeChar ++ '"' :: ':' :: (v.chars ++ (moreMembers members ++ '}' :: rest))) =
      some (.object (read.reverse ++ Tree.ofMembers ((n, v) :: members)), rest) := by
  obtain ⟨fuel, rfl⟩ : ∃ k, fuel = k + 1 := ⟨fuel - 1, by omega⟩
  simp only [memberNumbersAll, Bool.and_eq_true] at hv
  simp only [memberChars_cons, List.length_cons, List.length_append] at hfuel
  obtain ⟨c, cs, hcs, hblank, -⟩ := chars_cons v hv.1
  have hskip (more : List Char) : skipBlanks (v.chars ++ more) = v.chars ++ more := by
    rw [hcs, List.cons_append]
    exact skipBlanks_cons hblank _
  rw [readMembers, readText_quoted]
  simp only [skipBlanks_cons (show isBlank ':' = false from rfl), hskip]
  cases members with
  | nil =>
    rw [moreMembers, List.nil_append, readTree_chars v fuel _ hv.1 (by omega) (by simp)]
    simp only [skipBlanks_cons (show isBlank '}' = false from rfl)]
    simp [Tree.ofMembers]
  | cons m members =>
    obtain ⟨k, w⟩ := m
    have hnext := readMembers_chars k w members fuel ((some n, Tree.ofJson v) :: read) rest
      (by simpa [memberNumbersAll] using hv.2) (by
        simp only [moreMembers, List.length_cons] at hfuel
        omega)
    rw [moreMembers, List.cons_append, readTree_chars v fuel _ hv.1 (by omega) (by simp)]
    simp only [skipBlanks_cons (show isBlank ',' = false from rfl), memberChars_cons, List.cons_append,
      skipBlanks_cons (show isBlank '"' = false from rfl), List.append_assoc]
    rw [hnext]
    simp [Tree.ofMembers]
termination_by fuel

end

/-! ## The first members of an object -/

/-- Whatever follows the members that were read, they stay the first ones. -/
private theorem readMembers_extends {fuel : Nat} {read : List (Option String × Tree)}
    {cs left : List Char} {t : Tree} (h : readMembers fuel read cs = some (t, left)) :
    ∃ more, t = .object (read.reverse ++ more) := by
  induction fuel generalizing read cs with
  | zero => simp [readMembers] at h
  | succ fuel ih =>
    rw [readMembers] at h
    split at h
    · cases h
    · rename_i name _ _
      split at h
      · split at h
        · cases h
        · rename_i value _ _
          split at h
          · split at h
            · obtain ⟨more, rfl⟩ := ih h
              exact ⟨(name, value) :: more, by simp⟩
            · cases h
          · cases h
            exact ⟨[(name, value)], by simp⟩
          · cases h
      · cases h

private theorem readMembers_first {first : List (String × Json)}
    (hfirst : memberNumbersAll Number.isWord first = true) {m : String × Json}
    {rest : List (String × Json)} {fuel : Nat} {read : List (Option String × Tree)}
    {cs after left : List Char} {t : Tree} (hcs : '"' :: cs = memberChars (first ++ m :: rest) ++ after)
    (hfuel : cs.length < fuel) (h : readMembers fuel read cs = some (t, left)) :
    ∃ more, t = .object (read.reverse ++ (Tree.ofMembers first ++ more)) := by
  induction first generalizing fuel read cs with
  | nil => exact readMembers_extends h
  | cons k first ih =>
    obtain ⟨name, v⟩ := k
    obtain ⟨fuel, rfl⟩ : ∃ k, fuel = k + 1 := ⟨fuel - 1, by omega⟩
    simp only [memberNumbersAll, Bool.and_eq_true] at hfirst
    obtain ⟨n, w, others, hothers⟩ : ∃ n w others, first ++ m :: rest = (n, w) :: others := by
      cases first with
      | nil => exact ⟨_, _, _, rfl⟩
      | cons k' first => exact ⟨k'.1, k'.2, _, rfl⟩
    have hnext := memberChars_cons n w others
    generalize n.toList.flatMap escapeChar ++ '"' :: ':' :: (w.chars ++ moreMembers others) = next at hnext
    rw [List.cons_append, memberChars_cons, hothers, moreMembers, hnext, List.cons_append, List.cons.injEq]
      at hcs
    obtain ⟨-, rfl⟩ := hcs
    simp only [List.append_assoc, List.cons_append, List.length_append, List.length_cons] at h hfuel
    obtain ⟨c, chars, hchars, hblank, -⟩ := chars_cons v hfirst.1
    have hskip (more : List Char) : skipBlanks (v.chars ++ more) = v.chars ++ more := by
      rw [hchars, List.cons_append]
      exact skipBlanks_cons hblank _
    rw [readMembers, readText_quoted] at h
    simp only [skipBlanks_cons (show isBlank ':' = false from rfl), hskip] at h
    rw [readTree_chars v fuel _ hfirst.1 (by omega) (by simp)] at h
    simp only [skipBlanks_cons (show isBlank ',' = false from rfl),
      skipBlanks_cons (show isBlank '"' = false from rfl)] at h
    have hcs : '"' :: (next ++ after) = memberChars (first ++ m :: rest) ++ after := by
      rw [hothers, hnext, List.cons_append]
    obtain ⟨more, rfl⟩ := ih hfirst.2 hcs (by rw [List.length_append]; omega) h
    exact ⟨more, by simp [Tree.ofMembers]⟩

/-- If the text of an object has a structure at all, then that begins with the members that are printed
first. The numbers in those have to be integers of 64 bits, and the members after them may be anything. -/
theorem parse?_object {first : List (String × Json)}
    (hfirst : memberNumbersAll Number.isWord first = true) {m : String × Json}
    {rest : List (String × Json)} {t : Tree}
    (h : Tree.parse? (object (first ++ m :: rest)).compact = some t) :
    ∃ more, t = .object (Tree.ofMembers first ++ more) := by
  obtain ⟨cs, hcs⟩ : ∃ cs, '"' :: cs = memberChars (first ++ m :: rest) := by
    cases first with
    | nil => exact ⟨_, (memberChars_cons m.1 m.2 rest).symm⟩
    | cons k first => exact ⟨_, (memberChars_cons k.1 k.2 _).symm⟩
  have hchars : (object (first ++ m :: rest)).chars = '{' :: '"' :: (cs ++ ['}']) := by
    rw [chars, ← hcs]
    rfl
  simp only [Tree.parse?, compact, String.toList_ofList, hchars,
    skipBlanks_cons (show isBlank '{' = false from rfl), readTree,
    skipBlanks_cons (show isBlank '"' = false from rfl)] at h
  split at h
  · rename_i hread
    split at h
    · cases h
      have hcs : '"' :: (cs ++ ['}']) = memberChars (first ++ m :: rest) ++ ['}'] := by rw [← hcs]; rfl
      obtain ⟨more, rfl⟩ := readMembers_first hfirst hcs (by simp) hread
      exact ⟨more, rfl⟩
    · cases h
  · cases h

theorem parse?_compact {v : Json} (hv : v.numbersAll Number.isWord = true) :
    Tree.parse? v.compact = some (Tree.ofJson v) := by
  obtain ⟨c, cs, hcs, hblank, -⟩ := chars_cons v hv
  have hskip : skipBlanks v.chars = v.chars := by
    rw [hcs]
    exact skipBlanks_cons hblank _
  have hread := readTree_chars v (v.chars.length + 1) [] hv (by omega) (by simp)
  rw [List.append_nil] at hread
  simp only [Tree.parse?, compact, String.toList_ofList, hskip, hread]
  rfl

variable {α : Type} {read : Reader α} {v : Json}

theorem Reader.ofText_compact (hv : v.numbersAll Number.isWord = true) : read.ofText v.compact = read.ofJson v := by
  rw [ofText, parse?_compact hv, Option.bind_some, ofJson]

theorem Reader.ofBytes_compact (hv : v.numbersAll Number.isWord = true) :
    read.ofBytes (Text.bytes v.compact) = read.ofJson v := by
  rw [ofBytes_bytes, ofText_compact hv]

end Json

end AuditTrail

import AuditTrail.Relational.Statement
import Mathlib.Data.List.Infix
/-!
# Search patterns for contained texts

What a pattern matches is said once more as rules. The pattern for a text can be read and matches the texts
that contain that one, whatever wildcards and backslashes are in it.
-/

namespace AuditTrail.Relational

namespace Like

/-! ## What a pattern matches -/

inductive Matches : List LikeItem → List Char → Prop where
  | nil : Matches [] []
  | anyText (skipped : List Char) {items : List LikeItem} {cs : List Char} (h : Matches items cs) :
      Matches (.anyText :: items) (skipped ++ cs)
  | anyChar (c : Char) {items : List LikeItem} {cs : List Char} (h : Matches items cs) :
      Matches (.anyChar :: items) (c :: cs)
  | char (c : Char) {items : List LikeItem} {cs : List Char} (h : Matches items cs) :
      Matches (.char c :: items) (c :: cs)

variable {items : List LikeItem} {cs rest : List Char}

private theorem mem_tails : rest ∈ tails cs ↔ rest <:+ cs := by
  induction cs with
  | nil => simp [tails]
  | cons c cs ih => rw [tails, List.mem_cons, ih, List.suffix_cons_iff]

private theorem matches_nil_iff : Matches [] cs ↔ cs = [] := by
  constructor
  · rintro ⟨⟩
    rfl
  · rintro rfl
    exact .nil

private theorem matches_anyText_iff :
    Matches (.anyText :: items) cs ↔ ∃ rest, rest <:+ cs ∧ Matches items rest := by
  constructor
  · intro h
    cases h with
    | anyText skipped h => exact ⟨_, List.suffix_append _ _, h⟩
  · rintro ⟨rest, ⟨skipped, rfl⟩, h⟩
    exact .anyText skipped h

private theorem matches_anyChar_iff :
    Matches (.anyChar :: items) cs ↔ ∃ c rest, cs = c :: rest ∧ Matches items rest := by
  constructor
  · intro h
    cases h with
    | anyChar c h => exact ⟨c, _, rfl, h⟩
  · rintro ⟨c, rest, rfl, h⟩
    exact .anyChar c h

private theorem matches_char_iff {c : Char} :
    Matches (.char c :: items) cs ↔ ∃ rest, cs = c :: rest ∧ Matches items rest := by
  constructor
  · intro h
    cases h with
    | char c h => exact ⟨_, rfl, h⟩
  · rintro ⟨rest, rfl, h⟩
    exact .char c h

private theorem accepts_iff : accepts items cs = true ↔ Matches items cs := by
  induction items generalizing cs with
  | nil => rw [accepts, List.isEmpty_iff, matches_nil_iff]
  | cons item items ih =>
    cases item with
    | anyText => simp only [accepts, List.any_eq_true, mem_tails, ih, matches_anyText_iff]
    | anyChar => cases cs <;> simp [accepts, ih, matches_anyChar_iff]
    | char c =>
      cases cs with
      | nil => simp [accepts, matches_char_iff]
      | cons d cs =>
        simp only [accepts, Bool.and_eq_true, beq_iff_eq, ih, matches_char_iff, List.cons.injEq]
        constructor
        · rintro ⟨rfl, h⟩
          exact ⟨cs, ⟨rfl, rfl⟩, h⟩
        · rintro ⟨_, ⟨rfl, rfl⟩, h⟩
          exact ⟨rfl, h⟩

private theorem matches_chars_append_iff {v : List Char} :
    Matches (v.map .char ++ items) cs ↔ ∃ rest, cs = v ++ rest ∧ Matches items rest := by
  induction v generalizing cs with
  | nil => simp
  | cons c v ih =>
    rw [List.map_cons, List.cons_append, matches_char_iff]
    constructor
    · rintro ⟨_, rfl, htail⟩
      obtain ⟨rest, rfl, hrest⟩ := ih.mp htail
      exact ⟨rest, rfl, hrest⟩
    · rintro ⟨rest, rfl, h⟩
      exact ⟨v ++ rest, rfl, ih.mpr ⟨rest, rfl, h⟩⟩

private theorem matches_between_iff {v : List Char} :
    Matches (.anyText :: (v.map .char ++ [.anyText])) cs ↔ v <:+: cs := by
  rw [matches_anyText_iff]
  constructor
  · rintro ⟨rest, hrest, h⟩
    obtain ⟨after, rfl, -⟩ := matches_chars_append_iff.mp h
    exact (List.prefix_append v after).isInfix.trans hrest.isInfix
  · rintro ⟨before, after, rfl⟩
    refine ⟨v ++ after, ⟨before, (List.append_assoc _ _ _).symm⟩, ?_⟩
    exact matches_chars_append_iff.mpr ⟨after, rfl, matches_anyText_iff.mpr ⟨[], List.nil_suffix, .nil⟩⟩

/-! ## Reading the pattern for a text -/

/-- A character as it stands for itself in a pattern. -/
def escape (c : Char) : List Char := if c = '\\' ∨ c = '%' ∨ c = '_' then ['\\', c] else [c]

private theorem guardChar_append (c : Char) (cs ds : List Char) :
    guardChar c (cs ++ ds) = guardChar c cs ++ guardChar c ds := List.flatMap_append

/-- Of three replacements one after the other none touches what another one put in, so that each character is
escaped once. -/
private theorem guardChar_guardChar_guardChar (cs : List Char) :
    guardChar '_' (guardChar '%' (guardChar '\\' cs)) = cs.flatMap escape := by
  induction cs with
  | nil => rfl
  | cons c cs ih =>
    have hone : guardChar '_' (guardChar '%' (guardChar '\\' [c])) = escape c := by
      by_cases hslash : c = '\\'
      · subst hslash
        rfl
      · by_cases hpercent : c = '%'
        · subst hpercent
          rfl
        · by_cases hline : c = '_'
          · subst hline
            rfl
          · simp [guardChar, escape, hslash, hpercent, hline]
    rw [← List.singleton_append, guardChar_append, guardChar_append, guardChar_append, hone, ih]
    rfl

private theorem parse?_escape_append (c : Char) (rest : List Char) :
    parse? (escape c ++ rest) = (parse? rest).map (.char c :: ·) := by
  unfold escape
  split
  · rfl
  · rename_i h
    simp only [not_or] at h
    simp [parse?, h]

private theorem parse?_escaped_append (v rest : List Char) :
    parse? (v.flatMap escape ++ rest) = (parse? rest).map (v.map .char ++ ·) := by
  induction v with
  | nil => simp
  | cons c v ih =>
    rw [List.flatMap_cons, List.append_assoc, parse?_escape_append, ih, Option.map_map]
    rfl

private theorem parse?_containing (v : String) :
    parse? (containing v).toList = some (.anyText :: (v.toList.map .char ++ [.anyText])) := by
  rw [containing, String.toList_ofList, guardChar_guardChar_guardChar, List.cons_append]
  have h := parse?_escaped_append v.toList ['%']
  simpa [parse?] using h

/-- The pattern for a text can be read, and what it matches is a text that contains that one. -/
theorem containing_matches_iff (v s : String) :
    ∃ items, parse? (containing v).toList = some items ∧
      (Matches items s.toList ↔ v.toList <:+: s.toList) ∧
      (accepts items s.toList = true ↔ v.toList <:+: s.toList) := by
  refine ⟨_, parse?_containing v, matches_between_iff, ?_⟩
  rw [accepts_iff]
  exact matches_between_iff

end Like

end AuditTrail.Relational

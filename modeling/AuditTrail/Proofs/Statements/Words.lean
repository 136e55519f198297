/-!
# The words of a statement

A statement for a database is read word by word: marks are words of their own, and blanks only keep words
apart. The words of two texts one after the other are those of the first and then those of the second, unless
a word runs on from one into the other.
-/

namespace AuditTrail.Statements

/-- A character that is always a word of its own. -/
def isMark (c : Char) : Bool := c ∈ ['(', ')', ',', '\'', '<', '=', '>']

def isInner (c : Char) : Bool := c != ' ' && !isMark c

/-- Puts a character in front of the first word. -/
def lengthen (c : Char) : List (List Char) → List (List Char)
  | [] => [[c]]
  | w :: ws => (c :: w) :: ws

def wordsOf : List Char → List (List Char)
  | [] => []
  | c :: cs =>
    if isInner c && cs.head?.any isInner then lengthen c (wordsOf cs)
    else if c = ' ' then wordsOf cs
    else [c] :: wordsOf cs

def words (text : String) : List String := (wordsOf text.toList).map String.ofList

private theorem ne_blank_of_isInner {c : Char} (h : isInner c = true) : c ≠ ' ' := by
  rintro rfl
  exact absurd h (by decide)

private theorem wordsOf_cons (c : Char) (cs : List Char) :
    wordsOf (c :: cs) = if isInner c && cs.head?.any isInner then lengthen c (wordsOf cs)
      else if c = ' ' then wordsOf cs else [c] :: wordsOf cs := rfl

private theorem wordsOf_singleton (c : Char) : wordsOf [c] = if c = ' ' then [] else [[c]] := by
  simp [wordsOf]

private theorem wordsOf_ne_nil {c : Char} (h : isInner c = true) (cs : List Char) : wordsOf (c :: cs) ≠ [] := by
  rw [wordsOf_cons, if_neg (ne_blank_of_isInner h)]
  split
  · cases wordsOf cs <;> simp [lengthen]
  · simp

private theorem lengthen_append (c : Char) {ws : List (List Char)} (h : ws ≠ []) (vs : List (List Char)) :
    lengthen c (ws ++ vs) = lengthen c ws ++ vs := by
  cases ws with
  | nil => exact absurd rfl h
  | cons w ws => rfl

/-- No word runs on from one text into the other. -/
def Apart (a b : String) : Prop :=
  a.toList.getLast?.any isInner = false ∨ b.toList.head?.any isInner = false

private theorem wordsOf_append {as bs : List Char}
    (h : as.getLast?.any isInner = false ∨ bs.head?.any isInner = false) :
    wordsOf (as ++ bs) = wordsOf as ++ wordsOf bs := by
  induction as with
  | nil => rfl
  | cons c as ih =>
    cases as with
    | nil =>
      have hend : (isInner c && bs.head?.any isInner) = false := by
        rcases h with h | h
        · have hc : isInner c = false := by simpa using h
          rw [hc, Bool.false_and]
        · rw [h, Bool.and_false]
      rw [List.singleton_append, wordsOf_cons, hend, wordsOf_singleton, if_neg Bool.false_ne_true]
      split <;> rfl
    | cons d as =>
      have hnext := ih (by simpa using h)
      have hhead : ((d :: as) ++ bs).head? = (d :: as).head? := rfl
      rw [List.cons_append, wordsOf_cons, hhead, hnext, wordsOf_cons c]
      split
      · rename_i hinner
        have hd : isInner d = true := by simpa using (Bool.and_eq_true_iff.mp hinner).2
        exact lengthen_append c (wordsOf_ne_nil hd as) _
      · split <;> rfl

theorem words_append {a b : String} (h : Apart a b) : words (a ++ b) = words a ++ words b := by
  rw [words, String.toList_append, wordsOf_append h, List.map_append, words, words]

/-- No word runs on into a text that begins with a mark or a blank. -/
theorem Apart.append_right {b : String} (hne : b.toList ≠ []) (hfirst : b.toList.head?.any isInner = false)
    (a c : String) : Apart a (b ++ c) := by
  right
  rw [String.toList_append, List.head?_append, Option.or_of_isSome (List.isSome_head?.mpr hne)]
  exact hfirst

theorem words_of_inner {w : String} (hne : w.toList ≠ []) (h : ∀ c ∈ w.toList, isInner c = true) :
    words w = [w] := by
  have hwords (cs : List Char) (hne : cs ≠ []) (h : ∀ c ∈ cs, isInner c = true) : wordsOf cs = [cs] := by
    induction cs with
    | nil => exact absurd rfl hne
    | cons c cs ih =>
      have hc := h c (by simp)
      cases cs with
      | nil => rw [wordsOf_singleton, if_neg (ne_blank_of_isInner hc)]
      | cons d cs =>
        have hrest := ih (by simp) fun e he => h e (by simp [he])
        have hboth : (isInner c && (d :: cs).head?.any isInner) = true := by
          simp [hc, h d (by simp)]
        rw [wordsOf_cons, if_pos hboth, hrest, lengthen]
  rw [words, hwords _ hne h, List.map_singleton, String.ofList_toList]

theorem words_intercalate {separator : String} (hne : separator.toList ≠ [])
    (hfirst : separator.toList.head?.any isInner = false)
    (hlast : separator.toList.getLast?.any isInner = false) (t : String) (rest : List String) :
    words (separator.intercalate (t :: rest)) = words t ++ rest.flatMap fun u => words separator ++ words u := by
  induction rest generalizing t with
  | nil => simp
  | cons u rest ih =>
    have hbefore := Apart.append_right hne hfirst t (separator.intercalate (u :: rest))
    have hafter : Apart separator (separator.intercalate (u :: rest)) := .inl hlast
    rw [String.intercalate_cons_cons, String.append_assoc, words_append hbefore, words_append hafter, ih,
      List.flatMap_cons, List.append_assoc]

/-- Parts that each begin with a word of their own have at least as many words. -/
theorem length_le_length_flatMap {α : Type} (word : String) (part : α → List String) (xs : List α) :
    xs.length ≤ (xs.flatMap fun x => word :: part x).length := by
  induction xs with
  | nil => exact Nat.le_refl 0
  | cons x xs ih =>
    rw [List.flatMap_cons, List.length_append, List.length_cons, List.length_cons]
    omega

end AuditTrail.Statements

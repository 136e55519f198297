import AuditTrail.Pipeline.Queries
import Mathlib.Algebra.GroupWithZero.Nat
import Mathlib.Data.List.Induction
import Mathlib.Data.String.Basic
/-!
# Tallies

The tally of some names has each of them once, in their order, with how often it occurs among them. So no count is
zero, and the counts add up to the number of the names.
-/

namespace AuditTrail

namespace Tally

def names (t : Tally) : List String := t.map Prod.fst

def sum (t : Tally) : Nat := (t.map Prod.snd).sum

/-- A tally with its names in their order, each once and none with a count of zero. -/
structure Sound (t : Tally) : Prop where
  ordered : t.names.Pairwise (· < ·)
  positive : ∀ x ∈ t, 0 < x.2

variable {t : Tally} {n name : String} {k : Nat}

private theorem sound_nil : Sound [] := ⟨.nil, by simp⟩

private theorem count_cons (n other : String) (k : Nat) (t : Tally) :
    count ((n, k) :: t) other = if other = n then k else t.count other := by
  rw [count, List.lookup_cons]
  by_cases h : other = n
  · simp [h]
  · rw [beq_false_of_ne h, if_neg h, count]

private theorem count_of_lt (h : ∀ n ∈ t.names, name < n) : t.count name = 0 := by
  induction t with
  | nil => rfl
  | cons x t ih =>
    simp only [names, List.map_cons, List.mem_cons, forall_eq_or_imp] at h
    rw [count_cons, if_neg h.1.ne, ih h.2]

/-! ## One more of a name -/

private theorem mem_names_add : n ∈ (t.add name).names ↔ n = name ∨ n ∈ t.names := by
  induction t with
  | nil => simp [add, names]
  | cons x t ih =>
    simp only [names, List.map_cons, List.mem_cons] at ih ⊢
    unfold add
    split
    · rename_i h
      simp [h]
    · split
      · simp
      · simp only [List.map_cons, List.mem_cons, ih]
        grind

theorem Sound.add (h : t.Sound) (name : String) : (t.add name).Sound := by
  induction t with
  | nil => exact ⟨List.pairwise_singleton _ _, by simp [Tally.add]⟩
  | cons x t ih =>
    obtain ⟨hfirst, hordered⟩ := List.pairwise_cons.mp h.ordered
    obtain ⟨hpositive, hrest⟩ := List.forall_mem_cons.mp h.positive
    unfold Tally.add
    split
    · exact ⟨List.pairwise_cons.mpr ⟨hfirst, hordered⟩, List.forall_mem_cons.mpr ⟨Nat.succ_pos _, hrest⟩⟩
    · split
      · rename_i hlt
        have hbefore : ∀ n ∈ names (x :: t), name < n :=
          List.forall_mem_cons.mpr ⟨hlt, fun n hn => hlt.trans (hfirst n hn)⟩
        exact ⟨List.pairwise_cons.mpr ⟨hbefore, h.ordered⟩, List.forall_mem_cons.mpr ⟨Nat.one_pos, h.positive⟩⟩
      · rename_i hne hnot
        have hadded := ih ⟨hordered, hrest⟩
        have hafter : x.1 < name := lt_of_le_of_ne (not_lt.mp hnot) (Ne.symm hne)
        have hbefore : ∀ n ∈ names (Tally.add name t), x.1 < n := by
          intro n hn
          rcases mem_names_add.mp hn with rfl | hn
          · exact hafter
          · exact hfirst n hn
        exact ⟨List.pairwise_cons.mpr ⟨hbefore, hadded.ordered⟩,
          List.forall_mem_cons.mpr ⟨hpositive, hadded.positive⟩⟩

private theorem Sound.count_add (h : t.Sound) (name other : String) :
    (t.add name).count other = t.count other + if name = other then 1 else 0 := by
  induction t with
  | nil =>
    rw [Tally.add, count_cons]
    simp [count, eq_comm]
  | cons x t ih =>
    obtain ⟨hfirst, hordered⟩ := List.pairwise_cons.mp h.ordered
    have hrest := ih ⟨hordered, (List.forall_mem_cons.mp h.positive).2⟩
    unfold Tally.add
    split
    · rw [count_cons, count_cons]
      grind
    · split
      · rename_i hlt
        have hnone : Tally.count (x :: t) name = 0 :=
          count_of_lt (List.forall_mem_cons.mpr ⟨hlt, fun n hn => hlt.trans (hfirst n hn)⟩)
        rw [count_cons]
        grind
      · rw [count_cons, count_cons, hrest]
        grind

private theorem sum_add (t : Tally) (name : String) : (t.add name).sum = t.sum + 1 := by
  induction t with
  | nil => rfl
  | cons x t ih =>
    simp only [sum, List.map_cons, List.sum_cons] at ih ⊢
    unfold add
    split
    · simp only [List.map_cons, List.sum_cons]
      omega
    · split
      · simp only [List.map_cons, List.sum_cons]
        omega
      · simp only [List.map_cons, List.sum_cons, ih]
        omega

/-! ## All names -/

theorem Sound.mem_iff (h : t.Sound) : (name, k) ∈ t ↔ 0 < k ∧ t.count name = k := by
  induction t with
  | nil => simp [count]; omega
  | cons x t ih =>
    obtain ⟨hfirst, hordered⟩ := List.pairwise_cons.mp h.ordered
    obtain ⟨hpositive, hrest⟩ := List.forall_mem_cons.mp h.positive
    rw [List.mem_cons, ih ⟨hordered, hrest⟩, count_cons, Prod.ext_iff]
    by_cases hname : name = x.1
    · have hnone : Tally.count t name = 0 := count_of_lt (by rw [hname]; exact hfirst)
      rw [if_pos hname]
      grind
    · rw [if_neg hname]
      grind

/-- A tally that says how often each of some names occurs among them. -/
structure Counts (t : Tally) (names : List String) : Prop where
  /-- The names are in their order, each once. -/
  ordered : t.names.Pairwise (· < ·)
  mem_iff : ∀ name k, (name, k) ∈ t ↔ 0 < k ∧ names.count name = k
  sum_eq : t.sum = names.length

theorem counts_ofNames (names : List String) : (ofNames names).Counts names := by
  have hall : (ofNames names).Sound ∧ (∀ name, (ofNames names).count name = names.count name) ∧
      (ofNames names).sum = names.length := by
    induction names using List.reverseRecOn with
    | nil => exact ⟨sound_nil, fun _ => rfl, rfl⟩
    | append_singleton names name ih =>
      obtain ⟨hsound, hcount, hsum⟩ := ih
      have hlast : ofNames (names ++ [name]) = (ofNames names).add name := by
        rw [ofNames, List.foldl_append, List.foldl_cons, List.foldl_nil, ofNames]
      rw [hlast]
      refine ⟨hsound.add name, fun other => ?_, ?_⟩
      · rw [hsound.count_add, hcount, List.count_append, List.count_singleton]
        simp
      · rw [sum_add, hsum, List.length_append, List.length_singleton]
  obtain ⟨hsound, hcount, hsum⟩ := hall
  exact ⟨hsound.ordered, fun name k => by rw [hsound.mem_iff, hcount], hsum⟩

end Tally

end AuditTrail

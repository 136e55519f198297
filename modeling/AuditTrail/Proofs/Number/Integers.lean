import AuditTrail.Number
import AuditTrail.Proofs.Number.Digits
/-!
# Integers in decimals

Natural numbers and integers are read back from their decimals, if they keep to the bounds.
-/

namespace AuditTrail

private theorem isDigit_toDigits {n : Nat} {c : Char} (h : c ∈ Nat.toDigits 10 n) : c.isDigit = true :=
  Nat.isDigit_of_mem_toDigits (by decide) (by decide) h

theorem parseDigits_toDigits (n : Nat) : parseDigits (Nat.toDigits 10 n) = some n := by
  have hdigits : (Nat.toDigits 10 n).takeWhile Char.isDigit = Nat.toDigits 10 n := by
    have hall : (Nat.toDigits 10 n ++ []).takeWhile Char.isDigit =
        Nat.toDigits 10 n ++ [].takeWhile Char.isDigit :=
      List.takeWhile_append_of_pos fun c hc => isDigit_toDigits hc
    simpa using hall
  have hspan : spanNumber (Nat.toDigits 10 n) = (n, (Nat.toDigits 10 n).length, []) := by
    simp only [spanNumber, hdigits, foldl_toDigits, List.drop_length]
  obtain ⟨c, cs, hcs⟩ := List.exists_cons_of_ne_nil (Nat.toDigits_ne_nil (n := n) (b := 10))
  rw [parseDigits, hspan, hcs]
  rfl

private theorem takeSign_toDigits (n : Nat) :
    takeSign (Nat.toDigits 10 n) = (false, Nat.toDigits 10 n) := by
  unfold takeSign
  split
  · rename_i rest heq
    have hminus : '-' ∈ Nat.toDigits 10 n := heq ▸ List.mem_cons_self
    exact absurd (isDigit_toDigits hminus) (by decide)
  · rename_i rest heq
    have hplus : '+' ∈ Nat.toDigits 10 n := heq ▸ List.mem_cons_self
    exact absurd (isDigit_toDigits hplus) (by decide)
  · rfl

private theorem toList_decimal (n : Nat) : (toString n).toList = Nat.toDigits 10 n := Nat.toList_repr

theorem parseNatural_decimal {bound n : Nat} (h : n < bound) :
    parseNatural bound (toString n) = some n := by
  rw [parseNatural, toList_decimal, takeSign_toDigits]
  simp [parseDigits_toDigits, h]

theorem parseInteger_decimal {lo hi n : Int} (hlo : lo ≤ n) (hhi : n ≤ hi) :
    parseInteger lo hi (toString n) = some n := by
  cases n with
  | ofNat k =>
    have hsign : takeSign (toString (Int.ofNat k)).toList = (false, Nat.toDigits 10 k) := by
      have htext : (toString (Int.ofNat k)).toList = Nat.toDigits 10 k := toList_decimal k
      rw [htext, takeSign_toDigits]
    rw [parseInteger, hsign]
    simp_all [parseDigits_toDigits]
  | negSucc k =>
    have hsign : takeSign (toString (Int.negSucc k)).toList = (true, Nat.toDigits 10 (k + 1)) := by
      change takeSign ("-" ++ toString (k + 1)).toList = _
      rw [String.toList_append, toList_decimal]
      rfl
    have hvalue : -((k + 1 : Nat) : Int) = Int.negSucc k := rfl
    rw [parseInteger, hsign]
    simp only [parseDigits_toDigits, Option.map_some, if_true, hvalue]
    simp [hlo, hhi]

theorem isDigit_of_mem_toString {n : Nat} {c : Char} (h : c ∈ (toString n).toList) : c.isDigit = true := by
  rw [toList_decimal] at h
  exact isDigit_toDigits h

/-- An integer is written with digits, and perhaps a minus sign. -/
theorem isDigit_of_mem_decimal {n : Int} {c : Char} (h : c ∈ (toString n).toList) :
    c.isDigit = true ∨ c = '-' := by
  cases n with
  | ofNat k =>
    have htext : (toString (Int.ofNat k)).toList = Nat.toDigits 10 k := toList_decimal k
    rw [htext] at h
    exact .inl (isDigit_toDigits h)
  | negSucc k =>
    change c ∈ ("-" ++ toString (k + 1)).toList at h
    rw [String.toList_append, toList_decimal] at h
    rcases List.mem_append.mp h with hsign | hdigit
    · exact .inr (List.mem_singleton.mp hsign)
    · exact .inl (isDigit_toDigits hdigit)

theorem integer_decimal_injective : Function.Injective (toString : Int → String) := by
  intro m n h
  have hm := parseInteger_decimal (Int.min_le_left m n) (Int.le_max_left m n)
  have hn := parseInteger_decimal (Int.min_le_right m n) (Int.le_max_right m n)
  rw [h, hn] at hm
  exact (Option.some.inj hm).symm

theorem decimal_injective : Function.Injective (toString : Nat → String) := by
  intro m n h
  have hm := parseDigits_toDigits m
  rw [← toList_decimal, h, toList_decimal, parseDigits_toDigits] at hm
  exact (Option.some.inj hm).symm

end AuditTrail

import AuditTrail.Proofs.Http.Percent
/-!
# Queries that are written with percent signs

Names and values that are written as a query, with percent signs for all that is special, are read back as they
were, whatever texts they are.
-/

namespace AuditTrail.Http

open Text

/-- A name and its value as a part of a query. -/
def encodePair (p : String × String) : List UInt8 :=
  percentEncode (bytes p.1) ++ '='.toUInt8 :: percentEncode (bytes p.2)

/-- The query that stands for names and values. -/
def encodeQuery (pairs : List (String × String)) : String :=
  ofBytes (['&'.toUInt8].intercalate (pairs.map encodePair))

/-! ## Parts -/

private theorem percentEncode_unmarked {bs : List UInt8} {c : UInt8} (hc : c ∈ percentEncode bs) :
    c ∉ ['+'.toUInt8, '&'.toUInt8, '='.toUInt8] := by
  have hchecked : ∀ b : UInt8,
      ((encodeByte b).all fun c => decide (c ∉ ['+'.toUInt8, '&'.toUInt8, '='.toUInt8])) = true :=
    forall_byte (by decide +kernel)
  obtain ⟨b, -, hc⟩ := List.mem_flatMap.mp hc
  exact of_decide_eq_true (List.all_eq_true.mp (hchecked b) c hc)

private theorem decodeQueryText_percentEncode (s : String) : decodeQueryText (percentEncode (bytes s)) = s := by
  have hspaces : (percentEncode (bytes s)).map (fun b => if b = '+'.toUInt8 then ' '.toUInt8 else b) =
      percentEncode (bytes s) := by
    conv => rhs; rw [← List.map_id (percentEncode (bytes s))]
    apply List.map_congr_left
    intro b hb
    have hmarks := percentEncode_unmarked hb
    exact if_neg fun hplus => hmarks (by simp [hplus])
  rw [decodeQueryText, hspaces, percentDecode_percentEncode, ofBytes, ofBytes?_bytes]
  rfl

private theorem decodePair_encodePair (p : String × String) : decodePair (encodePair p) = p := by
  have hname : ∀ b ∈ percentEncode (bytes p.1), decide (b ≠ '='.toUInt8) = true := by
    intro b hb
    have hmarks := percentEncode_unmarked hb
    simp only [ne_eq, decide_eq_true_eq]
    rintro rfl
    exact hmarks (by simp)
  rw [decodePair, encodePair, List.takeWhile_append_of_pos hname, List.dropWhile_append_of_pos hname]
  simp [decodeQueryText_percentEncode]

private theorem plain_of_mem_encodePair {p : String × String} {c : UInt8} (hc : c ∈ encodePair p) :
    c ≠ '&'.toUInt8 ∧ c < 128 ∧ byteChar c ≠ '#' := by
  have hencoded {bs : List UInt8} (h : c ∈ percentEncode bs) :
      c ≠ '&'.toUInt8 ∧ c < 128 ∧ byteChar c ≠ '#' := by
    have hmarks := percentEncode_unmarked h
    have hplain := percentEncode_plain h
    simp only [List.mem_cons, not_or] at hmarks hplain
    exact ⟨hmarks.2.1, hplain.1, hplain.2.2.2.1⟩
  rcases List.mem_append.mp hc with hname | hrest
  · exact hencoded hname
  · rcases List.mem_cons.mp hrest with rfl | hvalue
    · decide
    · exact hencoded hvalue

/-! ## Queries -/

private theorem mem_intercalate {α : Type} {separator x : α} {parts : List (List α)}
    (hx : x ∈ [separator].intercalate parts) : x = separator ∨ ∃ part ∈ parts, x ∈ part := by
  induction parts with
  | nil => cases hx
  | cons part rest ih =>
    cases rest with
    | nil => exact .inr ⟨part, List.mem_cons_self, by simpa using hx⟩
    | cons next rest =>
      rw [List.intercalate_cons_cons, List.append_assoc, List.mem_append, List.singleton_append,
        List.mem_cons] at hx
      rcases hx with hpart | hseparator | hrest
      · exact .inr ⟨part, List.mem_cons_self, hpart⟩
      · exact .inl hseparator
      · exact (ih hrest).imp_right fun ⟨other, hother, hmem⟩ => ⟨other, List.mem_cons_of_mem _ hother, hmem⟩

variable {pairs : List (String × String)}

private theorem ofBytes?_query (pairs : List (String × String)) :
    ofBytes? (['&'.toUInt8].intercalate (pairs.map encodePair)) = some (encodeQuery pairs) ∧
      '#' ∉ (encodeQuery pairs).toList := by
  have hplain : ∀ b ∈ ['&'.toUInt8].intercalate (pairs.map encodePair), b < 128 ∧ byteChar b ≠ '#' := by
    intro b hb
    rcases mem_intercalate hb with rfl | ⟨part, hpart, hb⟩
    · decide
    · obtain ⟨p, -, rfl⟩ := List.mem_map.mp hpart
      exact (plain_of_mem_encodePair hb).2
  have hascii := ofBytes?_ascii fun b hb => (hplain b hb).1
  rw [encodeQuery, ofBytes, hascii, Option.getD_some]
  refine ⟨rfl, fun hmem => ?_⟩
  rw [String.toList_ofList] at hmem
  obtain ⟨b, hb, hhash⟩ := List.mem_map.mp hmem
  exact (hplain b hb).2 hhash

private theorem parseQuery_encodeQuery (pairs : List (String × String)) : parseQuery (encodeQuery pairs) = pairs := by
  have hparts : ∀ part ∈ pairs.map encodePair, '&'.toUInt8 ∉ part := by
    intro part hpart hmem
    obtain ⟨p, -, rfl⟩ := List.mem_map.mp hpart
    exact (plain_of_mem_encodePair hmem).1 rfl
  have hnonempty : ∀ part ∈ pairs.map encodePair, (!part.isEmpty) = true := by
    intro part hpart
    obtain ⟨p, -, rfl⟩ := List.mem_map.mp hpart
    simp [encodePair]
  rw [parseQuery, bytes_of_ofBytes? (ofBytes?_query pairs).1]
  cases pairs with
  | nil => decide +kernel
  | cons p rest =>
    rw [List.splitOn_intercalate _ hparts (by simp), List.filter_eq_self.mpr hnonempty, List.map_map]
    conv => rhs; rw [← List.map_id (p :: rest)]
    exact List.map_congr_left fun p _ => decodePair_encodePair p

theorem parts_of_encoded {r : Request} {path : String} (h : r.target = path ++ "?" ++ encodeQuery pairs)
    (hpath : ∀ c ∈ path.toList, c ≠ '#' ∧ c ≠ '?') :
    r.segments = (path.toList.splitOn '/').map String.ofList ∧ r.query = pairs := by
  have hparts := parts_of_query h hpath (ofBytes?_query pairs).2
  rw [parseQuery_encodeQuery] at hparts
  exact hparts

end AuditTrail.Http

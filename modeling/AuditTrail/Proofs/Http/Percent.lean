import AuditTrail.Http
import Mathlib.Data.List.TakeWhile
/-!
# Segments that are written with percent signs

A text that is written as a segment of a path is read back as itself, and what is written holds no character
that would end the segment.
-/

namespace AuditTrail

namespace Text

/-! ## Bytes of texts -/

theorem bytes_of_ofBytes? {bs : List UInt8} {s : String} (h : ofBytes? bs = some s) : bytes s = bs := by
  rw [ofBytes?, String.fromUTF8?] at h
  split at h
  · cases h
    rw [bytes_eq]
    rfl
  · cases h

private theorem bytes_ofList (cs : List Char) : bytes (String.ofList cs) = cs.flatMap String.utf8EncodeChar := by
  rw [bytes_eq, String.toByteArray_ofList]
  exact List.toList_data_toByteArray

private theorem bytes_append (s t : String) : bytes (s ++ t) = bytes s ++ bytes t := by
  simp [bytes_eq]

/-- The character that a byte below 128 is by itself. -/
def byteChar (b : UInt8) : Char := Char.ofNat b.toNat

/-- What is true of every byte can be checked for one after the other. -/
theorem forall_byte {P : UInt8 → Prop} (h : ∀ n : Fin 256, P (.ofFin n)) (b : UInt8) : P b := h b.toFin

private theorem utf8EncodeChar_byteChar : ∀ b : UInt8, b < 128 → String.utf8EncodeChar (byteChar b) = [b] :=
  forall_byte (by decide +kernel)

/-- A character below 128 is written as the byte with its number. -/
theorem bytes_ascii {s : String} (h : ∀ c ∈ s.toList, c.toNat < 128) :
    bytes s = s.toList.map fun c => UInt8.ofNat c.toNat := by
  have hbytes : bytes s = s.toList.flatMap String.utf8EncodeChar := by
    rw [← bytes_ofList, String.ofList_toList]
  rw [hbytes]
  generalize s.toList = cs at h
  induction cs with
  | nil => rfl
  | cons c cs ih =>
    have hc : c.toNat < 128 := h c List.mem_cons_self
    have hnumber : (UInt8.ofNat c.toNat).toNat = c.toNat := by
      rw [UInt8.toNat_ofNat']
      omega
    have hbyte : UInt8.ofNat c.toNat < 128 := by
      rw [UInt8.lt_iff_toNat_lt, hnumber]
      exact hc
    have hchar : byteChar (UInt8.ofNat c.toNat) = c := by
      rw [byteChar, hnumber, Char.ofNat_toNat]
    have hencoded := utf8EncodeChar_byteChar _ hbyte
    rw [hchar] at hencoded
    rw [List.flatMap_cons, hencoded, ih fun d hd => h d (List.mem_cons_of_mem c hd)]
    rfl

theorem ofBytes?_ascii {bs : List UInt8} (h : ∀ b ∈ bs, b < 128) :
    ofBytes? bs = some (String.ofList (bs.map byteChar)) := by
  have hbytes : bytes (String.ofList (bs.map byteChar)) = bs := by
    rw [bytes_ofList, List.flatMap_map]
    induction bs with
    | nil => rfl
    | cons b rest ih =>
      rw [List.flatMap_cons, utf8EncodeChar_byteChar b (h b (by simp)), ih fun c hc => h c (by simp [hc])]
      rfl
  rw [← ofBytes?_bytes (String.ofList (bs.map byteChar)), hbytes]

end Text

namespace Http

open Text

/-! ## Bytes -/

def encodeByte (b : UInt8) : List UInt8 :=
  if isUnreserved b then [b] else ['%'.toUInt8, hexDigit (b / 16), hexDigit (b % 16)]

private theorem percentEncode_cons (b : UInt8) (bs : List UInt8) :
    percentEncode (b :: bs) = encodeByte b ++ percentEncode bs := rfl

private theorem encodeByte_cases : ∀ b : UInt8, (encodeByte b = [b] ∧ b ≠ '%'.toUInt8) ∨
    ∃ hi lo, encodeByte b = ['%'.toUInt8, hi, lo] ∧ hexByte? hi lo = some b := by
  have hchecked : ∀ b : UInt8, (encodeByte b = [b] ∧ b ≠ '%'.toUInt8) ∨
      (encodeByte b = ['%'.toUInt8, hexDigit (b / 16), hexDigit (b % 16)] ∧
        hexByte? (hexDigit (b / 16)) (hexDigit (b % 16)) = some b) := forall_byte (by decide +kernel)
  intro b
  exact (hchecked b).imp id fun h => ⟨_, _, h⟩

private theorem encodeByte_plain : ∀ b : UInt8, ∀ c ∈ encodeByte b, c < 128 ∧ byteChar c ∉ ['/', '?', '#'] := by
  -- The members alone are checked; the statement itself may be decided by going through all bytes.
  have hchecked : ∀ b : UInt8,
      ((encodeByte b).all fun c => decide (c < 128 ∧ byteChar c ∉ ['/', '?', '#'])) = true :=
    forall_byte (by decide +kernel)
  intro b c hc
  exact of_decide_eq_true (List.all_eq_true.mp (hchecked b) c hc)

private theorem percentDecode_cons {b : UInt8} (h : b ≠ '%'.toUInt8) (rest : List UInt8) :
    percentDecode (b :: rest) = b :: percentDecode rest := by
  match rest with
  | [] => rfl
  | [c] => rfl
  | hi :: lo :: rest => rw [percentDecode, if_neg h]

theorem percentDecode_percentEncode (bs : List UInt8) : percentDecode (percentEncode bs) = bs := by
  induction bs with
  | nil => rfl
  | cons b rest ih =>
    rw [percentEncode_cons]
    rcases encodeByte_cases b with ⟨hb, hne⟩ | ⟨hi, lo, hb, hdigits⟩
    · rw [hb, List.singleton_append, percentDecode_cons hne, ih]
    · rw [hb, List.cons_append, List.cons_append, List.singleton_append, percentDecode, if_pos rfl, hdigits]
      exact congrArg (b :: ·) ih

theorem percentEncode_plain {bs : List UInt8} {c : UInt8} (hc : c ∈ percentEncode bs) :
    c < 128 ∧ byteChar c ∉ ['/', '?', '#'] := by
  obtain ⟨b, -, hc⟩ := List.mem_flatMap.mp hc
  exact encodeByte_plain b c hc

/-! ## Segments -/

private theorem ofBytes?_percentEncode (bs : List UInt8) :
    ofBytes? (percentEncode bs) = some (ofBytes (percentEncode bs)) := by
  rw [ofBytes, ofBytes?_ascii fun _ hc => (percentEncode_plain hc).1]
  rfl

theorem decodeSegment?_encodeSegment (s : String) : decodeSegment? (encodeSegment s) = some s := by
  rw [decodeSegment?, encodeSegment, bytes_of_ofBytes? (ofBytes?_percentEncode _), percentDecode_percentEncode,
    ofBytes?_bytes]

private theorem toList_encodeSegment (s : String) :
    (encodeSegment s).toList = (percentEncode (bytes s)).map byteChar := by
  rw [encodeSegment, ofBytes, ofBytes?_ascii fun _ hc => (percentEncode_plain hc).1, Option.getD_some,
    String.toList_ofList]

private theorem plain_of_mem_encodeSegment {s : String} {c : Char} (hc : c ∈ (encodeSegment s).toList) :
    c ∉ ['/', '?', '#'] := by
  rw [toList_encodeSegment] at hc
  obtain ⟨b, hb, rfl⟩ := List.mem_map.mp hc
  exact (percentEncode_plain hb).2

theorem encodeSegment_ne_empty {s : String} (h : s ≠ "") : encodeSegment s ≠ "" := by
  intro hempty
  have hdecode := decodeSegment?_encodeSegment s
  rw [hempty] at hdecode
  have hread : decodeSegment? "" = some "" := by decide +kernel
  rw [hread] at hdecode
  exact h (Option.some_inj.mp hdecode).symm

/-! ## Paths -/

private theorem segments_of_plain {r : Request} (h : ∀ c ∈ r.target.toList, c ≠ '#' ∧ c ≠ '?') :
    r.segments = (r.target.toList.splitOn '/').map String.ofList := by
  have hchars : r.targetChars = r.target.toList :=
    List.takeWhile_eq_self_iff.mpr fun c hc => by simpa using (h c hc).1
  have hpath : r.path.toList = r.target.toList := by
    rw [Request.path, hchars, String.toList_ofList]
    exact List.takeWhile_eq_self_iff.mpr fun c hc => by simpa using (h c hc).2
  rw [Request.segments, hpath]

/-! ## Queries -/

/-- A target with a query is read up to the question mark as a path and from there as a query. -/
theorem parts_of_query {r : Request} {path query : String} (h : r.target = path ++ "?" ++ query)
    (hpath : ∀ c ∈ path.toList, c ≠ '#' ∧ c ≠ '?') (hquery : '#' ∉ query.toList) :
    r.segments = (path.toList.splitOn '/').map String.ofList ∧ r.query = parseQuery query := by
  have hall : r.target.toList = path.toList ++ '?' :: query.toList := by simp [h]
  have hchars : r.targetChars = path.toList ++ '?' :: query.toList := by
    rw [Request.targetChars, hall, List.takeWhile_eq_self_iff]
    intro c hc
    simp only [List.mem_append, List.mem_cons] at hc
    rcases hc with hc | rfl | hc
    · simpa using (hpath c hc).1
    · decide
    · simp only [ne_eq, decide_not, Bool.not_eq_true', decide_eq_false_iff_not]
      rintro rfl
      exact hquery hc
  have hbefore : ∀ c ∈ path.toList, decide (c ≠ '?') = true := by
    intro c hc
    simpa using (hpath c hc).2
  constructor
  · rw [Request.segments, Request.path, hchars, String.toList_ofList, List.takeWhile_append_of_pos hbefore]
    simp
  · rw [Request.query, hchars, List.dropWhile_append_of_pos hbefore]
    simp

private theorem percentDecode_plain {bs : List UInt8} (h : '%'.toUInt8 ∉ bs) : percentDecode bs = bs := by
  induction bs with
  | nil => rfl
  | cons b bs ih =>
    rw [List.mem_cons, not_or] at h
    rw [percentDecode_cons (Ne.symm h.1), ih h.2]

private theorem decodeQueryText_plain {s : String} (hpercent : '%'.toUInt8 ∉ bytes s) (hplus : '+'.toUInt8 ∉ bytes s) :
    decodeQueryText (bytes s) = s := by
  have hmap : (bytes s).map (fun b => if b = '+'.toUInt8 then ' '.toUInt8 else b) = bytes s := by
    conv => rhs; rw [← List.map_id (bytes s)]
    apply List.map_congr_left
    intro b hb
    have hne : b ≠ '+'.toUInt8 := by
      rintro rfl
      exact hplus hb
    exact if_neg hne
  rw [decodeQueryText, hmap, percentDecode_plain hpercent, ofBytes, ofBytes?_bytes]
  rfl

/-- A query of one name with its value, in which nothing stands for anything else. -/
theorem parseQuery_pair {name value : String}
    (hname : ∀ b ∈ bytes name, b ∉ ['%'.toUInt8, '+'.toUInt8, '&'.toUInt8, '='.toUInt8])
    (hvalue : ∀ b ∈ bytes value, b ∉ ['%'.toUInt8, '+'.toUInt8, '&'.toUInt8]) :
    parseQuery (name ++ "=" ++ value) = [(name, value)] := by
  have hbytes : bytes (name ++ "=" ++ value) = bytes name ++ '='.toUInt8 :: bytes value := by
    have hequals : bytes "=" = ['='.toUInt8] := by decide +kernel
    rw [bytes_append, bytes_append, hequals, List.append_assoc, List.singleton_append]
  have hone : '&'.toUInt8 ∉ bytes name ++ '='.toUInt8 :: bytes value := by
    simp only [List.mem_append, List.mem_cons, not_or]
    refine ⟨fun h => hname _ h (by simp), by decide, fun h => hvalue _ h (by simp)⟩
  have hsplit : (bytes name ++ '='.toUInt8 :: bytes value).splitOn '&'.toUInt8 =
      [bytes name ++ '='.toUInt8 :: bytes value] := by
    have hsingle : (['&'.toUInt8].intercalate [bytes name ++ '='.toUInt8 :: bytes value]).splitOn '&'.toUInt8 =
        [bytes name ++ '='.toUInt8 :: bytes value] := List.splitOn_intercalate _ (by simpa using hone) (by simp)
    simpa using hsingle
  have hbefore : ∀ b ∈ bytes name, decide (b ≠ '='.toUInt8) = true := by
    intro b hb
    have hplain := hname b hb
    grind
  have htexts : decodeQueryText (bytes name) = name ∧ decodeQueryText (bytes value) = value :=
    ⟨decodeQueryText_plain (fun h => hname _ h (by simp)) fun h => hname _ h (by simp),
      decodeQueryText_plain (fun h => hvalue _ h (by simp)) fun h => hvalue _ h (by simp)⟩
  rw [parseQuery, hbytes, hsplit, List.filter_cons_of_pos (by simp), List.filter_nil, List.map_singleton,
    decodePair, List.takeWhile_append_of_pos hbefore, List.dropWhile_append_of_pos hbefore]
  simp [htexts]

/-- A text that is written at the end of the path of an event is its last segment. -/
theorem segments_of_event {r : Request} {id : String} (h : r.target = "/api/v1/logs/" ++ encodeSegment id) :
    r.segments = ["", "api", "v1", "logs", encodeSegment id] := by
  have htarget : r.target.toList = ['/'].intercalate
      [[], ['a', 'p', 'i'], ['v', '1'], ['l', 'o', 'g', 's'], (encodeSegment id).toList] := by
    rw [h, String.toList_append]
    simp [List.intercalate]
  have hparts : ∀ part ∈ [[], ['a', 'p', 'i'], ['v', '1'], ['l', 'o', 'g', 's'], (encodeSegment id).toList],
      '/' ∉ part := by
    have hid : '/' ∉ (encodeSegment id).toList := fun hmem => plain_of_mem_encodeSegment hmem (by simp)
    simp [hid]
  have hstart : ∀ c ∈ "/api/v1/logs/".toList, c ≠ '#' ∧ c ≠ '?' := by simp
  have hplain : ∀ c ∈ r.target.toList, c ≠ '#' ∧ c ≠ '?' := by
    intro c hc
    rw [h, String.toList_append, List.mem_append] at hc
    rcases hc with hc | hc
    · exact hstart c hc
    · have := plain_of_mem_encodeSegment hc
      grind
  rw [segments_of_plain hplain, htarget, List.splitOn_intercalate _ hparts (by simp)]
  simp

end Http

end AuditTrail

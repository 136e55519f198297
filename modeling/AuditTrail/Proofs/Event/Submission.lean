import AuditTrail.Event.Request
import AuditTrail.Proofs.Json.Structures
/-!
# Submitted requests

What the structured values of a request are like that was read from a text, alone or in a batch: none of
them is `null`, the members of their objects are in order, and they nest less deep than the text.
-/

namespace AuditTrail

open Json

namespace Json

private theorem Reader.of_list {α : Type} {read : Reader α} {depth : Nat} {t : Tree} {xs : List α}
    (h : list read depth t = some xs) : ∀ x ∈ xs, ∃ inner < depth, ∃ t, read inner t = some x := by
  cases depth with
  | zero => cases h
  | succ inner =>
    obtain ⟨items, -, hitems⟩ := list_eq_some.mp h
    intro x hx
    exact ⟨inner, Nat.lt_succ_self inner, exists_of_forall₂ hitems x hx⟩

private theorem depth_of_fields {names : List String} {depth : Nat} {t : Tree} {f : Fields}
    (h : fields names depth t = some f) : f.depth < depth := by
  cases depth with
  | zero => cases t <;> cases h
  | succ inner =>
    obtain ⟨_, -, hmatch⟩ := gives_of_fields h
    rw [hmatch.depth_eq]
    exact Nat.lt_succ_self inner

private theorem of_blob_field {f : Fields} {name : String} {v : Option Json}
    (h : f.withDefault name .blob none = some v) : ∀ w ∈ v, ReadBlob f.depth w := by
  unfold Fields.withDefault at h
  split at h
  · exact (Reader.optional_json_eq_some.mp h).read
  · cases h
    simp

end Json

namespace NewEvent

def blobs (r : NewEvent) : List Json :=
  r.beforeState.toList ++ r.afterState.toList ++ r.metadata.toList

/-- The numbers in the structured values of a request are integers of 64 bits. -/
def hasWords (r : NewEvent) : Bool := r.blobs.all (numbersAll Number.isWord)

theorem of_read {depth : Nat} {t : Tree} {r : NewEvent} (h : read depth t = some r) :
    ∀ v ∈ r.blobs, ReadBlob depth v := by
  obtain ⟨f, hf, h⟩ := Option.bind_eq_some_iff.mp h
  iterate 11 obtain ⟨_, -, h⟩ := Option.bind_eq_some_iff.mp h
  obtain ⟨beforeState, hbefore, h⟩ := Option.bind_eq_some_iff.mp h
  obtain ⟨afterState, hafter, h⟩ := Option.bind_eq_some_iff.mp h
  obtain ⟨metadata, hmetadata, h⟩ := Option.bind_eq_some_iff.mp h
  obtain ⟨timestamp, -, h⟩ := Option.bind_eq_some_iff.mp h
  cases h
  have hdepth := Nat.le_of_lt (depth_of_fields hf)
  intro v hv
  simp only [blobs, List.mem_append, Option.mem_toList] at hv
  rcases hv with (hv | hv) | hv
  · exact (of_blob_field hbefore v hv).mono hdepth
  · exact (of_blob_field hafter v hv).mono hdepth
  · exact (of_blob_field hmetadata v hv).mono hdepth

theorem of_ofBytes {body : List UInt8} {r : NewEvent} (h : read.ofBytes body = some r) :
    ∀ v ∈ r.blobs, ReadBlob maxDepth v := by
  obtain ⟨t, -, ht⟩ := Option.bind_eq_some_iff.mp h
  exact of_read ht

theorem of_ofBytes_batch {body : List UInt8} {requests : List NewEvent}
    (h : readBatch.ofBytes body = some requests) :
    ∀ r ∈ requests, ∀ v ∈ r.blobs, ReadBlob maxDepth v := by
  obtain ⟨t, -, ht⟩ := Option.bind_eq_some_iff.mp h
  obtain ⟨-, -, ht⟩ := Option.bind_eq_some_iff.mp ht
  have hlist : ∃ depth ≤ maxDepth, ∃ t, Reader.list read depth t = some requests := by
    split at ht
    · obtain ⟨f, hf, hlogs⟩ := Option.bind_eq_some_iff.mp ht
      obtain ⟨t, -, hlogs⟩ := Option.bind_eq_some_iff.mp hlogs
      exact ⟨f.depth, Nat.le_of_lt (depth_of_fields hf), t, hlogs⟩
    · exact ⟨_, Nat.le_refl _, _, ht⟩
  obtain ⟨_, houter, _, hlist⟩ := hlist
  intro r hr v hv
  obtain ⟨_, hinner, _, hread⟩ := Reader.of_list hlist r hr
  exact (of_read hread v hv).mono (Nat.le_trans (Nat.le_of_lt hinner) houter)

end NewEvent

end AuditTrail

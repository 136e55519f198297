import AuditTrail.Proofs.Filter.Select
/-!
# Pages of a listing

The pages of a filter, one after the other, are its listing: each event that it admits is on one page, and a
page before one that is not empty is full. Page numbers below one ask for the first page, and those past the
end for nothing, also where the number of entries before the page no longer fits into 64 bits.
-/

namespace AuditTrail

namespace PageWindow

private theorem normalize_bounds (page pageSize : Int) :
    1 ≤ (normalize page pageSize).page ∧ 1 ≤ (normalize page pageSize).pageSize ∧
      (normalize page pageSize).pageSize ≤ maxSize := by
  simp only [normalize, defaultSize, maxSize]
  split <;> omega

theorem normalize_normalize (page pageSize : Int) :
    normalize (normalize page pageSize).page (normalize page pageSize).pageSize = normalize page pageSize := by
  obtain ⟨hpage, hpos, hmax⟩ := normalize_bounds page pageSize
  generalize normalize page pageSize = w at hpage hpos hmax ⊢
  obtain ⟨page, pageSize⟩ := w
  rw [normalize, if_neg (by omega), Int.max_eq_left hpage, Int.min_eq_left hmax]

private theorem slice_mk {α : Type} {entries : List α} (hfits : (entries.length : Int) ≤ maxInt 64) (k size : Nat) :
    slice ⟨k + 1, size⟩ entries = (entries.drop (k * size)).take size := by
  have hoffset : offset ⟨k + 1, size⟩ = min ((k * size : Nat) : Int) (maxInt 64) := by
    simp [offset]
  rw [slice, hoffset, limit, Int.toNat_natCast]
  rcases Int.le_total ((k * size : Nat) : Int) (maxInt 64) with hle | hgt
  · rw [Int.min_eq_left hle, Int.toNat_natCast]
  · rw [Int.min_eq_right hgt, List.drop_of_length_le (by omega), List.drop_of_length_le (by omega)]

end PageWindow

private theorem flatMap_pieces {α : Type} (entries : List α) (size n : Nat) :
    ((List.range n).flatMap fun k => (entries.drop (k * size)).take size) = entries.take (n * size) := by
  induction n with
  | zero => simp
  | succ n ih => rw [List.range_succ, List.flatMap_append, ih, List.flatMap_singleton, Nat.succ_mul, List.take_add]

/-- Pages of one size that cover a listing. -/
structure Pages (size : Nat) (listing : List Event) (page : Int → List Event) : Prop where
  /-- So many pages that they have room for the listing are the listing. -/
  all : ∀ n : Nat, listing.length ≤ n * size → ((List.range n).flatMap fun k : Nat => page (k + 1)) = listing
  room : ∀ number, (page number).length ≤ size
  /-- A page before one that is not empty is full. -/
  full : ∀ k : Nat, page (k + 2) ≠ [] → (page (k + 1)).length = size
  /-- A page that the pages before it leave nothing for is empty. -/
  past : ∀ k : Nat, listing.length ≤ k * size → page (k + 1) = []
  /-- There is no page before the first one. -/
  early : ∀ number ≤ 1, page number = page 1

private theorem Pages.of_pieces {size : Nat} {listing : List Event} {page : Int → List Event}
    (hpage : ∀ k : Nat, page (k + 1) = (listing.drop (k * size)).take size)
    (hearly : ∀ number ≤ 1, page number = page 1) : Pages size listing page where
  all n hn := by
    simp only [hpage]
    rw [flatMap_pieces, List.take_of_length_le hn]
  room number := by
    have hlength (k : Nat) : (page (k + 1)).length ≤ size := by
      rw [hpage, List.length_take]
      omega
    rcases Int.le_total number 1 with hle | hge
    · rw [hearly number hle]
      exact hlength 0
    · obtain ⟨k, rfl⟩ : ∃ k : Nat, number = k + 1 := ⟨(number - 1).toNat, by omega⟩
      exact hlength k
  full k hnext := by
    have hk : (k : Int) + 2 = (k + 1 : Nat) + 1 := by omega
    rw [hk, hpage, Nat.succ_mul, ne_eq, List.take_eq_nil_iff, List.drop_eq_nil_iff] at hnext
    rw [hpage, List.length_take, List.length_drop]
    omega
  past k hk := by
    rw [hpage, List.drop_of_length_le hk, List.take_nil]
  early := hearly

theorem Pages.all_of_last {size : Nat} {listing : List Event} {page : Int → List Event}
    (h : Pages size listing page) (hsize : 1 ≤ size) {k : Nat} (hlast : (page (k + 1)).length < size) :
    ((List.range (k + 1)).flatMap fun j : Nat => page (j + 1)) = listing := by
  have hempty (j : Nat) : page ((k + 1 + j : Nat) + 1) = [] := by
    induction j with
    | zero =>
      by_contra hne
      have hfull := h.full k (by exact_mod_cast hne)
      omega
    | succ j ih =>
      by_contra hne
      have hfull := h.full (k + 1 + j) (by exact_mod_cast hne)
      rw [ih, List.length_nil] at hfull
      omega
  have hroom : listing.length ≤ (k + 1 + listing.length) * size :=
    Nat.le_trans (by omega) (Nat.le_mul_of_pos_right (k + 1 + listing.length) hsize)
  have hall := h.all (k + 1 + listing.length) hroom
  have hrest : ((List.range listing.length).map (k + 1 + ·)).flatMap (fun j : Nat => page (j + 1)) = [] := by
    simp only [List.flatMap_map, List.flatMap_eq_nil_iff]
    exact fun j _ => hempty j
  rw [List.range_add, List.flatMap_append, hrest, List.append_nil] at hall
  exact hall

namespace Event

/-- Events with different identifiers are listed in the order of their times and identifiers. -/
theorem pairwise_newestFirst {events : List Event} (hnodup : events.Nodup)
    (hids : ∀ a ∈ events, ∀ b ∈ events, a.id = b.id → a = b) :
    (newestFirst events).Pairwise fun a b =>
      b.timestamp < a.timestamp ∨ (a.timestamp = b.timestamp ∧ a.id < b.id) := by
  have hperm : (newestFirst events).Perm events := List.mergeSort_perm _ _
  have hsorted : (newestFirst events).Pairwise fun a b => notAfter a b = true :=
    List.pairwise_mergeSort notAfter_trans notAfter_total events
  have hdistinct : (newestFirst events).Pairwise fun a b => a ≠ b := hperm.nodup_iff.mpr hnodup
  refine (hsorted.and hdistinct).imp_of_mem fun {a b} ha hb hab => ?_
  have hprecedes : precedes a b = true := by
    by_contra hnot
    have hba : notAfter b a = true := by simpa [notAfter] using hnot
    exact hab.2 (hids a (hperm.mem_iff.mp ha) b (hperm.mem_iff.mp hb) (id_eq_of_notAfter hab.1 hba))
  simpa [precedes] using hprecedes

end Event

namespace Filter

/-- All events that a filter admits, newest first. -/
def listing (f : Filter) (events : List Event) : List Event := Event.newestFirst (events.filter f.admits)

/-- The filter for a page of the same listing. -/
def onPage (f : Filter) (number : Int) : Filter := { f with page := number }

def size (f : Filter) : Nat := f.window.pageSize.toNat

theorem size_bounds (f : Filter) : 1 ≤ f.size ∧ f.size ≤ 1000 := by
  have h := PageWindow.normalize_bounds f.page f.pageSize
  unfold size window
  simp only [PageWindow.maxSize] at h
  omega

theorem mem_listing {f : Filter} {events : List Event} {e : Event} :
    e ∈ f.listing events ↔ e ∈ events ∧ f.admits e = true := by
  rw [listing, Event.newestFirst, List.mem_mergeSort, List.mem_filter]

theorem length_listing_le (f : Filter) (events : List Event) : (f.listing events).length ≤ events.length := by
  rw [listing, Event.newestFirst, List.length_mergeSort]
  exact List.length_filter_le _ _

private theorem window_onPage_normalized (f : Filter) (number : Int) :
    (f.onPage number).normalized.window = ⟨max number 1, f.size⟩ := by
  have hsize := PageWindow.normalize_bounds f.page f.pageSize
  have hcast : (f.size : Int) = f.window.pageSize := Int.toNat_of_nonneg (by unfold window; omega)
  rw [hcast]
  exact PageWindow.normalize_normalize number f.pageSize

theorem pages_select (f : Filter) {events : List Event} (hfits : (events.length : Int) ≤ maxInt 64) :
    Pages f.size (f.listing events) fun number => (f.onPage number).normalized.select events := by
  have hselect (number : Int) : (f.onPage number).normalized.select events =
      PageWindow.slice ⟨max number 1, f.size⟩ (f.listing events) := by
    rw [select, window_onPage_normalized]
    rfl
  have hlength := f.length_listing_le events
  refine .of_pieces (fun k => ?_) fun number hnumber => ?_
  · have hmax : max ((k : Int) + 1) 1 = k + 1 := by omega
    rw [hselect, hmax]
    exact PageWindow.slice_mk (by omega) k f.size
  · rw [hselect, hselect, Int.max_eq_right hnumber, Int.max_self]

end Filter

end AuditTrail

import AuditTrail.Proofs.Log.Deliveries
import AuditTrail.Proofs.Log.Readers
import Mathlib.Logic.Basic
/-!
# No record is skipped or leased twice

`Readers.nothing_skipped_or_leased_twice`: whatever the readers of a log do and in whatever order, each
record that was read and has a value is either leased or acknowledged, each is handed out for the first time
once at most, and the committed position never goes back or past a record that is not acknowledged.
-/

namespace AuditTrail.Log

namespace Ledger

variable {l l' : Ledger} {start : Nat}

/-! ## Records that were read are accounted for -/

structure Accounted (l : Ledger) (start : Nat) : Prop where
  mark : l.leases.next ≤ start ∨ ∃ r ∈ l.log, l.leases.next ≤ r.position + 1
  covered : ∀ r ∈ l.log, r.value.isSome → start ≤ r.position → r.position < l.leases.next →
    l.Leased r.position ∨ l.Acknowledged r.position

namespace Accounted

theorem new (start : Nat) : (Ledger.new start).Accounted start := by
  constructor <;> simp [Ledger.new, Leases.startingAt]

private theorem append (h : l.Accounted start) {r : Record} (hr : ∀ x ∈ l.log, x.position < r.position) :
    (l.append r).Accounted start where
  mark := by
    rcases h.mark with hle | ⟨x, hx, hle⟩
    · exact .inl hle
    · exact .inr ⟨x, List.mem_append_left _ hx, hle⟩
  covered x hx hvalue hstart hlt := by
    rcases List.mem_append.mp hx with hold | hnew
    · exact h.covered x hold hvalue hstart hlt
    · rw [List.mem_singleton.mp hnew] at hstart hlt
      have hnext : r.position < l.leases.next := hlt
      rcases h.mark with hle | ⟨y, hy, hle⟩
      · omega
      · have hbefore := hr y hy
        omega

private theorem read (h : l.Accounted start) (hs : l.Sound) {r : Record} (hr : r.FirstFrom l.log l.leases.next)
    (expiresAt : Nat) : (l.read r expiresAt).Accounted start where
  mark := .inr ⟨r, hr.mem, Nat.le_refl _⟩
  covered x hx hvalue hstart hlt := by
    by_cases hold : x.position < l.leases.next
    · rcases h.covered x hx hvalue hstart hold with ⟨y, hy, hposition⟩ | hacknowledged
      · exact .inl ⟨y, List.mem_append_left _ hy, hposition⟩
      · exact .inr hacknowledged
    · have hfirst := hr.first x hx (Nat.le_of_not_lt hold)
      have hlast : x.position < r.position + 1 := hlt
      obtain rfl : x = r := hs.record_eq hx hr.mem (by omega)
      obtain ⟨value, hvalue⟩ := Option.isSome_iff_exists.mp hvalue
      refine .inl ⟨⟨x.position, Text.ofBytes value, 1, expiresAt⟩, List.mem_append_right _ ?_, rfl⟩
      rw [Record.lease?, hvalue]
      exact List.mem_cons_self

theorem step (h : l.Accounted start) (hs : l.Sound) (hstep : l.Step l') : l'.Accounted start := by
  have hprecedes := Precedes.of_step hstep
  cases hstep with
  | append hr => exact h.append hr
  | read hr expiresAt => exact h.read hs hr expiresAt
  | renew hheld expiresAt =>
    refine ⟨h.mark, ?_⟩
    intro r hr hvalue hstart hlt
    rw [leased_renew hheld]
    exact h.covered r hr hvalue hstart hlt
  | @acknowledge receipt x hx hparse =>
    refine ⟨h.mark, ?_⟩
    intro r hr hvalue hstart hlt
    rcases h.covered r hr hvalue hstart hlt with ⟨y, hy, hposition⟩ | hold
    · rw [← hposition]
      exact (mem_acknowledge hparse hy).imp_left fun hkept => ⟨y, hkept, rfl⟩
    · exact .inr (hprecedes.acknowledged hold)

end Accounted

/-! ## The committed position -/

private theorem Sound.committed_le_iff (h : l.Sound) {position : Nat} :
    l.leases.committed ≤ position ↔
      (∃ x ∈ l.leases.held, x.position ≤ position) ∨ l.leases.next ≤ position := by
  have hordered := h.held
  have hbelow := h.below
  rw [Leases.committed]
  cases hheld : l.leases.held with
  | nil => simp
  | cons x rest =>
    rw [hheld] at hordered hbelow
    have hx := hbelow x List.mem_cons_self
    simp only [List.head?_cons, Option.map_some, Option.getD_some]
    constructor
    · intro hle
      exact .inl ⟨x, List.mem_cons_self, hle⟩
    · rintro (⟨y, hy, hle⟩ | hle)
      · rcases List.mem_cons.mp hy with rfl | hy
        · exact hle
        · have hlt := (List.pairwise_cons.mp hordered).1 _ (List.mem_map_of_mem hy)
          omega
      · omega

private theorem Precedes.committed_le (h : l.Precedes l') (hs : l.Sound) (hs' : l'.Sound) :
    l.leases.committed ≤ l'.leases.committed := by
  rw [hs.committed_le_iff]
  rcases hs'.committed_le_iff.mp (Nat.le_refl _) with ⟨x, hx, hle⟩ | hle
  · rcases h.held x.position ⟨x, hx, rfl⟩ with ⟨y, hy, hposition⟩ | hnew
    · exact .inl ⟨y, hy, hposition ▸ hle⟩
    · exact .inr (Nat.le_trans hnew hle)
  · exact .inr (Nat.le_trans h.next hle)

end Ledger

namespace Readers

/-- Whatever the readers of a log do, and in whatever order: every delivery is of a record, and each record
is handed out for the first time once at most; leases are on records that were read; each record with a
value from the start up to the next one to be read is leased or acknowledged, and not both; and the committed
position never goes back and never passes a record with a value that is not acknowledged. -/
theorem nothing_skipped_or_leased_twice {visibility start : Nat} {moves : List Move}
    (hlegal : (new visibility start).Legal moves) :
    let s := (new visibility start).afterAll moves
    (∀ d ∈ s.handed, ∃ r ∈ s.log, d ∈ s.deliveriesOf r.position ∧ r.value.map Text.ofBytes = some d.body) ∧
      (∀ position, ((s.deliveriesOf position).countP fun d => d.count = 1) ≤ 1) ∧
      (∀ x ∈ s.leases.held, x.position < s.leases.next) ∧
      (∀ r ∈ s.log, r.value.isSome → start ≤ r.position → r.position < s.leases.next →
        Xor (∃ x ∈ s.leases.held, x.position = r.position ∧ r.value.map Text.ofBytes = some x.body)
          (s.Acknowledged r.position)) ∧
      (∀ more, s.Legal more → s.leases.committed ≤ (s.afterAll more).leases.committed) ∧
      ∀ r ∈ s.log, r.value.isSome → start ≤ r.position → ¬ s.Acknowledged r.position →
        s.leases.committed ≤ r.position := by
  intro s
  obtain ⟨hconsistent, htallied, haccounted⟩ : s.Consistent ∧ s.Tallied ∧ s.Accounted start := by
    apply run_invariant (P := fun l => l.Tallied ∧ l.Accounted start) ?_ ?_ hlegal
    · exact ⟨.new start, .new start⟩
    · rintro l l' hs hstep ⟨ht, ha⟩
      exact ⟨ht.step hs hstep, ha.step hs hstep⟩
  have hsound := hconsistent.sound
  refine ⟨htallied.named, ?_, hsound.below, ?_, ?_, ?_⟩
  · intro position
    have hcounts : ((s.deliveriesOf position).countP fun d => d.count = 1) =
        ((s.deliveriesOf position).map Delivery.count).count 1 := by
      rw [List.count, List.countP_map]
      rfl
    rw [hcounts, htallied.counts]
    exact List.nodup_iff_count_le_one.mp List.nodup_range' 1
  · intro r hr hvalue hstart hlt
    rcases haccounted.covered r hr hvalue hstart hlt with ⟨x, hx, hposition⟩ | hold
    · obtain ⟨r', hr', hsame, hbody⟩ := hsound.recorded x hx
      obtain rfl := hsound.record_eq hr' hr (hsame.trans hposition)
      exact .inl ⟨⟨x, hx, hposition, hbody⟩, fun hold => (hsound.acknowledged _ hold).2 ⟨x, hx, hposition⟩⟩
    · refine .inr ⟨hold, ?_⟩
      rintro ⟨x, hx, hposition, -⟩
      exact (hsound.acknowledged _ hold).2 ⟨x, hx, hposition⟩
  · intro more hmore
    obtain ⟨hsteps, hlast⟩ := hconsistent.afterAll hmore
    exact (Ledger.Precedes.of_steps hsteps).committed_le hsound hlast.sound
  · intro r hr hvalue hstart hnone
    rw [hsound.committed_le_iff]
    by_cases hread : r.position < s.leases.next
    · rcases haccounted.covered r hr hvalue hstart hread with ⟨x, hx, hposition⟩ | hold
      · exact .inl ⟨x, hx, Nat.le_of_eq hposition⟩
      · exact absurd hold hnone
    · exact .inr (Nat.le_of_not_lt hread)

/-- Two readers look at once and fetch the same records, the first to hand out one of them. -/
def overlappingReads : List Move :=
  [.append ⟨0, some [97]⟩, .append ⟨1, none⟩, .append ⟨2, some [98]⟩, .append ⟨4, some [99]⟩,
    .reclaim 0 1 0, .reclaim 1 9 0, .look 0, .look 1,
    .fetch 0 [⟨0, some [97]⟩, ⟨1, none⟩, ⟨2, some [98]⟩],
    .fetch 1 [⟨0, some [97]⟩, ⟨1, none⟩, ⟨2, some [98]⟩, ⟨4, some [99]⟩],
    .merge 0 0, .merge 1 0, .reclaim 0 2 50, .acknowledge "0:2"]

theorem overlappingReads_covered :
    (new 50 0).Legal overlappingReads ∧
      (let s := (new 50 0).afterAll overlappingReads
      s.leases = ⟨5, [⟨2, "b", 2, 100⟩, ⟨4, "c", 1, 50⟩]⟩ ∧
        s.handed.map Delivery.token = ["0:1", "2:1", "4:1", "0:2", "2:2"] ∧
        s.Acknowledged 0 ∧ ¬ s.Acknowledged 2) := by
  have hlegal : (new 50 0).Legal overlappingReads := by decide +kernel
  have hleases : ((new 50 0).afterAll overlappingReads).leases =
      ⟨5, [⟨2, "b", 2, 100⟩, ⟨4, "c", 1, 50⟩]⟩ := by decide +kernel
  refine ⟨hlegal, hleases, by decide +kernel, ⟨"0:2", by decide +kernel, by decide +kernel⟩, ?_⟩
  obtain ⟨-, -, -, hcovered, -⟩ := nothing_skipped_or_leased_twice hlegal
  have hread : 2 < ((new 50 0).afterAll overlappingReads).leases.next := by
    rw [hleases]
    decide
  have hheld : (⟨2, "b", 2, 100⟩ : Lease) ∈ ((new 50 0).afterAll overlappingReads).leases.held := by
    rw [hleases]
    exact List.mem_cons_self
  rcases hcovered ⟨2, some [98]⟩ (by decide +kernel) rfl (Nat.zero_le 2) hread with ⟨-, hnone⟩ | ⟨-, hnone⟩
  · exact hnone
  · exact absurd ⟨_, hheld, rfl, by decide +kernel⟩ hnone

end Readers

end AuditTrail.Log

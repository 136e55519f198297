import AuditTrail.Proofs.Log.Ledger
/-!
# The deliveries of a record

A delivery says in its receipt which record it is of. The deliveries of a record are counted from one, and
while the record is leased its lease is that of the last one.
-/

namespace AuditTrail.Log.Ledger

variable {l l' : Ledger}

/-- The deliveries of the record at a position. -/
def deliveriesOf (l : Ledger) (position : Nat) : List Delivery :=
  l.handed.filter fun d => d.token = Token.text ⟨position, d.count⟩

theorem mem_deliveriesOf {position : Nat} {d : Delivery} :
    d ∈ l.deliveriesOf position ↔ d ∈ l.handed ∧ d.token = Token.text ⟨position, d.count⟩ := by
  simp [deliveriesOf]

theorem position_eq_of_text {p q : Nat} {c c' : Nat} (h : Token.text ⟨p, c⟩ = Token.text ⟨q, c'⟩) :
    p = q ∧ c = c' := by
  have htokens := Token.text_injective h
  rw [Token.mk.injEq] at htokens
  exact ⟨Int.ofNat_inj.mp htokens.1, htokens.2⟩

private theorem deliveriesOf_snoc {x : Lease} (h : l'.handed = l.handed ++ [x.delivery]) (position : Nat) :
    l'.deliveriesOf position =
      l.deliveriesOf position ++ if x.position = position then [x.delivery] else [] := by
  rw [deliveriesOf, h, List.filter_append, deliveriesOf]
  congr 1
  by_cases hposition : x.position = position
  · subst hposition
    simp [Lease.delivery, Lease.token]
  · have hother : ¬ x.token.text = Token.text ⟨position, x.count⟩ :=
      fun htext => hposition (position_eq_of_text htext).1
    simp [Lease.delivery, hposition, hother]

structure Tallied (l : Ledger) : Prop where
  named : ∀ d ∈ l.handed, ∃ r ∈ l.log,
    d ∈ l.deliveriesOf r.position ∧ r.value.map Text.ofBytes = some d.body
  counts : ∀ position, (l.deliveriesOf position).map Delivery.count =
    List.range' 1 (l.deliveriesOf position).length
  distinct : (l.handed.map Delivery.token).Nodup
  latest : ∀ x ∈ l.leases.held, (l.deliveriesOf x.position).getLast? = some x.delivery
  unread : ∀ position, l.leases.next ≤ position → l.deliveriesOf position = []
  settled : ∀ position, l.deliveriesOf position ≠ [] →
    l.Leased position ∨ l.Acknowledged position

namespace Tallied

theorem new (start : Nat) : (Ledger.new start).Tallied := by
  constructor <;> simp [Ledger.new, Leases.startingAt, deliveriesOf]

theorem count_eq (h : l.Tallied) {x : Lease} (hx : x ∈ l.leases.held) :
    x.count = (l.deliveriesOf x.position).length := by
  have hlast := congrArg List.getLast? (h.counts x.position)
  rw [List.getLast?_map, h.latest x hx, List.getLast?_range', Option.map_some] at hlast
  split at hlast
  · cases hlast
  · have hcount : x.count = 1 + (l.deliveriesOf x.position).length - 1 := Option.some.inj hlast
    omega

private theorem of_handed (h : l.Tallied) (hprecedes : l.Precedes l') (hhanded : l'.handed = l.handed)
    (hheld : ∀ x ∈ l'.leases.held, x ∈ l.leases.held)
    (hended : ∀ x ∈ l.leases.held, x ∈ l'.leases.held ∨ l'.Acknowledged x.position) : l'.Tallied := by
  have hsame : l'.deliveriesOf = l.deliveriesOf := by
    funext position
    rw [deliveriesOf, hhanded, deliveriesOf]
  refine ⟨?_, ?_, ?_, ?_, ?_, ?_⟩
  · rw [hhanded, hsame]
    intro d hd
    obtain ⟨r, hr, hof⟩ := h.named d hd
    exact ⟨r, hprecedes.log r hr, hof⟩
  · rw [hsame]
    exact h.counts
  · rw [hhanded]
    exact h.distinct
  · rw [hsame]
    exact fun x hx => h.latest x (hheld x hx)
  · rw [hsame]
    exact fun position hle => h.unread position (Nat.le_trans hprecedes.next hle)
  · rw [hsame]
    intro position hne
    rcases h.settled position hne with ⟨x, hx, rfl⟩ | hold
    · rcases hended x hx with hkept | hnew
      · exact .inl ⟨x, hkept, rfl⟩
      · exact .inr hnew
    · exact .inr (hprecedes.acknowledged hold)

private theorem of_lease (h : l.Tallied) (hprecedes : l.Precedes l') (hs : l'.Sound) {x : Lease}
    (hhanded : l'.handed = l.handed ++ [x.delivery])
    (hcount : x.count = (l.deliveriesOf x.position).length + 1)
    (hheld : ∀ y, y ∈ l'.leases.held ↔ y = x ∨ (y ∈ l.leases.held ∧ y.position ≠ x.position)) :
    l'.Tallied := by
  have hx : x ∈ l'.leases.held := (hheld x).mpr (.inl rfl)
  have hother (position : Nat) (hne : x.position ≠ position) :
      l'.deliveriesOf position = l.deliveriesOf position := by
    rw [deliveriesOf_snoc hhanded, if_neg hne, List.append_nil]
  have hnext : l'.deliveriesOf x.position = l.deliveriesOf x.position ++ [x.delivery] := by
    rw [deliveriesOf_snoc hhanded, if_pos rfl]
  have hnew : x.delivery.token ∉ l.handed.map Delivery.token := by
    intro hmem
    obtain ⟨d, hd, htoken⟩ := List.mem_map.mp hmem
    obtain ⟨r, -, hof, -⟩ := h.named d hd
    obtain ⟨hposition, hsame⟩ := position_eq_of_text ((mem_deliveriesOf.mp hof).2.symm.trans htoken)
    rw [hposition] at hof
    have hcounts := List.mem_map_of_mem (f := Delivery.count) hof
    rw [h.counts, hsame, hcount, List.mem_range'_1] at hcounts
    omega
  refine ⟨?_, ?_, ?_, ?_, ?_, ?_⟩
  · intro d hd
    rw [hhanded] at hd
    rcases List.mem_append.mp hd with hold | hlast
    · obtain ⟨r, hr, hof, hbody⟩ := h.named d hold
      refine ⟨r, hprecedes.log r hr, ?_, hbody⟩
      rw [deliveriesOf_snoc hhanded]
      exact List.mem_append_left _ hof
    · obtain ⟨r, hr, hposition, hbody⟩ := hs.recorded x hx
      rw [List.mem_singleton.mp hlast]
      refine ⟨r, hr, ?_, hbody⟩
      rw [hposition, hnext]
      exact List.mem_append_right _ List.mem_cons_self
  · intro position
    by_cases hposition : x.position = position
    · subst hposition
      rw [hnext, List.map_append, h.counts, List.length_append, List.length_singleton,
        List.range'_1_concat, Nat.add_comm 1, ← hcount]
      rfl
    · rw [hother position hposition]
      exact h.counts position
  · rw [hhanded, List.map_append, List.nodup_append]
    refine ⟨h.distinct, List.nodup_singleton _, ?_⟩
    rintro token hold token' hlast rfl
    exact hnew (List.mem_singleton.mp hlast ▸ hold)
  · intro y hy
    rcases (hheld y).mp hy with rfl | ⟨hold, hne⟩
    · rw [hnext, List.getLast?_concat]
    · rw [hother _ (Ne.symm hne)]
      exact h.latest y hold
  · intro position hle
    have hbelow := hs.below x hx
    rw [hother _ (by omega)]
    exact h.unread position (Nat.le_trans hprecedes.next hle)
  · intro position hne
    by_cases hposition : x.position = position
    · exact .inl ⟨x, hx, hposition⟩
    · rw [hother position hposition] at hne
      rcases h.settled position hne with ⟨y, hy, rfl⟩ | hold
      · exact .inl ⟨y, (hheld y).mpr (.inr ⟨hy, Ne.symm hposition⟩), rfl⟩
      · exact .inr (hprecedes.acknowledged hold)

private theorem read (h : l.Tallied) (hs : l.Sound) {r : Record} (hr : r.FirstFrom l.log l.leases.next)
    (expiresAt : Nat) : (l.read r expiresAt).Tallied := by
  have hprecedes := Precedes.of_step (.read hr expiresAt)
  have hs' := hs.step (.read hr expiresAt)
  cases hlease : r.lease? expiresAt with
  | none =>
    refine h.of_handed hprecedes ?_ ?_ ?_
    · simp [Ledger.read, give, hlease]
    · simp [Ledger.read, give, hlease]
    · intro x hx
      exact .inl (List.mem_append_left _ hx)
  | some x =>
    obtain ⟨hposition, hcount⟩ := Record.position_of_lease? hlease
    refine h.of_lease (x := x) hprecedes hs' ?_ ?_ ?_
    · simp [Ledger.read, give, hlease]
    · rw [hcount, h.unread x.position (hposition ▸ hr.le), List.length_nil]
    · intro y
      have hold (hy : y ∈ l.leases.held) : y.position ≠ x.position := by
        have hlt := Nat.lt_of_lt_of_le (hs.below y hy) hr.le
        omega
      simp only [Ledger.read, give, hlease, Option.toList_some, List.mem_append, List.mem_singleton]
      grind

theorem step (h : l.Tallied) (hs : l.Sound) (hstep : l.Step l') : l'.Tallied := by
  have hprecedes := Precedes.of_step hstep
  have hs' := hs.step hstep
  cases hstep with
  | append hr => exact h.of_handed hprecedes rfl (fun _ hx => hx) (fun _ hx => .inl hx)
  | read hr expiresAt => exact h.read hs hr expiresAt
  | @renew before after x hheld expiresAt =>
    have hx : x ∈ l.leases.held := by
      rw [hheld]
      exact List.mem_append_right _ List.mem_cons_self
    refine h.of_lease (x := x.renew expiresAt) hprecedes hs' rfl ?_ ?_
    · change x.count + 1 = _
      rw [h.count_eq hx]
      rfl
    · intro y
      change y ∈ before ++ x.renew expiresAt :: after ↔
        y = x.renew expiresAt ∨ (y ∈ l.leases.held ∧ y.position ≠ x.position)
      rw [← hs.mem_others hheld y, List.mem_append, List.mem_cons]
      grind
  | @acknowledge receipt x hx hparse =>
    exact h.of_handed hprecedes rfl (fun y hy => (List.mem_filter.mp hy).1) fun y hy =>
      mem_acknowledge hparse hy

end Tallied

end AuditTrail.Log.Ledger

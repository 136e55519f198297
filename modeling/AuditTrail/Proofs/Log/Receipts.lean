import AuditTrail.Proofs.Log.Deliveries
import AuditTrail.Proofs.Log.Receive
/-!
# A receipt acknowledges its own delivery

`Readers.receipt_acknowledges_own_delivery`: every delivery has a receipt of its own, with which it can be
acknowledged as long as it is the last one of its record and that is not acknowledged yet.
-/

namespace AuditTrail.Log

namespace Ledger

variable {l : Ledger}

private theorem Sound.filter_token_ne (h : l.Sound) {x : Lease} (hx : x ∈ l.leases.held) :
    (l.leases.held.filter fun y => y.token ≠ x.token) = l.leases.held.erase x := by
  have hnodup : l.leases.held.Nodup := .of_map Lease.position (h.held.imp Nat.ne_of_lt)
  rw [hnodup.erase_eq_filter]
  apply List.filter_congr
  intro y hy
  by_cases heq : y = x
  · simp [heq]
  · have htoken : y.token ≠ x.token := by
      intro htoken
      rw [Lease.token, Lease.token, Token.mk.injEq] at htoken
      exact heq (h.lease_eq hy hx (Int.ofNat_inj.mp htoken.1))
    simp [heq, htoken]

private theorem Tallied.leased_iff (h : l.Tallied) (hs : l.Sound) {position count : Nat} :
    (∃ x ∈ l.leases.held, x.token = ⟨position, count⟩) ↔
      ∃ d, (l.deliveriesOf position).getLast? = some d ∧ d.count = count ∧ ¬ l.Acknowledged position := by
  constructor
  · rintro ⟨x, hx, htoken⟩
    rw [Lease.token, Token.mk.injEq] at htoken
    obtain ⟨hposition, rfl⟩ := htoken
    obtain rfl : x.position = position := Int.ofNat_inj.mp hposition
    exact ⟨x.delivery, h.latest x hx, rfl, fun hold => (hs.acknowledged _ hold).2 ⟨x, hx, rfl⟩⟩
  · rintro ⟨d, hlast, rfl, hnone⟩
    have hne : l.deliveriesOf position ≠ [] := by
      intro hnil
      rw [hnil] at hlast
      cases hlast
    rcases h.settled position hne with ⟨x, hx, rfl⟩ | hold
    · rw [h.latest x hx] at hlast
      exact ⟨x, hx, by rw [← Option.some.inj hlast]; rfl⟩
    · exact absurd hold hnone

private theorem acknowledge_of_ended {position : Nat} (h : l.Ended position) {receipt : String} {count : Nat}
    (hparse : Token.parse? receipt = some ⟨position, count⟩) :
    ∃ e, l.leases.acknowledge receipt = .error e := by
  cases hanswer : l.leases.acknowledge receipt with
  | error e => exact ⟨e, rfl⟩
  | ok leases =>
    obtain ⟨x, hx, htoken, -⟩ := Leases.acknowledge_eq_ok.mp hanswer
    rw [hparse, Option.some.injEq, Lease.token, Token.mk.injEq] at htoken
    exact absurd ⟨x, hx, (Int.ofNat_inj.mp htoken.1).symm⟩ h.2

section Bounds

variable (hpositions : ∀ r ∈ l.log, (r.position : Int) ≤ maxInt 64)
  (hcounts : ∀ position, (l.deliveriesOf position).length < wordBound 32)
include hpositions hcounts

private theorem Tallied.parse?_token (h : l.Tallied) {position : Nat} {d : Delivery}
    (hd : d ∈ l.deliveriesOf position) : Token.parse? d.token = some ⟨position, d.count⟩ := by
  obtain ⟨hmem, htext⟩ := mem_deliveriesOf.mp hd
  obtain ⟨r, hr, hof, -⟩ := h.named d hmem
  have hposition := (position_eq_of_text ((mem_deliveriesOf.mp hof).2.symm.trans htext)).1
  have hcount := List.mem_map_of_mem (f := Delivery.count) hd
  rw [h.counts, List.mem_range'_1] at hcount
  rw [htext]
  apply Token.parse?_text
  · have hmin : minInt 64 ≤ 0 := by decide
    exact Int.le_trans hmin (Int.natCast_nonneg position)
  · exact hposition ▸ hpositions r hr
  · have hbound := hcounts position
    change d.count < wordBound 32
    omega

end Bounds

end Ledger

namespace Readers

/-- Receipts are read back as what they were made from, and every delivery has its own. A receipt is
accepted just when it is read as the position and count of a lease, that is if it is read like the one for
the last delivery of a record that is not acknowledged. Then this lease goes and no other, and no receipt for
the record is ever accepted again. A receipt that is not accepted changes nothing. -/
theorem receipt_acknowledges_own_delivery {visibility start : Nat} {moves : List Move}
    (hlegal : (new visibility start).Legal moves)
    (hpositions : ∀ r ∈ ((new visibility start).afterAll moves).log, (r.position : Int) ≤ maxInt 64)
    (hcounts : ∀ position,
      (((new visibility start).afterAll moves).deliveriesOf position).length < wordBound 32) :
    let s := (new visibility start).afterAll moves
    (∀ t : Token, minInt 64 ≤ t.position → t.position ≤ maxInt 64 → t.count < wordBound 32 →
        Token.parse? t.text = some t) ∧
      (∀ position, ∀ d ∈ s.deliveriesOf position, Token.parse? d.token = some ⟨position, d.count⟩) ∧
      (s.handed.map Delivery.token).Nodup ∧
      (∀ receipt, (∃ leases, s.leases.acknowledge receipt = .ok leases) ↔
        ∃ t, Token.parse? receipt = some t ∧
          ∃ x ∈ s.leases.held, (x.position : Int) = t.position ∧ x.count = t.count) ∧
      (∀ receipt, (∃ leases, s.leases.acknowledge receipt = .ok leases) ↔
        ∃ position d, (s.deliveriesOf position).getLast? = some d ∧ ¬ s.Acknowledged position ∧
          Token.parse? receipt = Token.parse? d.token) ∧
      (∀ receipt leases, s.leases.acknowledge receipt = .ok leases →
        (s.after (.acknowledge receipt)).leases = leases ∧
          ∃ x ∈ s.leases.held, Token.parse? receipt = some x.token ∧
            leases = { s.leases with held := s.leases.held.erase x } ∧
            ∀ more, (s.after (.acknowledge receipt)).Legal more →
              ∀ receipt' count, Token.parse? receipt' = some ⟨x.position, count⟩ →
                ∃ e, ((s.after (.acknowledge receipt)).afterAll more).leases.acknowledge receipt' =
                  .error e) ∧
      ∀ receipt e, s.leases.acknowledge receipt = .error e →
        s.after (.acknowledge receipt) = s ∧
          ∀ q : LogQueue, q.leases = some s.leases →
            ran (acknowledge receipt : Action Id Unit) q = (.error e, q) := by
  intro s
  obtain ⟨hconsistent, htallied⟩ : s.Consistent ∧ s.Tallied :=
    run_invariant (.new start) (fun l l' hs hstep ht => ht.step hs hstep) hlegal
  have hsound := hconsistent.sound
  have hparse (position : Nat) (d : Delivery) (hd : d ∈ s.deliveriesOf position) :
      Token.parse? d.token = some ⟨position, d.count⟩ := htallied.parse?_token hpositions hcounts hd
  refine ⟨fun t => Token.parse?_text, hparse, htallied.distinct, ?_, ?_, ?_, ?_⟩
  · intro receipt
    simp only [Leases.acknowledge_eq_ok]
    constructor
    · rintro ⟨_, x, hx, hread, -⟩
      exact ⟨x.token, hread, x, hx, rfl, rfl⟩
    · rintro ⟨⟨_, _⟩, hread, x, hx, rfl, rfl⟩
      exact ⟨_, x, hx, hread, rfl⟩
  · intro receipt
    simp only [Leases.acknowledge_eq_ok]
    constructor
    · rintro ⟨_, x, hx, hread, -⟩
      obtain ⟨d, hlast, hcount, hnone⟩ := (htallied.leased_iff hsound).mp ⟨x, hx, rfl⟩
      refine ⟨x.position, d, hlast, hnone, ?_⟩
      rw [hread, hparse _ d (List.mem_of_getLast? hlast), hcount]
      rfl
    · rintro ⟨position, d, hlast, hnone, hsame⟩
      obtain ⟨x, hx, htoken⟩ := (htallied.leased_iff hsound).mpr ⟨d, hlast, rfl, hnone⟩
      rw [hparse position d (List.mem_of_getLast? hlast), ← htoken] at hsame
      exact ⟨_, x, hx, hsame, rfl⟩
  · intro receipt leases hok
    obtain ⟨x, hx, hread, rfl⟩ := Leases.acknowledge_eq_ok.mp hok
    obtain ⟨-, hnext⟩ := hconsistent.after (v := .acknowledge receipt) trivial
    have hafter : (s.after (.acknowledge receipt)).toLedger = s.toLedger.acknowledge receipt x.token := by
      simp [after, afterAcknowledge, hok, Ledger.acknowledge]
    have hended : (s.after (.acknowledge receipt)).Ended x.position := by
      rw [hafter]
      exact hsound.ended_of_acknowledge hx receipt
    refine ⟨congrArg Ledger.leases hafter, x, hx, hread, ?_, ?_⟩
    · rw [hsound.filter_token_ne hx]
    · intro more hmore receipt' count hread'
      obtain ⟨hsteps, -⟩ := hnext.afterAll hmore
      exact Ledger.acknowledge_of_ended ((Ledger.Precedes.of_steps hsteps).ended hended) hread'
  · intro receipt e herror
    have hsame : s.after (.acknowledge receipt) = s := by
      simp [after, afterAcknowledge, herror]
    refine ⟨hsame, ?_⟩
    intro q hq
    have hran := ran_acknowledge (m := Id) hq receipt
    rw [herror, hsame, ← hq] at hran
    exact hran

/-- A record is handed out, and once more when its lease has expired. -/
def handedOutTwice : List Move :=
  [.append ⟨7, some [97]⟩, .reclaim 0 1 0, .look 0, .fetch 0 [⟨7, some [97]⟩], .merge 0 0, .reclaim 1 1 50]

theorem handedOutTwice_acknowledged :
    (new 50 0).Legal handedOutTwice ∧
      (let s := (new 50 0).afterAll handedOutTwice
      s.handed.map Delivery.token = ["7:1", "7:2"] ∧
        (¬ ∃ leases, s.leases.acknowledge "7:1" = .ok leases) ∧
        ∃ leases, s.leases.acknowledge "+7:02" = .ok leases) := by
  have hlegal : (new 50 0).Legal handedOutTwice := by decide +kernel
  have htokens : ((new 50 0).afterAll handedOutTwice).handed.map Delivery.token = ["7:1", "7:2"] := by
    decide +kernel
  have hpositions : ∀ r ∈ ((new 50 0).afterAll handedOutTwice).log, (r.position : Int) ≤ maxInt 64 := by
    decide +kernel
  have hcounts (position : Nat) :
      (((new 50 0).afterAll handedOutTwice).deliveriesOf position).length < wordBound 32 := by
    have htwo := congrArg List.length htokens
    rw [List.length_map] at htwo
    have hle := List.length_filter_le (fun d : Delivery => d.token = Token.text ⟨position, d.count⟩)
      ((new 50 0).afterAll handedOutTwice).handed
    rw [htwo] at hle
    exact Nat.lt_of_le_of_lt hle (by decide)
  obtain ⟨-, -, -, haccepted, -⟩ := receipt_acknowledges_own_delivery hlegal hpositions hcounts
  refine ⟨hlegal, htokens, ?_, ?_⟩
  · rw [haccepted]
    rintro ⟨t, hread, x, hx, -, hcount⟩
    have hfirst : Token.parse? "7:1" = some ⟨7, 1⟩ := by decide +kernel
    have hheld : ((new 50 0).afterAll handedOutTwice).leases.held = [⟨7, "a", 2, 100⟩] := by decide +kernel
    rw [hfirst] at hread
    rw [hheld] at hx
    cases hread
    cases List.mem_singleton.mp hx
    cases hcount
  · rw [haccepted]
    exact ⟨⟨7, 2⟩, by decide +kernel, by decide +kernel⟩

end Readers

end AuditTrail.Log

import AuditTrail.Log.Basic
import AuditTrail.Proofs.Number.Integers
import Mathlib.Data.List.Nodup
import Mathlib.Data.List.TakeDrop
import Mathlib.Logic.Relation
/-!
# The account of a log

A log grows while its readers take from it, and all they do to the account that they share is done one
record at a time: the next record is read, or a lease is renewed or ended. What holds whoever takes these
steps, and in whatever order, holds for any number of readers.
-/

/-! ## Texts of receipts -/

namespace AuditTrail.Log.Token

private theorem span_text (t : Token) :
    t.text.toList.span (· ≠ ':') = ((toString t.position).toList, ':' :: (toString t.count).toList) := by
  have hposition : ∀ c ∈ (toString t.position).toList, decide (c ≠ ':') = true := by
    intro c hc
    rw [decide_eq_true_iff]
    rintro rfl
    rcases isDigit_of_mem_decimal hc with hdigit | hminus
    · exact absurd hdigit (by decide)
    · exact absurd hminus (by decide)
  have htext : t.text.toList = (toString t.position).toList ++ ':' :: (toString t.count).toList := by
    simp only [text, String.toList_append, List.append_assoc]
    rfl
  rw [htext, List.span_eq_takeWhile_dropWhile, List.takeWhile_append_of_pos hposition,
    List.dropWhile_append_of_pos hposition]
  simp

theorem parse?_text {t : Token} (hlo : minInt 64 ≤ t.position) (hhi : t.position ≤ maxInt 64)
    (hcount : t.count < wordBound 32) : parse? t.text = some t := by
  simp only [parse?, span_text, String.ofList_toList, parseInteger_decimal hlo hhi,
    parseNatural_decimal hcount, Option.bind_eq_bind, Option.bind_some]

theorem text_injective : Function.Injective text := by
  intro t u h
  have hspans := span_text u
  rw [← h, span_text t, Prod.mk.injEq, List.cons.injEq] at hspans
  obtain ⟨hposition, -, hcount⟩ := hspans
  cases t
  cases u
  rw [Token.mk.injEq]
  exact ⟨integer_decimal_injective (String.toList_injective hposition),
    decimal_injective (String.toList_injective hcount)⟩

end AuditTrail.Log.Token

namespace AuditTrail.Log

namespace Record

/-- The lease with which a record is handed out first. Records without a value are never handed out. -/
def lease? (r : Record) (expiresAt : Nat) : Option Lease :=
  r.value.map fun value => ⟨r.position, Text.ofBytes value, 1, expiresAt⟩

/-- A record is the first of a log from a position on. -/
structure FirstFrom (r : Record) (log : List Record) (position : Nat) : Prop where
  mem : r ∈ log
  le : position ≤ r.position
  first : ∀ x ∈ log, position ≤ x.position → r.position ≤ x.position

theorem position_of_lease? {r : Record} {expiresAt : Nat} {x : Lease} (h : r.lease? expiresAt = some x) :
    x.position = r.position ∧ x.count = 1 := by
  obtain ⟨value, -, rfl⟩ := Option.map_eq_some_iff.mp h
  exact ⟨rfl, rfl⟩

end Record

structure Ledger where
  log : List Record
  leases : Leases
  /-- What was handed out, in order. -/
  handed : List Delivery
  /-- The receipts with which deliveries were acknowledged. -/
  receipts : List String

namespace Ledger

def new (start : Nat) : Ledger := ⟨[], .startingAt start, [], []⟩

def append (l : Ledger) (r : Record) : Ledger := { l with log := l.log ++ [r] }

/-- Something is handed out, and the leases are others. -/
def give (l : Ledger) (out : List Delivery × Leases) : Ledger :=
  { l with leases := out.2, handed := l.handed ++ out.1 }

def read (l : Ledger) (r : Record) (expiresAt : Nat) : Ledger :=
  l.give ((r.lease? expiresAt).toList.map Lease.delivery,
    ⟨r.position + 1, l.leases.held ++ (r.lease? expiresAt).toList⟩)

/-- A lease is renewed that stands between others. -/
def renew (l : Ledger) (before : List Lease) (x : Lease) (after : List Lease) (expiresAt : Nat) : Ledger :=
  l.give ([(x.renew expiresAt).delivery],
    { l.leases with held := before ++ x.renew expiresAt :: after })

def acknowledge (l : Ledger) (receipt : String) (t : Token) : Ledger :=
  { l with
    leases := { l.leases with held := l.leases.held.filter fun x => x.token ≠ t }
    receipts := l.receipts ++ [receipt] }

/-- What can happen to a log and its account. -/
inductive Step (l : Ledger) : Ledger → Prop
  | append {r : Record} (h : ∀ x ∈ l.log, x.position < r.position) : Step l (l.append r)
  | read {r : Record} (h : r.FirstFrom l.log l.leases.next) (expiresAt : Nat) : Step l (l.read r expiresAt)
  | renew {before after : List Lease} {x : Lease} (h : l.leases.held = before ++ x :: after)
    (expiresAt : Nat) : Step l (l.renew before x after expiresAt)
  | acknowledge {receipt : String} {x : Lease} (hx : x ∈ l.leases.held)
    (h : Token.parse? receipt = some x.token) : Step l (l.acknowledge receipt x.token)

abbrev Steps : Ledger → Ledger → Prop := Relation.ReflTransGen Step

def Leased (l : Ledger) (position : Nat) : Prop := ∃ x ∈ l.leases.held, x.position = position

/-- Whether a delivery of a record was acknowledged. -/
def Acknowledged (l : Ledger) (position : Nat) : Prop :=
  ∃ receipt ∈ l.receipts, (Token.parse? receipt).map Token.position = some (position : Int)

/-- Whether a record was read and is not leased any more. -/
def Ended (l : Ledger) (position : Nat) : Prop :=
  position < l.leases.next ∧ ¬ l.Leased position

end Ledger

theorem Leases.acknowledge_eq_ok {l l' : Leases} {receipt : String} :
    l.acknowledge receipt = .ok l' ↔
      ∃ x ∈ l.held, Token.parse? receipt = some x.token ∧
        l' = { l with held := l.held.filter fun y => y.token ≠ x.token } := by
  rw [acknowledge]
  cases hparse : Token.parse? receipt with
  | none => simp
  | some t =>
    dsimp only
    by_cases hheld : ∃ x ∈ l.held, x.token = t
    · obtain ⟨x, hx, rfl⟩ := hheld
      rw [if_pos (List.any_eq_true.mpr ⟨x, hx, decide_eq_true rfl⟩)]
      constructor
      · rintro ⟨⟩
        exact ⟨x, hx, rfl, rfl⟩
      · rintro ⟨y, -, htoken, rfl⟩
        rw [Option.some.inj htoken]
    · have hnone : (l.held.any fun lease => decide (lease.token = t)) = false := by
        simpa using hheld
      rw [hnone]
      constructor
      · rintro ⟨⟩
      · rintro ⟨x, hx, htoken, -⟩
        exact absurd ⟨x, hx, (Option.some.inj htoken).symm⟩ hheld

/-! ## Records without gaps -/

/-- Records of a log in order, of which none is left out between a position and the last of them. -/
structure Gapless (log : List Record) (position : Nat) (records : List Record) : Prop where
  ordered : (records.map Record.position).Pairwise (· < ·)
  mem : ∀ r ∈ records, r ∈ log
  all : ∀ x ∈ log, ∀ r ∈ records, position ≤ x.position → x.position ≤ r.position → x ∈ records

namespace Gapless

variable {log rest : List Record} {r : Record} {position later : Nat}

theorem tail (h : Gapless log position (r :: rest)) (hlater : position ≤ later)
    (hr : r.position < later) : Gapless log later rest where
  ordered := (List.pairwise_cons.mp h.ordered).2
  mem y hy := h.mem y (List.mem_cons_of_mem r hy)
  all x hx y hy hle hxy := by
    have hmem := h.all x hx y (List.mem_cons_of_mem r hy) (Nat.le_trans hlater hle) hxy
    rcases List.mem_cons.mp hmem with rfl | hrest
    · omega
    · exact hrest

private theorem firstFrom (h : Gapless log position (r :: rest)) (hr : position ≤ r.position) :
    r.FirstFrom log position where
  mem := h.mem r List.mem_cons_self
  le := hr
  first x hx hle := by
    by_contra hlt
    rcases List.mem_cons.mp (h.all x hx r List.mem_cons_self hle (by omega)) with rfl | hrest
    · exact hlt (Nat.le_refl _)
    · have hbehind := (List.pairwise_cons.mp h.ordered).1 _ (List.mem_map_of_mem hrest)
      omega

theorem of_le {records : List Record} (h : Gapless log position records) (hle : position ≤ later) :
    Gapless log later records where
  ordered := h.ordered
  mem := h.mem
  all x hx y hy hx' := h.all x hx y hy (Nat.le_trans hle hx')

theorem append {records : List Record} (h : Gapless log position records)
    (hr : ∀ x ∈ log, x.position < r.position) : Gapless (log ++ [r]) position records where
  ordered := h.ordered
  mem y hy := List.mem_append_left _ (h.mem y hy)
  all x hx y hy hle hxy := by
    rcases List.mem_append.mp hx with hold | hnew
    · exact h.all x hold y hy hle hxy
    · rw [List.mem_singleton.mp hnew] at hxy
      have hlt := hr y (h.mem y hy)
      omega

end Gapless

namespace Ledger

variable {l l' : Ledger} {held : List Lease}

/-! ## Reclaiming and merging take such steps -/

private theorem give_same (h : l.leases.held = held) : l.give ([], { l.leases with held }) = l := by
  rw [← h]
  simp [give]

private theorem steps_renewExpired (now visibility max : Nat) (before rest : List Lease)
    (h : l.leases.held = before ++ rest) :
    l.Steps (l.give ((Leases.renewExpired now visibility max rest).1,
      { l.leases with held := before ++ (Leases.renewExpired now visibility max rest).2 })) := by
  induction rest generalizing l before max with
  | nil =>
    rw [Leases.renewExpired, give_same h]
  | cons x rest ih =>
    cases max with
    | zero =>
      rw [Leases.renewExpired, give_same h]
      exact List.cons_ne_nil x rest
    | succ max =>
      by_cases hexpired : x.expiresAt ≤ now
      · have hfirst : l.Step (l.renew before x rest (now + visibility)) := .renew h _
        have hheld : (l.renew before x rest (now + visibility)).leases.held =
            (before ++ [x.renew (now + visibility)]) ++ rest := by
          simp [renew, give]
        refine .head hfirst ?_
        simpa [renew, give, Leases.renewExpired, hexpired] using ih max _ hheld
      · have hheld : l.leases.held = (before ++ [x]) ++ rest := by
          rw [h, List.append_assoc, List.singleton_append]
        simpa [Leases.renewExpired, hexpired] using ih (max + 1) _ hheld

theorem steps_reclaim (l : Ledger) (now visibility max : Nat) :
    l.Steps (l.give (l.leases.reclaim now visibility max)) :=
  steps_renewExpired now visibility max [] l.leases.held rfl

theorem steps_merge {records : List Record} (h : Gapless l.log l.leases.next records)
    (now visibility max : Nat) :
    l.Steps (l.give (l.leases.merge now visibility max records)) := by
  -- What is left of the records has no gaps either, from the next position on that comes of each step.
  induction records generalizing l max with
  | nil =>
    rw [Leases.merge, give_same rfl]
  | cons r rest ih =>
    cases max with
    | zero =>
      rw [Leases.merge, give_same rfl]
      exact List.cons_ne_nil r rest
    | succ max =>
      by_cases htaken : r.position < l.leases.next
      · have hrest := ih (h.tail (Nat.le_refl _) htaken) (max + 1)
        simpa [Leases.merge, htaken] using hrest
      · have hle : l.leases.next ≤ r.position := Nat.le_of_not_lt htaken
        have hfirst := Step.read (h.firstFrom hle) (now + visibility)
        have hgapless : Gapless l.log (r.position + 1) rest := h.tail (by omega) (Nat.lt_succ_self _)
        refine .head hfirst ?_
        cases hvalue : r.value with
        | none =>
          have hrest := @ih (l.read r (now + visibility)) hgapless (max + 1)
          simpa [read, give, Record.lease?, hvalue, Leases.merge, htaken] using hrest
        | some value =>
          have hrest := @ih (l.read r (now + visibility)) hgapless max
          simpa [read, give, Record.lease?, hvalue, Leases.merge, htaken] using hrest

/-! ## What is leased after a step -/

private theorem mem_read {r : Record} {expiresAt : Nat} {x : Lease}
    (hx : x ∈ (l.read r expiresAt).leases.held) :
    x ∈ l.leases.held ∨ r.lease? expiresAt = some x :=
  (List.mem_append.mp hx).imp_right Option.mem_toList.mp

theorem leased_renew {before after : List Lease} {x : Lease} (h : l.leases.held = before ++ x :: after)
    (expiresAt position : Nat) : (l.renew before x after expiresAt).Leased position ↔ l.Leased position := by
  have hpositions : (l.renew before x after expiresAt).leases.held.map Lease.position =
      l.leases.held.map Lease.position := by
    simp [renew, give, Lease.renew, h]
  rw [Leased, ← List.mem_map, hpositions, List.mem_map, Leased]

theorem mem_acknowledge {receipt : String} {x y : Lease} (h : Token.parse? receipt = some x.token)
    (hy : y ∈ l.leases.held) :
    y ∈ (l.acknowledge receipt x.token).leases.held ∨
      (l.acknowledge receipt x.token).Acknowledged y.position := by
  by_cases htoken : y.token = x.token
  · refine .inr ⟨receipt, List.mem_append_right _ List.mem_cons_self, ?_⟩
    rw [h, ← htoken]
    rfl
  · exact .inl (List.mem_filter.mpr ⟨hy, by simpa using htoken⟩)

/-! ## Before and after -/

/-- One account is later than another: nothing that was read or acknowledged is read again. -/
structure Precedes (l l' : Ledger) : Prop where
  log : ∀ r ∈ l.log, r ∈ l'.log
  next : l.leases.next ≤ l'.leases.next
  held : ∀ position, l'.Leased position → l.Leased position ∨ l.leases.next ≤ position
  receipts : ∀ receipt ∈ l.receipts, receipt ∈ l'.receipts

namespace Precedes

theorem refl (l : Ledger) : l.Precedes l where
  log _ hr := hr
  next := Nat.le_refl _
  held _ hleased := .inl hleased
  receipts _ hreceipt := hreceipt

theorem trans {l l' l'' : Ledger} (h : l.Precedes l') (h' : l'.Precedes l'') : l.Precedes l'' where
  log r hr := h'.log r (h.log r hr)
  next := Nat.le_trans h.next h'.next
  held position hleased := by
    rcases h'.held position hleased with hold | hnew
    · exact h.held position hold
    · exact .inr (Nat.le_trans h.next hnew)
  receipts receipt hreceipt := h'.receipts receipt (h.receipts receipt hreceipt)

theorem of_step (h : l.Step l') : l.Precedes l' := by
  cases h with
  | append hr =>
    exact ⟨fun r hr => List.mem_append_left _ hr, Nat.le_refl _, fun _ hleased => .inl hleased,
      fun _ hreceipt => hreceipt⟩
  | @read r hr expiresAt =>
    refine ⟨fun _ hr => hr, Nat.le_succ_of_le hr.le, ?_, fun _ hreceipt => hreceipt⟩
    rintro position ⟨x, hx, rfl⟩
    rcases mem_read hx with hold | hnew
    · exact .inl ⟨x, hold, rfl⟩
    · rw [(Record.position_of_lease? hnew).1]
      exact .inr hr.le
  | renew hheld expiresAt =>
    refine ⟨fun _ hr => hr, Nat.le_refl _, ?_, fun _ hreceipt => hreceipt⟩
    intro position hleased
    exact .inl ((leased_renew hheld expiresAt position).mp hleased)
  | acknowledge hx hparse =>
    refine ⟨fun _ hr => hr, Nat.le_refl _, ?_, fun _ hreceipt => List.mem_append_left _ hreceipt⟩
    rintro position ⟨y, hy, rfl⟩
    exact .inl ⟨y, (List.mem_filter.mp hy).1, rfl⟩

theorem of_steps (h : l.Steps l') : l.Precedes l' := by
  induction h with
  | refl => exact refl l
  | tail _ hlast ih => exact ih.trans (of_step hlast)

theorem acknowledged {position : Nat} (h : l.Precedes l') (hold : l.Acknowledged position) :
    l'.Acknowledged position := by
  obtain ⟨receipt, hreceipt, hparse⟩ := hold
  exact ⟨receipt, h.receipts receipt hreceipt, hparse⟩

/-- A record that was read and is not leased any more is never leased again. -/
theorem ended {position : Nat} (h : l.Precedes l') (hended : l.Ended position) : l'.Ended position := by
  refine ⟨Nat.lt_of_lt_of_le hended.1 h.next, ?_⟩
  intro hleased
  rcases h.held position hleased with hold | hnew
  · exact hended.2 hold
  · exact Nat.not_le_of_gt hended.1 hnew

end Precedes

/-! ## What every step keeps -/

structure Sound (l : Ledger) : Prop where
  log : (l.log.map Record.position).Pairwise (· < ·)
  held : (l.leases.held.map Lease.position).Pairwise (· < ·)
  below : ∀ x ∈ l.leases.held, x.position < l.leases.next
  recorded : ∀ x ∈ l.leases.held, ∃ r ∈ l.log,
    r.position = x.position ∧ r.value.map Text.ofBytes = some x.body
  acknowledged : ∀ position, l.Acknowledged position → l.Ended position

namespace Sound

theorem new (start : Nat) : (Ledger.new start).Sound := by
  constructor <;> simp [Ledger.new, Leases.startingAt, Acknowledged]

theorem lease_eq (h : l.Sound) {x y : Lease} (hx : x ∈ l.leases.held) (hy : y ∈ l.leases.held)
    (hposition : x.position = y.position) : x = y := by
  have hnodup : (l.leases.held.map Lease.position).Nodup := h.held.imp Nat.ne_of_lt
  exact List.inj_on_of_nodup_map hnodup hx hy hposition

theorem record_eq (h : l.Sound) {r r' : Record} (hr : r ∈ l.log) (hr' : r' ∈ l.log)
    (hposition : r.position = r'.position) : r = r' := by
  have hnodup : (l.log.map Record.position).Nodup := h.log.imp Nat.ne_of_lt
  exact List.inj_on_of_nodup_map hnodup hr hr' hposition

theorem ended_of_acknowledge (h : l.Sound) {x : Lease} (hx : x ∈ l.leases.held) (receipt : String) :
    (l.acknowledge receipt x.token).Ended x.position := by
  refine ⟨h.below x hx, ?_⟩
  rintro ⟨y, hy, hposition⟩
  obtain ⟨hold, htoken⟩ := List.mem_filter.mp hy
  rw [h.lease_eq hold hx hposition] at htoken
  simp at htoken

theorem mem_others (h : l.Sound) {before after : List Lease} {x : Lease}
    (hheld : l.leases.held = before ++ x :: after) (y : Lease) :
    y ∈ before ∨ y ∈ after ↔ y ∈ l.leases.held ∧ y.position ≠ x.position := by
  have hordered := h.held
  rw [hheld, List.map_append, List.map_cons, List.pairwise_append, List.pairwise_cons] at hordered
  obtain ⟨-, ⟨hafter, -⟩, hbefore⟩ := hordered
  rw [hheld, List.mem_append, List.mem_cons]
  constructor
  · rintro (hy | hy)
    · exact ⟨.inl hy, Nat.ne_of_lt (hbefore _ (List.mem_map_of_mem hy) _ List.mem_cons_self)⟩
    · exact ⟨.inr (.inr hy), Nat.ne_of_gt (hafter _ (List.mem_map_of_mem hy))⟩
  · rintro ⟨hy | rfl | hy, hne⟩
    · exact .inl hy
    · exact absurd rfl hne
    · exact .inr hy

private theorem read (h : l.Sound) {r : Record} (hr : r.FirstFrom l.log l.leases.next) (expiresAt : Nat) :
    (l.read r expiresAt).Sound where
  log := h.log
  held := by
    change ((l.leases.held ++ (r.lease? expiresAt).toList).map Lease.position).Pairwise (· < ·)
    rw [List.map_append, List.pairwise_append]
    refine ⟨h.held, ?_, ?_⟩
    · cases r.lease? expiresAt <;> simp
    · intro p hp q hq
      obtain ⟨x, hx, rfl⟩ := List.mem_map.mp hp
      obtain ⟨y, hy, rfl⟩ := List.mem_map.mp hq
      rw [(Record.position_of_lease? (Option.mem_toList.mp hy)).1]
      exact Nat.lt_of_lt_of_le (h.below x hx) hr.le
  below := by
    intro x hx
    change x.position < r.position + 1
    rcases mem_read hx with hold | hnew
    · exact Nat.lt_succ_of_lt (Nat.lt_of_lt_of_le (h.below x hold) hr.le)
    · rw [(Record.position_of_lease? hnew).1]
      exact Nat.lt_succ_self _
  recorded := by
    intro x hx
    rcases mem_read hx with hold | hnew
    · exact h.recorded x hold
    · obtain ⟨value, hvalue, rfl⟩ := Option.map_eq_some_iff.mp hnew
      exact ⟨r, hr.mem, rfl, by rw [hvalue, Option.map_some]⟩
  acknowledged position hold := (Precedes.of_step (.read hr expiresAt)).ended (h.acknowledged position hold)

private theorem renew (h : l.Sound) {before after : List Lease} {x : Lease}
    (hheld : l.leases.held = before ++ x :: after) (expiresAt : Nat) :
    (l.renew before x after expiresAt).Sound where
  log := h.log
  held := by
    have hpositions := h.held
    rw [hheld] at hpositions
    simpa [Ledger.renew, give, Lease.renew] using hpositions
  below := by
    have hbelow := h.below
    rw [hheld] at hbelow
    simpa [Ledger.renew, give, Lease.renew, or_imp, forall_and] using hbelow
  recorded := by
    have hrecorded := h.recorded
    rw [hheld] at hrecorded
    simpa [Ledger.renew, give, Lease.renew, or_imp, forall_and] using hrecorded
  acknowledged position hold :=
    (Precedes.of_step (.renew hheld expiresAt)).ended (h.acknowledged position hold)

private theorem acknowledge (h : l.Sound) {receipt : String} {x : Lease} (hx : x ∈ l.leases.held)
    (hparse : Token.parse? receipt = some x.token) : (l.acknowledge receipt x.token).Sound where
  log := h.log
  held := h.held.sublist (List.filter_sublist.map _)
  below y hy := h.below y (List.mem_filter.mp hy).1
  recorded y hy := h.recorded y (List.mem_filter.mp hy).1
  acknowledged := by
    rintro position ⟨receipt', hmem, hposition⟩
    rcases List.mem_append.mp hmem with hold | hnew
    · have hended := h.acknowledged position ⟨receipt', hold, hposition⟩
      exact (Precedes.of_step (.acknowledge hx hparse)).ended hended
    · rw [List.mem_singleton.mp hnew, hparse] at hposition
      have heq : x.position = position := Int.ofNat_inj.mp (Option.some.inj hposition)
      exact heq ▸ h.ended_of_acknowledge hx receipt

theorem step (h : l.Sound) (hstep : l.Step l') : l'.Sound := by
  cases hstep with
  | append hr =>
    refine ⟨?_, h.held, h.below, ?_, h.acknowledged⟩
    · change ((l.log ++ [_]).map Record.position).Pairwise (· < ·)
      rw [List.map_append, List.pairwise_append]
      refine ⟨h.log, List.pairwise_singleton _ _, ?_⟩
      intro p hp q hq
      obtain ⟨x, hx, rfl⟩ := List.mem_map.mp hp
      rw [List.mem_singleton.mp hq]
      exact hr x hx
    · intro x hx
      obtain ⟨r, hr, hrecord⟩ := h.recorded x hx
      exact ⟨r, List.mem_append_left _ hr, hrecord⟩
  | read hr expiresAt => exact h.read hr expiresAt
  | renew hheld expiresAt => exact h.renew hheld expiresAt
  | acknowledge hx hparse => exact h.acknowledge hx hparse

theorem steps (h : l.Sound) (hsteps : l.Steps l') : l'.Sound := by
  induction hsteps with
  | refl => exact h
  | tail _ hlast ih => exact ih.step hlast

end Sound

end Ledger

end AuditTrail.Log

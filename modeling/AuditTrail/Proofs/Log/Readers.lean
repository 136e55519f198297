import AuditTrail.Log.Queue
import AuditTrail.Proofs.Log.Ledger
import Mathlib.Data.List.Infix
import Mathlib.Logic.Function.Basic
/-!
# The readers of a log

Any number of readers take from one log on one account. A reader that is to receive deliveries reclaims
expired leases, looks up where to read on, fetches records from there and leases those that nobody has taken
meanwhile; between these steps other readers may take any of theirs, deliveries are acknowledged, and the
log grows. The clock is read anew at each step, and nothing depends on the order of its readings.
-/

namespace AuditTrail.Log

/-- How far a reader has come, and how many more records it is to hand out. -/
inductive Stage where
  | idle
  | reclaimed (room : Nat)
  | looked (room position : Nat)
  | fetched (room : Nat) (records : List Record)

inductive Readers.Move where
  | append (r : Record)
  | reclaim (reader max now : Nat)
  | look (reader : Nat)
  | fetch (reader : Nat) (records : List Record)
  | merge (reader now : Nat)
  /-- Whatever a reader is at, it may be stopped, as it is when it cannot fetch records. -/
  | stop (reader : Nat)
  | acknowledge (receipt : String)

structure Readers extends Ledger where
  visibility : Nat
  stages : Nat → Stage

instance (r : Record) (log : List Record) (position : Nat) : Decidable (r.FirstFrom log position) :=
  decidable_of_iff (r ∈ log ∧ position ≤ r.position ∧
      ∀ x ∈ log, position ≤ x.position → r.position ≤ x.position)
    ⟨fun ⟨mem, le, first⟩ => ⟨mem, le, first⟩, fun h => ⟨h.mem, h.le, h.first⟩⟩

/-- What a broker may answer when it is asked for the records from a position on: consecutive records of the
log, and if some of them are from there on, then the first one that is. -/
structure Answers (log : List Record) (position : Nat) (records : List Record) : Prop where
  consecutive : records <:+: log
  first : ∀ r ∈ log, r.FirstFrom log position → (∃ x ∈ records, position ≤ x.position) → r ∈ records

instance (log : List Record) (position : Nat) (records : List Record) :
    Decidable (Answers log position records) :=
  decidable_of_iff (records <:+: log ∧
      ∀ r ∈ log, r.FirstFrom log position → (∃ x ∈ records, position ≤ x.position) → r ∈ records)
    ⟨fun ⟨consecutive, first⟩ => ⟨consecutive, first⟩, fun h => ⟨h.consecutive, h.first⟩⟩

/-- A reader is given an answer to what it asks. -/
def Stage.Expects (log records : List Record) : Stage → Prop
  | .looked _ position => Answers log position records
  | _ => True

instance (log records : List Record) (stage : Stage) : Decidable (stage.Expects log records) :=
  match stage with
  | .looked _ position => inferInstanceAs (Decidable (Answers log position records))
  | .idle | .reclaimed _ | .fetched .. => inferInstanceAs (Decidable True)

namespace Readers

def new (visibility start : Nat) : Readers := ⟨.new start, visibility, fun _ => .idle⟩

/-- Something happens to the account, and a reader comes to another stage. -/
def turn (s : Readers) (l : Ledger) (reader : Nat) (stage : Stage) : Readers :=
  { s with toLedger := l, stages := Function.update s.stages reader stage }

def afterReclaim (s : Readers) (reader max now : Nat) : Readers :=
  match s.stages reader with
  | .idle =>
    let reclaimed := s.leases.reclaim now s.visibility max
    s.turn (s.give reclaimed) reader <|
      if max ≤ reclaimed.1.length then .idle else .reclaimed (max - reclaimed.1.length)
  | _ => s

def afterLook (s : Readers) (reader : Nat) : Readers :=
  match s.stages reader with
  | .reclaimed room => s.turn s.toLedger reader (.looked room s.leases.next)
  | _ => s

def afterFetch (s : Readers) (reader : Nat) (records : List Record) : Readers :=
  match s.stages reader with
  | .looked room _ => s.turn s.toLedger reader (.fetched room records)
  | _ => s

def afterMerge (s : Readers) (reader now : Nat) : Readers :=
  match s.stages reader with
  | .fetched room records => s.turn (s.give (s.leases.merge now s.visibility room records)) reader .idle
  | _ => s

def afterAcknowledge (s : Readers) (receipt : String) : Readers :=
  match s.leases.acknowledge receipt with
  | .ok leases => { s with leases, receipts := s.receipts ++ [receipt] }
  | .error _ => s

def after (s : Readers) : Move → Readers
  | .append r => { s with toLedger := s.append r }
  | .reclaim reader max now => s.afterReclaim reader (Nat.max max 1) now
  | .look reader => s.afterLook reader
  | .fetch reader records => s.afterFetch reader records
  | .merge reader now => s.afterMerge reader now
  | .stop reader => s.turn s.toLedger reader .idle
  | .acknowledge receipt => s.afterAcknowledge receipt

def afterAll (s : Readers) (moves : List Move) : Readers := moves.foldl after s

/-- What the log does: positions increase, and the broker answers for the log as it is. -/
def Allows (s : Readers) : Move → Prop
  | .append r => ∀ x ∈ s.log, x.position < r.position
  | .fetch reader records => (s.stages reader).Expects s.log records
  | _ => True

instance (s : Readers) (v : Move) : Decidable (s.Allows v) :=
  match v with
  | .append r => inferInstanceAs (Decidable (∀ x ∈ s.log, x.position < r.position))
  | .fetch reader records => inferInstanceAs (Decidable ((s.stages reader).Expects s.log records))
  | .reclaim .. | .look _ | .merge .. | .stop _ | .acknowledge _ => inferInstanceAs (Decidable True)

/-- Moves of which each is possible after those before it. -/
def Legal (s : Readers) : List Move → Prop
  | [] => True
  | v :: rest => s.Allows v ∧ (s.after v).Legal rest

instance decidableLegal (s : Readers) : (moves : List Move) → Decidable (s.Legal moves)
  | [] => inferInstanceAs (Decidable True)
  | v :: rest =>
    have := decidableLegal (s.after v) rest
    inferInstanceAs (Decidable (s.Allows v ∧ (s.after v).Legal rest))

end Readers

/-! ## What a reader has fetched goes on fitting the log -/

private theorem exists_firstFrom {log : List Record}
    (hlog : (log.map Record.position).Pairwise (· < ·)) {x : Record} (hx : x ∈ log) {position : Nat}
    (hle : position ≤ x.position) : ∃ r ∈ log, r.FirstFrom log position ∧ r.position ≤ x.position := by
  induction log with
  | nil => cases hx
  | cons y rest ih =>
    obtain ⟨hy, hrest⟩ := List.pairwise_cons.mp hlog
    have hbehind (z : Record) (hz : z ∈ rest) : y.position < z.position := hy _ (List.mem_map_of_mem hz)
    by_cases hfirst : position ≤ y.position
    · have hleast (z : Record) (hz : z ∈ y :: rest) : y.position ≤ z.position := by
        rcases List.mem_cons.mp hz with rfl | hz
        · exact Nat.le_refl _
        · exact Nat.le_of_lt (hbehind z hz)
      exact ⟨y, List.mem_cons_self, ⟨List.mem_cons_self, hfirst, fun z hz _ => hleast z hz⟩, hleast x hx⟩
    · rcases List.mem_cons.mp hx with rfl | hx
      · exact absurd hle hfirst
      · obtain ⟨r, hr, hfrom, hrx⟩ := ih hrest hx
        refine ⟨r, List.mem_cons_of_mem y hr, ⟨List.mem_cons_of_mem y hr, hfrom.le, ?_⟩, hrx⟩
        intro z hz hzle
        rcases List.mem_cons.mp hz with rfl | hz
        · exact absurd hzle hfirst
        · exact hfrom.first z hz hzle

private theorem Gapless.of_answers {log records : List Record} {position : Nat}
    (hlog : (log.map Record.position).Pairwise (· < ·)) (h : Answers log position records) :
    Gapless log position records := by
  obtain ⟨before, after, rfl⟩ := h.consecutive
  have hpositions := hlog
  simp only [List.map_append, List.pairwise_append, List.mem_append] at hpositions
  obtain ⟨⟨-, hordered, hbefore⟩, -, hafter⟩ := hpositions
  refine ⟨hordered, fun r hr => by simp [hr], ?_⟩
  intro x hx r hr hle hxr
  obtain ⟨first, hmem, hfirst, hfirstx⟩ := exists_firstFrom hlog hx hle
  have hanswered := h.first first hmem hfirst ⟨r, hr, Nat.le_trans hle hxr⟩
  rcases List.mem_append.mp hx with hx | hx
  · rcases List.mem_append.mp hx with hx | hx
    · have hlt := hbefore _ (List.mem_map_of_mem hx) _ (List.mem_map_of_mem hanswered)
      omega
    · exact hx
  · have hlt := hafter _ (.inr (List.mem_map_of_mem hr)) _ (List.mem_map_of_mem hx)
    omega

namespace Stage

/-- A stage fits the account that the reader will go on with. -/
def Fits (l : Ledger) : Stage → Prop
  | .looked _ position => position ≤ l.leases.next
  | .fetched _ records => Gapless l.log l.leases.next records
  | _ => True

variable {l l' : Ledger} {stage : Stage}

theorem Fits.step (h : stage.Fits l) (hstep : l.Step l') : stage.Fits l' := by
  have hnext := (Ledger.Precedes.of_step hstep).next
  cases stage with
  | looked room position => exact Nat.le_trans h hnext
  | fetched room records =>
    cases hstep with
    | append hr => exact Gapless.append h hr
    | _ => exact Gapless.of_le h hnext
  | _ => trivial

theorem Fits.steps (h : stage.Fits l) (hsteps : l.Steps l') : stage.Fits l' := by
  induction hsteps with
  | refl => exact h
  | tail _ hlast ih => exact ih.step hlast

end Stage

namespace Readers

variable {s : Readers} {l : Ledger}

structure Consistent (s : Readers) : Prop where
  sound : s.Sound
  fits : ∀ reader, (s.stages reader).Fits s.toLedger

namespace Consistent

theorem new (visibility start : Nat) : (Readers.new visibility start).Consistent where
  sound := .new start
  fits _ := trivial

theorem of_steps (h : s.Consistent) (hsteps : s.toLedger.Steps l) :
    ({ s with toLedger := l } : Readers).Consistent where
  sound := h.sound.steps hsteps
  fits reader := (h.fits reader).steps hsteps

theorem turn (h : s.Consistent) (hsteps : s.toLedger.Steps l) (reader : Nat) {stage : Stage}
    (hfits : stage.Fits l) : (s.turn l reader stage).Consistent where
  sound := h.sound.steps hsteps
  fits other := by
    by_cases heq : other = reader
    · subst heq
      simpa [Readers.turn] using hfits
    · simpa [Readers.turn, heq] using (h.fits other).steps hsteps

theorem afterReclaim (h : s.Consistent) (reader max now : Nat) :
    s.toLedger.Steps (s.afterReclaim reader max now).toLedger ∧
      (s.afterReclaim reader max now).Consistent := by
  unfold Readers.afterReclaim
  split
  · have hsteps := s.toLedger.steps_reclaim now s.visibility max
    refine ⟨hsteps, h.turn hsteps reader ?_⟩
    split <;> trivial
  · exact ⟨.refl, h⟩

theorem afterLook (h : s.Consistent) (reader : Nat) :
    s.toLedger.Steps (s.afterLook reader).toLedger ∧ (s.afterLook reader).Consistent := by
  unfold Readers.afterLook
  split
  · exact ⟨.refl, h.turn .refl reader (Nat.le_refl s.leases.next)⟩
  · exact ⟨.refl, h⟩

theorem afterFetch (h : s.Consistent) {reader : Nat} {records : List Record}
    (hanswer : (s.stages reader).Expects s.log records) :
    s.toLedger.Steps (s.afterFetch reader records).toLedger ∧ (s.afterFetch reader records).Consistent := by
  have hreader := h.fits reader
  unfold Readers.afterFetch
  split
  next room position hstage =>
    rw [hstage] at hreader hanswer
    have hfetched : Gapless s.log position records := .of_answers h.sound.log hanswer
    exact ⟨.refl, h.turn .refl reader (hfetched.of_le hreader)⟩
  · exact ⟨.refl, h⟩

theorem afterMerge (h : s.Consistent) (reader now : Nat) :
    s.toLedger.Steps (s.afterMerge reader now).toLedger ∧ (s.afterMerge reader now).Consistent := by
  have hreader := h.fits reader
  unfold Readers.afterMerge
  split
  next room records hstage =>
    rw [hstage] at hreader
    have hsteps := Ledger.steps_merge hreader now s.visibility room
    exact ⟨hsteps, h.turn hsteps reader trivial⟩
  · exact ⟨.refl, h⟩

theorem afterAcknowledge (h : s.Consistent) (receipt : String) :
    s.toLedger.Steps (s.afterAcknowledge receipt).toLedger ∧ (s.afterAcknowledge receipt).Consistent := by
  unfold Readers.afterAcknowledge
  split
  next leases hok =>
    obtain ⟨x, hx, hparse, rfl⟩ := Leases.acknowledge_eq_ok.mp hok
    have hsteps : s.toLedger.Steps (s.acknowledge receipt x.token) := .single (.acknowledge hx hparse)
    exact ⟨hsteps, h.of_steps hsteps⟩
  · exact ⟨.refl, h⟩

theorem after (h : s.Consistent) {v : Move} (hallowed : s.Allows v) :
    s.toLedger.Steps (s.after v).toLedger ∧ (s.after v).Consistent := by
  cases v with
  | append r =>
    have hsteps : s.toLedger.Steps (s.append r) := .single (.append hallowed)
    exact ⟨hsteps, h.of_steps hsteps⟩
  | reclaim reader max now => exact h.afterReclaim reader _ now
  | look reader => exact h.afterLook reader
  | fetch reader records => exact h.afterFetch hallowed
  | merge reader now => exact h.afterMerge reader now
  | stop reader => exact ⟨.refl, h.turn .refl reader trivial⟩
  | acknowledge receipt => exact h.afterAcknowledge receipt

theorem afterAll (h : s.Consistent) {moves : List Move} (hlegal : s.Legal moves) :
    s.toLedger.Steps (s.afterAll moves).toLedger ∧ (s.afterAll moves).Consistent := by
  induction moves generalizing s with
  | nil => exact ⟨.refl, h⟩
  | cons v rest ih =>
    obtain ⟨hsteps, hnext⟩ := h.after hlegal.1
    obtain ⟨hrest, hlast⟩ := ih hnext hlegal.2
    exact ⟨hsteps.trans hrest, hlast⟩

end Consistent

/-- What is so at first, and what every step keeps, is so whatever the readers do. -/
theorem run_invariant {visibility start : Nat} {P : Ledger → Prop} (hnew : P (.new start))
    (hstep : ∀ l l', l.Sound → l.Step l' → P l → P l') {moves : List Move}
    (hlegal : (new visibility start).Legal moves) :
    ((new visibility start).afterAll moves).Consistent ∧
      P ((new visibility start).afterAll moves).toLedger := by
  obtain ⟨hsteps, hconsistent⟩ := (Consistent.new visibility start).afterAll hlegal
  refine ⟨hconsistent, ?_⟩
  have hboth : ((new visibility start).afterAll moves).Sound ∧
      P ((new visibility start).afterAll moves).toLedger := by
    generalize ((new visibility start).afterAll moves).toLedger = l at hsteps ⊢
    induction hsteps with
    | refl => exact ⟨.new start, hnew⟩
    | tail _ hlast ih => exact ⟨ih.1.step hlast, hstep _ _ ih.1 hlast ih.2⟩
  exact hboth.2

end Readers

end AuditTrail.Log

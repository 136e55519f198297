import AuditTrail.Proofs.Deployment.Delivery
import AuditTrail.Proofs.Filter.Select
/-!
# Every stored event gets into the index

While no event is deleted, each row of the record store is a document of the index or is carried by a
message on the queue, and each document is a row. So searches and listings agree once the queue is empty.
-/

namespace AuditTrail

open Pipeline

namespace Message

/-- A message that puts events of its tenant into the index, all of them from a table. -/
def AddsFrom (m : Message) (t : EventTable) : Prop :=
  m.kind ≠ .delete ∧ ∀ e ∈ m.events, e.tenant = m.tenant ∧ e ∈ t.events

theorem exists_of_lastTold {messages : List Message} {key : TenantId × String} {e : Event}
    (h : lastTold messages key = some e) : ∃ m ∈ messages, e ∈ m.events ∧ m.kind ≠ .delete := by
  rw [lastTold, Option.join_eq_some_iff] at h
  obtain ⟨m, hm, htells⟩ := List.exists_of_findSome?_eq_some h
  have hkind : m.kind ≠ .delete := by
    intro hkind
    rw [tells, hkind] at htells
    simp only at htells
    split at htells <;> cases htells
  rw [tells_of_ne_delete hkind, Option.map_eq_some_iff] at htells
  obtain ⟨d, hd, heq⟩ := htells
  cases heq
  exact ⟨m, List.mem_reverse.mp hm, List.mem_reverse.mp (List.mem_of_find?_eq_some hd), hkind⟩

private theorem lastTold_eq_some {messages : List Message} {t : EventTable}
    (hadds : ∀ m ∈ messages, m.AddsFrom t) {m : Message} (hm : m ∈ messages) {e : Event}
    (he : e ∈ m.events) : lastTold messages e.key = some e := by
  have hall (m' : Message) (hm' : m' ∈ messages) (v : Option Event) (htells : m'.tells e.key = some v) :
      v = some e := by
    obtain ⟨hkind, hevents⟩ := hadds m' hm'
    rw [tells_of_ne_delete hkind, Option.map_eq_some_iff] at htells
    obtain ⟨d, hd, rfl⟩ := htells
    have hdm := List.mem_reverse.mp (List.mem_of_find?_eq_some hd)
    have hkey : d.key = e.key := by simpa using List.find?_some hd
    rw [List.inj_on_of_nodup_map t.nodup (hevents d hdm).2 ((hadds m hm).2 e he).2 hkey]
  cases hfirst : messages.reverse.findSome? fun m => m.tells e.key with
  | none =>
    have hnone := List.findSome?_eq_none_iff.mp hfirst m (List.mem_reverse.mpr hm)
    rw [tells_of_ne_delete (hadds m hm).1, Option.map_eq_none_iff, EventTable.lastOf,
      List.find?_eq_none] at hnone
    exact absurd (decide_eq_true rfl) (hnone e (List.mem_reverse.mpr he))
  | some v =>
    obtain ⟨m', hm', htells⟩ := List.exists_of_findSome?_eq_some hfirst
    rw [lastTold, hfirst, hall m' (List.mem_reverse.mp hm') v htells]
    rfl

end Message

/-- A readable message on the queue puts an event into the index. -/
def Queue.Carries (q : Queue) (e : Event) : Prop :=
  ∃ b ∈ q.bodies, ∃ m, Message.decode b = .ok m ∧ m.kind ≠ .delete ∧ m.tenant = e.tenant ∧ e ∈ m.events

def Move.KeepsEvents : Move → Prop
  | .write (.delete _ _ _) => False
  | _ => True

namespace Deployment

private theorem addsFrom_rows {visibility : Nat} {tokens : Nat → String} (htokens : Function.Injective tokens)
    {d : Deployment} (h : Reachable Move.KeepsEvents visibility tokens d) (hread : d.Readable) :
    ∀ m ∈ d.published, m.AddsFrom d.pipeline.records.rows := by
  induction h with
  | new =>
    intro m hm
    cases hm
  | @move d v before hsort hallowed ih =>
    have hsound := before.sound htokens hread.before
    have hafter := hsound.after hallowed hread.before hread
    have hold := ih hread.before
    rw [hsound.rows] at hold
    rw [hafter.rows]
    rcases published_after d v with heq | ⟨w, x, rfl, hx, heq⟩
    · rw [heq]
      exact hold
    · rw [heq, EventTable.absorbAll_append, ← hsound.rows, ← Write.effect_rows hx]
      rw [← hsound.rows] at hold
      rcases Write.effect_cases hx with ⟨-, -, ⟨hkind, -, hevents, hadd⟩ | ⟨ctx, id, now, rfl, -⟩⟩
      · have hmem := (EventTable.addAll_eq_ok hadd).2.2
        intro m hm
        rcases List.mem_append.mp hm with hm | hm
        · refine ⟨(hold m hm).1, ?_⟩
          intro e he
          obtain ⟨htenant, hrow⟩ := (hold m hm).2 e he
          exact ⟨htenant, (hmem e).mpr (.inl hrow)⟩
        · rw [List.mem_singleton] at hm
          subst hm
          exact ⟨hkind, fun e he => ⟨(hevents e he).1, (hmem e).mpr (.inr he)⟩⟩
      · exact hsort.elim

/-- While no event is deleted, every row is a document of the index or is carried by a message on the queue,
and every document is the row under its key. So once the queue is empty, searches find what the record store
lists, for every tenant and filter. -/
theorem stored_event_indexed_or_carried {visibility : Nat} {tokens : Nat → String}
    (htokens : Function.Injective tokens) {d : Deployment}
    (h : Reachable Move.KeepsEvents visibility tokens d) (hread : d.Readable) :
    (∀ e ∈ d.pipeline.records.rows.events,
        e ∈ d.pipeline.index.documents.events ∨ d.pipeline.queue.Carries e) ∧
      (∀ e ∈ d.pipeline.index.documents.events, d.pipeline.records.rows.get? e.tenant e.id = some e) ∧
      (d.pipeline.queue.depth = 0 →
        ∀ ctx f, d.pipeline.index.search ctx f = d.pipeline.records.list ctx f) := by
  have hsound := h.sound htokens hread
  have hadds := addsFrom_rows htokens h hread
  have happlied := hsound.published_of_applied
  have hrow : ∀ e ∈ d.pipeline.records.rows.events,
      e ∈ d.pipeline.index.documents.events ∨ d.pipeline.queue.Carries e := by
    intro e he
    rw [hsound.rows, EventTable.mem_iff_get?, EventTable.get?_absorbAll] at he
    obtain ⟨m, hm, hem, hkind⟩ := Message.exists_of_lastTold he
    rcases hsound.kept m hm with hdone | hqueued
    · left
      rw [hsound.documents, EventTable.mem_iff_get?, EventTable.get?_absorbAll]
      exact Message.lastTold_eq_some (fun m hm => hadds m (happlied m hm)) hdone hem
    · right
      exact ⟨_, hqueued, m, hread m hm, hkind, ((hadds m hm).2 e hem).1.symm, hem⟩
  have hdocument : ∀ e ∈ d.pipeline.index.documents.events,
      d.pipeline.records.rows.get? e.tenant e.id = some e := by
    intro e he
    rw [hsound.documents, EventTable.mem_iff_get?, EventTable.get?_absorbAll] at he
    obtain ⟨m, hm, hem, -⟩ := Message.exists_of_lastTold he
    exact EventTable.mem_iff_get?.mp ((hadds m (happlied m hm)).2 e hem).2
  refine ⟨hrow, hdocument, ?_⟩
  intro hdepth ctx f
  apply SearchIndex.search_eq_list
  apply EventTable.ofTenant_perm
  intro e
  constructor
  · intro he
    exact EventTable.mem_iff_get?.mpr (hdocument e he)
  · intro he
    rcases hrow e he with hdone | ⟨b, hb, -⟩
    · exact hdone
    · rw [Queue.bodies_eq_nil.mpr hdepth] at hb
      cases hb

/-- The deployment after a worker has applied the message about a sign-in and then waited for too long, so
that it was delivered again. -/
def appliedLate : Deployment :=
  ((signedIn 30).afterMessage (signInDelivery 0 1) (.signIn "e1")).afterAll
    [.pass 30, .receive 10 0, .acknowledge (signInDelivery 0 1)]

/-- The deployment after the message was applied again and acknowledged. -/
def redelivered : Deployment :=
  (appliedLate.afterMessage (signInDelivery 1 2) (.signIn "e1")).after (.acknowledge (signInDelivery 1 2))

private theorem redelivered_reachable : Reachable Move.KeepsEvents 30 unaryToken redelivered := by
  have hsigned : Reachable Move.KeepsEvents 30 unaryToken (signedIn 30) :=
    signedIn_reachable 30 ⟨trivial, trivial⟩
  have hfirst : signInDelivery 0 1 ∈ (signedIn 30).received := List.mem_singleton.mpr rfl
  have hlate : Reachable Move.KeepsEvents 30 unaryToken appliedLate :=
    (hsigned.afterMessage trivial hfirst (decode_signInDelivery 0 1)).afterAll _
      (by simp [Move.KeepsEvents]) ⟨trivial, trivial, .inl (List.mem_singleton.mpr rfl), trivial⟩
  have hsecond : signInDelivery 1 2 ∈ appliedLate.received :=
    List.mem_cons_of_mem _ (List.mem_singleton.mpr rfl)
  have hdone : signInDelivery 1 2 ∈
      (appliedLate.afterMessage (signInDelivery 1 2) (.signIn "e1")).applied.map Prod.fst :=
    List.mem_cons_of_mem _ (List.mem_singleton.mpr rfl)
  exact (hlate.afterMessage trivial hsecond (decode_signInDelivery 1 2)).move trivial (.inl hdone)

set_option maxRecDepth 2000 in
/-- A sign-in that was delivered twice is found. -/
theorem redelivered_found :
    Reachable Move.KeepsEvents 30 unaryToken redelivered ∧ redelivered.Readable ∧
      redelivered.pipeline.records.rows.events = [.signIn "e1"] ∧
      redelivered.pipeline.queue.depth = 0 ∧
      ∀ ctx f, redelivered.pipeline.index.search ctx f = redelivered.pipeline.records.list ctx f := by
  have hread : redelivered.Readable := by
    have hpublished : redelivered.published = [.signIn "e1"] := rfl
    intro m hm
    rw [hpublished, List.mem_singleton] at hm
    subst hm
    exact Message.decode_signIn "e1"
  have hdepth : redelivered.pipeline.queue.depth = 0 := rfl
  have hagree := stored_event_indexed_or_carried unaryToken_injective redelivered_reachable hread
  exact ⟨redelivered_reachable, hread, rfl, hdepth, hagree.2.2 hdepth⟩

end Deployment

end AuditTrail

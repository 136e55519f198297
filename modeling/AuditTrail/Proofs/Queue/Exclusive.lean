import AuditTrail.Proofs.Queue.Conservation
/-!
# Leases are exclusive

`QueueCourse.latest_delivery_acknowledges`: an entry that is not acknowledged is ready or leased once, it is
handed out again only when its lease has expired or all leases were ended, and a token acknowledges a message
just as long as nothing has ended the lease that came with it.
-/

namespace AuditTrail

namespace QueueLedger

variable {l l' : QueueLedger} {e : QueueEvent} {visibility : Nat}

/-! ## Leases last until they expire -/

/-- Nobody has looked for messages later than now. -/
def Timely (l : QueueLedger) : Prop := ∀ time, .looked time ∈ l.events → time ≤ l.clock

theorem Timely.step (hl : l.Timely) (hstep : l.Step l') : l'.Timely := by
  have hkept (e : QueueEvent) (he : ∀ time, e = .looked time → time ≤ l.clock) :
      ∀ time, .looked time ∈ l.events ++ [e] → time ≤ l.clock := by
    intro time hmem
    rcases List.mem_append.mp hmem with hold | hnew
    · exact hl time hold
    · exact he time (List.mem_singleton.mp hnew).symm
  cases hstep with
  | look =>
    refine hkept _ ?_
    rintro time heq
    cases heq
    exact Nat.le_refl _
  | pass hlater =>
    intro time hmem
    exact Nat.le_trans (hl time hmem) hlater
  | favour => exact hl
  | _ => exact hkept _ fun time heq => nomatch heq

/-- Between two deliveries of an entry all leases were ended, or that of the first one has expired. -/
def Spaced (l : QueueLedger) (visibility : Nat) : Prop :=
  ∀ before h between h' after,
    l.events = before ++ .handed h :: (between ++ .handed h' :: after) → h.name = h'.name →
      .released ∈ between ∨ h.time + visibility ≤ h'.time

private theorem Spaced.of_event (hl : l.Spaced visibility) (hevents : l'.events = l.events ++ [e])
    (hnew : ∀ h', e = .handed h' → ∀ before h between, l.events = before ++ .handed h :: between →
      h.name = h'.name → .released ∈ between ∨ h.time + visibility ≤ h'.time) :
    l'.Spaced visibility := by
  intro before h between h' after hsplit hname
  rw [hevents, snoc_eq_append_cons] at hsplit
  rcases hsplit with ⟨hnil, -, -⟩ | ⟨rest, hrest, hold⟩
  · cases between <;> cases hnil
  · rw [eq_comm, snoc_eq_append_cons] at hrest
    rcases hrest with ⟨-, rfl, rfl⟩ | ⟨rest', -, rfl⟩
    · exact hnew h' rfl before h rest hold hname
    · exact hl before h between h' rest' hold hname

private theorem Spaced.hand (hl : l.Spaced l.names.visibility) (h : l.Sound) (ht : l.Timely)
    {entry : QueueEntry} {rest : List QueueEntry} (hready : l.names.ready = entry :: rest) :
    (l.hand entry rest).Spaced l.names.visibility := by
  refine hl.of_event (e := .handed (l.handing entry)) rfl ?_
  intro h' heq before y between hsplit hname
  cases heq
  have hmem : y.name ∈ l.names.ready.map QueueEntry.body := by
    rw [hready, hname]
    exact List.mem_cons_self
  have hended : ¬ l.Lasts y := by
    intro hlasts
    have hleased : y.lease l.names.visibility ∈ l.names.leased := (h.leased _).mpr ⟨y, hlasts, rfl⟩
    have hdisjoint := List.disjoint_of_nodup_append h.nodup.of_append_left
    exact hdisjoint hmem (List.mem_map_of_mem (f := fun x => x.entry.body) hleased)
  obtain ⟨e, he, hends⟩ : ∃ e ∈ between, e.Ends (y.lease l.names.visibility) := by
    by_contra hnone
    simp only [not_exists, not_and] at hnone
    exact hended ⟨before, between, hsplit, hnone⟩
  have hevent : e ∈ l.events := by
    rw [hsplit]
    exact List.mem_append_right _ (List.mem_cons_of_mem _ he)
  cases e with
  | looked time => exact .inr (Nat.le_trans hends (ht time hevent))
  | acknowledged token =>
    have hhandings : y ∈ l.handings := by
      rw [handings, hsplit]
      simp [QueueEvent.handing?]
    have hacknowledged : y.token ∈ l.acknowledged := by
      have htoken : y.token = token := hends
      rw [htoken, acknowledged]
      exact List.mem_filterMap.mpr ⟨_, hevent, rfl⟩
    have hremoved : y ∈ l.removed := List.mem_filter.mpr ⟨hhandings, by simpa using hacknowledged⟩
    have hdisjoint := List.disjoint_of_nodup_append h.nodup
    exact absurd (List.mem_map_of_mem hremoved) (hdisjoint (List.mem_append_left _ hmem))
  | released => exact .inl he
  | _ => exact hends.elim

theorem Spaced.step (hl : l.Spaced l.names.visibility) (h : l.Sound) (ht : l.Timely)
    (hstep : l.Step l') : l'.Spaced l'.names.visibility := by
  cases hstep with
  | hand hready => exact hl.hand h ht hready
  | pass => exact hl
  | favour => exact hl
  | _ => exact hl.of_event rfl fun h' heq => nomatch heq

/-! ## Deliveries are counted -/

def handingsOf (l : QueueLedger) (name : String) : List Handing := l.handings.filter fun h => h.name = name

/-- The deliveries of an entry are counted from one, and an entry on the queue knows how many it has had. -/
structure Tallied (l : QueueLedger) : Prop where
  counts : ∀ name, ((l.handingsOf name).map fun h => h.delivery.count) =
    List.range' 1 (l.handingsOf name).length
  entries : ∀ x ∈ l.names.ready ++ l.names.leased.map QueueLease.entry,
    x.count = (l.handingsOf x.body).length

namespace Tallied

private theorem of_subset (hl : l.Tallied) (hevents : l'.events = l.events ++ [e])
    (he : e.handing? = none) (hentries : ∀ x ∈ l'.names.ready ++ l'.names.leased.map QueueLease.entry,
      x ∈ l.names.ready ++ l.names.leased.map QueueLease.entry) : l'.Tallied := by
  have hsame (name : String) : l'.handingsOf name = l.handingsOf name := by
    rw [handingsOf, handings_of_event_none hevents he, handingsOf]
  refine ⟨?_, ?_⟩
  · intro name
    rw [hsame]
    exact hl.counts name
  · intro x hx
    rw [hsame]
    exact hl.entries x (hentries x hx)

private theorem send (hl : l.Tallied) (hf : l.Faithful) (body : String) : (l.send body).Tallied := by
  have hsame (name : String) : (l.send body).handingsOf name = l.handingsOf name := by
    rw [handingsOf, handings_of_event_none (l := l) (e := .sent body) rfl rfl, handingsOf]
  have hnone : l.handingsOf (toString l.sent.length) = [] := by
    apply List.filter_eq_nil_iff.mpr
    intro x hx hname
    obtain ⟨⟨n, hn, heq⟩, -⟩ := hf x hx
    have hlength := decimal_injective (heq.symm.trans (of_decide_eq_true hname))
    omega
  refine ⟨fun name => (hsame name).symm ▸ hl.counts name, ?_⟩
  intro x hx
  rw [hsame]
  simp only [QueueLedger.send, Queue.sendText, List.mem_append, List.mem_singleton] at hx
  rcases hx with (hold | rfl) | hold
  · exact hl.entries x (List.mem_append_left _ hold)
  · simp only
    rw [hnone]
    rfl
  · exact hl.entries x (List.mem_append_right _ hold)

private theorem hand (hl : l.Tallied) (h : l.Sound) {entry : QueueEntry} {rest : List QueueEntry}
    (hready : l.names.ready = entry :: rest) : (l.hand entry rest).Tallied := by
  have hcount : entry.count = (l.handingsOf entry.body).length := by
    apply hl.entries
    rw [hready]
    exact List.mem_cons_self
  have hsame (name : String) (hne : name ≠ entry.body) :
      (l.hand entry rest).handingsOf name = l.handingsOf name := by
    rw [handingsOf, handings_of_event (l := l) (e := .handed (l.handing entry)) rfl, List.filter_append]
    have hother : ¬ (l.handing entry).name = name := fun heq => hne heq.symm
    simp [QueueEvent.handing?, hother, handingsOf]
  have hnext : (l.hand entry rest).handingsOf entry.body =
      l.handingsOf entry.body ++ [l.handing entry] := by
    rw [handingsOf, handings_of_event (l := l) (e := .handed (l.handing entry)) rfl, List.filter_append]
    simp [QueueEvent.handing?, handing, handingsOf]
  refine ⟨?_, ?_⟩
  · intro name
    by_cases hname : name = entry.body
    · subst hname
      rw [hnext, List.map_append, hl.counts, List.length_append, List.length_singleton,
        List.range'_1_concat, Nat.add_comm 1, ← hcount]
      rfl
    · rw [hsame name hname]
      exact hl.counts name
  · intro x hx
    have hnodup := h.nodup.of_append_left
    simp only [Queue.bodies, hready, List.map_cons, List.cons_append, List.nodup_cons, List.mem_append,
      List.mem_map, not_or, not_exists, not_and] at hnodup
    simp only [QueueLedger.hand, Queue.leaseFirst, List.map_append, List.map_cons, List.map_nil,
      List.mem_append, List.mem_map, List.mem_singleton] at hx
    rcases hx with hrest | ⟨y, hy, rfl⟩ | rfl
    · rw [hsame _ (hnodup.1.1 x hrest)]
      apply hl.entries
      rw [hready]
      exact List.mem_append_left _ (List.mem_cons_of_mem _ hrest)
    · rw [hsame _ (hnodup.1.2 y hy)]
      exact hl.entries _ (List.mem_append_right _ (List.mem_map_of_mem hy))
    · change entry.count + 1 = ((l.hand entry rest).handingsOf entry.body).length
      rw [hnext, List.length_append, List.length_singleton, hcount]

theorem step (hl : l.Tallied) (h : l.Sound) (hf : l.Faithful) (hstep : l.Step l') : l'.Tallied := by
  cases hstep with
  | send body => exact hl.send hf body
  | look =>
    refine hl.of_subset rfl rfl ?_
    simp only [look, Queue.reclaim_eq, List.mem_append, List.mem_map, List.mem_filter]
    grind
  | hand hready => exact hl.hand h hready
  | acknowledge hx =>
    refine hl.of_subset rfl rfl ?_
    simp only [remove, List.mem_append, List.mem_map, List.mem_filter]
    grind
  | release =>
    refine hl.of_subset rfl rfl ?_
    simp [Queue.releaseAll]
  | pass => exact ⟨hl.counts, hl.entries⟩
  | favour i =>
    refine ⟨hl.counts, ?_⟩
    intro x hx
    have hperm := ((Queue.favour_perm l.names i).map QueueLease.entry).append_left l.names.ready
    exact hl.entries x (hperm.mem_iff.mp hx)

end Tallied

theorem Sound.count_eq (h : l.Sound) {n : Nat} (hn : n < l.sent.length) :
    (l.names.ready.map QueueEntry.body).count (toString n) +
        (l.names.leased.map fun x => x.entry.body).count (toString n) =
      if toString n ∈ l.removed.map Handing.name then 0 else 1 := by
  have hmem : toString n ∈ (List.range l.sent.length).map toString :=
    List.mem_map_of_mem (List.mem_range.mpr hn)
  have honce := h.entries.count_eq (toString n)
  rw [List.count_eq_one_of_mem (List.nodup_range.map decimal_injective) hmem, List.count_append,
    Queue.bodies, List.count_append] at honce
  split
  · rename_i hremoved
    have hpos := List.count_pos_iff.mpr hremoved
    omega
  · rename_i hremoved
    have hzero := List.count_eq_zero.mpr hremoved
    omega

end QueueLedger

namespace QueueCourse

/-- Whatever is done to a queue, each entry has one place on it until it is acknowledged. Between two
deliveries of an entry its lease has expired, or all leases were ended, and the deliveries are counted. A
token acknowledges a message just when nothing has ended the lease that came with it, which then is the only
one to go; any other token changes nothing. -/
theorem latest_delivery_acknowledges {visibility : Nat} {tokens : Nat → String}
    (htokens : Function.Injective tokens) (moves : List QueueMove) :
    let c := run visibility tokens moves
    c.queue = c.names.relabel c.text ∧
      (∀ n < c.sent.length,
        (c.names.ready.map QueueEntry.body).count (toString n) +
            (c.names.leased.map fun x => x.entry.body).count (toString n) =
          if toString n ∈ c.removed.map Handing.name then 0 else 1) ∧
      c.Spaced visibility ∧
      (∀ name, ((c.handingsOf name).map fun h => h.delivery.count) =
        List.range' 1 (c.handingsOf name).length) ∧
      (∀ token, (∃ q, c.queue.acknowledge token = .ok q) ↔ ∃ h, c.Lasts h ∧ h.token = token) ∧
      (∀ token q, c.queue.acknowledge token = .ok q →
        (c.after (.acknowledge token)).queue = q ∧
          (c.after (.acknowledge token)).names.ready = c.names.ready ∧
          ∃ h ∈ c.handings, h.token = token ∧
            c.names.leased.Perm (h.lease visibility :: (c.after (.acknowledge token)).names.leased)) ∧
      ∀ token f, c.queue.acknowledge token = .error f → c.after (.acknowledge token) = c := by
  intro c
  have hlinked : c.Linked := Linked.run visibility htokens moves
  obtain ⟨hsound, hfaithful, htimely, hspaced, htallied, hvisibility⟩ :
      c.Sound ∧ c.Faithful ∧ c.Timely ∧ c.Spaced c.names.visibility ∧ c.Tallied ∧
        c.names.visibility = visibility := by
    apply run_invariant (P := fun l => l.Faithful ∧ l.Timely ∧ l.Spaced l.names.visibility ∧ l.Tallied ∧
      l.names.visibility = visibility) htokens
    · refine ⟨?_, ?_, ?_, ⟨?_, ?_⟩, rfl⟩
      · simp [QueueLedger.Faithful, new, QueueLedger.handings]
      · simp [QueueLedger.Timely, new]
      · simp [QueueLedger.Spaced, new]
      · simp [new, QueueLedger.handingsOf, QueueLedger.handings]
      · simp [new, Queue.new]
    · rintro l l' hs hstep ⟨hf, ht, hp, hc, hv⟩
      refine ⟨hf.step hs hstep, ht.step hstep, hp.step hs ht hstep, hc.step hs hf hstep, ?_⟩
      cases hstep <;> exact hv
  refine ⟨hlinked.queue, fun n hn => hsound.count_eq hn, hvisibility ▸ hspaced, htallied.counts, ?_, ?_, ?_⟩
  · intro token
    have hleased : (∃ q, c.queue.acknowledge token = .ok q) ↔ ∃ x ∈ c.names.leased, x.token = token := by
      simp [Queue.acknowledge_eq_ok, hlinked.queue, Queue.relabel, QueueLease.relabel]
    rw [hleased]
    constructor
    · rintro ⟨x, hx, rfl⟩
      obtain ⟨h, hlasts, rfl⟩ := (hsound.leased x).mp hx
      exact ⟨h, hlasts, rfl⟩
    · rintro ⟨h, hlasts, rfl⟩
      exact ⟨_, (hsound.leased _).mpr ⟨h, hlasts, rfl⟩, rfl⟩
  · intro token q hq
    change (c.afterAcknowledge token).queue = q ∧ (c.afterAcknowledge token).names.ready = _ ∧
      ∃ h ∈ c.handings, h.token = token ∧
        c.names.leased.Perm (h.lease visibility :: (c.afterAcknowledge token).names.leased)
    cases hnames : c.names.acknowledge token with
    | error f =>
      rw [((hlinked.afterAcknowledge_eq token).2 f hnames).1] at hq
      cases hq
    | ok names =>
      obtain ⟨hqueue, hafter⟩ := (hlinked.afterAcknowledge_eq token).1 names hnames
      obtain ⟨⟨x, hx, rfl⟩, rfl⟩ := Queue.acknowledge_eq_ok.mp hnames
      obtain ⟨h, hlasts, rfl⟩ := (hsound.leased x).mp hx
      rw [hqueue] at hq
      cases hq
      rw [hafter]
      refine ⟨rfl, rfl, h, hlasts.mem_handings, rfl, ?_⟩
      rw [← hvisibility]
      exact hsound.leased_perm hx
  · intro token f hq
    change c.afterAcknowledge token = c
    cases hnames : c.names.acknowledge token with
    | error f => exact ((hlinked.afterAcknowledge_eq token).2 f hnames).2
    | ok names =>
      rw [((hlinked.afterAcknowledge_eq token).1 names hnames).1] at hq
      cases hq

/-- A message that is delivered again after its lease has expired. -/
def late : QueueCourse := run 50 toString [.sendText "a", .receive 1 0, .pass 50, .receive 1 0]

theorem late_redelivered :
    Function.Injective (toString : Nat → String) ∧
      ((late.handingsOf "0").map fun h => (h.token, h.delivery.count)) = [("0", 1), ("1", 2)] ∧
      (¬ ∃ h, late.Lasts h ∧ h.token = "0") ∧ ∃ h, late.Lasts h ∧ h.token = "1" := by
  have hhanded : ((late.handingsOf "0").map fun h => (h.token, h.delivery.count)) =
      [("0", 1), ("1", 2)] := rfl
  obtain ⟨-, -, -, -, hacknowledge, -⟩ := @latest_delivery_acknowledges 50 _ decimal_injective
    [.sendText "a", .receive 1 0, .pass 50, .receive 1 0]
  refine ⟨decimal_injective, hhanded, ?_, (hacknowledge "1").mp ⟨_, rfl⟩⟩
  intro hlasts
  obtain ⟨q, hq⟩ := (hacknowledge "0").mpr hlasts
  cases hq

end QueueCourse

end AuditTrail

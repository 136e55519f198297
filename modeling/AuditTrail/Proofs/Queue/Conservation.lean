import AuditTrail.Proofs.Queue.Entries
/-!
# Nothing is lost or doubled

`QueueCourse.nothing_lost_or_doubled`: whatever is done to a queue, the texts on it are those that were sent
without those that were acknowledged, no entry is handed out twice at a time, and entries are handed out for
the first time in the order in which they were sent.
-/

namespace AuditTrail

namespace QueueLedger

variable {l l' : QueueLedger} {e : QueueEvent}

/-- Deliveries have the texts that were sent under their names. -/
def Faithful (l : QueueLedger) : Prop :=
  ∀ h ∈ l.handings, (∃ n < l.sent.length, h.name = toString n) ∧ h.delivery.body = l.text h.name

theorem Sound.named (h : l.Sound) {b : String} (hb : b ∈ l.names.bodies) :
    ∃ n < l.sent.length, b = toString n := by
  have hmem := h.entries.mem_iff.mp (List.mem_append_left _ hb)
  obtain ⟨n, hn, rfl⟩ := List.mem_map.mp hmem
  exact ⟨n, List.mem_range.mp hn, rfl⟩

theorem Sound.nodup (h : l.Sound) : (l.names.bodies ++ l.removed.map Handing.name).Nodup :=
  h.entries.nodup_iff.mpr (List.nodup_range.map decimal_injective)

theorem Faithful.step (hl : l.Faithful) (h : l.Sound) (hstep : l.Step l') : l'.Faithful := by
  have hsame (hsent : l'.sent = l.sent) (hhandings : l'.handings = l.handings) : l'.Faithful := by
    intro x hx
    rw [hsent, text_congr hsent]
    exact hl x (hhandings ▸ hx)
  cases hstep with
  | send body =>
    have hsent : (l.send body).sent = l.sent ++ [body] := sent_of_event (e := .sent body) rfl
    intro x hx
    rw [handings_of_event_none (l := l) (e := .sent body) rfl rfl] at hx
    obtain ⟨⟨n, hn, hname⟩, hbody⟩ := hl x hx
    refine ⟨⟨n, ?_, hname⟩, ?_⟩
    · rw [hsent, List.length_append]
      exact Nat.lt_add_right 1 hn
    · rw [hbody, hname, text_of_sent hsent hn]
  | @hand entry rest hready =>
    have hsent : (l.hand entry rest).sent = l.sent :=
      sent_of_event_none (e := .handed (l.handing entry)) rfl rfl
    intro x hx
    rw [hsent, text_hand]
    rw [handings_of_event (l := l) (e := .handed (l.handing entry)) rfl] at hx
    rcases List.mem_append.mp hx with hold | hnew
    · exact hl x hold
    · obtain rfl : x = l.handing entry := List.mem_singleton.mp hnew
      refine ⟨h.named ?_, rfl⟩
      simp [Queue.bodies, hready, handing]
  | pass => exact hl
  | favour => exact hl
  | _ => exact hsame (sent_of_event_none rfl rfl) (handings_of_event_none rfl rfl)

/-- Each acknowledgement was for one delivery. -/
def Counted (l : QueueLedger) : Prop := l.removed.length = l.acknowledged.length

theorem Counted.step (hl : l.Counted) (h : l.Sound) (hstep : l.Step l') : l'.Counted := by
  have hsame (hremoved : l'.removed = l.removed) (hacknowledged : l'.acknowledged = l.acknowledged) :
      l'.Counted := by
    rw [Counted, hremoved, hacknowledged]
    exact hl
  cases hstep with
  | hand hready => exact hsame (h.removed_hand _ _) (acknowledged_of_event_none rfl rfl)
  | @acknowledge x hx =>
    obtain ⟨y, hlasts, rfl⟩ := (h.leased x).mp hx
    have hevents : (l.remove y.token).events = l.events ++ [.acknowledged y.token] := rfl
    have hremoved := h.removed_perm hlasts.mem_handings (h.not_acknowledged hx) hevents
    have hacknowledged : (l.remove y.token).acknowledged = l.acknowledged ++ [y.token] :=
      acknowledged_of_event (e := .acknowledged y.token) rfl
    change (l.remove y.token).Counted
    rw [Counted, hremoved.length_eq, hacknowledged, List.length_cons, hl, List.length_append,
      List.length_singleton]
  | pass => exact hl
  | favour => exact hl
  | _ => exact hsame (removed_of_event_none rfl rfl rfl) (acknowledged_of_event_none rfl rfl)

/-- The entries that were handed out, in the order of their first deliveries, and then those that are ready
for theirs, are those that were sent. -/
def Ordered (l : QueueLedger) : Prop :=
  (l.handings.map Handing.name).eraseDups ++
      (l.names.ready.map QueueEntry.body).filter (fun name => name ∉ l.handings.map Handing.name) =
    (List.range l.sent.length).map toString

private theorem Ordered.of_again (hl : l.Ordered) (hevents : l'.events = l.events ++ [e])
    (hsent : e.sent? = none) (hhanding : e.handing? = none) (again : List String)
    (hready : l'.names.ready.map QueueEntry.body = l.names.ready.map QueueEntry.body ++ again)
    (hagain : ∀ name ∈ again, name ∈ l.handings.map Handing.name) : l'.Ordered := by
  have hnone : again.filter (fun name => name ∉ l.handings.map Handing.name) = [] := by
    apply List.filter_eq_nil_iff.mpr
    intro name hname
    simpa using hagain name hname
  rw [Ordered, sent_of_event_none hevents hsent, handings_of_event_none hevents hhanding, hready,
    List.filter_append, hnone, List.append_nil]
  exact hl

private theorem Ordered.hand (hl : l.Ordered) (h : l.Sound) {entry : QueueEntry} {rest : List QueueEntry}
    (hready : l.names.ready = entry :: rest) : (l.hand entry rest).Ordered := by
  have hsent : (l.hand entry rest).sent = l.sent :=
    sent_of_event_none (e := .handed (l.handing entry)) rfl rfl
  have hhandings : (l.hand entry rest).handings.map Handing.name =
      l.handings.map Handing.name ++ [entry.body] := by
    rw [handings_of_event (l := l) (e := .handed (l.handing entry)) rfl, List.map_append]
    rfl
  have hrest : (l.hand entry rest).names.ready = rest := rfl
  have honce : entry.body ∉ rest.map QueueEntry.body := by
    have hnodup := h.nodup.of_append_left.of_append_left
    rw [hready, List.map_cons, List.nodup_cons] at hnodup
    exact hnodup.1
  have hothers : (rest.map QueueEntry.body).filter
        (fun name => name ∉ l.handings.map Handing.name ++ [entry.body]) =
      (rest.map QueueEntry.body).filter (fun name => name ∉ l.handings.map Handing.name) := by
    apply List.filter_congr
    intro name hname
    have hne : name ≠ entry.body := fun heq => honce (heq ▸ hname)
    simp [hne]
  rw [Ordered, hready, List.map_cons] at hl
  rw [Ordered, hsent, hhandings, hrest, hothers, List.eraseDups_append, List.removeAll, ← hl]
  generalize l.handings.map Handing.name = handed
  by_cases hold : entry.body ∈ handed
  · simp [hold]
  · simp [hold, List.eraseDups_cons]

theorem Ordered.step (hl : l.Ordered) (h : l.Sound) (hf : l.Faithful) (hstep : l.Step l') :
    l'.Ordered := by
  have hleased : ∀ x ∈ l.names.leased, x.entry.body ∈ l.handings.map Handing.name := by
    intro x hx
    obtain ⟨y, hlasts, rfl⟩ := (h.leased x).mp hx
    exact List.mem_map_of_mem hlasts.mem_handings
  cases hstep with
  | send body =>
    have hsent : (l.send body).sent = l.sent ++ [body] := sent_of_event (e := .sent body) rfl
    have hhandings : (l.send body).handings = l.handings :=
      handings_of_event_none (e := .sent body) rfl rfl
    have hready : (l.send body).names.ready.map QueueEntry.body =
        l.names.ready.map QueueEntry.body ++ [toString l.sent.length] := by
      simp [send, Queue.sendText]
    have hnew : toString l.sent.length ∉ l.handings.map Handing.name := by
      intro hmem
      obtain ⟨x, hx, hname⟩ := List.mem_map.mp hmem
      obtain ⟨⟨n, hn, heq⟩, -⟩ := hf x hx
      have hsame := decimal_injective (heq.symm.trans hname)
      omega
    have hlast : [toString l.sent.length].filter (fun name => name ∉ l.handings.map Handing.name) =
        [toString l.sent.length] := List.filter_eq_self.mpr (by simpa using hnew)
    rw [Ordered, hsent, hhandings, hready, List.filter_append, hlast, ← List.append_assoc, hl,
      List.length_append, List.length_singleton, List.range_succ, List.map_append]
    rfl
  | look =>
    let ended := l.names.leased.filter fun x => x.expiresAt ≤ l.clock
    refine hl.of_again rfl rfl rfl (ended.map fun x => x.entry.body) ?_ ?_
    · simp [look, Queue.reclaim_eq, ended]
    · intro name hname
      obtain ⟨x, hx, rfl⟩ := List.mem_map.mp hname
      exact hleased x (List.mem_filter.mp hx).1
  | @hand entry rest hready => exact hl.hand h hready
  | acknowledge hx => exact hl.of_again rfl rfl rfl [] (List.append_nil _).symm (by simp)
  | release =>
    refine hl.of_again rfl rfl rfl (l.names.leased.map fun x => x.entry.body) ?_ ?_
    · simp [Queue.releaseAll]
    · intro name hname
      obtain ⟨x, hx, rfl⟩ := List.mem_map.mp hname
      exact hleased x hx
  | pass => exact hl
  | favour => exact hl

end QueueLedger

/-! ## One receive -/

namespace Queue

private theorem length_take_le (q : Queue) (max now : Nat) : (q.take max now).1.length ≤ Nat.max max 1 := by
  have hlength := congrArg List.length (bodies_lease (q.reclaim now) (Nat.max max 1) now)
  rw [List.length_map, List.length_take] at hlength
  rw [take, hlength]
  exact Nat.min_le_left _ _

private theorem length_receive_le (q : Queue) (max wait now : Nat) :
    (q.receive max wait now).1.1.length ≤ Nat.max max 1 := by
  simp only [receive]
  split
  · exact length_take_le _ max _
  · exact length_take_le q max now

end Queue

namespace QueueLedger.Sound

variable {l : QueueLedger}

private theorem nodup_take (h : l.Sound) (max : Nat) : ((l.names.take max l.clock).1.map Delivery.body).Nodup := by
  have hlook : l.look.Sound := h.step .look
  have hready : (l.look.names.ready.map QueueEntry.body).Nodup := hlook.nodup.of_append_left.of_append_left
  rw [Queue.take, Queue.bodies_lease]
  exact hready.sublist (List.take_sublist _ _)

private theorem nodup_receive (h : l.Sound) (max wait : Nat) :
    ((l.names.receive max wait l.clock).1.1.map Delivery.body).Nodup := by
  simp only [Queue.receive]
  split
  · rename_i hwait
    have hnone : (l.names.take max l.clock).1 = [] := List.isEmpty_iff.mp hwait.1
    have hfirst := h.steps (steps_take l max)
    have hlater := hfirst.step (.pass (Queue.le_wakeAt hnone wait))
    have hnames : (l.afterTake max).names = (l.names.take max l.clock).2 := by rw [afterTake_eq]
    have hsecond := hlater.nodup_take max
    simp only [passTo, hnames] at hsecond
    exact hsecond
  · exact h.nodup_take max

end QueueLedger.Sound

namespace QueueCourse

/-- Whatever is done to a queue, the texts on it are those that were sent without those that were
acknowledged. The names of the entries tell them apart: no receive hands out more than it may or an entry
twice, and in the order of their first deliveries the entries are the first ones that were sent. -/
theorem nothing_lost_or_doubled {visibility : Nat} {tokens : Nat → String}
    (htokens : Function.Injective tokens) (moves : List QueueMove) :
    let c := run visibility tokens moves
    (c.queue.bodies ++ c.removed.map fun h => h.delivery.body).Perm c.sent ∧
      c.queue.depth + c.acknowledged.length = c.sent.length ∧
      c.queue = c.names.relabel c.text ∧
      (∀ max wait,
        let named := (c.names.receive max wait c.clock).1.1
        (c.queue.receive max wait c.clock).1.1 = named.map (Delivery.relabel c.text) ∧
          named.length ≤ Nat.max max 1 ∧ (named.map Delivery.body).Nodup) ∧
      (∀ h ∈ c.handings, h.delivery.body = c.text h.name) ∧
      (c.handings.map Handing.name).eraseDups <+: (List.range c.sent.length).map toString := by
  intro c
  have hlinked : c.Linked := Linked.run visibility htokens moves
  obtain ⟨hsound, hfaithful, hcounted, hordered⟩ :
      c.Sound ∧ c.Faithful ∧ c.Counted ∧ c.Ordered := by
    apply run_invariant (P := fun l => l.Faithful ∧ l.Counted ∧ l.Ordered) htokens
    · exact ⟨by simp [QueueLedger.Faithful, new, QueueLedger.handings], rfl, rfl⟩
    · rintro l l' hs hstep ⟨hf, hc, ho⟩
      exact ⟨hf.step hs hstep, hc.step hs hstep, ho.step hs hf hstep⟩
  have hbodies := hsound.entries.map c.text
  have htexts : (List.range c.sent.length).map (fun n => c.text (toString n)) = c.sent := by
    apply List.ext_getElem
    · simp
    · intro n hn hn'
      rw [List.getElem_map, List.getElem_range, QueueLedger.text_decimal, List.getElem?_eq_getElem hn']
      rfl
  have hremoved : c.removed.map (fun h => c.text h.name) = c.removed.map fun h => h.delivery.body := by
    apply List.map_congr_left
    intro h hh
    exact (hfaithful h (List.mem_filter.mp hh).1).2.symm
  refine ⟨?_, ?_, hlinked.queue, ?_, fun h hh => (hfaithful h hh).2, ?_⟩
  · rw [hlinked.queue, Queue.bodies_relabel, ← hremoved, ← htexts]
    simpa [Function.comp_def] using hbodies
  · have hlength := hsound.entries.length_eq
    rw [hlinked.queue, Queue.depth_relabel, ← hcounted]
    simpa [Queue.bodies, Queue.depth, Nat.add_assoc] using hlength
  · intro max wait
    refine ⟨?_, Queue.length_receive_le _ max wait _, hsound.nodup_receive max wait⟩
    rw [hlinked.queue, Queue.receive_relabel]
  · exact ⟨_, hordered⟩

/-- Two messages with the same text. Leases do not last, so the first one is ready again behind the second,
which is acknowledged. -/
def twins : QueueCourse :=
  run 0 toString [.sendText "a", .sendText "a", .receive 1 0, .receive 5 0, .acknowledge "1"]

theorem twins_told_apart :
    Function.Injective (toString : Nat → String) ∧
      twins.handings.map Handing.name = ["0", "1", "0"] ∧ twins.queue.bodies = ["a"] ∧
      (twins.queue.bodies ++ twins.removed.map fun h => h.delivery.body).Perm ["a", "a"] ∧
      (twins.handings.map Handing.name).eraseDups <+: ["0", "1"] := by
  have hnames : twins.handings.map Handing.name = ["0", "1", "0"] := rfl
  have hqueue : twins.queue.bodies = ["a"] := rfl
  obtain ⟨hbodies, -, -, -, -, hordered⟩ := @nothing_lost_or_doubled 0 _ decimal_injective
    [.sendText "a", .sendText "a", .receive 1 0, .receive 5 0, .acknowledge "1"]
  exact ⟨decimal_injective, hnames, hqueue, hbodies, hordered⟩

end QueueCourse

end AuditTrail

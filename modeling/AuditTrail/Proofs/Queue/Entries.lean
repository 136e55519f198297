import AuditTrail.Proofs.Queue.Steps
import Mathlib.Data.List.Nodup
/-!
# The entries of a queue

`QueueLedger.Sound` is what every step keeps: each delivery has a token of its own, the leases are those that
deliveries came with and that nothing has ended, and each entry that was sent is ready, leased or removed,
and only one of these.
-/

namespace AuditTrail

namespace QueueLedger

variable {l l' : QueueLedger} {e : QueueEvent}

/-! ## What an event adds to the account -/

theorem sent_of_event (h : l'.events = l.events ++ [e]) : l'.sent = l.sent ++ e.sent?.toList := by
  rw [sent, h, List.filterMap_append, sent]
  cases hsent : e.sent? <;> simp [hsent]

theorem handings_of_event (h : l'.events = l.events ++ [e]) :
    l'.handings = l.handings ++ e.handing?.toList := by
  rw [handings, h, List.filterMap_append, handings]
  cases hhanding : e.handing? <;> simp [hhanding]

theorem acknowledged_of_event (h : l'.events = l.events ++ [e]) :
    l'.acknowledged = l.acknowledged ++ e.acknowledged?.toList := by
  rw [acknowledged, h, List.filterMap_append, acknowledged]
  cases hacknowledged : e.acknowledged? <;> simp [hacknowledged]

theorem sent_of_event_none (hevents : l'.events = l.events ++ [e]) (he : e.sent? = none) :
    l'.sent = l.sent := by
  rw [sent_of_event hevents, he, Option.toList_none, List.append_nil]

theorem handings_of_event_none (hevents : l'.events = l.events ++ [e]) (he : e.handing? = none) :
    l'.handings = l.handings := by
  rw [handings_of_event hevents, he, Option.toList_none, List.append_nil]

theorem acknowledged_of_event_none (hevents : l'.events = l.events ++ [e]) (he : e.acknowledged? = none) :
    l'.acknowledged = l.acknowledged := by
  rw [acknowledged_of_event hevents, he, Option.toList_none, List.append_nil]

theorem removed_of_event_none (hevents : l'.events = l.events ++ [e]) (hhanding : e.handing? = none)
    (hacknowledged : e.acknowledged? = none) : l'.removed = l.removed := by
  rw [removed, handings_of_event_none hevents hhanding, acknowledged_of_event_none hevents hacknowledged,
    removed]

theorem Lasts.mem_handings {h : Handing} (hlasts : l.Lasts h) : h ∈ l.handings := by
  obtain ⟨before, after, hevents, -⟩ := hlasts
  rw [handings, hevents]
  simp [QueueEvent.handing?]

/-- In a list that ends with a new element, an old element has the new one behind it. -/
theorem snoc_eq_append_cons {α : Type} {xs before after : List α} {x y : α} :
    xs ++ [x] = before ++ y :: after ↔
      (after = [] ∧ xs = before ∧ x = y) ∨ ∃ rest, after = rest ++ [x] ∧ xs = before ++ y :: rest := by
  constructor
  · intro h
    rcases List.eq_nil_or_concat after with rfl | ⟨rest, z, rfl⟩
    · obtain ⟨hbefore, hlast⟩ := List.append_inj' h rfl
      exact .inl ⟨rfl, hbefore, List.singleton_inj.mp hlast⟩
    · have hassoc : xs ++ [x] = (before ++ y :: rest) ++ [z] := by simpa using h
      obtain ⟨hxs, hlast⟩ := List.append_inj' hassoc rfl
      exact .inr ⟨rest, by rw [List.singleton_inj.mp hlast]; simp, hxs⟩
  · rintro (⟨rfl, rfl, rfl⟩ | ⟨rest, rfl, rfl⟩)
    · rfl
    · simp

private theorem lasts_of_event (hevents : l'.events = l.events ++ [e])
    (hvisibility : l'.names.visibility = l.names.visibility) (h : Handing) :
    l'.Lasts h ↔ (l.Lasts h ∧ ¬ e.Ends (h.lease l.names.visibility)) ∨ e = .handed h := by
  simp only [Lasts, hevents, hvisibility, snoc_eq_append_cons]
  constructor
  · rintro ⟨before, after, ⟨rfl, rfl, rfl⟩ | ⟨rest, rfl, hrest⟩, hkept⟩
    · exact .inr rfl
    · refine .inl ⟨⟨before, rest, hrest, ?_⟩, hkept e (by simp)⟩
      intro e' he'
      exact hkept e' (List.mem_append_left _ he')
  · rintro (⟨⟨before, rest, hrest, hkept⟩, hnew⟩ | rfl)
    · refine ⟨before, rest ++ [e], .inr ⟨rest, rfl, hrest⟩, ?_⟩
      intro e' he'
      rcases List.mem_append.mp he' with hold | hlast
      · exact hkept e' hold
      · rwa [List.mem_singleton.mp hlast]
    · exact ⟨l.events, [], .inl ⟨rfl, rfl, rfl⟩, by simp⟩

private theorem filter_eq_singleton {α β : Type} [DecidableEq β] {f : α → β} {xs : List α}
    (h : (xs.map f).Nodup) {x : α} (hx : x ∈ xs) : (xs.filter fun y => decide (f y = f x)) = [x] := by
  induction xs with
  | nil => cases hx
  | cons y ys ih =>
    rw [List.map_cons, List.nodup_cons] at h
    rcases List.mem_cons.mp hx with rfl | hmem
    · rw [List.filter_cons_of_pos (by simp), List.filter_eq_nil_iff.mpr]
      intro z hz heq
      exact h.1 (List.mem_map.mpr ⟨z, hz, by simpa using heq⟩)
    · have hne : f y ≠ f x := fun heq => h.1 (heq ▸ List.mem_map_of_mem hmem)
      rw [List.filter_cons_of_neg (by simpa using hne), ih h.2 hmem]

/-! ## What every step keeps -/

structure Sound (l : QueueLedger) : Prop where
  injective : Function.Injective l.names.tokens
  tokens : l.handings.map Handing.token = (List.range l.names.issued).map l.names.tokens
  leased : ∀ x, x ∈ l.names.leased ↔ ∃ h, l.Lasts h ∧ x = h.lease l.names.visibility
  distinct : (l.names.leased.map QueueLease.token).Nodup
  acknowledged : ∀ t ∈ l.acknowledged,
    t ∈ l.handings.map Handing.token ∧ t ∉ l.names.leased.map QueueLease.token
  /-- An entry is ready, leased or removed. -/
  entries : (l.names.bodies ++ l.removed.map Handing.name).Perm
    ((List.range l.sent.length).map toString)

namespace Sound

theorem new (visibility : Nat) {tokens : Nat → String} (h : Function.Injective tokens) :
    (QueueCourse.new visibility tokens).Sound where
  injective := h
  tokens := rfl
  leased := by simp [QueueCourse.new, Queue.new, Lasts]
  distinct := by simp [QueueCourse.new, Queue.new]
  acknowledged := by simp [QueueCourse.new, QueueLedger.acknowledged]
  entries := List.Perm.refl _

private theorem token_fresh (h : l.Sound) : l.names.tokens l.names.issued ∉ l.handings.map Handing.token := by
  rw [h.tokens, List.mem_map]
  rintro ⟨i, hi, heq⟩
  have hsame := h.injective heq
  have hlt := List.mem_range.mp hi
  omega

theorem not_acknowledged (h : l.Sound) {x : QueueLease} (hx : x ∈ l.names.leased) :
    x.token ∉ l.acknowledged :=
  fun hmem => (h.acknowledged _ hmem).2 (List.mem_map_of_mem hx)

private theorem token_of_leased (h : l.Sound) {x : QueueLease} (hx : x ∈ l.names.leased) :
    x.token ∈ l.handings.map Handing.token := by
  obtain ⟨y, hlasts, rfl⟩ := (h.leased x).mp hx
  exact List.mem_map_of_mem hlasts.mem_handings

private theorem tokens_step (h : l.Sound) (hstep : l.Step l') :
    l'.handings.map Handing.token = (List.range l'.names.issued).map l'.names.tokens := by
  cases hstep with
  | hand hready =>
    rw [handings_of_event rfl, List.map_append, h.tokens]
    change _ = (List.range (l.names.issued + 1)).map l.names.tokens
    rw [List.range_succ, List.map_append]
    rfl
  | pass => exact h.tokens
  | favour => exact h.tokens
  | _ =>
    rw [handings_of_event_none rfl rfl]
    exact h.tokens

private theorem leased_of_event (h : l.Sound) (hevents : l'.events = l.events ++ [e])
    (hvisibility : l'.names.visibility = l.names.visibility)
    (hleased : ∀ x, x ∈ l'.names.leased ↔
      (x ∈ l.names.leased ∧ ¬ e.Ends x) ∨ ∃ y, e = .handed y ∧ x = y.lease l.names.visibility)
    (x : QueueLease) :
    x ∈ l'.names.leased ↔ ∃ y, l'.Lasts y ∧ x = y.lease l'.names.visibility := by
  simp only [hleased, h.leased, lasts_of_event hevents hvisibility, hvisibility]
  constructor
  · rintro (⟨⟨y, hlasts, rfl⟩, hends⟩ | ⟨y, hhanded, rfl⟩)
    · exact ⟨y, .inl ⟨hlasts, hends⟩, rfl⟩
    · exact ⟨y, .inr hhanded, rfl⟩
  · rintro ⟨y, ⟨hlasts, hends⟩ | hhanded, rfl⟩
    · exact .inl ⟨⟨y, hlasts, rfl⟩, hends⟩
    · exact .inr ⟨y, hhanded, rfl⟩

private theorem leased_step (h : l.Sound) (hstep : l.Step l') :
    ∀ x, x ∈ l'.names.leased ↔ ∃ y, l'.Lasts y ∧ x = y.lease l'.names.visibility := by
  cases hstep with
  | send body =>
    refine h.leased_of_event rfl rfl ?_
    simp [QueueEvent.Ends, send, Queue.sendText]
  | look =>
    refine h.leased_of_event rfl rfl ?_
    simp [QueueEvent.Ends, look, Queue.reclaim_eq]
  | @hand entry rest hready =>
    refine h.leased_of_event rfl rfl ?_
    simp [QueueEvent.Ends, hand, handing, Queue.leaseFirst, Handing.lease, Handing.token]
  | acknowledge hx =>
    refine h.leased_of_event rfl rfl ?_
    simp [QueueEvent.Ends, remove]
  | release =>
    refine h.leased_of_event rfl rfl ?_
    simp [QueueEvent.Ends, Queue.releaseAll]
  | pass => exact h.leased
  | favour i =>
    intro x
    rw [(Queue.favour_perm l.names i).mem_iff]
    exact h.leased x

private theorem distinct_step (h : l.Sound) (hstep : l.Step l') :
    (l'.names.leased.map QueueLease.token).Nodup := by
  have hfilter (p : QueueLease → Bool) : ((l.names.leased.filter p).map QueueLease.token).Nodup :=
    h.distinct.sublist (List.filter_sublist.map QueueLease.token)
  cases hstep with
  | look =>
    rw [look, Queue.reclaim_eq]
    exact hfilter _
  | hand hready =>
    change (List.map QueueLease.token (l.names.leased ++ [_])).Nodup
    rw [List.map_append, List.nodup_append]
    refine ⟨h.distinct, List.nodup_singleton _, ?_⟩
    intro t ht t' ht' heq
    obtain ⟨x, hx, rfl⟩ := List.mem_map.mp ht
    have hnew : t' = l.names.tokens l.names.issued := List.mem_singleton.mp ht'
    exact h.token_fresh (hnew ▸ heq ▸ h.token_of_leased hx)
  | acknowledge hx => exact hfilter _
  | release => exact List.nodup_nil
  | favour i => exact ((Queue.favour_perm l.names i).map _).nodup_iff.mpr h.distinct
  | _ => exact h.distinct

private theorem acknowledged_of_leased (h : l.Sound) (hevents : l'.events = l.events ++ [e])
    (he : e.acknowledged? = none)
    (hleased : ∀ x ∈ l'.names.leased, x ∈ l.names.leased ∨ x.token ∉ l.handings.map Handing.token) :
    ∀ t ∈ l'.acknowledged,
      t ∈ l'.handings.map Handing.token ∧ t ∉ l'.names.leased.map QueueLease.token := by
  intro t ht
  rw [acknowledged_of_event_none hevents he] at ht
  obtain ⟨hhanded, hended⟩ := h.acknowledged t ht
  rw [handings_of_event hevents, List.map_append]
  refine ⟨List.mem_append_left _ hhanded, ?_⟩
  intro hmem
  obtain ⟨x, hx, rfl⟩ := List.mem_map.mp hmem
  rcases hleased x hx with hold | hnew
  · exact hended (List.mem_map_of_mem hold)
  · exact hnew hhanded

private theorem acknowledged_step (h : l.Sound) (hstep : l.Step l') :
    ∀ t ∈ l'.acknowledged,
      t ∈ l'.handings.map Handing.token ∧ t ∉ l'.names.leased.map QueueLease.token := by
  cases hstep with
  | send body => exact h.acknowledged_of_leased rfl rfl fun x hx => .inl hx
  | look =>
    refine h.acknowledged_of_leased rfl rfl ?_
    intro x hx
    rw [look, Queue.reclaim_eq] at hx
    exact .inl (List.mem_filter.mp hx).1
  | hand hready =>
    refine h.acknowledged_of_leased rfl rfl ?_
    intro x hx
    rcases List.mem_append.mp hx with hold | hnew
    · exact .inl hold
    · rw [List.mem_singleton.mp hnew]
      exact .inr h.token_fresh
  | @acknowledge x hx =>
    intro t ht
    rw [acknowledged_of_event rfl] at ht
    rw [handings_of_event_none rfl rfl]
    rcases List.mem_append.mp ht with hold | hnew
    · obtain ⟨hhanded, hended⟩ := h.acknowledged t hold
      refine ⟨hhanded, ?_⟩
      intro hmem
      exact hended (List.map_subset _ (List.filter_subset_self _) hmem)
    · obtain rfl : t = x.token := List.mem_singleton.mp hnew
      refine ⟨h.token_of_leased hx, ?_⟩
      simp [remove]
  | release => exact h.acknowledged_of_leased rfl rfl fun x hx => by cases hx
  | pass => exact h.acknowledged
  | favour i =>
    intro t ht
    rw [((Queue.favour_perm l.names i).map _).mem_iff]
    exact h.acknowledged t ht

theorem leased_perm (h : l.Sound) {x : QueueLease} (hx : x ∈ l.names.leased) :
    l.names.leased.Perm (x :: l.names.leased.filter fun y => y.token ≠ x.token) := by
  have hsplit := List.filter_append_perm (fun y => decide (y.token = x.token)) l.names.leased
  rw [filter_eq_singleton h.distinct hx] at hsplit
  simpa using hsplit.symm

theorem removed_perm (h : l.Sound) {y : Handing} (hy : y ∈ l.handings)
    (hnew : y.token ∉ l.acknowledged) (hevents : l'.events = l.events ++ [.acknowledged y.token]) :
    l'.removed.Perm (y :: l.removed) := by
  have hnodup : (l.handings.map Handing.token).Nodup := by
    rw [h.tokens]
    exact List.nodup_range.map h.injective
  have hhandings := handings_of_event_none hevents rfl
  have hacknowledged : l'.acknowledged = l.acknowledged ++ [y.token] := acknowledged_of_event hevents
  have hsplit := List.filter_append_perm (fun z => decide (z.token = y.token)) l'.removed
  have hfirst : (l'.removed.filter fun z => decide (z.token = y.token)) = [y] := by
    rw [removed, hhandings, hacknowledged, List.filter_filter, ← filter_eq_singleton hnodup hy]
    apply List.filter_congr
    intro z hz
    by_cases heq : z.token = y.token <;> simp [heq]
  have hrest : (l'.removed.filter fun z => !decide (z.token = y.token)) = l.removed := by
    rw [removed, hhandings, hacknowledged, List.filter_filter, removed]
    apply List.filter_congr
    intro z hz
    by_cases heq : z.token = y.token
    · simp [heq, hnew]
    · simp [heq]
  rw [hfirst, hrest] at hsplit
  exact hsplit.symm

theorem removed_hand (h : l.Sound) (entry : QueueEntry) (rest : List QueueEntry) :
    (l.hand entry rest).removed = l.removed := by
  have hnew : (l.handing entry).token ∉ l.acknowledged :=
    fun hmem => h.token_fresh (h.acknowledged _ hmem).1
  have hhandings : (l.hand entry rest).handings = l.handings ++ [l.handing entry] :=
    handings_of_event (e := .handed (l.handing entry)) rfl
  have hacknowledged : (l.hand entry rest).acknowledged = l.acknowledged :=
    acknowledged_of_event_none (e := .handed (l.handing entry)) rfl rfl
  rw [removed, hhandings, hacknowledged, List.filter_append, removed]
  simp [hnew]

private theorem entries_of_perm (h : l.Sound) (hevents : l'.events = l.events ++ [e])
    (hsent : e.sent? = none) (hremoved : l'.removed = l.removed)
    (hbodies : l'.names.bodies.Perm l.names.bodies) :
    (l'.names.bodies ++ l'.removed.map Handing.name).Perm ((List.range l'.sent.length).map toString) := by
  rw [sent_of_event_none hevents hsent, hremoved]
  exact (hbodies.append_right _).trans h.entries

private theorem entries_step (h : l.Sound) (hstep : l.Step l') :
    (l'.names.bodies ++ l'.removed.map Handing.name).Perm ((List.range l'.sent.length).map toString) := by
  cases hstep with
  | send body =>
    have hsent : (l.send body).sent = l.sent ++ [body] := sent_of_event (e := .sent body) rfl
    have hremoved : (l.send body).removed = l.removed :=
      removed_of_event_none (e := .sent body) rfl rfl rfl
    rw [hsent, hremoved, List.length_append, List.length_singleton, List.range_succ, List.map_append]
    refine List.Perm.trans ?_ (h.entries.append_right _)
    have hlast : ([toString l.sent.length] ++ (l.names.leased.map (fun x => x.entry.body) ++
        l.removed.map Handing.name)).Perm
          ((l.names.leased.map (fun x => x.entry.body) ++ l.removed.map Handing.name) ++
            [toString l.sent.length]) := List.perm_append_comm
    have hready := hlast.append_left (l.names.ready.map QueueEntry.body)
    simpa only [send, Queue.bodies, Queue.sendText, List.map_append, List.map_cons, List.map_nil,
      List.append_assoc] using hready
  | look =>
    refine h.entries_of_perm rfl rfl (removed_of_event_none rfl rfl rfl) ?_
    have hsplit := List.filter_append_perm (fun x : QueueLease => decide (x.expiresAt ≤ l.clock))
      l.names.leased
    have hbodies := hsplit.map fun x => x.entry.body
    simp only [look, Queue.reclaim_eq, Queue.bodies, List.map_append, List.map_map, List.append_assoc]
    refine List.Perm.append_left _ ?_
    simpa [Function.comp_def] using hbodies
  | @hand entry rest hready =>
    refine h.entries_of_perm rfl rfl (h.removed_hand entry rest) ?_
    simp only [hand, Queue.leaseFirst, Queue.bodies, hready, List.map_append, List.map_cons, List.map_nil]
    rw [← List.append_assoc]
    exact List.perm_append_comm
  | @acknowledge x hx =>
    obtain ⟨y, hlasts, rfl⟩ := (h.leased x).mp hx
    have hevents : (l.remove y.token).events = l.events ++ [.acknowledged y.token] := rfl
    have hremoved := (h.removed_perm hlasts.mem_handings (h.not_acknowledged hx) hevents).map Handing.name
    have hbodies := (h.leased_perm hx).map fun z => z.entry.body
    have hsent : (l.remove y.token).sent = l.sent :=
      sent_of_event_none (e := .acknowledged y.token) rfl rfl
    change (Queue.bodies _ ++ List.map Handing.name (l.remove y.token).removed).Perm
      (List.map toString (List.range (l.remove y.token).sent.length))
    rw [hsent]
    refine List.Perm.trans ?_ h.entries
    simp only [remove, Queue.bodies, List.append_assoc]
    refine List.Perm.append_left _ ?_
    refine (hremoved.append_left _).trans ?_
    refine List.Perm.trans ?_ (hbodies.symm.append_right _)
    simp only [List.map_cons]
    exact List.perm_middle
  | release =>
    refine h.entries_of_perm rfl rfl (removed_of_event_none rfl rfl rfl) ?_
    simp [Queue.bodies, Queue.releaseAll, Function.comp_def]
  | pass => exact h.entries
  | favour i =>
    exact (((Queue.favour_perm l.names i).map _).append_left _ |>.append_right _).trans h.entries

theorem step (h : l.Sound) (hstep : l.Step l') : l'.Sound where
  injective := by
    cases hstep <;> exact h.injective
  tokens := h.tokens_step hstep
  leased := h.leased_step hstep
  distinct := h.distinct_step hstep
  acknowledged := h.acknowledged_step hstep
  entries := h.entries_step hstep

theorem steps (h : l.Sound) (hsteps : l.Steps l') : l'.Sound := by
  induction hsteps with
  | refl => exact h
  | tail _ hlast ih => exact ih.step hlast

end Sound

end QueueLedger

namespace QueueCourse

/-- What is so at first, and what every step keeps, is so in every course. -/
theorem run_invariant {visibility : Nat} {tokens : Nat → String} (htokens : Function.Injective tokens)
    {P : QueueLedger → Prop} (hnew : P (new visibility tokens).toQueueLedger)
    (hstep : ∀ l l', l.Sound → l.Step l' → P l → P l') (moves : List QueueMove) :
    (run visibility tokens moves).Sound ∧ P (run visibility tokens moves).toQueueLedger := by
  have hsteps := steps_run visibility htokens moves
  generalize (run visibility tokens moves).toQueueLedger = l at hsteps ⊢
  induction hsteps with
  | refl => exact ⟨.new visibility htokens, hnew⟩
  | tail _ hlast ih => exact ⟨ih.1.step hlast, hstep _ _ ih.1 hlast ih.2⟩

end QueueCourse

end AuditTrail

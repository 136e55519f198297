import AuditTrail.Proofs.Pipeline.Changes
import Mathlib.Data.List.DropRight
import Mathlib.Data.List.TakeWhile
/-!
# Names of tenants

The name that a request asks for is checked before it loses the blanks at its ends. So the name of a
registered tenant has no blanks at its ends and is not too long, but it is empty if nothing else was asked for
than blanks.
-/

namespace AuditTrail

/-! ## Texts without blanks at their ends -/

namespace Text

variable {cs : List Char}

private theorem head?_trimLeft {c : Char} (h : (trimLeft cs).head? = some c) : isBlank c = false := by
  have hhead := List.head?_dropWhile_not isBlank cs
  rw [trimLeft] at h
  rw [h] at hhead
  exact hhead

private theorem trimChars_eq (cs : List Char) : trimChars cs = (trimLeft cs).rdropWhile isBlank := rfl

private theorem head?_trimChars {c : Char} (h : (trimChars cs).head? = some c) : isBlank c = false := by
  rw [trimChars_eq] at h
  obtain ⟨dropped, hdropped⟩ := List.rdropWhile_prefix isBlank (trimLeft cs)
  apply head?_trimLeft
  rw [← hdropped, List.head?_append, h]
  rfl

private theorem getLast?_trimChars {c : Char} (h : (trimChars cs).getLast? = some c) : isBlank c = false := by
  rw [trimChars, List.getLast?_reverse] at h
  exact head?_trimLeft h

private theorem length_trimChars_le (cs : List Char) : (trimChars cs).length ≤ cs.length := by
  calc (trimChars cs).length
      ≤ (trimLeft cs).length := (List.rdropWhile_prefix isBlank (trimLeft cs)).length_le
    _ ≤ cs.length := List.length_dropWhile_le isBlank cs

private theorem trimChars_eq_nil_iff : trimChars cs = [] ↔ ∀ c ∈ cs, isBlank c = true := by
  have hnil : trimLeft cs = [] ↔ ∀ c ∈ cs, isBlank c = true := List.dropWhile_eq_nil_iff
  rw [trimChars_eq, List.rdropWhile_eq_nil_iff, ← hnil]
  constructor
  · intro hall
    cases hleft : trimLeft cs with
    | nil => rfl
    | cons c rest =>
      have hblank : isBlank c = true := hall c (by rw [hleft]; exact List.mem_cons_self)
      rw [head?_trimLeft (by rw [hleft]; rfl)] at hblank
      cases hblank
  · intro hleft c hc
    rw [hleft] at hc
    cases hc

theorem trim_eq_empty_iff {s : String} : trim s = "" ↔ blank s = true := by
  rw [trim, ← String.ofList_nil, String.ofList_inj, trimChars_eq_nil_iff, blank, List.all_eq_true]

end Text

namespace Tenant

/-- A name of one to two hundred characters without blanks at its ends. -/
def UsableName (name : String) : Prop :=
  lengthWithin 1 maxNameLength name = true ∧
    (∀ c, name.toList.head? = some c → Text.isBlank c = false) ∧
    ∀ c, name.toList.getLast? = some c → Text.isBlank c = false

private theorem checkName_eq_ok {name : String} :
    checkName name = .ok () ↔ lengthWithin 1 maxNameLength name = true := by
  unfold checkName
  split <;> simp_all

private theorem usableName_trim_iff {name : String} (h : checkName name = .ok ()) :
    UsableName (Text.trim name) ↔ Text.blank name = false := by
  rw [checkName_eq_ok] at h
  rw [← Bool.not_eq_true, ← Text.trim_eq_empty_iff]
  constructor
  · intro husable hempty
    rw [UsableName, hempty] at husable
    exact absurd husable.1 (by decide)
  · intro hne
    have htrim : (Text.trim name).toList = Text.trimChars name.toList := String.toList_ofList
    refine ⟨?_, fun c hc => ?_, fun c hc => ?_⟩
    · have hlength := Text.length_trimChars_le name.toList
      have hpos : (Text.trim name).length ≠ 0 := fun hzero => hne (String.length_eq_zero_iff.mp hzero)
      rw [← htrim, String.length_toList, String.length_toList] at hlength
      simp only [lengthWithin, Bool.and_eq_true, decide_eq_true_eq] at h ⊢
      omega
    · rw [htrim] at hc
      exact Text.head?_trimChars hc
    · rw [htrim] at hc
      exact Text.getLast?_trimChars hc

private theorem register_eq_ok {request : NewTenant} {now : Instant} {freshId keyUuid : String} {t : Tenant}
    (h : register request now freshId keyUuid = .ok t) :
    checkName request.name = .ok () ∧ t.name = Text.trim request.name := by
  obtain ⟨_, hcheck, h⟩ := Failure.bind_eq_ok.mp h
  obtain ⟨id, -, h⟩ := Failure.bind_eq_ok.mp h
  cases h
  exact ⟨hcheck, rfl⟩

end Tenant

/-! ## Managing tenants -/

namespace Pipeline

inductive TenantCall where
  | register (now : Instant) (freshId keyUuid : String) (request : NewTenant)
  | rename (now : Instant) (id : TenantId) (request : TenantUpdate)
  | remove (id : TenantId)

/-- A pipeline, and what name was asked for when a tenant was named last. -/
structure Naming where
  pipeline : Pipeline
  asked : Table TenantId String

namespace Naming

/-- What becomes of them by an action that is to give a tenant a name. -/
def afterNaming (s : Naming) (name : String) (action : Action Tenant) : Naming :=
  match outcome action s.pipeline with
  | (.ok t, p) => ⟨p, s.asked.insert t.id name⟩
  | (.error _, p) => ⟨p, s.asked⟩

def after (s : Naming) : TenantCall → Naming
  | .register now freshId keyUuid request =>
    s.afterNaming request.name (registerTenant now freshId keyUuid request)
  | .rename now id request => s.afterNaming request.name (renameTenant now id request)
  | .remove id => { s with pipeline := (outcome (removeTenant id) s.pipeline).2 }

def afterCalls (s : Naming) (calls : List TenantCall) : Naming := calls.foldl after s

/-- Every registered tenant has the name that was asked for last, which passed the check, without its blanks. -/
def Sound (s : Naming) : Prop :=
  ∀ t ∈ s.pipeline.registry.tenants, ∃ name, s.asked.get? t.id = some name ∧
    Tenant.checkName name = .ok () ∧ t.name = Text.trim name

/-- An action gives a tenant the name that it is to give, and leaves the other tenants alone; or it fails and
leaves all of them alone. -/
def Names (name : String) (action : Action Tenant) (p : Pipeline) : Prop :=
  Ends action p
    (fun t q => Tenant.checkName name = .ok () ∧ t.name = Text.trim name ∧
      ∀ u ∈ q.registry.tenants, u = t ∨ (u ∈ p.registry.tenants ∧ u.id ≠ t.id))
    fun _ q => q.registry = p.registry

private theorem Sound.afterNaming {s : Naming} (h : s.Sound) {name : String} {action : Action Tenant}
    (hnames : Names name action s.pipeline) : (s.afterNaming name action).Sound := by
  unfold Naming.afterNaming
  split
  · rename_i t q hrun
    obtain ⟨hcheck, hname, hothers⟩ := done_of_outcome hnames hrun
    intro u hu
    obtain rfl | ⟨hu, hne⟩ := hothers u hu
    · exact ⟨name, by rw [Table.get?_insert, if_pos rfl], hcheck, hname⟩
    · obtain ⟨asked, hasked, hsound⟩ := h u hu
      exact ⟨asked, by rw [Table.get?_insert, if_neg hne.symm, hasked], hsound⟩
  · rename_i f q hrun
    have hregistry : q.registry = s.pipeline.registry := failed_of_outcome hnames hrun
    intro u hu
    exact h u (hregistry ▸ hu)

private theorem names_registerTenant (now : Instant) (freshId keyUuid : String) (request : NewTenant) (p : Pipeline) :
    Names request.name (registerTenant now freshId keyUuid request) p := by
  refine (ends_registerTenant now freshId keyUuid request p).mono ?_ fun _ _ h => h.registry
  rintro t q ⟨hregister, hcreate, -, -⟩
  obtain ⟨hcheck, hname⟩ := Tenant.register_eq_ok hregister
  refine ⟨hcheck, hname, fun u hu => ?_⟩
  obtain hu | rfl := (Registry.mem_create hcreate).mp hu
  · exact .inr ⟨hu, Registry.id_ne_of_create hcreate hu⟩
  · exact .inl rfl

private theorem names_renameTenant (now : Instant) (id : TenantId) (request : TenantUpdate) (p : Pipeline) :
    Names request.name (renameTenant now id request) p := by
  refine (ends_renameTenant now id request p).mono ?_ fun _ _ h => h.registry
  rintro _ q ⟨hcheck, ⟨old, -, rfl⟩, hupdate, -, -⟩
  exact ⟨hcheck, rfl, fun u hu => (Registry.mem_update hupdate).mp hu⟩

private theorem mem_tenants_removeTenant {id : TenantId} {p : Pipeline} {u : Tenant}
    (h : u ∈ (outcome (removeTenant id) p).2.registry.tenants) : u ∈ p.registry.tenants := by
  revert h
  refine after_of_ends (R := fun q => u ∈ q.registry.tenants → u ∈ p.registry.tenants)
    ((ends_removeTenant id p).mono ?_ fun _ q hq h => hq.registry ▸ h)
  rintro _ q ⟨hdelete, -, -⟩ hu
  have hq : q.registry = (p.registry.delete id).2 := by rw [hdelete]
  rw [hq] at hu
  exact (Registry.mem_delete.mp hu).1

theorem Sound.after {s : Naming} (h : s.Sound) (c : TenantCall) : (s.after c).Sound := by
  cases c with
  | register now freshId keyUuid request =>
    exact h.afterNaming (names_registerTenant now freshId keyUuid request s.pipeline)
  | rename now id request => exact h.afterNaming (names_renameTenant now id request s.pipeline)
  | remove id => exact fun t ht => h t (mem_tenants_removeTenant ht)

theorem Sound.afterCalls {s : Naming} (h : s.Sound) (calls : List TenantCall) : (s.afterCalls calls).Sound := by
  induction calls generalizing s with
  | nil => exact h
  | cons c calls ih => exact ih (h.after c)

/-- What a tenant is called after any calls, whichever seams are out of order, is the name that was asked for
last without the blanks at its ends. It is usable if that name does not consist of blanks, and is empty if it
does: blanks pass the check that an empty name does not pass. -/
theorem names_usable_iff (visibility : Nat) (tokens : Nat → String) (outages : Outages)
    (calls : List TenantCall) :
    let s := afterCalls ⟨{ Pipeline.new visibility tokens with outages }, .empty⟩ calls
    ∀ t ∈ s.pipeline.registry.tenants, ∃ name, s.asked.get? t.id = some name ∧ t.name = Text.trim name ∧
      (Tenant.UsableName t.name ↔ Text.blank name = false) ∧ (t.name = "" ↔ Text.blank name = true) := by
  intro s t ht
  have hnew : Sound ⟨{ Pipeline.new visibility tokens with outages }, .empty⟩ := fun _ hu => nomatch hu
  obtain ⟨name, hasked, hcheck, hname⟩ := hnew.afterCalls calls t ht
  refine ⟨name, hasked, hname, ?_, ?_⟩
  · rw [hname]
    exact Tenant.usableName_trim_iff hcheck
  · rw [hname]
    exact Text.trim_eq_empty_iff

/-- A tenant that was registered by one blank has an empty name. -/
theorem blank_leaves_no_name :
    let s := afterCalls ⟨{ Pipeline.new 30000 toString with outages := .empty }, .empty⟩
      [.register .epoch "f1" "k1" ⟨some "acme", " "⟩]
    ∃ t ∈ s.pipeline.registry.tenants, t.id = .acme ∧ t.name = "" ∧ ¬Tenant.UsableName t.name := by
  intro s
  let t : Tenant := ⟨.acme, "", ApiKey.ofUuid "k1", .epoch, .epoch⟩
  have ht : t ∈ s.pipeline.registry.tenants := List.mem_singleton.mpr rfl
  obtain ⟨name, hasked, -, husable, hempty⟩ := names_usable_iff 30000 toString .empty _ t ht
  have hblank : Text.blank name = true := hempty.mp rfl
  refine ⟨t, ht, rfl, rfl, ?_⟩
  rw [husable, hblank]
  exact Bool.noConfusion

end Naming

end Pipeline

end AuditTrail

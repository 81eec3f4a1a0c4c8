import TigerLang.Proofs.Representation

/-! The steps that compare types, which report something exactly when the rules do not allow what
they are given. -/

namespace TigerLang

def Silent {α : Type} (s : Checker) (x : CheckM α) : Prop := (x.run s).2.diagnostics = s.diagnostics

section silent
variable {α β : Type} {s : Checker}

theorem silent_pure (s : Checker) (a : α) : Silent s (pure a : CheckM α) := rfl

theorem silent_discard {x : CheckM α} : Silent s (discard x : CheckM Unit) ↔ Silent s x := Iff.rfl

theorem not_silent_report (cause : Cause) (position : Position) {x : CheckM α}
    (hs : AllResolved s.types) (hx : OnlyReports x) :
    ¬ Silent s (CheckM.report cause position >>= fun _ => x) := by
  intro h
  set s₁ := ((CheckM.report cause position).run s).2
  have hrest := (hx s₁ hs).diagnostics
  have hsilent : s₁.diagnostics = s.diagnostics :=
    eq_of_between (diagnostics_report cause position s) hrest h
  exact diagnostics_ne_of_report List.prefix_rfl cause position hsilent

theorem silent_bind {x : CheckM α} {f : α → CheckM β}
    (hx : s.diagnostics.toList <+: (x.run s).2.diagnostics.toList)
    (hf : (x.run s).2.diagnostics.toList <+: ((x >>= f).run s).2.diagnostics.toList) :
    Silent s (x >>= f) ↔ Silent s x ∧ Silent (x.run s).2 (f (x.run s).1) := by
  constructor
  · intro h
    have hfirst : (x.run s).2.diagnostics = s.diagnostics := eq_of_between hx hf h
    have hrest : ((x >>= f).run s).2.diagnostics = (x.run s).2.diagnostics := h.trans hfirst.symm
    exact ⟨hfirst, hrest⟩
  · rintro ⟨hfirst, hrest⟩
    have hrest : ((x >>= f).run s).2.diagnostics = (x.run s).2.diagnostics := hrest
    exact hrest.trans hfirst

theorem silent_require {t u : Ty} {position : Position} :
    Silent s (CheckM.require t u position) ↔ t.accepts u = true := by
  unfold CheckM.require
  split
  · next h => exact iff_of_true rfl h
  · next h => exact iff_of_false (diagnostics_ne_of_report List.prefix_rfl _ _) h

theorem run_require (t u : Ty) (position : Position) (s : Checker) :
    ((CheckM.require t u position).run s).1 = t.accepts u := by
  unfold CheckM.require
  split
  · next h => exact h.symm
  · next h => exact (Bool.eq_false_iff.mpr h).symm

theorem run_require_then {t u : Ty} (h : t.accepts u = true) (position : Position) (x : CheckM α) :
    (discard (CheckM.require t u position) >>= fun _ => x).run s = x.run s := by
  rw [CheckM.run_bind, CheckM.run_discard, CheckM.require, if_pos h]
  rfl

theorem silent_require_then {t u : Ty} {position : Position} {x : CheckM α}
    (hs : AllResolved s.types) (hx : OnlyReports x) :
    Silent s (discard (CheckM.require t u position) >>= fun _ => x) ↔
      t.accepts u = true ∧ Silent s x := by
  by_cases h : t.accepts u = true
  · rw [Silent, run_require_then h, and_iff_right h]
    rfl
  · rw [silent_bind ((OnlyReports.require t u position).discard s hs).diagnostics, silent_discard,
      silent_require]
    · simp [h]
    · exact (hx _ (((OnlyReports.require t u position) s hs).types.symm ▸ hs)).diagnostics

end silent

theorem Sane.reports {rep : Rep} {s s' : Checker} (h : Sane rep s) (hreports : s.Reports s') :
    Sane rep s' := by
  rw [hreports.same]
  exact ⟨h.faithful, ⟨h.clean.exps, h.clean.vars, h.clean.routines, h.clean.slots, h.clean.records,
    h.clean.arrays⟩⟩

theorem Models.reports {Γ : Context} {rep : Rep} {s s' : Checker} (h : Models Γ rep s)
    (hreports : s.Reports s') : Models Γ rep s' :=
  h.keeps (.of_reports hreports) id (h.sane.reports hreports)

/-- An action that only reports does so unless one of the results `Q` is right, and then its own
result represents that one. -/
structure Ruled {α σ : Type} (Γ : Context) (pre : Link) (x : CheckM α) (rel : σ → α → Link)
    (Q : σ → Prop) : Prop where
  reports : OnlyReports x
  silent : ∀ {rep s}, Models Γ rep s → pre.holds rep → (Silent s x ↔ ∃ a, Q a)
  typed : ∀ {rep s a}, Models Γ rep s → pre.holds rep → Q a → (rel a (x.run s).1).holds rep

namespace Ruled
variable {α β σ ρ : Type} {Γ : Context} {pre : Link} {x : CheckM α} {f : α → CheckM β}
  {rel : σ → α → Link} {rel' : ρ → β → Link} {Q Q' : σ → Prop} {R : σ → ρ → Prop}

theorem congr (h : Ruled Γ pre x rel Q) (hiff : ∀ a, Q' a ↔ Q a) : Ruled Γ pre x rel Q' where
  reports := h.reports
  silent hs hpre := (h.silent hs hpre).trans (exists_congr fun a => (hiff a).symm)
  typed hs hpre ha := h.typed hs hpre ((hiff _).mp ha)

theorem pure {a : σ} {r : α} (h : ∀ {registry rep}, Faithful registry rep → pre.holds rep →
    (rel a r).holds rep) : Ruled Γ pre (pure r) rel (· = a) where
  reports := .pure r
  silent _ _ := iff_of_true (silent_pure _ _) ⟨a, rfl⟩
  typed hs hpre ha := ha ▸ h hs.sane.faithful hpre

theorem bind (hx : Ruled Γ pre x rel Q)
    (hf : ∀ a r, Ruled Γ (pre.both (rel a r)) (f r) rel' (R a))
    (hreports : ∀ r, OnlyReports (f r)) :
    Ruled Γ pre (x >>= f) rel' fun b => ∃ a, Q a ∧ R a b where
  reports := hx.reports.bind hreports
  silent {rep s} hs hpre := by
    -- The first action only reports, so the second starts in a state of the same context.
    have hfirst := hx.reports s hs.resolved
    have hs₁ := hs.reports hfirst
    have hrest := hreports (x.run s).1 _ hs₁.resolved
    rw [silent_bind hfirst.diagnostics hrest.diagnostics, hx.silent hs hpre]
    constructor
    · rintro ⟨⟨a, ha⟩, hsilent⟩
      obtain ⟨b, hb⟩ := ((hf a _).silent hs₁ ⟨hpre, hx.typed hs hpre ha⟩).mp hsilent
      exact ⟨b, a, ha, hb⟩
    · rintro ⟨b, a, ha, hb⟩
      exact ⟨⟨a, ha⟩, ((hf a _).silent hs₁ ⟨hpre, hx.typed hs hpre ha⟩).mpr ⟨b, hb⟩⟩
  typed {rep s b} hs hpre hb := by
    obtain ⟨a, ha, hb⟩ := hb
    exact (hf a _).typed (hs.reports (hx.reports s hs.resolved)) ⟨hpre, hx.typed hs hpre ha⟩ hb

end Ruled

section rules
variable {Γ : Context} {pre : Link} {τ σ : SiteType} {t u : Ty} {position : Position}

theorem Ruled.require (hτ : ∀ {registry rep}, Faithful registry rep → pre.holds rep → rep τ t)
    (hσ : ∀ {registry rep}, Faithful registry rep → pre.holds rep → rep σ u) :
    Ruled Γ pre (discard (CheckM.require t u position)) (fun (_ : Unit) _ => .nothing)
      fun _ => Compatible τ σ where
  reports := (OnlyReports.require t u position).discard
  silent hs hpre := by
    have hfaithful := hs.sane.faithful
    rw [silent_discard, silent_require, hfaithful.accepts_iff (hτ hfaithful hpre)
      (hσ hfaithful hpre), exists_const]
  typed _ _ _ := trivial

theorem Ruled.typeNamed (name : String) (position : Position) :
    Ruled Γ pre (CheckM.typeNamed name position) Link.type (Denotes Γ.blocks name) where
  reports := CheckM.typeNamed_onlyReports name position
  silent {rep s} hs _ := by
    have hknown : (∃ τ, Denotes Γ.blocks name τ) ↔ (s.types.find? name).isSome = true := by
      constructor
      · rintro ⟨τ, hτ⟩
        obtain ⟨ty, hty, -⟩ := hs.types.found hτ
        obtain ⟨binding, hfind, -⟩ := Option.bind_eq_some_iff.mp hty
        rw [hfind]
        rfl
      · intro hsome
        obtain ⟨binding, hfind⟩ := Option.isSome_iff_exists.mp hsome
        obtain ⟨ty, hty⟩ := Option.isSome_iff_exists.mp (hs.resolved.find? hfind)
        exact hs.types.denoted (Option.bind_eq_some_iff.mpr ⟨binding, hfind, hty⟩)
    rw [Silent, CheckM.typeNamed_resolved hs.resolved, hknown]
    split
    · next h => exact iff_of_true rfl h
    · next h => exact iff_of_false (diagnostics_ne_of_report List.prefix_rfl _ _) h
  typed {rep s τ} hs _ hτ := by
    obtain ⟨ty, hty, hrep⟩ := hs.types.found hτ
    rw [CheckM.typeNamed_resolved hs.resolved, typeIn, hty]
    exact hrep

theorem Ruled.typeOfArithmetic (hτ : ∀ {rep}, pre.holds rep → rep τ t)
    (hσ : ∀ {rep}, pre.holds rep → rep σ u) :
    Ruled Γ pre (CheckM.typeOfArithmetic t u position) Link.type
      fun ρ => (τ = .int ∧ σ = .int) ∧ ρ = .int where
  reports := CheckM.typeOfArithmetic_onlyReports t u position
  silent hs hpre := by
    have hfaithful := hs.sane.faithful
    unfold CheckM.typeOfArithmetic
    rw [silent_require_then hs.resolved (.require_then _ _ _ (.pure _)),
      silent_require_then hs.resolved (.pure _), hfaithful.accepts_iff hfaithful.int (hτ hpre),
      hfaithful.accepts_iff hfaithful.int (hσ hpre), compatible_base (.inl rfl),
      compatible_base (.inl rfl)]
    simp [silent_pure]
  typed hs _ hρ := hρ.2 ▸ hs.sane.faithful.int

theorem Ruled.typeOfEquality (hτ : ∀ {rep}, pre.holds rep → rep τ t)
    (hσ : ∀ {rep}, pre.holds rep → rep σ u) :
    Ruled Γ pre (CheckM.typeOfEquality t u position) Link.type
      fun ρ => (Compatible τ σ ∧ τ ≠ .void ∧ σ ≠ .void) ∧ ρ = .int where
  reports := CheckM.typeOfEquality_onlyReports t u position
  silent hs hpre := by
    have hfaithful := hs.sane.faithful
    have haccepts := hfaithful.accepts_iff (hτ hpre) (hσ hpre)
    have hvoid := hfaithful.eq_iff (hτ hpre) hfaithful.void
    have hvoid' := hfaithful.eq_iff (hσ hpre) hfaithful.void
    rw [exists_eq_right, ← haccepts, ne_eq, ne_eq, hvoid, hvoid']
    unfold CheckM.typeOfEquality
    -- Two nils are refused first, then a side without a value.
    split
    · next h =>
      refine iff_of_false (not_silent_report _ _ hs.resolved (.pure _)) fun hfit => ?_
      rw [h.1, h.2] at hfit
      exact absurd hfit.1 (by decide)
    split
    · next h =>
      refine iff_of_false (not_silent_report _ _ hs.resolved (.pure _)) fun hfit => ?_
      exact h.elim hfit.2.1 hfit.2.2
    · next h =>
      rw [silent_require_then hs.resolved (.pure _)]
      simpa [silent_pure] using fun _ => not_or.mp h
  typed {rep s ρ} hs hpre hρ := by
    have hfaithful := hs.sane.faithful
    have haccepts := (hfaithful.accepts_iff (hτ hpre) (hσ hpre)).mpr hρ.1.1
    obtain ⟨⟨-, hvoid, hvoid'⟩, rfl⟩ := hρ
    rw [ne_eq, hfaithful.eq_iff (hτ hpre) hfaithful.void] at hvoid
    rw [ne_eq, hfaithful.eq_iff (hσ hpre) hfaithful.void] at hvoid'
    unfold CheckM.typeOfEquality
    rw [if_neg, if_neg (not_or.mpr ⟨hvoid, hvoid'⟩), run_require_then haccepts]
    · exact hfaithful.int
    · rintro ⟨rfl, rfl⟩
      exact absurd haccepts (by decide)

theorem Ruled.typeOfOrder (hτ : ∀ {rep}, pre.holds rep → rep τ t)
    (hσ : ∀ {rep}, pre.holds rep → rep σ u) :
    Ruled Γ pre (CheckM.typeOfOrder t u position) Link.type
      fun ρ => (τ = .int ∧ σ = .int ∨ τ = .string ∧ σ = .string) ∧ ρ = .int where
  reports := CheckM.typeOfOrder_onlyReports t u position
  silent hs hpre := by
    have hfaithful := hs.sane.faithful
    have ht := hfaithful.ne_error (hτ hpre)
    have hu := hfaithful.ne_error (hσ hpre)
    rw [exists_eq_right, hfaithful.eq_iff (hτ hpre) hfaithful.int,
      hfaithful.eq_iff (hσ hpre) hfaithful.int, hfaithful.eq_iff (hτ hpre) hfaithful.string,
      hfaithful.eq_iff (hσ hpre) hfaithful.string]
    unfold CheckM.typeOfOrder
    split
    · exact iff_of_true rfl (.inl ⟨rfl, rfl⟩)
    · exact iff_of_true rfl (.inr ⟨rfl, rfl⟩)
    · exact absurd rfl ht
    · exact absurd rfl hu
    · rw [silent_require_then hs.resolved (.pure _), Ty.accepts_iff ht hu]
      simpa [Ty.isRecord, silent_pure] using eq_comm
    · rw [silent_require_then hs.resolved (.pure _), Ty.accepts_iff ht hu]
      simpa [Ty.isRecord, silent_pure] using eq_comm
    · next hstring hint _ _ _ =>
      -- The first side is then asked to be an int, which it is not.
      rw [silent_require_then hs.resolved (.pure _), Ty.accepts_iff (by decide) ht]
      refine iff_of_false ?_ ?_
      · rintro ⟨⟨rfl, -⟩ | ⟨heq, -⟩ | ⟨heq, -⟩, -⟩
        · exact hint rfl
        · cases heq
        · cases heq
      · rintro (⟨heq, -⟩ | ⟨heq, -⟩)
        · exact hint heq
        · exact hstring heq
  typed {rep s ρ} hs hpre hρ := by
    have hresult : ((CheckM.typeOfOrder t u position).run s).1 = .int := by
      unfold CheckM.typeOfOrder
      split <;> rfl
    rw [hresult, hρ.2]
    exact hs.sane.faithful.int

theorem Ruled.typeOfBinary (op : Operator) (hτ : ∀ {rep}, pre.holds rep → rep τ t)
    (hσ : ∀ {rep}, pre.holds rep → rep σ u) :
    Ruled Γ pre (CheckM.typeOfBinary op t u position) Link.type
      fun ρ => OperandsFit op τ σ ∧ ρ = .int := by
  unfold CheckM.typeOfBinary OperandsFit
  split
  · exact .typeOfArithmetic hτ hσ
  split
  · exact .typeOfEquality hτ hσ
  · exact .typeOfOrder hτ hσ

theorem Ruled.typeOfBranches (hτ : ∀ {rep}, pre.holds rep → rep τ t)
    (hσ : ∀ {rep}, pre.holds rep → rep σ u) :
    Ruled Γ pre (CheckM.typeOfBranches t u position) Link.type
      fun ρ => Compatible τ σ ∧ ρ = branchType τ σ where
  reports := CheckM.typeOfBranches_onlyReports t u position
  silent {rep s} hs hpre := by
    have hfaithful := hs.sane.faithful
    rw [exists_eq_right, ← hfaithful.accepts_iff (hτ hpre) (hσ hpre)]
    have hsame : Silent s (CheckM.typeOfBranches t u position) ↔
        Silent s (CheckM.require t u position) := by
      unfold CheckM.typeOfBranches Silent
      rw [CheckM.run_bind]
      split
      · split <;> rfl
      · rfl
    rw [hsame, silent_require]
  typed {rep s ρ} hs hpre hρ := by
    have hfaithful := hs.sane.faithful
    obtain ⟨hfit, rfl⟩ := hρ
    have haccepts := (hfaithful.accepts_iff (hτ hpre) (hσ hpre)).mpr hfit
    have hnil := hfaithful.eq_iff (hτ hpre) hfaithful.nil
    unfold CheckM.typeOfBranches
    rw [CheckM.run_bind, run_require, if_pos haccepts]
    -- Where the first branch is nil, the second says the type.
    split
    · rw [hnil.mpr rfl]
      exact hσ hpre
    · exact absurd rfl (hfaithful.ne_error (hτ hpre))
    · next hne _ =>
      have hbranch : branchType τ σ = τ := by
        unfold branchType
        split
        · exact absurd (hnil.mp rfl) hne
        · rfl
      rw [hbranch]
      exact hτ hpre

theorem Ruled.typeOfBreak (position : Position) :
    Ruled Γ pre (CheckM.typeOfBreak position) Link.type fun ρ => Γ.inLoop = true ∧ ρ = .void where
  reports := CheckM.typeOfBreak_onlyReports position
  silent {rep s} hs _ := by
    rw [exists_eq_right, hs.loop]
    unfold CheckM.typeOfBreak
    rw [Silent, CheckM.run_get_bind]
    split
    · next h =>
      exact iff_of_false (not_silent_report _ _ hs.resolved (.pure _)) (by omega)
    · next h => exact iff_of_true rfl (by omega)
  typed {rep s ρ} hs _ hρ := by
    have hdepth := hs.loop.mp hρ.1
    unfold CheckM.typeOfBreak
    rw [CheckM.run_get_bind, if_neg (by omega), hρ.2]
    exact hs.sane.faithful.void

theorem Ruled.checkAssignable (target : Var) :
    Ruled Γ pre (CheckM.checkAssignable target) (fun (_ : Unit) _ => .nothing)
      fun _ => ∀ {node name var}, target = .simple node name → Γ.vars.value? name = some var →
        var.readOnly = false where
  reports := CheckM.checkAssignable_onlyReports target
  silent {rep s} hs _ := by
    rw [exists_const]
    cases target with
    | field node base name => exact iff_of_true rfl (by simp)
    | subscript node base index => exact iff_of_true rfl (by simp)
    | simple node name =>
      unfold CheckM.checkAssignable
      rw [Silent, CheckM.run_get_bind]
      have hvar := hs.vars name
      cases hvalue : Γ.vars.value? name with
      | none =>
        rw [hvalue] at hvar
        rw [eq_none_of_rel hvar]
        refine iff_of_true rfl fun {_ other _} heq hother => ?_
        obtain ⟨-, rfl⟩ := Var.simple.inj heq
        simp [hvalue] at hother
      | some var =>
        rw [hvalue] at hvar
        obtain ⟨⟨ty, slot, readOnly⟩, hfind, -, hreadOnly⟩ := exists_of_rel_some hvar
        obtain rfl : readOnly = var.readOnly := hreadOnly
        have hwritable : (∀ {node' name' var'}, Var.simple node name = .simple node' name' →
            Γ.vars.value? name' = some var' → var'.readOnly = false) ↔ var.readOnly = false := by
          refine ⟨fun h => h rfl hvalue, fun h {_ other _} heq hother => ?_⟩
          obtain ⟨-, rfl⟩ := Var.simple.inj heq
          rwa [← Option.some.inj (hvalue.symm.trans hother)]
        rw [hfind, hwritable]
        cases var.readOnly with
        | true => exact iff_of_false (diagnostics_ne_of_report List.prefix_rfl _ _) (by simp)
        | false => exact iff_of_true rfl rfl
  typed _ _ _ := trivial

theorem Ruled.typeOfSubscript (hτ : ∀ {rep}, pre.holds rep → rep τ t) :
    Ruled Γ pre (CheckM.typeOfSubscript t position) Link.type
      fun ρ => ∃ site element, τ = .array site element ∧ Denotes site.blocks element ρ where
  reports := CheckM.typeOfSubscript_onlyReports t position
  silent {rep s} hs hpre := by
    have hfaithful := hs.sane.faithful
    have hrep := hτ hpre
    unfold CheckM.typeOfSubscript
    rw [Silent, CheckM.run_get_bind]
    cases t with
    | error => exact absurd rfl (hfaithful.ne_error hrep)
    | array k =>
      obtain ⟨site, element, rfl⟩ := hfaithful.exists_array hrep
      obtain ⟨k, σ, elementType, -, -, hσ, -⟩ := hfaithful.array hrep
      exact iff_of_true rfl ⟨σ, site, element, rfl, hσ⟩
    | _ =>
      refine iff_of_false (not_silent_report _ _ hs.resolved (.pure _)) ?_
      rintro ⟨ρ, site, element, rfl, -⟩
      obtain ⟨k, σ, elementType, heq, -⟩ := hfaithful.array hrep
      cases heq
  typed {rep s ρ} hs hpre hρ := by
    obtain ⟨site, element, rfl, hρ⟩ := hρ
    obtain ⟨k, σ, elementType, rfl, hk, hσ, helement⟩ := hs.sane.faithful.array (hτ hpre)
    obtain rfl := hσ.unique hρ
    have hfound : s.registry.element? (.array k) = some elementType := by
      simp [Registry.element?, hk]
    unfold CheckM.typeOfSubscript
    rw [CheckM.run_get_bind]
    dsimp only
    rw [hfound]
    exact helement

theorem Ruled.typeOfArray {typeName : String} {initPosition : Position}
    (hτ : ∀ {rep}, pre.holds rep → rep τ t) (hσ : ∀ {rep}, pre.holds rep → rep σ u) :
    Ruled Γ pre (CheckM.typeOfArray t typeName u position initPosition) Link.type
      fun ρ => ∃ site element ε, τ = .array site element ∧ Denotes site.blocks element ε ∧
        Compatible ε σ ∧ ρ = τ where
  reports := CheckM.typeOfArray_onlyReports t typeName u position initPosition
  silent {rep s} hs hpre := by
    have hfaithful := hs.sane.faithful
    have hrep := hτ hpre
    unfold CheckM.typeOfArray
    cases t with
    | error => exact absurd rfl (hfaithful.ne_error hrep)
    | array k =>
      obtain ⟨site, element, rfl⟩ := hfaithful.exists_array hrep
      obtain ⟨_, ε, elementType, heq, hk, hε, helement⟩ := hfaithful.array hrep
      cases heq
      rw [Silent, CheckM.run_get_bind, Registry.element?, hk]
      change Silent s (discard (CheckM.require elementType u initPosition) >>= fun _ =>
        Pure.pure (Ty.array k)) ↔ _
      rw [silent_require_then hs.resolved (.pure _), hfaithful.accepts_iff helement (hσ hpre),
        and_iff_left (silent_pure _ _)]
      constructor
      · exact fun hfit => ⟨_, site, element, ε, rfl, hε, hfit, rfl⟩
      · rintro ⟨ρ, site, element, ε', heq, hε', hfit, -⟩
        obtain ⟨rfl, rfl⟩ := SiteType.array.inj heq
        rwa [hε.unique hε']
    | _ =>
      refine iff_of_false (not_silent_report _ _ hs.resolved (.pure _)) ?_
      rintro ⟨ρ, site, element, ε, rfl, -⟩
      obtain ⟨k, ε, elementType, heq, -⟩ := hfaithful.array hrep
      cases heq
  typed {rep s ρ} hs hpre hρ := by
    have hrep := hτ hpre
    obtain ⟨site, element, ε, rfl, -, -, rfl⟩ := hρ
    obtain ⟨k, ε, elementType, rfl, -⟩ := hs.sane.faithful.array hrep
    exact hrep

theorem FieldsRepresented.findIdx? {rep : Rep} {blocks : List (List Dec)} {fields : List Field}
    {typed : List (String × Ty)} (h : FieldsRepresented rep blocks fields typed) (name : String) :
    match fields.find? (·.name == name) with
    | some field => ∃ place n ty ρ, (typed.findIdx? fun x => x.1 == name) = some place ∧
        typed[place]? = some (n, ty) ∧ Denotes blocks field.typeName ρ ∧ rep ρ ty
    | none => (typed.findIdx? fun x => x.1 == name) = none := by
  induction h with
  | nil => rfl
  | @cons field p fields typed hfield _ ih =>
    obtain ⟨hname, ρ, hρ, hrep⟩ := hfield
    rw [List.find?_cons, List.findIdx?_cons, hname]
    cases field.name == name with
    | true => exact ⟨0, p.1, p.2, ρ, rfl, rfl, hρ, hrep⟩
    | false =>
      split at ih
      · next found hfound =>
        obtain ⟨place, n, ty, ρ, hplace, hget, hρ, hrep⟩ := ih
        simp only [hfound, hplace]
        exact ⟨place + 1, n, ty, ρ, rfl, hget, hρ, hrep⟩
      · next hfound => simp [hfound, ih]

theorem Ruled.typeOfField (name : String) (hτ : ∀ {rep}, pre.holds rep → rep τ t) :
    Ruled Γ pre (CheckM.typeOfField t name position) Link.type
      fun ρ => ∃ site fields field, τ = .record site fields ∧
        fields.find? (·.name == name) = some field ∧ Denotes site.blocks field.typeName ρ where
  reports := CheckM.typeOfField_onlyReports t name position
  silent {rep s} hs hpre := by
    have hfaithful := hs.sane.faithful
    have hrep := hτ hpre
    unfold CheckM.typeOfField
    rw [Silent, CheckM.run_get_bind]
    cases t with
    | error => exact absurd rfl (hfaithful.ne_error hrep)
    | record k =>
      obtain ⟨site, fields, rfl⟩ := hfaithful.exists_record hrep
      obtain ⟨_, typed, heq, hk, hfields⟩ := hfaithful.record hrep
      cases heq
      have hfind := hfields.findIdx? name
      dsimp only
      split at hfind
      · next field hfield =>
        obtain ⟨place, n, ty, ρ, hplace, hget, hρ, -⟩ := hfind
        have hfound : s.registry.field? (.record k) name = some (place, ty) := by
          simp [Registry.field?, hk, hplace, hget]
        rw [hfound]
        exact iff_of_true rfl ⟨ρ, site, fields, field, rfl, hfield, hρ⟩
      · next hfield =>
        have hfound : s.registry.field? (.record k) name = none := by
          simp [Registry.field?, hk, hfind]
        rw [hfound]
        refine iff_of_false (not_silent_report _ _ hs.resolved (.pure _)) ?_
        rintro ⟨ρ, site, fields, field, heq, hother, -⟩
        obtain ⟨rfl, rfl⟩ := SiteType.record.inj heq
        simp [hfield] at hother
    | _ =>
      refine iff_of_false (not_silent_report _ _ hs.resolved (.pure _)) ?_
      rintro ⟨ρ, site, fields, field, rfl, -⟩
      obtain ⟨k, typed, heq, -⟩ := hfaithful.record hrep
      cases heq
  typed {rep s ρ} hs hpre hρ := by
    obtain ⟨site, fields, field, rfl, hfield, hρ⟩ := hρ
    obtain ⟨k, typed, rfl, hk, hfields⟩ := hs.sane.faithful.record (hτ hpre)
    have hfind := hfields.findIdx? name
    rw [hfield] at hfind
    obtain ⟨place, n, ty, ρ', hplace, hget, hρ', hrep⟩ := hfind
    obtain rfl := hρ'.unique hρ
    have hfound : s.registry.field? (.record k) name = some (place, ty) := by
      simp [Registry.field?, hk, hplace, hget]
    unfold CheckM.typeOfField
    rw [CheckM.run_get_bind]
    dsimp only
    rw [hfound]
    exact hrep

theorem checkFields_silent {registry : Registry} {rep : Rep} {s : Checker} {site : Site}
    {fields : List Field} {rest : List (String × Ty)} {typed : List (String × SiteType)}
    {given : List CheckM.GivenField} (hs : AllResolved s.types) (hfaithful : Faithful registry rep)
    (hfields : FieldsRepresented rep site.blocks fields rest)
    (hgiven : (Link.given typed given).holds rep) (hlength : rest.length = given.length)
    (declared : List (String × Ty)) :
    Silent s (CheckM.checkFields declared given rest) ↔ FieldsFit site fields typed := by
  induction hfields generalizing typed given with
  | nil =>
    cases hgiven with
    | nil => exact iff_of_true rfl .nil
    | cons _ _ => simp at hlength
  | @cons field p fields rest hfield hfields ih =>
    cases hgiven with
    | nil => simp at hlength
    | @cons q g typed given hg hgiven =>
      obtain ⟨hname, τ, hτ, hrep⟩ := hfield
      obtain ⟨hgname, hgty⟩ := hg
      obtain ⟨name, ty⟩ := p
      have hrest := ih hgiven (by simpa using hlength)
      have honly := CheckM.checkFields_onlyReports declared given rest
      rw [FieldsFit, List.forall₂_cons, CheckM.checkFields]
      split
      · next heq =>
        rw [silent_require_then hs honly, hfaithful.accepts_iff hrep hgty, hrest]
        refine and_congr_left fun _ => ⟨fun hfit => ⟨?_, τ, hτ, hfit⟩, ?_⟩
        · exact hgname.symm.trans (heq.trans hname)
        · rintro ⟨-, σ, hσ, hfit⟩
          rwa [hτ.unique hσ]
      · next hne =>
        have hfalse : ¬ q.1 = field.name := fun heq => hne (hgname.trans (heq.trans hname.symm))
        split
        · exact iff_of_false (not_silent_report _ _ hs honly) fun hfit => hfalse hfit.1.1
        · exact iff_of_false (not_silent_report _ _ hs honly) fun hfit => hfalse hfit.1.1

theorem Ruled.typeOfRecord {typeName : String} {typed : List (String × SiteType)}
    {given : List CheckM.GivenField} (hτ : ∀ {rep}, pre.holds rep → rep τ t)
    (hgiven : ∀ {rep}, pre.holds rep → (Link.given typed given).holds rep) :
    Ruled Γ pre (CheckM.typeOfRecord t typeName given position) Link.type
      fun ρ => ∃ site fields, τ = .record site fields ∧ FieldsFit site fields typed ∧ ρ = τ where
  reports := CheckM.typeOfRecord_onlyReports t typeName given position
  silent {rep s} hs hpre := by
    have hfaithful := hs.sane.faithful
    have hrep := hτ hpre
    unfold CheckM.typeOfRecord
    cases t with
    | error => exact absurd rfl (hfaithful.ne_error hrep)
    | record k =>
      obtain ⟨site, fields, rfl⟩ := hfaithful.exists_record hrep
      obtain ⟨_, rest, heq, hk, hfields⟩ := hfaithful.record hrep
      cases heq
      have hfit : (∃ ρ site' fields', SiteType.record site fields = .record site' fields' ∧
          FieldsFit site' fields' typed ∧ ρ = SiteType.record site fields) ↔
            FieldsFit site fields typed := by
        constructor
        · rintro ⟨ρ, site, fields, heq, hfit, -⟩
          obtain ⟨rfl, rfl⟩ := SiteType.record.inj heq
          exact hfit
        · exact fun hfit => ⟨_, site, fields, rfl, hfit, rfl⟩
      have honly := CheckM.checkFields_onlyReports rest given rest
      rw [hfit, Silent, CheckM.run_get_bind, hk]
      dsimp only
      split
      · next hlength =>
        refine iff_of_false (not_silent_report _ _ hs.resolved (honly.bind fun _ => .pure _)) ?_
        intro hfit
        exact hlength (hfields.length_eq.symm.trans (hfit.length_eq.trans (hgiven hpre).length_eq))
      · next hlength =>
        rw [← checkFields_silent hs.resolved hfaithful hfields (hgiven hpre) (not_not.mp hlength)
          rest]
        rfl
    | _ =>
      refine iff_of_false (not_silent_report _ _ hs.resolved (.pure _)) ?_
      rintro ⟨ρ, site, fields, rfl, -⟩
      obtain ⟨k, rest, heq, -⟩ := hfaithful.record hrep
      cases heq
  typed {rep s ρ} hs hpre hρ := by
    have hrep := hτ hpre
    obtain ⟨site, fields, rfl, -, rfl⟩ := hρ
    obtain ⟨k, rest, rfl, hk, -⟩ := hs.sane.faithful.record hrep
    have hresult :
        ((CheckM.typeOfRecord (.record k) typeName given position).run s).1 = .record k := by
      unfold CheckM.typeOfRecord
      rw [CheckM.run_get_bind, hk]
      dsimp only
      split <;> rfl
    rw [hresult]
    exact hrep

theorem Ruled.declaredType {node : Node} (typeName : Option String)
    (hσ : ∀ {rep}, pre.holds rep → rep σ u) :
    Ruled Γ pre (CheckM.declaredType node typeName u position) Link.type
      (DeclaredType Γ.blocks typeName σ) := by
  cases typeName with
  | some name =>
    have hcheck : ∀ τ t, Ruled Γ (pre.both (.type τ t)) (discard (CheckM.require t u position) >>=
        fun _ => Pure.pure t) Link.type fun ρ => ∃ _ : Unit, Compatible τ σ ∧ ρ = τ :=
      fun τ t => Ruled.bind (Ruled.require (fun _ h => h.2) fun _ h => hσ h.1)
        (fun _ _ => Ruled.pure fun _ h => h.1.2) fun _ => .pure t
    refine ((Ruled.typeNamed name node.span.start).bind hcheck fun t =>
      .require_then _ _ _ (.pure t)).congr fun τ => ?_
    constructor
    · rintro (_ | ⟨hname, hinit⟩)
      exact ⟨τ, hname, (), hinit, rfl⟩
    · rintro ⟨_, hname, -, hinit, rfl⟩
      exact .annotated hname hinit
  | none =>
    have hiff : ∀ τ, DeclaredType Γ.blocks none σ τ ↔ (σ ≠ .nil ∧ σ ≠ .void) ∧ τ = σ := by
      intro τ
      constructor
      · rintro ⟨hnil, hvoid⟩
        exact ⟨⟨hnil, hvoid⟩, rfl⟩
      · rintro ⟨⟨hnil, hvoid⟩, rfl⟩
        exact .inferred hnil hvoid
    refine Ruled.congr (Q := fun τ => (σ ≠ .nil ∧ σ ≠ .void) ∧ τ = σ) ?_ hiff
    refine ⟨CheckM.declaredType_onlyReports node none u position, fun hs hpre => ?_,
      fun hs hpre hτ => ?_⟩ <;> have hfaithful := hs.sane.faithful
    · rw [exists_eq_right, ne_eq, ne_eq,
        hfaithful.eq_iff (hσ hpre) hfaithful.nil, hfaithful.eq_iff (hσ hpre) hfaithful.void]
      unfold CheckM.declaredType
      dsimp only
      split
      · next h =>
        refine iff_of_false (not_silent_report _ _ hs.resolved (.pure _)) ?_
        exact fun hfit => h.elim hfit.1 hfit.2
      · next h => exact iff_of_true rfl (not_or.mp h)
    · rw [ne_eq, ne_eq, hfaithful.eq_iff (hσ hpre) hfaithful.nil,
        hfaithful.eq_iff (hσ hpre) hfaithful.void] at hτ
      unfold CheckM.declaredType
      dsimp only
      rw [if_neg (not_or.mpr hτ.1), hτ.2]
      exact hσ hpre

theorem checkArgs_silent {registry : Registry} {rep : Rep} {s : Checker} {params : List SiteType}
    {paramTypes : List Ty} {types : List SiteType} {args : List (Ty × Position)}
    (hs : AllResolved s.types) (hfaithful : Faithful registry rep)
    (hparams : List.Forall₂ rep params paramTypes) (hargs : (Link.types types args).holds rep)
    (hlength : paramTypes.length = args.length) :
    Silent s (CheckM.checkArgs paramTypes args) ↔ List.Forall₂ Compatible params types := by
  induction hparams generalizing types args with
  | nil =>
    cases hargs with
    | nil => exact iff_of_true rfl .nil
    | cons _ _ => simp at hlength
  | @cons τ t params paramTypes hτ hparams ih =>
    cases hargs with
    | nil => simp at hlength
    | @cons σ arg types args hσ hargs =>
      have honly := CheckM.checkArgs_onlyReports paramTypes args
      rw [List.forall₂_cons, CheckM.checkArgs, silent_require_then hs honly,
        hfaithful.accepts_iff hτ hσ, ih hargs (by simpa using hlength)]

end rules

end TigerLang

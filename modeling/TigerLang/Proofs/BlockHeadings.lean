import TigerLang.Proofs.Verdict

/-! The headings of the functions of a block, which are declared once its types are known. -/

namespace TigerLang

section headings
variable {Γ : Context} {pre : Link}

theorem Ruled.paramTypes (params : List Field) {pre : Link} :
    Ruled Γ pre (CheckM.paramTypes params) Link.all (ParamsDenote Γ.blocks params) := by
  induction params generalizing pre with
  | nil =>
    have hnil : Ruled Γ pre (CheckM.paramTypes []) Link.all (· = []) := Ruled.pure fun _ _ => .nil
    exact hnil.congr fun types => List.forall₂_nil_left_iff
  | cons param params ih =>
    have hrest : ∀ τ t, Ruled Γ (pre.both (.type τ t)) (CheckM.paramTypes params >>= fun tys =>
        Pure.pure (t :: tys)) Link.all fun types => ∃ rest, ParamsDenote Γ.blocks params rest ∧
          types = τ :: rest :=
      fun τ t => Ruled.bind ih (fun rest tys => Ruled.pure fun _ h => .cons h.1.2 h.2)
        fun tys => .pure _
    have hcons : CheckM.paramTypes (param :: params) =
        CheckM.typeNamed param.typeName param.node.span.start >>= fun t =>
          CheckM.paramTypes params >>= fun tys => Pure.pure (t :: tys) := List.mapM_cons
    rw [hcons]
    refine (Ruled.bind (Ruled.typeNamed _ _) hrest fun t =>
      (CheckM.paramTypes_onlyReports params).bind fun tys => .pure _).congr fun types => ?_
    rw [ParamsDenote, List.forall₂_cons_left_iff]
    constructor
    · rintro ⟨τ, rest, hτ, hrest, rfl⟩
      exact ⟨τ, hτ, rest, hrest, rfl⟩
    · rintro ⟨τ, hτ, rest, hrest, rfl⟩
      exact ⟨τ, rest, hτ, hrest, rfl⟩

theorem resultDenotes_iff {blocks : List (List Dec)} {result : Option String} {τ : SiteType} :
    ResultDenotes blocks result τ ↔ match result with
      | none => τ = .void
      | some name => Denotes blocks name τ := by
  constructor
  · rintro (_ | h)
    · rfl
    · exact h
  · intro h
    cases result with
    | none =>
      subst h
      exact .none
    | some name => exact .some h

theorem Ruled.resultType (node : Node) (result : Option String) :
    Ruled Γ pre (CheckM.resultType node result) Link.type (ResultDenotes Γ.blocks result) := by
  cases result with
  | none => exact (Ruled.pure fun h _ => h.void).congr fun τ => resultDenotes_iff
  | some name => exact (Ruled.typeNamed name _).congr fun τ => resultDenotes_iff

def SignatureDenotes (blocks : List (List Dec)) (params : List Field) (result : Option String)
    (signature : Signature) : Prop :=
  ParamsDenote blocks params signature.params ∧ ResultDenotes blocks result signature.result

theorem SignatureDenotes.unique {blocks : List (List Dec)} {params : List Field}
    {result : Option String} {signature other : Signature}
    (h : SignatureDenotes blocks params result signature)
    (h' : SignatureDenotes blocks params result other) : signature = other := by
  obtain ⟨types, τ⟩ := signature
  obtain ⟨types', τ'⟩ := other
  obtain ⟨hparams, hresult⟩ := h
  obtain ⟨hparams', hresult'⟩ := h'
  have hunique : Relator.RightUnique fun (param : Field) τ => Denotes blocks param.typeName τ :=
    fun _ _ _ => Denotes.unique
  have htypes : types = types' := List.right_unique_forall₂' hunique hparams hparams'
  have hτ : τ = τ' := by
    rw [resultDenotes_iff] at hresult hresult'
    cases result with
    | none => exact hresult.trans hresult'.symm
    | some name => exact hresult.unique hresult'
  rw [htypes, hτ]

def CheckM.signatureTypes (node : Node) (params : List Field) (result : Option String) :
    CheckM (List Ty × Ty) := do
  let types ← paramTypes params
  let ty ← resultType node result
  return (types, ty)

theorem CheckM.declareHeading_signature (node : Node) (name : String) (params : List Field)
    (result : Option String) :
    declareHeading node name params result = signatureTypes node params result >>= fun types =>
      enterFunction node name types.1 types.2 := by
  rw [declareHeading_eq]
  rfl

def Link.signature (signature : Signature) (types : List Ty × Ty) : Link :=
  (Link.all signature.params types.1).both (.type signature.result types.2)

theorem Ruled.signatureTypes (node : Node) (params : List Field) (result : Option String) :
    Ruled Γ pre (CheckM.signatureTypes node params result) Link.signature
      (SignatureDenotes Γ.blocks params result) := by
  have hresult : ∀ types tys, Ruled Γ (pre.both (.all types tys)) (CheckM.resultType node result >>=
      fun ty => Pure.pure (tys, ty)) Link.signature fun signature =>
        ∃ τ, ResultDenotes Γ.blocks result τ ∧ signature = ⟨types, τ⟩ :=
    fun types tys => Ruled.bind (Ruled.resultType node result)
      (fun τ ty => Ruled.pure fun _ h => ⟨h.1.2, h.2⟩) fun ty => .pure _
  refine (Ruled.bind (Ruled.paramTypes params) hresult fun tys =>
    (CheckM.resultType_onlyReports node result).bind fun ty => .pure _).congr fun signature => ?_
  constructor
  · rintro ⟨hparams, hresult⟩
    exact ⟨_, hparams, _, hresult, rfl⟩
  · rintro ⟨types, hparams, τ, hresult, rfl⟩
    exact ⟨hparams, hresult⟩

theorem Sane.withFunction {rep : Rep} {s : Checker} (h : Sane rep s) (node : Node) (name : String)
    {params : List Ty} {result : Ty} (hparams : ∀ ty ∈ params, ty ≠ .error)
    (hresult : result ≠ .error) : Sane rep (s.withFunction node name params result) where
  faithful := h.faithful
  clean := by
    refine ⟨h.clean.exps, h.clean.vars, fun info hinfo => ?_, fun f hf => ?_, h.clean.records,
      h.clean.arrays⟩
    · rcases Array.mem_push.mp hinfo with hold | rfl
      · exact h.clean.routines info hold
      · exact ⟨hresult, hparams⟩
    · rcases Array.mem_push.mp hf with hold | rfl
      · exact h.clean.slots f hold
      · simp

theorem Faithful.all_ne_error {registry : Registry} {rep : Rep} (h : Faithful registry rep)
    {types : List SiteType} {tys : List Ty} (htypes : List.Forall₂ rep types tys) :
    ∀ ty ∈ tys, ty ≠ .error := by
  induction htypes with
  | nil => simp
  | cons hτ _ ih => exact List.forall_mem_cons.mpr ⟨h.ne_error hτ, ih⟩

def HasHeading (blocks : List (List Dec)) (rep : Rep) (s : Checker) : Dec → Prop
  | .function node _ params result _ => ∃ info signature,
      s.facts.routine? node.id = some info ∧ SignatureDenotes blocks params result signature ∧
      (Link.signature signature (info.params, info.result)).holds rep
  | _ => True

structure HeadingsSeen (Γ : Context) (decs : List Dec) (seen : Scope Signature) (rep : Rep)
    (s : Checker) : Prop where
  models : Models (Γ.withBlock decs seen) rep s
  here : ∀ name, s.functions.hasHere name = true ↔ name ∈ seen.map Prod.fst

theorem CheckM.enterFunction_silent {s : Checker} {node : Node} {name : String} {params : List Ty}
    {result : Ty} : Silent s (enterFunction node name params result) ↔
      s.functions.hasHere name = false := by
  rw [Silent, enterFunction_run]
  cases s.functions.hasHere name with
  | true => exact iff_of_false (diagnostics_ne_of_report List.prefix_rfl _ _) (by simp)
  | false => exact iff_of_true rfl rfl

theorem CheckM.enterFunction_diagnostics (node : Node) (name : String) (params : List Ty)
    (result : Ty) (s : Checker) : s.diagnostics.toList <+:
      ((enterFunction node name params result).run s).2.diagnostics.toList := by
  rw [enterFunction_run]
  split
  · exact diagnostics_report _ _ _
  · exact List.prefix_rfl

variable {decs : List Dec} {seen : Scope Signature} {rep : Rep} {s : Checker}

theorem HeadingsSeen.silent (h : HeadingsSeen Γ decs seen rep s) (node : Node) (name : String)
    (params : List Field) (result : Option String) :
    Silent s (CheckM.declareHeading node name params result) ↔
      (∃ signature, SignatureDenotes (decs :: Γ.blocks) params result signature) ∧
        name ∉ seen.map Prod.fst := by
  have hruled : Ruled (Γ.withBlock decs seen) .nothing (CheckM.signatureTypes node params result)
      Link.signature (SignatureDenotes (decs :: Γ.blocks) params result) :=
    Ruled.signatureTypes node params result
  have hreports := hruled.reports s h.models.resolved
  set s₁ := ((CheckM.signatureTypes node params result).run s).2
  have hfree : Silent s₁ (CheckM.enterFunction node name
      ((CheckM.signatureTypes node params result).run s).1.1
      ((CheckM.signatureTypes node params result).run s).1.2) ↔ name ∉ seen.map Prod.fst := by
    have hsame : s₁.functions = s.functions := by rw [hreports.same]
    rw [CheckM.enterFunction_silent, hsame, ← h.here name, Bool.not_eq_true]
  rw [CheckM.declareHeading_signature, silent_bind hreports.diagnostics
    (CheckM.enterFunction_diagnostics _ _ _ _ s₁), hruled.silent h.models trivial, hfree]

theorem HeadingsSeen.heading (h : HeadingsSeen Γ decs seen rep s) (node : Node) {name : String}
    {params : List Field} {result : Option String} (body : Exp) {signature : Signature}
    (hsignature : SignatureDenotes (decs :: Γ.blocks) params result signature)
    (hname : name ∉ seen.map Prod.fst) :
    let s' := ((CheckM.declareHeading node name params result).run s).2
    HeadingsSeen Γ decs (seen ++ [(name, signature)]) rep s' ∧
      HasHeading (decs :: Γ.blocks) rep s' (.function node name params result body) := by
  intro s'
  have hruled : Ruled (Γ.withBlock decs seen) .nothing (CheckM.signatureTypes node params result)
      Link.signature (SignatureDenotes (decs :: Γ.blocks) params result) :=
    Ruled.signatureTypes node params result
  have hmodels := h.models.reports (hruled.reports s h.models.resolved)
  have hsame : ((CheckM.signatureTypes node params result).run s).2.functions = s.functions := by
    rw [(hruled.reports s h.models.resolved).same]
  have hlink := hruled.typed h.models trivial hsignature
  have hrun : s' = ((CheckM.enterFunction node name
      ((CheckM.signatureTypes node params result).run s).1.1
      ((CheckM.signatureTypes node params result).run s).1.2).run
      ((CheckM.signatureTypes node params result).run s).2).2 := by
    unfold s'
    rw [CheckM.declareHeading_signature]
    rfl
  -- Where the types have been found, all that matters is what they represent.
  generalize ((CheckM.signatureTypes node params result).run s).2 = s₁ at *
  generalize ((CheckM.signatureTypes node params result).run s).1 = types at *
  have hfree : s₁.functions.hasHere name = false := by
    rw [hsame, ← Bool.not_eq_true, h.here name]
    exact hname
  have hroutine := CheckM.routine?_enterFunction node name types.1 types.2 s₁
  rw [← hrun] at hroutine
  rw [CheckM.enterFunction_run, if_neg (by simp [hfree])] at hrun
  refine ⟨?_, ⟨s₁.newRoutine node name types.1 types.2, signature, hroutine, hsignature, hlink⟩⟩
  have hfaithful := hmodels.sane.faithful
  have hsane := hmodels.sane.withFunction node name (hfaithful.all_ne_error hlink.1)
    (hfaithful.ne_error hlink.2)
  have hinsert : ∀ n, Scope.value? ((seen ++ [(name, signature)]) ++ Γ.functions) n =
      if n = name then some signature else Scope.value? (seen ++ Γ.functions) n := by
    intro n
    rw [List.append_assoc]
    exact Scope.value?_insert hname signature Γ.functions n
  rw [hrun]
  constructor
  · exact ⟨hmodels.resolved, hmodels.types, hmodels.vars,
      rel_define hmodels.functions hinsert hlink, hmodels.loop, hsane.congr rfl rfl rfl rfl rfl⟩
  · intro n
    change (s₁.functions.bind name _).hasHere n = true ↔ _
    rw [Scopes.hasHere_bind, hsame, h.here n]
    simp [or_comm]

theorem HasHeading.grows {blocks : List (List Dec)} {rep' : Rep} {s' : Checker} {d : Dec}
    {base current : Nat} {touched : Nat → Prop} (h : HasHeading blocks rep s d)
    (hle : ∀ τ ty, rep τ ty → rep' τ ty) (hgrows : s.Grows base current touched s')
    (hid : d.isFunction = true → ¬ touched d.node.id) : HasHeading blocks rep' s' d := by
  cases d with
  | var node name typeName init => trivial
  | type node name definition => trivial
  | function node name params result body =>
    obtain ⟨info, signature, hinfo, hsignature, hlink⟩ := h
    have hlater : Later [] [node.id] s s' :=
      .of_grows hgrows (by simp) fun id hmem => List.mem_singleton.mp hmem ▸ hid rfl
    exact ⟨info, signature, hlater.routine? (List.mem_singleton_self _) hinfo, hsignature,
      (Link.signature _ _).mono hle hlink⟩

theorem headings_skip {blocks : List (List Dec)} {d : Dec} (hd : d.isFunction = false)
    {rest : List Dec} {signatures : Scope Signature} :
    Headings blocks (d :: rest) signatures ↔ Headings blocks rest signatures := by
  constructor
  · rintro (_ | h | h | _)
    · exact h
    · exact h
    · cases hd
  · intro h
    cases d with
    | var node name typeName init => exact .var h
    | type node name definition => exact .type h
    | function node name params result body => cases hd

theorem headings_function {blocks : List (List Dec)} {node : Node} {name : String}
    {params : List Field} {result : Option String} {body : Exp} {rest : List Dec}
    {signatures : Scope Signature} :
    Headings blocks (.function node name params result body :: rest) signatures ↔
      ∃ signature others, SignatureDenotes blocks params result signature ∧
        Headings blocks rest others ∧ signatures = (name, signature) :: others := by
  constructor
  · rintro (_ | _ | _ | ⟨hparams, hresult, h⟩)
    exact ⟨_, _, ⟨hparams, hresult⟩, h, rfl⟩
  · rintro ⟨signature, others, ⟨hparams, hresult⟩, h, rfl⟩
    exact .function hparams hresult h

theorem Scope.nodup_concat {α : Type} {scope : Scope α} (h : (scope.map Prod.fst).Nodup)
    {name : String} (hname : name ∉ scope.map Prod.fst) (value : α) :
    ((scope ++ [(name, value)]).map Prod.fst).Nodup := by
  rw [List.map_append, List.map_cons, List.map_nil, ← List.concat_eq_append]
  exact List.Nodup.concat hname h

theorem not_mem_seen {name : String} {signature : Signature} {others : Scope Signature}
    (h : ((seen ++ (name, signature) :: others).map Prod.fst).Nodup) :
    name ∉ seen.map Prod.fst := by
  rw [List.map_append, List.nodup_append] at h
  exact fun hmem => h.2.2 name hmem name (by simp) rfl

theorem HeadingsSeen.silent_rest (rest : List Dec) (h : HeadingsSeen Γ decs seen rep s)
    (hseen : (seen.map Prod.fst).Nodup) {outer : Checker} (hinside : outer.Inside s) :
    Silent s (CheckM.declareHeadings rest) ↔
      ∃ signatures, Headings (decs :: Γ.blocks) rest signatures ∧
        ((seen ++ signatures).map Prod.fst).Nodup := by
  induction rest generalizing s seen with
  | nil => exact iff_of_true rfl ⟨[], .nil, by simpa using hseen⟩
  | cons d rest ih =>
    cases d with
    | var node name typeName init =>
      refine (ih h hseen hinside).trans (exists_congr fun signatures => ?_)
      rw [headings_skip rfl]
    | type node name definition =>
      refine (ih h hseen hinside).trans (exists_congr fun signatures => ?_)
      rw [headings_skip rfl]
    | function node name params result body =>
      have hhead : outer.Works 0 (fun _ => True) s
          ((CheckM.declareHeading node name params result).run s).2 :=
        CheckM.declareHeading_works hinside (Nat.zero_le _) trivial name params result
      have hrest : outer.Works 0 (fun _ => True) _
          ((CheckM.declareHeadings rest).run
            ((CheckM.declareHeading node name params result).run s).2).2 :=
        CheckM.declareHeadings_works rest hhead.inside (Nat.zero_le _) fun _ _ => trivial
      rw [CheckM.declareHeadings, silent_bind hhead.grows.diagnostics hrest.grows.diagnostics,
        h.silent]
      constructor
      · rintro ⟨⟨⟨signature, hsignature⟩, hname⟩, hsilent⟩
        obtain ⟨hseen', -⟩ := h.heading node body hsignature hname
        obtain ⟨others, hothers, hdistinct⟩ :=
          (ih hseen' (Scope.nodup_concat hseen hname signature) hhead.inside).mp hsilent
        exact ⟨_, headings_function.mpr ⟨signature, others, hsignature, hothers, rfl⟩, by
          simpa using hdistinct⟩
      · rintro ⟨signatures, hsignatures, hdistinct⟩
        obtain ⟨signature, others, hsignature, hothers, rfl⟩ := headings_function.mp hsignatures
        have hname := not_mem_seen hdistinct
        obtain ⟨hseen', -⟩ := h.heading node body hsignature hname
        refine ⟨⟨⟨signature, hsignature⟩, hname⟩, ?_⟩
        rw [ih hseen' (Scope.nodup_concat hseen hname signature) hhead.inside]
        exact ⟨others, hothers, by simpa using hdistinct⟩

theorem HeadingsSeen.rest (rest : List Dec) (h : HeadingsSeen Γ decs seen rep s) {outer : Checker}
    (hinside : outer.Inside s) (hnodup : (functionIds rest).Nodup) {signatures : Scope Signature}
    (hsignatures : Headings (decs :: Γ.blocks) rest signatures)
    (hdistinct : ((seen ++ signatures).map Prod.fst).Nodup) :
    let s' := ((CheckM.declareHeadings rest).run s).2
    Models (Γ.withBlock decs (seen ++ signatures)) rep s' ∧
      ∀ d ∈ rest, HasHeading (decs :: Γ.blocks) rep s' d := by
  induction rest generalizing s seen signatures with
  | nil =>
    cases hsignatures
    rw [List.append_nil]
    exact ⟨h.models, by simp⟩
  | cons d rest ih =>
    cases d with
    | var node name typeName init =>
      obtain ⟨hmodels, hheadings⟩ :=
        ih h hinside hnodup ((headings_skip rfl).mp hsignatures) hdistinct
      exact ⟨hmodels, List.forall_mem_cons.mpr ⟨trivial, hheadings⟩⟩
    | type node name definition =>
      obtain ⟨hmodels, hheadings⟩ :=
        ih h hinside hnodup ((headings_skip rfl).mp hsignatures) hdistinct
      exact ⟨hmodels, List.forall_mem_cons.mpr ⟨trivial, hheadings⟩⟩
    | function node name params result body =>
      rw [functionIds_function, List.nodup_cons] at hnodup
      obtain ⟨signature, others, hsignature, hothers, rfl⟩ := headings_function.mp hsignatures
      have hhead : outer.Works 0 (fun _ => True) s
          ((CheckM.declareHeading node name params result).run s).2 :=
        CheckM.declareHeading_works hinside (Nat.zero_le _) trivial name params result
      have hrest : outer.Works 0 (· ∈ functionIds rest) _
          ((CheckM.declareHeadings rest).run
            ((CheckM.declareHeading node name params result).run s).2).2 :=
        CheckM.declareHeadings_works rest hhead.inside (Nat.zero_le _) fun _ hid => hid
      obtain ⟨hseen', hheading⟩ := h.heading node body hsignature (not_mem_seen hdistinct)
      rw [List.append_cons] at hdistinct ⊢
      obtain ⟨hmodels, hheadings⟩ := ih hseen' hhead.inside hnodup.2 hothers hdistinct
      refine ⟨hmodels, List.forall_mem_cons.mpr ⟨?_, hheadings⟩⟩
      -- The headings that follow have numbers of their own, so this one is still there.
      exact hheading.grows (fun _ _ => id) hrest.grows fun _ => hnodup.1

end headings

end TigerLang

import TigerLang.Proofs.BlockHeadings
import TigerLang.Proofs.Writes

/-! The verdict on a block: first its types, then the headings of its functions, then its variables
and the bodies of its functions in their order. -/

namespace TigerLang

section vars
variable {rep : Rep} {s : Checker}

theorem CheckM.declareVar_silent {node : Node} {name : String} {ty : Ty} :
    Silent s (declareVar node name ty) ↔ s.vars.hasHere name = false := by
  rw [Silent, declareVar, run_bind, run_bind, defineVar_run]
  have hsame : ((noteSlot node ((reserve ty).run s).1).run ((reserve ty).run s).2).2.vars =
      s.vars := rfl
  rw [hsame]
  cases s.vars.hasHere name with
  | true => exact iff_of_false (diagnostics_ne_of_report List.prefix_rfl _ _) (by simp)
  | false => exact iff_of_true rfl rfl

theorem Models.declareVar {Γ : Context} (h : Models Γ rep s) {vars : Scope TypedVar} {name : String}
    {τ : SiteType} {ty : Ty} (hvars : ∀ n, vars.value? n = if n = name then some ⟨τ, false⟩
      else Γ.vars.value? n) (hτ : rep τ ty) (hfree : s.vars.hasHere name = false) (node : Node) :
    let s' := ((CheckM.declareVar node name ty).run s).2
    Models { Γ with vars } rep s' ∧
      ∀ n, s'.vars.hasHere n = true ↔ n = name ∨ s.vars.hasHere n = true := by
  intro s'
  have hrun : s' = { ((CheckM.reserve ty >>= CheckM.noteSlot node).run s).2 with
      vars := s.vars.bind name ⟨ty, ((CheckM.reserve ty).run s).1, false⟩ } := by
    unfold s'
    rw [CheckM.declareVar, CheckM.run_bind, CheckM.run_bind, CheckM.defineVar_run, if_neg]
    · rfl
    · exact ne_true_of_eq_false hfree
  rw [hrun]
  constructor
  · exact ⟨h.resolved, h.types, rel_define h.vars hvars ⟨hτ, rfl⟩, h.functions, h.loop,
      h.sane.reserve rfl rfl rfl rfl (h.sane.faithful.ne_error hτ) rfl⟩
  · exact fun n => Scopes.hasHere_bind _ _ _ n

def paramVars (params : List Field) (types : List SiteType) : Scope TypedVar :=
  params.zipWith (fun param τ => (param.name, ⟨τ, false⟩)) types

theorem Models.declareParams (Γ : Context) {params : List Field} {types : List SiteType}
    {tys : List Ty} (done : Scope TypedVar) {vars : Scope TypedVar}
    (h : Models { Γ with vars := done ++ vars } rep s)
    (hhere : ∀ n, s.vars.hasHere n = true ↔ n ∈ done.map Prod.fst)
    (hdone : (done.map Prod.fst).Nodup) {blocks : List (List Dec)}
    (hparams : ParamsDenote blocks params types) (htypes : List.Forall₂ rep types tys)
    {outer : Checker} (hinside : outer.Inside s) :
    (Silent s (CheckM.declareParams params tys) ↔
        (done.map Prod.fst ++ params.map Field.name).Nodup) ∧
      ((done.map Prod.fst ++ params.map Field.name).Nodup →
        Models { Γ with vars := done ++ paramVars params types ++ vars } rep
          ((CheckM.declareParams params tys).run s).2) := by
  induction hparams generalizing s done tys with
  | nil =>
    refine ⟨iff_of_true rfl (by simpa using hdone), fun _ => ?_⟩
    have hnil : paramVars [] [] = [] := rfl
    rw [hnil, List.append_nil]
    exact h
  | @cons param τ params types _ hparams ih =>
    cases htypes with
    | @cons _ ty _ tys hτ htypes =>
    have hfirst : outer.Works 0 (fun _ => True) s
        ((CheckM.declareVar param.node param.name ty).run s).2 :=
      CheckM.declareVar_works hinside (Nat.zero_le _) param.node trivial param.name ty
    have hrest : outer.Works 0 (fun _ => True) _ ((CheckM.declareParams params tys).run
        ((CheckM.declareVar param.node param.name ty).run s).2).2 :=
      CheckM.declareParams_works params tys hfirst.inside (Nat.zero_le _) fun _ _ => trivial
    have hfree : s.vars.hasHere param.name = false ↔ param.name ∉ done.map Prod.fst := by
      rw [← hhere, Bool.not_eq_true]
    rw [CheckM.declareParams, silent_bind hfirst.grows.diagnostics hrest.grows.diagnostics,
      CheckM.declareVar_silent, hfree]
    by_cases hname : param.name ∈ done.map Prod.fst
    · have hrepeated : ¬ (done.map Prod.fst ++ (param :: params).map Field.name).Nodup := by
        rw [List.nodup_append]
        exact fun hnodup => hnodup.2.2 _ hname _ List.mem_cons_self rfl
      exact ⟨iff_of_false (fun hsilent => hsilent.1 hname) hrepeated, fun hnodup =>
        absurd hnodup hrepeated⟩
    · obtain ⟨hmodels, hhere'⟩ := h.declareVar (Scope.value?_insert hname ⟨τ, false⟩ vars) hτ
        (hfree.mpr hname) param.node
      rw [List.append_cons] at hmodels
      have hhere₁ : ∀ n,
          ((CheckM.declareVar param.node param.name ty).run s).2.vars.hasHere n = true ↔
            n ∈ (done ++ [(param.name, TypedVar.mk τ false)]).map Prod.fst := by
        intro n
        rw [hhere' n, hhere n]
        simp [or_comm]
      obtain ⟨hsilent, htyped⟩ := ih _ hmodels hhere₁ (Scope.nodup_concat hdone hname _) htypes
        hfirst.inside
      have hnames : (done ++ [(param.name, TypedVar.mk τ false)]).map Prod.fst ++
          params.map Field.name = done.map Prod.fst ++ (param :: params).map Field.name := by simp
      have hvars : (done ++ [(param.name, ⟨τ, false⟩)]) ++ paramVars params types ++ vars =
          done ++ paramVars (param :: params) (τ :: types) ++ vars := by simp [paramVars]
      rw [hnames] at hsilent htyped
      rw [hvars] at htyped
      exact ⟨(and_iff_right hname).trans hsilent, htyped⟩

end vars

section function
variable {Γ : Context} {rep : Rep} {s : Checker}

theorem TypesMatch.entered {blocks : List (List Dec)} {types : Scopes TypeBinding}
    (h : TypesMatch blocks rep types) : TypesMatch blocks rep (types.within []) := by
  have hsame : ∀ name, typeOf? (types.within []) name = typeOf? types name := by
    intro name
    rw [typeOf?, typeOf?, Scopes.find?_within_nil]
  constructor
  · intro name τ hτ
    rw [hsame]
    exact h.found hτ
  · intro name ty hty
    rw [hsame] at hty
    exact h.denoted hty

theorem Models.functionEntered (h : Models Γ rep s) (frame : Nat) :
    Models { Γ with inLoop := false } rep (Situated.functionEntered s frame) where
  resolved := h.resolved.within (by simp)
  types := h.types.entered
  vars n := by
    have hsame : (Situated.functionEntered s frame).vars.find? n = s.vars.find? n :=
      Scopes.find?_within_nil _ _
    rw [hsame]
    exact h.vars n
  functions n := by
    have hsame : (Situated.functionEntered s frame).functions.find? n = s.functions.find? n :=
      Scopes.find?_within_nil _ _
    rw [hsame]
    exact h.functions n
  loop := iff_of_false (by simp) (Nat.lt_irrefl 0)
  sane := h.sane.congr rfl rfl rfl rfl rfl

def FunctionTyped (Γ : Context) (params : List Field) (result : Option String) (body : Exp)
    (A : Annotations) : Prop :=
  ∃ signature σ, SignatureDenotes Γ.blocks params result signature ∧
    (params.map Field.name).Nodup ∧ HasType (Γ.withParams params signature.params) body σ A ∧
    Compatible signature.result σ

theorem CheckM.inFunction_silent (frame : Nat) (x : CheckM Unit) :
    Silent s (inFunction frame x) ↔
      Silent { s with frames := s.frames.enter frame, loopDepth := 0 } x := by
  rw [Silent, (inFunction_reports frame x s).2]
  rfl

theorem Sane.leave {s' : Checker} (h : Sane rep s) (hregistry : s'.registry = s.registry)
    (hframes : s'.frames = s.frames.leave) (hfacts : s'.facts = s.facts) : Sane rep s' := by
  have hexps := congrArg Facts.expTypes hfacts
  have hvars := congrArg Facts.varTypes hfacts
  have hfunctions := congrArg Facts.functions hfacts
  have hframes := congrArg Frames.frames hframes
  unfold Frames.leave at hframes
  split at hframes
  · exact h.congr hregistry hexps hvars hfunctions hframes
  · exact h.finalize hregistry hexps hvars hfunctions _ hframes

def Checker.bodyEntered (s : Checker) (info : Routine) (params : List Field) : Checker :=
  ((CheckM.declareParams params info.params).run (Situated.functionEntered s info.frame)).2

theorem Models.bodyEntered (h : Models Γ rep s) {info : Routine} {params : List Field}
    {types : List SiteType} (hparams : ParamsDenote Γ.blocks params types)
    (htypes : List.Forall₂ rep types info.params) :
    (Silent (Situated.functionEntered s info.frame) (CheckM.declareParams params info.params) ↔
        (params.map Field.name).Nodup) ∧
      ((params.map Field.name).Nodup →
        Models (Γ.withParams params types) rep (s.bodyEntered info params)) := by
  have hinside : Checker.Inside { s with frames := s.frames.enter info.frame, loopDepth := 0 }
      (Situated.functionEntered s info.frame) := Checker.inside_entered h.resolved
  have hhere : ∀ n, (Situated.functionEntered s info.frame).vars.hasHere n = true ↔
      n ∈ ([] : Scope TypedVar).map Prod.fst := by
    intro n
    simp [Situated.functionEntered, Checker.entered]
  exact Models.declareParams { Γ with inLoop := false } [] (h.functionEntered info.frame) hhere .nil
    hparams htypes hinside

def CheckM.checkBody (info : Routine) (result : Option String) (body : Exp) : CheckM Unit := do
  let bodyType ← inferExp body
  let expected := if result.isSome then info.result else .void
  discard (require expected bodyType body.start)

theorem CheckM.checkFunction_info (hs : AllResolved s.types) {node : Node} {info : Routine}
    (hinfo : s.facts.routine? node.id = some info) (params : List Field) (result : Option String)
    (body : Exp) :
    let s₁ := ((checkBody info result body).run (s.bodyEntered info params)).2
    let s' := ((checkFunction node.id params result body).run s).2
    (Silent s (checkFunction node.id params result body) ↔
        Silent (Situated.functionEntered s info.frame) (declareParams params info.params) ∧
          Silent (s.bodyEntered info params) (checkBody info result body)) ∧
      s'.facts = s₁.facts ∧ s'.frames = s₁.frames.leave ∧ s'.registry = s₁.registry := by
  intro s₁ s'
  have hrun : (checkFunction node.id params result body).run s = (inFunction info.frame (inScope
      (declareParams params info.params >>= fun _ => checkBody info result body))).run s := by
    rw [checkFunction, run_get_bind, hinfo]
    rfl
  have hinside : Checker.Inside { s with frames := s.frames.enter info.frame, loopDepth := 0 }
      (Situated.functionEntered s info.frame) := Checker.inside_entered hs
  have hdeclared : Checker.Works _ 0 (fun _ => True) _ (s.bodyEntered info params) :=
    declareParams_works params info.params hinside (Nat.zero_le _) fun _ _ => trivial
  have hbody : Keeps (· ∈ body.ids) (checkBody info result body) :=
    (inferExp_keeps body).bind fun _ => .of_onlyReports (OnlyReports.require _ _ _).discard
  have hrest := (hbody _ hdeclared.inside.resolved).grows.diagnostics
  constructor
  · rw [Silent, hrun]
    exact (inFunction_silent _ _).trans
      (silent_bind (f := fun _ => checkBody info result body) hdeclared.grows.diagnostics hrest)
  · unfold s'
    rw [hrun]
    exact inFunction_output _ _ _

def ExpVerdict (e : Exp) : Prop :=
  ∀ (Γ : Context) (pre : Link), Verdict Γ pre [] e.ids (CheckM.inferExp e) Link.type (HasType Γ e)

theorem CheckM.checkBody_verdict (Γ : Context) {body : Exp} (hbody : ExpVerdict body)
    (info : Routine) (result : Option String) (τ : SiteType) :
    Verdict Γ (.type τ (if result.isSome then info.result else .void)) [] body.ids
      (checkBody info result body) (fun (_ : Unit) _ => .nothing)
      fun _ A => ∃ σ, HasType Γ body σ A ∧ Compatible τ σ :=
  (hbody Γ _).andThen fun _ _ => Ruled.require (fun _ h => h.1) fun _ h => h.2

variable {node : Node} {name : String} {params : List Field} {result : Option String} {body : Exp}

theorem HasHeading.expected {blocks : List (List Dec)}
    (h : HasHeading blocks rep s (.function node name params result body))
    (hfaithful : Faithful s.registry rep) :
    ∃ info signature, s.facts.routine? node.id = some info ∧
      SignatureDenotes blocks params result signature ∧
      List.Forall₂ rep signature.params info.params ∧
      rep signature.result (if result.isSome then info.result else .void) := by
  obtain ⟨info, signature, hinfo, hsignature, hparams, hresult⟩ := h
  refine ⟨info, signature, hinfo, hsignature, hparams, ?_⟩
  cases result with
  | some name => exact hresult
  | none =>
    rw [resultDenotes_iff.mp hsignature.2]
    exact hfaithful.void

theorem Models.checkFunction_silent (h : Models Γ rep s) (hbody : ExpVerdict body)
    (hheading : HasHeading Γ.blocks rep s (.function node name params result body))
    (hnodup : body.ids.Nodup) (hapart : rep.Apart body.ids) :
    Silent s (CheckM.checkFunction node.id params result body) ↔
      ∃ A, FunctionTyped Γ params result body A := by
  obtain ⟨info, signature, hinfo, hsignature, hparams, hresult⟩ :=
    hheading.expected h.sane.faithful
  have hverdict := CheckM.checkBody_verdict (Γ.withParams params signature.params) hbody info result
    signature.result
  obtain ⟨hsilent, htyped⟩ := h.bodyEntered hsignature.1 hparams
  -- The body is judged where the parameters have been accepted.
  have hinner : (params.map Field.name).Nodup →
      (Silent (s.bodyEntered info params) (CheckM.checkBody info result body) ↔
        ∃ _ : Unit, ∃ A σ, HasType (Γ.withParams params signature.params) body σ A ∧
          Compatible signature.result σ) :=
    fun hdistinct => hverdict.silent ⟨hnodup, hapart, htyped hdistinct, hresult⟩
  rw [(CheckM.checkFunction_info h.resolved hinfo params result body).1, hsilent,
    and_congr_right hinner]
  constructor
  · rintro ⟨hdistinct, -, A, σ, hσ, hfit⟩
    exact ⟨A, signature, σ, hsignature, hdistinct, hσ, hfit⟩
  · rintro ⟨A, other, σ, hother, hdistinct, hσ, hfit⟩
    obtain rfl := hsignature.unique hother
    exact ⟨hdistinct, (), A, σ, hσ, hfit⟩

theorem Models.checkFunction (h : Models Γ rep s) (hbody : ExpVerdict body)
    (hheading : HasHeading Γ.blocks rep s (.function node name params result body))
    (hnodup : body.ids.Nodup) (hapart : rep.Apart body.ids) {A : Annotations}
    (hA : FunctionTyped Γ params result body A) :
    ∃ rep', Settled rep body.ids A .nothing
      ((CheckM.checkFunction node.id params result body).run s).2 rep' := by
  obtain ⟨info, signature, hinfo, hsignature, hparams, hresult⟩ :=
    hheading.expected h.sane.faithful
  obtain ⟨other, σ, hother, hdistinct, hσ, hfit⟩ := hA
  obtain rfl := hsignature.unique hother
  obtain ⟨-, htyped⟩ := h.bodyEntered hsignature.1 hparams
  have hposed : Posed (Γ.withParams params signature.params) (.type signature.result
      (if result.isSome then info.result else .void)) [] body.ids rep
      (s.bodyEntered info params) := ⟨hnodup, hapart, htyped hdistinct, hresult⟩
  obtain ⟨rep', hextends, hsane, -, hnoted⟩ :=
    (CheckM.checkBody_verdict _ hbody info result signature.result).typed (a := ()) hposed
      ⟨σ, hσ, hfit⟩
  obtain ⟨-, hfacts, hframes, hregistry⟩ :=
    CheckM.checkFunction_info h.resolved hinfo params result body
  refine ⟨rep', hextends, hsane.leave hregistry hframes hfacts, trivial, ?_⟩
  unfold Noted
  rw [hfacts]
  exact hnoted

end function

section decs

def Dec.valueIds : List Dec → List Nat
  | [] => []
  | .var _ _ _ init :: decs => init.ids ++ Dec.valueIds decs
  | .type _ _ _ :: decs => Dec.valueIds decs
  | .function _ _ _ _ body :: decs => body.ids ++ Dec.valueIds decs

theorem Dec.valueIds_cons (d : Dec) (decs : List Dec) :
    Dec.valueIds (d :: decs) = Dec.valueIds [d] ++ Dec.valueIds decs := by
  cases d <;> simp [valueIds]

theorem Dec.count_typeIds_valueIds (id : Nat) (decs : List Dec) :
    (typeIds decs).count id + (Dec.valueIds decs).count id ≤ (Dec.innerIds decs).count id := by
  induction decs with
  | nil => exact Nat.le_refl _
  | cons d decs ih =>
    cases d with
    | var node name typeName init =>
      have hids : typeIds (.var node name typeName init :: decs) = typeIds decs := rfl
      simp only [hids, valueIds, innerIds, List.count_cons, List.count_append]
      omega
    | type node name definition =>
      have hids : typeIds (.type node name definition :: decs) = node.id :: typeIds decs := rfl
      simp only [hids, valueIds, innerIds, List.count_cons]
      omega
    | function node name params result body =>
      have hids : typeIds (.function node name params result body :: decs) = typeIds decs := rfl
      simp only [hids, valueIds, innerIds, List.count_append]
      omega

theorem Dec.valueIds_subset (decs : List Dec) : Dec.valueIds decs ⊆ Dec.innerIds decs := by
  intro id hid
  have hle := Dec.count_typeIds_valueIds id decs
  have hpos := List.count_pos_iff.mpr hid
  exact List.count_pos_iff.mp (by omega)

theorem Dec.valueIds_subset_ids (decs : List Dec) : Dec.valueIds decs ⊆ Dec.idsList decs :=
  fun _ hid => Dec.innerIds_subset decs (Dec.valueIds_subset decs hid)

theorem Dec.typeIds_subset_ids (decs : List Dec) : typeIds decs ⊆ Dec.idsList decs := by
  intro id hid
  have hle := Dec.count_typeIds_valueIds id decs
  have hpos := List.count_pos_iff.mpr hid
  exact Dec.innerIds_subset decs (List.count_pos_iff.mp (by omega))

theorem Dec.nodup_typeIds_valueIds {decs : List Dec} (h : (Dec.innerIds decs).Nodup) :
    (typeIds decs ++ Dec.valueIds decs).Nodup := by
  rw [List.nodup_iff_count] at h ⊢
  intro id
  have hle := Dec.count_typeIds_valueIds id decs
  have hid := h id
  rw [List.count_append]
  omega

variable {Γ Γ' : Context} {A : Annotations}

theorem decsHaveTypes_cons {d : Dec} {decs : List Dec} :
    DecsHaveTypes Γ (d :: decs) Γ' A ↔ ∃ Γ₁ B C, DecsHaveTypes Γ [d] Γ₁ B ∧
      DecsHaveTypes Γ₁ decs Γ' C ∧ A = B ++ C := by
  constructor
  · intro h
    cases h with
    | var hinit htype hrest =>
      exact ⟨_, _, _, .var hinit htype .nil, hrest, by simp⟩
    | type hrest => exact ⟨_, _, _, .type .nil, hrest, by simp⟩
    | function hparams hdistinct hresult hbody hfit hrest =>
      exact ⟨_, _, _, .function hparams hdistinct hresult hbody hfit .nil, hrest, by simp⟩
  · rintro ⟨Γ₁, B, C, hd, hrest, rfl⟩
    cases hd with
    | var hinit htype hnil =>
      cases hnil
      rw [List.append_nil]
      exact .var hinit htype hrest
    | type hnil =>
      cases hnil
      exact .type hrest
    | function hparams hdistinct hresult hbody hfit hnil =>
      cases hnil
      rw [List.append_nil]
      exact .function hparams hdistinct hresult hbody hfit hrest

theorem decsHaveTypes_nil : DecsHaveTypes Γ [] Γ' A ↔ Γ' = Γ ∧ A = [] := by
  constructor
  · intro h
    cases h
    exact ⟨rfl, rfl⟩
  · rintro ⟨rfl, rfl⟩
    exact .nil

theorem decsHaveTypes_var {node : Node} {name : String} {typeName : Option String} {init : Exp} :
    DecsHaveTypes Γ [.var node name typeName init] Γ' A ↔ ∃ τ σ, HasType Γ init σ A ∧
      DeclaredType Γ.blocks typeName σ τ ∧ Γ' = Γ.withVar name τ := by
  constructor
  · intro h
    cases h with
    | var hinit htype hnil =>
      cases hnil
      rw [List.append_nil]
      exact ⟨_, _, hinit, htype, rfl⟩
  · rintro ⟨τ, σ, hinit, htype, rfl⟩
    rw [← List.append_nil A]
    exact .var hinit htype .nil

theorem decsHaveTypes_type {node : Node} {name : String} {definition : TypeExp} :
    DecsHaveTypes Γ [.type node name definition] Γ' A ↔ Γ' = Γ ∧ A = [] := by
  rw [← decsHaveTypes_nil]
  constructor
  · intro h
    cases h with
    | type hrest => exact hrest
  · exact .type

theorem decsHaveTypes_function {node : Node} {name : String} {params : List Field}
    {result : Option String} {body : Exp} :
    DecsHaveTypes Γ [.function node name params result body] Γ' A ↔
      FunctionTyped Γ params result body A ∧ Γ' = Γ := by
  constructor
  · intro h
    cases h with
    | function hparams hdistinct hresult hbody hfit hnil =>
      cases hnil
      rw [List.append_nil]
      exact ⟨⟨⟨_, _⟩, _, ⟨hparams, hresult⟩, hdistinct, hbody, hfit⟩, rfl⟩
  · rintro ⟨⟨signature, σ, hsignature, hdistinct, hbody, hfit⟩, rfl⟩
    rw [← List.append_nil A]
    exact .function hsignature.1 hdistinct hsignature.2 hbody hfit .nil

theorem DecsHaveTypes.blocks_eq {decs : List Dec} (h : DecsHaveTypes Γ decs Γ' A) :
    Γ'.blocks = Γ.blocks := by
  induction decs generalizing Γ A with
  | nil => rw [(decsHaveTypes_nil.mp h).1]
  | cons d decs ih =>
    obtain ⟨Γ₁, B, C, hd, hrest, -⟩ := decsHaveTypes_cons.mp h
    rw [ih hrest]
    cases d with
    | var node name typeName init =>
      obtain ⟨τ, σ, -, -, rfl⟩ := decsHaveTypes_var.mp hd
      rfl
    | type node name definition => rw [(decsHaveTypes_type.mp hd).1]
    | function node name params result body => rw [(decsHaveTypes_function.mp hd).2]

end decs

structure BlockPosed (Γ : Context) (decs : List Dec) (seen : List String) (rep : Rep)
    (outer : Checker) (base : Nat) (s : Checker) : Prop where
  inside : outer.Inside s
  base_le : base ≤ s.frames.frames.size
  frames : FramesFrom base decs s
  nodup : (functionIds decs ++ Dec.innerIds decs).Nodup
  apart : rep.Apart (Dec.valueIds decs)
  models : Models Γ rep s
  headings : ∀ d ∈ decs, HasHeading Γ.blocks rep s d
  distinct : seen.Nodup
  here : ∀ name, s.vars.hasHere name = true ↔ name ∈ seen

structure BlockSettled (Γ : Context) (decs : List Dec) (seen : List String) (rep : Rep)
    (A : Annotations) (s : Checker) (rep' : Rep) : Prop where
  extends_ : rep.Extends rep' (Dec.valueIds decs)
  models : Models Γ rep' s
  noted : Noted rep' A s
  here : ∀ name, s.vars.hasHere name = true ↔ name ∈ seen ++ varNames decs

structure BodiesVerdict (decs : List Dec) : Prop where
  within : ∀ {Γ Γ' A}, DecsHaveTypes Γ decs Γ' A → ∀ entry ∈ A, entry.1 ∈ Dec.valueIds decs
  silent : ∀ {Γ seen rep outer base s}, BlockPosed Γ decs seen rep outer base s →
    (Silent s (CheckM.checkBodies decs) ↔
      (seen ++ varNames decs).Nodup ∧ ∃ Γ' A, DecsHaveTypes Γ decs Γ' A)
  typed : ∀ {Γ Γ' A seen rep outer base s}, BlockPosed Γ decs seen rep outer base s →
    (seen ++ varNames decs).Nodup → DecsHaveTypes Γ decs Γ' A →
    ∃ rep', BlockSettled Γ' decs seen rep A ((CheckM.checkBodies decs).run s).2 rep'

section posed
variable {Γ Γ' : Context} {d : Dec} {decs : List Dec} {seen : List String} {rep rep' : Rep}
  {outer s : Checker} {base : Nat} {A : Annotations}

theorem BlockPosed.first (h : BlockPosed Γ (d :: decs) seen rep outer base s) :
    BlockPosed Γ [d] seen rep outer base s where
  inside := h.inside
  base_le := h.base_le
  frames := fun other hother => h.frames other (by simp_all)
  nodup := by
    have hnodup := h.nodup
    rw [Dec.innerIds_cons d decs, ← List.singleton_append, functionIds_append] at hnodup
    exact hnodup.sublist ((List.sublist_append_left _ _).append (List.sublist_append_left _ _))
  apart := by
    refine h.apart.subset ?_
    rw [Dec.valueIds_cons d decs]
    exact List.subset_append_left _ _
  models := h.models
  headings := fun other hother => h.headings other (by simp_all)
  distinct := h.distinct
  here := h.here

theorem varNames_cons (d : Dec) (decs : List Dec) :
    varNames (d :: decs) = varNames [d] ++ varNames decs := by
  cases d <;> rfl

theorem mem_functionIds {d : Dec} {decs : List Dec} (hd : d ∈ decs)
    (hfunction : d.isFunction = true) : d.node.id ∈ functionIds decs :=
  List.mem_map_of_mem (List.mem_filter.mpr ⟨hd, hfunction⟩)

theorem BlockPosed.second (h : BlockPosed Γ (d :: decs) seen rep outer base s)
    (hdistinct : (seen ++ varNames [d]).Nodup) (htypes : DecsHaveTypes Γ [d] Γ' A)
    (hd : BlockSettled Γ' [d] seen rep A ((CheckM.checkBodies [d]).run s).2 rep') :
    BlockPosed Γ' decs (seen ++ varNames [d]) rep' outer base
      ((CheckM.checkBodies [d]).run s).2 := by
  have hwork := CheckM.checkBodies_works [d] h.inside h.base_le h.first.frames
  have hnodup := h.nodup
  rw [Dec.innerIds_cons d decs, ← List.singleton_append, functionIds_append] at hnodup
  have hrest : (functionIds decs ++ Dec.innerIds decs).Nodup :=
    hnodup.sublist ((List.sublist_append_right _ _).append (List.sublist_append_right _ _))
  obtain ⟨-, hinner, hapart⟩ := List.nodup_append.mp hnodup
  obtain ⟨-, -, hdisjoint⟩ := List.nodup_append.mp hinner
  refine ⟨hwork.inside, h.base_le.trans hwork.grows.size_le, h.frames.tail.grows hwork.grows, hrest,
    ?_, hd.models, fun other hother => ?_, hdistinct, hd.here⟩
  · refine (h.apart.subset ?_).extends hd.extends_ fun id hid hid' => ?_
    · rw [Dec.valueIds_cons d decs]
      exact List.subset_append_right _ _
    · exact hdisjoint id (Dec.valueIds_subset _ hid) id (Dec.valueIds_subset _ hid') rfl
  · rw [htypes.blocks_eq]
    refine (h.headings other (List.mem_cons_of_mem _ hother)).grows (fun _ _ => hd.extends_.le)
      hwork.grows fun hfunction hid => ?_
    exact hapart _ (List.mem_append_right _ (mem_functionIds hother hfunction)) _
      (List.mem_append_left _ hid) rfl

theorem BlockSettled.append {B : Annotations} {Γ₁ : Context} {rep₁ : Rep} {s₁ : Checker}
    (h : BlockSettled Γ₁ [d] seen rep A s₁ rep₁)
    (h' : BlockSettled Γ' decs (seen ++ varNames [d]) rep₁ B s rep') (hnoted : Noted rep' A s) :
    BlockSettled Γ' (d :: decs) seen rep (A ++ B) s rep' where
  extends_ := by
    rw [Dec.valueIds_cons d decs]
    exact (h.extends_.mono (List.subset_append_left _ _)).trans
      (h'.extends_.mono (List.subset_append_right _ _))
  models := h'.models
  noted := hnoted.append h'.noted
  here name := by rw [h'.here, varNames_cons d decs, List.append_assoc]

end posed

namespace BodiesVerdict
variable {decs : List Dec}

theorem nil : BodiesVerdict [] where
  within h := by simp [(decsHaveTypes_nil.mp h).2]
  silent {Γ seen rep outer base s} hs :=
    iff_of_true rfl ⟨by simpa [varNames] using hs.distinct, Γ, [], .nil⟩
  typed {Γ Γ' A seen rep outer base s} hs _ h := by
    obtain ⟨rfl, rfl⟩ := decsHaveTypes_nil.mp h
    exact ⟨rep, .refl _ _, hs.models, by simp [Noted],
      fun n => (hs.here n).trans (by simp [varNames])⟩

theorem cons {d : Dec} (hd : BodiesVerdict [d]) (hdecs : BodiesVerdict decs) :
    BodiesVerdict (d :: decs) where
  within {Γ Γ' A} h entry hentry := by
    obtain ⟨Γ₁, B, C, hB, hC, rfl⟩ := decsHaveTypes_cons.mp h
    rw [Dec.valueIds_cons d decs]
    rcases List.mem_append.mp hentry with hentry | hentry
    · exact List.mem_append_left _ (hd.within hB entry hentry)
    · exact List.mem_append_right _ (hdecs.within hC entry hentry)
  silent {Γ seen rep outer base s} hs := by
    have hwork := CheckM.checkBodies_works [d] hs.inside hs.base_le hs.first.frames
    have hrest := CheckM.checkBodies_works decs hwork.inside (hs.base_le.trans hwork.grows.size_le)
      (hs.frames.tail.grows hwork.grows)
    have hboth : Silent s (CheckM.checkBodies (d :: decs)) ↔ Silent s (CheckM.checkBodies [d]) ∧
        Silent ((CheckM.checkBodies [d]).run s).2 (CheckM.checkBodies decs) := by
      rw [Silent, CheckM.checkBodies_cons]
      exact silent_bind (f := fun _ => CheckM.checkBodies decs) hwork.grows.diagnostics
        hrest.grows.diagnostics
    rw [hboth, hd.silent hs.first, varNames_cons d decs, ← List.append_assoc]
    constructor
    · rintro ⟨⟨hdistinct, Γ₁, B, hB⟩, hsilent⟩
      obtain ⟨rep', hsettled⟩ := hd.typed hs.first hdistinct hB
      obtain ⟨hall, Γ', C, hC⟩ := (hdecs.silent (hs.second hdistinct hB hsettled)).mp hsilent
      exact ⟨hall, Γ', B ++ C, decsHaveTypes_cons.mpr ⟨Γ₁, B, C, hB, hC, rfl⟩⟩
    · rintro ⟨hall, Γ', A, hA⟩
      obtain ⟨Γ₁, B, C, hB, hC, -⟩ := decsHaveTypes_cons.mp hA
      have hdistinct := hall.sublist (List.sublist_append_left _ _)
      obtain ⟨rep', hsettled⟩ := hd.typed hs.first hdistinct hB
      exact ⟨⟨hdistinct, Γ₁, B, hB⟩,
        (hdecs.silent (hs.second hdistinct hB hsettled)).mpr ⟨hall, Γ', C, hC⟩⟩
  typed {Γ Γ' A seen rep outer base s} hs hall hA := by
    obtain ⟨Γ₁, B, C, hB, hC, rfl⟩ := decsHaveTypes_cons.mp hA
    rw [varNames_cons d decs, ← List.append_assoc] at hall
    have hdistinct := hall.sublist (List.sublist_append_left _ _)
    obtain ⟨rep₁, hfirst⟩ := hd.typed hs.first hdistinct hB
    have hsecond := hs.second hdistinct hB hfirst
    obtain ⟨rep', hrest⟩ := hdecs.typed hsecond hall hC
    have hwork := CheckM.checkBodies_works decs hsecond.inside hsecond.base_le hsecond.frames
    rw [CheckM.checkBodies_cons]
    refine ⟨rep', hfirst.append hrest ?_⟩
    refine hfirst.noted.grows hrest.extends_.le hwork.grows fun entry hentry hid => ?_
    -- The first declaration has none of the numbers of the others.
    obtain ⟨-, hinner, -⟩ := List.nodup_append.mp hs.nodup
    rw [Dec.innerIds_cons d decs, List.nodup_append] at hinner
    exact hinner.2.2 _ (Dec.valueIds_subset _ (hd.within hB entry hentry)) _ hid rfl

theorem type (node : Node) (name : String) (definition : TypeExp) :
    BodiesVerdict [.type node name definition] where
  within h := by simp [(decsHaveTypes_type.mp h).2]
  silent {Γ seen rep outer base s} hs :=
    iff_of_true rfl ⟨by simpa [varNames] using hs.distinct, Γ, [], .type .nil⟩
  typed {Γ Γ' A seen rep outer base s} hs _ h := by
    obtain ⟨rfl, rfl⟩ := decsHaveTypes_type.mp h
    exact ⟨rep, .refl _ _, hs.models, by simp [Noted],
      fun n => (hs.here n).trans (by simp [varNames])⟩

def initType (node : Node) (typeName : Option String) (init : Exp) : CheckM Ty := do
  let initType ← CheckM.inferExp init
  CheckM.declaredType node typeName initType init.start

theorem initType_verdict (node : Node) (typeName : Option String) {init : Exp}
    (hinit : ExpVerdict init) (Γ : Context) :
    Verdict Γ .nothing [] init.ids (initType node typeName init) Link.type
      fun τ A => ∃ σ, HasType Γ init σ A ∧ DeclaredType Γ.blocks typeName σ τ :=
  (hinit Γ .nothing).andThen fun _ _ => Ruled.declaredType typeName fun h => h.2

theorem valueIds_var (node : Node) (name : String) (typeName : Option String) (init : Exp) :
    Dec.valueIds [.var node name typeName init] = init.ids := List.append_nil _

theorem posed_var {node : Node} {name : String} {typeName : Option String} {init : Exp}
    {Γ : Context} {seen : List String} {rep : Rep} {outer s : Checker} {base : Nat}
    (hs : BlockPosed Γ [.var node name typeName init] seen rep outer base s) :
    Posed Γ .nothing [] init.ids rep s where
  nodup := by
    have hnodup : (node.id :: (init.ids ++ [])).Nodup := hs.nodup
    exact hnodup.sublist (by simp)
  apart := valueIds_var node name typeName init ▸ hs.apart
  models := hs.models
  given := trivial

theorem var {node : Node} {name : String} {typeName : Option String} {init : Exp}
    (hinit : ExpVerdict init) : BodiesVerdict [.var node name typeName init] where
  within {Γ Γ' A} h entry hentry := by
    obtain ⟨τ, σ, hσ, -, -⟩ := decsHaveTypes_var.mp h
    rw [valueIds_var]
    exact (hinit Γ .nothing).within hσ entry hentry
  silent {Γ seen rep outer base s} hs := by
    have hverdict := initType_verdict node typeName hinit Γ
    have hkeeps := hverdict.keeps s hs.models.resolved
    set x := initType node typeName init
    have hresolved : AllResolved (x.run s).2.types := hkeeps.resolved hs.models.resolved
    have hdeclare := (declareVar_grows hresolved node name (x.run s).1).1.diagnostics
    have hboth : Silent s (CheckM.checkBodies [.var node name typeName init]) ↔ Silent s x ∧
        Silent (x.run s).2 (CheckM.declareVar node name (x.run s).1) :=
      silent_bind (f := CheckM.declareVar node name) hkeeps.grows.diagnostics hdeclare
    have hfree : (x.run s).2.vars.hasHere name = false ↔ (seen ++ [name]).Nodup := by
      rw [hkeeps.env.vars, ← Bool.not_eq_true, hs.here, List.nodup_append_comm,
        List.singleton_append, List.nodup_cons, and_iff_left hs.distinct]
    rw [hboth, hverdict.silent (posed_var hs), CheckM.declareVar_silent, hfree, and_comm]
    refine and_congr_right fun _ => ?_
    constructor
    · rintro ⟨τ, A, σ, hσ, hτ⟩
      exact ⟨_, A, decsHaveTypes_var.mpr ⟨τ, σ, hσ, hτ, rfl⟩⟩
    · rintro ⟨Γ', A, hA⟩
      obtain ⟨τ, σ, hσ, hτ, -⟩ := decsHaveTypes_var.mp hA
      exact ⟨τ, A, σ, hσ, hτ⟩
  typed {Γ Γ' A seen rep outer base s} hs hdistinct h := by
    obtain ⟨τ, σ, hσ, hτ, rfl⟩ := decsHaveTypes_var.mp h
    have hverdict := initType_verdict node typeName hinit Γ
    have hkeeps := hverdict.keeps s hs.models.resolved
    obtain ⟨rep', hsettled⟩ := hverdict.typed (posed_var hs) ⟨σ, hσ, hτ⟩
    set x := initType node typeName init
    have hmodels := hs.models.keeps hkeeps.env hsettled.extends_.le hsettled.sane
    have hname : name ∉ seen := fun hmem =>
      (List.nodup_append.mp hdistinct).2.2 name hmem name (by simp [varNames]) rfl
    have hfree : (x.run s).2.vars.hasHere name = false := by
      rwa [hkeeps.env.vars, ← Bool.not_eq_true, hs.here]
    obtain ⟨hvar, hhere⟩ := hmodels.declareVar (fun n => Scope.value?_cons n name _ _) hsettled.link
      hfree node
    have hfacts := (CheckM.declareVar_output node name (x.run s).1 (x.run s).2).1
    refine ⟨rep', ?_, hvar, ?_, fun n => ?_⟩
    · rw [valueIds_var]
      exact hsettled.extends_
    · intro entry hentry
      obtain ⟨ty, hty, hrep⟩ := hsettled.noted entry hentry
      exact ⟨ty, (congrArg (fun a : Facts => a.expTypes[entry.1]?) hfacts).trans hty, hrep⟩
    · refine (hhere n).trans ?_
      rw [hkeeps.env.vars, hs.here]
      simp [varNames, or_comm]

theorem valueIds_function (node : Node) (name : String) (params : List Field)
    (result : Option String) (body : Exp) :
    Dec.valueIds [.function node name params result body] = body.ids := List.append_nil _

theorem body_fresh {node : Node} {name : String} {params : List Field} {result : Option String}
    {body : Exp} {Γ : Context} {seen : List String} {rep : Rep} {outer s : Checker} {base : Nat}
    (hs : BlockPosed Γ [.function node name params result body] seen rep outer base s) :
    body.ids.Nodup ∧ rep.Apart body.ids := by
  have hnodup : (node.id :: (params.map (·.node.id) ++ (body.ids ++ []))).Nodup := hs.nodup
  rw [List.append_nil] at hnodup
  exact ⟨hnodup.sublist ((List.sublist_append_right _ _).cons _),
    valueIds_function node name params result body ▸ hs.apart⟩

theorem function {node : Node} {name : String} {params : List Field} {result : Option String}
    {body : Exp} (hbody : ExpVerdict body) :
    BodiesVerdict [.function node name params result body] where
  within {Γ Γ' A} h entry hentry := by
    obtain ⟨⟨signature, σ, -, -, hσ, -⟩, -⟩ := decsHaveTypes_function.mp h
    rw [valueIds_function]
    exact (hbody _ .nothing).within hσ entry hentry
  silent {Γ seen rep outer base s} hs := by
    obtain ⟨hnodup, hapart⟩ := body_fresh hs
    have hfunction := hs.models.checkFunction_silent hbody
      (hs.headings _ (List.mem_singleton_self _)) hnodup hapart
    rw [Silent, CheckM.checkBodies_function]
    refine hfunction.trans ?_
    simp [decsHaveTypes_function, varNames, hs.distinct]
  typed {Γ Γ' A seen rep outer base s} hs hdistinct h := by
    obtain ⟨hA, rfl⟩ := decsHaveTypes_function.mp h
    obtain ⟨hnodup, hapart⟩ := body_fresh hs
    obtain ⟨rep', hsettled⟩ := hs.models.checkFunction hbody
      (hs.headings _ (List.mem_singleton_self _)) hnodup hapart hA
    set s' := ((CheckM.checkFunction node.id params result body).run s).2
    have hkeeps : s.SameEnv s' ∧ s.Grows 0 0 (fun _ => True) s' :=
      CheckM.checkFunction_keeps result hs.models.resolved (Nat.zero_le _)
        (fun _ _ => Nat.zero_le _) (fun _ _ => trivial)
        ((CheckM.inferExp_keeps body).mono fun _ _ => trivial)
    have hrun : ((CheckM.checkBodies [.function node name params result body]).run s).2 = s' := by
      rw [CheckM.checkBodies_function]
      rfl
    rw [hrun]
    refine ⟨rep', (valueIds_function node name params result body).symm ▸ hsettled.extends_,
      hs.models.keeps hkeeps.1 hsettled.extends_.le hsettled.sane, hsettled.noted, fun n => ?_⟩
    rw [hkeeps.1.vars, hs.here]
    simp [varNames]

end BodiesVerdict

def Checker.typesDeclared (s : Checker) (decs : List Dec) : Checker :=
  ((CheckM.declareTypes decs >>= CheckM.resolveTypes).run s.entered).2

def Checker.headingsDeclared (s : Checker) (decs : List Dec) : Checker :=
  ((CheckM.declareHeadings decs).run (s.typesDeclared decs)).2

section block
variable {Γ : Context} {rep : Rep} {s : Checker} {decs : List Dec}

theorem silent_block {α : Type} {x : CheckM α} {touched : Nat → Prop} (hs : AllResolved s.types)
    (hx : Keeps touched x) :
    Silent s (CheckM.inScope do CheckM.declareBlock decs; CheckM.checkBodies decs; x) ↔
      Silent s.entered (CheckM.declareTypes decs >>= CheckM.resolveTypes) ∧
      Silent (s.typesDeclared decs) (CheckM.declareHeadings decs) ∧
      Silent (s.headingsDeclared decs) (CheckM.checkBodies decs) ∧
      Silent ((CheckM.checkBodies decs).run (s.headingsDeclared decs)).2 x := by
  have htypes : s.Works s.frames.frames.size (fun _ => True) s.entered (s.typesDeclared decs) :=
    CheckM.declareTypes_works hs decs
  have hheadings : s.Works s.frames.frames.size (fun _ => True) _ (s.headingsDeclared decs) :=
    CheckM.declareHeadings_works decs htypes.inside htypes.grows.size_le fun _ _ => trivial
  have hframes : FramesFrom s.frames.frames.size decs (s.headingsDeclared decs) :=
    CheckM.declareHeadings_framesFrom decs htypes.inside htypes.grows.size_le
  have hbodies := CheckM.checkBodies_works decs hheadings.inside
    (htypes.grows.size_le.trans hheadings.grows.size_le) hframes
  have hlast := (hx _ hbodies.inside.resolved).grows.diagnostics
  have hrest := hbodies.grows.diagnostics.trans hlast
  have hchain : Silent s (CheckM.inScope do
      CheckM.declareBlock decs; CheckM.checkBodies decs; x) ↔
      Silent s.entered ((CheckM.declareTypes decs >>= CheckM.resolveTypes) >>= fun _ => do
        CheckM.declareHeadings decs; CheckM.checkBodies decs; x) := Iff.rfl
  refine hchain.trans ((silent_bind (f := fun _ => do
    CheckM.declareHeadings decs; CheckM.checkBodies decs; x) htypes.grows.diagnostics
      (hheadings.grows.diagnostics.trans hrest)).trans (and_congr_right fun _ => ?_))
  refine (silent_bind (f := fun _ => do CheckM.checkBodies decs; x) hheadings.grows.diagnostics
    hrest).trans (and_congr_right fun _ => ?_)
  exact silent_bind (f := fun _ => x) hbodies.grows.diagnostics hlast

theorem Models.typesDeclared (h : Models Γ rep s) (hformed : TypesFormed Γ.blocks decs)
    (hapart : rep.Apart (Dec.idsList decs)) :
    HeadingsSeen Γ decs [] (rep.withBlock Γ.blocks decs (s.typesDeclared decs).types)
      (s.typesDeclared decs) := by
  obtain ⟨scope, hsettled⟩ :=
    CheckM.declareTypes_resolveTypes h.resolved (s := s.entered) rfl decs
  have helsewhere := hsettled.resolving.elsewhere
  have hvars : (s.typesDeclared decs).vars = s.vars.within [] := helsewhere.vars
  have hfunctions : (s.typesDeclared decs).functions = s.functions.within [] :=
    helsewhere.functions
  have hdepth : (s.typesDeclared decs).loopDepth = s.loopDepth := helsewhere.loopDepth
  obtain ⟨hresolved, htypes, hsane⟩ :=
    h.declareTypes hformed (hapart.subset (Dec.typeIds_subset_ids decs))
  refine ⟨⟨hresolved, htypes, fun n => ?_, fun n => ?_, ?_, hsane⟩, fun n => ?_⟩
  · rw [hvars, Scopes.find?_within_nil]
    exact rel_imp (h.vars n) fun hvar => ⟨.inl hvar.1, hvar.2⟩
  · rw [hfunctions, Scopes.find?_within_nil]
    exact rel_imp (h.functions n) fun hfun => ⟨hfun.1.imp fun _ _ => .inl, .inl hfun.2⟩
  · rw [hdepth]
    exact h.loop
  · rw [hfunctions]
    simp

theorem Models.declareHeadings_silent (h : Models Γ rep s) (hformed : TypesFormed Γ.blocks decs)
    (hapart : rep.Apart (Dec.idsList decs)) :
    Silent (s.typesDeclared decs) (CheckM.declareHeadings decs) ↔
      ∃ signatures, Headings (decs :: Γ.blocks) decs signatures ∧
        (signatures.map Prod.fst).Nodup := by
  have htypes : s.Works s.frames.frames.size (fun _ => True) s.entered (s.typesDeclared decs) :=
    CheckM.declareTypes_works h.resolved decs
  exact (h.typesDeclared hformed hapart).silent_rest decs .nil htypes.inside

theorem Models.headingsDeclared (h : Models Γ rep s) (hformed : TypesFormed Γ.blocks decs)
    (hnodup : (Dec.idsList decs).Nodup) (hapart : rep.Apart (Dec.idsList decs))
    {signatures : Scope Signature} (hheadings : Headings (decs :: Γ.blocks) decs signatures)
    (hdistinct : (signatures.map Prod.fst).Nodup) :
    BlockPosed (Γ.withBlock decs signatures) decs []
      (rep.withBlock Γ.blocks decs (s.typesDeclared decs).types) s s.frames.frames.size
      (s.headingsDeclared decs) := by
  have hids := Dec.nodup_functionIds_innerIds hnodup
  obtain ⟨hfunctions, hinner, -⟩ := List.nodup_append.mp hids
  obtain ⟨hblock, hframes⟩ := CheckM.declareBlock_works h.resolved decs fun _ _ => trivial
  have htypes : s.Works s.frames.frames.size (fun _ => True) s.entered (s.typesDeclared decs) :=
    CheckM.declareTypes_works h.resolved decs
  have hinside := htypes.inside
  have hseen := h.typesDeclared hformed hapart
  obtain ⟨hmodels, hall⟩ := hseen.rest decs hinside hfunctions hheadings hdistinct
  refine ⟨hblock.inside, hblock.grows.size_le, hframes, hids, ?_, hmodels, hall, .nil, fun n => ?_⟩
  · obtain ⟨-, -, hdisjoint⟩ := List.nodup_append.mp (Dec.nodup_typeIds_valueIds hinner)
    exact (hapart.subset (Dec.valueIds_subset_ids decs)).extends (rep.withBlock_extends _)
      fun id hid hid' => hdisjoint id hid id hid' rfl
  · obtain ⟨-, hvars, -⟩ := CheckM.declareHeadings_names decs hinside.resolved
    obtain ⟨scope, hsettled⟩ :=
      CheckM.declareTypes_resolveTypes h.resolved (s := s.entered) rfl decs
    have hempty : (s.headingsDeclared decs).vars = s.vars.within [] :=
      hvars.trans hsettled.resolving.elsewhere.vars
    rw [hempty]
    simp

theorem Posed.afterBlock {Γ' : Context} {pre : Link} {ids : List Nat} {types : Scopes TypeBinding}
    {A : Annotations} {s' : Checker} {rep' : Rep}
    (h : Posed Γ pre [] (Dec.idsList decs ++ ids) rep s)
    (hdecs : BlockSettled Γ' decs [] (rep.withBlock Γ.blocks decs types) A s' rep') :
    rep.Extends rep' (Dec.idsList decs) ∧ Posed Γ' pre [] ids rep' s' := by
  have hextends : rep.Extends rep' (Dec.idsList decs) :=
    ((rep.withBlock_extends types).mono (Dec.typeIds_subset_ids decs)).trans
      (hdecs.extends_.mono (Dec.valueIds_subset_ids decs))
  have hids : (Dec.idsList decs ++ ids).Nodup := h.nodup
  obtain ⟨-, hnodup, hdisjoint⟩ := List.nodup_append.mp hids
  refine ⟨hextends, hnodup, ?_, hdecs.models, pre.mono (fun _ _ => hextends.le) h.given⟩
  exact (h.apart.subset (List.subset_append_right _ _)).extends hextends
    fun id hid hid' => hdisjoint id hid id hid' rfl

end block

theorem Verdict.block {α σ : Type} {Γ : Context} {pre : Link} {decs : List Dec}
    {ids : List Nat} {x : CheckM α} {rel : σ → α → Link} {P : Context → σ → Annotations → Prop}
    (hdecs : BodiesVerdict decs) (hx : ∀ Γ', Verdict Γ' pre [] ids x rel (P Γ')) :
    Verdict Γ pre [] (Dec.idsList decs ++ ids)
      (CheckM.inScope do CheckM.declareBlock decs; CheckM.checkBodies decs; x) rel
      fun a C => ∃ signatures Γ' A B, TypesFormed Γ.blocks decs ∧
        (Headings (decs :: Γ.blocks) decs signatures ∧ (signatures.map Prod.fst).Nodup) ∧
        ((varNames decs).Nodup ∧ DecsHaveTypes (Γ.withBlock decs signatures) decs Γ' A) ∧
        P Γ' a B ∧ C = A ++ B where
  keeps := CheckM.block_keeps (CheckM.checkBodies_works decs) (hx Γ).keeps
  within {a C} ha entry hentry := by
    obtain ⟨signatures, Γ', A, B, -, -, ⟨-, hA⟩, hB, rfl⟩ := ha
    rcases List.mem_append.mp hentry with hentry | hentry
    · exact List.mem_append_left _ (Dec.valueIds_subset_ids decs (hdecs.within hA entry hentry))
    · exact List.mem_append_right _ ((hx Γ').within hB entry hentry)
  silent {rep s} hs := by
    have hnodup : (Dec.idsList decs).Nodup := hs.nodup.sublist (List.sublist_append_left _ _)
    have hapart : rep.Apart (Dec.idsList decs) := hs.apart.subset (List.subset_append_left _ _)
    have hformed : Silent s.entered (CheckM.declareTypes decs >>= CheckM.resolveTypes) ↔
        TypesFormed Γ.blocks decs := typesFormed_iff hs.models decs
    rw [silent_block hs.resolved (hx Γ).keeps, hformed]
    -- Each phase is judged where those before it have been accepted.
    constructor
    · rintro ⟨hformed, hheadings, hbodies, hlast⟩
      obtain ⟨signatures, hsignatures, hfunctions⟩ :=
        (hs.models.declareHeadings_silent hformed hapart).mp hheadings
      have hposed := hs.models.headingsDeclared hformed hnodup hapart hsignatures hfunctions
      obtain ⟨hvars, Γ', A, hA⟩ := (hdecs.silent hposed).mp hbodies
      obtain ⟨rep', hsettled⟩ := hdecs.typed hposed hvars hA
      obtain ⟨a, B, hB⟩ := ((hx Γ').silent (hs.afterBlock hsettled).2).mp hlast
      exact ⟨a, A ++ B, signatures, Γ', A, B, hformed, ⟨hsignatures, hfunctions⟩, ⟨hvars, hA⟩, hB,
        rfl⟩
    · rintro ⟨a, -, signatures, Γ', A, B, hformed, ⟨hsignatures, hfunctions⟩, ⟨hvars, hA⟩, hB, rfl⟩
      have hheadings := (hs.models.declareHeadings_silent hformed hapart).mpr
        ⟨signatures, hsignatures, hfunctions⟩
      have hposed := hs.models.headingsDeclared hformed hnodup hapart hsignatures hfunctions
      obtain ⟨rep', hsettled⟩ := hdecs.typed hposed hvars hA
      exact ⟨hformed, hheadings, (hdecs.silent hposed).mpr ⟨hvars, Γ', A, hA⟩,
        ((hx Γ').silent (hs.afterBlock hsettled).2).mpr ⟨a, B, hB⟩⟩
  typed {rep s a C} hs ha := by
    obtain ⟨signatures, Γ', A, B, hformed, ⟨hheadings, hfunctions⟩, ⟨hvars, hA⟩, hB, rfl⟩ := ha
    have hnodup : (Dec.idsList decs).Nodup := hs.nodup.sublist (List.sublist_append_left _ _)
    have hapart : rep.Apart (Dec.idsList decs) := hs.apart.subset (List.subset_append_left _ _)
    have hids : (Dec.idsList decs ++ ids).Nodup := hs.nodup
    have hposed := hs.models.headingsDeclared hformed hnodup hapart hheadings hfunctions
    obtain ⟨rep₁, hsettled⟩ := hdecs.typed hposed hvars hA
    obtain ⟨hextends, hafter⟩ := hs.afterBlock hsettled
    obtain ⟨rep₂, hlast⟩ := (hx Γ').typed hafter hB
    have hkeeps := (hx Γ').keeps _ hafter.resolved
    have hnoted := hsettled.noted.grows hlast.extends_.le hkeeps.grows fun entry hentry hid => by
      have hmem := Dec.valueIds_subset_ids decs (hdecs.within hA entry hentry)
      exact (List.nodup_append.mp hids).2.2 _ hmem _ hid rfl
    refine ⟨rep₂, ?_, hlast.sane.congr rfl rfl rfl rfl rfl, hlast.link, hnoted.append hlast.noted⟩
    exact (hextends.mono (List.subset_append_left _ _)).trans
      (hlast.extends_.mono (List.subset_append_right _ _))

end TigerLang

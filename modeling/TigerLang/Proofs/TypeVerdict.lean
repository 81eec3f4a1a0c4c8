import TigerLang.Proofs.BlockVerdict

/-! The verdict on every expression: it is accepted if and only if it has a type by the rules. There
is one lemma for each kind of expression, given the verdicts on its parts. -/

namespace TigerLang

def VarVerdict (v : Var) : Prop :=
  ∀ (Γ : Context) (pre : Link),
    Verdict Γ pre [] v.ids (CheckM.inferVar v) Link.type (VarHasType Γ v)

def ExpsVerdict (es : List Exp) : Prop :=
  ∀ (Γ : Context) (pre : Link),
    Verdict Γ pre [] (Exp.idsList es) (CheckM.inferExps es) Link.types (ExpsHaveTypes Γ es)

def GivenVerdict (fields : List FieldExp) : Prop :=
  ∀ (Γ : Context) (pre : Link), Verdict Γ pre [] (FieldExp.idsList fields)
    (CheckM.inferGiven fields) Link.given (FieldsHaveTypes Γ fields)

section rules
variable {Γ : Context} {pre : Link} {τ σ : SiteType} {t u : Ty} {position : Position}

theorem Ruled.requireInt (hσ : ∀ {rep}, pre.holds rep → rep σ u) :
    Ruled Γ pre (discard (CheckM.require .int u position)) (fun (_ : Unit) _ => .nothing)
      fun _ => σ = .int :=
  (Ruled.require (fun h _ => h.int) fun _ h => hσ h).congr fun _ =>
    (compatible_base (.inl rfl)).symm

theorem Ruled.requireFit
    (hτ : ∀ {registry rep}, Faithful registry rep → pre.holds rep → rep τ t)
    (hσ : ∀ {rep}, pre.holds rep → rep σ u) :
    Ruled Γ pre (discard (CheckM.require t u position) >>= fun _ => Pure.pure .void) Link.type
      fun ρ => Compatible τ σ ∧ ρ = .void := by
  have hrequire : Ruled Γ pre (discard (CheckM.require t u position))
      (fun (_ : Unit) _ => .nothing) fun _ => Compatible τ σ := Ruled.require hτ fun _ h => hσ h
  refine (hrequire.bind (fun _ _ => Ruled.pure fun h _ => h.void) fun _ => .pure _).congr
    fun ρ => ?_
  rw [exists_const]

theorem Ruled.requireVoid (hσ : ∀ {rep}, pre.holds rep → rep σ u) :
    Ruled Γ pre (discard (CheckM.require .void u position) >>= fun _ => Pure.pure .void) Link.type
      fun ρ => σ = .void ∧ ρ = .void := by
  refine (Ruled.requireFit (fun h _ => h.void) hσ).congr fun ρ => ?_
  rw [compatible_base (.inr rfl)]

end rules

section exps
variable {node : Node}

theorem expVerdict_leaf {e : Exp} {τ : SiteType} {t : Ty}
    (hcheck : CheckM.inferExp e = CheckM.noteExp e.node (Pure.pure t)) (hids : e.ids = [e.node.id])
    (hrep : ∀ {registry rep}, Faithful registry rep → rep τ t)
    (htype : ∀ {Γ σ A}, HasType Γ e σ A ↔ σ = τ ∧ A = [(e.node.id, τ)]) : ExpVerdict e := by
  intro Γ pre
  rw [hcheck, hids]
  refine (Verdict.exp (List.nil_sublist _) (.of_ruled (Ruled.pure fun h _ => hrep h))).congr
    fun σ A => ?_
  rw [htype]
  constructor
  · rintro ⟨rfl, rfl⟩
    exact ⟨[], ⟨rfl, rfl⟩, rfl⟩
  · rintro ⟨_, ⟨rfl, rfl⟩, rfl⟩
    exact ⟨rfl, rfl⟩

theorem expVerdict_var {target : Var} (h : VarVerdict target) : ExpVerdict (.var node target) := by
  intro Γ pre
  refine (Verdict.exp (List.nil_sublist _) (h Γ pre)).congr fun τ A => ?_
  constructor
  · rintro (_ | _ | _ | h)
    exact ⟨_, h, rfl⟩
  · rintro ⟨B, h, rfl⟩
    exact .var h

theorem expVerdict_binary {op : Operator} {left right : Exp} (hleft : ExpVerdict left)
    (hright : ExpVerdict right) : ExpVerdict (.binary node op left right) := by
  intro Γ pre
  refine (Verdict.exp (List.nil_sublist _) ((hleft Γ pre).bind fun τ t =>
    (hright Γ _).andThen fun σ u => Ruled.typeOfBinary op (fun h => h.1.2) fun h => h.2)).congr
    fun τ A => ?_
  constructor
  · intro h
    cases h with
    | binary hleft hright hfit => exact ⟨_, ⟨_, _, _, hleft, ⟨_, hright, hfit, rfl⟩, rfl⟩, rfl⟩
  · rintro ⟨_, ⟨τ, A, B, hleft, ⟨σ, hright, hfit, rfl⟩, rfl⟩, rfl⟩
    exact .binary hleft hright hfit

theorem expVerdict_call {function : String} {args : List Exp} (hargs : ExpsVerdict args) :
    ExpVerdict (.call node function args) := by
  intro Γ pre
  have hcall := (hargs Γ pre).bind fun types given =>
    Verdict.typeOfCall node function fun h => h.2
  rw [List.append_nil] at hcall
  refine (Verdict.exp (List.Sublist.refl _) hcall).congr fun τ A => ?_
  constructor
  · intro h
    cases h with
    | call hargs hfunction hfit =>
      exact ⟨_, ⟨_, _, _, hargs, ⟨⟨_, hfunction, hfit, rfl⟩, rfl⟩, (List.append_nil _).symm⟩, rfl⟩
  · rintro ⟨_, ⟨types, A, _, hargs, ⟨⟨signature, hfunction, hfit, rfl⟩, rfl⟩, rfl⟩, rfl⟩
    rw [List.append_nil]
    exact .call hargs hfunction hfit

theorem expVerdict_record {typeName : String} {given : List FieldExp}
    (hgiven : GivenVerdict given) : ExpVerdict (.record node typeName given) := by
  intro Γ pre
  refine (Verdict.exp (List.nil_sublist _) (Verdict.after (Ruled.typeNamed typeName _) fun τ t =>
    (hgiven Γ _).andThen fun typed fields =>
      Ruled.typeOfRecord (fun h => h.1.2) fun h => h.2)).congr fun τ A => ?_
  constructor
  · intro h
    cases h with
    | record htype hgiven hfit => exact ⟨_, ⟨_, htype, _, hgiven, _, _, rfl, hfit, rfl⟩, rfl⟩
  · rintro ⟨A, ⟨_, htype, typed, hgiven, site, fields, rfl, hfit, rfl⟩, rfl⟩
    exact .record htype hgiven hfit

theorem getLast?_represented {rep : Rep} {types : List SiteType} {typed : List (Ty × Position)}
    (h : (Link.types types typed).holds rep) {τ : SiteType} {t : Ty} (hτ : rep τ t) :
    rep (types.getLast?.getD τ) ((typed.getLast?.map Prod.fst).getD t) := by
  unfold Link.types at h
  dsimp only at h
  induction h generalizing τ t with
  | nil => exact hτ
  | @cons σ arg types typed hσ _ ih =>
    have hrest := ih hσ
    rw [List.getLast?_cons, List.getLast?_cons]
    cases htyped : typed.getLast? with
    | none =>
      rw [htyped] at hrest
      exact hrest
    | some last =>
      rw [htyped] at hrest
      exact hrest

theorem expVerdict_seq {exps : List Exp} (hexps : ExpsVerdict exps) :
    ExpVerdict (.seq node exps) := by
  intro Γ pre
  refine (Verdict.exp (List.nil_sublist _) ((hexps Γ pre).andThen fun types typed =>
    Ruled.pure fun h hpre => getLast?_represented hpre.2 h.void)).congr fun τ A => ?_
  constructor
  · intro h
    cases h with
    | seq h => exact ⟨_, ⟨_, h, rfl⟩, rfl⟩
  · rintro ⟨A, ⟨types, h, rfl⟩, rfl⟩
    exact .seq h

theorem expVerdict_assign {target : Var} {value : Exp} (htarget : VarVerdict target)
    (hvalue : ExpVerdict value) : ExpVerdict (.assign node target value) := by
  intro Γ pre
  have hassign : ∀ τ t σ u, Ruled Γ ((pre.both (.type τ t)).both (.type σ u))
      (CheckM.checkAssignable target >>= fun _ => discard (CheckM.require t u value.start) >>=
        fun _ => Pure.pure .void) Link.type fun ρ => ∃ _ : Unit,
          (∀ {varNode name var}, target = .simple varNode name → Γ.vars.value? name = some var →
            var.readOnly = false) ∧ Compatible τ σ ∧ ρ = .void :=
    fun τ t σ u => Ruled.bind (Ruled.checkAssignable target)
      (fun _ _ => Ruled.requireFit (fun _ h => h.1.1.2) fun h => h.1.2)
      fun _ => .require_then _ _ _ (.pure _)
  refine (Verdict.exp (List.nil_sublist _) ((htarget Γ pre).bind fun τ t =>
    (hvalue Γ _).andThen fun σ u => hassign τ t σ u)).congr fun τ A => ?_
  constructor
  · intro h
    cases h with
    | assign htarget hvalue hwritable hfit =>
      exact ⟨_, ⟨_, _, _, htarget, ⟨_, hvalue, (), hwritable, hfit, rfl⟩, rfl⟩, rfl⟩
  · rintro ⟨_, ⟨τ, A, B, htarget, ⟨σ, hvalue, -, hwritable, hfit, rfl⟩, rfl⟩, rfl⟩
    exact .assign htarget hvalue hwritable hfit

theorem expVerdict_ifThen {test body : Exp} (htest : ExpVerdict test) (hbody : ExpVerdict body) :
    ExpVerdict (.ifThen node test body) := by
  intro Γ pre
  refine (Verdict.exp (List.nil_sublist _) ((htest Γ pre).bind fun τ t =>
    Verdict.after (Ruled.requireInt fun h => h.2) fun _ _ =>
      (hbody Γ _).andThen fun σ u => Ruled.requireVoid fun h => h.2)).congr fun τ A => ?_
  constructor
  · intro h
    cases h with
    | ifThen htest hbody => exact ⟨_, ⟨_, _, _, htest, ⟨(), rfl, _, hbody, rfl, rfl⟩, rfl⟩, rfl⟩
  · rintro ⟨_, ⟨_, A, B, htest, ⟨-, rfl, _, hbody, rfl, rfl⟩, rfl⟩, rfl⟩
    exact .ifThen htest hbody

theorem expVerdict_ifThenElse {test yes no : Exp} (htest : ExpVerdict test) (hyes : ExpVerdict yes)
    (hno : ExpVerdict no) : ExpVerdict (.ifThenElse node test yes no) := by
  intro Γ pre
  refine (Verdict.exp (List.nil_sublist _) ((htest Γ pre).bind fun τ t =>
    Verdict.after (Ruled.requireInt fun h => h.2) fun _ _ => (hyes Γ _).bind fun σ u =>
      (hno Γ _).andThen fun ρ w =>
        Ruled.typeOfBranches (fun h => h.1.2) fun h => h.2)).congr fun τ A => ?_
  constructor
  · intro h
    cases h with
    | ifThenElse htest hyes hno hfit =>
      exact ⟨_, ⟨_, _, _, htest, ⟨(), rfl, _, _, _, hyes, ⟨_, hno, hfit, rfl⟩, rfl⟩, rfl⟩, rfl⟩
  · rintro ⟨_, ⟨_, A, _, htest, ⟨-, rfl, τ, B, C, hyes, ⟨σ, hno, hfit, rfl⟩, rfl⟩, rfl⟩, rfl⟩
    exact .ifThenElse htest hyes hno hfit

theorem expVerdict_whileDo {test body : Exp} (htest : ExpVerdict test) (hbody : ExpVerdict body) :
    ExpVerdict (.whileDo node test body) := by
  intro Γ pre
  refine (Verdict.exp (List.nil_sublist _) ((htest Γ pre).bind fun τ t =>
    Verdict.after (Ruled.requireInt fun h => h.2) fun _ _ =>
      (hbody Γ.looping _).inLoop.andThen fun σ u => Ruled.requireVoid fun h => h.2)).congr
    fun τ A => ?_
  constructor
  · intro h
    cases h with
    | whileDo htest hbody => exact ⟨_, ⟨_, _, _, htest, ⟨(), rfl, _, hbody, rfl, rfl⟩, rfl⟩, rfl⟩
  · rintro ⟨_, ⟨_, A, B, htest, ⟨-, rfl, _, hbody, rfl, rfl⟩, rfl⟩, rfl⟩
    exact .whileDo htest hbody

theorem expVerdict_forTo {name : String} {lo hi body : Exp} (hlo : ExpVerdict lo)
    (hhi : ExpVerdict hi) (hbody : ExpVerdict body) : ExpVerdict (.forTo node name lo hi body) := by
  intro Γ pre
  -- The body stands inside the loop, and its variable cannot be assigned to.
  have hloop : ∀ pre', Verdict { Γ with vars := (name, ⟨.int, true⟩) :: Γ.vars } pre' [] body.ids
      (CheckM.inLoop (CheckM.inferExp body)) Link.type (HasType (Γ.withLoopVar name) body) :=
    fun pre' => .inLoop (hbody (Γ.withLoopVar name) pre')
  refine (Verdict.exp (List.Sublist.refl _) ((hlo Γ pre).bind fun τ t =>
    Verdict.after (Ruled.requireInt fun h => h.2) fun _ _ => (hhi Γ _).bind fun σ u =>
      Verdict.after (Ruled.requireInt fun h => h.2) fun _ _ =>
        (hloop _).withLoopVar.andThen fun ρ w =>
          Ruled.requireVoid fun h => h.2)).congr fun τ A => ?_
  constructor
  · intro h
    cases h with
    | forTo hlo hhi hbody =>
      exact ⟨_, ⟨_, _, _, hlo,
        ⟨(), rfl, _, _, _, hhi, ⟨(), rfl, _, hbody, rfl, rfl⟩, rfl⟩, rfl⟩, rfl⟩
  · rintro ⟨_, ⟨_, A, _, hlo, ⟨-, rfl, _, B, C, hhi, ⟨-, rfl, _, hbody, rfl, rfl⟩, rfl⟩, rfl⟩, rfl⟩
    exact .forTo hlo hhi hbody

theorem expVerdict_breakLoop : ExpVerdict (.breakLoop node) := by
  intro Γ pre
  refine (Verdict.exp (List.nil_sublist _) (.of_ruled (Ruled.typeOfBreak _))).congr fun τ A => ?_
  constructor
  · intro h
    cases h with
    | breakLoop h => exact ⟨[], ⟨⟨h, rfl⟩, rfl⟩, rfl⟩
  · rintro ⟨_, ⟨⟨h, rfl⟩, rfl⟩, rfl⟩
    exact .breakLoop h

theorem expVerdict_letIn {decs : List Dec} {body : Exp} (hdecs : BodiesVerdict decs)
    (hbody : ExpVerdict body) : ExpVerdict (.letIn node decs body) := by
  intro Γ pre
  refine (Verdict.exp (List.nil_sublist _) (.block hdecs fun Γ' => hbody Γ' pre)).congr
    fun τ A => ?_
  constructor
  · intro h
    cases h with
    | letIn htypes hheadings hfunctions hvars hdecs hbody =>
      exact ⟨_, ⟨_, _, _, _, htypes, ⟨hheadings, hfunctions⟩, ⟨hvars, hdecs⟩, hbody, rfl⟩, rfl⟩
  · rintro ⟨_, ⟨signatures, Γ', A, B, htypes, ⟨hheadings, hfunctions⟩, ⟨hvars, hdecs⟩, hbody, rfl⟩,
      rfl⟩
    exact .letIn htypes hheadings hfunctions hvars hdecs hbody

theorem expVerdict_array {typeName : String} {size init : Exp} (hsize : ExpVerdict size)
    (hinit : ExpVerdict init) : ExpVerdict (.array node typeName size init) := by
  intro Γ pre
  refine (Verdict.exp (List.nil_sublist _) (Verdict.after (Ruled.typeNamed typeName _) fun τ t =>
    (hsize Γ _).bind fun σ u => Verdict.after (Ruled.requireInt fun h => h.2) fun _ _ =>
      (hinit Γ _).andThen fun ρ w =>
        Ruled.typeOfArray (fun h => h.1.1.1.2) fun h => h.2)).congr fun τ A => ?_
  constructor
  · intro h
    cases h with
    | array htype hsize hinit helement hfit =>
      exact ⟨_, ⟨_, htype, _, _, _, hsize,
        ⟨(), rfl, _, hinit, _, _, _, rfl, helement, hfit, rfl⟩, rfl⟩, rfl⟩
  · rintro ⟨_, ⟨_, htype, _, A, B, hsize,
      ⟨-, rfl, σ, hinit, site, element, τ, rfl, helement, hfit, rfl⟩, rfl⟩, rfl⟩
    exact .array htype hsize hinit helement hfit

theorem varVerdict_simple {name : String} : VarVerdict (.simple node name) := by
  intro Γ pre
  refine (Verdict.var (List.Sublist.refl _) (.simple node name)).congr fun τ A => ?_
  constructor
  · intro h
    cases h with
    | simple h => exact ⟨⟨_, h, rfl⟩, rfl⟩
  · rintro ⟨⟨var, h, rfl⟩, rfl⟩
    exact .simple h

theorem varVerdict_field {base : Var} {name : String} (hbase : VarVerdict base) :
    VarVerdict (.field node base name) := by
  intro Γ pre
  refine (Verdict.var (List.nil_sublist _) ((hbase Γ pre).andThen fun τ t =>
    Ruled.typeOfField name fun h => h.2)).congr fun τ A => ?_
  constructor
  · intro h
    cases h with
    | field hbase hfield htype => exact ⟨_, hbase, _, _, _, rfl, hfield, htype⟩
  · rintro ⟨_, hbase, site, fields, field, rfl, hfield, htype⟩
    exact .field hbase hfield htype

theorem varVerdict_subscript {base : Var} {index : Exp} (hbase : VarVerdict base)
    (hindex : ExpVerdict index) : VarVerdict (.subscript node base index) := by
  intro Γ pre
  have helement : ∀ τ t σ u, Ruled Γ ((pre.both (.type τ t)).both (.type σ u))
      (discard (CheckM.require .int u index.start) >>= fun _ =>
        CheckM.typeOfSubscript t node.span.start) Link.type fun ρ => ∃ _ : Unit, σ = .int ∧
          ∃ site element, τ = .array site element ∧ Denotes site.blocks element ρ :=
    fun τ t σ u => Ruled.bind (Ruled.requireInt fun h => h.2)
      (fun _ _ => Ruled.typeOfSubscript fun h => h.1.1.2)
      fun _ => CheckM.typeOfSubscript_onlyReports t node.span.start
  refine (Verdict.var (List.nil_sublist _) ((hbase Γ pre).bind fun τ t =>
    (hindex Γ _).andThen fun σ u => helement τ t σ u)).congr fun τ A => ?_
  constructor
  · intro h
    cases h with
    | subscript hbase hindex htype =>
      exact ⟨_, _, _, hbase, ⟨_, hindex, (), rfl, _, _, rfl, htype⟩, rfl⟩
  · rintro ⟨_, A, B, hbase, ⟨_, hindex, -, rfl, site, element, rfl, htype⟩, rfl⟩
    exact .subscript hbase hindex htype

end exps

theorem expsVerdict_nil : ExpsVerdict [] := by
  intro Γ pre
  have hnil : Ruled Γ pre (CheckM.inferExps []) Link.types (· = []) := Ruled.pure fun _ _ => .nil
  refine (Verdict.of_ruled hnil).congr fun types A => ?_
  constructor
  · rintro (_ | _)
    exact ⟨rfl, rfl⟩
  · rintro ⟨rfl, rfl⟩
    exact .nil

theorem expsVerdict_cons {e : Exp} {es : List Exp} (he : ExpVerdict e) (hes : ExpsVerdict es) :
    ExpsVerdict (e :: es) := by
  intro Γ pre
  have hpure : ∀ τ t types typed, Ruled Γ ((pre.both (.type τ t)).both (.types types typed))
      (Pure.pure ((t, e.start) :: typed)) Link.types (· = τ :: types) :=
    fun τ t types typed => Ruled.pure fun _ h => .cons h.1.2 h.2
  refine ((he Γ pre).bind fun τ t => (hes Γ _).andThen fun types typed =>
    hpure τ t types typed).congr fun types A => ?_
  constructor
  · intro h
    cases h with
    | cons h hrest => exact ⟨_, _, _, h, ⟨_, hrest, rfl⟩, rfl⟩
  · rintro ⟨τ, A, B, h, ⟨types, hrest, rfl⟩, rfl⟩
    exact .cons h hrest

theorem givenVerdict_nil : GivenVerdict [] := by
  intro Γ pre
  have hnil : Ruled Γ pre (CheckM.inferGiven []) Link.given (· = []) := Ruled.pure fun _ _ => .nil
  refine (Verdict.of_ruled hnil).congr fun typed A => ?_
  constructor
  · rintro (_ | _)
    exact ⟨rfl, rfl⟩
  · rintro ⟨rfl, rfl⟩
    exact .nil

theorem givenVerdict_cons {span : Span} {name : String} {value : Exp} {fields : List FieldExp}
    (hvalue : ExpVerdict value) (hfields : GivenVerdict fields) :
    GivenVerdict (.mk span name value :: fields) := by
  intro Γ pre
  have hpure : ∀ τ t typed given, Ruled Γ ((pre.both (.type τ t)).both (.given typed given))
      (Pure.pure (⟨name, span.start, t, value.start⟩ :: given)) Link.given
        (· = (name, τ) :: typed) :=
    fun τ t typed given => Ruled.pure fun _ h => .cons ⟨rfl, h.1.2⟩ h.2
  refine ((hvalue Γ pre).bind fun τ t => (hfields Γ _).andThen fun typed given =>
    hpure τ t typed given).congr fun typed A => ?_
  constructor
  · intro h
    cases h with
    | cons h hrest => exact ⟨_, _, _, h, ⟨_, hrest, rfl⟩, rfl⟩
  · rintro ⟨τ, A, B, h, ⟨typed, hrest, rfl⟩, rfl⟩
    exact .cons h hrest

-- The recursion follows the tree alone: what each kind of part needs has been said above.
mutual

theorem inferExp_verdict : ∀ e : Exp, ExpVerdict e
  | .nil node => expVerdict_leaf rfl rfl (fun h => h.nil)
    ⟨fun h => by cases h; exact ⟨rfl, rfl⟩, fun ⟨hτ, hA⟩ => by subst hτ hA; exact .nil⟩
  | .int node _ => expVerdict_leaf rfl rfl (fun h => h.int)
    ⟨fun h => by cases h; exact ⟨rfl, rfl⟩, fun ⟨hτ, hA⟩ => by subst hτ hA; exact .int⟩
  | .str node _ => expVerdict_leaf rfl rfl (fun h => h.string)
    ⟨fun h => by cases h; exact ⟨rfl, rfl⟩, fun ⟨hτ, hA⟩ => by subst hτ hA; exact .str⟩
  | .var _ target => expVerdict_var (inferVar_verdict target)
  | .call _ _ args => expVerdict_call (inferExps_verdict args)
  | .binary _ _ left right => expVerdict_binary (inferExp_verdict left) (inferExp_verdict right)
  | .record _ _ fields => expVerdict_record (inferGiven_verdict fields)
  | .seq _ exps => expVerdict_seq (inferExps_verdict exps)
  | .assign _ target value => expVerdict_assign (inferVar_verdict target) (inferExp_verdict value)
  | .ifThen _ test body => expVerdict_ifThen (inferExp_verdict test) (inferExp_verdict body)
  | .ifThenElse _ test yes no =>
    expVerdict_ifThenElse (inferExp_verdict test) (inferExp_verdict yes) (inferExp_verdict no)
  | .whileDo _ test body => expVerdict_whileDo (inferExp_verdict test) (inferExp_verdict body)
  | .forTo _ _ lo hi body =>
    expVerdict_forTo (inferExp_verdict lo) (inferExp_verdict hi) (inferExp_verdict body)
  | .breakLoop _ => expVerdict_breakLoop
  | .letIn _ decs body => expVerdict_letIn (checkBodies_verdict decs) (inferExp_verdict body)
  | .array _ _ size init => expVerdict_array (inferExp_verdict size) (inferExp_verdict init)

theorem inferVar_verdict : ∀ v : Var, VarVerdict v
  | .simple _ _ => varVerdict_simple
  | .field _ base _ => varVerdict_field (inferVar_verdict base)
  | .subscript _ base index => varVerdict_subscript (inferVar_verdict base) (inferExp_verdict index)

theorem inferExps_verdict : ∀ es : List Exp, ExpsVerdict es
  | [] => expsVerdict_nil
  | e :: es => expsVerdict_cons (inferExp_verdict e) (inferExps_verdict es)

theorem inferGiven_verdict : ∀ fields : List FieldExp, GivenVerdict fields
  | [] => givenVerdict_nil
  | .mk _ _ value :: fields =>
    givenVerdict_cons (inferExp_verdict value) (inferGiven_verdict fields)

theorem checkBodies_verdict : ∀ decs : List Dec, BodiesVerdict decs
  | [] => .nil
  | .var _ _ _ init :: decs => .cons (.var (inferExp_verdict init)) (checkBodies_verdict decs)
  | .type _ _ _ :: decs => .cons (.type _ _ _) (checkBodies_verdict decs)
  | .function _ _ _ _ body :: decs =>
    .cons (.function (inferExp_verdict body)) (checkBodies_verdict decs)

end

end TigerLang

import TigerLang.Proofs.Replacement
import TigerLang.Proofs.TrackedScopes

/-! The forms of expressions and declarations side by side: each is tracked when its parts are. -/

namespace TigerLang

namespace Mistake

def TracksExp (m : Mistake) (expected : List Diagnostic) (e e' : Exp) : Prop :=
  m.Tracks AllResolved expected (fun _ => True) (CheckM.inferExp e) (CheckM.inferExp e')
    (m.Typed e.endsInNil)

def TracksVar (m : Mistake) (expected : List Diagnostic) (v v' : Var) : Prop :=
  m.Tracks AllResolved expected (fun _ => True) (CheckM.inferVar v) (CheckM.inferVar v') Ty.Known

inductive TypedAll (m : Mistake) (β : Bridge) :
    List Exp → List (Ty × Position) → List (Ty × Position) → Prop
  | nil : TypedAll m β [] [] []
  | cons {e : Exp} {es : List Exp} {a b : Ty × Position} {as bs : List (Ty × Position)}
      (h : m.Typed e.endsInNil β a.1 b.1) (hrest : TypedAll m β es as bs) :
      TypedAll m β (e :: es) (a :: as) (b :: bs)

def TracksExps (m : Mistake) (expected : List Diagnostic) (es es' : List Exp) : Prop :=
  m.Tracks AllResolved expected (fun _ => True) (CheckM.inferExps es) (CheckM.inferExps es')
    fun β types types' => m.TypedAll β es types types'

def TracksGiven (m : Mistake) (expected : List Diagnostic) (fields fields' : List FieldExp) :
    Prop :=
  m.Tracks AllResolved expected (fun _ => True) (CheckM.inferGiven fields)
    (CheckM.inferGiven fields') fun β given given' => List.Forall₂ (m.Given β) given given'

def TracksBodies (m : Mistake) (expected : List Diagnostic) (decs decs' : List Dec) : Prop :=
  m.Tracks AllResolved expected (Tracks.Declared decs) (CheckM.checkBodies decs)
    (CheckM.checkBodies decs') fun _ _ _ => True

namespace TypedAll
variable {m : Mistake} {β : Bridge} {es : List Exp} {types types' : List (Ty × Position)}

theorem follows (h : m.TypedAll β es types types') :
    List.Forall₂ (fun a b => a.1.Follows m.lossless β b.1) types types' := by
  induction h with
  | nil => exact .nil
  | cons h _ ih => exact .cons h.follows ih

theorem last (h : m.TypedAll β es types types') :
    m.Typed (Exp.lastEndsInNil es) β ((types.getLast?.map Prod.fst).getD .void)
      ((types'.getLast?.map Prod.fst).getD .void) := by
  induction h with
  | nil => exact .void
  | cons h hrest ih =>
    cases hrest with
    | nil => exact h
    | cons h' hrest' => simpa only [List.getLast?_cons_cons, Exp.lastEndsInNil] using ih

end TypedAll

namespace Tracks
variable {m : Mistake} {d₁ d₂ d₃ : List Diagnostic} {node : Node}

theorem require_exp {α α' : Type} {e e' : Exp} {t : Ty} {position position' : Position}
    {x : CheckM α} {y : CheckM α'} {post : Bridge → α → α' → Prop} {Q : Bridge → Prop}
    (hQ : Persistent Q) (ht : ∀ β, t.Same β t) (he : m.TracksExp d₁ e e')
    (hx : m.Tracks AllResolved d₂ Q x y post) :
    m.Tracks AllResolved (d₁ ++ d₂) Q
      (CheckM.inferExp e >>= fun ty =>
        Functor.discard (CheckM.require t ty position) >>= fun _ => x)
      (CheckM.inferExp e' >>= fun ty =>
        Functor.discard (CheckM.require t ty position') >>= fun _ => y) post := by
  refine (he.carry hQ).bind fun ty ty' => ?_
  apply require_then (fun β _ => .same (ht β)) (fun _ h => h.1.follows)
  exact hx.strengthen fun _ h => h.2

theorem persistent_true : Persistent fun _ => True := fun _ _ _ h => h

theorem exp_nil : m.TracksExp [] (.nil node) (.nil node) :=
  noteExp node node (pure fun _ _ => ⟨.same .nil, fun _ _ => rfl⟩)

theorem exp_int (value : Int64) : m.TracksExp [] (.int node value) (.int node value) :=
  noteExp node node (pure fun _ _ => .int)

theorem exp_str (value : String) : m.TracksExp [] (.str node value) (.str node value) :=
  noteExp node node (pure fun _ _ => .of_known ⟨.same .string, by simp⟩)

theorem exp_var {target target' : Var} (h : m.TracksVar d₁ target target') :
    m.TracksExp d₁ (.var node target) (.var node target') :=
  noteExp node node (h.conseq (fun _ h => h) fun _ _ _ h => .of_known h)

theorem exp_call (function : String) {args args' : List Exp} (h : m.TracksExps d₁ args args') :
    m.TracksExp d₁ (.call node function args) (.call node function args') := by
  apply noteExp
  refine h.bind_silent fun types types' => ?_
  have hkeeps : Keeps (fun _ => True) (CheckM.typeOfCall node function types) :=
    .typeOfCall function types trivial
  exact of_forall (.of_keeps hkeeps) fun β htypes => typeOfCall node function htypes.follows

theorem exp_binary (op : Operator) {left left' right right' : Exp}
    (hleft : m.TracksExp d₁ left left') (hright : m.TracksExp d₂ right right') :
    m.TracksExp (d₁ ++ d₂) (.binary node op left right) (.binary node op left' right') := by
  apply noteExp
  refine hleft.bind fun l l' => ?_
  refine (hright.carry (Typed.persistent m left.endsInNil l l')).bind_silent fun r r' => ?_
  exact of_forall (.of_onlyReports (CheckM.typeOfBinary_onlyReports op l r _)) fun β h =>
    typeOfBinary op h.2.follows h.1.follows

theorem exp_record (typeName : String) {fields fields' : List FieldExp}
    (h : m.TracksGiven d₁ fields fields') :
    m.TracksExp d₁ (.record node typeName fields) (.record node typeName fields') := by
  apply noteExp
  refine (typeNamed typeName _ _).andThen fun ty ty' => ?_
  have hpersistent : Persistent fun β => ty.Kept β ty' := fun _ _ hle h => h.mono hle
  refine (h.frame hpersistent).bind_silent fun given given' => ?_
  exact of_forall (.of_onlyReports (CheckM.typeOfRecord_onlyReports ty typeName given _))
    fun β h => typeOfRecord h.2 typeName h.1

theorem exp_seq {exps exps' : List Exp} (h : m.TracksExps d₁ exps exps') :
    m.TracksExp d₁ (.seq node exps) (.seq node exps') := by
  apply noteExp
  refine h.bind_silent fun types types' => ?_
  exact pure fun _ h => by simpa only [Exp.endsInNil] using h.last

theorem assignable {pre : Bridge → Prop} (hpre : Persistent pre) (id : Nat) (new : Exp)
    (target : Var) : m.Tracks AllResolved [] pre (CheckM.checkAssignable target)
      (CheckM.checkAssignable (Var.replace id new target)) fun β _ _ => pre β := by
  have hadds : Adds AllResolved (CheckM.checkAssignable target) :=
    .of_onlyReports (CheckM.checkAssignable_onlyReports target)
  cases target with
  | simple node name =>
    exact of_forall hadds fun β₀ h₀ =>
      (checkAssignable node name).conseq (fun _ h => h) fun β _ _ hle => hpre _ _ hle h₀
  | field node base name => exact pure fun _ h => h
  | subscript node base index => exact pure fun _ h => h

theorem exp_assign (id : Nat) (new : Exp) {target : Var} {value value' : Exp}
    (htarget : m.TracksVar d₁ target (Var.replace id new target))
    (hvalue : m.TracksExp d₂ value value') :
    m.TracksExp (d₁ ++ d₂) (.assign node target value)
      (.assign node (Var.replace id new target) value') := by
  apply noteExp
  refine htarget.bind fun ty ty' => ?_
  have hpersistent : Persistent fun β => ty.Known β ty' := fun _ _ hle h => h.mono hle
  refine (hvalue.carry hpersistent).bind_silent fun u u' => ?_
  have hboth := (Typed.persistent m value.endsInNil u u').and hpersistent
  refine (assignable hboth id new target).andThen fun _ _ => ?_
  apply require_then (fun _ h => h.2.follows_any m.lossless) (fun _ h => h.1.follows)
  exact pure fun _ _ => .void

theorem void_part {x y : CheckM Ty} {ends : Bool} (position position' : Position)
    (h : m.Tracks AllResolved d₁ (fun _ => True) x y (m.Typed ends)) :
    m.Tracks AllResolved d₁ (fun _ => True)
      (x >>= fun ty => Functor.discard (CheckM.require .void ty position) >>= fun _ =>
        Pure.pure Ty.void)
      (y >>= fun ty => Functor.discard (CheckM.require .void ty position') >>= fun _ =>
        Pure.pure Ty.void) (m.Typed false) := by
  refine h.bind_silent fun ty ty' => ?_
  apply require_then (fun _ _ => .same .void) (fun _ h => h.follows)
  exact pure fun _ _ => .void

theorem exp_ifThen {test test' body body' : Exp} (htest : m.TracksExp d₁ test test')
    (hbody : m.TracksExp d₂ body body') :
    m.TracksExp (d₁ ++ d₂) (.ifThen node test body) (.ifThen node test' body') := by
  apply noteExp
  exact require_exp persistent_true (fun _ => .int) htest (void_part _ _ hbody)

/-- If the mistake is in the first branch, a `nil` in the second is all that tells the type. -/
theorem exp_ifThenElse {test test' yes yes' no no' : Exp} (htest : m.TracksExp d₁ test test')
    (hyes : m.TracksExp d₂ yes yes') (hno : m.TracksExp d₃ no no')
    (hends : m.lossless → no.endsInNil = false) :
    m.TracksExp (d₁ ++ (d₂ ++ d₃)) (.ifThenElse node test yes no)
      (.ifThenElse node test' yes' no') := by
  apply noteExp
  refine require_exp persistent_true (fun _ => .int) htest ?_
  refine hyes.bind fun y y' => ?_
  refine (hno.carry (Typed.persistent m yes.endsInNil y y')).bind_silent fun n n' => ?_
  rw [Exp.endsInNil]
  exact of_forall (.of_onlyReports (CheckM.typeOfBranches_onlyReports y n _)) fun β h =>
    typeOfBranches h.2.follows h.1 hends

theorem exp_whileDo {test test' body body' : Exp} (htest : m.TracksExp d₁ test test')
    (hbody : m.TracksExp d₂ body body') :
    m.TracksExp (d₁ ++ d₂) (.whileDo node test body) (.whileDo node test' body') := by
  apply noteExp
  exact require_exp persistent_true (fun _ => .int) htest (void_part _ _ hbody.inLoop)

theorem exp_forTo {name : String} (hname : name ≠ m.name) {lo lo' hi hi' body body' : Exp}
    (hlo : m.TracksExp d₁ lo lo') (hhi : m.TracksExp d₂ hi hi')
    (hbody : m.TracksExp d₃ body body') :
    m.TracksExp (d₁ ++ (d₂ ++ d₃)) (.forTo node name lo hi body)
      (.forTo node name lo' hi' body') := by
  apply noteExp
  refine require_exp persistent_true (fun _ => .int) hlo ?_
  refine require_exp persistent_true (fun _ => .int) hhi ?_
  exact void_part _ _ (withLoopVar node hname hbody.inLoop)

theorem exp_breakLoop : m.TracksExp [] (.breakLoop node) (.breakLoop node) := by
  apply noteExp
  have hadds : Adds AllResolved (CheckM.typeOfBreak node.span.start) :=
    .of_onlyReports (CheckM.typeOfBreak_onlyReports _)
  exact of_forall hadds fun β _ => typeOfBreak

theorem exp_letIn {decs decs' : List Dec} {body body' : Exp}
    (hblock : CheckM.declareBlock decs' = CheckM.declareBlock decs)
    (hdecs : m.TracksBodies d₁ decs decs') (hbody : m.TracksExp d₂ body body') :
    m.TracksExp (d₁ ++ d₂) (.letIn node decs body) (.letIn node decs' body') := by
  unfold TracksExp CheckM.inferExp
  rw [hblock, Exp.endsInNil]
  apply noteExp
  exact block (hdecs.bind fun _ _ => hbody)

theorem exp_array (typeName : String) {size size' init init' : Exp}
    (hsize : m.TracksExp d₁ size size') (hinit : m.TracksExp d₂ init init') :
    m.TracksExp (d₁ ++ d₂) (.array node typeName size init) (.array node typeName size' init') := by
  apply noteExp
  refine (typeNamed typeName _ _).andThen fun ty ty' => ?_
  have hpersistent : Persistent fun β => True ∧ ty.Kept β ty' :=
    fun _ _ hle h => ⟨h.1, h.2.mono hle⟩
  refine require_exp hpersistent (fun _ => .int) hsize ?_
  refine (hinit.carry hpersistent).bind_silent fun u u' => ?_
  exact of_forall (.of_onlyReports (CheckM.typeOfArray_onlyReports ty typeName u _ _))
    fun β h => typeOfArray h.2.2 typeName h.1.follows

theorem var_simple (name : String) : m.TracksVar [] (.simple node name) (.simple node name) := by
  apply noteVar
  have hkeeps : Keeps (fun _ => True) (CheckM.typeOfSimple node name) := .typeOfSimple name trivial
  exact of_forall (.of_keeps hkeeps) fun β _ => typeOfSimple node name

theorem var_field (name : String) {base base' : Var} (h : m.TracksVar d₁ base base') :
    m.TracksVar d₁ (.field node base name) (.field node base' name) := by
  apply noteVar
  refine h.bind_silent fun ty ty' => ?_
  exact of_forall (.of_onlyReports (CheckM.typeOfField_onlyReports ty name _)) fun β h =>
    typeOfField h name

theorem var_subscript {base base' : Var} {index index' : Exp} (hbase : m.TracksVar d₁ base base')
    (hindex : m.TracksExp d₂ index index') :
    m.TracksVar (d₁ ++ d₂) (.subscript node base index) (.subscript node base' index') := by
  apply noteVar
  refine hbase.bind fun ty ty' => ?_
  have hpersistent : Persistent fun β => ty.Known β ty' := fun _ _ hle h => h.mono hle
  rw [← List.append_nil d₂]
  refine require_exp hpersistent (fun _ => .int) hindex ?_
  exact of_forall (.of_onlyReports (CheckM.typeOfSubscript_onlyReports ty _)) fun β h =>
    typeOfSubscript h

theorem exps_nil : m.TracksExps [] [] [] := pure fun _ _ => .nil

theorem exps_cons {e e' : Exp} {es es' : List Exp} (he : m.TracksExp d₁ e e')
    (hes : m.TracksExps d₂ es es') : m.TracksExps (d₁ ++ d₂) (e :: es) (e' :: es') := by
  refine he.bind fun ty ty' => ?_
  refine (hes.carry (Typed.persistent m e.endsInNil ty ty')).bind_silent fun types types' => ?_
  exact pure fun _ h => .cons h.2 h.1

theorem given_nil : m.TracksGiven [] [] [] := pure fun _ _ => .nil

theorem given_cons (span : Span) (name : String) {value value' : Exp}
    {fields fields' : List FieldExp} (hvalue : m.TracksExp d₁ value value') (hfields : m.TracksGiven d₂ fields fields') :
    m.TracksGiven (d₁ ++ d₂) (.mk span name value :: fields) (.mk span name value' :: fields') := by
  refine hvalue.bind fun ty ty' => ?_
  refine (hfields.carry (Typed.persistent m value.endsInNil ty ty')).bind_silent fun given given' => ?_
  exact pure fun _ h => .cons ⟨rfl, h.2.follows⟩ h.1

theorem bodies_nil : m.TracksBodies [] [] [] := pure fun _ _ => trivial

theorem bodies_var {name : String} (hname : name ≠ m.name) (typeName : Option String)
    {init init' : Exp} {decs decs' : List Dec} (hinit : m.TracksExp d₁ init init')
    (hdecs : m.TracksBodies d₂ decs decs') :
    m.TracksBodies (d₁ ++ d₂) (.var node name typeName init :: decs)
      (.var node name typeName init' :: decs') := by
  refine (hinit.carry (persistent_declared decs)).bind fun ty ty' => ?_
  have hdeclared : m.Tracks AllResolved []
      (fun β => m.Typed init.endsInNil β ty ty' ∧ Declared decs β)
      (CheckM.declaredType node typeName ty init.start)
      (CheckM.declaredType node typeName ty' init'.start)
      fun β u u' => u.Known β u' ∧ Declared decs β := by
    refine of_forall (.of_onlyReports (CheckM.declaredType_onlyReports node typeName ty _))
      fun β h => ?_
    refine ((declaredType node typeName h.1.follows).frame (persistent_declared decs)).strengthen ?_
    exact fun _ hle => ⟨hle, persistent_declared decs _ _ hle h.2⟩
  refine hdeclared.andThen fun u u' => ?_
  refine (declareVar node hname fun _ h => h.1).andThen fun _ _ => ?_
  exact hdecs.strengthen fun _ h => h.2

theorem bodies_type (name : String) (definition : TypeExp) {decs decs' : List Dec}
    (hdecs : m.TracksBodies d₁ decs decs') :
    m.TracksBodies d₁ (.type node name definition :: decs) (.type node name definition :: decs') :=
  hdecs

theorem bodies_function (hnode : node.id ∉ m.old.ids) (name : String) {params : List Field}
    (hnames : ∀ param ∈ params, param.name ≠ m.name) (result : Option String) {body body' : Exp}
    {decs decs' : List Dec} (hbody : m.TracksExp d₁ body body')
    (hdecs : m.TracksBodies d₂ decs decs') :
    m.TracksBodies (d₁ ++ d₂) (.function node name params result body :: decs)
      (.function node name params result body' :: decs') := by
  have hfirst := (checkFunction hnode hnames result hbody).frame (persistent_declared decs)
  have hboth := hfirst.bind fun _ _ => hdecs.strengthen fun _ h => h.2
  have heq : ∀ (body : Exp) (decs : List Dec),
      CheckM.checkBodies (.function node name params result body :: decs) =
        CheckM.checkFunction node.id params result body >>= fun _ => CheckM.checkBodies decs :=
    fun body decs => StateT.ext (CheckM.checkBodies_function node name params result body decs)
  unfold TracksBodies
  rw [heq, heq]
  refine hboth.strengthen fun β h => ?_
  unfold Declared at h
  rw [functionIds_function] at h
  exact List.forall_mem_cons.mp h

end Tracks

end Mistake

end TigerLang

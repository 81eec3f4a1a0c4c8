import TigerLang.Proofs.Situated

/-! The expressions that are checked along with one, listed with the states in which this happens.
None of them is checked twice, and all of them with every type name looked into. -/

namespace TigerLang

def Checker.inBody (s : Checker) (info : Routine) (params : List Field) : Checker :=
  ((CheckM.declareParams params info.params).run
    { s with frames := s.frames.enter info.frame, loopDepth := 0 }.entered).2

def Checker.inBlock (s : Checker) (decs : List Dec) : Checker :=
  ((CheckM.declareBlock decs).run s.entered).2

def Checker.afterInt (s : Checker) (e : Exp) : Checker :=
  ((do discard (CheckM.require .int (← CheckM.inferExp e) e.start) : CheckM Unit).run s).2

def Checker.afterDec (s : Checker) (d : Dec) : Checker := ((CheckM.checkBodies [d]).run s).2

mutual

/-- The expressions that are checked when one is, itself first, each with the state in which that is
done. -/
def Exp.checks : Exp → Checker → List (Exp × Checker)
  | e@(.nil _), s | e@(.int _ _), s | e@(.str _ _), s | e@(.breakLoop _), s => [(e, s)]
  | e@(.var _ target), s => (e, s) :: target.checks s
  | e@(.call _ _ args), s => (e, s) :: Exp.checksList args s
  | e@(.binary _ _ left right), s =>
    (e, s) :: (left.checks s ++ right.checks ((CheckM.inferExp left).run s).2)
  | e@(.record node typeName fields), s =>
    (e, s) :: FieldExp.checksList fields ((CheckM.typeNamed typeName node.span.start).run s).2
  | e@(.seq _ exps), s => (e, s) :: Exp.checksList exps s
  | e@(.assign _ target value), s =>
    (e, s) :: (target.checks s ++ value.checks ((CheckM.inferVar target).run s).2)
  | e@(.ifThen _ test body), s => (e, s) :: (test.checks s ++ body.checks (s.afterInt test))
  | e@(.ifThenElse _ test yes no), s =>
    (e, s) :: (test.checks s ++ (yes.checks (s.afterInt test) ++
      no.checks ((CheckM.inferExp yes).run (s.afterInt test)).2))
  | e@(.whileDo _ test body), s =>
    let tested := s.afterInt test
    (e, s) :: (test.checks s ++ body.checks { tested with loopDepth := tested.loopDepth + 1 })
  | e@(.forTo node name lo hi body), s =>
    let bounded := (s.afterInt lo).afterInt hi
    let entered := Situated.loopEntered bounded node name
    (e, s) :: (lo.checks s ++ (hi.checks (s.afterInt lo) ++
      body.checks { entered with loopDepth := entered.loopDepth + 1 }))
  | e@(.letIn _ decs body), s =>
    (e, s) :: (Dec.checksList decs (s.inBlock decs) ++
      body.checks ((CheckM.checkBodies decs).run (s.inBlock decs)).2)
  | e@(.array node typeName size init), s =>
    let named := ((CheckM.typeNamed typeName node.span.start).run s).2
    (e, s) :: (size.checks named ++ init.checks (named.afterInt size))

def Var.checks : Var → Checker → List (Exp × Checker)
  | .simple _ _, _ => []
  | .field _ base _, s => base.checks s
  | .subscript _ base index, s => base.checks s ++ index.checks ((CheckM.inferVar base).run s).2

def Exp.checksList : List Exp → Checker → List (Exp × Checker)
  | [], _ => []
  | e :: es, s => e.checks s ++ Exp.checksList es ((CheckM.inferExp e).run s).2

def FieldExp.checksList : List FieldExp → Checker → List (Exp × Checker)
  | [], _ => []
  | .mk _ _ value :: fields, s =>
    value.checks s ++ FieldExp.checksList fields ((CheckM.inferExp value).run s).2

def Dec.checksList : List Dec → Checker → List (Exp × Checker)
  | [], _ => []
  | d@(.var _ _ _ init) :: decs, s => init.checks s ++ Dec.checksList decs (s.afterDec d)
  | d@(.type _ _ _) :: decs, s => Dec.checksList decs (s.afterDec d)
  | d@(.function node _ params _ body) :: decs, s =>
    (match s.facts.routine? node.id with
      | none => []
      | some info => body.checks (s.inBody info params)) ++ Dec.checksList decs (s.afterDec d)

end

theorem Keeps.resolved {α : Type} {touched : Nat → Prop} {x : CheckM α} (hx : Keeps touched x)
    {s : Checker} (hs : AllResolved s.types) : AllResolved (x.run s).2.types :=
  (hx s hs).resolved hs

theorem CheckM.declareVar_types (node : Node) (name : String) (ty : Ty) (s : Checker) :
    ((declareVar node name ty).run s).2.types = s.types := by
  rw [declareVar, run_bind, run_bind, defineVar_run]
  split <;> rfl

theorem CheckM.checkBodies_types (decs : List Dec) {s : Checker} (hs : AllResolved s.types) :
    ((checkBodies decs).run s).2.types = s.types := by
  induction decs generalizing s with
  | nil => rfl
  | cons d decs ih =>
    cases d with
    | var node name typeName init =>
      have hinit : Keeps (fun _ => True) (inferExp init >>= fun initType =>
          declaredType node typeName initType init.start) :=
        ((inferExp_keeps init).mono fun _ _ => trivial).bind fun _ =>
          .of_onlyReports (declaredType_onlyReports _ _ _ _)
      set s₁ := ((inferExp init >>= fun initType =>
        declaredType node typeName initType init.start).run s).2
      have hs₁ : s₁.types = s.types := (hinit s hs).env.types
      rw [checkBodies]
      have hvar := (declareVar_types node name ((inferExp init >>= fun initType =>
        declaredType node typeName initType init.start).run s).1 s₁).trans hs₁
      exact (ih (hvar.symm ▸ hs)).trans hvar
    | type node name definition => exact ih hs
    | function node name params result body =>
      have hfunction : s.SameEnv ((checkFunction node.id params result body).run s).2 ∧
          s.Grows 0 0 (fun _ => True) ((checkFunction node.id params result body).run s).2 :=
        checkFunction_keeps result hs (Nat.zero_le _) (fun _ _ => Nat.zero_le _)
          (fun _ _ => trivial) ((inferExp_keeps body).mono fun _ _ => trivial)
      rw [checkBodies_function]
      exact (ih (hfunction.1.types.symm ▸ hs)).trans hfunction.1.types

section resolved
variable {s : Checker} (hs : AllResolved s.types)
include hs

theorem Checker.afterInt_resolved (e : Exp) : AllResolved (s.afterInt e).types := by
  have hkeeps := (CheckM.inferExp_keeps e).bind fun ty =>
    .of_onlyReports (OnlyReports.require .int ty e.start).discard
  exact hkeeps.resolved hs

theorem Checker.afterDec_resolved (d : Dec) : AllResolved (s.afterDec d).types :=
  (CheckM.checkBodies_types [d] hs).symm ▸ hs

theorem Checker.inBlock_resolved (decs : List Dec) : AllResolved (s.inBlock decs).types := by
  have hworks : s.Works s.frames.frames.size (fun _ => True) s.entered (s.inBlock decs) :=
    (CheckM.declareBlock_works hs decs fun _ _ => trivial).1
  exact hworks.inside.resolved

theorem Checker.inBody_resolved (info : Routine) (params : List Field) :
    AllResolved (s.inBody info params).types := by
  set outer : Checker := { s with frames := s.frames.enter info.frame, loopDepth := 0 }
  have hworks : outer.Works 0 (fun _ => True) outer.entered (s.inBody info params) :=
    CheckM.declareParams_works params info.params (Checker.inside_entered hs) (Nat.zero_le _)
      fun _ _ => trivial
  exact hworks.inside.resolved

end resolved

-- The cases follow the checker: each part is checked in a state that the parts before it have made,
-- and all of these keep the types or add resolved ones in a scope of their own.
mutual

theorem Exp.checks_resolved : ∀ (e : Exp) {s : Checker}, AllResolved s.types →
    ∀ checked ∈ e.checks s, AllResolved checked.2.types
  | .nil _, _, hs | .int _ _, _, hs | .str _ _, _, hs | .breakLoop _, _, hs => by
    simpa [Exp.checks] using hs
  | .var _ target, _, hs => by
    simpa [Exp.checks, hs] using target.checks_resolved hs
  | .call _ _ args, _, hs => by
    simpa [Exp.checks, hs] using Exp.checksList_resolved args hs
  | .binary _ _ left right, _, hs => by
    have hleft := (CheckM.inferExp_keeps left).resolved hs
    rw [Exp.checks, List.forall_mem_cons, List.forall_mem_append]
    exact ⟨hs, left.checks_resolved hs, right.checks_resolved hleft⟩
  | .record node typeName fields, _, hs => by
    have htype : Keeps (fun _ => True) (CheckM.typeNamed typeName node.span.start) :=
      .of_onlyReports (CheckM.typeNamed_onlyReports typeName node.span.start)
    rw [Exp.checks, List.forall_mem_cons]
    exact ⟨hs, FieldExp.checksList_resolved fields (htype.resolved hs)⟩
  | .seq _ exps, _, hs => by
    simpa [Exp.checks, hs] using Exp.checksList_resolved exps hs
  | .assign _ target value, _, hs => by
    have htarget := (CheckM.inferVar_keeps target).resolved hs
    rw [Exp.checks, List.forall_mem_cons, List.forall_mem_append]
    exact ⟨hs, target.checks_resolved hs, value.checks_resolved htarget⟩
  | .ifThen _ test body, s, hs => by
    rw [Exp.checks, List.forall_mem_cons, List.forall_mem_append]
    exact ⟨hs, test.checks_resolved hs, body.checks_resolved (Checker.afterInt_resolved hs test)⟩
  | .ifThenElse _ test yes no, s, hs => by
    have htest := Checker.afterInt_resolved hs test
    have hyes := (CheckM.inferExp_keeps yes).resolved htest
    rw [Exp.checks, List.forall_mem_cons, List.forall_mem_append, List.forall_mem_append]
    exact ⟨hs, test.checks_resolved hs, yes.checks_resolved htest, no.checks_resolved hyes⟩
  | .whileDo _ test body, s, hs => by
    have htest := Checker.afterInt_resolved hs test
    rw [Exp.checks, List.forall_mem_cons, List.forall_mem_append]
    exact ⟨hs, test.checks_resolved hs, body.checks_resolved htest⟩
  | .forTo node name lo hi body, s, hs => by
    have hlo := Checker.afterInt_resolved hs lo
    have hhi := Checker.afterInt_resolved hlo hi
    have hentered :
        AllResolved (Situated.loopEntered ((s.afterInt lo).afterInt hi) node name).types :=
      (Situated.keeps_loopEntered hhi node name).2.symm ▸ hhi
    rw [Exp.checks, List.forall_mem_cons, List.forall_mem_append, List.forall_mem_append]
    exact ⟨hs, lo.checks_resolved hs, hi.checks_resolved hlo, body.checks_resolved hentered⟩
  | .letIn _ decs body, s, hs => by
    have hblock := Checker.inBlock_resolved hs decs
    have hbodies := (CheckM.checkBodies_types decs hblock).symm ▸ hblock
    rw [Exp.checks, List.forall_mem_cons, List.forall_mem_append]
    exact ⟨hs, Dec.checksList_resolved decs hblock, body.checks_resolved hbodies⟩
  | .array node typeName size init, s, hs => by
    have hnamed : Keeps (fun _ => True) (CheckM.typeNamed typeName node.span.start) :=
      .of_onlyReports (CheckM.typeNamed_onlyReports typeName node.span.start)
    have hsize := Checker.afterInt_resolved (hnamed.resolved hs) size
    rw [Exp.checks, List.forall_mem_cons, List.forall_mem_append]
    exact ⟨hs, size.checks_resolved (hnamed.resolved hs), init.checks_resolved hsize⟩

theorem Var.checks_resolved : ∀ (v : Var) {s : Checker}, AllResolved s.types →
    ∀ checked ∈ v.checks s, AllResolved checked.2.types
  | .simple _ _, _, _ => by simp [Var.checks]
  | .field _ base _, _, hs => base.checks_resolved hs
  | .subscript _ base index, _, hs => by
    have hbase := (CheckM.inferVar_keeps base).resolved hs
    rw [Var.checks, List.forall_mem_append]
    exact ⟨base.checks_resolved hs, index.checks_resolved hbase⟩

theorem Exp.checksList_resolved : ∀ (es : List Exp) {s : Checker}, AllResolved s.types →
    ∀ checked ∈ Exp.checksList es s, AllResolved checked.2.types
  | [], _, _ => by simp [Exp.checksList]
  | e :: es, _, hs => by
    have he := (CheckM.inferExp_keeps e).resolved hs
    rw [Exp.checksList, List.forall_mem_append]
    exact ⟨e.checks_resolved hs, Exp.checksList_resolved es he⟩

theorem FieldExp.checksList_resolved : ∀ (fields : List FieldExp) {s : Checker},
    AllResolved s.types → ∀ checked ∈ FieldExp.checksList fields s, AllResolved checked.2.types
  | [], _, _ => by simp [FieldExp.checksList]
  | .mk _ _ value :: fields, _, hs => by
    have hvalue := (CheckM.inferExp_keeps value).resolved hs
    rw [FieldExp.checksList, List.forall_mem_append]
    exact ⟨value.checks_resolved hs, FieldExp.checksList_resolved fields hvalue⟩

theorem Dec.checksList_resolved : ∀ (decs : List Dec) {s : Checker}, AllResolved s.types →
    ∀ checked ∈ Dec.checksList decs s, AllResolved checked.2.types
  | [], _, _ => by simp [Dec.checksList]
  | .var node name typeName init :: decs, _, hs => by
    rw [Dec.checksList, List.forall_mem_append]
    exact ⟨init.checks_resolved hs, Dec.checksList_resolved decs (Checker.afterDec_resolved hs _)⟩
  | .type _ _ _ :: decs, _, hs => Dec.checksList_resolved decs (Checker.afterDec_resolved hs _)
  | .function node _ params _ body :: decs, s, hs => by
    rw [Dec.checksList, List.forall_mem_append]
    refine ⟨?_, Dec.checksList_resolved decs (Checker.afterDec_resolved hs _)⟩
    split
    · simp
    · exact body.checks_resolved (Checker.inBody_resolved hs _ params)

end

-- Every expression has a number of its own, so that the list has a program's expressions once each.
mutual

theorem Exp.checks_sublist : ∀ (e : Exp) (s : Checker),
    ((e.checks s).map (·.1.node.id)).Sublist e.ids
  | .nil _, _ | .int _ _, _ | .str _ _, _ | .breakLoop _, _ => .refl _
  | .var _ target, s => (target.checks_sublist s).cons_cons _
  | .call _ _ args, s => (Exp.checksList_sublist args s).cons_cons _
  | .binary _ _ left right, s => by
    rw [Exp.checks, List.map_cons, List.map_append]
    exact ((left.checks_sublist s).append (right.checks_sublist _)).cons_cons _
  | .record _ _ fields, _ => (FieldExp.checksList_sublist fields _).cons_cons _
  | .seq _ exps, s => (Exp.checksList_sublist exps s).cons_cons _
  | .assign _ target value, s => by
    rw [Exp.checks, List.map_cons, List.map_append]
    exact ((target.checks_sublist s).append (value.checks_sublist _)).cons_cons _
  | .ifThen _ test body, s => by
    rw [Exp.checks, List.map_cons, List.map_append]
    exact ((test.checks_sublist s).append (body.checks_sublist _)).cons_cons _
  | .ifThenElse _ test yes no, s => by
    have hbranches := (yes.checks_sublist (s.afterInt test)).append (no.checks_sublist
      ((CheckM.inferExp yes).run (s.afterInt test)).2)
    rw [Exp.checks, List.map_cons, List.map_append, List.map_append]
    exact ((test.checks_sublist s).append hbranches).cons_cons _
  | .whileDo _ test body, s => by
    rw [Exp.checks, List.map_cons, List.map_append]
    exact ((test.checks_sublist s).append (body.checks_sublist _)).cons_cons _
  | .forTo _ _ lo hi body, s => by
    rw [Exp.checks, List.map_cons, List.map_append, List.map_append]
    exact ((lo.checks_sublist s).append
      ((hi.checks_sublist _).append (body.checks_sublist _))).cons_cons _
  | .letIn _ decs body, s => by
    rw [Exp.checks, List.map_cons, List.map_append]
    exact ((Dec.checksList_sublist decs _).append (body.checks_sublist _)).cons_cons _
  | .array _ _ size init, s => by
    rw [Exp.checks, List.map_cons, List.map_append]
    exact ((size.checks_sublist _).append (init.checks_sublist _)).cons_cons _

theorem Var.checks_sublist : ∀ (v : Var) (s : Checker),
    ((v.checks s).map (·.1.node.id)).Sublist v.ids
  | .simple _ _, _ => List.nil_sublist _
  | .field _ base _, s => (base.checks_sublist s).cons _
  | .subscript _ base index, s => by
    rw [Var.checks, List.map_append]
    exact ((base.checks_sublist s).append (index.checks_sublist _)).cons _

theorem Exp.checksList_sublist : ∀ (es : List Exp) (s : Checker),
    ((Exp.checksList es s).map (·.1.node.id)).Sublist (Exp.idsList es)
  | [], _ => .refl _
  | e :: es, s => by
    rw [Exp.checksList, List.map_append]
    exact (e.checks_sublist s).append (Exp.checksList_sublist es _)

theorem FieldExp.checksList_sublist : ∀ (fields : List FieldExp) (s : Checker),
    ((FieldExp.checksList fields s).map (·.1.node.id)).Sublist (FieldExp.idsList fields)
  | [], _ => .refl _
  | .mk _ _ value :: fields, s => by
    rw [FieldExp.checksList, List.map_append]
    exact (value.checks_sublist s).append (FieldExp.checksList_sublist fields _)

theorem Dec.checksList_sublist : ∀ (decs : List Dec) (s : Checker),
    ((Dec.checksList decs s).map (·.1.node.id)).Sublist (Dec.idsList decs)
  | [], _ => .refl _
  | .var _ _ _ init :: decs, s => by
    rw [Dec.checksList, List.map_append]
    exact ((init.checks_sublist s).append (Dec.checksList_sublist decs _)).cons _
  | .type node name definition :: decs, s => by
    have hrest := Dec.checksList_sublist decs (s.afterDec (.type node name definition))
    exact (hrest.trans (List.sublist_append_right definition.ids _)).cons _
  | .function node _ params _ body :: decs, s => by
    rw [Dec.checksList, List.map_append]
    refine List.Sublist.cons _ (.trans (.append ?_ (Dec.checksList_sublist decs _))
      (List.sublist_append_right _ _))
    split
    · exact List.nil_sublist _
    · exact body.checks_sublist _

end

/-- A program checks each of its expressions in one state only. -/
theorem Exp.checks_unique {e : Exp} (hnodup : e.ids.Nodup) {s t t' : Checker} {checked : Exp}
    (h : (checked, t) ∈ e.checks s) (h' : (checked, t') ∈ e.checks s) : t = t' := by
  have hids : ((e.checks s).map (·.1.node.id)).Nodup := hnodup.sublist (e.checks_sublist s)
  have hsame := List.inj_on_of_nodup_map hids h h' rfl
  exact congrArg Prod.snd hsame

end TigerLang

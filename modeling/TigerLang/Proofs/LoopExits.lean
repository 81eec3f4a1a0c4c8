import TigerLang.Proofs.Neutral
import TigerLang.Proofs.StaticLinks

/-! Where a loop can be left. The checker counts the loops around it, and this count is a matter of
the tree: it is zero outside of the bodies of loops, and a function body starts anew. -/

namespace TigerLang

/-- There is a body of a loop around, with no function in between. -/
def insideLoop : List Surrounding → Bool
  | [] => false
  | .whileBody :: _ => true
  | .forBody _ _ :: _ => true
  | .functionBody _ _ :: _ => false
  | .block _ _ :: around => insideLoop around

structure LoopExit where
  node : Node
  inLoop : Bool
  deriving DecidableEq, Repr

namespace LoopExit

def report? (exit : LoopExit) : Option Diagnostic :=
  if exit.inLoop then none else some ⟨.noLoop, exit.node.span.start⟩

def ty (exit : LoopExit) : Ty := if exit.inLoop then .void else .error

end LoopExit

def Place.loopExit? : Place → Option LoopExit
  | ⟨around, .exp (.breakLoop node)⟩ => some ⟨node, insideLoop around⟩
  | _ => none

def loopExits (places : List Place) : List LoopExit := places.filterMap Place.loopExit?

theorem loopExits_append (places places' : List Place) :
    loopExits (places ++ places') = loopExits places ++ loopExits places' :=
  List.filterMap_append

/-- Every `break` has been judged: if there is no loop to leave this is reported, and its type is
noted in any case. Types are noted for none but the nodes in `ids`. -/
structure Checker.Judged (ids : List Nat) (exits : List LoopExit) (s s' : Checker) : Prop where
  loopDepth : s'.loopDepth = s.loopDepth
  strays : s'.strays = s.strays ++ exits.filterMap LoopExit.report?
  routines : ∀ id, (s.facts.routine? id).isSome → (s'.facts.routine? id).isSome
  kept : ∀ id, id ∉ ids → s'.facts.expTypes[id]? = s.facts.expTypes[id]?
  within : ∀ exit ∈ exits, exit.node.id ∈ ids
  typed : ids.Nodup → ∀ exit ∈ exits,
    s'.facts.expTypes[exit.node.id]? = some exit.ty

namespace Checker.Judged
variable {ids ids' : List Nat} {exits exits' : List LoopExit} {s s' s'' : Checker}

theorem of_neutral (h : s.Neutral s') : s.Judged [] [] s' where
  loopDepth := h.loopDepth
  strays := h.strays.trans (List.append_nil _).symm
  routines := h.routines
  kept id _ := by rw [h.expTypes]
  within := List.forall_mem_nil _
  typed _ := List.forall_mem_nil _

theorem trans (h : s.Judged ids exits s') (h' : s'.Judged ids' exits' s'') :
    s.Judged (ids ++ ids') (exits ++ exits') s'' where
  loopDepth := h'.loopDepth.trans h.loopDepth
  strays := by
    rw [h'.strays, h.strays, List.filterMap_append, List.append_assoc]
  routines id hid := h'.routines id (h.routines id hid)
  kept id hid := by
    rw [List.mem_append, not_or] at hid
    rw [h'.kept id hid.2, h.kept id hid.1]
  within exit hexit := by
    rw [List.mem_append] at hexit
    exact List.mem_append.mpr (hexit.imp (h.within exit) (h'.within exit))
  typed hnodup exit hexit := by
    obtain ⟨hids, hids', hapart⟩ := List.nodup_append.mp hnodup
    rcases List.mem_append.mp hexit with hexit | hexit
    · -- What is checked later has other numbers.
      rw [h'.kept _ fun hmem => hapart _ (h.within exit hexit) _ hmem rfl]
      exact h.typed hids exit hexit
    · exact h'.typed hids' exit hexit

theorem thenNeutral (h : s.Judged ids exits s') (h' : s'.Neutral s'') : s.Judged ids exits s'' := by
  have hboth := h.trans (of_neutral h')
  rwa [List.append_nil, List.append_nil] at hboth

theorem sublist (h : s.Judged ids exits s') (hsub : ids.Sublist ids') :
    s.Judged ids' exits s' :=
  { h with
    kept := fun id hid => h.kept id fun hmem => hid (hsub.subset hmem)
    within := fun exit hexit => hsub.subset (h.within exit hexit)
    typed := fun hnodup => h.typed (hnodup.sublist hsub) }

theorem note (exit : LoopExit) (hdepth : s'.loopDepth = s.loopDepth) (hfacts : s'.facts = s.facts)
    (hstrays : s'.strays = s.strays ++ [exit].filterMap LoopExit.report?) :
    s.Judged [exit.node.id] [exit] { s' with facts := { s'.facts with
      expTypes := s'.facts.expTypes.insert exit.node.id exit.ty } } where
  loopDepth := hdepth
  strays := hstrays
  routines id hid := by
    rw [← hfacts] at hid
    exact hid
  kept id hid := by
    rw [← hfacts]
    exact NodeMap.getElem?_insert_of_ne _ (List.ne_of_not_mem_cons hid)
  within := List.forall_mem_singleton.mpr List.mem_cons_self
  typed _ := List.forall_mem_singleton.mpr (NodeMap.getElem?_insert_self _ _ _)

end Checker.Judged

def Checker.looping (s : Checker) : Bool := s.loopDepth != 0

theorem Checker.looping_congr {s s' : Checker} (h : s'.loopDepth = s.loopDepth) :
    s'.looping = s.looping := by
  rw [looping, h, looping]

def Judges {α : Type} (inside : Bool) (known ids : List Nat) (x : CheckM α) (places : List Place) :
    Prop :=
  ∀ s : Checker, s.looping = inside → (∀ id ∈ known, (s.facts.routine? id).isSome) →
    s.Judged ids (loopExits places) (x.run s).2

namespace Judges
variable {α β : Type} {inside : Bool} {known known' ids ids' : List Nat} {x : CheckM α}
  {f : α → CheckM β} {places places' : List Place}

theorem of_neutral (h : Neutral x) : Judges inside known [] x [] := fun s _ _ => .of_neutral (h s)

theorem bind (hx : Judges inside known ids x places)
    (hf : ∀ a, Judges inside known ids' (f a) places') :
    Judges inside known (ids ++ ids') (x >>= f) (places ++ places') := by
  intro s hinside hknown
  have hfirst := hx s hinside hknown
  rw [loopExits_append]
  have hsecond : (x.run s).2.looping = inside :=
    (Checker.looping_congr hfirst.loopDepth).trans hinside
  exact hfirst.trans (hf _ _ hsecond fun id hid => hfirst.routines id (hknown id hid))

theorem neutralThen (hx : Neutral x) (hf : ∀ a, Judges inside known ids (f a) places) :
    Judges inside known ids (x >>= f) places := (of_neutral hx).bind hf

theorem thenNeutral (hx : Judges inside known ids x places) (hf : ∀ a, Neutral (f a)) :
    Judges inside known ids (x >>= f) places :=
  fun s hinside hknown => (hx s hinside hknown).thenNeutral (hf _ _)

theorem requireThen (expected received : Ty) (position : Position)
    (hx : Judges inside known ids x places) : Judges inside known ids
      (Functor.discard (CheckM.require expected received position) >>= fun _ => x) places :=
  neutralThen (Neutral.require expected received position).discard fun _ => hx

theorem sublist (hx : Judges inside known ids x places) (hsub : ids.Sublist ids') :
    Judges inside known ids' x places := fun s hinside hknown => (hx s hinside hknown).sublist hsub

theorem mono (hx : Judges inside known ids x places) (hsub : known ⊆ known') :
    Judges inside known' ids x places :=
  fun s hinside hknown => hx s hinside fun id hid => hknown id (hsub hid)

theorem exp {around : List Surrounding} {e : Exp} {node : Node} {find : CheckM Ty}
    (hplace : Place.loopExit? ⟨around, .exp e⟩ = none) (h : Judges inside known ids find places) :
    Judges inside known (node.id :: ids) (CheckM.noteExp node find)
      (⟨around, .exp e⟩ :: places) := by
  intro s hinside hknown
  have hfind := h s hinside hknown
  have hexits : loopExits (⟨around, .exp e⟩ :: places) = loopExits places :=
    List.filterMap_cons_none hplace
  rw [hexits]
  have hnoted : ∀ id, id ≠ node.id → ((CheckM.noteExp node find).run s).2.facts.expTypes[id]? =
      (find.run s).2.facts.expTypes[id]? := fun id hid => NodeMap.getElem?_insert_of_ne _ hid
  refine ⟨hfind.loopDepth, hfind.strays, hfind.routines, fun id hid => ?_, fun exit hexit => ?_,
    fun hnodup exit hexit => ?_⟩
  · rw [List.mem_cons, not_or] at hid
    rw [hnoted id hid.1, hfind.kept id hid.2]
  · exact List.mem_cons_of_mem _ (hfind.within exit hexit)
  · obtain ⟨hnode, hids⟩ := List.nodup_cons.mp hnodup
    rw [hnoted _ fun heq => hnode (heq ▸ hfind.within exit hexit)]
    exact hfind.typed hids exit hexit

theorem var {around : List Surrounding} {v : Var} {node : Node} {find : CheckM Ty}
    (h : Judges inside known ids find places) :
    Judges inside known (node.id :: ids) (CheckM.noteVar node find)
      (⟨around, .var v⟩ :: places) :=
  (h.thenNeutral fun _ => .bind (fun _ => .of_facts rfl rfl rfl rfl rfl) fun _ => .pure _).sublist
    (List.sublist_cons_self _ _)

theorem breakLoop (around : List Surrounding) (node : Node) :
    Judges (insideLoop around) [] [node.id] (CheckM.inferExp (.breakLoop node))
      [⟨around, .exp (.breakLoop node)⟩] := by
  intro s hinside _
  change s.Judged [node.id] [⟨node, insideLoop around⟩]
    ((CheckM.noteExp node (CheckM.typeOfBreak node.span.start)).run s).2
  rw [← hinside, Checker.looping]
  by_cases hdepth : s.loopDepth = 0
  · rw [CheckM.noteExp, CheckM.typeOfBreak, CheckM.run_bind, CheckM.run_get_bind, if_pos hdepth,
      hdepth]
    refine .note ⟨node, false⟩ rfl rfl ?_
    exact s.strays_report Cause.noLoop node.span.start
  · rw [CheckM.noteExp, CheckM.typeOfBreak, CheckM.run_bind, CheckM.run_get_bind, if_neg hdepth,
      bne_iff_ne.mpr hdepth]
    exact .note ⟨node, true⟩ rfl rfl (List.append_nil _).symm

theorem inLoop (h : Judges true known ids x places) :
    Judges inside known ids (CheckM.inLoop x) places := by
  intro s _ hknown
  have hbody := h { s with loopDepth := s.loopDepth + 1 } rfl hknown
  exact { hbody with loopDepth := Nat.sub_eq_of_eq_add hbody.loopDepth }

theorem inFunction {x : CheckM Unit} (h : Judges false known ids x places) (frame : Nat) :
    Judges inside known ids (CheckM.inFunction frame x) places := by
  intro s _ hknown
  let entered : Checker := { s with frames := s.frames.enter frame, loopDepth := 0 }
  let restored : Checker := { (x.run entered).2 with loopDepth := s.loopDepth }
  have hrestored : s.Judged ids (loopExits places) restored :=
    { h entered rfl hknown with loopDepth := rfl }
  obtain ⟨hreports, hdiagnostics⟩ := CheckM.inFunction_reports frame x s
  refine hrestored.thenNeutral (.of_same ?_ hdiagnostics ?_)
  · rw [hreports.same]
  · rw [hreports.same]

theorem inScope (h : Judges inside known ids x places) :
    Judges inside known ids (CheckM.inScope x) places := by
  refine .neutralThen (fun _ => .of_same rfl rfl rfl) fun _ => ?_
  refine .neutralThen (fun _ => .refl _) fun s => .neutralThen (.tell _) fun _ => ?_
  refine h.thenNeutral fun _ => ?_
  exact .bind (fun _ => .of_same rfl rfl rfl) fun _ => .pure _

theorem withLoopVar (h : Judges inside known ids x places) (node : Node) (name : String) :
    Judges inside known ids (CheckM.withLoopVar node name x) places := by
  refine .neutralThen (fun _ => .of_same rfl rfl rfl) fun _ => ?_
  refine .neutralThen (fun _ => .of_same rfl rfl rfl) fun slot => ?_
  refine .neutralThen (fun _ => .of_facts rfl rfl rfl rfl rfl) fun _ => ?_
  refine .neutralThen (fun _ => .of_same rfl rfl rfl) fun _ => h.thenNeutral fun _ => ?_
  exact .bind (fun _ => .of_same rfl rfl rfl) fun _ => .pure _

theorem declareBlock {decs : List Dec} (hx : Judges inside (functionIds decs) ids x places) :
    Judges inside [] ids (CheckM.declareBlock decs >>= fun _ => x) places := by
  intro s hinside _
  have hblock := CheckM.declareBlock_neutral decs s
  have hlooping := (Checker.looping_congr hblock.loopDepth).trans hinside
  exact (Checker.Judged.of_neutral hblock).trans
    (hx _ hlooping (CheckM.declareBlock_declares decs s))

theorem checkFunction {id : Nat} {params : List Field} {result : Option String} {body : Exp}
    (h : Judges false [] ids (CheckM.inferExp body) places) :
    Judges inside [id] ids (CheckM.checkFunction id params result body) places := by
  intro s hinside hknown
  obtain ⟨info, hinfo⟩ := Option.isSome_iff_exists.mp (hknown id List.mem_cons_self)
  rw [CheckM.checkFunction, CheckM.run_get_bind, hinfo]
  have hbody := h.thenNeutral fun ty => (Neutral.require
    (if result.isSome then info.result else .void) ty body.start).discard
  have hscope := (neutralThen (CheckM.declareParams_neutral params info.params) fun _ => hbody).inScope
  exact hscope.inFunction info.frame s hinside (List.forall_mem_nil _)

end Judges

namespace CheckM

theorem checkBodies_function_eq (node : Node) (name : String) (params : List Field)
    (result : Option String) (body : Exp) (decs : List Dec) :
    checkBodies (.function node name params result body :: decs) =
      checkFunction node.id params result body >>= fun _ => checkBodies decs :=
  funext fun s => checkBodies_function node name params result body decs s

mutual

theorem inferExp_judges (around : List Surrounding) : (e : Exp) →
    Judges (insideLoop around) [] e.ids (inferExp e) (e.places around)
  | .nil _ | .int _ _ | .str _ _ => .exp rfl (.of_neutral (.pure _))
  | .var _ target => .exp rfl (inferVar_judges around target)
  | .call node function args =>
    .exp rfl ((inferExps_judges around args).thenNeutral fun types =>
      typeOfCall_neutral node function types)
  | .binary _ op left right =>
    .exp rfl ((inferExp_judges around left).bind fun leftType =>
      (inferExp_judges around right).thenNeutral fun rightType =>
      typeOfBinary_neutral op leftType rightType _)
  | .record _ typeName fields =>
    .exp rfl (.neutralThen (typeNamed_neutral _ _) fun ty =>
      (inferGiven_judges around fields).thenNeutral fun given =>
      typeOfRecord_neutral ty typeName given _)
  | .seq _ exps => .exp rfl ((inferExps_judges around exps).thenNeutral fun _ => .pure _)
  | .assign _ target value =>
    .exp rfl ((inferVar_judges around target).bind fun _ =>
      (inferExp_judges around value).thenNeutral fun _ =>
      (checkAssignable_neutral target).bind fun _ => .require_then _ _ _ (.pure _))
  | .ifThen _ test body =>
    .exp rfl ((inferExp_judges around test).bind fun _ => .requireThen _ _ _ <|
      (inferExp_judges around body).thenNeutral fun _ => .require_then _ _ _ (.pure _))
  | .ifThenElse _ test yes no =>
    .exp rfl ((inferExp_judges around test).bind fun _ => .requireThen _ _ _ <|
      (inferExp_judges around yes).bind fun yesType =>
      (inferExp_judges around no).thenNeutral fun noType =>
      typeOfBranches_neutral yesType noType _)
  | .whileDo _ test body =>
    .exp rfl ((inferExp_judges around test).bind fun _ => .requireThen _ _ _ <|
      (inferExp_judges (.whileBody :: around) body).inLoop.thenNeutral fun _ =>
      .require_then _ _ _ (.pure _))
  | .forTo node name lo hi body =>
    .exp rfl ((inferExp_judges around lo).bind fun _ => .requireThen _ _ _ <|
      (inferExp_judges around hi).bind fun _ => .requireThen _ _ _ <|
      ((inferExp_judges (.forBody node name :: around) body).inLoop.withLoopVar
        node name).thenNeutral fun _ => .require_then _ _ _ (.pure _))
  | .breakLoop node => .breakLoop around node
  | .letIn _ decs body =>
    -- A block is no loop, so that what the block stands in decides.
    .exp rfl (.inScope (.declareBlock ((checkBodies_judges around decs [] decs).bind fun _ =>
      (inferExp_judges (.block decs decs :: around) body).mono (List.nil_subset _))))
  | .array _ typeName size init =>
    .exp rfl (.neutralThen (typeNamed_neutral _ _) fun ty =>
      (inferExp_judges around size).bind fun _ => .requireThen _ _ _ <|
      (inferExp_judges around init).thenNeutral fun initType =>
      typeOfArray_neutral ty typeName initType _ _)

theorem inferVar_judges (around : List Surrounding) : (v : Var) →
    Judges (insideLoop around) [] v.ids (inferVar v) (v.places around)
  | .simple node name => .var (.of_neutral (typeOfSimple_neutral node name))
  | .field _ base name =>
    .var ((inferVar_judges around base).thenNeutral fun baseType =>
      typeOfField_neutral baseType name _)
  | .subscript _ base index =>
    .var ((inferVar_judges around base).bind fun baseType =>
      (inferExp_judges around index).thenNeutral fun _ =>
      .require_then _ _ _ (typeOfSubscript_neutral baseType _))

theorem inferExps_judges (around : List Surrounding) : (es : List Exp) →
    Judges (insideLoop around) [] (Exp.idsList es) (inferExps es) (Exp.placesList around es)
  | [] => .of_neutral (.pure _)
  | e :: es => (inferExp_judges around e).bind fun _ =>
    (inferExps_judges around es).thenNeutral fun _ => .pure _

theorem inferGiven_judges (around : List Surrounding) : (fields : List FieldExp) →
    Judges (insideLoop around) [] (FieldExp.idsList fields) (inferGiven fields)
      (FieldExp.placesList around fields)
  | [] => .of_neutral (.pure _)
  | .mk _ _ value :: fields => (inferExp_judges around value).bind fun _ =>
    (inferGiven_judges around fields).thenNeutral fun _ => .pure _

theorem checkBodies_judges (around : List Surrounding) (all before : List Dec) : (decs : List Dec) →
    Judges (insideLoop around) (functionIds decs) (Dec.idsList decs) (checkBodies decs)
      (Dec.placesList around all before decs)
  | [] => .of_neutral (.pure _)
  | .var node name typeName init :: decs => by
    have hinit := inferExp_judges (.block all before :: around) init
    have hrest := checkBodies_judges around all (before ++ [.var node name typeName init]) decs
    have hboth := (hinit.mono (List.nil_subset (functionIds decs))).bind fun initType =>
      .neutralThen (declaredType_neutral node typeName initType init.start) fun ty =>
        .neutralThen (declareVar_neutral node name ty) fun _ => hrest
    exact hboth.sublist (List.sublist_cons_self _ _)
  | .type node name definition :: decs => by
    have hrest := checkBodies_judges around all (before ++ [.type node name definition]) decs
    exact hrest.sublist ((List.sublist_append_right _ _).cons _)
  | .function node name params result body :: decs => by
    have hbody := inferExp_judges (.functionBody node params :: .block all before :: around) body
    have hrest := checkBodies_judges around all
      (before ++ [.function node name params result body]) decs
    rw [checkBodies_function_eq, functionIds_function]
    have hfunction : Judges (insideLoop around) (node.id :: functionIds decs) body.ids
        (checkFunction node.id params result body) _ := hbody.checkFunction.mono (by simp)
    have hboth := hfunction.bind fun _ => hrest.mono (List.subset_cons_self _ _)
    exact hboth.sublist ((List.sublist_append_right _ _).cons _)

end

end CheckM

/-- Every `break` that is in no loop of its function is reported, and nothing else is reported so. -/
theorem check_loopExits (file : String) (tokens : List Token) (e : Exp)
    (hparse : (parse file tokens).1 = .ok e) :
    (check e).diagnostics.toList.filter
        (fun d => d.cause = .misuse "`break` must be inside a loop") =
      (loopExits (e.places [])).filterMap LoopExit.report? ∧
    ∀ exit ∈ loopExits (e.places []), (check e).facts.expTypes[exit.node.id]? = some exit.ty := by
  -- Once the expression is checked, only the main frame is left to be closed.
  have hjudged := CheckM.inferExp_judges [] e .initial rfl (List.forall_mem_nil _)
  exact ⟨hjudged.strays, hjudged.typed (parse_nodup hparse)⟩

def exitWords : List (TokenKind × String) :=
  [(.whileWord, "while"), (.breakWord, "break"), (.doWord, "do"), (.openParen, "("),
    (.breakWord, "break"), (.semicolon, ";"),
    (.letWord, "let"), (.functionWord, "function"), (.identifier, "f"), (.openParen, "("),
    (.closeParen, ")"), (.equals, "="), (.openParen, "("), (.breakWord, "break"), (.semicolon, ";"),
    (.forWord, "for"), (.identifier, "i"), (.assignment, ":="), (.number, "0"), (.toWord, "to"),
    (.breakWord, "break"), (.doWord, "do"), (.breakWord, "break"), (.closeParen, ")"),
    (.inWord, "in"), (.identifier, "f"), (.openParen, "("), (.closeParen, ")"), (.endWord, "end"),
    (.closeParen, ")"), (.eof, "")]

def exiting : Exp := (parse "exit.tig" (spelled "exit.tig" exitWords)).1.toOption.getD default

theorem check_loopExits_exiting :
    (parse "exit.tig" (spelled "exit.tig" exitWords)).1 = .ok exiting ∧
    (loopExits (exiting.places [])).map (fun exit => (exit.node.span.start.offset, exit.inLoop)) =
      [(1, false), (4, true), (13, false), (20, false), (22, true)] ∧
    (check exiting).diagnostics.toList.filter
        (fun d => d.cause = .misuse "`break` must be inside a loop") =
      (loopExits (exiting.places [])).filterMap LoopExit.report? ∧
    ∀ exit ∈ loopExits (exiting.places []),
      (check exiting).facts.expTypes[exit.node.id]? = some exit.ty := by
  have hparse : (parse "exit.tig" (spelled "exit.tig" exitWords)).1 = .ok exiting :=
    parse_eq_ok_getD (by decide +kernel)
  exact ⟨hparse, by decide +kernel, check_loopExits "exit.tig" _ exiting hparse⟩

end TigerLang

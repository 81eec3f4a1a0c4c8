import TigerLang.Proofs.Attribution
import TigerLang.Proofs.Placement

/-! Every report about a program stands at the start of a phrase, and a mismatch blames an expression
with the type that was received. Types are compared where the second of them has been found, but an
operator on numbers compares that of its left operand there as well. -/

namespace TigerLang

namespace CheckM
variable {root : Phrase} {s : Checker}

/-! Rules -/

section attests
variable {ty left right : Ty} {position : Position}

theorem typeOfEquality_attests (hright : s.Vouches root right position) :
    Attests root s (typeOfEquality left right position) := by
  have hstarts := (hright.justified "").starts
  unfold typeOfEquality
  split
  · next hnil =>
    obtain ⟨-, rfl⟩ := hnil
    exact .report_then (hright.justified "a record") (.pure _)
  split
  · exact .place_then hstarts (by simp) (.pure _)
  · exact .require_then (fun _ => hright.justified _) (.pure _)

theorem typeOfBinary_attests {node : Node} {op : Operator} {e e' : Exp}
    (hinside : (Phrase.exp (.binary node op e e')).Inside root)
    (hleft : s.facts.expTypes[e.node.id]? = some left)
    (hright : s.facts.expTypes[e'.node.id]? = some right) :
    Attests root s (typeOfBinary op left right e'.start) := by
  have hvouches : s.Vouches root right e'.start :=
    ⟨e', hinside.child (List.mem_cons_of_mem _ List.mem_cons_self), rfl, hright⟩
  unfold typeOfBinary
  split
  · next harithmetic =>
    have hop : op.isEquality = false := by
      cases op <;> simp_all [Operator.isArithmetic, Operator.isEquality]
    -- Both operands are compared here, and both at the start of the right one.
    refine .require_then (Diagnostic.justified_left hinside hop hleft) ?_
    exact .require_then (fun _ => hvouches.justified _) (.pure _)
  split
  · exact typeOfEquality_attests hvouches
  · next hop =>
    have hop : op.isEquality = false := by simpa using hop
    unfold typeOfOrder
    split
    · exact .pure _
    · exact .pure _
    · exact .pure _
    · exact .pure _
    · exact .require_then (fun _ => hvouches.justified _) (.pure _)
    · exact .require_then (fun _ => hvouches.justified _) (.pure _)
    -- A left operand that is neither a number nor a text is compared instead of the right one.
    · exact .require_then (Diagnostic.justified_left hinside hop hleft) (.pure _)

theorem checkArgs_attests (params : List Ty) {args : List (Ty × Position)}
    (hargs : ∀ arg ∈ args, s.Vouches root arg.1 arg.2) : Attests root s (checkArgs params args) := by
  induction params generalizing args with
  | nil => exact .pure _
  | cons param params ih =>
    cases args with
    | nil => exact .pure _
    | cons arg args =>
      obtain ⟨harg, hrest⟩ := List.forall_mem_cons.mp hargs
      exact .require_then (fun _ => harg.justified _) (ih hrest)

structure GivenField.Vouched (root : Phrase) (s : Checker) (field : GivenField) : Prop where
  starts : field.position.StartsIn root
  value : s.Vouches root field.ty field.valuePosition

theorem checkFields_attests (declared : List (String × Ty)) {fields : List GivenField}
    (hfields : ∀ field ∈ fields, field.Vouched root s) (rest : List (String × Ty)) :
    Attests root s (checkFields declared fields rest) := by
  induction fields generalizing rest with
  | nil => exact .pure _
  | cons field fields ih =>
    obtain ⟨hfield, hothers⟩ := List.forall_mem_cons.mp hfields
    cases rest with
    | nil => exact .pure _
    | cons expected rest =>
      unfold checkFields
      split
      · exact .require_then (fun _ => hfield.value.justified _) (ih hothers rest)
      split
      · exact .place_then hfield.starts (by simp) (ih hothers rest)
      · exact .place_then hfield.starts (by simp) (ih hothers rest)

theorem typeOfRecord_attests (typeName : String) {fields : List GivenField}
    (hposition : position.StartsIn root) (hfields : ∀ field ∈ fields, field.Vouched root s) :
    Attests root s (typeOfRecord ty typeName fields position) := by
  have hchecked : ∀ declared rest, Attests root s (do checkFields declared fields rest; return ty) :=
    fun declared rest => (checkFields_attests declared hfields rest).bind
      (checkFields_observes _ _ _) fun _ => .pure _
  unfold typeOfRecord
  split
  · exact .pure _
  · refine .getThen fun s' _ => ?_
    split
    · exact .pure _
    · split
      · exact .place_then hposition (by simp) (hchecked _ _)
      · exact hchecked _ _
  · exact .place_then hposition (by simp) (.pure _)

theorem typeOfArray_attests (typeName : String) {init : Ty} {initPosition : Position}
    (hposition : position.StartsIn root) (hinit : s.Vouches root init initPosition) :
    Attests root s (typeOfArray ty typeName init position initPosition) := by
  unfold typeOfArray
  split
  · exact .pure _
  · exact .getThen fun s' _ => .require_then (fun _ => hinit.justified _) (.pure _)
  · exact .place_then hposition (by simp) (.pure _)

theorem typeOfField_attests (base : Ty) (name : String) (hposition : position.StartsIn root) :
    Attests root s (typeOfField base name position) := by
  unfold typeOfField
  refine .getThen fun s' _ => ?_
  dsimp only
  split
  · exact .pure _
  · split
    · exact .pure _
    · exact .place_then hposition (by simp) (.pure _)
  · exact .place_then hposition (by simp) (.pure _)

theorem typeOfSubscript_attests (base : Ty) (hposition : position.StartsIn root) :
    Attests root s (typeOfSubscript base position) := by
  unfold typeOfSubscript
  refine .getThen fun s' _ => ?_
  split
  · exact .pure _
  · exact .pure _
  · exact .place_then hposition (by simp) (.pure _)

theorem checkAssignable_attests {target : Var} (htarget : (Phrase.var target).Inside root) :
    Attests root s (checkAssignable target) := by
  unfold checkAssignable
  split
  · refine .getThen fun s' _ => ?_
    split
    · exact .report (Diagnostic.Placed.justified ⟨⟨_, htarget, rfl⟩, by simp⟩)
    · exact .pure _
  · exact .pure _

theorem typeOfBranches_attests (yes : Ty) {no : Ty} (hno : s.Vouches root no position) :
    Attests root s (typeOfBranches yes no position) := by
  unfold typeOfBranches
  refine (Attests.require fun _ => hno.justified _).bind (.require _ _ _) fun compatible => ?_
  split
  · split <;> exact .pure _
  · exact .pure _

theorem typeOfBreak_attests (hposition : position.StartsIn root) :
    Attests root s (typeOfBreak position) := by
  unfold typeOfBreak
  refine .getThen fun s' _ => ?_
  split
  · exact .place_then hposition (by simp) (.pure _)
  · exact .pure _

end attests

/-! Names and their surroundings -/

theorem typeNamed_attributes (hs : s.Honest root) (name : String) {position : Position}
    (hposition : position.StartsIn root) :
    Attributes root [] (typeNamed name position) s fun ty s' => ty.Storable s'.registry := by
  have hresolved := (hs.fit.settled trivial).1
  exact .of_places hs (Trace.typeNamed_holds name position s hs.fit)
    (typeNamed_places name (hresolved.declaresIn root) hposition)
    (.of_reports (typeNamed_onlyReports name position s hresolved))

theorem typeOfSimple_attributes (hs : s.Honest root) {node : Node}
    (hnode : node.span.start.StartsIn root) (name : String) :
    Attributes root [] (typeOfSimple node name) s fun _ _ => True := by
  refine .getThen ?_
  cases s.vars.find? name with
  | none =>
    exact .observe hs (.report_then _ _ (.pure _)) (.place_then hnode (by simp) (.pure _)) trivial
  | some entry =>
    have hlearnt : Attributes root [] (learn fun a => { a with
        varUses := a.varUses.insert node.id ⟨entry.slot, s.frames.level⟩ }) s fun _ _ => True :=
      .write hs (hs.fit.withFacts rfl rfl rfl) rfl rfl rfl trivial
    exact hlearnt.andThen fun _ s' hs' _ _ => .pure hs' trivial

theorem typeOfCall_attributes (hs : s.Honest root) {node : Node}
    (hnode : node.span.start.StartsIn root) (function : String) {args : List (Ty × Position)}
    (hargs : ∀ arg ∈ args, s.Vouches root arg.1 arg.2) :
    Attributes root [] (typeOfCall node function args) s fun _ _ => True := by
  refine .getThen ?_
  cases s.functions.find? function with
  | none =>
    exact .observe hs (.report_then _ _ (.pure _)) (.place_then hnode (by simp) (.pure _)) trivial
  | some entry =>
    have hlearnt : Attributes root [] (learn fun a => { a with
        calls := a.calls.insert node.id entry.target }) s fun _ _ => True :=
      .write hs (hs.fit.withFacts rfl rfl rfl) rfl rfl rfl trivial
    refine hlearnt.andThen fun _ s' hs' hadvances _ => ?_
    have hobserves : Observes (checkArgs entry.params args >>= fun _ => pure entry.result) :=
      (checkArgs_observes entry.params args).bind fun _ => .pure _
    have hattests : Attests root s' (checkArgs entry.params args >>= fun _ => pure entry.result) :=
      (checkArgs_attests entry.params fun arg harg => (hargs arg harg).advance hadvances).bind
        (checkArgs_observes _ _) fun _ => .pure _
    dsimp only
    split
    · exact .observe hs' (.report_then _ _ hobserves) (.place_then hnode (by simp) hattests) trivial
    · exact .observe hs' hobserves hattests trivial

theorem declaredType_attributes (hs : s.Honest root) {node : Node}
    (hnode : node.span.start.StartsIn root) (typeName : Option String) {init : Ty}
    {position : Position} (hinit : s.Vouches root init position) :
    Attributes root [] (declaredType node typeName init position) s fun ty s' =>
      ty.Storable s'.registry := by
  have hstorable :=
    (Trace.declaredType_holds node typeName position hs.fit (hinit.registered hs.fit)).answer
  suffices h : Attributes root [] (declaredType node typeName init position) s fun _ _ => True from
    { h with answer := hstorable }
  cases typeName with
  | some typeName =>
    refine (typeNamed_attributes hs typeName hnode).andThen fun ty s' hs' hadvances _ => ?_
    exact .observe hs' (.require_then _ _ _ (.pure _))
      (.require_then (fun _ => (hinit.advance hadvances).justified _) (.pure _)) trivial
  | none =>
    unfold declaredType
    dsimp only
    split
    · refine .getThen (.observe hs (.report_then _ _ (.pure _)) ?_ trivial)
      exact .report_then (hinit.justified _) (.pure _)
    · exact .pure hs trivial

theorem declareVar_attributes (hs : s.Honest root) {node : Node}
    (hnode : node.span.start.StartsIn root) (name : String) {ty : Ty}
    (hty : ty.Storable s.registry) :
    Attributes root [] (declareVar node name ty) s fun _ s' => s'.registry = s.registry := by
  refine Attributes.andThen (Q := fun _ s' => s'.registry = s.registry)
    (.write hs (hs.fit.withFrames (hs.fit.stored.held.slots.reserve hty)) rfl rfl rfl rfl)
    fun slot s₁ hs₁ _ hregistry₁ => ?_
  refine Attributes.andThen (Q := fun _ s' => s'.registry = s.registry)
    (.write hs₁ (hs₁.fit.withFacts rfl rfl rfl) rfl rfl rfl hregistry₁)
    fun _ s₂ hs₂ _ hregistry₂ => .getThen ?_
  split
  · exact .observe hs₂ (.report _ _)
      (.report (Diagnostic.Placed.justified ⟨hnode, by simp⟩)) hregistry₂
  · rw [← hregistry₂] at hty
    exact .write hs₂ (hs₂.fit.withVars (hs₂.fit.stored.held.vars.bind hty)) rfl rfl rfl hregistry₂

theorem declareParams_attributes (hs : s.Honest root) {params : List Field}
    (hparams : ∀ param ∈ params, (Phrase.field param).Inside root) {types : List Ty}
    (htypes : ∀ ty ∈ types, ty.Storable s.registry) :
    Attributes root [] (declareParams params types) s fun _ _ => True := by
  induction params generalizing types s with
  | nil => exact .pure hs trivial
  | cons param params ih =>
    cases types with
    | nil => exact .pure hs trivial
    | cons ty types =>
      obtain ⟨hparam, hrest⟩ := List.forall_mem_cons.mp hparams
      obtain ⟨hty, htypes⟩ := List.forall_mem_cons.mp htypes
      refine (declareVar_attributes hs ⟨_, hparam, rfl⟩ param.name hty).andThen
        fun _ s' hs' _ hregistry => ih hs' hrest ?_
      rw [hregistry]
      exact htypes

end CheckM

namespace Attributes
variable {α : Type} {root : Phrase} {ids : List Nat} {s : Checker}

theorem inScope {x : CheckM α} {Q : α → Registry → Prop} (hs : s.Awaits root ids)
    (hx : s.entered.Awaits root ids → Attributes root ids x s.entered fun a s' => Q a s'.registry) :
    Attributes root ids (CheckM.inScope x) s fun a s' => Q a s'.registry := by
  have hentered : s.Advances [] s.entered := .of_eq rfl rfl
  have hfit : s.entered.Fit True := hs.fit.enterScopes.reports (.tell _ _)
  have hbody := hx ⟨hs.toHonest.advance hentered hfit fun _ hd => .inl hd, hs.nodup, hs.blank⟩
  have hleft : (x.run s.entered).2.Advances [] (x.run s.entered).2.left := .of_eq rfl rfl
  refine ⟨hbody.honest.advance hleft hbody.honest.fit.leaveScopes fun _ hd => .inl hd, ?_,
    hbody.answer⟩
  exact ((hentered.trans hbody.advances).trans hleft).mono (by simp)

theorem inLoop {x : CheckM Ty} {id : Nat} (hs : s.Awaits root ids)
    (hx : ∀ s', s'.Awaits root ids → Attributes root ids x s' fun ty s'' =>
      s''.facts.expTypes[id]? = some ty) :
    Attributes root ids (CheckM.inLoop x) s fun ty s' => s'.facts.expTypes[id]? = some ty := by
  refine before (Q := fun _ _ => True) hs
    (.write hs.toHonest (hs.fit.withFrames hs.fit.stored.held.slots) rfl rfl rfl trivial)
    fun _ s₁ hs₁ _ _ => ?_
  refine (hx s₁ hs₁).andThen fun ty s₂ hs₂ _ hty => ?_
  refine andThen (Q := fun _ s' => s'.facts.expTypes[id]? = some ty)
    (.write hs₂ (hs₂.fit.withFrames hs₂.fit.stored.held.slots) rfl rfl rfl hty)
    fun _ s₃ hs₃ _ hty => .pure hs₃ hty

theorem withLoopVar {node : Node} (name : String) {x : CheckM Ty} {id : Nat}
    (hs : s.Awaits root ids)
    (hx : ∀ s', s'.Awaits root ids → Attributes root ids x s' fun ty s'' =>
      s''.facts.expTypes[id]? = some ty) :
    Attributes root ids (CheckM.withLoopVar node name x) s fun ty s' =>
      s'.facts.expTypes[id]? = some ty := by
  have hint : ∀ r, Ty.int.Storable r := fun _ => ⟨trivial, by simp, by simp⟩
  refine before (Q := fun _ _ => True) hs
    (.write hs.toHonest (hs.fit.withVars hs.fit.stored.held.vars.enter) rfl rfl rfl trivial)
    fun _ s₁ hs₁ _ _ => ?_
  refine before (Q := fun _ _ => True) hs₁ (.write hs₁.toHonest
    (hs₁.fit.withFrames (hs₁.fit.stored.held.slots.reserve (hint _))) rfl rfl rfl trivial)
    fun slot s₂ hs₂ _ _ => ?_
  refine before (Q := fun _ _ => True) hs₂
    (.write hs₂.toHonest (hs₂.fit.withFacts rfl rfl rfl) rfl rfl rfl trivial)
    fun _ s₃ hs₃ _ _ => ?_
  refine before (Q := fun _ _ => True) hs₃ (.write hs₃.toHonest
    (hs₃.fit.withVars (hs₃.fit.stored.held.vars.bind (hint _))) rfl rfl rfl trivial)
    fun _ s₄ hs₄ _ _ => ?_
  refine (hx s₄ hs₄).andThen fun ty s₅ hs₅ _ hty => ?_
  refine andThen (Q := fun _ s' => s'.facts.expTypes[id]? = some ty)
    (.write hs₅ (hs₅.fit.withVars hs₅.fit.stored.held.vars.leave) rfl rfl rfl hty)
    fun _ s₆ hs₆ _ hty => .pure hs₆ hty

theorem inFunction (frame : Nat) {x : CheckM Unit} (hs : s.Awaits root ids)
    (hx : ∀ s', s'.Awaits root ids → s'.registry = s.registry →
      Attributes root ids x s' fun _ _ => True) :
    Attributes root ids (CheckM.inFunction frame x) s fun _ _ => True := by
  refine .getThen (before (Q := fun _ s' => s'.registry = s.registry) hs
    (.write hs.toHonest (hs.fit.withFrames hs.fit.stored.held.slots) rfl rfl rfl rfl)
    fun _ s₁ hs₁ _ hregistry => ?_)
  refine (hx s₁ hs₁ hregistry).andThen fun _ s₂ hs₂ _ _ => ?_
  refine andThen (Q := fun _ _ => True)
    (.write hs₂ (hs₂.fit.withFrames hs₂.fit.stored.held.slots.leave) rfl rfl rfl trivial)
    fun _ s₃ hs₃ _ _ => .getThen ?_
  cases s₃.frames.frames[frame]? with
  | some f => exact .write hs₃ (hs₃.fit.reports (.tell _ _)) rfl rfl rfl trivial
  | none => exact .pure hs₃ trivial

theorem requireThen {β : Type} {ids' : List Nat} {x : CheckM Ty} {e : Exp} {expected : Ty}
    {g : CheckM β} {R : β → Checker → Prop} (he : (Phrase.exp e).Inside root)
    (hs : s.Awaits root (ids ++ ids'))
    (hx : Attributes root ids x s fun ty s' => s'.facts.expTypes[e.node.id]? = some ty)
    (hg : ∀ s', s'.Awaits root ids' → Attributes root ids' g s' R) :
    Attributes root (ids ++ ids')
      (x >>= fun ty => discard (CheckM.require expected ty e.start) >>= fun _ => g) s R := by
  refine bind hs hx fun ty s₁ hs₁ _ hty => ?_
  have hvouches : s₁.Vouches root ty e.start := ⟨e, he, rfl, hty⟩
  exact before (Q := fun _ _ => True) hs₁
    (.observe hs₁.toHonest (Observes.require _ _ _).discard
      (Attests.require fun _ => hvouches.justified _) trivial)
    fun _ s₂ hs₂ _ _ => hg s₂ hs₂

theorem requireLast {x : CheckM Ty} {e : Exp} {expected : Ty} {β : Type} {g : CheckM β}
    {R : β → Checker → Prop} (he : (Phrase.exp e).Inside root) (hs : s.Awaits root ids)
    (hx : Attributes root ids x s fun ty s' => s'.facts.expTypes[e.node.id]? = some ty)
    (hg : ∀ s', s'.Honest root → Attributes root [] g s' R) : Attributes root ids
      (x >>= fun ty => discard (CheckM.require expected ty e.start) >>= fun _ => g) s R := by
  rw [← List.append_nil ids] at hs ⊢
  exact requireThen he hs hx fun s' hs' => hg s' hs'.toHonest

end Attributes

namespace CheckM
variable {root : Phrase}

theorem declareBlock_attributes {s : Checker} {decs : List Dec}
    (hdecs : ∀ d ∈ decs, (Phrase.dec d).Inside root) (hs : s.Fit True)
    (hentered : s.entered.Awaits root (functionIds decs)) :
    Attributes root (functionIds decs) (declareBlock decs) s.entered fun _ _ => True := by
  have hresolved := (hs.settled trivial).1
  have hworks := (declareBlock_works hresolved decs fun id hid => hid).1
  exact .of_places hentered.toHonest (Trace.declareBlock_holds hresolved decs hentered.fit rfl)
    (declareBlock_places hdecs ((hentered.fit.settled trivial).1.declaresIn root))
    (.of_grows hworks.grows hentered.blank)

end CheckM

theorem Dec.nodup_block {decs : List Dec} {ids : List Nat} (h : (Dec.idsList decs ++ ids).Nodup) :
    (functionIds decs ++ (Dec.innerIds decs ++ ids)).Nodup := by
  rw [List.nodup_iff_count] at h ⊢
  intro id
  have hle := Dec.count_functionIds_innerIds id decs
  have hid := h id
  simp only [List.count_append] at hid ⊢
  omega

theorem Dec.block_subset (decs : List Dec) (ids : List Nat) :
    functionIds decs ++ (Dec.innerIds decs ++ ids) ⊆ Dec.idsList decs ++ ids := by
  intro id hid
  simp only [List.mem_append] at hid ⊢
  rcases hid with hid | hid | hid
  · exact .inl (functionIds_subset decs hid)
  · exact .inl (innerIds_subset decs hid)
  · exact .inr hid

namespace CheckM
variable {root : Phrase}

-- The numbers of a phrase are awaited before it is checked. Each part takes its own, and leaves the
-- others to the parts after it.
mutual

theorem inferExp_attributes : ∀ (e : Exp) {s : Checker}, (Phrase.exp e).Inside root →
    s.Awaits root e.ids → Attributes root e.ids (inferExp e) s fun ty s' =>
      s'.facts.expTypes[e.node.id]? = some ty
  | .nil node, s, _, hs =>
    .noteExp hs (.pure hs.toHonest trivial) (Trace.inferExp_holds (.nil node) hs.fit).after
  | .int node value, s, _, hs =>
    .noteExp hs (.pure hs.toHonest trivial) (Trace.inferExp_holds (.int node value) hs.fit).after
  | .str node value, s, _, hs =>
    .noteExp hs (.pure hs.toHonest trivial) (Trace.inferExp_holds (.str node value) hs.fit).after
  | .var node target, s, he, hs =>
    .noteExp hs (inferVar_attributes target (he.child List.mem_cons_self) hs.tail)
      (Trace.inferExp_holds (.var node target) hs.fit).after
  | .call node function args, s, he, hs => by
    refine .noteExp hs ?_ (Trace.inferExp_holds (.call node function args) hs.fit).after
    refine (inferExps_attributes args (fun arg harg => he.child (List.mem_map_of_mem harg))
      hs.tail).andThen fun types s' hs' _ htypes => ?_
    exact typeOfCall_attributes hs' ⟨_, he, rfl⟩ function htypes
  | .binary node op left right, s, he, hs => by
    refine .noteExp hs ?_ (Trace.inferExp_holds (.binary node op left right) hs.fit).after
    refine .bind hs.tail (inferExp_attributes left (he.child (by simp)) hs.tail.first)
      fun leftType s₁ hs₁ _ hleft => ?_
    refine (inferExp_attributes right (he.child (by simp)) hs₁).andThen
      fun rightType s₂ hs₂ hadvances hright => ?_
    exact .observe hs₂ (typeOfBinary_observes _ _ _ _)
      (typeOfBinary_attests he (hadvances.kept hleft) hright) trivial
  | .record node typeName fields, s, he, hs => by
    refine .noteExp hs ?_ (Trace.inferExp_holds (.record node typeName fields) hs.fit).after
    have hstart : node.span.start.StartsIn root := ⟨_, he, rfl⟩
    refine .before hs.tail (typeNamed_attributes hs.toHonest typeName hstart)
      fun ty s₁ hs₁ _ _ => ?_
    refine (inferGiven_attributes fields (fun field hfield => he.child (List.mem_map_of_mem hfield))
      hs₁).andThen fun given s₂ hs₂ _ hgiven => ?_
    exact .observe hs₂ (typeOfRecord_observes _ _ _ _) (typeOfRecord_attests typeName hstart hgiven)
      trivial
  | .seq node exps, s, he, hs => by
    refine .noteExp hs ?_ (Trace.inferExp_holds (.seq node exps) hs.fit).after
    exact (inferExps_attributes exps (fun e he' => he.child (List.mem_map_of_mem he'))
      hs.tail).andThen fun _ s' hs' _ _ => .pure hs' trivial
  | .assign node target value, s, he, hs => by
    refine .noteExp hs ?_ (Trace.inferExp_holds (.assign node target value) hs.fit).after
    have htarget : (Phrase.var target).Inside root := he.child (by simp)
    have hvalue : (Phrase.exp value).Inside root := he.child (by simp)
    refine .bind hs.tail (inferVar_attributes target htarget hs.tail.first) fun _ s₁ hs₁ _ _ => ?_
    refine (inferExp_attributes value hvalue hs₁).andThen fun ty s₂ hs₂ _ hty => ?_
    have hvouches : s₂.Vouches root ty value.start := ⟨value, hvalue, rfl, hty⟩
    exact .observe hs₂
      ((checkAssignable_observes target).bind fun _ => .require_then _ _ _ (.pure _))
      ((checkAssignable_attests htarget).bind (checkAssignable_observes target) fun _ =>
        .require_then (fun _ => hvouches.justified _) (.pure _)) trivial
  | .ifThen node test body, s, he, hs => by
    refine .noteExp hs ?_ (Trace.inferExp_holds (.ifThen node test body) hs.fit).after
    have htest : (Phrase.exp test).Inside root := he.child (by simp)
    have hbody : (Phrase.exp body).Inside root := he.child (by simp)
    refine .requireThen htest hs.tail (inferExp_attributes test htest hs.tail.first)
      fun s₁ hs₁ => ?_
    exact .requireLast hbody hs₁ (inferExp_attributes body hbody hs₁) fun s₂ hs₂ =>
      .pure hs₂ trivial
  | .ifThenElse node test yes no, s, he, hs => by
    refine .noteExp hs ?_ (Trace.inferExp_holds (.ifThenElse node test yes no) hs.fit).after
    have htest : (Phrase.exp test).Inside root := he.child (by simp)
    have hno : (Phrase.exp no).Inside root := he.child (by simp)
    refine .requireThen htest hs.tail (inferExp_attributes test htest hs.tail.first)
      fun s₁ hs₁ => ?_
    refine .bind hs₁ (inferExp_attributes yes (he.child (by simp)) hs₁.first)
      fun yesType s₂ hs₂ _ _ => ?_
    refine (inferExp_attributes no hno hs₂).andThen fun noType s₃ hs₃ _ hty => ?_
    exact .observe hs₃ (typeOfBranches_observes _ _ _)
      (typeOfBranches_attests yesType ⟨no, hno, rfl, hty⟩) trivial
  | .whileDo node test body, s, he, hs => by
    refine .noteExp hs ?_ (Trace.inferExp_holds (.whileDo node test body) hs.fit).after
    have htest : (Phrase.exp test).Inside root := he.child (by simp)
    have hbody : (Phrase.exp body).Inside root := he.child (by simp)
    refine .requireThen htest hs.tail (inferExp_attributes test htest hs.tail.first)
      fun s₁ hs₁ => ?_
    exact .requireLast hbody hs₁
      (.inLoop hs₁ fun _ hs' => inferExp_attributes body hbody hs') fun s₂ hs₂ => .pure hs₂ trivial
  | .forTo node name lo hi body, s, he, hs => by
    refine .noteExp hs ?_ (Trace.inferExp_holds (.forTo node name lo hi body) hs.fit).after
    have hlo : (Phrase.exp lo).Inside root := he.child (by simp)
    have hhi : (Phrase.exp hi).Inside root := he.child (by simp)
    have hbody : (Phrase.exp body).Inside root := he.child (by simp)
    refine .requireThen hlo hs.tail (inferExp_attributes lo hlo hs.tail.first) fun s₁ hs₁ => ?_
    refine .requireThen hhi hs₁ (inferExp_attributes hi hhi hs₁.first) fun s₂ hs₂ => ?_
    exact .requireLast hbody hs₂ (.withLoopVar name hs₂ fun _ hs₃ => .inLoop hs₃ fun _ hs' =>
      inferExp_attributes body hbody hs') fun s₄ hs₄ => .pure hs₄ trivial
  | .breakLoop node, s, he, hs =>
    .noteExp hs (.observe hs.toHonest (typeOfBreak_observes _) (typeOfBreak_attests ⟨_, he, rfl⟩)
      trivial) (Trace.inferExp_holds (.breakLoop node) hs.fit).after
  | .letIn node decs body, s, he, hs => by
    refine .noteExp hs ?_ (Trace.inferExp_holds (.letIn node decs body) hs.fit).after
    have hdecs : ∀ d ∈ decs, (Phrase.dec d).Inside root := fun d hd =>
      he.child (List.mem_append_left _ (List.mem_map_of_mem hd))
    have hbody : (Phrase.exp body).Inside root := he.child (by simp)
    have hblock := hs.tail.subset (Dec.nodup_block hs.tail.nodup) (Dec.block_subset decs body.ids)
    refine Attributes.mono ?_ (Dec.block_subset decs body.ids)
    refine .inScope (Q := fun _ _ => True) hblock fun hentered => ?_
    refine .bind hentered (declareBlock_attributes hdecs hs.fit hentered.first)
      fun _ s₁ hs₁ _ _ => ?_
    refine .bind hs₁ (checkBodies_attributes decs hdecs hs₁.first) fun _ s₂ hs₂ _ _ => ?_
    exact { inferExp_attributes body hbody hs₂ with answer := trivial }
  | .array node typeName size init, s, he, hs => by
    refine .noteExp hs ?_ (Trace.inferExp_holds (.array node typeName size init) hs.fit).after
    have hstart : node.span.start.StartsIn root := ⟨_, he, rfl⟩
    have hsize : (Phrase.exp size).Inside root := he.child (by simp)
    have hinit : (Phrase.exp init).Inside root := he.child (by simp)
    refine .before hs.tail (typeNamed_attributes hs.toHonest typeName hstart)
      fun ty s₁ hs₁ _ _ => ?_
    refine .requireThen hsize hs₁ (inferExp_attributes size hsize hs₁.first) fun s₂ hs₂ => ?_
    refine (inferExp_attributes init hinit hs₂).andThen fun initType s₃ hs₃ _ hty => ?_
    exact .observe hs₃ (typeOfArray_observes _ _ _ _ _)
      (typeOfArray_attests typeName hstart ⟨init, hinit, rfl, hty⟩) trivial

theorem inferVar_attributes : ∀ (v : Var) {s : Checker}, (Phrase.var v).Inside root →
    s.Awaits root v.ids → Attributes root v.ids (inferVar v) s fun _ _ => True
  | .simple node name, s, hv, hs => by
    refine .noteVar ?_ (Trace.inferVar_holds (.simple node name) hs.fit).after
    exact (typeOfSimple_attributes hs.toHonest ⟨_, hv, rfl⟩ name).mono (List.nil_subset _)
  | .field node base name, s, hv, hs => by
    refine .noteVar ?_ (Trace.inferVar_holds (.field node base name) hs.fit).after
    refine Attributes.mono ?_ (List.subset_cons_self node.id _)
    refine (inferVar_attributes base (hv.child List.mem_cons_self) hs.tail).andThen
      fun baseType s₁ hs₁ _ _ => ?_
    exact .observe hs₁ (typeOfField_observes _ _ _)
      (typeOfField_attests baseType name ⟨_, hv, rfl⟩) trivial
  | .subscript node base index, s, hv, hs => by
    refine .noteVar ?_ (Trace.inferVar_holds (.subscript node base index) hs.fit).after
    refine Attributes.mono ?_ (List.subset_cons_self node.id _)
    have hindex : (Phrase.exp index).Inside root := hv.child (by simp)
    refine .bind hs.tail (inferVar_attributes base (hv.child List.mem_cons_self) hs.tail.first)
      fun baseType s₁ hs₁ _ _ => ?_
    refine .requireLast hindex hs₁ (inferExp_attributes index hindex hs₁) fun s₂ hs₂ => ?_
    exact .observe hs₂ (typeOfSubscript_observes _ _)
      (typeOfSubscript_attests baseType ⟨_, hv, rfl⟩) trivial

theorem inferExps_attributes : ∀ (es : List Exp) {s : Checker},
    (∀ e ∈ es, (Phrase.exp e).Inside root) → s.Awaits root (Exp.idsList es) →
    Attributes root (Exp.idsList es) (inferExps es) s fun types s' =>
      ∀ ty ∈ types, s'.Vouches root ty.1 ty.2
  | [], s, _, hs => .pure hs.toHonest (by simp)
  | e :: es, s, hes, hs => by
    obtain ⟨he, hes⟩ := List.forall_mem_cons.mp hes
    refine .bind hs (inferExp_attributes e he hs.first) fun ty s₁ hs₁ _ hty => ?_
    have hvouches : s₁.Vouches root ty e.start := ⟨e, he, rfl, hty⟩
    exact (inferExps_attributes es hes hs₁).andThen fun types s₂ hs₂ hadvances htypes =>
      .pure hs₂ (List.forall_mem_cons.mpr ⟨hvouches.advance hadvances, htypes⟩)

theorem inferGiven_attributes : ∀ (fields : List FieldExp) {s : Checker},
    (∀ field ∈ fields, (Phrase.fieldExp field).Inside root) →
    s.Awaits root (FieldExp.idsList fields) →
    Attributes root (FieldExp.idsList fields) (inferGiven fields) s fun given s' =>
      ∀ field ∈ given, field.Vouched root s'
  | [], s, _, hs => .pure hs.toHonest (by simp)
  | .mk span name value :: fields, s, hfields, hs => by
    obtain ⟨hfield, hfields⟩ := List.forall_mem_cons.mp hfields
    have hvalue : (Phrase.exp value).Inside root := hfield.child List.mem_cons_self
    refine .bind hs (inferExp_attributes value hvalue hs.first) fun ty s₁ hs₁ _ hty => ?_
    have hvouches : s₁.Vouches root ty value.start := ⟨value, hvalue, rfl, hty⟩
    exact (inferGiven_attributes fields hfields hs₁).andThen fun given s₂ hs₂ hadvances hgiven =>
      .pure hs₂ (List.forall_mem_cons.mpr
        ⟨⟨⟨_, hfield, rfl⟩, hvouches.advance hadvances⟩, hgiven⟩)

theorem checkBodies_attributes : ∀ (decs : List Dec) {s : Checker},
    (∀ d ∈ decs, (Phrase.dec d).Inside root) → s.Awaits root (Dec.innerIds decs) →
    Attributes root (Dec.innerIds decs) (checkBodies decs) s fun _ _ => True
  | [], s, _, hs => .pure hs.toHonest trivial
  | .var node name typeName init :: decs, s, hdecs, hs => by
    obtain ⟨hd, hdecs⟩ := List.forall_mem_cons.mp hdecs
    have hstart : node.span.start.StartsIn root := ⟨_, hd, rfl⟩
    have hinit : (Phrase.exp init).Inside root := hd.child List.mem_cons_self
    refine Attributes.mono ?_ (List.subset_cons_self node.id _)
    refine .bind hs.tail (inferExp_attributes init hinit hs.tail.first)
      fun initType s₁ hs₁ _ hty => ?_
    refine .before hs₁ (declaredType_attributes hs₁.toHonest hstart typeName ⟨init, hinit, rfl, hty⟩)
      fun ty s₂ hs₂ _ hstorable => ?_
    exact .before hs₂ (declareVar_attributes hs₂.toHonest hstart name hstorable)
      fun _ s₃ hs₃ _ _ => checkBodies_attributes decs hdecs hs₃
  | .type node _ _ :: decs, s, hdecs, hs =>
    (checkBodies_attributes decs (List.forall_mem_cons.mp hdecs).2 hs.tail).mono
      (List.subset_cons_self node.id _)
  | .function node _ params result body :: decs, s, hdecs, hs => by
    obtain ⟨hd, hdecs⟩ := List.forall_mem_cons.mp hdecs
    have hparams : ∀ param ∈ params, (Phrase.field param).Inside root := fun param hparam =>
      hd.child (List.mem_append_left _ (List.mem_map_of_mem hparam))
    have hbody : (Phrase.exp body).Inside root := hd.child (by simp)
    refine Attributes.mono ?_ (List.subset_append_right (params.map (·.node.id)) _)
    have hs := hs.second
    refine .getThen ?_
    cases hroutine : s.facts.routine? node.id with
    | none =>
      exact (checkBodies_attributes decs hdecs hs.second).mono (List.subset_append_right _ _)
    | some info =>
      obtain ⟨id, -, hinfo⟩ := Option.bind_eq_some_iff.mp hroutine
      have hstorable := (hs.fit.stored.held.routines hinfo).params
      refine .bind hs (.inFunction info.frame hs.first fun s₁ hs₁ hregistry => ?_)
        fun _ s' hs' _ _ => checkBodies_attributes decs hdecs hs'
      refine .inScope (Q := fun _ _ => True) hs₁ fun hentered => ?_
      rw [← hregistry] at hstorable
      refine .before hentered (declareParams_attributes hentered.toHonest hparams hstorable)
        fun _ s₂ hs₂ _ _ => ?_
      refine (inferExp_attributes body hbody hs₂).andThen fun bodyType s₃ hs₃ _ hty => ?_
      have hvouches : s₃.Vouches root bodyType body.start := ⟨body, hbody, rfl, hty⟩
      exact .observe hs₃ (Observes.require _ _ _).discard
        (Attests.require fun _ => hvouches.justified _) trivial

end

end CheckM

theorem Checker.awaits_initial {root : Phrase} {ids : List Nat} (h : ids.Nodup) :
    Checker.initial.Awaits root ids :=
  ⟨⟨fit_initial True, fun _ hd => by simp [initial] at hd⟩, h, fun _ _ => by
    simp [initial, Facts.empty]⟩

theorem check_honest {e : Exp} (h : e.ids.Nodup) : (check e).Honest (.exp e) := by
  have hawaits : Checker.initial.Awaits (.exp e) e.ids := Checker.awaits_initial h
  have hexp := CheckM.inferExp_attributes e .refl hawaits
  have hlast : ((CheckM.inferExp e).run .initial).2.Advances [] (check e) := .of_eq rfl rfl
  exact hexp.honest.advance hlast (Trace.checkProgram_holds e (Checker.fit_initial True)).after
    fun _ hd => .inl hd

/-- A mismatch is about an expression of the program whose type has the name that was received. It is
reported where the expression starts, except for the left operand of an operator on numbers. -/
theorem parse_blames {file : String} {tokens : List Token} {e : Exp}
    (hparse : (parse file tokens).1 = .ok e) {d : Diagnostic} (hd : d ∈ (check e).diagnostics)
    {expected received : String} (hcause : d.cause = .typeMismatch expected received) :
    ∃ q ty, (check e).Blames (.exp e) expected received d.position q ty :=
  ((check_honest (parse_given hparse).nodup).justified d hd).blames expected received hcause

def arraySumSource : String :=
  "let type t = array of int var a := t [2] of nil in 2 + a; a + 1 end"

def arraySumTokens : List Token := (Token.scan arraySumSource "sum.tig").toOption.getD []

def arraySum : Exp := (parse "sum.tig" arraySumTokens).1.toOption.getD default

theorem parse_blames_arraySum :
    (parse "sum.tig" arraySumTokens).1 = .ok arraySum ∧
    (check arraySum).diagnostics = #[⟨.typeMismatch "int" "nil", ⟨44, "sum.tig"⟩⟩,
      ⟨.typeMismatch "int" "t", ⟨55, "sum.tig"⟩⟩, ⟨.typeMismatch "int" "t", ⟨62, "sum.tig"⟩⟩] ∧
    (∃ q ty, (check arraySum).Blames (.exp arraySum) "int" "nil" ⟨44, "sum.tig"⟩ q ty) ∧
    (∃ q ty, (check arraySum).Blames (.exp arraySum) "int" "t" ⟨55, "sum.tig"⟩ q ty) ∧
    ∃ q ty, (check arraySum).Blames (.exp arraySum) "int" "t" ⟨62, "sum.tig"⟩ q ty := by
  have hparse : (parse "sum.tig" arraySumTokens).1 = .ok arraySum :=
    parse_eq_ok_getD (by decide +kernel)
  have hdiagnostics : (check arraySum).diagnostics = #[⟨.typeMismatch "int" "nil", ⟨44, "sum.tig"⟩⟩,
      ⟨.typeMismatch "int" "t", ⟨55, "sum.tig"⟩⟩, ⟨.typeMismatch "int" "t", ⟨62, "sum.tig"⟩⟩] := by
    decide +kernel
  have hblames : ∀ expected received position,
      ⟨.typeMismatch expected received, position⟩ ∈ (check arraySum).diagnostics →
      ∃ q ty, (check arraySum).Blames (.exp arraySum) expected received position q ty :=
    fun _ _ _ hd => parse_blames hparse hd rfl
  rw [hdiagnostics] at hblames
  exact ⟨hparse, hdiagnostics, hblames _ _ _ (by simp), hblames _ _ _ (by simp),
    hblames _ _ _ (by simp)⟩

def Checker.clears (s : Checker) (position : Position) (name : String) : Phrase → Bool
  | .exp q => q.start != position ||
      (s.facts.expTypes[q.node.id]?).all fun ty => s.registry.nameOf ty != name
  | _ => true

def leftStringTokens : List Token := (Token.scan "\"a\" + 1" "shell").toOption.getD []

def leftString : Exp := (parse "shell" leftStringTokens).1.toOption.getD default

/-- The string at byte 0 is reported at byte 6, where there is a number and nothing else. -/
theorem parse_leftString_elsewhere :
    Token.scan "\"a\" + 1" "shell" = .ok leftStringTokens ∧
    (parse "shell" leftStringTokens).1 = .ok leftString ∧
    (check leftString).diagnostics = #[⟨.typeMismatch "int" "string", ⟨6, "shell"⟩⟩] ∧
    ∀ q : Exp, (Phrase.exp q).Inside (.exp leftString) → q.start = ⟨6, "shell"⟩ →
      ∀ ty, (check leftString).facts.expTypes[q.node.id]? = some ty →
        (check leftString).registry.nameOf ty ≠ "string" := by
  obtain ⟨hscan, hok, hdiagnostics, hroot, hchildren⟩ :
      Token.scan "\"a\" + 1" "shell" = .ok leftStringTokens ∧
      (parse "shell" leftStringTokens).1.isOk = true ∧
      (check leftString).diagnostics = #[⟨.typeMismatch "int" "string", ⟨6, "shell"⟩⟩] ∧
      (check leftString).clears ⟨6, "shell"⟩ "string" (.exp leftString) = true ∧
      leftString.children.all (fun c => c.children.isEmpty &&
        (check leftString).clears ⟨6, "shell"⟩ "string" c) = true := by
    decide +kernel
  refine ⟨hscan, parse_eq_ok_getD hok, hdiagnostics, fun q hq hstart ty hty hname => ?_⟩
  have hclears : ∀ p : Phrase, p.Inside (.exp leftString) →
      (check leftString).clears ⟨6, "shell"⟩ "string" p = true := by
    refine Phrase.forall_inside_iff.mpr ⟨hroot, fun c hc => Phrase.forall_inside_iff.mpr ?_⟩
    have hchild := List.all_eq_true.mp hchildren c hc
    simp only [Bool.and_eq_true, List.isEmpty_iff] at hchild
    refine ⟨hchild.2, fun other hother => ?_⟩
    rw [hchild.1] at hother
    cases hother
  have hq := hclears _ hq
  simp [Checker.clears, hstart, hty, hname] at hq

end TigerLang

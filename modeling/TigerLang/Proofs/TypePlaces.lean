import TigerLang.Proofs.Phrases
import TigerLang.Proofs.Storage

/-! Where the reports about type names stand. A name is looked into where it is used or declared, and
both are places where a phrase of the program starts. -/

namespace TigerLang

theorem Phrase.Inside.child {p q root : Phrase} (h : q.Inside root) (hp : p ∈ q.children) :
    p.Inside root := Relation.ReflTransGen.head hp h

def Position.StartsIn (root : Phrase) (position : Position) : Prop :=
  ∃ q : Phrase, q.Inside root ∧ position = q.span.start

structure TypeBinding.DeclaredIn (root : Phrase) (entry : TypeBinding) : Prop where
  position : entry.resolved = none → entry.position.StartsIn root
  definition : entry.resolved = none → ∀ definition, entry.definition = some definition →
    (Phrase.typeExp definition).Inside root

theorem TypeBinding.DeclaredIn.of_resolved {root : Phrase} {entry : TypeBinding}
    (h : entry.resolved.isSome) : entry.DeclaredIn root := by
  have hne : entry.resolved ≠ none := Option.isSome_iff_ne_none.mp h
  exact ⟨fun hnone => absurd hnone hne, fun hnone => absurd hnone hne⟩

def Checker.DeclaresIn (root : Phrase) (s : Checker) : Prop :=
  s.types.All (TypeBinding.DeclaredIn root)

theorem AllResolved.declaresIn {s : Checker} (h : AllResolved s.types) (root : Phrase) :
    s.DeclaresIn root := h.all.imp fun _ => .of_resolved

structure Diagnostic.Placed (root : Phrase) (d : Diagnostic) : Prop where
  starts : d.position.StartsIn root
  cause : ∀ expected received, d.cause ≠ .typeMismatch expected received

structure Places {α : Type} (root : Phrase) (x : CheckM α) (s : Checker) (Q : α → Prop) :
    Prop where
  declares : (x.run s).2.DeclaresIn root
  told : ∀ d ∈ (x.run s).2.diagnostics, d ∈ s.diagnostics ∨ d.Placed root
  answer : Q (x.run s).1

namespace Places
variable {α β : Type} {root : Phrase} {s : Checker} {Q : α → Prop} {R : β → Prop}
  {x : CheckM α} {f : α → CheckM β}

theorem write {g : Checker → α × Checker} (hs : (g s).2.DeclaresIn root)
    (hdiagnostics : (g s).2.diagnostics = s.diagnostics) (hq : Q (g s).1) :
    Places root (modifyGet g) s Q := by
  refine ⟨hs, fun d hd => .inl ?_, hq⟩
  rwa [← hdiagnostics]

theorem pure {a : α} (hs : s.DeclaresIn root) (hq : Q a) : Places root (pure a) s Q :=
  ⟨hs, fun _ => .inl, hq⟩

theorem bind (hx : Places root x s Q)
    (hf : ∀ a s', s'.DeclaresIn root → Q a → Places root (f a) s' R) :
    Places root (x >>= f) s R := by
  have hrest := hf _ _ hx.declares hx.answer
  refine ⟨hrest.declares, fun d hd => ?_, hrest.answer⟩
  rcases hrest.told d hd with hd | hd
  · exact hx.told d hd
  · exact .inr hd

theorem getThen {f : Checker → CheckM β} (h : Places root (f s) s R) :
    Places root (get >>= f) s R := ⟨h.declares, h.told, h.answer⟩

theorem report {cause : Cause} {position : Position} (hs : s.DeclaresIn root)
    (hposition : position.StartsIn root)
    (hcause : ∀ expected received, cause ≠ .typeMismatch expected received) :
    Places root (CheckM.report cause position) s fun _ => True := by
  refine ⟨hs, fun d hd => ?_, trivial⟩
  rcases Array.mem_push.mp hd with hd | rfl
  · exact .inl hd
  · exact .inr ⟨hposition, hcause⟩

theorem discard (h : Places root x s Q) : Places root (discard x : CheckM Unit) s fun _ => True :=
  ⟨h.declares, h.told, trivial⟩

end Places

namespace CheckM
variable {root : Phrase} {s : Checker}

def PlacesNames (root : Phrase) (resolve : String → Position → CheckM Ty) : Prop :=
  ∀ (name : String) {position : Position} {s : Checker}, s.DeclaresIn root →
    position.StartsIn root → Places root (resolve name position) s fun _ => True

theorem settle_places (hs : s.DeclaresIn root) (name : String) (ty : Ty) :
    Places root (settle name ty) s fun _ => True :=
  .write (Scopes.All.change hs fun _ _ => .of_resolved rfl) rfl trivial

theorem settleAll_places (hs : s.DeclaresIn root) (ty : Ty) (loop : List String) :
    Places root (loop.forM fun visited => settle visited ty) s fun _ => True := by
  induction loop generalizing s with
  | nil => exact .pure hs trivial
  | cons visited loop ih => exact (settle_places hs visited ty).bind fun _ _ hs' _ => ih hs'

section resolve
variable {resolve : String → Position → CheckM Ty}

theorem resolveFields_places (h : PlacesNames root resolve) {fields : List Field}
    (hfields : ∀ field ∈ fields, (Phrase.field field).Inside root) (found : List (String × Ty))
    (hs : s.DeclaresIn root) : Places root (resolveFields resolve found fields) s fun _ => True := by
  induction fields generalizing found s with
  | nil => exact .pure hs trivial
  | cons field fields ih =>
    obtain ⟨hfield, hrest⟩ := List.forall_mem_cons.mp hfields
    have hstart : field.node.span.start.StartsIn root := ⟨_, hfield, rfl⟩
    rw [resolveFields]
    split
    · exact (Places.report hs hstart (by simp)).bind fun _ _ hs' _ => ih hrest found hs'
    · exact (h field.typeName hs hstart).bind fun ty _ hs' _ => ih hrest _ hs'

theorem resolveDefinition_places (h : PlacesNames root resolve) (name : String)
    {definition : TypeExp} (hdefinition : (Phrase.typeExp definition).Inside root)
    (hs : s.DeclaresIn root) :
    Places root (resolveDefinition resolve name definition) s fun _ => True := by
  have hstart : definition.span.start.StartsIn root := ⟨_, hdefinition, rfl⟩
  cases definition with
  | name span target => exact h target hs hstart
  | array span element =>
    refine (h element hs hstart).bind fun ty s₁ hs₁ _ => .getThen ?_
    split
    · exact .pure hs₁ trivial
    · split
      · exact .pure hs₁ trivial
      · refine Places.bind (Q := fun _ => True) (.write hs₁ rfl trivial) fun id s₂ hs₂ _ => ?_
        exact .pure hs₂ trivial
  | record span fields =>
    have hfields : ∀ field ∈ fields, (Phrase.field field).Inside root :=
      fun field hfield => hdefinition.child (List.mem_map_of_mem hfield)
    refine Places.bind (Q := fun _ => True) (.write hs rfl trivial) fun id s₁ hs₁ _ => ?_
    refine (settle_places hs₁ name (.record id)).bind fun _ s₂ hs₂ _ => ?_
    refine (resolveFields_places h hfields [] hs₂).bind fun typed s₃ hs₃ _ => ?_
    refine Places.bind (Q := fun _ => True) (.write hs₃ rfl trivial) fun _ s₄ hs₄ _ => ?_
    exact .pure hs₄ trivial

theorem resolveLoop_places (h : PlacesNames root resolve) (name : String)
    {declared position : Position} (hdeclared : declared.StartsIn root)
    (hposition : position.StartsIn root) (loop : List String) (hs : s.DeclaresIn root) :
    Places root (resolveLoop resolve name declared position loop) s fun _ => True := by
  refine .getThen ?_
  show Places root (if loop.tail.any (declaresRecord s.types) then _ else _) s _
  split
  · exact h name hs hposition
  · refine (Places.report hs hdeclared (by simp)).bind fun _ s₁ hs₁ _ => ?_
    exact (settleAll_places hs₁ .error loop).bind fun _ s₂ hs₂ _ => .pure hs₂ trivial

-- A loop is reported where its name is declared, all else where the name is used.
theorem walk_places (h : PlacesNames root resolve) (fuel : Nat) (visiting : List String) :
    PlacesNames root (walk resolve fuel visiting) := by
  induction fuel generalizing visiting with
  | zero => exact fun _ _ _ hs _ => .pure hs trivial
  | succ fuel ih =>
    intro name position s hs hposition
    refine .getThen ?_
    cases hfind : s.types.find? name with
    | none =>
      exact (Places.report hs hposition (by simp)).bind fun _ _ hs' _ => .pure hs' trivial
    | some entry =>
      have hentry := Scopes.All.find? hs hfind
      obtain ⟨_ | definition, _ | ty, declared⟩ := entry
      · exact .pure hs trivial
      · exact .pure hs trivial
      · show Places root (if name ∈ visiting then _ else _) s _
        split
        · exact resolveLoop_places h name (hentry.position rfl) hposition _ hs
        · have hdefinition := hentry.definition rfl definition rfl
          refine (resolveDefinition_places (ih _) name hdefinition hs).bind fun found s₁ hs₁ _ => ?_
          refine .getThen ((settle_places hs₁ name _).bind fun _ s₂ hs₂ _ => .getThen ?_)
          refine Places.bind (Q := fun _ => True) (.write hs₂ rfl trivial) fun _ s₃ hs₃ _ => ?_
          exact .pure hs₃ trivial
      · exact .pure hs trivial

end resolve

theorem freshWalk_places (fuel rounds : Nat) : PlacesNames root (freshWalk fuel rounds) := by
  induction rounds with
  | zero => exact fun _ _ _ hs _ => .pure hs trivial
  | succ rounds ih => exact walk_places ih fuel []

theorem typeNamed_places : PlacesNames root typeNamed := fun name _ _ hs hposition =>
  .getThen (walk_places (freshWalk_places _ 2) _ [] name hs hposition)

/-! Blocks -/

theorem declareTypes_places {decs : List Dec} (hdecs : ∀ d ∈ decs, (Phrase.dec d).Inside root)
    (hs : s.DeclaresIn root) :
    Places root (declareTypes decs) s fun names => ∀ name ∈ names, name.2.StartsIn root := by
  induction decs generalizing s with
  | nil => exact .pure hs (by simp)
  | cons d decs ih =>
    obtain ⟨hd, hrest⟩ := List.forall_mem_cons.mp hdecs
    cases d with
    | var node name typeName init => exact ih hrest hs
    | function node name params result body => exact ih hrest hs
    | type node name definition =>
      have hstart : node.span.start.StartsIn root := ⟨_, hd, rfl⟩
      refine .getThen ?_
      split
      · exact (Places.report hs hstart (by simp)).bind fun _ _ hs' _ => ih hrest hs'
      · let entry : TypeBinding := ⟨some definition, none, node.span.start⟩
        have hentry : entry.DeclaredIn root := by
          refine ⟨fun _ => hstart, fun _ other hother => ?_⟩
          obtain rfl := Option.some.inj hother
          exact hd.child List.mem_cons_self
        have hbound : { s with types := s.types.bind name entry }.DeclaresIn root :=
          Scopes.All.bind hs hentry
        refine Places.bind (Q := fun _ => True) (.write hbound rfl trivial) fun _ s₁ hs₁ _ => ?_
        refine (ih hrest hs₁).bind fun names s₂ hs₂ hnames => ?_
        exact .pure hs₂ (List.forall_mem_cons.mpr ⟨hstart, hnames⟩)

theorem resolveTypes_places {names : List (String × Position)}
    (hnames : ∀ name ∈ names, name.2.StartsIn root) (hs : s.DeclaresIn root) :
    Places root (resolveTypes names) s fun _ => True := by
  induction names generalizing s with
  | nil => exact .pure hs trivial
  | cons name names ih =>
    obtain ⟨hname, hrest⟩ := List.forall_mem_cons.mp hnames
    exact (typeNamed_places name.1 hs hname).discard.bind fun _ _ hs' _ => ih hrest hs'

theorem paramTypes_places {params : List Field}
    (hparams : ∀ param ∈ params, (Phrase.field param).Inside root) (hs : s.DeclaresIn root) :
    Places root (paramTypes params) s fun _ => True := by
  unfold paramTypes
  induction params generalizing s with
  | nil => exact .pure hs trivial
  | cons param params ih =>
    obtain ⟨hparam, hrest⟩ := List.forall_mem_cons.mp hparams
    rw [List.mapM_cons]
    refine (typeNamed_places param.typeName hs ⟨_, hparam, rfl⟩).bind fun ty s₁ hs₁ _ => ?_
    exact (ih hrest hs₁).bind fun types s₂ hs₂ _ => .pure hs₂ trivial

theorem resultType_places {node : Node} (hnode : node.span.start.StartsIn root)
    (result : Option String) (hs : s.DeclaresIn root) :
    Places root (resultType node result) s fun _ => True := by
  cases result with
  | none => exact .pure hs trivial
  | some result => exact typeNamed_places result hs hnode

theorem enterFunction_places {node : Node} (hnode : node.span.start.StartsIn root) (name : String)
    (params : List Ty) (result : Ty) (hs : s.DeclaresIn root) :
    Places root (enterFunction node name params result) s fun _ => True := by
  refine Places.bind (Q := fun _ => True) (.write hs rfl trivial) fun id s₁ hs₁ _ => ?_
  refine Places.bind (Q := fun _ => True) (.write hs₁ rfl trivial) fun _ s₂ hs₂ _ => .getThen ?_
  split
  · exact .report hs₂ hnode (by simp)
  · exact .write hs₂ rfl trivial

theorem declareHeadings_places {decs : List Dec} (hdecs : ∀ d ∈ decs, (Phrase.dec d).Inside root)
    (hs : s.DeclaresIn root) : Places root (declareHeadings decs) s fun _ => True := by
  induction decs generalizing s with
  | nil => exact .pure hs trivial
  | cons d decs ih =>
    obtain ⟨hd, hrest⟩ := List.forall_mem_cons.mp hdecs
    cases d with
    | var node name typeName init => exact ih hrest hs
    | type node name definition => exact ih hrest hs
    | function node name params result body =>
      have hstart : node.span.start.StartsIn root := ⟨_, hd, rfl⟩
      have hparams : ∀ param ∈ params, (Phrase.field param).Inside root := fun param hparam =>
        hd.child (List.mem_append_left _ (List.mem_map_of_mem hparam))
      have hheading : Places root (declareHeading node name params result) s fun _ => True := by
        rw [declareHeading_eq]
        refine (paramTypes_places hparams hs).bind fun types s₁ hs₁ _ => ?_
        refine (resultType_places hstart result hs₁).bind fun ty s₂ hs₂ _ => ?_
        exact enterFunction_places hstart name types ty hs₂
      exact hheading.bind fun _ _ hs' _ => ih hrest hs'

theorem declareBlock_places {decs : List Dec} (hdecs : ∀ d ∈ decs, (Phrase.dec d).Inside root)
    (hs : s.DeclaresIn root) : Places root (declareBlock decs) s fun _ => True := by
  refine (declareTypes_places hdecs hs).bind fun names s₁ hs₁ hnames => ?_
  refine (resolveTypes_places hnames hs₁).bind fun _ s₂ hs₂ _ => ?_
  exact declareHeadings_places hdecs hs₂

end CheckM

end TigerLang

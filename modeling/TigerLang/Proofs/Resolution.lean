import Mathlib.Data.List.Chain
import TigerLang.Proofs.Resolving

/-! Looking into type names. However the declarations of a block refer to each other, a walk from
any of them gives it and all that it leads to the right types, and what had a type keeps it. -/

namespace TigerLang

namespace TypeBlock
variable (b : TypeBlock)

def Clean : Prop :=
  ∀ {name binding}, b.outer.find? name = some binding → binding.resolved ≠ some .error

def FieldsGrounded : Prop :=
  ∀ {name span fields}, b.definition? name = some (.record span fields) →
    (fields.map Field.name).Nodup ∧ ∀ field ∈ fields, b.Grounded field.typeName

end TypeBlock

structure Checker.SameElsewhere (s s' : Checker) : Prop where
  vars : s'.vars = s.vars
  functions : s'.functions = s.functions
  frames : s'.frames = s.frames
  facts : s'.facts = s.facts
  loopDepth : s'.loopDepth = s.loopDepth

theorem Checker.SameElsewhere.trans {s s' s'' : Checker} (h : s.SameElsewhere s')
    (h' : s'.SameElsewhere s'') : s.SameElsewhere s'' :=
  ⟨h'.vars.trans h.vars, h'.functions.trans h.functions, h'.frames.trans h.frames,
    h'.facts.trans h.facts, h'.loopDepth.trans h.loopDepth⟩

structure Faultless (b : TypeBlock) (unfinished : List String) (scope : Scope TypeBinding) :
    Prop where
  types : ∀ name, scope.resolved? name ≠ some .error
  fields : ∀ {name span fields}, b.definition? name = some (.record span fields) →
    name ∉ unfinished → (scope.resolved? name).isSome →
    (fields.map Field.name).Nodup ∧
      ∀ field ∈ fields, ∃ ty, Stands (b.outer.within scope) field.typeName ty ∧ ty ≠ .error

/-- The state while the type names of a block are looked into, compared with that at the start. As
long as nothing has been reported, nothing is wrong. -/
structure Resolving (b : TypeBlock) (start : Checker) (unfinished : List String)
    (scope : Scope TypeBinding) (s : Checker) : Prop where
  types : s.types = b.outer.within scope
  refines : Refines b.declared scope
  sound : Sound b start.registry unfinished scope s.registry
  elsewhere : start.SameElsewhere s
  diagnostics : start.diagnostics.toList <+: s.diagnostics.toList
  events : start.events.toList <+: s.events.toList
  faultless : b.Clean → s.diagnostics = start.diagnostics → Faultless b unfinished scope

theorem diagnostics_report (cause : Cause) (position : Position) (s : Checker) :
    s.diagnostics.toList <+: ((CheckM.report cause position).run s).2.diagnostics.toList := by
  change s.diagnostics.toList <+: (s.diagnostics.push ⟨cause, position⟩).toList
  simp

theorem events_tell (event : Event) (s : Checker) :
    s.events.toList <+: ((CheckM.tell event).run s).2.events.toList := by
  change s.events.toList <+: (s.events.push event).toList
  simp

theorem diagnostics_ne_of_report {start s : Checker}
    (h : start.diagnostics.toList <+: s.diagnostics.toList) (cause : Cause) (position : Position) :
    ((CheckM.report cause position).run s).2.diagnostics ≠ start.diagnostics := by
  intro hsame
  have hle : start.diagnostics.size ≤ s.diagnostics.size := by simpa using h.length_le
  have hpush : s.diagnostics.push ⟨cause, position⟩ = start.diagnostics := hsame
  have hsize := congrArg Array.size hpush
  rw [Array.size_push] at hsize
  omega

namespace Resolving
variable {b : TypeBlock} {start s : Checker} {unfinished unfinished' : List String}
  {scope scope' : Scope TypeBinding}

theorem tell (h : Resolving b start unfinished scope s) (event : Event) :
    Resolving b start unfinished scope ((CheckM.tell event).run s).2 := by
  exact ⟨h.types, h.refines, h.sound, h.elsewhere.trans ⟨rfl, rfl, rfl, rfl, rfl⟩, h.diagnostics,
    h.events.trans (events_tell event s), h.faultless⟩

theorem report (h : Resolving b start unfinished scope s) (cause : Cause) (position : Position) :
    Resolving b start unfinished scope ((CheckM.report cause position).run s).2 := by
  have htell := h.tell (.reported cause)
  refine ⟨htell.types, htell.refines, htell.sound,
    htell.elsewhere.trans ⟨rfl, rfl, rfl, rfl, rfl⟩,
    h.diagnostics.trans (diagnostics_report cause position s), htell.events, fun _ hsame => ?_⟩
  exact absurd hsame (diagnostics_ne_of_report h.diagnostics cause position)

theorem change (h : Resolving b start unfinished scope s) {registry : Registry}
    (hscope : Refines scope scope') (hsound : Sound b start.registry unfinished' scope' registry)
    (hfaultless : b.Clean → s.diagnostics = start.diagnostics → Faultless b unfinished' scope') :
    Resolving b start unfinished' scope'
      { s with types := b.outer.within scope', registry } :=
  ⟨rfl, h.refines.trans hscope, hsound, h.elsewhere.trans ⟨rfl, rfl, rfl, rfl, rfl⟩,
    h.diagnostics, h.events, hfaultless⟩

theorem bound (h : Resolving b start unfinished scope s) {name : String} {definition : TypeExp}
    (hname : b.definition? name = some definition) :
    ∃ declared, b.declared.value? name = some declared ∧ declared.definition = some definition ∧
      scope.value? name = some { declared with resolved := scope.resolved? name } := by
  obtain ⟨declared, hdeclared, hdefinition⟩ := Option.bind_eq_some_iff.mp hname
  obtain ⟨r, hvalue, -⟩ := h.refines.kept hdeclared
  refine ⟨declared, hdeclared, hdefinition, ?_⟩
  rw [Scope.resolved?, hvalue]
  rfl

theorem entry (h : Resolving b start unfinished scope s) {name : String} {definition : TypeExp}
    (hname : b.definition? name = some definition) :
    ∃ position, s.types.find? name = some ⟨some definition, scope.resolved? name, position⟩ := by
  obtain ⟨declared, -, hdefinition, hvalue⟩ := h.bound hname
  refine ⟨declared.position, ?_⟩
  rw [h.types, Scopes.find?_within, hvalue, Option.some_or, hdefinition]

end Resolving

theorem Faultless.settle {b : TypeBlock} {unfinished unfinished' : List String}
    {scope : Scope TypeBinding} (h : Faultless b unfinished scope) {name : String}
    {binding : TypeBinding} {definition : TypeExp} {ty : Ty}
    (hname : b.definition? name = some definition) (hvalue : scope.value? name = some binding)
    (hopen : binding.resolved = none) (hne : ty ≠ .error) (hsub : unfinished ⊆ unfinished')
    (hrecord : definition.isRecord → name ∈ unfinished') :
    Faultless b unfinished' (scope.bind name { binding with resolved := some ty }) := by
  have hscope : Refines scope (scope.bind name { binding with resolved := some ty }) :=
    Refines.settle hvalue (.inl hopen)
  constructor
  case types =>
    intro other hother
    rw [Scope.resolved?_settle] at hother
    split at hother
    · exact hne (Option.some.inj hother)
    · exact h.types other hother
  case fields =>
    intro other span fields hother hfinished hsome
    rw [Scope.resolved?_settle] at hsome
    split at hsome
    · next heq =>
      subst heq
      rw [hname] at hother
      cases hother
      exact absurd (hrecord rfl) hfinished
    · obtain ⟨hnodup, htypes⟩ := h.fields hother (fun hmem => hfinished (hsub hmem)) hsome
      refine ⟨hnodup, fun field hfield => ?_⟩
      obtain ⟨ty', hstands, hne'⟩ := htypes field hfield
      exact ⟨ty', hscope.stands hstands, hne'⟩

/-- What comes of looking into a name: a type that it stands for from then on. Under the condition
`silent` nothing is reported. -/
structure Found (b : TypeBlock) (start : Checker) (unfinished : List String)
    (scope : Scope TypeBinding) (s : Checker) (name : String) (silent : Prop)
    (scope' : Scope TypeBinding) (ty : Ty) (s' : Checker) : Prop where
  resolving : Resolving b start unfinished scope' s'
  refines : Refines scope scope'
  stands : Stands (b.outer.within scope') name ty
  certain : b.Clean → s'.diagnostics = start.diagnostics → ty ≠ .error
  longer : s.diagnostics.toList <+: s'.diagnostics.toList
  quiet : silent → s'.diagnostics = s.diagnostics

def Finds (b : TypeBlock) (start : Checker) (unfinished : List String)
    (scope : Scope TypeBinding) (s : Checker) (name : String) (silent : Prop)
    (result : Ty × Checker) : Prop :=
  ∃ scope', Found b start unfinished scope s name silent scope' result.1 result.2

theorem Found.after {b : TypeBlock} {start s s' s'' : Checker} {unfinished : List String}
    {scope scope' scope'' : Scope TypeBinding} {name target : String} {silent : Prop} {ty ty' : Ty}
    (h : Found b start unfinished scope s target silent scope' ty s')
    (h' : Found b start unfinished scope' s' name True scope'' ty' s'') :
    Found b start unfinished scope s name silent scope'' ty' s'' :=
  ⟨h'.resolving, h.refines.trans h'.refines, h'.stands, h'.certain, h.longer.trans h'.longer,
    fun hsilent => (h'.quiet trivial).trans (h.quiet hsilent)⟩

theorem Found.imp {b : TypeBlock} {start s s' : Checker} {unfinished : List String}
    {scope scope' : Scope TypeBinding} {name : String} {silent silent' : Prop} {ty : Ty}
    (himp : silent' → silent) (h : Found b start unfinished scope s name silent scope' ty s') :
    Found b start unfinished scope s name silent' scope' ty s' :=
  ⟨h.resolving, h.refines, h.stands, h.certain, h.longer, fun hsilent => h.quiet (himp hsilent)⟩

theorem Resolving.found {b : TypeBlock} {start s : Checker} {unfinished : List String}
    {scope : Scope TypeBinding} (h : Resolving b start unfinished scope s) {name : String}
    {binding : TypeBinding} {ty : Ty} (hfind : s.types.find? name = some binding)
    (hty : binding.resolved = some ty) (silent : Prop) :
    Found b start unfinished scope s name silent scope ty s := by
  have hstands : Stands (b.outer.within scope) name ty := by
    simpa [Stands, ← h.types, hfind] using hty
  refine ⟨h, .refl _, hstands, fun hclean hsame herror => ?_, List.prefix_rfl, fun _ => rfl⟩
  rw [h.types, Scopes.find?_within] at hfind
  cases hvalue : scope.value? name with
  | none =>
    rw [hvalue, Option.none_or] at hfind
    exact hclean hfind (herror ▸ hty)
  | some entry =>
    rw [hvalue, Option.some_or] at hfind
    cases hfind
    exact (h.faultless hclean hsame).types name (by simp [Scope.resolved?, hvalue, hty, herror])

namespace CheckM

section run
variable {α β : Type} (s : Checker)

theorem run_bind (x : CheckM α) (f : α → CheckM β) :
    (x >>= f).run s = (f (x.run s).1).run (x.run s).2 := rfl

theorem run_get_bind (f : Checker → CheckM α) : (get >>= f : CheckM α).run s = (f s).run s := rfl

theorem run_discard (x : CheckM α) : (discard x : CheckM Unit).run s = ((), (x.run s).2) := rfl

theorem run_forM_cons (f : α → CheckM PUnit) (a : α) (rest : List α) :
    ((a :: rest).forM f).run s = (rest.forM f).run ((f a).run s).2 := rfl

theorem run_forM_append (f : α → CheckM PUnit) (xs ys : List α) :
    ((xs ++ ys).forM f).run s = (ys.forM f).run ((xs.forM f).run s).2 := by
  induction xs generalizing s with
  | nil => rfl
  | cons a rest ih => rw [List.cons_append, run_forM_cons, run_forM_cons, ih]

end run

/-- The end of looking into a name: it keeps the type that it has got on the way, if any. -/
def conclude (name : String) (found : Ty) : CheckM Ty := do
  let ty := (← resolved? name).getD found
  settle name ty
  tell (.resolvedType name ((← get).registry.nameOf ty))
  return ty

variable {b : TypeBlock} {start s : Checker} {unfinished : List String}
  {scope : Scope TypeBinding} {name : String}

theorem settle_run {binding : TypeBinding} (htypes : s.types = b.outer.within scope)
    (hvalue : scope.value? name = some binding) (ty : Ty) :
    (settle name ty).run s = ((), { s with
      types := b.outer.within (scope.bind name { binding with resolved := some ty }) }) := by
  have hchange : (b.outer.within scope).change name
      (fun entry => { entry with resolved := some ty }) = _ := Scopes.change_within _ hvalue
  rw [← hchange, ← htypes]
  rfl

theorem conclude_run {binding : TypeBinding} (htypes : s.types = b.outer.within scope)
    (hvalue : scope.value? name = some binding) (found : Ty) :
    ∃ event, (conclude name found).run s = (binding.resolved.getD found,
      ((tell event).run { s with
        types := b.outer.within
          (scope.bind name { binding with resolved := some (binding.resolved.getD found) }) }).2) := by
  refine ⟨.resolvedType name (s.registry.nameOf (binding.resolved.getD found)), ?_⟩
  have hfind : s.types.find? name = some binding := by
    rw [htypes, Scopes.find?_within, hvalue, Option.some_or]
  have hty : ((s.types.find? name).bind TypeBinding.resolved).getD found =
      binding.resolved.getD found := by rw [hfind]; rfl
  have hrun : (conclude name found).run s = (do
      settle name (binding.resolved.getD found)
      tell (.resolvedType name ((← get).registry.nameOf (binding.resolved.getD found)))
      return binding.resolved.getD found).run s := by
    rw [← hty]
    rfl
  rw [hrun, run_bind, settle_run htypes hvalue]
  rfl

theorem conclude_settled {binding : TypeBinding} {ty : Ty}
    (hs : Resolving b start unfinished scope s) (hvalue : scope.value? name = some binding)
    (hty : binding.resolved = some ty) (found : Ty) :
    Found b start unfinished scope s name True scope ((conclude name found).run s).1
      ((conclude name found).run s).2 := by
  obtain ⟨event, hrun⟩ := conclude_run hs.types hvalue found
  have hself : scope.bind name { binding with resolved := some ty } = scope := by
    have heq : ({ binding with resolved := some ty } : TypeBinding) = binding := by rw [← hty]
    rw [heq, Scope.bind_self hvalue]
  rw [hrun, hty, Option.getD_some, hself, ← hs.types]
  refine ⟨hs.tell event, .refl _, ?_, fun hclean hsame hty' => ?_, List.prefix_rfl, fun _ => rfl⟩
  · simp [Stands, Scopes.find?_within, hvalue, hty]
  · have herror : ty = .error := hty'
    exact (hs.faultless hclean hsame).types name (by simp [Scope.resolved?, hvalue, hty, herror])

theorem conclude_open {binding : TypeBinding} {found : Ty} {registry : Registry}
    (hs : Resolving b start unfinished scope s) (hvalue : scope.value? name = some binding)
    (hopen : binding.resolved = none)
    (hsound : Sound b start.registry unfinished
      (scope.bind name { binding with resolved := some found }) registry)
    (hfaultless : b.Clean → s.diagnostics = start.diagnostics →
      Faultless b unfinished (scope.bind name { binding with resolved := some found })) :
    Found b start unfinished scope s name True
      (scope.bind name { binding with resolved := some found })
      ((conclude name found).run { s with registry }).1
      ((conclude name found).run { s with registry }).2 := by
  have hscope : Refines scope (scope.bind name { binding with resolved := some found }) :=
    Refines.settle hvalue (.inl hopen)
  have hself : (scope.bind name { binding with resolved := some found }).value? name =
      some { binding with resolved := some found } := by simp [Scope.value?_bind]
  have htypes : ({ s with registry } : Checker).types = b.outer.within scope := hs.types
  obtain ⟨event, hrun⟩ := conclude_run htypes hvalue found
  rw [hrun, hopen, Option.getD_none]
  refine ⟨(hs.change hscope hsound hfaultless).tell event, hscope, ?_, fun hclean hsame herror => ?_,
    List.prefix_rfl, fun _ => rfl⟩
  · simp [Stands, Scopes.find?_within, hself]
  · have hfound : found = .error := herror
    exact (hfaultless hclean hsame).types name
      (by rw [Scope.resolved?_settle, if_pos rfl, hfound])

variable {silent : Prop} {resolve : String → Position → CheckM Ty} {span : Span} {target : String}

theorem lookInto_name (hname : b.definition? name = some (.name span target))
    (htarget : Finds b start unfinished scope s target silent
      ((resolve target span.start).run s)) :
    Finds b start unfinished scope s name silent
      ((resolveDefinition resolve name (.name span target) >>= conclude name).run s) := by
  obtain ⟨scope', hfound⟩ := htarget
  have hs := hfound.resolving
  obtain ⟨declared, -, -, hvalue⟩ := hs.bound hname
  generalize scope'.resolved? name = r at hvalue
  cases r with
  | some ty => exact ⟨scope', hfound.after (conclude_settled hs hvalue rfl _)⟩
  | none =>
    have hnext : b.next? name = some target := by simp [TypeBlock.next?, hname]
    have hground : ((resolve target span.start).run s).1 ≠ .error → b.Grounded name := fun hne =>
      .step hnext (hs.sound.grounded_of_stands hs.refines hfound.stands hne)
    have hsound := hs.sound.settleKnown hname hvalue rfl hfound.stands hground
    exact ⟨_, hfound.after (conclude_open hs hvalue rfl hsound fun hclean hsame =>
      (hs.faultless hclean hsame).settle hname hvalue rfl (hfound.certain hclean hsame)
        (List.Subset.refl _) (by simp [TypeExp.isRecord]))⟩

def arrayOf (name : String) (element : Ty) : Option Ty → CheckM Ty
  | some ty => return ty
  | none => if element.isError then return .error else return .array (← addArray name element)

theorem lookInto_array (hname : b.definition? name = some (.array span target))
    (htarget : Finds b start unfinished scope s target silent
      ((resolve target span.start).run s)) :
    Finds b start unfinished scope s name silent
      ((resolveDefinition resolve name (.array span target) >>= conclude name).run s) := by
  obtain ⟨scope', hfound⟩ := htarget
  have hs := hfound.resolving
  obtain ⟨declared, -, -, hvalue⟩ := hs.bound hname
  generalize scope'.resolved? name = r at hvalue
  set s' := ((resolve target span.start).run s).2
  set elementType := ((resolve target span.start).run s).1
  have hresolved : (s'.types.find? name).bind TypeBinding.resolved = r := by
    rw [hs.types, Scopes.find?_within, hvalue]
    rfl
  have hrun : (resolveDefinition resolve name (.array span target) >>= conclude name).run s =
      (arrayOf name elementType r >>= conclude name).run s' := by
    rw [← hresolved]
    rfl
  rw [hrun]
  cases r with
  | some ty => exact ⟨scope', hfound.after (conclude_settled hs hvalue rfl _)⟩
  | none =>
    have hnext : b.next? name = some target := by simp [TypeBlock.next?, hname]
    by_cases herror : elementType = .error
    · have hsound := hs.sound.settleKnown hname hvalue rfl
        (.inl ⟨rfl, herror ▸ hfound.stands⟩) (fun hne => absurd rfl hne)
      have hconclude := conclude_open hs hvalue rfl hsound fun hclean hsame =>
        absurd herror (hfound.certain hclean hsame)
      simp only [arrayOf, herror, Ty.isError, if_true]
      exact ⟨_, hfound.after hconclude⟩
    · have hground : b.Grounded name :=
        .step hnext (hs.sound.grounded_of_stands hs.refines hfound.stands herror)
      have hsound := hs.sound.settleArray hname hvalue rfl hfound.stands herror hground
      have hconclude := conclude_open hs hvalue rfl hsound fun hclean hsame =>
        (hs.faultless hclean hsame).settle hname hvalue rfl (by simp) (List.Subset.refl _)
          (by simp [TypeExp.isRecord])
      have hisError : elementType.isError = false := by
        cases h : elementType <;> simp_all [Ty.isError]
      simp only [arrayOf, hisError]
      exact ⟨_, hfound.after hconclude⟩

theorem lookInto_next {definition : TypeExp} (hname : b.definition? name = some definition)
    (hnext : b.next? name = some target)
    (htarget : ∀ position, Finds b start unfinished scope s target silent
      ((resolve target position).run s)) :
    Finds b start unfinished scope s name silent
      ((resolveDefinition resolve name definition >>= conclude name).run s) := by
  cases definition with
  | name span m =>
    obtain rfl : m = target := by simpa [TypeBlock.next?, hname] using hnext
    exact lookInto_name hname (htarget _)
  | array span m =>
    obtain rfl : m = target := by simpa [TypeBlock.next?, hname] using hnext
    exact lookInto_array hname (htarget _)
  | record span fields => simp [TypeBlock.next?, hname] at hnext

variable {restart : String → Position → CheckM Ty} {fuel : Nat} {visiting : List String}
  {position : Position}

theorem walk_unknown (h : s.types.find? name = none) :
    (walk restart (fuel + 1) visiting name position).run s =
      (.error, ((report (.undefinedName .type name) position).run s).2) := by
  simp only [walk, StateT.run_bind, StateT.run_get, pure_bind, h]
  rfl

theorem walk_settled {binding : TypeBinding} {ty : Ty} (h : s.types.find? name = some binding)
    (hty : binding.resolved = some ty) :
    (walk restart (fuel + 1) visiting name position).run s = (ty, s) := by
  obtain ⟨definition, resolved, declared⟩ := binding
  obtain rfl : resolved = some ty := hty
  simp only [walk, StateT.run_bind, StateT.run_get, pure_bind, h]
  rfl

theorem walk_again {definition : TypeExp} {declared : Position}
    (h : s.types.find? name = some ⟨some definition, none, declared⟩) (hmem : name ∈ visiting) :
    (walk restart (fuel + 1) visiting name position).run s =
      (resolveLoop restart name declared position (visiting.dropWhile (· != name))).run s := by
  simp only [walk, StateT.run_bind, StateT.run_get, pure_bind, h, if_pos hmem]

theorem walk_on {definition : TypeExp} {declared : Position}
    (h : s.types.find? name = some ⟨some definition, none, declared⟩) (hmem : name ∉ visiting) :
    (walk restart (fuel + 1) visiting name position).run s =
      (resolveDefinition (walk restart fuel (visiting ++ [name])) name definition >>=
        conclude name).run s := by
  simp only [walk, StateT.run_bind, StateT.run_get, pure_bind, h, if_neg hmem]
  rfl

end CheckM

end TigerLang

import TigerLang.Proofs.StaticLinks
import TigerLang.Proofs.TypeVerdict

/-! The checker accepts the well-typed programs and no others. -/

namespace TigerLang

inductive BaseRep : SiteType → Ty → Prop
  | int : BaseRep .int .int
  | string : BaseRep .string .string
  | void : BaseRep .void .void
  | nil : BaseRep .nil .nil

theorem faithful_baseRep : Faithful .empty BaseRep where
  int := .int
  string := .string
  void := .void
  nil := .nil
  functional h h' := by cases h <;> cases h' <;> rfl
  injective h h' := by cases h <;> cases h' <;> rfl
  record h := nomatch h
  array h := nomatch h

theorem sane_initial : Sane BaseRep .initial where
  faithful := faithful_baseRep
  clean := by constructor <;> simp [Checker.initial, Facts.empty, Frames.initial, Registry.empty]

theorem typesMatch_initial : TypesMatch [] BaseRep Checker.initial.types := by
  have hfind : ∀ name, typeOf? Checker.initial.types name =
      if name = "string" then some .string else if name = "int" then some .int else none := by
    intro name
    change typeOf? ((Scopes.empty.bind "int" _).bind "string" _) name = _
    rw [typeOf?, Scopes.find?_bind, Scopes.find?_bind]
    split
    · rfl
    · split <;> rfl
  constructor
  · intro name τ hτ
    rw [hfind]
    rcases denotes_nil.mp hτ with ⟨rfl, rfl⟩ | ⟨rfl, rfl⟩
    · exact ⟨.int, by simp, .int⟩
    · exact ⟨.string, by simp, .string⟩
  · intro name ty hty
    rw [hfind] at hty
    split at hty
    · next h => exact ⟨.string, denotes_nil.mpr (.inr ⟨h, rfl⟩)⟩
    · split at hty
      · next h => exact ⟨.int, denotes_nil.mpr (.inl ⟨h, rfl⟩)⟩
      · cases hty

theorem library_base : ∀ f ∈ LibraryFunction.all,
    (∀ ty ∈ f.params, ty = .int ∨ ty = .string) ∧
      (f.result = .int ∨ f.result = .string ∨ f.result = .void) := by decide

theorem funMatches_library {f : LibraryFunction} (hf : f ∈ LibraryFunction.all) :
    FunMatches BaseRep ⟨f.params.map Context.ofLibrary, Context.ofLibrary f.result⟩ f.binding := by
  obtain ⟨hparams, hresult⟩ := library_base f hf
  constructor
  · refine List.forall₂_map_left_iff.mpr (List.forall₂_same.mpr fun ty hty => ?_)
    rcases hparams ty hty with rfl | rfl
    · exact .int
    · exact .string
  · change BaseRep (Context.ofLibrary f.result) f.result
    rcases hresult with hresult | hresult | hresult <;> rw [hresult]
    · exact .int
    · exact .string
    · exact .void

theorem rel_library (name : String) : Option.Rel (FunMatches BaseRep)
    (Context.initial.functions.value? name) (Checker.initial.functions.find? name) := by
  have hfind : Checker.initial.functions.find? name =
      Scope.value? (LibraryFunction.all.map fun f => (f.name, f.binding)) name := by
    have hinner : Checker.initial.functions.inner = [] := by decide +kernel
    rw [Scopes.find?_eq_or, hinner, ← libraryFunctions_root]
    rfl
  have hmatches : ∀ f ∈ LibraryFunction.all, FunMatches BaseRep
      ⟨f.params.map Context.ofLibrary, Context.ofLibrary f.result⟩ f.binding :=
    fun f => funMatches_library
  rw [hfind, Context.initial]
  dsimp only
  revert hmatches
  generalize LibraryFunction.all = functions
  intro hmatches
  induction functions with
  | nil => exact .none
  | cons f rest ih =>
    rw [List.map_cons, List.map_cons, Scope.value?_cons, Scope.value?_cons]
    split
    · exact .some (hmatches f List.mem_cons_self)
    · exact ih fun f hf => hmatches f (List.mem_cons_of_mem _ hf)

theorem models_initial : Models .initial BaseRep .initial where
  resolved := allResolved_initial
  types := typesMatch_initial
  vars _ := .none
  functions := rel_library
  loop := by simp [Context.initial, Checker.initial]
  sane := sane_initial

def expIds (places : List Place) : List Nat :=
  places.filterMap fun place =>
    match place.part with
    | .exp e => some e.node.id
    | .var _ => none

@[simp] theorem expIds_append (places places' : List Place) :
    expIds (places ++ places') = expIds places ++ expIds places' := List.filterMap_append

@[simp] theorem expIds_exp (around : List Surrounding) (e : Exp) (places : List Place) :
    expIds (⟨around, .exp e⟩ :: places) = e.node.id :: expIds places := rfl

@[simp] theorem expIds_var (around : List Surrounding) (v : Var) (places : List Place) :
    expIds (⟨around, .var v⟩ :: places) = expIds places := rfl

mutual

theorem HasType.map_fst {Γ : Context} {e : Exp} {τ : SiteType} {A : Annotations} :
    HasType Γ e τ A → ∀ around, A.map Prod.fst = expIds (e.places around)
  | .nil, _ | .int, _ | .str, _ | .breakLoop _, _ => rfl
  | .var h, _ => by simp [Exp.places, ← h.map_fst, Exp.node]
  | .call hargs _ _, _ => by simp [Exp.places, ← hargs.map_fst, Exp.node]
  | .binary hleft hright _, _ => by
    simp [Exp.places, ← hleft.map_fst, ← hright.map_fst, Exp.node]
  | .record _ hgiven _, _ => by simp [Exp.places, ← hgiven.map_fst, Exp.node]
  | .seq h, _ => by simp [Exp.places, ← h.map_fst, Exp.node]
  | .assign htarget hvalue _ _, _ => by
    simp [Exp.places, ← htarget.map_fst, ← hvalue.map_fst, Exp.node]
  | .ifThen htest hbody, _ => by
    simp [Exp.places, ← htest.map_fst, ← hbody.map_fst, Exp.node]
  | .ifThenElse htest hyes hno _, _ => by
    simp [Exp.places, ← htest.map_fst, ← hyes.map_fst, ← hno.map_fst, Exp.node]
  | .whileDo htest hbody, _ => by
    simp [Exp.places, ← htest.map_fst, ← hbody.map_fst, Exp.node]
  | .forTo hlo hhi hbody, _ => by
    simp [Exp.places, ← hlo.map_fst, ← hhi.map_fst, ← hbody.map_fst, Exp.node]
  | .letIn _ _ _ _ hdecs hbody, _ => by
    simp [Exp.places, ← hdecs.map_fst, ← hbody.map_fst, Exp.node]
  | .array _ hsize hinit _ _, _ => by
    simp [Exp.places, ← hsize.map_fst, ← hinit.map_fst, Exp.node]

theorem VarHasType.map_fst {Γ : Context} {v : Var} {τ : SiteType} {A : Annotations} :
    VarHasType Γ v τ A → ∀ around, A.map Prod.fst = expIds (v.places around)
  | .simple _, _ => rfl
  | .field hbase _ _, _ => by simp [Var.places, ← hbase.map_fst]
  | .subscript hbase hindex _, _ => by
    simp [Var.places, ← hbase.map_fst, ← hindex.map_fst]

theorem ExpsHaveTypes.map_fst {Γ : Context} {es : List Exp} {types : List SiteType}
    {A : Annotations} :
    ExpsHaveTypes Γ es types A → ∀ around, A.map Prod.fst = expIds (Exp.placesList around es)
  | .nil, _ => rfl
  | .cons h hrest, _ => by simp [Exp.placesList, ← h.map_fst, ← hrest.map_fst]

theorem FieldsHaveTypes.map_fst {Γ : Context} {fields : List FieldExp}
    {typed : List (String × SiteType)} {A : Annotations} :
    FieldsHaveTypes Γ fields typed A →
      ∀ around, A.map Prod.fst = expIds (FieldExp.placesList around fields)
  | .nil, _ => rfl
  | .cons h hrest, _ => by simp [FieldExp.placesList, ← h.map_fst, ← hrest.map_fst]

theorem DecsHaveTypes.map_fst {Γ Γ' : Context} {decs : List Dec} {A : Annotations} :
    DecsHaveTypes Γ decs Γ' A →
      ∀ around all before, A.map Prod.fst = expIds (Dec.placesList around all before decs)
  | .nil, _, _, _ => rfl
  | .var hinit _ hrest, _, _, _ => by
    simp [Dec.placesList, ← hinit.map_fst, ← hrest.map_fst]
  | .type hrest, _, _, _ => by simp [Dec.placesList, ← hrest.map_fst]
  | .function _ _ _ hbody _ hrest, _, _, _ => by
    simp [Dec.placesList, ← hbody.map_fst, ← hrest.map_fst]

end

theorem posed_initial {e : Exp} (h : e.ids.Nodup) :
    Posed .initial .nothing [] e.ids BaseRep .initial where
  nodup := h
  apart τ ty id hrep hid := by cases hrep <;> cases hid
  models := models_initial
  given := trivial

theorem check_verdict {e : Exp} (h : e.ids.Nodup) :
    ((check e).diagnostics = #[] ↔ ∃ τ A, HasType .initial e τ A) ∧
      ∀ {τ A}, HasType .initial e τ A → ∃ rep, Sane rep (check e) ∧ Noted rep A (check e) := by
  have hverdict := inferExp_verdict e .initial .nothing
  refine ⟨hverdict.silent (posed_initial h), fun hτ => ?_⟩
  obtain ⟨rep, -, hsane, -, hnoted⟩ := hverdict.typed (posed_initial h) hτ
  exact ⟨rep, hsane.finalize rfl rfl rfl rfl Frames.mainFrame rfl, hnoted⟩

/-- A program is accepted if and only if it has a type by the rules, and then the types that are
noted for the expressions in it represent those that the rules give them. -/
theorem check_wellTyped {e : Exp} (h : e.ids.Nodup) :
    ((check e).diagnostics = #[] ↔ ∃ τ A, HasType .initial e τ A) ∧
      ∀ τ A, HasType .initial e τ A → A.map Prod.fst = expIds (e.places []) ∧
        ∃ rep, Faithful (check e).registry rep ∧ Noted rep A (check e) := by
  obtain ⟨hsilent, htyped⟩ := check_verdict h
  refine ⟨hsilent, fun τ A hτ => ⟨hτ.map_fst [], ?_⟩⟩
  obtain ⟨rep, hsane, hnoted⟩ := htyped hτ
  exact ⟨rep, hsane.faithful, hnoted⟩

def sumWords : List (TokenKind × String) :=
  [(.letWord, "let"),
    (.typeWord, "type"), (.identifier, "list"), (.equals, "="), (.openCurly, "\x7b"),
    (.identifier, "head"), (.colon, ":"), (.identifier, "int"), (.comma, ","),
    (.identifier, "tail"), (.colon, ":"), (.identifier, "list"), (.closeCurly, "\x7d"),
    (.functionWord, "function"), (.identifier, "sum"), (.openParen, "("), (.identifier, "l"),
    (.colon, ":"), (.identifier, "list"), (.closeParen, ")"), (.colon, ":"), (.identifier, "int"),
    (.equals, "="), (.ifWord, "if"), (.identifier, "l"), (.equals, "="), (.nilWord, "nil"),
    (.thenWord, "then"), (.number, "0"), (.elseWord, "else"), (.identifier, "l"), (.dot, "."),
    (.identifier, "head"), (.plus, "+"), (.identifier, "sum"), (.openParen, "("),
    (.identifier, "l"), (.dot, "."), (.identifier, "tail"), (.closeParen, ")"),
    (.inWord, "in"), (.identifier, "sum"), (.openParen, "("), (.identifier, "list"),
    (.openCurly, "\x7b"), (.identifier, "head"), (.equals, "="), (.number, "1"), (.comma, ","),
    (.identifier, "tail"), (.equals, "="), (.nilWord, "nil"), (.closeCurly, "\x7d"),
    (.closeParen, ")"), (.endWord, "end"), (.eof, "")]

def listSum : Exp := (parse "sum.tig" (spelled "sum.tig" sumWords)).1.toOption.getD default

def twoNils : Exp :=
  (parse "nil.tig" (spelled "nil.tig" [(.nilWord, "nil"), (.equals, "="), (.nilWord, "nil"),
    (.eof, "")])).1.toOption.getD default

theorem check_wellTyped_listSum :
    listSum.ids.Nodup ∧ (check listSum).diagnostics = #[] ∧
      (∃ τ A site fields, HasType .initial listSum τ A ∧ (23, .int) ∈ A ∧
        (21, .record site fields) ∈ A) ∧
      twoNils.ids.Nodup ∧ ¬ ∃ τ A, HasType .initial twoNils τ A := by
  have hnodup : listSum.ids.Nodup := by decide +kernel
  have hnone : (check listSum).diagnostics = #[] := by decide +kernel
  have hnils : twoNils.ids.Nodup := by decide +kernel
  obtain ⟨τ, A, hτ⟩ := (check_wellTyped hnodup).1.mp hnone
  obtain ⟨hids, rep, hfaithful, hnoted⟩ := (check_wellTyped hnodup).2 τ A hτ
  -- The type that is noted for an expression tells which type the rules give it.
  have hderived : ∀ id t, id ∈ expIds (listSum.places []) →
      (check listSum).facts.expTypes[id]? = some t → ∃ σ, (id, σ) ∈ A ∧ rep σ t := by
    intro id t hid ht
    rw [← hids] at hid
    obtain ⟨⟨_, σ⟩, hmem, rfl⟩ := List.mem_map.mp hid
    obtain ⟨t', ht', hrep⟩ := hnoted _ hmem
    exact ⟨σ, hmem, Option.some.inj (ht.symm.trans ht') ▸ hrep⟩
  obtain ⟨σ, hσ, hint⟩ := hderived 23 .int (by decide +kernel) (by decide +kernel)
  obtain rfl := hfaithful.injective hint hfaithful.int
  obtain ⟨ρ, hρ, hrecord⟩ := hderived 21 (.record 0) (by decide +kernel) (by decide +kernel)
  obtain ⟨site, fields, rfl⟩ := hfaithful.exists_record hrecord
  refine ⟨hnodup, hnone, ⟨τ, A, site, fields, hτ, hσ, hρ⟩, hnils, fun hnils' => ?_⟩
  have hsome : (check twoNils).diagnostics ≠ #[] := by decide +kernel
  exact hsome ((check_wellTyped hnils).1.mpr hnils')

end TigerLang

import TigerLang.Proofs.Tracking

/-! Type declarations side by side. Both checkers go through the type names of a block in the same
way, and number its records and arrays in the same order. -/

namespace TigerLang

/-- While the type names of a block are looked into, nothing is asked of them. -/
def anyTypes : Scopes TypeBinding → Prop := fun _ => True

theorem Ty.Same.isError {β : Bridge} {ty ty' : Ty} (h : ty.Same β ty') :
    ty'.isError = ty.isError := by
  cases h <;> rfl

def CheckM.settleFound (name : String) (found : Ty) : CheckM Ty := do
  let ty := (← resolved? name).getD found
  settle name ty
  tell (.resolvedType name ((← get).registry.nameOf ty))
  return ty

theorem Scopes.Rel.declaresRecord {β : Bridge} {types types' : Scopes TypeBinding}
    (h : types.Rel (TypeBinding.Alike β) types') (name : String) :
    CheckM.declaresRecord types' name = CheckM.declaresRecord types name := by
  unfold CheckM.declaresRecord
  obtain ⟨hnone, hnone'⟩ | ⟨a, b, hsome, hsome', hentry⟩ := eq_or_of_rel (h.find? name)
  · rw [hnone, hnone']
  · rw [hsome, hsome']
    obtain ⟨definition, resolved, position⟩ := a
    obtain ⟨definition', resolved', position'⟩ := b
    obtain rfl : definition = definition' := hentry.definition
    cases definition <;> rfl

namespace Mistake.Tracks
variable {m : Mistake} {pre : Bridge → Prop}

theorem resolved? (name : String) :
    m.Tracks anyTypes [] pre (CheckM.resolved? name) (CheckM.resolved? name)
      fun β ty ty' => pre β ∧ Option.Rel (Ty.Kept β) ty ty' := by
  refine silent (fun _ _ => ⟨trivial, Nat.le_refl _⟩) (fun _ => rfl) fun {β s s'} hs _ hpre => ?_
  refine ⟨β, .refl β, rfl, hs, hpre, ?_⟩
  change Option.Rel (Ty.Kept β) ((s.types.find? name).bind TypeBinding.resolved)
    ((s'.types.find? name).bind TypeBinding.resolved)
  obtain ⟨hnone, hnone'⟩ | ⟨_, _, hsome, hsome', hentry⟩ := eq_or_of_rel (hs.types.find? name)
  · rw [hnone, hnone']
    exact .none
  · rw [hsome, hsome']
    exact hentry.resolved

theorem settle (name : String) {ty ty' : Ty} (hty : ∀ β, pre β → ty.Kept β ty') :
    m.Tracks anyTypes [] pre (CheckM.settle name ty) (CheckM.settle name ty')
      fun β _ _ => pre β := by
  refine silent (fun _ _ => ⟨trivial, Nat.le_refl _⟩) (fun _ => rfl) fun {β s s'} hs _ hpre => ?_
  have htypes := hs.types.change name fun _ _ hentry => hentry.settle (hty β hpre)
  exact ⟨β, .refl β, rfl, ⟨hs.registry, htypes, hs.vars, hs.functions, hs.loopDepth, hs.routines,
    hs.declared, hs.unbound⟩, hpre⟩

theorem addRecord (name : String) :
    m.Tracks anyTypes [] pre (CheckM.addRecord name) (CheckM.addRecord name)
      fun β i k => β.records[k]? = some i := by
  refine silent (fun _ _ => ⟨trivial, Nat.le_refl _⟩) (fun _ => rfl) fun {β s s'} hs _ _ => ?_
  have hβ := β.le_addRecord s.registry.records.size
  refine ⟨_, hβ, rfl, hs.withRegistry hβ rfl (hs.registry.addRecord name), ?_⟩
  change (β.records ++ [s.registry.records.size])[s'.registry.records.size]? = _
  rw [← hs.registry.recordCount, List.getElem?_concat_length]
  rfl

theorem fillRecord {i k : Nat} {fields fields' : Scope Ty} (hk : ∀ β, pre β → β.records[k]? = some i)
    (hfields : ∀ β, pre β → fields.Rel (Ty.Kept β) fields') :
    m.Tracks anyTypes [] pre (CheckM.fillRecord i fields) (CheckM.fillRecord k fields')
      fun β _ _ => pre β := by
  refine silent (fun _ _ => ⟨trivial, Nat.le_refl _⟩) (fun _ => rfl) fun {β s s'} hs _ hpre => ?_
  exact ⟨β, .refl β, rfl, hs.withRegistry (.refl β) rfl
    (hs.registry.fillRecord (hk β hpre) (hfields β hpre)), hpre⟩

theorem addArray (name : String) {element element' : Ty}
    (helement : ∀ β, pre β → element.Kept β element') :
    m.Tracks anyTypes [] pre (CheckM.addArray name element) (CheckM.addArray name element')
      fun β i k => β.arrays[k]? = some i := by
  refine silent (fun _ _ => ⟨trivial, Nat.le_refl _⟩) (fun _ => rfl) fun {β s s'} hs _ hpre => ?_
  have hβ := β.le_addArray s.registry.arrays.size
  refine ⟨_, hβ, rfl, hs.withRegistry hβ rfl (hs.registry.addArray name (helement β hpre)), ?_⟩
  change (β.arrays ++ [s.registry.arrays.size])[s'.registry.arrays.size]? = _
  rw [← hs.registry.arrayCount, List.getElem?_concat_length]
  rfl

theorem adds_addArray (name : String) (element : Ty) :
    Adds anyTypes (CheckM.addArray name element) :=
  fun _ _ => ⟨trivial, Nat.le_refl _⟩

theorem adds_fillRecord (id : Nat) (fields : Scope Ty) :
    Adds anyTypes (CheckM.fillRecord id fields) :=
  fun _ _ => ⟨trivial, Nat.le_refl _⟩

theorem adds_settle_all (names : List String) :
    Adds anyTypes (names.forM fun name => CheckM.settle name .error) := by
  induction names with
  | nil => exact .pure _
  | cons name names ih => exact Adds.bind (fun _ _ => ⟨trivial, Nat.le_refl _⟩) fun _ => ih

section resolving
variable {resolve resolve' : String → Position → CheckM Ty}

theorem adds_resolveFields (hadds : ∀ name position, Adds anyTypes (resolve name position))
    (found : Scope Ty) (fields : List Field) :
    Adds anyTypes (CheckM.resolveFields resolve found fields) := by
  induction fields generalizing found with
  | nil => exact .pure _
  | cons field fields ih =>
    unfold CheckM.resolveFields
    split
    · exact (Adds.report _ _).bind fun _ => ih found
    · exact (hadds _ _).bind fun ty => ih _

theorem resolveFields (hresolve : ∀ name position, m.Tracks anyTypes [] (fun _ => True)
      (resolve name position) (resolve' name position) Ty.Kept)
    {β₀ : Bridge} {found found' : Scope Ty} (hfound : found.Rel (Ty.Kept β₀) found')
    (fields : List Field) :
    m.Tracks anyTypes [] β₀.Le (CheckM.resolveFields resolve found fields)
      (CheckM.resolveFields resolve' found' fields) fun β r r' => Scope.Rel (Ty.Kept β) r r' := by
  have hadds : ∀ found fields, Adds anyTypes (CheckM.resolveFields resolve found fields) :=
    adds_resolveFields fun name position => (hresolve name position).adds
  induction fields generalizing β₀ found found' with
  | nil => exact pure fun _ hle => hfound.imp fun _ _ hkept => hkept.mono hle
  | cons field fields ih =>
    unfold CheckM.resolveFields
    rw [hfound.any field.name]
    split
    · exact report_then _ _ (hadds found fields)
    · have hfirst := (hresolve field.typeName field.node.span.start).carry β₀.persistent_le
      refine hfirst.andThen fun ty ty' => of_forall (hadds _ fields) fun β hβ => ih ?_
      have hfound' := hfound.imp fun _ _ hkept => hkept.mono hβ.2
      exact List.rel_append hfound' (.cons ⟨rfl, hβ.1⟩ .nil)

theorem resolveDefinition (hresolve : ∀ name position, m.Tracks anyTypes [] (fun _ => True)
      (resolve name position) (resolve' name position) Ty.Kept)
    (name : String) (definition : TypeExp) :
    m.Tracks anyTypes [] (fun _ => True) (CheckM.resolveDefinition resolve name definition)
      (CheckM.resolveDefinition resolve' name definition) Ty.Kept := by
  cases definition with
  | name span target => exact hresolve target span.start
  | array span element =>
    refine (hresolve element span.start).andThen fun elementType elementType' => ?_
    refine (resolved? name).andThen fun known known' => ?_
    refine of_forall ?_ fun β₀ ⟨helement, hknown⟩ => ?_
    · cases known with
      | some ty => exact .pure _
      | none =>
        dsimp only
        split
        · exact .pure _
        · exact (adds_addArray name elementType).bind fun _ => .pure _
    · obtain ⟨rfl, rfl⟩ | ⟨ty, ty', rfl, rfl, hkept⟩ := eq_or_of_rel hknown
      · -- Both get a new array type, or neither does.
        dsimp only
        rw [helement.same.isError]
        split
        · exact pure fun _ _ => ⟨.error, by simp⟩
        · refine (addArray name fun _ hle => helement.mono hle).andThen fun i k => ?_
          exact pure fun _ hk => ⟨.array hk, by simp⟩
      · exact pure fun _ hle => hkept.mono hle
  | record span fields =>
    -- The name stands for the new record already while its fields are looked into.
    refine (addRecord name).andThen fun i k => ?_
    refine (settle name fun _ hk => ⟨.record hk, by simp⟩).andThen fun _ _ => ?_
    have hadds : Adds anyTypes (CheckM.resolveFields resolve [] fields) :=
      adds_resolveFields (fun name position => (hresolve name position).adds) [] fields
    refine of_forall (hadds.bind fun _ => (adds_fillRecord i _).bind fun _ => .pure _)
      fun β₀ hk => ?_
    have hk' : ∀ β, β₀.Le β → β.records[k]? = some i := fun β hle =>
      getElem?_of_prefix hle.records hk
    have hfields := ((resolveFields hresolve .nil fields).frame β₀.persistent_le).strengthen
      fun _ hle => ⟨hle, hle⟩
    refine hfields.andThen fun found found' => ?_
    refine (fillRecord (fun β h => hk' β h.2) fun _ h => h.1).andThen fun _ _ => ?_
    exact pure fun β h => ⟨.record (hk' β h.2), by simp⟩

variable {restart restart' : String → Position → CheckM Ty}

theorem resolveLoop (hrestart : ∀ name position, m.Tracks anyTypes [] (fun _ => True)
      (restart name position) (restart' name position) Ty.Kept)
    (name : String) (declared declared' position : Position) (loop : List String) :
    m.Tracks anyTypes [] (fun _ => True)
      (CheckM.resolveLoop restart name declared position loop)
      (CheckM.resolveLoop restart' name declared' position loop) Ty.Kept := by
  have hloud : Adds anyTypes (do
      loop.forM fun visited => CheckM.settle visited .error
      return Ty.error) :=
    (adds_settle_all loop).bind fun _ => .pure _
  refine get (.get fun s => ?_) fun {β s s'} hs _ _ => ?_
  · dsimp only
    split
    · exact (hrestart name position).adds
    · exact (Adds.report _ _).bind fun _ => hloud
  · have hdeclares : CheckM.declaresRecord s'.types = CheckM.declaresRecord s.types := by
      funext other
      exact hs.types.declaresRecord other
    dsimp only
    rw [hdeclares]
    split
    · exact (hrestart name position).strengthen fun _ _ => trivial
    · exact report_then _ _ hloud

theorem settleFound (name : String) (found found' : Ty) :
    m.Tracks anyTypes [] (fun β => found.Kept β found') (CheckM.settleFound name found)
      (CheckM.settleFound name found') Ty.Kept := by
  refine (resolved? name).andThen fun known known' => ?_
  have hkept : ∀ β, found.Kept β found' ∧ Option.Rel (Ty.Kept β) known known' →
      (known.getD found).Kept β (known'.getD found') := by
    rintro β ⟨hfound, hknown⟩
    obtain ⟨rfl, rfl⟩ | ⟨_, _, rfl, rfl, h⟩ := eq_or_of_rel hknown
    · exact hfound
    · exact h
  refine (settle name hkept).andThen fun _ _ => ?_
  refine silent (fun _ _ => ⟨trivial, Nat.le_refl _⟩) (fun _ => rfl) fun {β s s'} hs _ hpre => ?_
  exact ⟨β, .refl β, rfl, hs.congr ⟨rfl, rfl, rfl, rfl, rfl, rfl, rfl⟩
    ⟨rfl, rfl, rfl, rfl, rfl, rfl, rfl⟩, hkept β hpre⟩

theorem walk (hrestart : ∀ name position, m.Tracks anyTypes [] (fun _ => True)
      (restart name position) (restart' name position) Ty.Kept)
    (fuel : Nat) (visiting : List String) (name : String) (position : Position) :
    m.Tracks anyTypes [] (fun _ => True) (CheckM.walk restart fuel visiting name position)
      (CheckM.walk restart' fuel visiting name position) Ty.Kept := by
  induction fuel generalizing visiting name position with
  | zero => exact pure fun _ _ => ⟨.error, by simp⟩
  | succ fuel ih =>
    have hnew : ∀ definition, m.Tracks anyTypes [] (fun _ => True)
        (CheckM.resolveDefinition (CheckM.walk restart fuel (visiting ++ [name])) name definition >>=
          CheckM.settleFound name)
        (CheckM.resolveDefinition (CheckM.walk restart' fuel (visiting ++ [name])) name definition >>=
          CheckM.settleFound name) Ty.Kept := fun definition =>
      (resolveDefinition (ih (visiting ++ [name])) name definition).andThen (settleFound name)
    have hloop : ∀ declared declared', m.Tracks anyTypes [] (fun _ => True)
        (CheckM.resolveLoop restart name declared position (visiting.dropWhile (· != name)))
        (CheckM.resolveLoop restart' name declared' position (visiting.dropWhile (· != name)))
        Ty.Kept := fun declared declared' => resolveLoop hrestart name declared declared' position _
    refine get (.get fun s => ?_) fun {β s s'} hs _ _ => ?_
    · split
      · exact (Adds.report _ _).bind fun _ => .pure _
      · exact .pure _
      · exact .pure _
      · split
        · next declared _ _ => exact (hloop declared declared).adds
        · exact (hnew _).adds
    · obtain ⟨hnone, hnone'⟩ | ⟨a, b, hsome, hsome', hentry⟩ := eq_or_of_rel (hs.types.find? name)
      · rw [hnone]
        exact report_then _ _ (.pure _)
      · obtain ⟨definition, resolved, declared⟩ := a
        obtain ⟨definition', resolved', declared'⟩ := b
        obtain rfl : definition = definition' := hentry.definition
        rw [hsome, hsome']
        obtain ⟨hnot, hnot'⟩ | ⟨ty, ty', hty, hty', hkept⟩ := eq_or_of_rel hentry.resolved
        · obtain rfl : resolved = none := hnot
          obtain rfl : resolved' = none := hnot'
          cases definition with
          | none => exact pure fun _ _ => ⟨.error, by simp⟩
          | some definition =>
            dsimp only
            split
            · exact (hloop declared declared').strengthen fun _ _ => trivial
            · exact (hnew definition).strengthen fun _ _ => trivial
        · obtain rfl : resolved = some ty := hty
          obtain rfl : resolved' = some ty' := hty'
          exact pure fun _ hle => hkept.mono hle

end resolving

theorem freshWalk (fuel rounds : Nat) (name : String) (position : Position) :
    m.Tracks anyTypes [] (fun _ => True) (CheckM.freshWalk fuel rounds name position)
      (CheckM.freshWalk fuel rounds name position) Ty.Kept := by
  induction rounds generalizing name position with
  | zero => exact pure fun _ _ => ⟨.error, by simp⟩
  | succ rounds ih => exact walk ih fuel [] name position

theorem resolveTypes (names : List (String × Position)) :
    m.Tracks anyTypes [] (fun _ => True) (CheckM.resolveTypes names) (CheckM.resolveTypes names)
      fun _ _ _ => True := by
  have hwalk : ∀ fuel name position, m.Tracks anyTypes [] (fun _ => True)
      (CheckM.walk (CheckM.freshWalk fuel 2) fuel [] name position)
      (CheckM.walk (CheckM.freshWalk fuel 2) fuel [] name position) Ty.Kept :=
    fun fuel => walk (freshWalk fuel 2) fuel []
  induction names with
  | nil => exact pure fun _ _ => trivial
  | cons named names ih =>
    obtain ⟨name, position⟩ := named
    have hfirst : m.Tracks anyTypes [] (fun _ => True) (CheckM.typeNamed name position)
        (CheckM.typeNamed name position) Ty.Kept := by
      refine get (.get fun s => (hwalk _ name position).adds) fun {β s s'} hs _ _ => ?_
      rw [hs.types.size]
      exact (hwalk _ name position).strengthen fun _ _ => trivial
    exact (hfirst.discard fun _ _ _ _ => trivial).andThen fun _ _ => ih

theorem declareTypes (decs : List Dec) :
    m.Tracks anyTypes [] (fun _ => True) (CheckM.declareTypes decs) (CheckM.declareTypes decs)
      fun _ names names' => names' = names := by
  induction decs with
  | nil => exact pure fun _ _ => rfl
  | cons d decs ih =>
    cases d with
    | var node name typeName init => exact ih
    | function node name params result body => exact ih
    | type node name definition =>
      have hbind : m.Tracks anyTypes [] (fun _ => True)
          (modify fun s : Checker => { s with
            types := s.types.bind name ⟨some definition, none, node.span.start⟩ })
          (modify fun s : Checker => { s with
            types := s.types.bind name ⟨some definition, none, node.span.start⟩ })
          fun _ _ _ => True := by
        refine silent (fun _ _ => ⟨trivial, Nat.le_refl _⟩) (fun _ => rfl) fun {β s s'} hs _ _ => ?_
        have htypes := hs.types.bind name
          (⟨rfl, .none⟩ : TypeBinding.Alike β ⟨some definition, none, node.span.start⟩
            ⟨some definition, none, node.span.start⟩)
        exact ⟨β, .refl β, rfl, ⟨hs.registry, htypes, hs.vars, hs.functions, hs.loopDepth,
          hs.routines, hs.declared, hs.unbound⟩, trivial⟩
      have hnew := hbind.andThen fun _ _ => ih.andThen fun names names' =>
        (pure fun _ (h : names' = names) => congrArg ((name, node.span.start) :: ·) h :
          m.Tracks anyTypes [] (fun _ => names' = names) _ _ fun _ names names' => names' = names)
      refine get (.get fun s => ?_) fun {β s s'} hs _ _ => ?_
      · split
        · exact (Adds.report _ _).bind fun _ => ih.adds
        · exact hnew.adds
      · rw [hs.types.hasHere]
        split
        · exact report_then _ _ ih.adds
        · exact hnew.strengthen fun _ _ => trivial

end Mistake.Tracks

end TigerLang

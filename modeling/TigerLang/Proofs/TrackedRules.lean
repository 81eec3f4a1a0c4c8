import TigerLang.Proofs.Tracking

/-! The rules for types side by side. Each takes types that follow each other to types that do, and
an unknown type is taken by all of them without complaint. -/

namespace TigerLang

/-- What is found for an expression on both sides. It is `nil` on both only if that is how the
expression ends. -/
structure Mistake.Typed (m : Mistake) (ends : Bool) (β : Bridge) (ty ty' : Ty) : Prop where
  follows : ty.Follows m.lossless β ty'
  nil : ty = .nil → ty' = .nil → ends = true

namespace Mistake.Typed
variable {m : Mistake} {ends : Bool} {β β' : Bridge} {ty ty' : Ty}

theorem mono (h : m.Typed ends β ty ty') (hle : β.Le β') : m.Typed ends β' ty ty' :=
  ⟨h.follows.mono hle, h.nil⟩

theorem persistent (m : Mistake) (ends : Bool) (ty ty' : Ty) :
    Persistent fun β => m.Typed ends β ty ty' :=
  fun _ _ hle h => h.mono hle

theorem of_known (h : ty.Known β ty') : m.Typed ends β ty ty' :=
  ⟨h.follows_any m.lossless, fun _ hnil => absurd hnil h.ne_nil⟩

theorem of_ne_nil (h : ty.Follows m.lossless β ty') (hne : ty ≠ .nil) : m.Typed ends β ty ty' :=
  ⟨h, fun hnil => absurd hnil hne⟩

theorem int : m.Typed ends β .int .int := of_known ⟨.same .int, by simp⟩

theorem void : m.Typed ends β .void .void := of_known ⟨.same .void, by simp⟩

theorem unknown (hmet : β.met = true) : m.Typed ends β ty .error := of_known (.unknown hmet)

end Mistake.Typed

structure Mistake.Given (m : Mistake) (β : Bridge) (field field' : CheckM.GivenField) : Prop where
  name : field.name = field'.name
  ty : field.ty.Follows m.lossless β field'.ty

theorem Mistake.Given.mono {m : Mistake} {β β' : Bridge} {field field' : CheckM.GivenField}
    (h : m.Given β field field') (hle : β.Le β') : m.Given β' field field' :=
  ⟨h.name, h.ty.mono hle⟩

def Ty.Ordered (left right : Ty) : Prop :=
  left = .error ∨ right = .error ∨ (left = right ∧ (left = .int ∨ left = .string))

instance (left right : Ty) : Decidable (left.Ordered right) := by
  unfold Ty.Ordered
  infer_instance

theorem Ty.Ordered.follows {lossless : Prop} {β : Bridge} {left left' right right' : Ty}
    (h : left.Ordered right) (hleft : left.Follows lossless β left')
    (hright : right.Follows lossless β right') : left'.Ordered right' := by
  cases hleft with
  | unknown => exact .inl rfl
  | nil =>
    rcases h with h | rfl | ⟨rfl, h⟩
    · cases h
    · cases hright with
      | unknown => exact .inr (.inl rfl)
      | same hsame => cases hsame; exact .inr (.inl rfl)
    · rcases h with h | h <;> cases h
  | same hsame =>
    cases hright with
    | unknown => exact .inr (.inl rfl)
    | nil =>
      rcases h with rfl | h | ⟨rfl, h⟩
      · cases hsame
        exact .inl rfl
      · cases h
      · rcases h with h | h <;> cases h
    | same hsame' =>
      rcases h with rfl | rfl | ⟨rfl, rfl | rfl⟩
      · cases hsame
        exact .inl rfl
      · cases hsame'
        exact .inr (.inl rfl)
      · cases hsame
        cases hsame'
        exact .inr (.inr ⟨rfl, .inl rfl⟩)
      · cases hsame
        cases hsame'
        exact .inr (.inr ⟨rfl, .inr rfl⟩)

theorem CheckM.typeOfOrder_ordered {left right : Ty} (h : left.Ordered right)
    (position : Position) : typeOfOrder left right position = pure .int := by
  rcases h with rfl | rfl | ⟨rfl, rfl | rfl⟩
  · rfl
  · cases left <;> rfl
  · rfl
  · rfl

theorem CheckM.typeOfOrder_unordered {left right : Ty} (h : ¬ left.Ordered right)
    (position : Position) : ∃ t u : Ty, t.accepts u = false ∧
      typeOfOrder left right position = discard (require t u position) >>= fun _ => pure .int := by
  cases left with
  | error => exact absurd (.inl rfl) h
  | int =>
    refine ⟨.int, right, ?_, ?_⟩
    · cases right <;> simp_all [Ty.Ordered, Ty.accepts]
    · cases right <;> rfl
  | string =>
    refine ⟨.string, right, ?_, ?_⟩
    · cases right <;> simp_all [Ty.Ordered, Ty.accepts]
    · cases right <;> rfl
  | void =>
    refine ⟨.int, .void, rfl, ?_⟩
    cases right <;> first | rfl | simp [Ty.Ordered] at h
  | nil =>
    refine ⟨.int, .nil, rfl, ?_⟩
    cases right <;> first | rfl | simp [Ty.Ordered] at h
  | record id =>
    refine ⟨.int, .record id, rfl, ?_⟩
    cases right <;> first | rfl | simp [Ty.Ordered] at h
  | array id =>
    refine ⟨.int, .array id, rfl, ?_⟩
    cases right <;> first | rfl | simp [Ty.Ordered] at h

def Ty.ofBranches (yes no : Ty) : Ty :=
  match yes with
  | .nil | .error => no
  | _ => yes

theorem CheckM.typeOfBranches_eq (yes no : Ty) (position : Position) :
    typeOfBranches yes no position = require yes no position >>= fun ok =>
      pure (if ok then yes.ofBranches no else .error) := by
  unfold typeOfBranches
  congr
  funext ok
  cases ok with
  | false => rfl
  | true => cases yes <;> rfl

theorem Ty.cases_of_accepts {t u : Ty} (h : t.accepts u = true) :
    t = .nil ∨ t = .error ∨ u = .error ∨ t = u ∨ ∃ i, t = .record i ∧ u = .nil := by
  cases t <;> cases u <;> simp_all [accepts]

theorem Ty.Follows.ofBranches {m : Mistake} {ends : Bool} {β : Bridge} {yes yes' no no' : Ty}
    (hyes : yes.Follows m.lossless β yes') (hno : m.Typed ends β no no')
    (hends : m.lossless → ends = false) (haccepts : yes.accepts no = true)
    (haccepts' : yes'.accepts no' = true) :
    m.Typed ends β (yes.ofBranches no) (yes'.ofBranches no') := by
  cases hyes with
  | nil hmet hloss =>
    -- The second branch has the type of the first, or none that is known.
    change m.Typed ends β (.record _) no'
    cases hno.follows with
    | unknown => exact .unknown hmet
    | nil => simp [accepts] at haccepts'
    | same hsame =>
      cases hsame with
      | error => exact .unknown hmet
      | nil => simp [accepts] at haccepts'
      | int | string | void | array => simp [accepts] at haccepts
      | record hk =>
        obtain rfl : _ = _ := by simpa [accepts] using haccepts
        exact .of_ne_nil (.same (.record hk)) (by simp)
  | unknown hmet =>
    change m.Typed ends β _ no'
    cases hno.follows with
    | unknown => exact .unknown hmet
    | @nil i _ hloss =>
      -- A record goes only with itself, with `nil` and with what is unknown.
      cases yes with
      | record k => exact .of_ne_nil (.nil hmet hloss) (by simp [Ty.ofBranches])
      | nil => exact .of_ne_nil (.nil hmet hloss) (by simp [Ty.ofBranches])
      | error => exact .of_ne_nil (.nil hmet hloss) (by simp [Ty.ofBranches])
      | int | string | void | array => simp [accepts] at haccepts
    | same hsame =>
      rcases Ty.cases_of_accepts haccepts with rfl | rfl | rfl | rfl | ⟨i, rfl, rfl⟩
      · exact hno
      · exact hno
      · cases hsame
        exact .unknown hmet
      · cases yes with
        | nil => exact hno
        | error => exact hno
        | int | string | void | record | array =>
          exact .of_ne_nil (.same hsame) (by simp [Ty.ofBranches])
      · cases hsame
        refine .of_ne_nil (.nil hmet fun hlossless => ?_) (by simp [Ty.ofBranches])
        have htrue := hno.nil rfl rfl
        rw [hends hlossless] at htrue
        cases htrue
  | same hsame =>
    cases hsame with
    | nil => exact hno
    | error => exact hno
    | int => exact .of_known ⟨.same .int, by simp [Ty.ofBranches]⟩
    | string => exact .of_known ⟨.same .string, by simp [Ty.ofBranches]⟩
    | void => exact .of_known ⟨.same .void, by simp [Ty.ofBranches]⟩
    | record hk => exact .of_known ⟨.same (.record hk), by simp [Ty.ofBranches]⟩
    | array hk => exact .of_known ⟨.same (.array hk), by simp [Ty.ofBranches]⟩

namespace Mistake.Tracks

section require
variable {α α' : Type} {m : Mistake} {expected : List Diagnostic} {pre : Bridge → Prop}
  {x : CheckM α} {y : CheckM α'} {post : Bridge → α → α' → Prop} {t t' u u' : Ty}

theorem accepts_of_size {s : Checker} {position : Position}
    (h : ((CheckM.require t u position).run s).2.diagnostics.size = s.diagnostics.size) :
    t.accepts u = true := by
  by_contra hnot
  rw [CheckM.require, if_neg hnot] at h
  exact CheckM.size_report_ne _ _ s h

theorem require (ht : ∀ β, pre β → t.Follows m.lossless β t')
    (hu : ∀ β, pre β → u.Follows m.lossless β u') (position position' : Position) :
    m.Tracks AllResolved [] pre (CheckM.require t u position) (CheckM.require t' u' position')
      fun β ok ok' => pre β ∧ ok = true ∧ t.accepts u = true ∧ ok' = t'.accepts u' ∧
        (ok' = false → β.met = true) := by
  refine ⟨.of_onlyReports (.require t u position), fun {β s s'} hs hinv hpre hsize => ?_⟩
  have haccepts : t.accepts u = true := accepts_of_size hsize
  rw [CheckM.require, if_pos haccepts]
  by_cases haccepts' : t'.accepts u' = true
  · rw [CheckM.require, if_pos haccepts']
    exact ⟨β, [], .refl β, hs, ⟨hpre, rfl, haccepts, haccepts'.symm, by simp⟩,
      (List.append_nil _).symm, .nothing rfl⟩
  · obtain ⟨hmet, hloss, rfl⟩ :=
      (hs.registry.accepts (ht β hpre) (hu β hpre) haccepts).resolve_left haccepts'
    rw [CheckM.require, if_neg haccepts']
    set cause : Cause := .typeMismatch (s'.registry.nameOf t') "nil"
    exact ⟨β, [⟨cause, position'⟩], .refl β, hs.reported cause position',
      ⟨hpre, rfl, haccepts, (Bool.eq_false_iff.mpr haccepts').symm, fun _ => hmet⟩,
      Array.toList_push, .nil_mismatch hmet hloss _ _⟩

theorem require_then (ht : ∀ β, pre β → t.Follows m.lossless β t')
    (hu : ∀ β, pre β → u.Follows m.lossless β u') {position position' : Position}
    (hx : m.Tracks AllResolved expected pre x y post) :
    m.Tracks AllResolved expected pre (Functor.discard (CheckM.require t u position) >>= fun _ => x)
      (Functor.discard (CheckM.require t' u' position') >>= fun _ => y) post := by
  have hfirst := (require ht hu position position').discard fun β _ _ h => h.1
  exact hfirst.bind fun _ _ => hx

theorem require_left {position : Position} (hx : m.Tracks AllResolved expected pre x y post) :
    m.Tracks AllResolved expected pre
      (Functor.discard (CheckM.require t u position) >>= fun _ => x) y post := by
  have hadds : Adds AllResolved (Functor.discard (CheckM.require t u position)) :=
    .of_onlyReports (OnlyReports.require t u position).discard
  refine ⟨hadds.bind fun _ => hx.adds, fun {β s s'} hs hinv hpre hsize => ?_⟩
  have hle := (hadds s hinv).2
  have hle' := (hx.adds _ (hadds s hinv).1).2
  have hfirst : ((CheckM.require t u position).run s).2.diagnostics.size = s.diagnostics.size :=
    Nat.le_antisymm (hle'.trans hsize.le) hle
  rw [run_require_then (accepts_of_size hfirst)] at hsize ⊢
  exact hx.quiet hs hinv hpre hsize

end require

section rules
variable {m : Mistake} {β₀ : Bridge} {left left' right right' : Ty} {position position' : Position}
  {ends : Bool}

theorem typeOfArithmetic (hleft : left.Follows m.lossless β₀ left')
    (hright : right.Follows m.lossless β₀ right') :
    m.Tracks AllResolved [] β₀.Le (CheckM.typeOfArithmetic left right position)
      (CheckM.typeOfArithmetic left' right' position') (m.Typed ends) := by
  apply require_then (fun _ _ => .same .int) (fun _ hle => hleft.mono hle)
  apply require_then (fun _ _ => .same .int) (fun _ hle => hright.mono hle)
  exact pure fun _ _ => .int

theorem typeOfEquality (hleft : left.Follows m.lossless β₀ left')
    (hright : right.Follows m.lossless β₀ right') :
    m.Tracks AllResolved [] β₀.Le (CheckM.typeOfEquality left right position)
      (CheckM.typeOfEquality left' right' position') (m.Typed ends) := by
  unfold CheckM.typeOfEquality
  by_cases hnil : left = .nil ∧ right = .nil
  · rw [if_pos hnil]
    exact report_then _ _ (.pure _)
  rw [if_neg hnil]
  by_cases hvoid : left = .void ∨ right = .void
  · rw [if_pos hvoid]
    exact report_then _ _ (.pure _)
  rw [if_neg hvoid]
  by_cases hnil' : left' = .nil ∧ right' = .nil
  · -- One of the two was a record, and only `nil` is left of it.
    rw [if_pos hnil']
    obtain ⟨rfl, rfl⟩ := hnil'
    have hlost : β₀.met = true ∧ ¬ m.lossless := by
      cases hleft with
      | nil hmet hloss => exact ⟨hmet, hloss⟩
      | same hsame =>
        cases hsame
        cases hright with
        | nil hmet hloss => exact ⟨hmet, hloss⟩
        | same hsame' =>
          cases hsame'
          exact absurd ⟨rfl, rfl⟩ hnil
    have hrest : m.Tracks AllResolved [] β₀.Le (Pure.pure .int) (Pure.pure .error) (m.Typed ends) :=
      pure fun _ hle => .unknown (hle.met hlost.1)
    exact require_left (hrest.nil_mismatch (fun _ hle => ⟨hle.met hlost.1, hlost.2⟩)
      (fun _ => "a record") position')
  · rw [if_neg hnil']
    have hvoid' : ¬ (left' = .void ∨ right' = .void) := by
      rintro (rfl | rfl)
      · cases hleft with
        | same hsame => cases hsame; exact hvoid (.inl rfl)
      · cases hright with
        | same hsame => cases hsame; exact hvoid (.inr rfl)
    rw [if_neg hvoid']
    apply require_then (fun _ hle => hleft.mono hle) (fun _ hle => hright.mono hle)
    exact pure fun _ _ => .int

theorem typeOfOrder (hleft : left.Follows m.lossless β₀ left')
    (hright : right.Follows m.lossless β₀ right') :
    m.Tracks AllResolved [] β₀.Le (CheckM.typeOfOrder left right position)
      (CheckM.typeOfOrder left' right' position') (m.Typed ends) := by
  by_cases hordered : left.Ordered right
  · rw [CheckM.typeOfOrder_ordered hordered,
      CheckM.typeOfOrder_ordered (hordered.follows hleft hright)]
    exact pure fun _ _ => .int
  · -- The first checker compares two types that do not go together.
    obtain ⟨t, u, hnot, heq⟩ := CheckM.typeOfOrder_unordered hordered position
    refine of_loud (.of_onlyReports (CheckM.typeOfOrder_onlyReports left right position))
      fun s hs => ?_
    have hle := (CheckM.typeOfOrder_onlyReports left right position s hs).diagnostics.length_le
    rw [heq] at hle ⊢
    refine Nat.lt_of_le_of_ne (by simpa using hle) fun hsize => ?_
    have haccepts : t.accepts u = true := accepts_of_size hsize.symm
    rw [hnot] at haccepts
    cases haccepts

theorem typeOfBinary (op : Operator) (hleft : left.Follows m.lossless β₀ left')
    (hright : right.Follows m.lossless β₀ right') :
    m.Tracks AllResolved [] β₀.Le (CheckM.typeOfBinary op left right position)
      (CheckM.typeOfBinary op left' right' position') (m.Typed ends) := by
  unfold CheckM.typeOfBinary
  split
  · exact typeOfArithmetic hleft hright
  split
  · exact typeOfEquality hleft hright
  · exact typeOfOrder hleft hright

theorem checkArgs {params params' : List Ty} {args args' : List (Ty × Position)}
    (hparams : List.Forall₂ (Ty.Kept β₀) params params')
    (hargs : List.Forall₂ (fun arg arg' => arg.1.Follows m.lossless β₀ arg'.1) args args') :
    m.Tracks AllResolved [] β₀.Le (CheckM.checkArgs params args) (CheckM.checkArgs params' args')
      fun β _ _ => β₀.Le β := by
  induction hparams generalizing args args' with
  | nil => exact pure fun _ hle => hle
  | cons hparam hparams ih =>
    cases hargs with
    | nil => exact pure fun _ hle => hle
    | cons harg hargs =>
      apply require_then (fun _ hle => (Ty.Follows.same hparam.same).mono hle)
        (fun _ hle => harg.mono hle)
      exact ih hargs

theorem typeOfCall (node : Node) (function : String) {args args' : List (Ty × Position)}
    (hargs : List.Forall₂ (fun arg arg' => arg.1.Follows m.lossless β₀ arg'.1) args args') :
    m.Tracks AllResolved [] β₀.Le (CheckM.typeOfCall node function args)
      (CheckM.typeOfCall node function args') (m.Typed ends) := by
  have hkeeps : Keeps (fun _ => True) (CheckM.typeOfCall node function args) :=
    .typeOfCall function args trivial
  refine get (.of_keeps hkeeps) fun {β s s'} hs _ hle => ?_
  obtain ⟨hnone, hnone'⟩ | ⟨entry, entry', hsome, hsome', hentry⟩ :=
    eq_or_of_rel (hs.functions.find? function)
  · rw [hnone]
    exact report_then _ _ (.pure _)
  · rw [hsome, hsome']
    have hlength : entry'.params.length = entry.params.length := hentry.params.length_eq.symm
    have hlength' : args'.length = args.length := hargs.length_eq.symm
    have hargs' : List.Forall₂ (fun arg arg' => arg.1.Follows m.lossless β arg'.1) args args' :=
      hargs.imp fun _ _ harg => harg.mono hle
    dsimp only
    refine andThen (learn (fun _ => ⟨rfl, rfl⟩) fun _ => ⟨rfl, rfl⟩) fun _ _ => ?_
    rw [hlength, hlength']
    by_cases harity : entry.params.length ≠ args.length
    · rw [if_pos harity]
      exact report_then _ _ ((Adds.of_onlyReports (CheckM.checkArgs_onlyReports _ _)).bind
        fun _ => .pure _)
    · rw [if_neg harity, if_neg harity]
      refine (checkArgs hentry.params hargs').andThen fun _ _ => ?_
      exact pure fun _ hle => .of_known (hentry.result.mono hle).known

theorem checkFields {declared declared' rest rest' : Scope Ty}
    {fields fields' : List CheckM.GivenField} (hrest : rest.Rel (Ty.Kept β₀) rest')
    (hfields : List.Forall₂ (m.Given β₀) fields fields') :
    m.Tracks AllResolved [] β₀.Le (CheckM.checkFields declared fields rest)
      (CheckM.checkFields declared' fields' rest') fun β _ _ => β₀.Le β := by
  induction hfields generalizing rest rest' with
  | nil => exact pure fun _ hle => hle
  | @cons field field' fields fields' hfield hfields ih =>
    cases hrest with
    | nil => exact pure fun _ hle => hle
    | @cons entry entry' rest rest' hentry hrest =>
      have hadds : Adds AllResolved (CheckM.checkFields declared fields rest) :=
        .of_onlyReports (CheckM.checkFields_onlyReports declared fields rest)
      unfold CheckM.checkFields
      by_cases hname : field.name = entry.1
      · have hname' : field'.name = entry'.1 := by rw [← hfield.name, hname, hentry.1]
        rw [if_pos hname, if_pos hname']
        apply require_then (fun _ hle => (Ty.Follows.same hentry.2.same).mono hle)
          (fun _ hle => hfield.ty.mono hle)
        exact ih hrest
      · -- A field of another name is reported, whether it is declared elsewhere or nowhere.
        rw [if_neg hname]
        split
        · exact report_then _ _ hadds
        · exact report_then _ _ hadds

theorem typeOfRecord {ty ty' : Ty} (hty : ty.Kept β₀ ty') (typeName : String)
    {fields fields' : List CheckM.GivenField}
    (hfields : List.Forall₂ (m.Given β₀) fields fields') :
    m.Tracks AllResolved [] β₀.Le (CheckM.typeOfRecord ty typeName fields position)
      (CheckM.typeOfRecord ty' typeName fields' position') (m.Typed ends) := by
  have hadds : Adds AllResolved (CheckM.typeOfRecord ty typeName fields position) :=
    .of_onlyReports (CheckM.typeOfRecord_onlyReports ty typeName fields position)
  cases hty.same with
  | error => exact pure fun _ _ => .of_known ⟨.same .error, by simp⟩
  | int | string | void | nil | array => exact report_then _ _ (.pure _)
  | @record i k hk =>
    refine get hadds fun {β s s'} hs _ hle => ?_
    have hk' : β.records[k]? = some i := getElem?_of_prefix hle.records hk
    obtain ⟨a, b, ha, hb, hdeclared⟩ := hs.registry.record hk'
    have hlength : b.fields.length = a.fields.length := hdeclared.length_eq.symm
    have hlength' : fields'.length = fields.length := hfields.length_eq.symm
    have hfields' : List.Forall₂ (m.Given β) fields fields' :=
      hfields.imp fun _ _ hfield => hfield.mono hle
    rw [ha, hb]
    dsimp only
    rw [hlength, hlength']
    by_cases harity : a.fields.length ≠ fields.length
    · rw [if_pos harity]
      exact report_then _ _ ((Adds.of_onlyReports (CheckM.checkFields_onlyReports _ _ _)).bind
        fun _ => .pure _)
    · rw [if_neg harity, if_neg harity]
      refine (checkFields hdeclared hfields').andThen fun _ _ => ?_
      exact pure fun β' hle' => .of_known (hty.mono (hle.trans hle')).known

theorem typeOfArray {ty ty' init init' : Ty} (hty : ty.Kept β₀ ty') (typeName : String)
    (hinit : init.Follows m.lossless β₀ init') {initPosition initPosition' : Position} :
    m.Tracks AllResolved [] β₀.Le (CheckM.typeOfArray ty typeName init position initPosition)
      (CheckM.typeOfArray ty' typeName init' position' initPosition') (m.Typed ends) := by
  have hadds : Adds AllResolved (CheckM.typeOfArray ty typeName init position initPosition) :=
    .of_onlyReports (CheckM.typeOfArray_onlyReports ty typeName init position initPosition)
  cases hty.same with
  | error => exact pure fun _ _ => .of_known ⟨.same .error, by simp⟩
  | int | string | void | nil | record => exact report_then _ _ (.pure _)
  | @array i k hk =>
    refine get hadds fun {β s s'} hs _ hle => ?_
    have hk' : β.arrays[k]? = some i := getElem?_of_prefix hle.arrays hk
    obtain ⟨hnone, hnone'⟩ | ⟨element, element', hsome, hsome', helement⟩ :=
      eq_or_of_rel (hs.registry.element? hk')
    · rw [hnone, hnone']
      apply require_then (fun _ _ => .same .error) (fun _ hle' => hinit.mono (hle.trans hle'))
      exact pure fun β' hle' => .of_known (hty.mono (hle.trans hle')).known
    · rw [hsome, hsome']
      apply require_then (fun _ hle' => (Ty.Follows.same helement.same).mono hle')
        (fun _ hle' => hinit.mono (hle.trans hle'))
      exact pure fun β' hle' => .of_known (hty.mono (hle.trans hle')).known

theorem typeOfSimple (node : Node) (name : String) :
    m.Tracks AllResolved [] β₀.Le (CheckM.typeOfSimple node name) (CheckM.typeOfSimple node name)
      Ty.Known := by
  have hkeeps : Keeps (fun _ => True) (CheckM.typeOfSimple node name) := .typeOfSimple name trivial
  refine get (.of_keeps hkeeps) fun {β s s'} hs _ hle => ?_
  obtain ⟨hnone, hnone'⟩ | ⟨entry, entry', hsome, hsome', hentry⟩ :=
    eq_or_of_rel (hs.vars.find? name)
  · rw [hnone]
    exact report_then _ _ (.pure _)
  · rw [hsome, hsome']
    dsimp only
    refine andThen (learn (fun _ => ⟨rfl, rfl⟩) fun _ => ⟨rfl, rfl⟩) fun _ _ => ?_
    exact pure fun _ hle => hentry.ty.mono hle

theorem typeOfField {base base' : Ty} (hbase : base.Known β₀ base') (name : String) :
    m.Tracks AllResolved [] β₀.Le (CheckM.typeOfField base name position)
      (CheckM.typeOfField base' name position') Ty.Known := by
  have hadds : Adds AllResolved (CheckM.typeOfField base name position) :=
    .of_onlyReports (CheckM.typeOfField_onlyReports base name position)
  refine get hadds fun {β s s'} hs _ hle => ?_
  dsimp only
  cases (hbase.mono hle).follows with
  | nil _ hloss => exact absurd trivial hloss
  | unknown hmet =>
    -- Only the first checker looks for the field.
    have hdone : ∀ ty, m.Tracks AllResolved [] β.Le (Pure.pure ty) (Pure.pure .error) Ty.Known :=
      fun ty => pure fun _ hle' => .unknown (hle'.met hmet)
    cases base with
    | error => exact hdone _
    | record i =>
      dsimp only
      split
      · exact hdone _
      · exact report_then _ _ (.pure _)
    | int | string | void | nil | array => exact report_then _ _ (.pure _)
  | same hsame =>
    cases hsame with
    | error => exact pure fun _ _ => ⟨.same .error, by simp⟩
    | int | string | void | nil | array => exact report_then _ _ (.pure _)
    | @record i k hk =>
      dsimp only
      obtain ⟨hnone, hnone'⟩ | ⟨found, found', hsome, hsome', hfound⟩ :=
        eq_or_of_rel (hs.registry.field? hk name)
      · rw [hnone]
        exact report_then _ _ (.pure _)
      · rw [hsome, hsome']
        exact pure fun _ hle' => (hfound.mono hle').known

theorem typeOfSubscript {base base' : Ty} (hbase : base.Known β₀ base') :
    m.Tracks AllResolved [] β₀.Le (CheckM.typeOfSubscript base position)
      (CheckM.typeOfSubscript base' position') Ty.Known := by
  have hadds : Adds AllResolved (CheckM.typeOfSubscript base position) :=
    .of_onlyReports (CheckM.typeOfSubscript_onlyReports base position)
  refine get hadds fun {β s s'} hs _ hle => ?_
  cases (hbase.mono hle).follows with
  | nil _ hloss => exact absurd trivial hloss
  | unknown hmet =>
    have hdone : ∀ ty, m.Tracks AllResolved [] β.Le (Pure.pure ty) (Pure.pure .error) Ty.Known :=
      fun ty => pure fun _ hle' => .unknown (hle'.met hmet)
    cases base with
    | error => exact hdone _
    | array i => exact hdone _
    | int | string | void | nil | record => exact report_then _ _ (.pure _)
  | same hsame =>
    cases hsame with
    | error => exact pure fun _ _ => ⟨.same .error, by simp⟩
    | int | string | void | nil | record => exact report_then _ _ (.pure _)
    | @array i k hk =>
      dsimp only
      obtain ⟨hnone, hnone'⟩ | ⟨element, element', hsome, hsome', helement⟩ :=
        eq_or_of_rel (hs.registry.element? hk)
      · rw [hnone, hnone']
        exact pure fun _ _ => ⟨.same .error, by simp⟩
      · rw [hsome, hsome']
        exact pure fun _ hle' => (helement.mono hle').known

theorem checkAssignable (node : Node) (name : String) :
    m.Tracks AllResolved [] β₀.Le (CheckM.checkAssignable (.simple node name))
      (CheckM.checkAssignable (.simple node name)) fun β _ _ => β₀.Le β := by
  have hadds : Adds AllResolved (CheckM.checkAssignable (.simple node name)) :=
    .of_onlyReports (CheckM.checkAssignable_onlyReports _)
  refine get hadds fun {β s s'} hs _ hle => ?_
  obtain ⟨hnone, hnone'⟩ | ⟨entry, entry', hsome, hsome', hentry⟩ :=
    eq_or_of_rel (hs.vars.find? name)
  · rw [hnone, hnone']
    exact pure fun _ hle' => hle.trans hle'
  · rw [hsome, hsome']
    obtain ⟨ty, slot, readOnly⟩ := entry
    obtain ⟨ty', slot', readOnly'⟩ := entry'
    obtain rfl : readOnly = readOnly' := hentry.readOnly
    cases readOnly with
    | true => exact report_then _ _ (.pure _)
    | false => exact pure fun _ hle' => hle.trans hle'

theorem typeOfBreak : m.Tracks AllResolved [] β₀.Le (CheckM.typeOfBreak position)
    (CheckM.typeOfBreak position') (m.Typed ends) := by
  have hadds : Adds AllResolved (CheckM.typeOfBreak position) :=
    .of_onlyReports (CheckM.typeOfBreak_onlyReports position)
  refine get hadds fun {β s s'} hs _ hle => ?_
  rw [hs.loopDepth]
  split
  · exact report_then _ _ (.pure _)
  · exact pure fun _ _ => .void

theorem typeNamed (name : String) (position position' : Position) {pre : Bridge → Prop} :
    m.Tracks AllResolved [] pre (CheckM.typeNamed name position)
      (CheckM.typeNamed name position') fun β ty ty' => pre β ∧ ty.Kept β ty' := by
  have hreports := CheckM.typeNamed_onlyReports name position
  refine ⟨.of_onlyReports hreports, fun {β s s'} hs hinv hpre hsize => ?_⟩
  have hinv' : AllResolved s'.types := hs.types.allResolved hinv
  rw [CheckM.typeNamed_resolved hinv] at hsize
  obtain ⟨hnone, hnone'⟩ | ⟨entry, entry', hsome, hsome', hentry⟩ :=
    eq_or_of_rel (hs.types.find? name)
  · rw [hnone] at hsize
    exact absurd hsize (CheckM.size_report_ne _ _ s)
  · rw [CheckM.typeNamed_resolved hinv, CheckM.typeNamed_resolved hinv', hsome, hsome']
    refine ⟨β, [], .refl β, hs, ⟨hpre, ?_⟩, (List.append_nil _).symm, .nothing rfl⟩
    obtain ⟨ty, hty⟩ := Option.isSome_iff_exists.mp (hinv.find? hsome)
    obtain ⟨hnone, -⟩ | ⟨kept, kept', hkept, hkept', hsame⟩ := eq_or_of_rel hentry.resolved
    · rw [hty] at hnone
      cases hnone
    · simp only [typeIn, typeOf?, hsome, hsome', Option.bind_some, hkept, hkept', Option.getD_some]
      exact hsame

theorem typeOfBranches {yes yes' no no' : Ty} {ends : Bool}
    (hyes : yes.Follows m.lossless β₀ yes') (hno : m.Typed ends β₀ no no')
    (hends : m.lossless → ends = false) :
    m.Tracks AllResolved [] β₀.Le (CheckM.typeOfBranches yes no position)
      (CheckM.typeOfBranches yes' no' position') (m.Typed ends) := by
  rw [CheckM.typeOfBranches_eq, CheckM.typeOfBranches_eq]
  refine (require (fun _ hle => hyes.mono hle) (fun _ hle => hno.follows.mono hle) position
    position').andThen fun ok ok' => ?_
  apply pure
  rintro β ⟨hle, rfl, haccepts, hok, hmet⟩
  cases ok' with
  | false => exact .unknown (hmet rfl)
  | true => exact (hyes.mono hle).ofBranches (hno.mono hle) hends haccepts hok.symm

theorem declaredType (node : Node) (typeName : Option String) {init init' : Ty}
    (hinit : init.Follows m.lossless β₀ init') {initPosition initPosition' : Position} :
    m.Tracks AllResolved [] β₀.Le (CheckM.declaredType node typeName init initPosition)
      (CheckM.declaredType node typeName init' initPosition') Ty.Known := by
  unfold CheckM.declaredType
  cases typeName with
  | some typeName =>
    refine (typeNamed typeName node.span.start node.span.start).andThen fun ty ty' => ?_
    apply require_then (fun _ h => .same h.2.same) (fun _ h => hinit.mono h.1)
    exact pure fun _ h => h.2.known
  | none =>
    dsimp only
    by_cases hnone : init = .nil ∨ init = .void
    · rw [if_pos hnone]
      refine of_loud (.of_onlyReports (.get fun s => .report_then _ _ (.pure _))) fun s _ => ?_
      exact Nat.lt_of_lt_of_eq (Nat.lt_succ_self _) (Array.size_push _).symm
    · rw [if_neg hnone]
      by_cases hnone' : init' = .nil ∨ init' = .void
      · -- The type was that of a record, and `nil` is no type for a variable.
        rw [if_pos hnone']
        have hlost : init' = .nil ∧ β₀.met = true ∧ ¬ m.lossless := by
          cases hinit with
          | nil hmet hloss => exact ⟨rfl, hmet, hloss⟩
          | unknown => simp at hnone'
          | same hsame => cases hsame <;> simp at hnone hnone'
        obtain ⟨rfl, hmet, hloss⟩ := hlost
        have hrest : m.Tracks AllResolved [] β₀.Le (Pure.pure init) (Pure.pure .error) Ty.Known :=
          pure fun _ hle => .unknown (hle.met hmet)
        exact hrest.nil_mismatch (fun _ hle => ⟨hle.met hmet, hloss⟩) (fun _ => "a typed value")
          initPosition'
      · rw [if_neg hnone']
        refine pure fun β hle => ⟨?_, fun hnil => hnone' (.inl hnil)⟩
        cases hinit.mono hle with
        | same hsame => exact .same hsame
        | unknown hmet => exact .unknown hmet
        | nil => exact absurd (.inl rfl) hnone'

end rules

end Mistake.Tracks

end TigerLang

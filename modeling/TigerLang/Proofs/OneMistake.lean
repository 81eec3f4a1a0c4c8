import TigerLang.Proofs.TrackedForms
import TigerLang.Proofs.WellTyped
import TigerLang.Token.Scan

/-! One expression of a program without mistakes is replaced by an unknown variable. That is the
first that is reported, and all else that can be reported then is that `nil` is not of the type that
is needed. -/

namespace TigerLang

theorem CheckM.declareTypes_replaceList (id : Nat) (new : Exp) (decs : List Dec) :
    declareTypes (Dec.replaceList id new decs) = declareTypes decs := by
  induction decs with
  | nil => rfl
  | cons d decs ih => cases d <;> simp only [Dec.replaceList, declareTypes, ih]

theorem CheckM.declareHeadings_replaceList (id : Nat) (new : Exp) (decs : List Dec) :
    declareHeadings (Dec.replaceList id new decs) = declareHeadings decs := by
  induction decs with
  | nil => rfl
  | cons d decs ih => cases d <;> simp only [Dec.replaceList, declareHeadings, ih]

theorem CheckM.declareBlock_replaceList (id : Nat) (new : Exp) (decs : List Dec) :
    declareBlock (Dec.replaceList id new decs) = declareBlock decs := by
  unfold declareBlock
  rw [declareTypes_replaceList, declareHeadings_replaceList]

theorem CheckM.inferExp_unknown (node varNode : Node) {name : String} {s : Checker}
    (h : s.vars.find? name = none) :
    ((inferExp (.var node (.simple varNode name))).run s).1 = .error ∧
      s.SameKnown ((inferExp (.var node (.simple varNode name))).run s).2 ∧
      ((inferExp (.var node (.simple varNode name))).run s).2.diagnostics.toList =
        s.diagnostics.toList ++ [⟨.undefinedName .variable name, varNode.span.start⟩] := by
  have hsimple : (typeOfSimple varNode name).run s =
      (.error, ((report (.undefinedName .variable name) varNode.span.start).run s).2) := by
    unfold typeOfSimple
    rw [run_get_bind, h]
    rfl
  have hrun : (inferExp (.var node (.simple varNode name))).run s =
      (.error, { ((report (.undefinedName .variable name) varNode.span.start).run s).2 with
        facts := { s.facts with
          varTypes := s.facts.varTypes.insert varNode.id .error
          expTypes := s.facts.expTypes.insert node.id .error } }) := by
    simp only [inferExp, inferVar, noteExp, noteVar, StateT.run_bind, hsimple]
    rfl
  rw [hrun]
  exact ⟨rfl, ⟨rfl, rfl, rfl, rfl, rfl, rfl, rfl⟩, Array.toList_push⟩

theorem Checker.Alike.keeps {m : Mistake} {β : Bridge} {s s' r : Checker} (h : s.Alike m β s')
    (hkeeps : s.Keeps (· ∈ m.old.ids) r) : r.Alike m { β with met := true } s' := by
  have hle := β.le_met
  have hfunctions : ∀ {i : Nat} {a : Routine}, s.facts.functions[i]? = some a →
      r.facts.functions[i]? = some a := by
    intro i a ha
    rw [← Array.getElem?_toList] at ha ⊢
    exact getElem?_of_prefix hkeeps.grows.functions ha
  have hregistry := h.registry.extends_ hkeeps.grows.registry
  refine ⟨hregistry.met hle rfl rfl, ?_, ?_, ?_, ?_, ?_, h.declared, h.unbound⟩
  · rw [hkeeps.env.types]
    exact h.types.imp fun _ _ hentry => hentry.mono hle
  · rw [hkeeps.env.vars]
    exact h.vars.imp fun _ _ hentry => hentry.mono hle
  · rw [hkeeps.env.functions]
    exact h.functions.imp fun _ _ hentry => hentry.mono hle
  · rw [hkeeps.env.loopDepth]
    exact h.loopDepth
  · intro id hid
    rw [(hkeeps.grows.facts hid).routineOf]
    exact rel_imp (h.routines hid) fun ⟨a, b, ha, hb, hroutine⟩ =>
      ⟨a, b, hfunctions ha, hb, hroutine.mono hle⟩

namespace Mistake
variable {m : Mistake}

structure Fits (m : Mistake) (e : Exp) : Prop where
  unbound : m.name ∉ e.boundNames
  lossless : m.lossless → e.hasNilBranch = false

/-- A part of a program with the expressions in it and the numbers of all its nodes. The expression
that is replaced is one of them, or none of its numbers is there. -/
structure Site (m : Mistake) (parts : List Exp) (ids : List Nat) : Prop where
  nodup : ids.Nodup
  placed : m.old ∈ parts ∨ ∀ id ∈ ids, id ∉ m.old.ids
  fits : ∀ e ∈ parts, m.Fits e

def expected (m : Mistake) (ids : List Nat) : List Diagnostic :=
  if m.old.node.id ∈ ids then [m.report] else []

theorem expected_append {ids ids' : List Nat} (h : (ids ++ ids').Nodup) :
    m.expected (ids ++ ids') = m.expected ids ++ m.expected ids' := by
  have hdisjoint := (List.nodup_append'.mp h).2.2
  unfold expected
  by_cases hleft : m.old.node.id ∈ ids
  · have hright : m.old.node.id ∉ ids' := hdisjoint hleft
    rw [if_pos (List.mem_append_left _ hleft), if_pos hleft, if_neg hright, List.append_nil]
  · by_cases hright : m.old.node.id ∈ ids'
    · rw [if_pos (List.mem_append_right _ hright), if_neg hleft, if_pos hright, List.nil_append]
    · rw [if_neg (by simp [hleft, hright]), if_neg hleft, if_neg hright, List.nil_append]

theorem Site.expected_nil {ids : List Nat} (h : m.Site [] ids) :
    (∀ id ∈ ids, id ∉ m.old.ids) ∧ m.expected ids = [] := by
  have hout : ∀ id ∈ ids, id ∉ m.old.ids := h.placed.resolve_left (by simp)
  exact ⟨hout, if_neg fun hid => hout _ hid m.old.id_mem_ids⟩

theorem Site.left {parts parts' : List Exp} {ids ids' : List Nat}
    (h : m.Site (parts ++ parts') (ids ++ ids')) (hsubset : m.old ∈ parts' → m.old.ids ⊆ ids') :
    m.Site parts ids := by
  have hdisjoint := (List.nodup_append'.mp h.nodup).2.2
  refine ⟨h.nodup.of_append_left, ?_, fun e he => h.fits e (List.mem_append_left _ he)⟩
  rcases h.placed with hold | hout
  · rcases List.mem_append.mp hold with hleft | hright
    · exact .inl hleft
    · exact .inr fun id hid hin => hdisjoint hid (hsubset hright hin)
  · exact .inr fun id hid => hout id (List.mem_append_left _ hid)

theorem Site.right {parts parts' : List Exp} {ids ids' : List Nat}
    (h : m.Site (parts ++ parts') (ids ++ ids')) (hsubset : m.old ∈ parts → m.old.ids ⊆ ids) :
    m.Site parts' ids' := by
  have hdisjoint := (List.nodup_append'.mp h.nodup).2.2
  refine ⟨h.nodup.of_append_right, ?_, fun e he => h.fits e (List.mem_append_right _ he)⟩
  rcases h.placed with hold | hout
  · rcases List.mem_append.mp hold with hleft | hright
    · exact .inr fun id hid hin => hdisjoint (hsubset hleft hin) hid
    · exact .inl hright
  · exact .inr fun id hid => hout id (List.mem_append_right _ hid)

/-- What has to be reported about a part is as `P` says, wherever the mistake is. -/
def Handles (m : Mistake) (parts : List Exp) (ids : List Nat) (P : List Diagnostic → Prop) : Prop :=
  m.Site parts ids → P (m.expected ids)

namespace Handles
variable {parts parts' : List Exp} {ids ids' : List Nat} {P Q R : List Diagnostic → Prop}

theorem nothing (h : P []) : m.Handles [] ids P := by
  intro hsite
  rw [hsite.expected_nil.2]
  exact h

theorem mono (h : m.Handles parts ids P) (hP : ∀ d, P d → Q d) : m.Handles parts ids Q :=
  fun hsite => hP _ (h hsite)

theorem append (hparts : m.old ∈ parts → m.old.ids ⊆ ids)
    (hparts' : m.old ∈ parts' → m.old.ids ⊆ ids') (h : m.Handles parts ids P)
    (h' : m.Handles parts' ids' Q) (hboth : ∀ d d', P d → Q d' → R (d ++ d')) :
    m.Handles (parts ++ parts') (ids ++ ids') R := by
  intro hsite
  rw [expected_append hsite.nodup]
  exact hboth _ _ (h (hsite.left hparts')) (h' (hsite.right hparts))

theorem append_three {parts'' : List Exp} {ids'' : List Nat} {S : List Diagnostic → Prop}
    (hparts : m.old ∈ parts → m.old.ids ⊆ ids) (hparts' : m.old ∈ parts' → m.old.ids ⊆ ids')
    (hparts'' : m.old ∈ parts'' → m.old.ids ⊆ ids'') (h : m.Handles parts ids P)
    (h' : m.Handles parts' ids' Q) (h'' : m.Handles parts'' ids'' R)
    (hall : ∀ d d' d'', P d → Q d' → R d'' → S (d ++ (d' ++ d''))) :
    m.Handles (parts ++ (parts' ++ parts'')) (ids ++ (ids' ++ ids'')) S := by
  intro hsite
  have hrest : m.Site (parts' ++ parts'') (ids' ++ ids'') := hsite.right hparts
  have hfirst : m.Site parts ids := hsite.left (ids_subset_append hparts' hparts'')
  rw [expected_append hsite.nodup, expected_append hrest.nodup]
  exact hall _ _ _ (h hfirst) (h' (hrest.left hparts'')) (h'' (hrest.right hparts'))

theorem after (hparts : m.old ∈ parts → m.old.ids ⊆ ids)
    (h : (∀ id ∈ ids', id ∉ m.old.ids) → m.Handles parts ids P) :
    m.Handles parts (ids' ++ ids) P := by
  intro hsite
  have hsite : m.Site ([] ++ parts) (ids' ++ ids) := hsite
  obtain ⟨hout, hnothing⟩ := (hsite.left hparts).expected_nil
  rw [expected_append hsite.nodup, hnothing, List.nil_append]
  exact h hout (hsite.right (by simp))

theorem after_node (node : Node) (hparts : m.old ∈ parts → m.old.ids ⊆ ids)
    (h : m.Handles parts ids P) : m.Handles parts (node.id :: ids) P := by
  have h' : m.Handles parts ([node.id] ++ ids) P := after hparts fun _ => h
  exact h'

end Handles

theorem tracksExp_new (m : Mistake) : m.TracksExp [m.report] m.old m.new := by
  have hkeeps := CheckM.inferExp_keeps m.old
  refine ⟨.of_keeps hkeeps, fun {β s s'} hs hinv _ _ => ?_⟩
  obtain ⟨hty, hsame, hreport⟩ := CheckM.inferExp_unknown m.node m.varNode hs.unbound.find?
  have hend := (hs.keeps (hkeeps s hinv)).congr (.refl _) hsame
  refine ⟨{ β with met := true }, [m.report], β.le_met, hend, ?_, hreport, .report m _ _⟩
  unfold new
  rw [hty]
  exact .unknown rfl

theorem Handles.exp {e : Exp} (hinside : m.Fits e → m.Handles e.inside e.ids.tail fun d =>
      m.TracksExp d e (Exp.replaceInside m.old.node.id m.new e)) :
    m.Handles e.subexps e.ids fun d => m.TracksExp d e (Exp.replace m.old.node.id m.new e) := by
  intro hsite
  have hnodup := hsite.nodup
  rw [e.ids_eq_cons] at hnodup
  obtain ⟨hnew, htail⟩ := List.nodup_cons.mp hnodup
  by_cases hid : e.node.id = m.old.node.id
  · -- Another expression with that number would have it inside this one once more.
    have heq : m.old = e := by
      rcases hsite.placed with hold | hout
      · rcases List.mem_cons.mp hold with heq | hin
        · exact heq
        · have hmem := Exp.ids_subset_tail e hin m.old.id_mem_ids
          rw [← hid] at hmem
          exact absurd hmem hnew
      · exact absurd m.old.id_mem_ids (hid ▸ hout _ e.id_mem_ids)
    subst heq
    have hexpected : m.expected m.old.ids = [m.report] := if_pos m.old.id_mem_ids
    rw [hexpected, Exp.replace_of_eq rfl]
    exact m.tracksExp_new
  · have hexpected : m.expected e.ids = m.expected e.ids.tail := by
      unfold expected
      rw [e.ids_eq_cons, List.tail_cons]
      simp only [List.mem_cons, Ne.symm hid, false_or]
    rw [hexpected, Exp.replace_of_ne hid]
    refine hinside (hsite.fits e List.mem_cons_self) ⟨htail, ?_, fun x hx => ?_⟩
    · rcases hsite.placed with hold | hout
      · rcases List.mem_cons.mp hold with heq | hin
        · exact absurd (congrArg (·.node.id) heq.symm) hid
        · exact .inl hin
      · exact .inr fun id hmem => hout id (List.mem_of_mem_tail hmem)
    · exact hsite.fits x (List.mem_cons_of_mem _ hx)

mutual

theorem handles_inside (m : Mistake) : ∀ e : Exp, m.Fits e →
    m.Handles e.inside e.ids.tail fun d =>
      m.TracksExp d e (Exp.replaceInside m.old.node.id m.new e)
  | .nil _ => fun _ => .nothing Tracks.exp_nil
  | .int _ value => fun _ => .nothing (Tracks.exp_int value)
  | .str _ value => fun _ => .nothing (Tracks.exp_str value)
  | .breakLoop _ => fun _ => .nothing Tracks.exp_breakLoop
  | .var _ target => fun _ => (m.handles_var target).mono fun _ => Tracks.exp_var
  | .call _ function args => fun _ =>
    (m.handles_list args).mono fun _ => Tracks.exp_call function
  | .binary _ op left right => fun _ => .append Exp.ids_subset Exp.ids_subset
    (.exp (m.handles_inside left)) (.exp (m.handles_inside right)) fun _ _ => Tracks.exp_binary op
  | .record _ typeName fields => fun _ =>
    (m.handles_fields fields).mono fun _ => Tracks.exp_record typeName
  | .seq _ exps => fun _ => (m.handles_list exps).mono fun _ => Tracks.exp_seq
  | .assign _ target value => fun _ => .append (Var.ids_subset target) Exp.ids_subset
    (m.handles_var target) (.exp (m.handles_inside value)) fun _ _ => Tracks.exp_assign _ _
  | .ifThen _ test body => fun _ => .append Exp.ids_subset Exp.ids_subset
    (.exp (m.handles_inside test)) (.exp (m.handles_inside body)) fun _ _ => Tracks.exp_ifThen
  | .ifThenElse _ test yes no => fun hfits => .append_three Exp.ids_subset Exp.ids_subset
    Exp.ids_subset (.exp (m.handles_inside test)) (.exp (m.handles_inside yes))
    (.exp (m.handles_inside no)) fun _ _ _ htest hyes hno =>
      Tracks.exp_ifThenElse htest hyes hno hfits.lossless
  | .whileDo _ test body => fun _ => .append Exp.ids_subset Exp.ids_subset
    (.exp (m.handles_inside test)) (.exp (m.handles_inside body)) fun _ _ => Tracks.exp_whileDo
  | .forTo _ name lo hi body => fun hfits => by
    have hname : name ≠ m.name := fun heq => hfits.unbound (by simp [Exp.boundNames, heq])
    exact .append_three Exp.ids_subset Exp.ids_subset Exp.ids_subset (.exp (m.handles_inside lo))
      (.exp (m.handles_inside hi)) (.exp (m.handles_inside body)) fun _ _ _ =>
        Tracks.exp_forTo hname
  | .letIn _ decs body => fun hfits => by
    have hnames : ∀ d ∈ decs, m.name ∉ d.boundNames := fun d hd hname =>
      hfits.unbound (List.mem_flatMap.mpr ⟨d, hd, hname⟩)
    exact .append (Dec.ids_subset_list decs) Exp.ids_subset (m.handles_bodies decs hnames)
      (.exp (m.handles_inside body)) fun _ _ =>
        Tracks.exp_letIn (CheckM.declareBlock_replaceList _ _ decs)
  | .array _ typeName size init => fun _ => .append Exp.ids_subset Exp.ids_subset
    (.exp (m.handles_inside size)) (.exp (m.handles_inside init)) fun _ _ =>
      Tracks.exp_array typeName

theorem handles_var (m : Mistake) : ∀ v : Var, m.Handles v.inside v.ids fun d =>
    m.TracksVar d v (Var.replace m.old.node.id m.new v)
  | .simple _ name => .nothing (Tracks.var_simple name)
  | .field node base name => .after_node node (Var.ids_subset base)
    ((m.handles_var base).mono fun _ => Tracks.var_field name)
  | .subscript node base index => .after_node node
    (ids_subset_append (Var.ids_subset base) Exp.ids_subset)
    (.append (Var.ids_subset base) Exp.ids_subset (m.handles_var base)
      (.exp (m.handles_inside index)) fun _ _ => Tracks.var_subscript)

theorem handles_list (m : Mistake) : ∀ es : List Exp,
    m.Handles (Exp.insideList es) (Exp.idsList es) fun d =>
      m.TracksExps d es (Exp.replaceList m.old.node.id m.new es)
  | [] => .nothing Tracks.exps_nil
  | e :: es => .append Exp.ids_subset (Exp.ids_subset_list es) (.exp (m.handles_inside e))
    (m.handles_list es) fun _ _ => Tracks.exps_cons

theorem handles_fields (m : Mistake) : ∀ fields : List FieldExp,
    m.Handles (FieldExp.insideList fields) (FieldExp.idsList fields) fun d =>
      m.TracksGiven d fields (FieldExp.replaceList m.old.node.id m.new fields)
  | [] => .nothing Tracks.given_nil
  | .mk span name value :: fields => .append Exp.ids_subset (FieldExp.ids_subset_list fields)
    (.exp (m.handles_inside value)) (m.handles_fields fields) fun _ _ =>
      Tracks.given_cons span name

theorem handles_bodies (m : Mistake) : ∀ decs : List Dec, (∀ d ∈ decs, m.name ∉ d.boundNames) →
    m.Handles (Dec.insideList decs) (Dec.idsList decs) fun d =>
      m.TracksBodies d decs (Dec.replaceList m.old.node.id m.new decs)
  | [] => fun _ => .nothing Tracks.bodies_nil
  | .var node name typeName init :: decs => fun hnames => by
    obtain ⟨hfirst, hrest⟩ := List.forall_mem_cons.mp hnames
    have hname : name ≠ m.name := fun heq => hfirst (by simp [Dec.boundNames, heq])
    refine .after_node node (ids_subset_append Exp.ids_subset (Dec.ids_subset_list decs)) ?_
    exact .append Exp.ids_subset (Dec.ids_subset_list decs) (.exp (m.handles_inside init))
      (m.handles_bodies decs hrest) fun _ _ => Tracks.bodies_var hname typeName
  | .type node name definition :: decs => fun hnames => by
    have hrest := (List.forall_mem_cons.mp hnames).2
    have h : m.Handles (Dec.insideList decs) ((node.id :: definition.ids) ++ Dec.idsList decs)
        fun d => m.TracksBodies d decs (Dec.replaceList m.old.node.id m.new decs) :=
      .after (Dec.ids_subset_list decs) fun _ => m.handles_bodies decs hrest
    exact h.mono fun _ => Tracks.bodies_type name definition
  | .function node name params result body :: decs => fun hnames => by
    obtain ⟨hfirst, hrest⟩ := List.forall_mem_cons.mp hnames
    have hparams : ∀ param ∈ params, param.name ≠ m.name := fun param hparam heq =>
      hfirst (List.mem_map.mpr ⟨param, hparam, heq⟩)
    have h : m.Handles (body.subexps ++ Dec.insideList decs)
        ((node.id :: params.map (·.node.id)) ++ (body.ids ++ Dec.idsList decs)) fun d =>
          m.TracksBodies d (.function node name params result body :: decs)
            (.function node name params result (Exp.replace m.old.node.id m.new body) ::
              Dec.replaceList m.old.node.id m.new decs) := by
      refine .after (ids_subset_append Exp.ids_subset (Dec.ids_subset_list decs)) fun hout => ?_
      have hnode : node.id ∉ m.old.ids := hout _ List.mem_cons_self
      exact .append Exp.ids_subset (Dec.ids_subset_list decs) (.exp (m.handles_inside body))
        (m.handles_bodies decs hrest) fun _ _ => Tracks.bodies_function hnode name hparams result
    exact h

end

theorem Explains.eq_cons {β β' : Bridge} {new : List Diagnostic} (hmet : β.met = false)
    (h : m.Explains β β' [m.report] new) :
    ∃ others, new = m.report :: others ∧ ∀ d ∈ others, d.receivesNil = true := by
  have hothers := h.others
  cases new with
  | nil => cases hothers
  | cons first others =>
    have hfirst : first.receivesNil = false := h.first hmet first rfl
    rw [List.filter_cons_of_pos (by simp [hfirst]), List.cons.injEq] at hothers
    refine ⟨others, by rw [hothers.1], fun d hd => ?_⟩
    simpa using List.filter_eq_nil_iff.mp hothers.2 d hd

end Mistake

theorem Diagnostic.eq_of_receivesNil {d : Diagnostic} (h : d.receivesNil = true) :
    ∃ expected, d.cause = .typeMismatch expected "nil" := by
  unfold receivesNil at h
  split at h
  · next expected received heq => exact ⟨expected, by rw [heq, eq_of_beq h]⟩
  · cases h

theorem Checker.alike_initial (m : Mistake) :
    Checker.initial.Alike m ⟨[], [], [], false⟩ Checker.initial := by
  have hint : Ty.Kept ⟨[], [], [], false⟩ .int .int := ⟨.int, by simp⟩
  have hstring : Ty.Kept ⟨[], [], [], false⟩ .string .string := ⟨.string, by simp⟩
  have hvoid : Ty.Kept ⟨[], [], [], false⟩ .void .void := ⟨.void, by simp⟩
  refine ⟨⟨rfl, rfl, .nil, .nil, ?_, ?_⟩, ⟨.nil, ?_⟩, ⟨.nil, .nil⟩, ⟨?_, ?_⟩, rfl, ?_, ?_, ?_⟩
  · intro k i hk
    simp at hk
  · intro k i hk
    simp at hk
  · exact .cons ⟨rfl, rfl, .some hint⟩ (.cons ⟨rfl, rfl, .some hstring⟩ .nil)
  · have hinner : Checker.libraryFunctions.inner = [] := by decide +kernel
    change List.Forall₂ _ Checker.libraryFunctions.inner Checker.libraryFunctions.inner
    rw [hinner]
    exact .nil
  · change Scope.Rel _ Checker.libraryFunctions.root Checker.libraryFunctions.root
    rw [libraryFunctions_root]
    refine List.forall₂_same.mpr fun entry hentry => ⟨rfl, ?_⟩
    obtain ⟨f, hf, rfl⟩ := List.mem_map.mp hentry
    obtain ⟨hparams, hresult⟩ := library_base f hf
    constructor
    · refine List.forall₂_same.mpr fun ty hty => ?_
      rcases hparams ty hty with rfl | rfl
      · exact hint
      · exact hstring
    · change f.result.Kept _ f.result
      rcases hresult with heq | heq | heq <;> rw [heq] <;> assumption
  · intro id _
    exact .none
  · simp
  · simp [Scopes.Lacks, Checker.initial, Scopes.scopes, Scopes.empty]

/-- An expression of a program without mistakes is replaced by a variable that the program declares
nowhere. That is reported first. After it only `nil` can be complained of, and not even that if no
conditional has its type from its first branch alone. The numbers of a parsed program are distinct
(`parse_nodup`). -/
theorem check_replace_unknown {e old : Exp} {name : String} (node varNode : Node)
    (hnodup : e.ids.Nodup) (hclean : (check e).diagnostics = #[]) (hold : old ∈ e.subexps)
    (hname : ∀ x ∈ e.subexps, name ∉ x.boundNames) :
    ∃ others, (check (Exp.replace old.node.id (.var node (.simple varNode name))
        e)).diagnostics.toList =
          ⟨.undefinedName .variable name, varNode.span.start⟩ :: others ∧
      (∀ d ∈ others, ∃ expected, d.cause = .typeMismatch expected "nil") ∧
      ((∀ x ∈ e.subexps, x.hasNilBranch = false) → others = []) := by
  set m : Mistake := ⟨old, node, varNode, name, ∀ x ∈ e.subexps, x.hasNilBranch = false⟩ with hm
  have hsite : m.Site e.subexps e.ids :=
    ⟨hnodup, .inl hold, fun x hx => ⟨hname x hx, fun hlossless => hlossless x hx⟩⟩
  have htracks : m.TracksExp (m.expected e.ids) e (Exp.replace m.old.node.id m.new e) :=
    Mistake.Handles.exp (m.handles_inside e) hsite
  have hexpected : m.expected e.ids = [m.report] := if_pos (Exp.ids_subset hold old.id_mem_ids)
  rw [hexpected] at htracks
  have hquiet : ((CheckM.inferExp e).run .initial).2.diagnostics.size =
      Checker.initial.diagnostics.size := congrArg Array.size hclean
  obtain ⟨β', new, -, -, -, hnew, hexplains⟩ :=
    htracks.quiet (Checker.alike_initial m) allResolved_initial trivial hquiet
  obtain ⟨others, hothers, hnil⟩ := hexplains.eq_cons rfl
  refine ⟨others, ?_, fun d hd => Diagnostic.eq_of_receivesNil (hnil d hd), fun hlossless => ?_⟩
  · rw [hothers] at hnew
    exact hnew
  · have heq : new = [m.report] := hexplains.lossless hlossless
    rw [heq, List.cons.injEq] at hothers
    exact hothers.2.symm

def programOf (source : String) : Exp :=
  match Token.scan source Token.defaultFile with
  | .ok tokens => (parse Token.defaultFile tokens).1.toOption.getD default
  | .error _ => default

def twoRecords : Exp :=
  programOf ("let type r = \x7ba: int\x7d " ++
    "var x := if 1 then r \x7ba = 1\x7d else r \x7ba = 2\x7d in x.a end")

theorem check_replace_unknown_twoRecords :
    (check twoRecords).diagnostics = #[] ∧ twoRecords.subexps.length = 8 ∧
    ∀ old ∈ twoRecords.subexps,
      (check (Exp.replace old.node.id (.var old.node (.simple old.node "z"))
        twoRecords)).diagnostics.toList =
          [⟨.undefinedName .variable "z", old.node.span.start⟩] := by
  obtain ⟨hclean, hlength, hnodup, hname, hlossless⟩ : (check twoRecords).diagnostics = #[] ∧
      twoRecords.subexps.length = 8 ∧ twoRecords.ids.Nodup ∧
      (∀ x ∈ twoRecords.subexps, "z" ∉ x.boundNames) ∧
      ∀ x ∈ twoRecords.subexps, x.hasNilBranch = false := by decide +kernel
  refine ⟨hclean, hlength, fun old hold => ?_⟩
  obtain ⟨others, hothers, -, hnone⟩ :=
    check_replace_unknown old.node old.node hnodup hclean hold hname
  rw [hothers, hnone hlossless]

def recordOrNil : Exp :=
  programOf "let type r = \x7ba: int\x7d var x := if 1 then r \x7ba = 1\x7d else nil in x end"

/-- With an unknown variable for the record only `nil` is left, which is no type for a variable. -/
theorem check_replace_unknown_recordOrNil :
    (check recordOrNil).diagnostics = #[] ∧ (∀ x ∈ recordOrNil.subexps, "z" ∉ x.boundNames) ∧
    ∃ old ∈ recordOrNil.subexps,
      (check (Exp.replace old.node.id (.var old.node (.simple old.node "z"))
        recordOrNil)).diagnostics.toList =
          [⟨.undefinedName .variable "z", ⟨41, "shell"⟩⟩,
            ⟨.typeMismatch "a typed value" "nil", ⟨31, "shell"⟩⟩] := by
  decide +kernel

end TigerLang

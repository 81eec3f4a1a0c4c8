import TigerLang.Proofs.Repetition

/-! Every tree that can be written down is read back from its written form, apart from the numbers
and the places of its nodes. -/

namespace TigerLang

open TigerLang.Word TigerLang.Parser

namespace Text

theorem digitsValue_eq (cs : List Char) : digitsValue cs = Nat.ofDigitChars 10 cs 0 := rfl

theorem all_isDigit_toDigits (n : Nat) : (Nat.toDigits 10 n).all Char.isDigit = true :=
  List.all_eq_true.mpr fun _ hc => Nat.isDigit_of_mem_toDigits (by decide) (by decide) hc

theorem readInt64_of_digits {cs : List Char} (hne : cs ≠ []) (hdigits : cs.all Char.isDigit = true)
    (hbound : digitsValue cs < int64Bound) : readInt64 cs = some (Int64.ofNat (digitsValue cs)) := by
  have hsign : ∀ c ds, c.isDigit = false → cs ≠ c :: ds := by
    rintro c ds hc rfl
    rw [List.all_cons, hc] at hdigits
    cases hdigits
  unfold readInt64
  split
  · next ds => exact absurd rfl (hsign _ ds (by decide))
  · next ds => exact absurd rfl (hsign _ ds (by decide))
  · rw [readDigits, if_pos ⟨hne, hdigits⟩, Option.bind_some, if_pos hbound]

theorem readInt64_showInt64 {value : Int64} (h : 0 ≤ value.toInt) :
    readInt64 (showInt64 value).toList = some value := by
  have hshow : (showInt64 value).toList = Nat.toDigits 10 value.toInt.natAbs := by
    rw [showInt64, if_neg (Int.not_lt.mpr h), Nat.toList_repr]
  have hvalue : digitsValue (Nat.toDigits 10 value.toInt.natAbs) = value.toInt.natAbs := by
    rw [digitsValue_eq, Nat.ofDigitChars_toDigits (by decide) (by decide)]
  have hbound : value.toInt.natAbs < int64Bound := by
    have hlt := value.toInt_lt
    simp only [int64Bound]
    omega
  rw [hshow, readInt64_of_digits Nat.toDigits_ne_nil (all_isDigit_toDigits _) (hvalue.symm ▸ hbound),
    hvalue, ← Int64.ofInt_eq_ofNat, Int.natAbs_of_nonneg h, Int64.ofInt_toInt]

end Text

def Exp.Taken (e : Exp) : Prop :=
  Takes e.written anything (group (expression .tiger)) fun e' => e'.bare = e.bare

theorem Exp.Taken.exp {e : Exp} (h : e.Taken) (power : Power) :
    Takes e.written (Stops power) (expression .tiger power) fun e' => e'.bare = e.bare :=
  form_taken rfl h fun _ hkind => ⟨hkind, trivial⟩

theorem Exp.Taken.lowest {e : Exp} (h : e.Taken) :
    Takes e.written (fun kind => Grammar.tiger.joining kind = none) (expression .tiger .lowest)
      fun e' => e'.bare = e.bare :=
  (h.exp .lowest).before fun _ hkind => stops_of_none hkind _

theorem Exp.Taken.of_inner {e : Exp} {word : Word} {words : List Word}
    (hinner : e.inner = word :: words) (hopen : word.1 ≠ .closeParen)
    (h : Takes (word :: words) (· = .closeParen) (expression .tiger .lowest)
      fun e' => e'.bare = e.bare) : e.Taken := by
  rw [Taken, written, hinner]
  refine group_taken (sequence_single h hopen (by decide)) ?_
  rintro start exps ⟨e', rfl, he'⟩
  exact .pure he'

theorem Exp.Taken.of_form {e : Exp} {word : Word} {words : List Word} {form : Opening}
    (hinner : e.inner = word :: words) (hform : Grammar.tiger.opening word.1 = some form)
    (h : Takes (word :: words) (· = .closeParen) (opened .tiger (expression .tiger) form)
      fun e' => e'.bare = e.bare) : e.Taken := by
  have hopen : word.1 ≠ .closeParen := by
    intro hclose
    rw [hclose] at hform
    cases hform
  refine .of_inner hinner hopen (form_taken hform h fun kind hkind => ⟨?_, hkind⟩)
  rw [hkind]
  exact stops_of_none rfl _

section literals

theorem Exp.taken_nil (node : Node) : (Exp.nil node).Taken := by
  refine .of_form rfl rfl (Takes.current_cons fun token hword => ?_)
  obtain ⟨kind, text, span⟩ := token
  obtain ⟨rfl, rfl⟩ := Prod.mk.inj hword
  exact Takes.advance_bind fun _ _ => Takes.node_bind fun _ => .pure rfl

theorem Exp.taken_str (node : Node) (value : String) : (Exp.str node value).Taken := by
  refine .of_form rfl rfl (Takes.current_cons fun token hword => ?_)
  obtain ⟨kind, text, span⟩ := token
  obtain ⟨rfl, rfl⟩ := Prod.mk.inj hword
  exact Takes.advance_bind fun _ _ => Takes.node_bind fun _ => .pure rfl

theorem Exp.taken_int (node : Node) {value : Int64} (h : 0 ≤ value.toInt) :
    (Exp.int node value).Taken := by
  refine .of_form rfl rfl (Takes.current_cons fun token hword => ?_)
  obtain ⟨kind, text, span⟩ := token
  obtain ⟨rfl, rfl⟩ := Prod.mk.inj hword
  dsimp only
  rw [Text.readInt64_showInt64 h]
  exact Takes.advance_bind fun _ _ => Takes.node_bind fun _ => .pure rfl

theorem Exp.taken_breakLoop (node : Node) : (Exp.breakLoop node).Taken :=
  .of_form rfl rfl (Takes.advance_bind fun _ _ => Takes.node_bind fun _ => .pure rfl)

end literals

section controls
variable {test body yes no lo hi : Exp}

theorem Exp.taken_ifThen (node : Node) (htest : test.Taken) (hbody : body.Taken) :
    (Exp.ifThen node test body).Taken := by
  refine .of_form rfl rfl (Takes.advance_bind fun _ _ => ?_)
  refine htest.lowest.bind (fun test' htest' => Takes.expect_bind fun _ _ => ?_) rfl
  refine hbody.lowest.andThen (fun body' hbody' => Takes.kind_nil fun kind hkind => ?_)
    fun _ hkind => hkind ▸ rfl
  rw [if_neg (hkind ▸ by decide)]
  refine Takes.node_bind fun _ => .pure ?_
  simp only [Exp.bare, htest', hbody']

theorem Exp.taken_ifThenElse (node : Node) (htest : test.Taken) (hyes : yes.Taken)
    (hno : no.Taken) : (Exp.ifThenElse node test yes no).Taken := by
  refine .of_form rfl rfl (Takes.advance_bind fun _ _ => ?_)
  refine htest.lowest.bind (fun test' htest' => Takes.expect_bind fun _ _ => ?_) rfl
  refine hyes.lowest.bind (fun yes' hyes' => Takes.kind_cons ?_) rfl
  rw [fixed_fst, if_pos rfl]
  refine Takes.advance_bind fun _ _ => ?_
  refine hno.lowest.andThen (fun no' hno' => ?_) fun _ hkind => hkind ▸ rfl
  refine Takes.node_bind fun _ => .pure ?_
  simp only [Exp.bare, htest', hyes', hno']

theorem Exp.taken_whileDo (node : Node) (htest : test.Taken) (hbody : body.Taken) :
    (Exp.whileDo node test body).Taken := by
  refine .of_form rfl rfl (Takes.advance_bind fun _ _ => ?_)
  refine htest.lowest.bind (fun test' htest' => Takes.expect_bind fun _ _ => ?_) rfl
  refine hbody.lowest.andThen (fun body' hbody' => ?_) fun _ hkind => hkind ▸ rfl
  refine Takes.node_bind fun _ => .pure ?_
  simp only [Exp.bare, htest', hbody']

theorem Exp.taken_forTo (node : Node) (name : String) (hlo : lo.Taken) (hhi : hi.Taken)
    (hbody : body.Taken) : (Exp.forTo node name lo hi body).Taken := by
  refine .of_form rfl rfl (Takes.advance_bind fun _ _ => Takes.identifier_bind ?_)
  refine Takes.expect_bind fun _ _ => ?_
  refine hlo.lowest.bind (fun lo' hlo' => Takes.expect_bind fun _ _ => ?_) rfl
  refine hhi.lowest.bind (fun hi' hhi' => Takes.expect_bind fun _ _ => ?_) rfl
  refine hbody.lowest.andThen (fun body' hbody' => ?_) fun _ hkind => hkind ▸ rfl
  refine Takes.node_bind fun _ => .pure ?_
  simp only [Exp.bare, hlo', hhi', hbody']

theorem Operator.joining_kind (op : Operator) : ∃ power,
    Grammar.tiger.joining op.kind = some (power, .binary) ∧ ¬ power ≤ Power.lowest ∧
      operator? op.kind = some op := by
  cases op <;> exact ⟨_, rfl, by decide, rfl⟩

theorem climbRound_binary {left right : Exp} (op : Operator) (hright : right.Taken) (left' : Exp)
    (hleft' : left'.bare = left.bare) (node : Node) :
    Takes (fixed op.kind :: enclosed right.inner) (· = .closeParen)
      (climbRound (expression .tiger) .lowest left') fun r =>
        ∃ e, r = .again e ∧ e.bare = (Exp.binary node op left right).bare := by
  obtain ⟨power, hjoining, hpower, hoperator⟩ := op.joining_kind
  apply Takes.kind_cons
  rw [fixed_fst, hjoining]
  dsimp only
  rw [if_neg hpower, joined, binary, bind_assoc]
  apply Takes.kind_cons
  rw [fixed_fst, hoperator]
  simp only [bind_assoc, pure_bind]
  refine Takes.advance_bind fun _ _ => ?_
  refine (hright.exp power).andThen (fun right' hright' => ?_) fun _ hkind => ?_
  · refine Takes.node_bind fun _ => .pure ⟨_, rfl, ?_⟩
    simp only [Exp.bare, hleft', hright']
  · exact hkind ▸ stops_of_none rfl _

theorem Exp.taken_binary {left right : Exp} (node : Node) (op : Operator) (hleft : left.Taken)
    (hright : right.Taken) : (Exp.binary node op left right).Taken := by
  have hopen : Takes (fixed .openParen :: (left.inner ++ [fixed .closeParen])) anything
      (opened .tiger (expression .tiger) .group) fun e => e.bare = left.bare := hleft
  refine .of_inner (by rw [Exp.inner, enclosed, List.cons_append]) (by decide)
    (expression_taken rfl hopen (fun left' hleft' => ?_) (leads_anything _ _))
  rw [climb_eq, ← List.append_nil (fixed op.kind :: enclosed right.inner)]
  refine (climbRound_binary op hright left' hleft' node).loop_again (by simp) ?_ fun _ hkind => hkind
  intro e he
  refine ((climb_stops _ .lowest e).before fun _ hkind => ?_).imp ?_
  · exact hkind ▸ stops_of_none rfl _
  · rintro _ rfl
    exact he

end controls

section lists

theorem Exp.writtenList_eq_map (es : List Exp) : Exp.writtenList es = es.map Exp.written := by
  induction es with
  | nil => rfl
  | cons e es ih => rw [writtenList, ih, List.map_cons, written]

theorem Exp.bareList_eq_map (es : List Exp) : Exp.bareList es = es.map Exp.bare := by
  induction es with
  | nil => rfl
  | cons e es ih => rw [bareList, ih, List.map_cons]

theorem Exp.taken_seq (node : Node) {exps : List Exp} (hlength : exps.length ≠ 1)
    (h : ∀ e ∈ exps, e.Taken) : (Exp.seq node exps).Taken := by
  have hitems : ∀ e ∈ exps, Takes e.written (fun kind => kind = .semicolon ∨ kind = .closeParen)
      (expression .tiger .lowest) fun e' => e'.bare = e.bare := by
    intro e he
    refine (h e he).lowest.before fun _ hkind => ?_
    rcases hkind with rfl | rfl <;> rfl
  rw [Exp.Taken, written, inner, writtenList_eq_map]
  refine group_taken (sequence_taken (by decide) (by decide) exps hitems) fun start exps' hexps' => ?_
  have hlength' : exps'.length = exps.length := by
    simpa only [List.length_map] using congrArg List.length hexps'
  unfold block
  split
  · next e => exact absurd hlength'.symm hlength
  · refine Takes.node_bind fun _ => .pure ?_
    rw [Exp.bare, Exp.bare, bareList_eq_map, bareList_eq_map, hexps']

def Parser.afterName (exp : Power → Parser Exp) (start : Position) (name : String) : Parser Exp := do
  match ← kind with
  | .openParen => call exp start name
  | .openCurly => record exp start name
  | .openBracket =>
    let base := Var.simple (← node start) name
    let index ← index exp
    if (← kind) = .ofWord then
      let _ ← advance
      let init ← exp .lowest
      return .array (← node start) name index init
    variableOrAssignment exp start (.subscript (← node start) base index)
  | _ => variableOrAssignment exp start (.simple (← node start) name)

theorem Exp.Taken.of_name {e : Exp} {name : String} {words : List Word}
    (hinner : e.inner = ident name :: words)
    (h : ∀ start, Takes words (· = .closeParen) (afterName (expression .tiger) start name)
      fun e' => e'.bare = e.bare) : e.Taken := by
  refine .of_form hinner rfl (Takes.advance_bind fun token hword => ?_)
  obtain ⟨-, rfl⟩ := Prod.mk.inj hword
  exact h token.span.start

theorem Exp.taken_call (node : Node) (function : String) {args : List Exp}
    (h : ∀ e ∈ args, e.Taken) : (Exp.call node function args).Taken := by
  have hitems : ∀ e ∈ args, Takes e.written (fun kind => kind = .comma ∨ kind = .closeParen)
      (expression .tiger .lowest) fun e' => e'.bare = e.bare := by
    intro e he
    refine (h e he).lowest.before fun _ hkind => ?_
    rcases hkind with rfl | rfl <;> rfl
  refine .of_name rfl fun start => Takes.kind_cons (Takes.expect_bind fun _ _ => ?_)
  rw [writtenList_eq_map]
  refine (commaSeparated_taken (by decide) args (fun e he => ⟨_, _, rfl, by decide⟩) hitems).bind
    (fun args' hargs' => Takes.expect_bind fun _ _ => ?_) rfl
  refine Takes.node_bind fun _ => .pure ?_
  rw [Exp.bare, Exp.bare, bareList_eq_map, bareList_eq_map, hargs']

def FieldExp.words : FieldExp → List Word
  | .mk _ name value => ident name :: fixed .equals :: value.written

def FieldExp.bare : FieldExp → FieldExp
  | .mk _ name value => .mk default name value.bare

theorem FieldExp.wordsList_eq_map (fields : List FieldExp) :
    FieldExp.wordsList fields = fields.map FieldExp.words := by
  induction fields with
  | nil => rfl
  | cons field fields ih =>
    cases field
    rw [wordsList, ih, List.map_cons, words, Exp.written]

theorem FieldExp.bareList_eq_map (fields : List FieldExp) :
    FieldExp.bareList fields = fields.map FieldExp.bare := by
  induction fields with
  | nil => rfl
  | cons field fields ih =>
    cases field
    rw [bareList, ih, List.map_cons, bare]

theorem FieldExp.taken {field : FieldExp} (h : field.value.Taken) :
    Takes field.words (fun kind => kind = .comma ∨ kind = .closeCurly) (fieldExp (expression .tiger))
      fun field' => field'.bare = field.bare := by
  obtain ⟨span, name, value⟩ := field
  refine Takes.look_bind fun start => Takes.identifier_bind (Takes.expect_bind fun _ _ => ?_)
  refine h.lowest.andThen (fun value' hvalue' => Takes.look_bind fun span => .pure ?_)
    fun _ hkind => ?_
  · rw [bare, bare, hvalue', FieldExp.value]
  · rcases hkind with rfl | rfl <;> rfl

theorem Exp.taken_record (node : Node) (typeName : String) {fields : List FieldExp}
    (h : ∀ field ∈ fields, field.value.Taken) : (Exp.record node typeName fields).Taken := by
  refine .of_name rfl fun start => Takes.kind_cons (Takes.expect_bind fun _ _ => ?_)
  rw [FieldExp.wordsList_eq_map]
  refine (commaSeparated_taken (by decide) fields (fun field hfield => ?_)
    fun field hfield => FieldExp.taken (h field hfield)).bind
    (fun fields' hfields' => Takes.expect_bind fun _ _ => ?_) rfl
  · obtain ⟨span, name, value⟩ := field
    exact ⟨_, _, rfl, nofun⟩
  · refine Takes.node_bind fun _ => .pure ?_
    rw [Exp.bare, Exp.bare, FieldExp.bareList_eq_map, FieldExp.bareList_eq_map, hfields']

theorem Parser.index_taken {e : Exp} (h : e.Taken) :
    Takes (fixed .openBracket :: (enclosed e.inner ++ [fixed .closeBracket])) anything
      (index (expression .tiger)) fun e' => e'.bare = e.bare :=
  Takes.advance_bind fun _ _ => h.lowest.bind
    (fun _ hindex => Takes.expect_bind fun _ _ => .pure hindex) rfl

theorem Exp.taken_array (node : Node) (typeName : String) {size init : Exp} (hsize : size.Taken)
    (hinit : init.Taken) : (Exp.array node typeName size init).Taken := by
  have hinner : (Exp.array node typeName size init).inner = ident typeName ::
      ((fixed .openBracket :: (enclosed size.inner ++ [fixed .closeBracket])) ++
        fixed .ofWord :: enclosed init.inner) := by
    simp [Exp.inner]
  refine .of_name hinner fun start => Takes.kind_cons (Takes.node_bind fun base => ?_)
  refine (index_taken hsize).bind (fun size' hsize' => Takes.kind_cons ?_) trivial
  rw [fixed_fst, if_pos rfl]
  refine Takes.advance_bind fun _ _ => hinit.lowest.andThen (fun init' hinit' => ?_)
    fun _ hkind => hkind ▸ rfl
  refine Takes.node_bind fun _ => .pure ?_
  simp only [Exp.bare, hsize', hinit']

end lists

section vars
variable {words : List Word} {follow : TokenKind → Prop} {good : Exp → Prop} {start : Position}

/-- What can come after a variable: another field or subscript, or a word that ends it. What comes
after its name could make something else of the name. -/
def Var.Continues : Var → TokenKind → Prop
  | .simple _ _, kind => kind ≠ .openParen ∧ kind ≠ .openCurly ∧ kind ≠ .openBracket
  | _, kind => kind ≠ .ofWord

def Var.Taken (v : Var) : Prop :=
  ∀ {words : List Word} {follow : TokenKind → Prop} {good : Exp → Prop} (start : Position),
    (∀ v', v'.bare = v.bare →
      Takes words follow (variableOrAssignment (expression .tiger) start v') good) →
    Leads words follow v.Continues →
    Takes (v.suffix ++ words) follow (afterName (expression .tiger) start v.root) good

theorem Var.taken_simple (node : Node) (name : String) : (Var.simple node name).Taken := by
  intro words follow good start h hleads
  refine Takes.kind_leads hleads fun kind hkind => ?_
  obtain ⟨hparen, hcurly, hbracket⟩ := hkind
  split
  · exact absurd rfl hparen
  · exact absurd rfl hcurly
  · exact absurd rfl hbracket
  · exact Takes.node_bind fun _ => h _ rfl

def Parser.suffixRound (exp : Power → Parser Exp) (start : Position) (base : Var) :
    Parser (Round Var Var) := do
  match ← kind with
  | .dot =>
    let _ ← advance
    let name ← identifier "after `.`"
    return .again (.field (← node start) base name)
  | .openBracket =>
    let index ← index exp
    return .again (.subscript (← node start) base index)
  | _ => return .done base

theorem Var.taken_field {base : Var} (node : Node) (name : String) (hbase : base.Taken) :
    (Var.field node base name).Taken := by
  intro words follow good start h hleads
  rw [suffix, List.append_assoc]
  refine hbase start (fun base' hbase' => ?_) ?_
  · have hround : Takes [fixed .dot, ident name] anything
        (suffixRound (expression .tiger) start base') fun r =>
          ∃ v, r = .again v ∧ v.bare = (Var.field node base name).bare := by
      refine Takes.kind_cons (Takes.advance_bind fun _ _ => Takes.identifier_bind ?_)
      refine Takes.node_bind fun _ => .pure ⟨_, rfl, ?_⟩
      simp only [bare, hbase']
    exact hround.loop_again_bind (by simp) (fun v hv => h v hv) (leads_anything _ _)
  · cases base with
    | simple node name => exact ⟨nofun, nofun, nofun⟩
    | field => exact nofun
    | subscript => exact nofun

theorem Var.taken_subscript {base : Var} {place : Exp} (node : Node) (hbase : base.Taken)
    (hplace : place.Taken) : (Var.subscript node base place).Taken := by
  intro words follow good start h hleads
  have hsuffix : (Var.subscript node base place).suffix ++ words = base.suffix ++
      ((fixed .openBracket :: (enclosed place.inner ++ [fixed .closeBracket])) ++ words) := by
    simp [suffix]
  have hround : ∀ base' : Var, base'.bare = base.bare →
      Takes (fixed .openBracket :: (enclosed place.inner ++ [fixed .closeBracket])) anything
        (suffixRound (expression .tiger) start base') fun r =>
          ∃ v, r = .again v ∧ v.bare = (Var.subscript node base place).bare := by
    intro base' hbase'
    refine Takes.kind_cons ((index_taken hplace).andThen (fun place' hplace' => ?_) fun _ _ => trivial)
    refine Takes.node_bind fun _ => .pure ⟨_, rfl, ?_⟩
    simp only [bare, hbase', hplace']
  rw [hsuffix]
  cases base with
  | simple node' name =>
    -- The first subscript is read before it is known whether an array is built.
    refine Takes.kind_cons (Takes.node_bind fun _ => ?_)
    refine (index_taken hplace).bind (fun place' hplace' => ?_) (leads_anything _ _)
    refine Takes.kind_leads hleads fun kind hkind => ?_
    rw [if_neg hkind]
    refine Takes.node_bind fun _ => h _ ?_
    simp only [bare, root, hplace']
  | field =>
    refine hbase start (fun base' hbase' => ?_) nofun
    exact (hround base' hbase').loop_again_bind (by simp) (fun v hv => h v hv) (leads_anything _ _)
  | subscript =>
    refine hbase start (fun base' hbase' => ?_) nofun
    exact (hround base' hbase').loop_again_bind (by simp) (fun v hv => h v hv) (leads_anything _ _)

theorem Parser.suffixRound_stop {kind : TokenKind} (hdot : kind ≠ .dot)
    (hbracket : kind ≠ .openBracket)
    (exp : Power → Parser Exp) (start : Position) (base : Var) :
    Takes [] (· = kind) (suffixRound exp start base) (· = .done base) := by
  refine Takes.kind_nil fun kind' hkind' => ?_
  subst hkind'
  split
  · exact absurd rfl hdot
  · exact absurd rfl hbracket
  · exact .pure rfl

theorem Parser.suffixes_stop (kind : TokenKind) (hdot : kind ≠ .dot) (hbracket : kind ≠ .openBracket)
    (exp : Power → Parser Exp) (start : Position) (base : Var) :
    Takes [] (· = kind) (suffixes exp start base) (· = base) :=
  Takes.loop_done ((suffixRound_stop hdot hbracket exp start base).imp fun _ hr => ⟨base, hr, rfl⟩)

theorem Var.continues_of (v : Var) (kind : TokenKind)
    (h : kind ∉ [.openParen, .openCurly, .openBracket, .ofWord]) : v.Continues kind := by
  simp only [List.mem_cons, List.not_mem_nil, or_false, not_or] at h
  obtain ⟨hparen, hcurly, hbracket, hof⟩ := h
  cases v with
  | simple => exact ⟨hparen, hcurly, hbracket⟩
  | field => exact hof
  | subscript => exact hof

theorem Exp.taken_var {target : Var} (node : Node) (h : target.Taken) :
    (Exp.var node target).Taken := by
  have hinner : (Exp.var node target).inner = ident target.root :: (target.suffix ++ []) := by
    rw [List.append_nil, Exp.inner]
  refine .of_name hinner fun start => h start (fun target' htarget' => ?_) ?_
  · refine (suffixes_stop .closeParen nofun nofun _ _ target').andThen ?_ fun _ hkind => hkind
    rintro _ rfl
    refine Takes.kind_nil fun kind hkind => ?_
    rw [if_neg (hkind ▸ by decide)]
    refine Takes.node_bind fun _ => .pure ?_
    simp only [Exp.bare, htarget']
  · rintro kind rfl
    exact target.continues_of .closeParen (by decide)

theorem Exp.taken_assign {target : Var} {value : Exp} (node : Node) (h : target.Taken)
    (hvalue : value.Taken) : (Exp.assign node target value).Taken := by
  refine .of_name rfl fun start => h start (fun target' htarget' => ?_) ?_
  · have hstop := suffixes_stop .assignment nofun nofun (expression .tiger) start target'
    refine hstop.bind ?_ rfl
    rintro _ rfl
    refine Takes.kind_cons ?_
    rw [fixed_fst, if_pos rfl]
    refine Takes.advance_bind fun _ _ => hvalue.lowest.andThen (fun value' hvalue' => ?_)
      fun _ hkind => hkind ▸ rfl
    refine Takes.node_bind fun _ => .pure ?_
    simp only [Exp.bare, htarget', hvalue']
  · exact target.continues_of .assignment (by decide)

end vars

section declarations

theorem Field.taken (field : Field) :
    Takes field.words anything Parser.field fun field' => field'.bare = field.bare :=
  Takes.look_bind fun _ => Takes.identifier_bind (Takes.expect_bind fun _ _ =>
    Takes.identifier_bind (Takes.node_bind fun _ => .pure rfl))

theorem Parser.fields_taken {stop : TokenKind} (hcomma : stop ≠ .comma) (hname : stop ≠ .identifier)
    (xs : List Field) : Takes (separated .comma (xs.map Field.words)) (· = stop) (fields stop)
      fun found => found.map Field.bare = xs.map Field.bare :=
  commaSeparated_taken hcomma xs (fun _ _ => ⟨_, _, rfl, hname.symm⟩)
    fun x _ => x.taken.before fun _ _ => trivial

theorem TypeExp.taken (definition : TypeExp) :
    Takes definition.words anything (typeExp .tiger)
      fun definition' => definition'.bare = definition.bare := by
  cases definition with
  | name span target =>
    refine Takes.kind_cons (Takes.expect_bind fun token hword => .pure ?_)
    obtain ⟨-, rfl⟩ := Prod.mk.inj hword
    rfl
  | record span xs =>
    refine Takes.kind_cons (Takes.advance_bind fun _ _ => ?_)
    refine (fields_taken (by decide) (by decide) xs).bind
      (fun xs' hxs' => Takes.expect_bind fun _ _ => ?_) rfl
    refine Takes.look_bind fun _ => .pure ?_
    rw [bare, bare, hxs']
  | array span element =>
    exact Takes.kind_cons (Takes.advance_bind fun _ _ => Takes.expect_bind fun _ _ =>
      Takes.identifier_bind (Takes.look_bind fun _ => .pure rfl))

theorem Parser.annotation?_taken (typeName : Option String) (context : String) :
    Takes (ascribed typeName) (· ≠ .colon) (annotation? context) (· = typeName) := by
  cases typeName with
  | none =>
    refine Takes.kind_nil fun kind hkind => ?_
    rw [if_neg hkind]
    exact .pure rfl
  | some typeName =>
    refine Takes.kind_cons ?_
    rw [fixed_fst, if_pos rfl]
    exact Takes.advance_bind fun _ _ => Takes.identifier_bind (.pure rfl)

def Dec.words (d : Dec) : List Word := Dec.wordsList [d]

def Dec.bare : Dec → Dec
  | .var _ name typeName init => .var default name typeName init.bare
  | .type _ name definition => .type default name definition.bare
  | .function _ name params result body =>
    .function default name (params.map Field.bare) result body.bare

theorem Dec.wordsList_eq_flatMap (decs : List Dec) : Dec.wordsList decs = decs.flatMap Dec.words := by
  induction decs with
  | nil => rfl
  | cons d decs ih =>
    rw [List.flatMap_cons, ← ih, words]
    cases d <;> simp [wordsList]

theorem Dec.bareList_eq_map (decs : List Dec) : Dec.bareList decs = decs.map Dec.bare := by
  induction decs with
  | nil => rfl
  | cons d decs ih => cases d <;> rw [bareList, ih, List.map_cons, bare]

def Dec.Taken (d : Dec) : Prop :=
  ∃ form word words, d.words = word :: words ∧ Grammar.tiger.declaration word.1 = some form ∧
    Takes (word :: words) (fun kind => Grammar.tiger.joining kind = none)
      (dec .tiger (expression .tiger) form) fun d' => d'.bare = d.bare

theorem Dec.taken_type (node : Node) (name : String) (definition : TypeExp) :
    (Dec.type node name definition).Taken := by
  refine ⟨.type, _, _, rfl, rfl, Takes.advance_bind fun _ _ => Takes.identifier_bind ?_⟩
  refine Takes.expect_bind fun _ _ => definition.taken.bind (fun definition' hdefinition' => ?_)
    (leads_anything _ _)
  refine Takes.node_bind fun _ => .pure ?_
  rw [bare, bare, hdefinition']

theorem Dec.taken_var {init : Exp} (node : Node) (name : String) (typeName : Option String)
    (h : init.Taken) : (Dec.var node name typeName init).Taken := by
  refine ⟨.var, _, _, rfl, rfl, Takes.advance_bind fun _ _ => Takes.identifier_bind ?_⟩
  refine (annotation?_taken typeName _).bind ?_ (show TokenKind.assignment ≠ .colon by decide)
  rintro _ rfl
  refine Takes.expect_bind fun _ _ => h.lowest.bind (fun init' hinit' => ?_) fun _ hkind => hkind
  refine Takes.node_bind fun _ => .pure ?_
  rw [bare, bare, hinit']

theorem Dec.taken_function {body : Exp} (node : Node) (name : String) (params : List Field)
    (result : Option String) (h : body.Taken) :
    (Dec.function node name params result body).Taken := by
  refine ⟨.function, _, _, rfl, rfl, Takes.advance_bind fun _ _ => Takes.identifier_bind ?_⟩
  refine Takes.expect_bind fun _ _ => ?_
  refine (fields_taken (by decide) (by decide) params).bind (fun params' hparams' => ?_) rfl
  refine Takes.expect_bind fun _ _ => ?_
  refine (annotation?_taken result _).bind ?_ (show TokenKind.equals ≠ .colon by decide)
  rintro _ rfl
  refine Takes.expect_bind fun _ _ => h.lowest.bind (fun body' hbody' => ?_) fun _ hkind => hkind
  refine Takes.node_bind fun _ => .pure ?_
  rw [bare, bare, hparams', hbody']

def Parser.decsRound (exp : Power → Parser Exp) (decs : List Dec) :
    Parser (Round (List Dec) (List Dec)) := do
  match Grammar.tiger.declaration (← kind) with
  | none => return .done decs
  | some form =>
    let next ← dec .tiger exp form
    return .again (decs ++ [next])

theorem Parser.decs_taken (ds : List Dec) (h : ∀ d ∈ ds, d.Taken) :
    Takes (ds.flatMap Dec.words) (· = .inWord) (decs .tiger (expression .tiger))
      fun found => found.map Dec.bare = ds.map Dec.bare := by
  suffices hfound : ∀ before, Takes (ds.flatMap Dec.words) (· = .inWord)
      (loop (decsRound (expression .tiger)) before)
      fun found => found.map Dec.bare = before.map Dec.bare ++ ds.map Dec.bare from hfound []
  induction ds with
  | nil =>
    intro before
    refine Takes.loop_done (Takes.kind_nil fun kind hkind => ?_)
    subst hkind
    exact .pure ⟨before, rfl, by simp⟩
  | cons d ds ih =>
    intro before
    obtain ⟨form, word, words, hwords, hform, htaken⟩ := h d List.mem_cons_self
    have hrest := ih fun d' hd' => h d' (List.mem_cons_of_mem _ hd')
    have hround : Takes (word :: words) (fun kind => Grammar.tiger.joining kind = none)
        (decsRound (expression .tiger) before)
        fun r => ∃ next, r = .again next ∧ ∃ d' : Dec, d'.bare = d.bare ∧ next = before ++ [d'] := by
      apply Takes.kind_cons
      rw [hform]
      exact htaken.andThen (fun d' hd' => .pure ⟨_, rfl, d', hd', rfl⟩) fun _ hkind => hkind
    rw [List.flatMap_cons, hwords]
    refine hround.loop_again (by simp) ?_ ?_
    · rintro next ⟨d', hd', rfl⟩
      refine (hrest (before ++ [d'])).imp fun found hfound => ?_
      rw [hfound]
      simp [hd']
    · cases ds with
      | nil => exact fun _ hkind => hkind ▸ rfl
      | cons d' ds =>
        obtain ⟨form', word', words', hwords', hform', -⟩ := h d' (by simp)
        rw [List.flatMap_cons, hwords']
        -- No word opens a declaration and joins expressions.
        have hnone : ∀ kind, Grammar.tiger.declaration kind = some form' →
            Grammar.tiger.joining kind = none := by
          intro kind hkind
          cases kind <;> first | rfl | cases hkind
        exact hnone _ hform'

theorem Exp.taken_letIn {decs : List Dec} {body : Exp} (node : Node) (hdecs : ∀ d ∈ decs, d.Taken)
    (hbody : body.Taken) : (Exp.letIn node decs body).Taken := by
  refine .of_form rfl rfl (Takes.advance_bind fun _ _ => ?_)
  rw [Dec.wordsList_eq_flatMap]
  refine (decs_taken decs hdecs).bind (fun decs' hdecs' => Takes.expect_bind fun _ _ => ?_) rfl
  refine Takes.look_bind fun _ => ?_
  have hbody' : Takes body.written (· = .endWord) (expression .tiger .lowest)
      fun body' => body'.bare = body.bare := hbody.lowest.before fun _ hkind => hkind ▸ rfl
  refine (sequence_single hbody' (by decide) (by decide)).bind ?_ rfl
  rintro _ ⟨body', rfl, hbody'⟩
  simp only [block, pure_bind]
  refine Takes.expect_bind fun _ _ => Takes.node_bind fun _ => .pure ?_
  rw [Exp.bare, Exp.bare, Dec.bareList_eq_map, Dec.bareList_eq_map, hdecs', hbody']

end declarations

mutual

theorem Exp.taken : (e : Exp) → e.Writable → e.Taken
  | .nil node, _ => Exp.taken_nil node
  | .int node _, h => Exp.taken_int node h
  | .str node value, _ => Exp.taken_str node value
  | .var node target, h => Exp.taken_var node (target.taken h)
  | .call node function args, h => Exp.taken_call node function (Exp.takenList args h)
  | .binary node op left right, h => Exp.taken_binary node op (left.taken h.1) (right.taken h.2)
  | .record node typeName fields, h => Exp.taken_record node typeName (FieldExp.takenList fields h)
  | .seq node exps, h => Exp.taken_seq node h.1 (Exp.takenList exps h.2)
  | .assign node target value, h => Exp.taken_assign node (target.taken h.1) (value.taken h.2)
  | .ifThen node test body, h => Exp.taken_ifThen node (test.taken h.1) (body.taken h.2)
  | .ifThenElse node test yes no, h =>
    Exp.taken_ifThenElse node (test.taken h.1) (yes.taken h.2.1) (no.taken h.2.2)
  | .whileDo node test body, h => Exp.taken_whileDo node (test.taken h.1) (body.taken h.2)
  | .forTo node name lo hi body, h =>
    Exp.taken_forTo node name (lo.taken h.1) (hi.taken h.2.1) (body.taken h.2.2)
  | .breakLoop node, _ => Exp.taken_breakLoop node
  | .letIn node decs body, h => Exp.taken_letIn node (Dec.takenList decs h.1) (body.taken h.2)
  | .array node typeName size init, h =>
    Exp.taken_array node typeName (size.taken h.1) (init.taken h.2)

theorem Var.taken : (v : Var) → v.Writable → v.Taken
  | .simple node name, _ => Var.taken_simple node name
  | .field node base name, h => Var.taken_field node name (base.taken h)
  | .subscript node base place, h => Var.taken_subscript node (base.taken h.1) (place.taken h.2)

theorem Exp.takenList : (es : List Exp) → Exp.WritableList es → ∀ e ∈ es, e.Taken
  | [], _ => nofun
  | e :: es, h => List.forall_mem_cons.mpr ⟨e.taken h.1, Exp.takenList es h.2⟩

theorem FieldExp.takenList : (fields : List FieldExp) → FieldExp.WritableList fields →
    ∀ field ∈ fields, field.value.Taken
  | [], _ => nofun
  | .mk _ _ value :: fields, h =>
    List.forall_mem_cons.mpr ⟨value.taken h.1, FieldExp.takenList fields h.2⟩

theorem Dec.takenList : (decs : List Dec) → Dec.WritableList decs → ∀ d ∈ decs, d.Taken
  | [], _ => nofun
  | .var node name typeName init :: decs, h => List.forall_mem_cons.mpr
    ⟨Dec.taken_var node name typeName (init.taken h.1), Dec.takenList decs h.2⟩
  | .type node name definition :: decs, h => List.forall_mem_cons.mpr
    ⟨Dec.taken_type node name definition, Dec.takenList decs h⟩
  | .function node name params result body :: decs, h => List.forall_mem_cons.mpr
    ⟨Dec.taken_function node name params result (body.taken h.1), Dec.takenList decs h.2⟩

end

theorem Parser.program_taken {e : Exp} (h : e.Taken) :
    Takes e.written (· = .eof) program fun e' => e'.bare = e.bare := by
  refine h.lowest.andThen (fun e' he' => Takes.kind_nil fun kind hkind => ?_)
    fun _ hkind => hkind ▸ rfl
  rw [if_pos hkind]
  exact .pure he'

theorem Cursor.ahead_ofTokens (file : String) {tokens : List Token} {last : Token}
    (hlast : tokens.getLast? = some last) (heof : last.kind ≠ .eof) :
    (ofTokens file tokens).ahead = tokens ++ [Token.atEnd last.span.stop] := by
  cases tokens with
  | nil => cases hlast
  | cons token tokens =>
    rw [List.getLast?_cons, Option.some.injEq] at hlast
    have hclose : closeAfter token tokens = tokens ++ [Token.atEnd last.span.stop] := by
      rw [closeAfter, List.getLastD_eq_getLast?, hlast, if_neg heof]
    exact congrArg (token :: ·) hclose

/-- A program that can be written down is read back from its written form, whatever the places of
the tokens. -/
theorem parse_written (file : String) (e : Exp) (hwritable : e.Writable) (tokens : List Token)
    (htokens : tokens.map Token.word = e.written) :
    ∃ e', (parse file tokens).1 = .ok e' ∧ e'.bare = e.bare := by
  have hlast : ∃ last, tokens.getLast? = some last ∧ last.kind ≠ .eof := by
    have hword : (tokens.map Token.word).getLast? = some (fixed .closeParen) := by
      rw [htokens, Exp.written, enclosed, ← List.cons_append, List.getLast?_concat]
    rw [List.getLast?_map] at hword
    obtain ⟨last, hlast, hclose⟩ := Option.map_eq_some_iff.mp hword
    refine ⟨last, hlast, ?_⟩
    rw [(Prod.mk.inj hclose).1]
    decide
  obtain ⟨last, hlast, heof⟩ := hlast
  have hahead := Cursor.ahead_ofTokens file hlast heof
  obtain ⟨e', s, hrun, -, he'⟩ := Parser.program_taken (e.taken hwritable) _ tokens _ hahead htokens
    ⟨_, _, rfl, rfl⟩
  exact ⟨e', congrArg Prod.fst hrun, he'⟩

def everyForm : Exp :=
  let l : Var := .simple default "l"
  let item : Var := .subscript default (.field default l "row") (.int default 0)
  .letIn default
    [.type default "row" (.array default "int"),
      .type default "list" (.record default [⟨default, "row", "row"⟩, ⟨default, "tail", "list"⟩]),
      .type default "alias" (.name default "list"),
      .var default "l" (some "list") (.nil default),
      .var default "r" none (.array default "row" (.int default 9223372036854775807) (.int default 0)),
      .function default "f" [⟨default, "l", "alias"⟩, ⟨default, "n", "int"⟩] (some "int")
        (.ifThenElse default (.binary default .neq (.var default l) (.nil default))
          (.call default "f" [.var default (.field default l "tail"), .var default item])
          (.int default 0))]
    (.seq default
      [.forTo default "i" (.int default 0) (.int default 2) (.assign default item (.int default 1)),
        .whileDo default (.int default 1) (.ifThen default (.int default 1) (.breakLoop default)),
        .record default "list" [.mk default "row" (.var default (.simple default "r")),
          .mk default "tail" (.nil default)],
        .call default "print" [.str default "done"], .call default "flush" [], .seq default []])

theorem parse_written_everyForm : everyForm.Writable ∧ ∃ e,
    (parse "all.tig" (unplaced everyForm.written)).1 = .ok e ∧ e.bare = everyForm.bare := by
  have hwritable : everyForm.Writable := by
    simp [everyForm, Exp.Writable, Var.Writable, Exp.WritableList, FieldExp.WritableList,
      Dec.WritableList]
  exact ⟨hwritable, parse_written "all.tig" everyForm hwritable _ (map_word_unplaced _)⟩

end TigerLang

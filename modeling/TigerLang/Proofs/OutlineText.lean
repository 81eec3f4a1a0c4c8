import TigerLang.Proofs.Lexicon
import TigerLang.Proofs.Phrases
import TigerLang.Proofs.Shown
import TigerLang.Proofs.Spelling
import TigerLang.Tree.Outline

/-! What the outline of a program tells about it. Every phrase has a line, under which stand the lines
of its children, one step further in. The text gives back the lines, and the lines the program,
apart from the numbers and the places of its nodes. -/

namespace TigerLang

/-! Lines -/

namespace OutlineLine

structure Plain (line : OutlineLine) : Prop where
  start : line.label.toList.head? ≠ some ' '
  inLine : '\n' ∉ line.label.toList

theorem replicate_append_inj {α : Type} {a : α} {m n : Nat} {xs ys : List α}
    (hxs : xs.head? ≠ some a) (hys : ys.head? ≠ some a)
    (h : List.replicate m a ++ xs = List.replicate n a ++ ys) : m = n ∧ xs = ys := by
  induction m generalizing n with
  | zero =>
    cases n with
    | zero => exact ⟨rfl, h⟩
    | succ n =>
      obtain rfl : xs = a :: (List.replicate n a ++ ys) := h
      exact absurd rfl hxs
  | succ m ih =>
    cases n with
    | zero =>
      obtain rfl : a :: (List.replicate m a ++ xs) = ys := h
      exact absurd rfl hys
    | succ n =>
      obtain ⟨rfl, hrest⟩ := ih (List.cons.inj h).2
      exact ⟨rfl, hrest⟩

theorem text_append_inj {line line' : OutlineLine} (h : line.Plain) (h' : line'.Plain)
    {rest rest' : List Char} (heq : line.text.toList ++ rest = line'.text.toList ++ rest') :
    line = line' ∧ rest = rest' := by
  obtain ⟨depth, label⟩ := line
  obtain ⟨depth', label'⟩ := line'
  have hblank : ∀ n, '\n' ∉ List.replicate n ' ' := by simp
  have hsplit : (List.replicate (2 * depth) ' ' ++ label.toList) ++ '\n' :: rest =
      (List.replicate (2 * depth') ' ' ++ label'.toList) ++ '\n' :: rest' := by
    simpa [text] using heq
  have hbefore : ∀ n, ∀ l : OutlineLine, l.Plain →
      '\n' ∉ List.replicate n ' ' ++ l.label.toList := fun n l hl hmem =>
    (List.mem_append.mp hmem).elim (hblank n) hl.inLine
  obtain ⟨hline, hrest⟩ := Text.append_cons_inj_of_notMem (hbefore _ _ h) (hbefore _ _ h') hsplit
  obtain ⟨hdepth, hlabel⟩ := replicate_append_inj h.start h'.start hline
  obtain rfl : depth = depth' := by omega
  obtain rfl : label = label' := String.toList_inj.mp hlabel
  exact ⟨rfl, hrest⟩

theorem join_text_inj {lines lines' : List OutlineLine} (h : ∀ line ∈ lines, line.Plain)
    (h' : ∀ line ∈ lines', line.Plain)
    (heq : String.join (lines.map text) = String.join (lines'.map text)) : lines = lines' := by
  have hchars : lines.flatMap (·.text.toList) = lines'.flatMap (·.text.toList) := by
    have hlists := congrArg String.toList heq
    simpa only [String.toList_join, List.flatMap_map] using hlists
  clear heq
  have hne : ∀ line : OutlineLine, line.text.toList ≠ [] := by simp [text]
  induction lines generalizing lines' with
  | nil =>
    cases lines' with
    | nil => rfl
    | cons line' lines' => simp [hne] at hchars
  | cons line lines ih =>
    cases lines' with
    | nil => simp [hne] at hchars
    | cons line' lines' =>
      obtain ⟨hline, hlines⟩ := List.forall_mem_cons.mp h
      obtain ⟨hline', hlines'⟩ := List.forall_mem_cons.mp h'
      obtain ⟨rfl, hrest⟩ := text_append_inj hline hline' hchars
      rw [ih hlines hlines' hrest]

end OutlineLine

/-! Names -/

def IsName (name : String) : Prop := Lexeme.isWord name.toList = true

theorem IsName.notMem {name : String} (h : IsName name) {c : Char}
    (hc : Lexeme.isWordRest c = false) : c ∉ name.toList := by
  intro hmem
  have hrest : Lexeme.isWordRest c = true := by
    unfold IsName at h
    cases hlist : name.toList with
    | nil =>
      rw [hlist] at hmem
      cases hmem
    | cons first chars =>
      rw [hlist] at h hmem
      simp only [Lexeme.isWord, Bool.and_eq_true, List.all_eq_true] at h
      rcases List.mem_cons.mp hmem with rfl | hmem
      · simp [Lexeme.isWordRest, Char.isAlphanum, h.1]
      · exact h.2 c hmem
  rw [hc] at hrest
  cases hrest

theorem toList_typedName_some (name type : String) :
    (typedName name (some type)).toList = name.toList ++ ':' :: ' ' :: type.toList := by
  simp [typedName]

theorem typedName_inj {name name' : String} {type type' : Option String} (h : IsName name)
    (h' : IsName name') (heq : typedName name type = typedName name' type') :
    name = name' ∧ type = type' := by
  have hcolon : ∀ {n m t : String}, IsName n → n ≠ typedName m (some t) := by
    intro n m t hn hnm
    apply hn.notMem (c := ':') rfl
    rw [hnm, toList_typedName_some]
    exact List.mem_append_right _ List.mem_cons_self
  cases type with
  | none =>
    cases type' with
    | none => exact ⟨heq, rfl⟩
    | some type' => exact absurd heq (hcolon h)
  | some type =>
    cases type' with
    | none => exact absurd heq.symm (hcolon h')
    | some type' =>
      have hlists := congrArg String.toList heq
      rw [toList_typedName_some, toList_typedName_some] at hlists
      obtain ⟨hname, htype⟩ :=
        Text.append_cons_inj_of_notMem (h.notMem rfl) (h'.notMem rfl) hlists
      rw [String.toList_inj.mp hname, String.toList_inj.mp (List.cons.inj htype).2]
      exact ⟨rfl, rfl⟩

theorem newline_notMem_typedName {name : String} {type : Option String} (h : IsName name)
    (htype : ∀ t ∈ type, IsName t) : '\n' ∉ (typedName name type).toList := by
  cases type with
  | none => exact h.notMem rfl
  | some type =>
    rw [toList_typedName_some]
    intro hmem
    rcases List.mem_append.mp hmem with hmem | hmem
    · exact h.notMem rfl hmem
    · have hend : '\n' ∈ type.toList := by simpa using hmem
      exact (htype type rfl).notMem rfl hend

theorem Operator.symbol_injective : Function.Injective Operator.symbol := by
  intro op op' h
  cases op <;> cases op' <;> simp [Operator.symbol] at h ⊢

/-! Phrases and their lines -/

namespace Phrase

def outline (depth : Nat) : Phrase → List OutlineLine
  | exp e => e.outline depth
  | var v => v.outline depth
  | dec d => Dec.outlineList depth [d]
  | field f => [f.outline depth]
  | fieldExp f => FieldExp.outlineList depth [f]
  | typeExp t => t.outline depth

@[simp] theorem outline_exp (depth : Nat) (e : Exp) : outline depth (exp e) = e.outline depth := rfl

@[simp] theorem outline_var (depth : Nat) (v : Var) : outline depth (var v) = v.outline depth := rfl

@[simp] theorem outline_typeExp (depth : Nat) (t : TypeExp) :
    outline depth (typeExp t) = t.outline depth := rfl

theorem outlineList_exps (depth : Nat) (es : List Exp) :
    Exp.outlineList depth es = (es.map exp).flatMap (outline depth) := by
  induction es with
  | nil => rfl
  | cons e es ih => rw [Exp.outlineList, ih, List.map_cons, List.flatMap_cons, outline_exp]

theorem outlineList_decs (depth : Nat) (decs : List Dec) :
    Dec.outlineList depth decs = (decs.map dec).flatMap (outline depth) := by
  induction decs with
  | nil => rfl
  | cons d decs ih =>
    rw [List.map_cons, List.flatMap_cons, ← ih]
    cases d <;> simp [outline, Dec.outlineList]

theorem outlineList_fieldExps (depth : Nat) (fields : List FieldExp) :
    FieldExp.outlineList depth fields = (fields.map fieldExp).flatMap (outline depth) := by
  induction fields with
  | nil => rfl
  | cons f fields ih =>
    obtain ⟨span, name, value⟩ := f
    rw [List.map_cons, List.flatMap_cons, ← ih]
    simp [outline, FieldExp.outlineList]

theorem outline_fields (depth : Nat) (fields : List Field) :
    fields.map (Field.outline depth) = (fields.map field).flatMap (outline depth) := by
  rw [List.flatMap_map, List.map_eq_flatMap]
  rfl

def word : Phrase → String
  | exp (.nil _) => "NilExp"
  | exp (.int _ _) => "IntExp "
  | exp (.str _ _) => "StringExp "
  | exp (.var _ _) => "VarExp"
  | exp (.call _ _ _) => "CallExp "
  | exp (.binary _ _ _ _) => "BinaryExp "
  | exp (.record _ _ _) => "RecordExp "
  | exp (.seq _ _) => "SequenceExp"
  | exp (.assign _ _ _) => "AssignExp"
  | exp (.ifThen _ _ _) | exp (.ifThenElse _ _ _ _) => "IfExp"
  | exp (.whileDo _ _ _) => "WhileExp"
  | exp (.forTo _ _ _ _ _) => "ForExp "
  | exp (.breakLoop _) => "BreakExp"
  | exp (.letIn _ _ _) => "LetExp"
  | exp (.array _ _ _ _) => "ArrayExp "
  | var (.simple _ _) => "SimpleVar "
  | var (.field _ _ _) => "FieldVar "
  | var (.subscript _ _ _) => "SubscriptVar"
  | dec (.var _ _ _ _) => "VarDec "
  | dec (.type _ _ _) => "TypeDec "
  | dec (.function _ _ _ _ _) => "FunctionDec "
  | field _ | fieldExp _ => "Field "
  | typeExp (.name _ _) => "NameType "
  | typeExp (.record _ _) => "RecordType"
  | typeExp (.array _ _) => "ArrayType "

def detail : Phrase → String
  | exp (.int _ value) => Text.showInt64 value
  | exp (.str _ value) => Text.quoted value
  | exp (.call _ function _) => function
  | exp (.binary _ op _ _) => op.symbol
  | exp (.record _ typeName _) => typeName
  | exp (.forTo _ name _ _ _) => name
  | exp (.array _ typeName _ _) => typeName
  | exp _ => ""
  | var (.simple _ name) => name
  | var (.field _ _ name) => name
  | var (.subscript _ _ _) => ""
  | dec (.var _ name typeName _) => typedName name typeName
  | dec (.type _ name _) => name
  | dec (.function _ name _ result _) => typedName name result
  | field f => typedName f.name f.typeName
  | fieldExp f => f.name
  | typeExp (.name _ target) => target
  | typeExp (.record _ _) => ""
  | typeExp (.array _ element) => element

def label (p : Phrase) : String := p.word ++ p.detail

theorem outline_eq (p : Phrase) (depth : Nat) :
    p.outline depth = ⟨depth, p.label⟩ :: p.children.flatMap (outline (depth + 1)) := by
  match p with
  | exp e =>
    cases e <;> simp [label, word, detail, Exp.outline, outlineList_exps, outlineList_decs,
      outlineList_fieldExps]
  | var v => cases v <;> simp [label, word, detail, Var.outline]
  | dec d =>
    rw [outline]
    cases d <;> simp [label, word, detail, Dec.outlineList, outline_fields]
  | field f => rfl
  | fieldExp f =>
    obtain ⟨span, name, value⟩ := f
    rw [outline]
    simp [label, word, detail, FieldExp.outlineList, FieldExp.name, FieldExp.value]
  | typeExp t => cases t <;> simp [label, word, detail, TypeExp.outline, outline_fields]

def names : Phrase → List String
  | exp (.call _ function _) => [function]
  | exp (.record _ typeName _) => [typeName]
  | exp (.forTo _ name _ _ _) => [name]
  | exp (.array _ typeName _ _) => [typeName]
  | exp _ => []
  | var (.simple _ name) => [name]
  | var (.field _ _ name) => [name]
  | var (.subscript _ _ _) => []
  | dec (.var _ name typeName _) => name :: typeName.toList
  | dec (.type _ name _) => [name]
  | dec (.function _ name _ result _) => name :: result.toList
  | field f => [f.name, f.typeName]
  | fieldExp f => [f.name]
  | typeExp (.name _ target) => [target]
  | typeExp (.record _ _) => []
  | typeExp (.array _ element) => [element]

def Named (p : Phrase) : Prop := ∀ q : Phrase, q.Inside p → ∀ name ∈ q.names, IsName name

theorem Named.own {p : Phrase} (h : p.Named) : ∀ name ∈ p.names, IsName name := h p .refl

theorem Named.child {p c : Phrase} (h : p.Named) (hc : c ∈ p.children) : c.Named :=
  fun q hq => h q (hq.tail hc)

theorem newline_notMem_detail {p : Phrase} (h : ∀ name ∈ p.names, IsName name) :
    '\n' ∉ p.detail.toList := by
  have hname : ∀ {name : String}, IsName name → '\n' ∉ name.toList := fun h => h.notMem rfl
  match p with
  | exp e =>
    cases e with
    | int node value => exact Text.newline_notMem_showInt64 value
    | str node value => exact Text.newline_notMem_quoted value
    | binary node op left right => cases op <;> simp [detail, Operator.symbol]
    | call | record | forTo | array => exact hname (h _ List.mem_cons_self)
    | _ => simp [detail]
  | var v =>
    cases v with
    | simple | field => exact hname (h _ List.mem_cons_self)
    | subscript => simp [detail]
  | dec d =>
    cases d with
    | var node name typeName init =>
      exact newline_notMem_typedName (h _ List.mem_cons_self) fun t ht =>
        h t (List.mem_cons_of_mem _ (Option.mem_toList.mpr ht))
    | type node name definition => exact hname (h _ List.mem_cons_self)
    | function node name params result body =>
      exact newline_notMem_typedName (h _ List.mem_cons_self) fun t ht =>
        h t (List.mem_cons_of_mem _ (Option.mem_toList.mpr ht))
  | field f =>
    refine newline_notMem_typedName (h _ List.mem_cons_self) fun t ht => ?_
    obtain rfl := Option.some.inj ht
    exact h _ (by simp [names])
  | fieldExp f => exact hname (h _ List.mem_cons_self)
  | typeExp t =>
    cases t with
    | name | array => exact hname (h _ List.mem_cons_self)
    | record => simp [detail]

def words : List String :=
  ["NilExp", "IntExp ", "StringExp ", "VarExp", "CallExp ", "BinaryExp ", "RecordExp ",
    "SequenceExp", "AssignExp", "IfExp", "WhileExp", "ForExp ", "BreakExp", "LetExp", "ArrayExp ",
    "SimpleVar ", "FieldVar ", "SubscriptVar", "VarDec ", "TypeDec ", "FunctionDec ", "Field ",
    "NameType ", "RecordType", "ArrayType "]

theorem word_mem_words (p : Phrase) : p.word ∈ words := by
  match p with
  | exp e => cases e <;> simp [word, words]
  | var v => cases v <;> simp [word, words]
  | dec d => cases d <;> simp [word, words]
  | field f => simp [word, words]
  | fieldExp f => simp [word, words]
  | typeExp t => cases t <;> simp [word, words]

def stem (label : String) : List Char := label.toList.takeWhile (· ≠ ' ')

theorem stem_label (p : Phrase) : stem p.label = stem p.word := by
  match p with
  | exp e => cases e <;> simp [stem, label, word, detail]
  | var v => cases v <;> simp [stem, label, word, detail]
  | dec d => cases d <;> simp [stem, label, word, detail]
  | field f => simp [stem, label, word]
  | fieldExp f => simp [stem, label, word]
  | typeExp t => cases t <;> simp [stem, label, word, detail]

theorem word_detail_of_label {p p' : Phrase} (h : p.label = p'.label) :
    p.word = p'.word ∧ p.detail = p'.detail := by
  have hstems : ∀ w ∈ words, ∀ w' ∈ words, stem w = stem w' → w = w' := by decide +kernel
  have hword : p.word = p'.word := by
    apply hstems _ p.word_mem_words _ p'.word_mem_words
    rw [← stem_label, ← stem_label, h]
  rw [label, label, hword] at h
  exact ⟨hword, (String.append_right_inj _).mp h⟩

theorem label_plain {p : Phrase} (h : ∀ name ∈ p.names, IsName name) (depth : Nat) :
    OutlineLine.Plain ⟨depth, p.label⟩ := by
  have hwords : ∀ w ∈ words, w.toList.head?.isSome ∧ w.toList.head? ≠ some ' ' ∧
      '\n' ∉ w.toList := by decide +kernel
  obtain ⟨hsome, hstart, hline⟩ := hwords _ p.word_mem_words
  constructor
  · change p.label.toList.head? ≠ some ' '
    rw [label, String.toList_append, List.head?_append, Option.or_of_isSome hsome]
    exact hstart
  · change '\n' ∉ p.label.toList
    rw [label, String.toList_append]
    exact fun hmem => (List.mem_append.mp hmem).elim hline (newline_notMem_detail h)

/-! From the lines to the phrase -/

/-- Induction from the children to the phrase, since they have fewer lines. -/
theorem outline_induction {P : Phrase → Nat → Prop}
    (h : ∀ p depth, (∀ c ∈ p.children, P c (depth + 1)) → P p depth) (p : Phrase) (depth : Nat) :
    P p depth := by
  induction hlength : (p.outline depth).length using Nat.strongRecOn generalizing p depth with
  | _ n ih =>
    refine h p depth fun c hc => ih _ ?_ c (depth + 1) rfl
    obtain ⟨before, after, hsplit⟩ := List.append_of_mem hc
    rw [← hlength, outline_eq p, hsplit, List.length_cons, List.flatMap_append, List.flatMap_cons,
      List.length_append, List.length_append]
    omega

theorem outline_plain (p : Phrase) (depth : Nat) :
    p.Named → ∀ line ∈ p.outline depth, line.Plain := by
  induction p, depth using outline_induction with
  | h p depth ih =>
    intro hp
    rw [outline_eq]
    refine List.forall_mem_cons.mpr ⟨label_plain hp.own depth, fun line hline => ?_⟩
    obtain ⟨c, hc, hline⟩ := List.mem_flatMap.mp hline
    exact ih c hc (hp.child hc) line hline

def bare : Phrase → Phrase
  | exp e => exp e.bare
  | var v => var v.bare
  | dec (.var _ name typeName init) => dec (.var default name typeName init.bare)
  | dec (.type _ name definition) => dec (.type default name definition.bare)
  | dec (.function _ name params result body) =>
    dec (.function default name (params.map Field.bare) result body.bare)
  | field f => field f.bare
  | fieldExp f => fieldExp (.mk default f.name f.value.bare)
  | typeExp t => typeExp t.bare

theorem bareList_exps {es es' : List Exp} (h : (es.map exp).map bare = (es'.map exp).map bare) :
    Exp.bareList es = Exp.bareList es' := by
  have hmap : ∀ es : List Exp, (es.map exp).map bare = (Exp.bareList es).map exp := by
    intro es
    induction es with
    | nil => rfl
    | cons e es ih => exact congrArg (exp e.bare :: ·) ih
  rw [hmap, hmap] at h
  exact (List.map_inj_right fun _ _ => exp.inj).mp h

theorem bareList_decs {decs decs' : List Dec}
    (h : (decs.map dec).map bare = (decs'.map dec).map bare) :
    Dec.bareList decs = Dec.bareList decs' := by
  have hmap : ∀ decs : List Dec, (decs.map dec).map bare = (Dec.bareList decs).map dec := by
    intro decs
    induction decs with
    | nil => rfl
    | cons d decs ih =>
      rw [List.map_cons, List.map_cons, ih]
      cases d <;> rfl
  rw [hmap, hmap] at h
  exact (List.map_inj_right fun _ _ => dec.inj).mp h

theorem bareList_fieldExps {fields fields' : List FieldExp}
    (h : (fields.map fieldExp).map bare = (fields'.map fieldExp).map bare) :
    FieldExp.bareList fields = FieldExp.bareList fields' := by
  have hmap : ∀ fields : List FieldExp,
      (fields.map fieldExp).map bare = (FieldExp.bareList fields).map fieldExp := by
    intro fields
    induction fields with
    | nil => rfl
    | cons f fields ih =>
      obtain ⟨span, name, value⟩ := f
      exact congrArg (fieldExp (.mk default name value.bare) :: ·) ih
  rw [hmap, hmap] at h
  exact (List.map_inj_right fun _ _ => fieldExp.inj).mp h

theorem bare_fields {fields fields' : List Field}
    (h : (fields.map field).map bare = (fields'.map field).map bare) :
    fields.map Field.bare = fields'.map Field.bare := by
  have hmap : ∀ fields : List Field,
      (fields.map field).map bare = (fields.map Field.bare).map field := by
    intro fields
    rw [List.map_map, List.map_map]
    rfl
  rw [hmap, hmap] at h
  exact (List.map_inj_right fun _ _ => field.inj).mp h

theorem bare_exp {e e' : Exp} (hword : (exp e).word = (exp e').word)
    (hdetail : (exp e).detail = (exp e').detail)
    (hchildren : (exp e).children.map bare = (exp e').children.map bare) : e.bare = e'.bare := by
  cases e with
  | nil node =>
    cases e' with
    | nil node' => rfl
    | _ => simp [word] at hword
  | int node value =>
    cases e' with
    | int node' value' => exact congrArg (Exp.int default) (Text.showInt64_injective hdetail)
    | _ => simp [word] at hword
  | str node value =>
    cases e' with
    | str node' value' => exact congrArg (Exp.str default) (Text.quoted_injective hdetail)
    | _ => simp [word] at hword
  | var node target =>
    cases e' with
    | var node' target' => simpa [bare] using hchildren
    | _ => simp [word] at hword
  | call node function args =>
    cases e' with
    | call node' function' args' =>
      obtain rfl : function = function' := hdetail
      exact congrArg (Exp.call default function) (bareList_exps hchildren)
    | _ => simp [word] at hword
  | binary node op left right =>
    cases e' with
    | binary node' op' left' right' =>
      obtain rfl := Operator.symbol_injective hdetail
      simpa [bare] using hchildren
    | _ => simp [word] at hword
  | record node typeName fields =>
    cases e' with
    | record node' typeName' fields' =>
      obtain rfl : typeName = typeName' := hdetail
      exact congrArg (Exp.record default typeName) (bareList_fieldExps hchildren)
    | _ => simp [word] at hword
  | seq node exps =>
    cases e' with
    | seq node' exps' => exact congrArg (Exp.seq default) (bareList_exps hchildren)
    | _ => simp [word] at hword
  | assign node target value =>
    cases e' with
    | assign node' target' value' => simpa [bare] using hchildren
    | _ => simp [word] at hword
  | ifThen node test body =>
    cases e' with
    | ifThen node' test' body' => simpa [bare] using hchildren
    | ifThenElse node' test' yes' no' => simp at hchildren
    | _ => simp [word] at hword
  | ifThenElse node test yes no =>
    cases e' with
    | ifThen node' test' body' => simp at hchildren
    | ifThenElse node' test' yes' no' => simpa [bare] using hchildren
    | _ => simp [word] at hword
  | whileDo node test body =>
    cases e' with
    | whileDo node' test' body' => simpa [bare] using hchildren
    | _ => simp [word] at hword
  | forTo node name lo hi body =>
    cases e' with
    | forTo node' name' lo' hi' body' =>
      obtain rfl : name = name' := hdetail
      simpa [bare] using hchildren
    | _ => simp [word] at hword
  | breakLoop node =>
    cases e' with
    | breakLoop node' => rfl
    | _ => simp [word] at hword
  | letIn node decs body =>
    cases e' with
    | letIn node' decs' body' =>
      simp only [children, Exp.children, List.map_append] at hchildren
      obtain ⟨hdecs, hbody⟩ := List.append_inj' hchildren rfl
      have hbody : body.bare = body'.bare := by simpa [bare] using hbody
      rw [Exp.bare, Exp.bare, bareList_decs hdecs, hbody]
    | _ => simp [word] at hword
  | array node typeName size init =>
    cases e' with
    | array node' typeName' size' init' =>
      obtain rfl : typeName = typeName' := hdetail
      simpa [bare] using hchildren
    | _ => simp [word] at hword

theorem bare_var {v v' : Var} (hword : (var v).word = (var v').word)
    (hdetail : (var v).detail = (var v').detail)
    (hchildren : (var v).children.map bare = (var v').children.map bare) : v.bare = v'.bare := by
  cases v with
  | simple node name =>
    cases v' with
    | simple node' name' => exact congrArg (Var.simple default) hdetail
    | _ => simp [word] at hword
  | field node base name =>
    cases v' with
    | field node' base' name' =>
      obtain rfl : name = name' := hdetail
      simpa [bare] using hchildren
    | _ => simp [word] at hword
  | subscript node base index =>
    cases v' with
    | subscript node' base' index' => simpa [bare] using hchildren
    | _ => simp [word] at hword

theorem bare_typeExp {t t' : TypeExp} (hword : (typeExp t).word = (typeExp t').word)
    (hdetail : (typeExp t).detail = (typeExp t').detail)
    (hchildren : (typeExp t).children.map bare = (typeExp t').children.map bare) :
    t.bare = t'.bare := by
  cases t with
  | name span target =>
    cases t' with
    | name span' target' => exact congrArg (TypeExp.name default) hdetail
    | _ => simp [word] at hword
  | record span fields =>
    cases t' with
    | record span' fields' => exact congrArg (TypeExp.record default) (bare_fields hchildren)
    | _ => simp [word] at hword
  | array span element =>
    cases t' with
    | array span' element' => exact congrArg (TypeExp.array default) hdetail
    | _ => simp [word] at hword

theorem bare_dec {d d' : Dec} (hd : ∀ name ∈ (dec d).names, IsName name)
    (hd' : ∀ name ∈ (dec d').names, IsName name) (hword : (dec d).word = (dec d').word)
    (hdetail : (dec d).detail = (dec d').detail)
    (hchildren : (dec d).children.map bare = (dec d').children.map bare) :
    (dec d).bare = (dec d').bare := by
  cases d with
  | var node name typeName init =>
    cases d' with
    | var node' name' typeName' init' =>
      obtain ⟨rfl, rfl⟩ :=
        typedName_inj (hd _ List.mem_cons_self) (hd' _ List.mem_cons_self) hdetail
      simpa [bare] using hchildren
    | _ => simp [word] at hword
  | type node name definition =>
    cases d' with
    | type node' name' definition' =>
      obtain rfl : name = name' := hdetail
      simpa [bare] using hchildren
    | _ => simp [word] at hword
  | function node name params result body =>
    cases d' with
    | function node' name' params' result' body' =>
      obtain ⟨rfl, rfl⟩ :=
        typedName_inj (hd _ List.mem_cons_self) (hd' _ List.mem_cons_self) hdetail
      simp only [children, Dec.children, List.map_append] at hchildren
      obtain ⟨hparams, hbody⟩ := List.append_inj' hchildren rfl
      have hbody : body.bare = body'.bare := by simpa [bare] using hbody
      rw [bare, bare, bare_fields hparams, hbody]
    | _ => simp [word] at hword

def ending : Phrase → List Char
  | exp _ => ['E', 'x', 'p']
  | var _ => ['V', 'a', 'r']
  | dec _ => ['D', 'e', 'c']
  | field _ | fieldExp _ => ['e', 'l', 'd']
  | typeExp _ => ['y', 'p', 'e']

theorem ending_word (p : Phrase) : p.ending = ((stem p.word).reverse.take 3).reverse := by
  match p with
  | exp e => cases e <;> simp [ending, stem, word]
  | var v => cases v <;> simp [ending, stem, word]
  | dec d => cases d <;> simp [ending, stem, word]
  | field f => simp [ending, stem, word]
  | fieldExp f => simp [ending, stem, word]
  | typeExp t => cases t <;> simp [ending, stem, word]

theorem bare_of_label {p p' : Phrase} (hp : ∀ name ∈ p.names, IsName name)
    (hp' : ∀ name ∈ p'.names, IsName name) (hlabel : p.label = p'.label)
    (hchildren : p.children.map bare = p'.children.map bare) : p.bare = p'.bare := by
  obtain ⟨hword, hdetail⟩ := word_detail_of_label hlabel
  have hending : p.ending = p'.ending := by rw [ending_word, ending_word, hword]
  cases p with
  | exp e =>
    cases p' with
    | exp e' => exact congrArg exp (bare_exp hword hdetail hchildren)
    | _ => simp [ending] at hending
  | var v =>
    cases p' with
    | var v' => exact congrArg var (bare_var hword hdetail hchildren)
    | _ => simp [ending] at hending
  | dec d =>
    cases p' with
    | dec d' => exact bare_dec hp hp' hword hdetail hchildren
    | _ => simp [ending] at hending
  | typeExp t =>
    cases p' with
    | typeExp t' => exact congrArg typeExp (bare_typeExp hword hdetail hchildren)
    | _ => simp [ending] at hending
  -- A field of a type has a colon in its line, and one that is given a value has none.
  | field f =>
    have hname : IsName f.name := hp _ List.mem_cons_self
    cases p' with
    | field f' =>
      have hsome : typedName f.name (some f.typeName) = typedName f'.name (some f'.typeName) := hdetail
      obtain ⟨hnames, htypes⟩ := typedName_inj hname (hp' _ List.mem_cons_self) hsome
      rw [bare, bare, Field.bare, Field.bare, hnames, Option.some.inj htypes]
    | fieldExp f' =>
      have hnone : typedName f.name (some f.typeName) = typedName f'.name none := hdetail
      cases (typedName_inj hname (hp' _ List.mem_cons_self) hnone).2
    | _ => simp [ending] at hending
  | fieldExp f =>
    have hname : IsName f.name := hp _ List.mem_cons_self
    cases p' with
    | fieldExp f' =>
      have hvalue : f.value.bare = f'.value.bare := by simpa [bare] using hchildren
      have hnames : f.name = f'.name := hdetail
      rw [bare, bare, hnames, hvalue]
    | field f' =>
      have hnone : typedName f.name none = typedName f'.name (some f'.typeName) := hdetail
      cases (typedName_inj hname (hp' _ List.mem_cons_self) hnone).2
    | _ => simp [ending] at hending

def Below (depth : Nat) (lines : List OutlineLine) : Prop := ∀ line ∈ lines.head?, line.depth ≤ depth

/-- The lines of the phrase at some depth, with others after them that go on no deeper, tell which
phrase it is and where its lines end. -/
def Determined (p : Phrase) (depth : Nat) : Prop :=
  ∀ {p' : Phrase} {rest rest' : List OutlineLine}, p.Named → p'.Named → Below depth rest →
    Below depth rest' → p.outline depth ++ rest = p'.outline depth ++ rest' →
    p.bare = p'.bare ∧ rest = rest'

theorem below_flatMap (ps : List Phrase) {depth : Nat} {rest : List OutlineLine}
    (hrest : Below depth rest) :
    Below (depth + 1) (ps.flatMap (outline (depth + 1)) ++ rest) := by
  intro line hline
  cases ps with
  | nil => exact Nat.le_succ_of_le (hrest line hline)
  | cons p ps =>
    rw [List.flatMap_cons, outline_eq] at hline
    obtain rfl := Option.some.inj hline
    exact Nat.le_refl _

theorem flatMap_outline_inj {ps ps' : List Phrase} {depth : Nat} {rest rest' : List OutlineLine}
    (hdetermined : ∀ p ∈ ps, p.Determined (depth + 1)) (hps : ∀ p ∈ ps, p.Named)
    (hps' : ∀ p ∈ ps', p.Named) (hrest : Below depth rest) (hrest' : Below depth rest')
    (h : ps.flatMap (outline (depth + 1)) ++ rest = ps'.flatMap (outline (depth + 1)) ++ rest') :
    ps.map bare = ps'.map bare ∧ rest = rest' := by
  have hdeeper : ∀ {q : Phrase} {qs : List Phrase} {rest rest' : List OutlineLine},
      Below depth rest → rest ≠ (q :: qs).flatMap (outline (depth + 1)) ++ rest' := by
    intro q qs rest rest' hrest heq
    rw [List.flatMap_cons, outline_eq] at heq
    have hle : depth + 1 ≤ depth := hrest ⟨depth + 1, q.label⟩ (by rw [heq]; rfl)
    omega
  induction ps generalizing ps' with
  | nil =>
    cases ps' with
    | nil => exact ⟨rfl, h⟩
    | cons p' ps' => exact absurd h (hdeeper hrest)
  | cons p ps ih =>
    cases ps' with
    | nil => exact absurd h.symm (hdeeper hrest')
    | cons p' ps' =>
      obtain ⟨hp, hps⟩ := List.forall_mem_cons.mp hps
      obtain ⟨hp', hps'⟩ := List.forall_mem_cons.mp hps'
      obtain ⟨hfirst, hothers⟩ := List.forall_mem_cons.mp hdetermined
      rw [List.flatMap_cons, List.flatMap_cons, List.append_assoc, List.append_assoc] at h
      obtain ⟨hbare, htail⟩ := hfirst hp hp' (below_flatMap ps hrest) (below_flatMap ps' hrest') h
      obtain ⟨hmap, hend⟩ := ih hothers hps hps' htail
      exact ⟨by rw [List.map_cons, List.map_cons, hbare, hmap], hend⟩

theorem determined (p : Phrase) (depth : Nat) : p.Determined depth := by
  induction p, depth using outline_induction with
  | h p depth ih =>
    intro p' rest rest' hp hp' hrest hrest' h
    rw [outline_eq, outline_eq] at h
    obtain ⟨hline, hlines⟩ := List.cons.inj h
    obtain ⟨hchildren, hend⟩ := flatMap_outline_inj ih (fun c hc => hp.child hc)
      (fun c hc => hp'.child hc) hrest hrest' hlines
    exact ⟨bare_of_label hp.own hp'.own (OutlineLine.mk.inj hline).2 hchildren, hend⟩

end Phrase

/-- The outline of a program tells which program it is, apart from the numbers and the places of its
nodes. -/
theorem outlineText_determines {e e' : Exp} (he : (Phrase.exp e).Named) (he' : (Phrase.exp e').Named)
    (h : e.outlineText = e'.outlineText) : e.bare = e'.bare := by
  have hlines : e.outline 0 = e'.outline 0 := OutlineLine.join_text_inj
    ((Phrase.exp e).outline_plain 0 he) ((Phrase.exp e').outline_plain 0 he') h
  have hnone : Phrase.Below 0 [] := fun line hline => by cases hline
  have hsame : (Phrase.exp e).outline 0 ++ [] = (Phrase.exp e').outline 0 ++ [] :=
    congrArg (· ++ []) hlines
  have hbare := ((Phrase.exp e).determined 0 he he' hnone hnone hsame).1
  exact Phrase.exp.inj hbare

def nestedLet (node : Node) : Exp :=
  let x : Exp := .var node (.simple node "x")
  .letIn node
    [.type node "list" (.record default [⟨node, "head", "int"⟩, ⟨node, "tail", "list"⟩]),
      .function node "f" [⟨node, "x", "int"⟩] (some "int")
        (.ifThenElse node x (.ifThen node x (.seq node [])) (.call node "f" [x, .int node (-1)])),
      .var node "l" none (.record node "list" [.mk default "head" x, .mk default "tail" (.nil node)])]
    (.seq node [.str node "a\n  VarExp", .seq node [x, x], x])

theorem nestedLet_named (node : Node) : (Phrase.exp (nestedLet node)).Named := by
  have hnames : ∀ name ∈ ["list", "head", "tail", "int", "f", "x", "l"], IsName name := by
    unfold IsName
    decide +kernel
  have hnamed : ∀ {p : Phrase}, (∀ name ∈ p.names, IsName name) → (∀ c ∈ p.children, c.Named) →
      p.Named := fun hown hchildren => Phrase.forall_inside_iff.mpr ⟨hown, hchildren⟩
  have hx : (Phrase.exp (.var node (.simple node "x"))).Named := by
    refine hnamed (by simp [Phrase.names]) ?_
    simp only [Phrase.children, Exp.children, List.forall_mem_singleton]
    exact hnamed (by simp [Phrase.names, hnames]) (by simp)
  unfold nestedLet
  repeat' first
    | exact hx
    | exact List.forall_mem_nil _
    | refine List.forall_mem_cons.mpr ⟨?_, ?_⟩
    | refine hnamed (by simp [Phrase.names, FieldExp.name, FieldExp.value, hnames]) ?_

theorem outlineText_determines_nested :
    let e := nestedLet default
    let e' := nestedLet ⟨1, ⟨⟨2, "nested.tig"⟩, ⟨3, "nested.tig"⟩⟩⟩
    (Phrase.exp e).Named ∧ (Phrase.exp e').Named ∧ e.outlineText = e'.outlineText ∧
      e.node ≠ e'.node ∧ e.bare = e'.bare := by
  intro e e'
  have htext : e.outlineText = e'.outlineText := by decide +kernel
  have hnode : e.node ≠ e'.node := by decide
  exact ⟨nestedLet_named _, nestedLet_named _, htext, hnode,
    outlineText_determines (nestedLet_named _) (nestedLet_named _) htext⟩

end TigerLang

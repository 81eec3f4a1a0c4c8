import TigerLang.Proofs.Incremental
import TigerLang.Proofs.Repetition
import TigerLang.Proofs.StaticLinks

/-! A program is rejected at the first token that no program continues with: nothing after that
token makes a difference, and the tokens before it can be completed to a program. -/

namespace TigerLang

open Word

namespace Parser

def closers : List TokenKind :=
  [.eof, .closeParen, .closeBracket, .closeCurly, .thenWord, .doWord, .toWord, .inWord, .endWord]

theorem joining_closer {kind : TokenKind} (h : kind ∈ closers) : Grammar.tiger.joining kind = none := by
  have hall : ∀ kind ∈ closers, Grammar.tiger.joining kind = none := by decide
  exact hall kind h

theorem leads_closer {word : Word} {words : List Word} {follow : TokenKind → Prop}
    (h : word.1 ∈ closers) : Leads (word :: words) follow (· ∈ closers) := h

def filler : List Word := [fixed .nilWord]

theorem filler_taken (power : Power) :
    Takes filler (· ∈ closers) (expression .tiger power) fun _ => True := by
  have hopen : Takes filler anything (opened .tiger (expression .tiger) .literal) fun _ => True := by
    refine Takes.current_cons fun token hword => ?_
    obtain ⟨kind, text, span⟩ := token
    obtain ⟨rfl, rfl⟩ := Prod.mk.inj hword
    exact Takes.advance_bind fun _ _ => Takes.node_bind fun _ => .pure trivial
  exact form_taken rfl hopen fun kind hkind => ⟨stops_of_none (joining_closer hkind) power, trivial⟩

section parts
variable {α : Type} {n : Nat} {opens follow : TokenKind → Prop}

theorem commaSeparated_steady {item : Parser α} {stop : TokenKind} (hstop : stop ≠ .comma)
    (hitem : Tracked n anything (· = stop) item) :
    Steady n opens (· = stop) [] (commaSeparated stop item) := by
  have hround : ∀ items, Tracked n anything (· = stop) (commaRound stop item items) := by
    intro items
    refine .kind_bind fun kind _ => ?_
    split
    · exact .pure _
    · refine (hitem.mono (Nat.le_refl n) (fun _ _ => trivial) fun _ h => h).andThen
        (fun a => .behind hstop.symm ?_ (.pure _)) fun _ h => h
      exact (Tracked.advance_andThen (by decide) fun _ => .pure _).le
  exact .loop hround (fun items => (commaRound_stop items).imp fun r hr => ⟨items, hr⟩) []

theorem field_steady : Steady n opens follow [ident "x", fixed .colon, ident "t"] field :=
  .position_bind fun _ => .identifier_bind "x" fun _ => .expect_bind (fixed .colon) (by decide)
    fun _ => .identifier_bind "t" fun _ => .node_bind fun _ => .pure _

theorem fields_steady {stop : TokenKind} (hstop : stop ≠ .comma) :
    Steady n opens (· = stop) [] (fields stop) :=
  commaSeparated_steady hstop field_steady.tracked

theorem typeForm_ne_eof {kind : TokenKind} {form : TypeForm}
    (h : Grammar.tiger.typeForm kind = some form) : ¬ (.eof = kind) := by
  rintro rfl
  cases h

theorem typeExp_steady : Steady n opens follow [ident "t"] (typeExp .tiger) where
  tracked := by
    refine .kind_bind fun kind _ => ?_
    cases hform : Grammar.tiger.typeForm kind with
    | none => exact .unexpected
    | some form =>
      have heof := typeForm_ne_eof hform
      cases form with
      | name => exact (Tracked.expect (by decide)).andThen (fun _ => .pure _) fun _ h => h
      | record =>
        exact (Tracked.advance_andThen heof fun _ => (fields_steady (by decide)).bind (fun _ =>
          .expect_bind (fixed .closeCurly) (by decide) fun _ => .spanSince_bind fun _ => .pure _)
          rfl).le
      | array =>
        exact (Tracked.advance_andThen heof fun _ => .expect_bind (fixed .ofWord) (by decide)
          fun _ => .identifier_bind "t" fun _ => .spanSince_bind fun _ => .pure _).le
  takes := Takes.kind_cons (Takes.expect_bind fun _ _ => .pure trivial)

theorem annotation?_steady (context : String) (hfollow : ¬ follow .colon) :
    Steady n opens follow [] (annotation? context) :=
  .behind hfollow (Tracked.advance_andThen (by decide) fun _ => .identifier_bind "t" fun _ =>
    .pure _).le (.pure _)

theorem block_steady (start : Position) (exps : List Exp) :
    Steady n opens follow [] (block start exps) := by
  unfold block
  split
  · exact .pure _
  · exact .node_bind fun _ => .pure _

theorem constant_steady (operator : Token) (value : Int64) :
    Steady n opens follow [] (constant operator value) := .freshId_bind fun _ => .pure _

theorem literal_tracked : Tracked (n + 1) opens follow literal := by
  refine .current_bind fun s hs _ => ?_
  have hread : ∀ (f : Node → Exp), s.kind ≠ .eof → ∃ read, Course follow
      (advance >>= fun _ => node s.position >>= fun node => pure (f node)) s read := by
    intro f hkind
    have htracked : Tracked (n + 1) (· ≠ .eof) follow
        (advance >>= fun _ => node s.position >>= fun node => pure (f node)) :=
      .advance_andThen (fun h => h rfl) fun _ => .node_bind fun _ => .pure _
    exact htracked s hs hkind
  split
  · next hkind =>
    cases Text.readInt64 s.current.value.toList with
    | none => exact ⟨[], .fail rfl⟩
    | some value => exact hread (.int · value) (by rw [Cursor.kind, hkind]; decide)
  · next hkind => exact hread (.str · s.current.value) (by rw [Cursor.kind, hkind]; decide)
  · next hkind => exact hread .nil (by rw [Cursor.kind, hkind]; decide)
  · exact ⟨[], .unexpected⟩

end parts

section forms
variable {n : Nat} {opens follow : TokenKind → Prop} {exp : Power → Parser Exp}
  (hexp : ∀ power, Steady n anything (· ∈ closers) filler (exp power))
include hexp

theorem exp_steady {stop : TokenKind} (hstop : stop ∈ closers) (power : Power) :
    Steady n anything (· = stop) filler (exp power) := by
  refine (hexp power).before ?_
  rintro _ rfl
  exact hstop

theorem call_tracked (start : Position) (function : String) :
    Tracked n opens follow (call exp start function) := by
  have hargs : Steady n anything (· = .closeParen) [] (commaSeparated .closeParen (exp .lowest)) :=
    commaSeparated_steady (by decide) (exp_steady hexp (by decide) .lowest).tracked
  exact (Tracked.expect (by decide)).andThen (fun _ => hargs.bind (fun _ =>
    .expect_bind (fixed .closeParen) (by decide) fun _ => .node_bind fun _ => .pure _) rfl)
    (leads_anything _ _)

theorem fieldExp_tracked {stop : TokenKind} (hstop : stop ∈ closers) :
    Tracked n opens (· = stop) (fieldExp exp) :=
  .position_bind fun _ => (Tracked.identifier _).andThen (fun _ =>
    .expect_bind (fixed .equals) (by decide) fun _ => (exp_steady hexp hstop .lowest).andThen
      (fun _ => .spanSince_bind fun _ => .pure _) fun _ h => h) (leads_anything _ _)

theorem record_tracked (start : Position) (typeName : String) :
    Tracked n opens follow (record exp start typeName) := by
  have hfields : Steady n anything (· = .closeCurly) [] (commaSeparated .closeCurly (fieldExp exp)) :=
    commaSeparated_steady (by decide) (fieldExp_tracked hexp (by decide))
  exact (Tracked.expect (by decide)).andThen (fun _ => hfields.bind (fun _ =>
    .expect_bind (fixed .closeCurly) (by decide) fun _ => .node_bind fun _ => .pure _) rfl)
    (leads_anything _ _)

theorem index_tracked : Tracked n (· = .openBracket) follow (index exp) :=
  (Tracked.advance_andThen (by decide) fun _ => (hexp .lowest).bind (fun _ =>
    .expect_bind (fixed .closeBracket) (by decide) fun _ => .pure _) (leads_closer (by decide))).le

theorem suffixes_steady (start : Position) (base : Var) :
    Steady n opens (· ∈ closers) [] (suffixes exp start base) := by
  apply Steady.loop
  · intro base
    refine .kind_bind fun kind _ => ?_
    split
    · exact (Tracked.advance_andThen (by decide) fun _ => .identifier_bind "x" fun _ =>
        .node_bind fun _ => .pure _).le
    · exact (index_tracked hexp).andThen (fun _ => .node_bind fun _ => .pure _) fun _ h => h
    · exact .pure _
  · intro base
    refine Takes.kind_nil fun kind hkind => ?_
    split
    · exact absurd hkind (by decide)
    · exact absurd hkind (by decide)
    · exact .pure ⟨base, rfl⟩

theorem last_steady {α : Type} {start : Position} (power : Power) (f : Node → Exp → α) :
    Steady n anything (· ∈ closers) filler
      (exp power >>= fun e => node start >>= fun node => pure (f node e)) :=
  (hexp power).andThen (fun _ => .node_bind fun _ => .pure _) fun _ h => h

theorem variableOrAssignment_steady (start : Position) (base : Var) :
    Steady n opens (· ∈ closers) [] (variableOrAssignment exp start base) :=
  (suffixes_steady hexp start base).andThen (fun target => .behind (by decide)
    (Tracked.advance_andThen (by decide) fun _ =>
      last_steady hexp .lowest fun node value => Exp.assign node target value).le
    (.node_bind fun _ => .pure _)) fun _ h => h

theorem identifierForm_tracked (heof : ¬ opens .eof) :
    Tracked (n + 1) opens (· ∈ closers) (identifierForm exp) := by
  have hvar : ∀ start base, Steady n anything (· ∈ closers) []
      (variableOrAssignment exp start base) := fun start base => variableOrAssignment_steady hexp start base
  refine .advance_bind heof (fun token => .kind_bind fun kind _ => ?_) fun token =>
    Takes.kind_nil fun kind hkind => ?_
  · split
    · exact call_tracked hexp _ _
    · exact record_tracked hexp _ _
    · -- After the brackets `of` makes an array of what would have been a subscript.
      exact .node_bind fun _ => (index_tracked hexp).andThen (fun index => .behind (by decide)
        (Tracked.advance_andThen (by decide) fun _ =>
          last_steady hexp .lowest fun node init => Exp.array node _ index init).le
        (.node_bind fun _ => variableOrAssignment_steady hexp _ _)) (leads_anything _ _)
    · exact .node_bind fun _ => (variableOrAssignment_steady hexp _ _).tracked
  · split
    · exact absurd hkind (by decide)
    · exact absurd hkind (by decide)
    · exact absurd hkind (by decide)
    · refine .node_bind fun _ => (hvar _ _).takes.before ?_
      rintro _ rfl
      exact hkind

theorem binary_tracked (left : Exp) (power : Power) :
    Tracked (n + 1) opens (· ∈ closers) (binary exp left power) := by
  refine .kind_bind fun kind _ => ?_
  cases hop : operator? kind with
  | none => exact .unexpected
  | some op =>
    have heof : ¬ .eof = kind := by
      rintro rfl
      cases hop
    exact .advance_andThen heof fun _ =>
      last_steady hexp power fun node right => Exp.binary node op left right

theorem logical_tracked (heof : ¬ opens .eof) (left : Exp) (power : Power) :
    Tracked (n + 1) opens (· ∈ closers) (logical exp left power) := by
  have htail : ∀ (operator : Token) right, Steady n anything (· ∈ closers) [] (if operator.kind = .and
      then constant operator 0 >>= fun zero => node left.start >>= fun node =>
        pure (Exp.ifThenElse node left right zero)
      else constant operator 1 >>= fun one => node left.start >>= fun node =>
        pure (Exp.ifThenElse node left one right)) := by
    intro operator right
    split
    · exact (constant_steady operator 0).andThen (fun _ => .node_bind fun _ => .pure _) fun _ h => h
    · exact (constant_steady operator 1).andThen (fun _ => .node_bind fun _ => .pure _) fun _ h => h
  exact .advance_andThen heof fun operator => (hexp power).andThen (htail operator) fun _ h => h

theorem minus_tracked (heof : ¬ opens .eof) : Tracked (n + 1) opens (· ∈ closers) (minus exp) :=
  .advance_andThen heof fun operator => (hexp .unary).andThen (fun _ =>
    (constant_steady operator 0).andThen (fun _ => .node_bind fun _ => .pure _) fun _ h => h)
    fun _ h => h

theorem sequence_steady {stop : TokenKind} (hstop : stop ∈ closers) (hsemicolon : stop ≠ .semicolon) :
    Steady n opens (· = stop) [] (sequence exp stop) := by
  have hexp' := exp_steady hexp hstop .lowest
  have hround : ∀ exps, Steady n anything (· = stop) [] (sequenceRound exp exps) := fun exps =>
    .behind hsemicolon.symm (Tracked.advance_andThen (by decide) fun _ =>
      hexp'.andThen (fun _ => .pure _) fun _ h => h).le (.pure _)
  have hrest : ∀ exps, Steady n anything (· = stop) [] (loop (sequenceRound exp) exps) :=
    .loop (fun exps => (hround exps).tracked) fun exps =>
      (sequenceRound_stop hsemicolon exps).imp fun r hr => ⟨exps, hr⟩
  refine ⟨.kind_bind fun kind _ => ?_, Takes.kind_nil fun kind hkind => ?_⟩
  · split
    · exact .pure _
    · exact (hexp'.tracked.mono (Nat.le_refl n) (fun _ _ => trivial) fun _ h => h).andThen
        (fun first => hrest [first]) fun _ h => h
  · rw [if_pos hkind]
    exact .pure trivial

theorem group_tracked (heof : ¬ opens .eof) : Tracked (n + 1) opens follow (group exp) :=
  .advance_andThen heof fun _ => (sequence_steady hexp (by decide) (by decide)).bind (fun exps =>
    .expect_bind (fixed .closeParen) (by decide) fun _ => block_steady _ exps) rfl

theorem ifForm_tracked (heof : ¬ opens .eof) : Tracked (n + 1) opens (· ∈ closers) (ifForm exp) :=
  .advance_andThen heof fun _ => (hexp .lowest).bind (fun test =>
    .expect_bind (fixed .thenWord) (by decide) fun _ => (hexp .lowest).andThen (fun yes =>
      .behind (by decide) (Tracked.advance_andThen (by decide) fun _ =>
        last_steady hexp .lowest fun node no => Exp.ifThenElse node test yes no).le
        (.node_bind fun _ => .pure _)) fun _ h => h) (leads_closer (by decide))

theorem whileForm_tracked (heof : ¬ opens .eof) :
    Tracked (n + 1) opens (· ∈ closers) (whileForm exp) :=
  .advance_andThen heof fun _ => (hexp .lowest).bind (fun test =>
    .expect_bind (fixed .doWord) (by decide) fun _ =>
      last_steady hexp .lowest fun node body => Exp.whileDo node test body) (leads_closer (by decide))

theorem forForm_tracked (heof : ¬ opens .eof) : Tracked (n + 1) opens (· ∈ closers) (forForm exp) :=
  .advance_andThen heof fun _ => .identifier_bind "i" fun name =>
    .expect_bind (fixed .assignment) (by decide) fun _ => (hexp .lowest).bind (fun lo =>
      .expect_bind (fixed .toWord) (by decide) fun _ => (hexp .lowest).bind (fun hi =>
        .expect_bind (fixed .doWord) (by decide) fun _ =>
          last_steady hexp .lowest fun node body => Exp.forTo node name lo hi body)
        (leads_closer (by decide))) (leads_closer (by decide))

theorem varDec_tracked (heof : ¬ opens .eof) : Tracked (n + 1) opens (· ∈ closers) (varDec exp) :=
  .advance_andThen heof fun _ => .identifier_bind "x" fun name =>
    (annotation?_steady _ (by decide)).bind (fun typeName =>
      .expect_bind (fixed .assignment) (by decide) fun _ =>
        last_steady hexp .lowest fun node init => Dec.var node name typeName init) rfl

theorem functionDec_tracked (heof : ¬ opens .eof) :
    Tracked (n + 1) opens (· ∈ closers) (functionDec exp) :=
  .advance_andThen heof fun _ => .identifier_bind "f" fun name =>
    .expect_bind (fixed .openParen) (by decide) fun _ => (fields_steady (by decide)).bind (fun params =>
      .expect_bind (fixed .closeParen) (by decide) fun _ => (annotation?_steady _ (by decide)).bind
        (fun result => .expect_bind (fixed .equals) (by decide) fun _ =>
          last_steady hexp .lowest fun node body => Dec.function node name params result body) rfl) rfl

theorem dec_tracked (heof : ¬ opens .eof) (form : DecForm) :
    Tracked (n + 1) opens (· ∈ closers) (dec .tiger exp form) := by
  cases form with
  | type =>
    exact .advance_andThen heof fun _ => .identifier_bind "t" fun _ =>
      .expect_bind (fixed .equals) (by decide) fun _ => typeExp_steady.andThen
        (fun _ => .node_bind fun _ => .pure _) (leads_anything [] _)
  | var => exact varDec_tracked hexp heof
  | function => exact functionDec_tracked hexp heof

theorem decs_steady : Steady n opens (· = .inWord) [] (decs .tiger exp) := by
  apply Steady.loop
  · intro found
    refine .kind_bind fun kind _ => ?_
    cases hform : Grammar.tiger.declaration kind with
    | none => exact .pure _
    | some form =>
      have heof : ¬ .eof = kind := by
        rintro rfl
        cases hform
      refine (dec_tracked hexp heof form).le.andThen (fun _ => .pure _) ?_
      rintro _ rfl
      decide
  · intro found
    refine Takes.kind_nil fun kind hkind => ?_
    subst hkind
    exact .pure ⟨found, rfl⟩

theorem letForm_tracked (heof : ¬ opens .eof) : Tracked (n + 1) opens follow (letForm .tiger exp) :=
  .advance_andThen heof fun _ => (decs_steady hexp).bind (fun _ =>
    .expect_bind (fixed .inWord) (by decide) fun _ => .position_bind fun _ =>
      (sequence_steady hexp (by decide) (by decide)).bind (fun exps =>
        (block_steady _ exps).bind (fun _ => .expect_bind (fixed .endWord) (by decide) fun _ =>
          .node_bind fun _ => .pure _) (leads_anything _ _)) rfl) rfl

theorem opened_tracked (heof : ¬ opens .eof) (form : Opening) :
    Tracked (n + 1) opens (· ∈ closers) (opened .tiger exp form) := by
  cases form with
  | literal => exact literal_tracked
  | identifier => exact identifierForm_tracked hexp heof
  | minus => exact minus_tracked hexp heof
  | group => exact group_tracked hexp heof
  | ifForm => exact ifForm_tracked hexp heof
  | whileForm => exact whileForm_tracked hexp heof
  | forForm => exact forForm_tracked hexp heof
  | breakForm => exact .advance_andThen heof fun _ => .node_bind fun _ => .pure _
  | letForm => exact letForm_tracked hexp heof

theorem climb_steady (power : Power) (left : Exp) :
    Steady (n + 1) opens (· ∈ closers) [] (climb .tiger exp power left) := by
  have hround : ∀ left, Tracked (n + 1) anything (· ∈ closers) (climbRound exp power left) := by
    intro left
    refine .kind_bind fun kind _ => ?_
    cases hjoining : Grammar.tiger.joining kind with
    | none => exact .pure _
    | some joint =>
      obtain ⟨next, form⟩ := joint
      have heof : ¬ .eof = kind := by
        rintro rfl
        cases hjoining
      have hjoined : Tracked (n + 1) (· = kind) (· ∈ closers) (joined exp left next form) := by
        cases form with
        | logical => exact logical_tracked hexp heof left next
        | binary => exact binary_tracked hexp left next
      dsimp only
      split
      · exact .pure _
      · exact hjoined.andThen (fun _ => .pure _) fun _ h => h
  refine .loop hround (fun left => Takes.kind_nil fun kind hkind => ?_) left
  rw [joining_closer hkind]
  exact .pure ⟨left, rfl⟩

end forms

theorem expression_steady (n : Nat) (power : Power) :
    Steady n anything (· ∈ closers) filler (expression .tiger power) := by
  refine ⟨?_, filler_taken power⟩
  induction n generalizing power with
  | zero => exact fun s hs _ => absurd hs (Nat.not_lt_zero _)
  | succ n ih =>
    have hexp : ∀ power, Steady n anything (· ∈ closers) filler (expression .tiger power) :=
      fun power => ⟨ih power, filler_taken power⟩
    rw [expression_eq rfl]
    refine .kind_bind fun kind _ => ?_
    cases hform : Grammar.tiger.opening kind with
    | none => exact .unexpected
    | some form =>
      have heof : ¬ .eof = kind := by
        rintro rfl
        cases hform
      exact (opened_tracked hexp heof form).andThen (climb_steady hexp power) fun _ h => h

theorem program_tracked (n : Nat) : Tracked n anything (· = .eof) program := by
  have htail : ∀ e : Exp, Takes [] (· = .eof) (kind >>= fun k => if k = .eof then pure e else unexpected)
      fun _ => True := by
    intro e
    refine Takes.kind_nil fun kind hkind => ?_
    rw [if_pos hkind]
    exact .pure trivial
  refine (expression_steady n .lowest).tracked.bind (fun e => .kind_bind fun kind _ => ?_) htail ?_
  · split
    · exact .pure e
    · exact .unexpected
  · rintro _ rfl
    decide

theorem program_filler : Takes filler (· = .eof) program fun _ => True := by
  refine ((filler_taken .lowest).before ?_).andThen (fun e _ => Takes.kind_nil fun kind hkind => ?_)
    fun _ h => h
  · rintro _ rfl
    decide
  · rw [if_pos hkind]
    exact .pure trivial

end Parser

theorem Cursor.level_ofTokens (file : String) (tokens tokens' : List Token) :
    (ofTokens file tokens).Level (ofTokens file tokens') := by
  cases tokens <;> cases tokens' <;> exact ⟨rfl, rfl, rfl⟩

theorem exists_completion {file : String} {s : Cursor} {read : List Token}
    (hlevel : ∀ tokens, s.Level (Cursor.ofTokens file tokens))
    (h : Parser.Course (· = .eof) Parser.program s read) :
    ∃ tokens e, read <+: tokens ∧ (parse file tokens).1 = .ok e := by
  have hwords : ∃ words, ∀ tokens, tokens.map Token.word = words →
      ∃ e, (parse file (read ++ (tokens ++ [Token.atEnd default]))).1 = .ok e := by
    by_cases hread : read = []
    · refine ⟨Parser.filler, fun tokens hmap => ?_⟩
      obtain ⟨e, s', hrun, -⟩ := Parser.program_filler _ tokens [Token.atEnd default]
        (Cursor.ahead_ofTokens_concat file tokens rfl) hmap ⟨_, _, rfl, rfl⟩
      rw [hread]
      exact ⟨e, congrArg Prod.fst hrun⟩
    · obtain ⟨words, hwords⟩ := h.completes hread
      refine ⟨words, fun tokens hmap => ?_⟩
      have hahead : (Cursor.ofTokens file (read ++ (tokens ++ [Token.atEnd default]))).ahead =
          read ++ (tokens ++ [Token.atEnd default]) := by
        rw [← List.append_assoc]
        exact Cursor.ahead_ofTokens_concat file (read ++ tokens) rfl
      obtain ⟨e, s', hrun, -⟩ := hwords _ tokens [Token.atEnd default] (hlevel _) hahead hmap
        ⟨_, _, rfl, rfl⟩
      exact ⟨e, congrArg Prod.fst hrun⟩
  obtain ⟨words, hwords⟩ := hwords
  obtain ⟨e, he⟩ := hwords (unplaced words) (map_word_unplaced words)
  exact ⟨_, e, List.prefix_append read _, he⟩

/-- With the tokens closed by an end token, the one after `before` is the first that no program
continues with: it is where `d` is reported and reading stops, whatever comes after it, and the tokens
before it can be completed to a program. -/
structure EarliestFailure (file : String) (tokens : List Token) (d : Diagnostic) (s : Cursor)
    (before : List Token) (token : Token) : Prop where
  found : before ++ [token] <+: (Cursor.ofTokens file tokens).ahead
  index : s.index = before.length
  position : d.position = token.span.start
  same : ∀ tokens', before ++ [token] <+: (Cursor.ofTokens file tokens').ahead →
    ∃ s', parse file tokens' = (.error d, s') ∧ s'.nextId = s.nextId ∧ s'.index = s.index
  completion : ∃ tokens' e, before <+: tokens' ∧ (parse file tokens').1 = .ok e

/-- Every failure is reported at the earliest possible token. -/
theorem parse_earliestFailure {file : String} {tokens : List Token} {d : Diagnostic} {s : Cursor}
    (h : parse file tokens = (.error d, s)) :
    ∃ before token, EarliestFailure file tokens d s before token := by
  obtain ⟨read, hcourse⟩ := Parser.program_tracked _ (Cursor.ofTokens file tokens)
    (Nat.lt_succ_self _) trivial
  have hrun : Parser.program.run (.ofTokens file tokens) = (.error d, s) := h
  have hlevel := Cursor.level_ofTokens file tokens
  have hpast := hcourse.reaches.past
  have hahead := hcourse.reaches.ahead
  have hposition := hcourse.position d (congrArg Prod.fst hrun)
  have hsame := hcourse.same
  rw [hrun] at hpast hahead hposition hsame
  have hstart : (Cursor.ofTokens file tokens).past = [] := by
    cases tokens <;> rfl
  have hindex : s.index = read.length := by
    rw [Cursor.index, hpast, hstart, List.append_nil, List.length_reverse]
  refine ⟨read, s.current, ?_, hindex, hposition, ?_, exists_completion hlevel hcourse⟩
  · rw [hahead]
    exact ⟨s.upcoming, by rw [List.append_assoc]; rfl⟩
  · rintro tokens' ⟨rest, hrest⟩
    rw [List.append_assoc] at hrest
    obtain ⟨hresult, hplace, -⟩ := hsame _ rest (hlevel tokens') hrest.symm
    refine ⟨(parse file tokens').2, Prod.ext hresult rfl, hplace.nextId.symm, ?_⟩
    exact congrArg List.length hplace.past.symm

def danglingWords : List Word :=
  [(.letWord, "let"), (.varWord, "var"), (.identifier, "x"), (.assignment, ":="), (.number, "1"),
    (.plus, "+"), (.inWord, "in"), (.identifier, "x"), (.endWord, "end")]

theorem parse_eq_error {file : String} {tokens : List Token} {d : Diagnostic}
    (h : (match (parse file tokens).1 with
      | .error d' => decide (d' = d)
      | .ok _ => false) = true) :
    parse file tokens = (.error d, (parse file tokens).2) := by
  cases hresult : (parse file tokens).1 with
  | ok e => simp [hresult] at h
  | error d' =>
    rw [hresult] at h
    rw [← of_decide_eq_true h]
    exact Prod.ext hresult rfl

theorem parse_earliestFailure_dangling :
    ∃ s before token, s.index = 6 ∧ parse "sum.tig" (spelled "sum.tig" danglingWords) =
        (.error ⟨.unexpected "in", ⟨6, "sum.tig"⟩⟩, s) ∧
      EarliestFailure "sum.tig" (spelled "sum.tig" danglingWords)
        ⟨.unexpected "in", ⟨6, "sum.tig"⟩⟩ s before token := by
  have hparse : parse "sum.tig" (spelled "sum.tig" danglingWords) =
      (.error ⟨.unexpected "in", ⟨6, "sum.tig"⟩⟩, _) := parse_eq_error (by decide +kernel)
  have hindex : (parse "sum.tig" (spelled "sum.tig" danglingWords)).2.index = 6 := by decide +kernel
  obtain ⟨before, token, h⟩ := parse_earliestFailure hparse
  exact ⟨_, before, token, hindex, hparse, h⟩

end TigerLang

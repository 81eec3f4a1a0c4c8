import TigerLang.Proofs.Covering
import TigerLang.Proofs.Numbering

/-! Where the phrases of a program stand in its source, and how they are numbered. Every form of the
grammar puts its phrase together after the phrases inside it, out of what has been read since its
first token. -/

namespace TigerLang

namespace Parser

open Phrase

theorem Gathers.whole {α : Type} {start : Position} {i : Nat} {held : List Phrase}
    {build : Node → α} {phrase : α → Phrase}
    (hmake : OfNode fun node => phrase (build node))
    (hchildren : ∀ node, ∀ c ∈ (phrase (build node)).children, c ∈ held) :
    Gathers start i held (node start >>= fun node => Pure.pure (build node)) fun a => [phrase a] :=
  .made (fun node => phrase (build node)) hmake hchildren fun node => .pure (by simp)

theorem literal_lays {s : Cursor} (hs : s.kind ≠ .eof) : LaysFrom s literal .exp := by
  refine LaysFrom.look ?_
  split
  · split
    · exact .fail _
    · exact .opening hs fun i => .whole (fun _ => ⟨rfl, rfl⟩) (by simp)
  · exact .opening hs fun i => .whole (fun _ => ⟨rfl, rfl⟩) (by simp)
  · exact .opening hs fun i => .whole (fun _ => ⟨rfl, rfl⟩) (by simp)
  · exact .unexpected

theorem field_lays : Lays field .field :=
  .named fun _ _ _ => (Gathers.expect _).bind fun _ => (Gathers.identifier _).bind fun _ =>
    .whole (fun _ => ⟨rfl, rfl⟩) (by simp)

theorem typeExp_lays : Lays (typeExp .tiger) .typeExp := by
  intro s
  refine LaysFrom.look ?_
  cases hform : Grammar.tiger.typeForm s.kind with
  | none => exact .unexpected
  | some form =>
    have hs : s.kind ≠ .eof := by
      intro heof
      rw [heof] at hform
      cases hform
    cases form with
    | name => exact LaysFrom.expected (by decide) fun i => .pure (by simp [ofToken])
    | record =>
      exact .opening hs fun i => (Gathers.commaSeparated field_lays _).bind fun fields =>
        (Gathers.expect _).bind fun _ => .spanned (fun span => .typeExp (.record span fields))
          (fun _ => ⟨rfl, rfl⟩) (by simp +contextual) fun span => .pure (by simp)
    | array =>
      exact .opening hs fun i => (Gathers.expect _).bind fun _ =>
        (Gathers.identifier _).bind fun element =>
        .spanned (fun span => .typeExp (.array span element)) (fun _ => ⟨rfl, rfl⟩) (by simp)
          fun span => .pure (by simp)

theorem annotation?_gathers {start : Position} {i : Nat} {held : List Phrase} (context : String) :
    Gathers start i held (annotation? context) fun _ => held :=
  (Gathers.look _).bind fun _ => .ite
    (Gathers.advance.bind fun _ => (Gathers.identifier _).bind fun _ => .pure fun _ hc => hc)
    (.pure fun _ hc => hc)

theorem constant_gathers {start : Position} {i : Nat} {held : List Phrase} {operator : Token}
    (hoperator : ofToken operator ∈ held) (value : Int64) :
    Gathers start i held (constant operator value) fun e => .exp e :: held := by
  intro s e s' hrun h
  cases hrun
  have hbefore := s.before_numbered
  obtain ⟨k, l, hik, hkl, hcovers⟩ := h.held _ hoperator
  refine ⟨hbefore, (h.mono hbefore fun _ hc => hc).cons ⟨k, l, hik, hkl, ?_⟩⟩
  refine .of_children hbefore hcovers.start hcovers.stop hcovers.read ?_ nofun
  rintro id ⟨⟩
  exact ⟨Nat.le_refl _, Nat.lt_succ_self _⟩

theorem breakForm_lays {s : Cursor} (hs : s.kind ≠ .eof) : LaysFrom s breakForm .exp :=
  .opening hs fun i => .whole (fun _ => ⟨rfl, rfl⟩) (by simp)

theorem block_gathers {start : Position} {i : Nat} {held : List Phrase} {exps : List Exp}
    (hexps : ∀ e ∈ exps, .exp e ∈ held) :
    Gathers start i held (block start exps) fun e => [.exp e] := by
  unfold block
  split
  · exact .pure (by simpa using hexps)
  · exact .whole (fun _ => ⟨rfl, rfl⟩) (by simpa using hexps)

theorem typeDec_lays {s : Cursor} (hs : s.kind ≠ .eof) : LaysFrom s (typeDec .tiger) .dec :=
  .opening hs fun i => (Gathers.identifier _).bind fun _ => (Gathers.expect _).bind fun _ =>
    (Gathers.lays typeExp_lays).bind fun _ => .whole (fun _ => ⟨rfl, rfl⟩) (by simp)

section forms
variable {exp : Power → Parser Exp} (hexp : ∀ power, Lays (exp power) .exp)
include hexp

theorem call_gathers {start : Position} {i : Nat} {held : List Phrase} (function : String) :
    Gathers start i held (call exp start function) fun e => [.exp e] :=
  (Gathers.expect _).bind fun _ => (Gathers.commaSeparated (hexp _) _).bind fun args =>
    (Gathers.expect _).bind fun _ => .whole (fun _ => ⟨rfl, rfl⟩) (by simp +contextual)

theorem fieldExp_lays : Lays (fieldExp exp) .fieldExp :=
  .named fun _ _ name => (Gathers.expect _).bind fun _ => (Gathers.lays (hexp _)).bind fun value =>
    .spanned (fun span => .fieldExp (.mk span name value)) (fun _ => ⟨rfl, rfl⟩)
      (by simp [FieldExp.value]) fun span => .pure (by simp)

theorem record_gathers {start : Position} {i : Nat} {held : List Phrase} (typeName : String) :
    Gathers start i held (record exp start typeName) fun e => [.exp e] :=
  (Gathers.expect _).bind fun _ => (Gathers.commaSeparated (fieldExp_lays hexp) _).bind fun fields =>
    (Gathers.expect _).bind fun _ => .whole (fun _ => ⟨rfl, rfl⟩) (by simp +contextual)

theorem index_gathers {start : Position} {i : Nat} {held : List Phrase} :
    Gathers start i held (index exp) fun e => .exp e :: held :=
  Gathers.advance.bind fun _ => (Gathers.lays (hexp _)).bind fun _ => (Gathers.expect _).bind fun _ =>
    .pure fun _ hc => hc

theorem suffixes_gathers {start : Position} {i : Nat} (base : Var) :
    Gathers start i [.var base] (suffixes exp start base) fun v => [.var v] := by
  refine .loop (fun base => [.var base]) (fun base => (Gathers.look _).bind fun kind => ?_) base
  split
  · exact Gathers.advance.bind fun _ => (Gathers.identifier _).bind fun name =>
      .made (fun node => .var (.field node base name)) (fun _ => ⟨rfl, rfl⟩) (by simp)
        fun node => .pure (by simp [Gathers.afterRound])
  · exact (index_gathers hexp).bind fun index =>
      .made (fun node => .var (.subscript node base index)) (fun _ => ⟨rfl, rfl⟩) (by simp)
        fun node => .pure (by simp [Gathers.afterRound])
  · exact .pure fun _ hc => hc

theorem variableOrAssignment_gathers {start : Position} {i : Nat} (base : Var) :
    Gathers start i [.var base] (variableOrAssignment exp start base) fun e => [.exp e] :=
  (suffixes_gathers hexp base).bind fun target => (Gathers.look _).bind fun _ =>
    .ite (Gathers.advance.bind fun _ => (Gathers.lays (hexp _)).bind fun value =>
      .whole (fun _ => ⟨rfl, rfl⟩) (by simp)) (.whole (fun _ => ⟨rfl, rfl⟩) (by simp))

theorem identifierForm_lays {s : Cursor} (hs : s.kind ≠ .eof) :
    LaysFrom s (identifierForm exp) .exp := by
  refine .opening hs fun i => (Gathers.look _).bind fun kind => ?_
  split
  · exact call_gathers hexp _
  · exact record_gathers hexp _
  · refine .made (fun node => .var (.simple node s.current.value)) (fun _ => ⟨rfl, rfl⟩) (by simp)
      fun base => (index_gathers hexp).bind fun index => (Gathers.look _).bind fun _ => .ite ?_ ?_
    · exact Gathers.advance.bind fun _ => (Gathers.lays (hexp _)).bind fun init =>
        .whole (fun _ => ⟨rfl, rfl⟩) (by simp)
    · exact .made (fun node => .var (.subscript node (.simple base s.current.value) index))
        (fun _ => ⟨rfl, rfl⟩) (by simp)
        fun node => (variableOrAssignment_gathers hexp _).fewer (by simp)
  · exact .made (fun node => .var (.simple node s.current.value)) (fun _ => ⟨rfl, rfl⟩) (by simp)
      fun node => (variableOrAssignment_gathers hexp _).fewer (by simp)

theorem binary_gathers {start : Position} {i : Nat} (left : Exp) (power : Power) :
    Gathers start i [.exp left] (binary exp left power) fun e => [.exp e] := by
  refine fun s => .enclose fun k => (Gathers.look _ s).bind fun kind => ?_
  split
  · exact .unexpected
  · exact Gathers.advance.bind fun _ => (Gathers.lays (hexp _)).bind fun right =>
      .whole (fun _ => ⟨rfl, rfl⟩) (by simp)

theorem logical_gathers {s : Cursor} {start : Position} {i : Nat} (hs : s.kind ≠ .eof) (left : Exp)
    (power : Power) :
    GathersFrom s start i [.exp left] (logical exp left power) fun e => [.exp e] := by
  refine .enclose fun k => .advance hs fun operator => (Gathers.lays (hexp _)).bind fun right =>
    .ite ?_ ?_
  all_goals
    exact (constant_gathers (by simp) _).bind fun value => .whole (fun _ => ⟨rfl, rfl⟩) (by simp)

theorem minus_lays {s : Cursor} (hs : s.kind ≠ .eof) : LaysFrom s (minus exp) .exp :=
  .opening hs fun i => (Gathers.lays (hexp _)).bind fun operand =>
    (constant_gathers (by simp) _).bind fun zero => .whole (fun _ => ⟨rfl, rfl⟩) (by simp)

theorem sequence_gathered {stop : TokenKind} {s s' : Cursor} {exps : List Exp}
    (hrun : (sequence exp stop).run s = (.ok exps, s')) :
    (s.kind = stop ∧ exps = [] ∧ s' = s) ∨
      (s.Before s' ∧ Gathered s.position s.index (exps.map .exp) s') := by
  change (if s.kind = stop then Pure.pure [] else _ : Parser (List Exp)).run s = _ at hrun
  split at hrun
  · next hkind =>
    cases hrun
    exact .inl ⟨hkind, rfl, rfl⟩
  · obtain ⟨first, s₁, hfirst, hrest⟩ := exists_of_run_bind hrun
    obtain ⟨hbefore, hstands⟩ := hexp _ s first s₁ hfirst
    have hopened : s₁.tokens[s.index]? = some s.current := by
      rw [hbefore.tokens]
      exact s.getElem?_tokens_index
    have hgathered : Gathered s.position s.index [.exp first] s₁ :=
      ⟨⟨s.current, hopened, rfl⟩, hstands.lt_index, List.forall_mem_singleton.mpr hstands⟩
    obtain ⟨hbefore', h⟩ := Gathers.loop (fun exps => exps.map Phrase.exp) (fun exps =>
      (Gathers.look _).bind fun _ => .ite (Gathers.advance.bind fun _ =>
        (Gathers.lays (hexp _)).bind fun next => .pure (by simp +contextual [Gathers.afterRound,
          or_imp])) (.pure fun _ hc => hc)) [first] s₁ exps s' hrest hgathered
    exact .inr ⟨hbefore.trans hbefore', h⟩

theorem sequence_gathers {start : Position} {i : Nat} {held : List Phrase} (stop : TokenKind) :
    Gathers start i held (sequence exp stop) fun exps => exps.map .exp ++ held := by
  intro s exps s' hrun h
  rcases sequence_gathered hexp hrun with ⟨-, rfl, rfl⟩ | ⟨hbefore, hexps⟩
  · exact ⟨.refl _, h⟩
  · have hheld := h.mono hbefore fun _ hc => hc
    refine ⟨hbefore, hheld.opened, hheld.read,
      List.forall_mem_append.mpr ⟨fun c hc => ?_, hheld.held⟩⟩
    exact (hexps.held c hc).mono (Nat.le_of_lt h.read) (.refl s')

theorem group_lays {s : Cursor} (hs : s.kind ≠ .eof) : LaysFrom s (group exp) .exp :=
  .opening hs fun i => (sequence_gathers hexp _).bind fun exps => (Gathers.expect _).bind fun _ =>
    block_gathers (by simp +contextual)

theorem ifForm_lays {s : Cursor} (hs : s.kind ≠ .eof) : LaysFrom s (ifForm exp) .exp := by
  refine .opening hs fun i => (Gathers.lays (hexp _)).bind fun test =>
    (Gathers.expect _).bind fun _ =>
    (Gathers.lays (hexp _)).bind fun yes => (Gathers.look _).bind fun _ => .ite ?_ ?_
  · exact Gathers.advance.bind fun _ => (Gathers.lays (hexp _)).bind fun no =>
      .whole (fun _ => ⟨rfl, rfl⟩) (by simp)
  · exact .whole (fun _ => ⟨rfl, rfl⟩) (by simp)

theorem whileForm_lays {s : Cursor} (hs : s.kind ≠ .eof) : LaysFrom s (whileForm exp) .exp :=
  .opening hs fun i => (Gathers.lays (hexp _)).bind fun test => (Gathers.expect _).bind fun _ =>
    (Gathers.lays (hexp _)).bind fun body => .whole (fun _ => ⟨rfl, rfl⟩) (by simp)

theorem forForm_lays {s : Cursor} (hs : s.kind ≠ .eof) : LaysFrom s (forForm exp) .exp :=
  .opening hs fun i => (Gathers.identifier _).bind fun name => (Gathers.expect _).bind fun _ =>
    (Gathers.lays (hexp _)).bind fun lo => (Gathers.expect _).bind fun _ =>
    (Gathers.lays (hexp _)).bind fun hi => (Gathers.expect _).bind fun _ =>
    (Gathers.lays (hexp _)).bind fun body => .whole (fun _ => ⟨rfl, rfl⟩) (by simp)

theorem varDec_lays {s : Cursor} (hs : s.kind ≠ .eof) : LaysFrom s (varDec exp) .dec :=
  .opening hs fun i => (Gathers.identifier _).bind fun name => (annotation?_gathers _).bind fun _ =>
    (Gathers.expect _).bind fun _ => (Gathers.lays (hexp _)).bind fun init =>
    .whole (fun _ => ⟨rfl, rfl⟩) (by simp)

theorem functionDec_lays {s : Cursor} (hs : s.kind ≠ .eof) : LaysFrom s (functionDec exp) .dec :=
  .opening hs fun i => (Gathers.identifier _).bind fun name => (Gathers.expect _).bind fun _ =>
    (Gathers.commaSeparated field_lays _).bind fun params => (Gathers.expect _).bind fun _ =>
    (annotation?_gathers _).bind fun result => (Gathers.expect _).bind fun _ =>
    (Gathers.lays (hexp _)).bind fun body =>
    .whole (fun _ => ⟨rfl, rfl⟩) (by simp +contextual [or_imp])

theorem dec_lays {s : Cursor} (hs : s.kind ≠ .eof) (form : DecForm) :
    LaysFrom s (dec .tiger exp form) .dec := by
  cases form with
  | type => exact typeDec_lays hs
  | var => exact varDec_lays hexp hs
  | function => exact functionDec_lays hexp hs

theorem decs_gathers {start : Position} {i : Nat} {held : List Phrase} :
    Gathers start i held (decs .tiger exp) fun decs => decs.map .dec ++ held := by
  refine .loop (fun decs => decs.map .dec ++ held) (fun decs s => ?_) []
  refine GathersFrom.look ?_
  cases hform : Grammar.tiger.declaration s.kind with
  | none =>
    refine Gathers.pure ?_ s
    exact fun _ hc => hc
  | some form =>
    have hs : s.kind ≠ .eof := by
      intro heof
      rw [heof] at hform
      cases hform
    refine (GathersFrom.lays (dec_lays hexp hs form)).bind fun next => .pure ?_
    simp +contextual [Gathers.afterRound, or_imp]

theorem body_stands {s s₁ s' : Cursor} {exps : List Exp} {body : Exp} (hs : s.kind = .inWord)
    (hexps : (sequence exp .endWord).run s.advance = (.ok exps, s₁))
    (hbody : (block s.advance.position exps).run s₁ = (.ok body, s')) :
    s.advance.Before s' ∧ ((Phrase.exp body).Stands s.index s' ∨
      ∃ inner, body = .seq inner [] ∧ Hollow s.tokens inner.span ∧
        (Phrase.exp body).Covers s' (s.index + 1) s.index) := by
  have hmoves : s.kind ≠ .eof := by rw [hs]; decide
  have hindex := Cursor.index_advance hmoves
  have htokens := s.before_advance.tokens
  rcases sequence_gathered hexp hexps with ⟨hkind, rfl, rfl⟩ | ⟨hbefore, hgathered⟩
  · -- The place is still that after `in`, so the span starts with the token there and stops before.
    cases hbody
    have hnumbered := s.advance.before_numbered
    have hreaches := Cursor.reaches_advance hmoves
    have hlast : s.advance.lastEnd = s.current.span.stop := by
      rw [Cursor.lastEnd, hreaches.past]
      rfl
    have hspan : s.advance.spanSince s.advance.position =
        ⟨s.advance.current.span.start, s.current.span.stop⟩ := by
      rw [Cursor.spanSince, hlast, Cursor.position]
    refine ⟨hnumbered, .inr ⟨_, rfl, ⟨s.past.reverse, s.advance.upcoming, s.current,
      s.advance.current, ?_, hs, hkind, hspan⟩, ?_⟩⟩
    · rw [Cursor.tokens, hreaches.ahead]
      rfl
    · refine .of_children hnumbered ⟨s.advance.current, ?_, rfl⟩ ⟨s.current, ?_, hlast⟩ (by omega) ?_
        (List.forall_mem_nil _)
      · rw [← hindex]
        exact s.advance.getElem?_tokens_index
      · rw [htokens]
        exact s.getElem?_tokens_index
      · rintro id ⟨⟩
        exact ⟨Nat.le_refl _, Nat.lt_succ_self _⟩
  · obtain ⟨hbefore', h⟩ := block_gathers (by simp) s₁ body s' hbody hgathered
    have hstands := h.held _ (List.mem_singleton_self _)
    exact ⟨hbefore.trans hbefore', .inl (hstands.mono (by omega) (.refl s'))⟩

theorem letForm_lays {s : Cursor} (hs : s.kind ≠ .eof) : LaysFrom s (letForm .tiger exp) .exp := by
  refine .opening hs fun i => (decs_gathers hexp).bind fun decs => ?_
  intro s₀ e s' hrun h
  obtain ⟨token, s₁, hin, hrun⟩ := exists_of_run_bind hrun
  obtain ⟨hkind, -, rfl⟩ := run_expectOr_ok hin
  obtain ⟨bodyStart, _, hposition, hrun⟩ := exists_of_run_bind hrun
  cases hposition
  obtain ⟨exps, s₂, hexps, hrun⟩ := exists_of_run_bind hrun
  obtain ⟨body, s₃, hbody, hrun⟩ := exists_of_run_bind hrun
  obtain ⟨token', s₄, hend, hrun⟩ := exists_of_run_bind hrun
  obtain ⟨-, -, rfl⟩ := run_expectOr_ok hend
  cases hrun
  obtain ⟨hbefore, hstands⟩ := body_stands hexp hkind hexps hbody
  have hfirst := s₀.before_advance.trans hbefore
  have hread : s₀.Before s₃.advance := hfirst.trans s₃.before_advance
  have hnumbered := s₃.advance.before_numbered
  have hheld := h.mono hread fun _ hc => hc
  have hopen := h.read
  have hempty : Gathered s.position i [] { s₃.advance with nextId := s₃.advance.nextId + 1 } :=
    hheld.mono hnumbered (by simp)
  refine ⟨hread.trans hnumbered, hempty.cons (hheld.assemble hnumbered rfl ?_ fun c hc => ?_)⟩
  · rintro id ⟨⟩
    exact ⟨Nat.le_refl _, Nat.lt_succ_self _⟩
  · rcases List.mem_append.mp hc with hdec | hbodyMem
    · exact .inl (hheld.held c (List.mem_append_left _ hdec))
    · obtain rfl := List.mem_singleton.mp hbodyMem
      rcases hstands with hstands | ⟨inner, rfl, hhollow, hcovers⟩
      · exact .inl (hstands.mono (Nat.le_of_lt hopen) s₃.before_advance)
      · refine .inr ⟨_, _, by omega, hcovers.mono s₃.before_advance, _, decs, inner, rfl, rfl, ?_⟩
        rw [hread.tokens]
        exact hhollow

theorem opened_lays {s : Cursor} (hs : s.kind ≠ .eof) (form : Opening) :
    LaysFrom s (opened .tiger exp form) .exp := by
  cases form with
  | literal => exact literal_lays hs
  | identifier => exact identifierForm_lays hexp hs
  | minus => exact minus_lays hexp hs
  | group => exact group_lays hexp hs
  | ifForm => exact ifForm_lays hexp hs
  | whileForm => exact whileForm_lays hexp hs
  | forForm => exact forForm_lays hexp hs
  | breakForm => exact breakForm_lays hs
  | letForm => exact letForm_lays hexp hs

theorem climb_gathers {start : Position} {i : Nat} (power : Power) (left : Exp) :
    Gathers start i [.exp left] (climb .tiger exp power left) fun e => [.exp e] := by
  refine .loop (fun left => [.exp left]) (fun left s => GathersFrom.look ?_) left
  cases hjoining : Grammar.tiger.joining s.kind with
  | none =>
    refine Gathers.pure ?_ s
    exact fun _ hc => hc
  | some joining =>
    have hs : s.kind ≠ .eof := by
      intro heof
      rw [heof] at hjoining
      cases hjoining
    obtain ⟨next, form⟩ := joining
    have hjoined : GathersFrom s start i [.exp left] (joined exp left next form)
        fun e => [.exp e] := by
      cases form with
      | logical => exact logical_gathers hexp hs left next
      | binary => exact binary_gathers hexp left next s
    dsimp only
    split
    · refine Gathers.pure ?_ s
      exact fun _ hc => hc
    · refine hjoined.bind fun e => .pure ?_
      exact fun _ hc => hc

end forms

theorem expression_lays (power : Power) : Lays (expression .tiger power) .exp := by
  intro s
  change ∀ e s', expressionFrom .tiger power s = (.ok e, s') → _
  induction hn : s.remaining using Nat.strongRecOn generalizing power s with
  | _ n ih =>
    intro e s' hrun
    rw [expressionFrom] at hrun
    split at hrun
    · simp [unexpected] at hrun
    · next form hform =>
      have hs : s.kind ≠ .eof := by
        intro heof
        rw [heof] at hform
        cases hform
      have hinner : ∀ innerPower, Lays (⟨fun s' =>
          if s'.remaining < s.remaining then expressionFrom .tiger innerPower s'
          else unexpected.run s'⟩ : Parser Exp) .exp := by
        intro innerPower s₁ e₁ s₂ hrun₁
        dsimp only at hrun₁
        split at hrun₁
        · next hlt => exact ih _ (hn ▸ hlt) innerPower s₁ rfl e₁ s₂ hrun₁
        · simp [unexpected] at hrun₁
      obtain ⟨left, s₁, hleft, hclimb⟩ := exists_of_run_bind hrun
      obtain ⟨hbefore, hstands⟩ := opened_lays hinner hs form left s₁ hleft
      have hopened : s₁.tokens[s.index]? = some s.current := by
        rw [hbefore.tokens]
        exact s.getElem?_tokens_index
      obtain ⟨hbefore', h⟩ := climb_gathers hinner power left s₁ e s' hclimb
        ⟨⟨s.current, hopened, rfl⟩, hstands.lt_index, List.forall_mem_singleton.mpr hstands⟩
      exact ⟨hbefore.trans hbefore', h.held _ (List.mem_singleton_self _)⟩

end Parser

theorem parse_stands {file : String} {tokens : List Token} {e : Exp}
    (h : (parse file tokens).1 = .ok e) :
    (Cursor.ofTokens file tokens).Before (parse file tokens).2 ∧
      (Phrase.exp e).Stands 0 (parse file tokens).2 := by
  have hrun : Parser.program.run (.ofTokens file tokens) = (.ok e, (parse file tokens).2) :=
    Prod.ext h rfl
  obtain ⟨whole, s, hwhole, hend⟩ := Parser.exists_of_run_bind hrun
  obtain ⟨hbefore, hstands⟩ := Parser.expression_lays .lowest _ whole s hwhole
  change (if s.kind = .eof then Pure.pure whole else Parser.unexpected : Parser Exp).run s = _ at hend
  split at hend
  · cases hend
    exact ⟨hbefore, hstands.mono (Nat.zero_le _) (.refl _)⟩
  · simp [Parser.unexpected] at hend

end TigerLang

import Mathlib.Logic.Relation
import TigerLang.Proofs.Covering
import TigerLang.Proofs.RoundTrip

/-! Reading comes to an end. From wherever it starts, reading goes from token to token and leaves no
end token behind, and an expression, a declaration or a type that has been read has taken a token at
least. So the recursion and the repetitions of the grammar would end without anything that watches
over them. -/

namespace TigerLang

/-- One step of reading: the current token is left behind, unless it is an end token, or a number is
given. -/
inductive Cursor.Step : Cursor → Cursor → Prop
  | advance {s : Cursor} (h : s.kind ≠ .eof) : Step s s.advance
  | number (s : Cursor) : Step s { s with nextId := s.nextId + 1 }

abbrev Cursor.Steps : Cursor → Cursor → Prop := Relation.ReflTransGen Cursor.Step

theorem not_eof_of_some {γ : Type} {forms : TokenKind → Option γ} {kind : TokenKind} {form : γ}
    (heof : forms .eof = none) (h : forms kind = some form) : ¬ .eof = kind := by
  rintro rfl
  rw [heof] at h
  cases h

namespace Cursor

theorem Step.tokens {s s' : Cursor} (h : s.Step s') : s'.tokens = s.tokens := by
  cases h with
  | advance h => exact (before_advance s).tokens
  | number => rfl

theorem Step.index {s s' : Cursor} (h : s.Step s') :
    s'.index = s.index ∨ s'.index = s.index + 1 ∧ s.kind ≠ .eof := by
  cases h with
  | advance h => exact .inr ⟨index_advance h, h⟩
  | number => exact .inl rfl

namespace Steps
variable {s s' : Cursor}

theorem tokens (h : s.Steps s') : s'.tokens = s.tokens := by
  induction h with
  | refl => rfl
  | tail _ hstep ih => exact hstep.tokens.trans ih

theorem index_le (h : s.Steps s') : s.index ≤ s'.index := by
  induction h with
  | refl => exact Nat.le_refl _
  | tail _ hstep ih => rcases hstep.index with hsame | ⟨hnext, -⟩ <;> omega

theorem kind_ne_eof (h : s.Steps s') {i : Nat} {token : Token} (hstart : s.index ≤ i)
    (hend : i < s'.index) (htoken : s'.tokens[i]? = some token) : token.kind ≠ .eof := by
  induction h with
  | refl => omega
  | @tail s₁ s₂ hsteps hstep ih =>
    rw [hstep.tokens] at htoken
    rcases hstep.index with hsame | ⟨hnext, hkind⟩
    · exact ih (by omega) htoken
    · rcases Nat.lt_or_eq_of_le (Nat.le_of_lt_succ (hnext ▸ hend)) with hlt | rfl
      · exact ih hlt htoken
      · rw [getElem?_tokens_index] at htoken
        obtain rfl := Option.some.inj htoken
        exact hkind

end Steps

theorem length_tokens (s : Cursor) : s.tokens.length = s.index + s.remaining + 1 := by
  simp only [tokens, ahead, index, remaining, List.length_append, List.length_reverse,
    List.length_cons]
  omega

theorem Steps.remaining {s s' : Cursor} (h : s.Steps s') :
    s'.index + s'.remaining = s.index + s.remaining := by
  have hlength := congrArg List.length h.tokens
  rw [length_tokens, length_tokens] at hlength
  omega

structure Onward (s s' : Cursor) : Prop where
  tokens : s'.tokens = s.tokens
  index_le : s.index ≤ s'.index
  index_lt : s'.index < s.tokens.length
  kind_ne_eof : ∀ i token, s.index ≤ i → i < s'.index → s.tokens[i]? = some token → token.kind ≠ .eof

theorem Steps.onward {s s' : Cursor} (h : s.Steps s') : s.Onward s' where
  tokens := h.tokens
  index_le := h.index_le
  index_lt := by
    rw [← h.tokens, length_tokens]
    omega
  kind_ne_eof i token hstart hend htoken := h.kind_ne_eof hstart hend (h.tokens ▸ htoken)

theorem remaining_ofTokens_le (file : String) (tokens : List Token) :
    (ofTokens file tokens).remaining ≤ tokens.length := by
  cases tokens with
  | nil => exact Nat.le_refl _
  | cons token tokens =>
    change (closeAfter token tokens).length ≤ tokens.length + 1
    unfold closeAfter
    split
    · exact Nat.le_succ _
    · rw [List.length_append, List.length_singleton]

theorem tokens_ofTokens_cases (file : String) (tokens : List Token) :
    (ofTokens file tokens).tokens = tokens ∨
      ∃ last, last.kind = .eof ∧ (ofTokens file tokens).tokens = tokens ++ [last] := by
  cases tokens with
  | nil => exact .inr ⟨Token.atEnd ⟨0, file⟩, rfl, rfl⟩
  | cons token tokens =>
    change token :: closeAfter token tokens = _ ∨ ∃ last : Token, _ ∧ token :: closeAfter token tokens = _
    unfold closeAfter
    split
    · exact .inl rfl
    · exact .inr ⟨_, rfl, rfl⟩

end Cursor

namespace Parser
variable {α β σ : Type}

def always : α → Prop := fun _ => True

def never : α → Prop := fun _ => False

/-- From a place the reading goes on by steps, and if it answers something in `far`, then to a later
token. -/
structure Moves (far : α → Prop) (p : Parser α) (s : Cursor) : Prop where
  steps : s.Steps (p.run s).2
  further : ∀ a, (p.run s).1 = .ok a → far a → s.index < (p.run s).2.index

namespace Moves
variable {far : α → Prop} {far' far'' : β → Prop} {s s' : Cursor}

theorem steps_of_run {p : Parser α} {result : Except Diagnostic α} (h : Moves far p s)
    (hrun : p.run s = (result, s')) : s.Steps s' := by
  have hsteps := h.steps
  rw [hrun] at hsteps
  exact hsteps

theorem index_lt {p : Parser α} {a : α} (h : Moves far p s) (hrun : p.run s = (.ok a, s'))
    (ha : far a) : s.index < s'.index := by
  have hfurther := h.further a
  rw [hrun] at hfurther
  exact hfurther rfl ha

theorem remaining_le {p : Parser α} {result : Except Diagnostic α} (h : Moves far p s)
    (hrun : p.run s = (result, s')) : s'.remaining ≤ s.remaining := by
  have hsum := (h.steps_of_run hrun).remaining
  have hindex := (h.steps_of_run hrun).index_le
  omega

theorem remaining_lt {p : Parser α} {a : α} (h : Moves far p s) (hrun : p.run s = (.ok a, s'))
    (ha : far a) : s'.remaining < s.remaining := by
  have hsum := (h.steps_of_run hrun).remaining
  have hindex := h.index_lt hrun ha
  omega

/-- What follows a reading starts where it ends. Either of the two may be the one that moves on. -/
theorem bind {p : Parser α} {f : α → Parser β} (hp : Moves far p s)
    (hf : ∀ a s', p.run s = (.ok a, s') → Moves far'' (f a) s')
    (hfar : ∀ a b, far' b → far a ∨ far'' b) : Moves far' (p >>= f) s := by
  rcases hrun : p.run s with ⟨d | a, s₁⟩
  · have hbind : (p >>= f).run s = (.error d, s₁) := by rw [run_bind, hrun]
    refine ⟨hbind ▸ hp.steps_of_run hrun, fun b hb => ?_⟩
    rw [hbind] at hb
    cases hb
  · have hbind : (p >>= f).run s = (f a).run s₁ := by rw [run_bind, hrun]
    have hsteps := hp.steps_of_run hrun
    obtain ⟨hsteps₁, hfurther₁⟩ := hf a s₁ hrun
    refine ⟨hbind ▸ hsteps.trans hsteps₁, fun b hb hfar' => ?_⟩
    rw [hbind] at hb ⊢
    rcases hfar a b hfar' with ha | hb'
    · exact Nat.lt_of_lt_of_le (hp.index_lt hrun ha) hsteps₁.index_le
    · exact Nat.lt_of_le_of_lt hsteps.index_le (hfurther₁ b hb hb')

end Moves

def Goes (n : Nat) (opens : TokenKind → Prop) (far : α → Prop) (p : Parser α) : Prop :=
  ∀ s, s.remaining < n → opens s.kind → Moves far p s

def Round.GoesOn : Round σ β → Prop
  | .again _ => True
  | .done _ => False

/-- A repetition and its result, where nothing but the rounds decides whether there is another. -/
inductive Repeats (round : σ → Parser (Round σ β)) :
    σ → Cursor → Except Diagnostic β × Cursor → Prop
  | failed {state s d s'} (h : (round state).run s = (.error d, s')) :
      Repeats round state s (.error d, s')
  | done {state s answer s'} (h : (round state).run s = (.ok (.done answer), s')) :
      Repeats round state s (.ok answer, s')
  | again {state s next s' result} (h : (round state).run s = (.ok (.again next), s'))
      (hnext : Repeats round next s' result) : Repeats round state s result

namespace Goes
variable {n : Nat} {opens : TokenKind → Prop} {far : α → Prop} {far' : β → Prop}

theorem le {p : Parser α} (h : Goes (n + 1) opens far p) : Goes n opens far p :=
  fun s hs hkind => h s (Nat.lt_succ_of_lt hs) hkind

theorem anywhere {p : Parser α} (h : Goes n anything far p) : Goes n opens far p :=
  fun s hs _ => h s hs trivial

theorem weaken {p : Parser α} (h : Goes n anything far p) : Goes n opens never p := by
  intro s hs _
  have hmoves := h s hs trivial
  exact ⟨hmoves.steps, fun _ _ hnever => absurd hnever id⟩

theorem pure {a : α} (h : ¬ far a) : Goes n opens far (pure a) := by
  intro s _ _
  refine ⟨.refl, fun b hb hfar => ?_⟩
  obtain rfl := Except.ok.inj hb
  exact absurd hfar h

theorem fail (d : Diagnostic) : Goes n opens far (fail d : Parser α) := by
  intro s _ _
  refine ⟨.refl, fun a ha => ?_⟩
  cases ha

theorem unexpected : Goes n opens far (unexpected : Parser α) := by
  intro s _ _
  refine ⟨.refl, fun a ha => ?_⟩
  cases ha

theorem look_bind {f : Cursor → α} {p : α → Parser β} (h : ∀ a, Goes n opens far' (p a)) :
    Goes n opens far' (look f >>= p) := by
  intro s hs hkind
  obtain ⟨hsteps, hfurther⟩ := h (f s) s hs hkind
  exact ⟨hsteps, hfurther⟩

theorem current_bind {f : Token → Parser β}
    (h : ∀ token, opens token.kind → Goes n (· = token.kind) far' (f token)) :
    Goes n opens far' (current >>= f) := by
  intro s hs hkind
  obtain ⟨hsteps, hfurther⟩ := h s.current hkind s hs rfl
  exact ⟨hsteps, hfurther⟩

theorem kind_bind {f : TokenKind → Parser β}
    (h : ∀ kind, opens kind → Goes n (· = kind) far' (f kind)) :
    Goes n opens far' (kind >>= f) := by
  intro s hs hkind
  obtain ⟨hsteps, hfurther⟩ := h s.kind hkind s hs rfl
  exact ⟨hsteps, hfurther⟩

theorem ite {c : Prop} [Decidable c] {p q : Parser α} (hp : c → Goes n opens far p)
    (hq : Goes n opens far q) : Goes n opens far (if c then p else q) := by
  split
  · next hc => exact hp hc
  · exact hq

theorem bind {p : Parser α} {f : α → Parser β} (hp : Goes n opens far p)
    (hf : ∀ a, Goes n anything far' (f a)) : Goes n opens far' (p >>= f) := by
  intro s hs hkind
  have hmoves := hp s hs hkind
  apply hmoves.bind (fun a s' hrun => hf a s' ?_ trivial) fun _ _ hfar => .inr hfar
  exact Nat.lt_of_le_of_lt (hmoves.remaining_le hrun) hs

theorem bind_far {p : Parser α} {f : α → Parser β} (hp : Goes (n + 1) opens always p)
    (hf : ∀ a, Goes n anything never (f a)) : Goes (n + 1) opens far' (p >>= f) := by
  intro s hs hkind
  have hmoves := hp s hs hkind
  apply hmoves.bind (fun a s' hrun => hf a s' ?_ trivial) fun _ _ _ => .inl trivial
  exact Nat.lt_of_lt_of_le (hmoves.remaining_lt hrun trivial) (Nat.le_of_lt_succ hs)

theorem advance (heof : ¬ opens .eof) : Goes n opens always Parser.advance := by
  intro s _ hkind
  have hne : s.kind ≠ .eof := fun h => heof (h ▸ hkind)
  have hindex : s.advance.index = s.index + 1 := Cursor.index_advance hne
  exact ⟨.single (.advance hne), fun _ _ _ => hindex ▸ Nat.lt_succ_self _⟩

theorem advance_bind {f : Token → Parser β} (heof : ¬ opens .eof)
    (hf : ∀ a, Goes n anything never (f a)) : Goes (n + 1) opens far' (Parser.advance >>= f) :=
  (advance heof).bind_far hf

theorem either {expected : TokenKind} {f : Token → Parser β} {q : Parser β} (h : expected ≠ .eof)
    (hf : ∀ token, Goes n anything never (f token)) (hq : Goes n anything far' q) :
    Goes n opens far' (kind >>= fun k => if k = expected then Parser.advance >>= f else q) :=
  kind_bind fun _ _ => ite (fun hkind => (advance_bind (fun heof => h (hkind ▸ heof.symm)) hf).le)
    hq.anywhere

theorem freshId : Goes n opens never freshId :=
  fun s _ _ => ⟨.single (.number s), fun _ _ hnever => absurd hnever id⟩

theorem node_bind {start : Position} {f : Node → Parser β} (h : ∀ node, Goes n opens far' (f node)) :
    Goes n opens far' (node start >>= f) := by
  intro s hs hkind
  obtain ⟨hsteps, hfurther⟩ := h ⟨s.nextId, s.spanSince start⟩ { s with nextId := s.nextId + 1 } hs hkind
  exact ⟨.head (.number s) hsteps, hfurther⟩

theorem made (start : Position) (f : Node → α) :
    Goes n opens never (node start >>= fun node => Pure.pure (f node)) := node_bind fun _ => pure id

theorem expectOr {expected : TokenKind} (h : expected ≠ .eof) (failure : Diagnostic) :
    Goes n opens always (expectOr expected failure) :=
  kind_bind fun _ _ => ite (fun hkind => advance fun heof => h (hkind ▸ heof.symm)) (fail _)

theorem expect {expected : TokenKind} (h : expected ≠ .eof) :
    Goes n opens always (expect expected) := look_bind fun _ => expectOr h _

theorem identifier (context : String) : Goes n opens never (identifier context) :=
  look_bind fun _ => (expectOr (by decide) _).bind fun _ => pure id

/-- Rounds that read a token when they go on come to an end by themselves. -/
theorem repeats {round : σ → Parser (Round σ β)}
    (h : ∀ state, Goes n anything Round.GoesOn (round state)) (state : σ) {s : Cursor}
    (hs : s.remaining < n) : Repeats round state s ((Parser.loop round state).run s) := by
  change Repeats round state s (loopFrom round state s)
  induction hm : s.remaining using Nat.strongRecOn generalizing state s with
  | _ m ih =>
    have hmoves := h state s hs trivial
    rw [loopFrom]
    rcases hrun : (round state).run s with ⟨d | (next | answer), s₁⟩
    · exact .failed hrun
    · have hlt : s₁.remaining < s.remaining := hmoves.remaining_lt hrun trivial
      dsimp only
      rw [if_pos hlt]
      exact .again hrun (ih _ (hm ▸ hlt) next (Nat.lt_trans hlt hs) rfl)
    · exact .done hrun

theorem steps_of_repeats {round : σ → Parser (Round σ β)}
    (h : ∀ state, Goes n anything Round.GoesOn (round state)) {state : σ} {s : Cursor}
    {result : Except Diagnostic β × Cursor} (hs : s.remaining < n)
    (hrepeats : Repeats round state s result) : s.Steps result.2 := by
  induction hrepeats with
  | failed hrun => exact (h _ _ hs trivial).steps_of_run hrun
  | done hrun => exact (h _ _ hs trivial).steps_of_run hrun
  | @again state s next s' result hrun _ ih =>
    have hround := h state s hs trivial
    exact (hround.steps_of_run hrun).trans (ih (Nat.lt_of_le_of_lt (hround.remaining_le hrun) hs))

theorem loop {round : σ → Parser (Round σ β)}
    (h : ∀ state, Goes n anything Round.GoesOn (round state)) (state : σ) :
    Goes n opens never (loop round state) := fun _ hs _ =>
  ⟨steps_of_repeats h hs (repeats h state hs), fun _ _ hnever => absurd hnever id⟩

theorem commaRound {item : Parser α} (h : Goes n anything far item) (stop : TokenKind)
    (items : List α) : Goes n opens Round.GoesOn (commaRound stop item items) :=
  kind_bind fun _ _ => ite (fun _ => pure id) <| h.weaken.bind fun _ =>
    either (by decide) (fun _ => pure id) (pure id)

end Goes

section types
variable {n : Nat} {opens : TokenKind → Prop}

theorem field_goes : Goes n opens never field :=
  .look_bind fun _ => (Goes.identifier _).bind fun _ => (Goes.expect (by decide)).bind fun _ =>
    (Goes.identifier _).bind fun _ => .made _ _

theorem fields_goes (stop : TokenKind) : Goes n opens never (fields stop) :=
  .loop (Goes.commaRound field_goes stop) []

theorem typeExp_goes : Goes n opens always (typeExp .tiger) := by
  apply Goes.le
  refine .kind_bind fun kind _ => ?_
  cases hform : Grammar.tiger.typeForm kind with
  | none => exact .unexpected
  | some form =>
    have heof : ¬ .eof = kind := not_eof_of_some rfl hform
    cases form with
    | name => exact (Goes.expect (by decide)).bind_far fun _ => .pure id
    | record =>
      exact .advance_bind heof fun _ => (fields_goes _).bind fun _ =>
        (Goes.expect (by decide)).bind fun _ => .look_bind fun _ => .pure id
    | array =>
      exact .advance_bind heof fun _ => (Goes.expect (by decide)).bind fun _ =>
        (Goes.identifier _).bind fun _ => .look_bind fun _ => .pure id

theorem annotation?_goes (context : String) : Goes n opens never (annotation? context) :=
  .either (by decide) (fun _ => (Goes.identifier _).bind fun _ => .pure id) (.pure id)

theorem block_goes (start : Position) (exps : List Exp) : Goes n opens never (block start exps) := by
  unfold block
  split
  · exact .pure id
  · exact .made start _

theorem constant_goes (operator : Token) (value : Int64) :
    Goes n opens never (constant operator value) := Goes.freshId.bind fun _ => .pure id

theorem literal_goes : Goes n opens always literal := by
  apply Goes.le
  refine .current_bind fun token _ => ?_
  split
  · next hkind =>
    split
    · exact .fail _
    · exact .advance_bind (by rw [hkind]; decide) fun _ => .made _ _
  · next hkind => exact .advance_bind (by rw [hkind]; decide) fun _ => .made _ _
  · next hkind => exact .advance_bind (by rw [hkind]; decide) fun _ => .made _ _
  · exact .unexpected

end types

section forms
variable {exp : Power → Parser Exp} {n : Nat} {opens : TokenKind → Prop}
  (hexp : ∀ power, Goes n anything always (exp power))
include hexp

theorem last_goes {α : Type} (start : Position) (power : Power) (f : Node → Exp → α) :
    Goes n opens never (exp power >>= fun e => node start >>= fun node => pure (f node e)) :=
  (hexp power).weaken.bind fun _ => .made _ _

theorem call_goes (start : Position) (function : String) :
    Goes n opens never (call exp start function) :=
  (Goes.expect (by decide)).bind fun _ => (Goes.loop (.commaRound (hexp _) _) []).bind fun _ =>
    (Goes.expect (by decide)).bind fun _ => .made _ _

theorem fieldExp_goes : Goes n opens never (fieldExp exp) :=
  .look_bind fun _ => (Goes.identifier _).bind fun _ => (Goes.expect (by decide)).bind fun _ =>
    (hexp _).weaken.bind fun _ => .look_bind fun _ => .pure id

theorem record_goes (start : Position) (typeName : String) :
    Goes n opens never (record exp start typeName) :=
  (Goes.expect (by decide)).bind fun _ =>
    (Goes.loop (.commaRound (fieldExp_goes hexp) _) []).bind fun _ =>
    (Goes.expect (by decide)).bind fun _ => .made _ _

theorem index_goes (heof : ¬ opens .eof) : Goes (n + 1) opens always (index exp) :=
  .advance_bind heof fun _ => (hexp _).weaken.bind fun _ =>
    (Goes.expect (by decide)).bind fun _ => .pure id

theorem suffixRound_goes (start : Position) (base : Var) :
    Goes n opens Round.GoesOn (suffixRound exp start base) := by
  refine .kind_bind fun kind _ => ?_
  split
  · exact (Goes.advance_bind (by decide) fun _ => (Goes.identifier _).bind fun _ => .made _ _).le
  · exact ((index_goes hexp (by decide)).bind_far fun _ => .made _ _).le
  · exact .pure id

theorem variableOrAssignment_goes (start : Position) (base : Var) :
    Goes n opens never (variableOrAssignment exp start base) :=
  (Goes.loop (suffixRound_goes hexp start) base).bind fun target => .either (by decide)
    (fun _ => last_goes hexp start .lowest fun node value => Exp.assign node target value) (.made _ _)

theorem identifierForm_goes (heof : ¬ opens .eof) :
    Goes (n + 1) opens always (identifierForm exp) := by
  refine .advance_bind heof fun token => .kind_bind fun kind _ => ?_
  split
  · exact call_goes hexp _ _
  · exact record_goes hexp _ _
  · refine .node_bind fun _ => (index_goes hexp (by decide)).le.bind fun index => ?_
    exact .either (by decide)
      (fun _ => last_goes hexp _ .lowest fun node init => Exp.array node _ index init)
      (.node_bind fun _ => variableOrAssignment_goes hexp _ _)
  · exact .node_bind fun _ => variableOrAssignment_goes hexp _ _

theorem logical_goes (heof : ¬ opens .eof) (left : Exp) (power : Power) :
    Goes (n + 1) opens always (logical exp left power) := by
  refine .advance_bind heof fun operator => (hexp power).weaken.bind fun right => ?_
  exact .ite (fun _ => (constant_goes operator 0).bind fun _ => .made _ _)
    ((constant_goes operator 1).bind fun _ => .made _ _)

theorem binary_goes (left : Exp) (power : Power) :
    Goes (n + 1) opens always (binary exp left power) := by
  refine .kind_bind fun kind _ => ?_
  cases hop : operator? kind with
  | none => exact .unexpected
  | some op =>
    have heof : ¬ .eof = kind := not_eof_of_some rfl hop
    exact .advance_bind heof fun _ =>
      last_goes hexp _ power fun node right => Exp.binary node op left right

theorem sequenceRound_goes (exps : List Exp) :
    Goes n opens Round.GoesOn (sequenceRound exp exps) :=
  .either (by decide) (fun _ => (hexp .lowest).weaken.bind fun _ => .pure id) (.pure id)

theorem sequence_goes (stop : TokenKind) : Goes n opens never (sequence exp stop) :=
  .kind_bind fun _ _ => .ite (fun _ => .pure id) <| (hexp .lowest).weaken.bind fun first =>
    .loop (sequenceRound_goes hexp) [first]

theorem dec_goes (heof : ¬ opens .eof) (form : DecForm) :
    Goes (n + 1) opens always (dec .tiger exp form) := by
  cases form with
  | type =>
    exact .advance_bind heof fun _ => (Goes.identifier _).bind fun _ =>
      (Goes.expect (by decide)).bind fun _ => typeExp_goes.bind fun _ => .made _ _
  | var =>
    exact .advance_bind heof fun _ => (Goes.identifier _).bind fun name =>
      (annotation?_goes _).bind fun typeName => (Goes.expect (by decide)).bind fun _ =>
      last_goes hexp _ .lowest fun node init => Dec.var node name typeName init
  | function =>
    exact .advance_bind heof fun _ => (Goes.identifier _).bind fun name =>
      (Goes.expect (by decide)).bind fun _ => (fields_goes _).bind fun params =>
      (Goes.expect (by decide)).bind fun _ => (annotation?_goes _).bind fun result =>
      (Goes.expect (by decide)).bind fun _ =>
      last_goes hexp _ .lowest fun node body => Dec.function node name params result body

theorem decsRound_goes (decs : List Dec) : Goes n opens Round.GoesOn (decsRound exp decs) := by
  refine .kind_bind fun kind _ => ?_
  cases hform : Grammar.tiger.declaration kind with
  | none => exact .pure id
  | some form =>
    have heof : ¬ .eof = kind := not_eof_of_some rfl hform
    exact ((dec_goes hexp heof form).bind_far fun _ => .pure id).le

theorem opened_goes (heof : ¬ opens .eof) (form : Opening) :
    Goes (n + 1) opens always (opened .tiger exp form) := by
  cases form with
  | literal => exact literal_goes
  | identifier => exact identifierForm_goes hexp heof
  | minus =>
    exact .advance_bind heof fun operator => (hexp _).weaken.bind fun _ =>
      (constant_goes operator 0).bind fun _ => .made _ _
  | group =>
    exact .advance_bind heof fun _ => (sequence_goes hexp _).bind fun exps =>
      (Goes.expect (by decide)).bind fun _ => block_goes _ exps
  | ifForm =>
    exact .advance_bind heof fun _ => (hexp _).weaken.bind fun test =>
      (Goes.expect (by decide)).bind fun _ => (hexp _).weaken.bind fun yes =>
      .either (by decide)
        (fun _ => last_goes hexp _ .lowest fun node no => Exp.ifThenElse node test yes no) (.made _ _)
  | whileForm =>
    exact .advance_bind heof fun _ => (hexp _).weaken.bind fun test =>
      (Goes.expect (by decide)).bind fun _ =>
      last_goes hexp _ .lowest fun node body => Exp.whileDo node test body
  | forForm =>
    exact .advance_bind heof fun _ => (Goes.identifier _).bind fun name =>
      (Goes.expect (by decide)).bind fun _ => (hexp _).weaken.bind fun lo =>
      (Goes.expect (by decide)).bind fun _ => (hexp _).weaken.bind fun hi =>
      (Goes.expect (by decide)).bind fun _ =>
      last_goes hexp _ .lowest fun node body => Exp.forTo node name lo hi body
  | breakForm => exact .advance_bind heof fun _ => .made _ _
  | letForm =>
    exact .advance_bind heof fun _ => (Goes.loop (decsRound_goes hexp) []).bind fun _ =>
      (Goes.expect (by decide)).bind fun _ => .look_bind fun _ =>
      (sequence_goes hexp _).bind fun exps => (block_goes _ exps).bind fun _ =>
      (Goes.expect (by decide)).bind fun _ => .made _ _

theorem climbRound_goes (power : Power) (left : Exp) :
    Goes n opens Round.GoesOn (climbRound exp power left) := by
  refine .kind_bind fun kind _ => ?_
  cases hjoining : Grammar.tiger.joining kind with
  | none => exact .pure id
  | some joint =>
    obtain ⟨next, form⟩ := joint
    have heof : ¬ .eof = kind := not_eof_of_some rfl hjoining
    have hjoined : Goes (n + 1) (· = kind) always (joined exp left next form) := by
      cases form with
      | logical => exact logical_goes hexp heof left next
      | binary => exact binary_goes hexp left next
    exact .ite (fun _ => .pure id) (hjoined.bind_far fun _ => .pure id).le

end forms

/-- Every expression that has been read has taken a token, by induction on the number of tokens after
the first: the expressions inside it start at a later one. -/
theorem expression_goes (n : Nat) (power : Power) :
    Goes n anything always (expression .tiger power) := by
  induction n generalizing power with
  | zero => exact fun s hs _ => absurd hs (Nat.not_lt_zero _)
  | succ n ih =>
    rw [expression_eq rfl]
    refine .kind_bind fun kind _ => ?_
    cases hform : Grammar.tiger.opening kind with
    | none => exact .unexpected
    | some form =>
      have heof : ¬ .eof = kind := not_eof_of_some rfl hform
      exact (opened_goes ih heof form).bind_far fun left => .loop (climbRound_goes ih power) left

def programBy (exp : Power → Parser Exp) : Parser Exp := do
  let e ← exp .lowest
  if (← kind) = .eof then return e else unexpected

theorem program_goes (n : Nat) : Goes n anything never program :=
  (expression_goes n .lowest).weaken.bind fun _ => .kind_bind fun _ _ =>
    .ite (fun _ => .pure id) .unexpected

/-- Expressions nested at most `depth` deep, without a look at the tokens that are left. What is
nested more deeply is left to `stuck`. -/
def nested (stuck : Power → Parser Exp) : Nat → Power → Parser Exp
  | 0, power => stuck power
  | depth + 1, power => kind >>= fun first =>
      match Grammar.tiger.opening first with
      | none => unexpected
      | some form =>
        opened .tiger (nested stuck depth) form >>= climb .tiger (nested stuck depth) power

/-- Expressions are never nested more deeply than there are tokens, so that nothing is left to
`stuck`. -/
theorem run_nested (stuck : Power → Parser Exp) {depth : Nat} {s : Cursor}
    (h : s.remaining < depth) (power : Power) :
    (nested stuck depth power).run s = (expression .tiger power).run s := by
  induction depth generalizing s power with
  | zero => exact absurd h (Nat.not_lt_zero _)
  | succ depth ih =>
    rw [expression_eq rfl, nested, run_kind_bind, run_kind_bind]
    cases hform : Grammar.tiger.opening s.kind with
    | none => rfl
    | some form =>
      have hpos : 0 < s.remaining := by
        apply Cursor.remaining_pos
        exact fun heof => not_eof_of_some rfl hform heof.symm
      have hinner : ∀ power, SameBelow s.remaining (nested stuck depth power)
          (expression .tiger power) := by
        intro power s' hlt
        have hsame := ih (Nat.lt_of_lt_of_le hlt (Nat.le_of_lt_succ h)) power
        exact ⟨hsame, hsame ▸ expressionFrom_forward rfl power s'⟩
      obtain ⟨heq, -, hlt⟩ := opened_same (g := .tiger) hinner hpos form s rfl
      dsimp only
      rw [run_bind, run_bind, ← heq]
      rcases hrun : (opened .tiger (nested stuck depth) form).run s with ⟨_ | left, s₁⟩
      · rfl
      · exact (climb_same hinner power left s₁ (hlt left s₁ hrun)).1

/-- At a place, the repetitions of the grammar end by what their rounds decide. -/
structure RepetitionsEnd (s : Cursor) : Prop where
  operators : ∀ power left, Repeats (climbRound (expression .tiger) power) left s
    ((climb .tiger (expression .tiger) power left).run s)
  suffixes : ∀ start base, Repeats (suffixRound (expression .tiger) start) base s
    ((suffixes (expression .tiger) start base).run s)
  arguments : Repeats (commaRound .closeParen (expression .tiger .lowest)) [] s
    ((commaSeparated .closeParen (expression .tiger .lowest)).run s)
  fieldExps : Repeats (commaRound .closeCurly (fieldExp (expression .tiger))) [] s
    ((commaSeparated .closeCurly (fieldExp (expression .tiger))).run s)
  fields : ∀ stop, Repeats (commaRound stop field) [] s ((fields stop).run s)
  expressions : ∀ stop first s', s.kind ≠ stop →
    (expression .tiger .lowest).run s = (.ok first, s') →
    Repeats (sequenceRound (expression .tiger)) [first] s'
      ((sequence (expression .tiger) stop).run s)
  decs : Repeats (decsRound (expression .tiger)) [] s ((decs .tiger (expression .tiger)).run s)

theorem repetitionsEnd (s : Cursor) : RepetitionsEnd s := by
  have hs : s.remaining < s.remaining + 1 := Nat.lt_succ_self _
  have hexp := expression_goes (s.remaining + 1)
  constructor
  · intro power left
    exact Goes.repeats (climbRound_goes hexp power) left hs
  · intro start base
    exact Goes.repeats (suffixRound_goes hexp start) base hs
  · exact Goes.repeats (Goes.commaRound (hexp .lowest) _) [] hs
  · exact Goes.repeats (Goes.commaRound (fieldExp_goes hexp) _) [] hs
  · intro stop
    exact Goes.repeats (Goes.commaRound field_goes stop) [] hs
  · intro stop first s' hstop hrun
    have hle := (hexp .lowest s hs trivial).remaining_le hrun
    have hsequence : (sequence (expression .tiger) stop).run s =
        (loop (sequenceRound (expression .tiger)) [first]).run s' := by
      unfold sequence
      rw [run_kind_bind, if_neg hstop, run_bind, hrun]
      rfl
    rw [hsequence]
    exact Goes.repeats (sequenceRound_goes hexp) [first] (Nat.lt_succ_of_le hle)
  · exact Goes.repeats (decsRound_goes hexp) [] hs

/-- Reading always comes to an end, whatever the tokens: expressions are nested at most as deep as
there are tokens, and every repetition ends by itself. What is read as an expression, a declaration or
a type has taken a token, and all reading is done by steps, which go no way back, leave no end token
behind and stay among the tokens. -/
theorem parse_progress (file : String) (tokens : List Token) :
    (∀ stuck depth, tokens.length < depth →
      (programBy (nested stuck depth)).run (.ofTokens file tokens) = parse file tokens) ∧
    (∀ s, RepetitionsEnd s) ∧
    (∀ s power, Moves always (expression .tiger power) s) ∧
    (∀ s form, Grammar.tiger.declaration s.kind = some form →
      Moves always (dec .tiger (expression .tiger) form) s) ∧
    (∀ s, Moves always (typeExp .tiger) s) ∧
    ((Cursor.ofTokens file tokens).tokens = tokens ∨ ∃ last, last.kind = .eof ∧
      (Cursor.ofTokens file tokens).tokens = tokens ++ [last]) ∧
    (Cursor.ofTokens file tokens).Steps (parse file tokens).2 ∧
    ∀ s s' : Cursor, s.Steps s' → s.Onward s' := by
  have hmoves : ∀ s power, Moves always (expression .tiger power) s := fun s power =>
    expression_goes (s.remaining + 1) power s (Nat.lt_succ_self _) trivial
  refine ⟨?_, repetitionsEnd, hmoves, ?_, ?_, Cursor.tokens_ofTokens_cases file tokens, ?_, ?_⟩
  · intro stuck depth hdepth
    have hremaining := Nat.lt_of_le_of_lt (Cursor.remaining_ofTokens_le file tokens) hdepth
    unfold programBy parse program
    rw [run_bind, run_bind, run_nested stuck hremaining]
  · intro s form hform
    have heof : ¬ .eof = s.kind := not_eof_of_some rfl hform
    have hgoes : Goes (s.remaining + 1) (· = s.kind) always (dec .tiger (expression .tiger) form) :=
      dec_goes (expression_goes s.remaining) heof form
    exact hgoes s (Nat.lt_succ_self _) rfl
  · intro s
    have hgoes : Goes (s.remaining + 1) anything always (typeExp .tiger) := typeExp_goes
    exact hgoes s (Nat.lt_succ_self _) trivial
  · exact (program_goes _ _ (Nat.lt_succ_self _) trivial).steps
  · intro s s' hsteps
    exact hsteps.onward

def interruptedWords : List Word :=
  [(.letWord, "let"), (.varWord, "var"), (.identifier, "x"), (.assignment, ":="), (.number, "1"),
    (.eof, "EOF"), (.inWord, "in")]

theorem parse_progress_interrupted :
    (programBy (nested (fun _ => unexpected) 8)).run (.ofTokens "cut.tig" (unplaced interruptedWords)) =
      parse "cut.tig" (unplaced interruptedWords) ∧
    (∃ s, s.index = 1 ∧ Grammar.tiger.declaration s.kind = some .var ∧
      Moves always (dec .tiger (expression .tiger) .var) s ∧
      ((dec .tiger (expression .tiger) .var).run s).2.index = 5) ∧
    (Cursor.ofTokens "cut.tig" (unplaced interruptedWords)).Onward
      (parse "cut.tig" (unplaced interruptedWords)).2 ∧
    (parse "cut.tig" (unplaced interruptedWords)).2.index = 5 := by
  obtain ⟨hends, -, -, hdec, -, -, hsteps, honward⟩ :=
    parse_progress "cut.tig" (unplaced interruptedWords)
  refine ⟨hends _ 8 (by decide), ⟨(Cursor.ofTokens "cut.tig" (unplaced interruptedWords)).advance,
    rfl, rfl, hdec _ _ rfl, by decide +kernel⟩, honward _ _ hsteps, by decide +kernel⟩

end Parser

end TigerLang

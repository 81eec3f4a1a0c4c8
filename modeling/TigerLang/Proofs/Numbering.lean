import TigerLang.Grammar.Program
import TigerLang.Proofs.NodeIds

/-! The parser gives every node a number of its own. What a reading keeps of the numbers given so
far is followed through all forms of the grammar. -/

namespace TigerLang

namespace Parser

structure Given (next : Nat) (ids : List Nat) : Prop where
  nodup : ids.Nodup
  below : ∀ id ∈ ids, id < next

theorem Given.mono {next : Nat} {ids ids' : List Nat} (h : Given next ids)
    (hcount : ∀ id, ids'.count id ≤ ids.count id) : Given next ids' where
  nodup := List.nodup_iff_count.mpr fun id =>
    Nat.le_trans (hcount id) (List.nodup_iff_count.mp h.nodup id)
  below id hid := by
    have hpos := List.count_pos_iff.mpr hid
    have hle := hcount id
    exact h.below id (List.count_pos_iff.mp (by omega))

theorem Given.fresh {next : Nat} {ids : List Nat} (h : Given next ids) :
    Given (next + 1) (next :: ids) where
  nodup := List.nodup_cons.mpr ⟨fun hmem => Nat.lt_irrefl _ (h.below next hmem), h.nodup⟩
  below id hid := by
    rcases List.mem_cons.mp hid with rfl | hid
    · exact Nat.lt_succ_self _
    · exact Nat.lt_succ_of_lt (h.below id hid)

/-- A reading that starts with the numbers in `held` leaves those in `ids` with what it has read. -/
def Numbers {α : Type} (held : List Nat) (p : Parser α) (ids : α → List Nat) : Prop :=
  ∀ s a s', p.run s = (.ok a, s') → Given s.nextId held → Given s'.nextId (ids a)

namespace Numbers
variable {α β σ : Type} {held : List Nat} {ids : α → List Nat}

theorem pure {a : α} (hcount : ∀ id, (ids a).count id ≤ held.count id) :
    Numbers held (pure a) ids := by
  intro s b s' hrun h
  cases hrun
  exact h.mono hcount

theorem fewer {p : Parser α} {held' : List Nat} (h : Numbers held' p ids)
    (hcount : ∀ id, held'.count id ≤ held.count id) : Numbers held p ids :=
  fun s a s' hrun hheld => h s a s' hrun (hheld.mono hcount)

theorem bind {p : Parser α} {f : α → Parser β} {ids' : β → List Nat} (hp : Numbers held p ids)
    (hf : ∀ a, Numbers (ids a) (f a) ids') : Numbers held (p >>= f) ids' := by
  intro s b s' hrun h
  rw [run_bind] at hrun
  split at hrun
  · next a s₁ hfirst => exact hf a _ _ _ hrun (hp _ _ _ hfirst h)
  · simp at hrun

theorem look (f : Cursor → α) : Numbers held (look f) fun _ => held := by
  intro s a s' hrun h
  cases hrun
  exact h

theorem unexpected : Numbers held (unexpected : Parser α) ids := by
  intro s a s' hrun
  simp [Parser.unexpected] at hrun

theorem fail (d : Diagnostic) : Numbers held (fail d : Parser α) ids := by
  intro s a s' hrun
  simp [Parser.fail] at hrun

theorem advance : Numbers held advance fun _ => held := by
  intro s a s' hrun h
  cases hrun
  have hnext : s.advance.nextId = s.nextId := by
    unfold Cursor.advance
    split <;> rfl
  rwa [hnext]

theorem freshId : Numbers held freshId fun id => id :: held := by
  intro s a s' hrun h
  cases hrun
  exact h.fresh

theorem node (start : Position) : Numbers held (node start) fun node => node.id :: held :=
  freshId.bind fun _ => (look _).bind fun _ => pure fun _ => Nat.le_refl _

theorem ite {c : Prop} [Decidable c] {p q : Parser α} (hp : Numbers held p ids)
    (hq : Numbers held q ids) : Numbers held (if c then p else q) ids := by
  split
  · exact hp
  · exact hq

theorem expectOr (expected : TokenKind) (failure : Diagnostic) :
    Numbers held (expectOr expected failure) fun _ => held :=
  (look _).bind fun _ => ite advance (fail _)

theorem expect (expected : TokenKind) : Numbers held (expect expected) fun _ => held :=
  (look _).bind fun _ => expectOr _ _

theorem identifier (context : String) : Numbers held (identifier context) fun _ => held :=
  (look _).bind fun _ => (expectOr _ _).bind fun _ => pure fun _ => Nat.le_refl _

def afterRound (between : σ → List Nat) (ids : β → List Nat) : Round σ β → List Nat
  | .again next => between next
  | .done answer => ids answer

theorem loop {round : σ → Parser (Round σ β)} (between : σ → List Nat) {ids : β → List Nat}
    (h : ∀ state, Numbers (between state) (round state) (afterRound between ids)) (state : σ) :
    Numbers (between state) (loop round state) ids := by
  intro s
  change ∀ a s', loopFrom round state s = (.ok a, s') → _
  fun_induction loopFrom round state s with
  | case1 state s e s₁ hround => intro a s' hrun; simp at hrun
  | case2 state s answer s₁ hround =>
    intro a s' hrun hheld
    cases hrun
    exact h state _ _ _ hround hheld
  | case3 state s next s₁ hround hlt ih =>
    intro a s' hrun hheld
    exact ih a s' hrun (h state _ _ _ hround hheld)
  | case4 state s next s₁ hround hlt =>
    intro a s' hrun
    simp [Parser.unexpected] at hrun

theorem commaSeparated {item : Parser α} {itemIds : α → List Nat}
    (h : ∀ held, Numbers held item fun a => itemIds a ++ held) (stop : TokenKind) :
    Numbers held (commaSeparated stop item) fun items => items.flatMap itemIds ++ held := by
  refine loop (fun items => items.flatMap itemIds ++ held) (fun items => ?_) []
  refine (look _).bind fun _ => ite (pure fun _ => Nat.le_refl _) ((h _).bind fun a => ?_)
  refine (look _).bind fun _ => ite (advance.bind fun _ => pure fun id => ?_) (pure fun id => ?_)
  · simp only [afterRound, List.flatMap_append, List.count_append, List.flatMap_singleton]
    omega
  · simp only [afterRound, List.flatMap_append, List.count_append, List.flatMap_singleton]
    omega

end Numbers

def Reads {α : Type} (ids : α → List Nat) (p : Parser α) : Prop :=
  ∀ held, Numbers held p fun a => ids a ++ held

theorem field_reads : Reads (fun field => [field.node.id]) field := fun _ =>
  (Numbers.look _).bind fun _ => (Numbers.identifier _).bind fun _ => (Numbers.expect _).bind fun _ =>
    (Numbers.identifier _).bind fun _ => (Numbers.node _).bind fun _ => .pure fun _ => Nat.le_refl _

theorem fields_reads (stop : TokenKind) :
    Reads (fun fields => fields.map (·.node.id)) (fields stop) := by
  intro held
  simp only [List.map_eq_flatMap]
  exact .commaSeparated field_reads stop

theorem typeExp_reads (g : Grammar) : Reads TypeExp.ids (typeExp g) := by
  intro held
  refine (Numbers.look _).bind fun kind => ?_
  cases g.typeForm kind with
  | none => exact .unexpected
  | some form =>
    cases form with
    | name => exact (Numbers.expect _).bind fun _ => .pure fun _ => Nat.le_refl _
    | record =>
      exact Numbers.advance.bind fun _ => (fields_reads _ _).bind fun fields =>
        (Numbers.expect _).bind fun _ => (Numbers.look _).bind fun _ => .pure fun _ => Nat.le_refl _
    | array =>
      exact Numbers.advance.bind fun _ => (Numbers.expect _).bind fun _ =>
        (Numbers.identifier _).bind fun _ => (Numbers.look _).bind fun _ => .pure fun _ => Nat.le_refl _

theorem annotation?_numbers (held : List Nat) (context : String) :
    Numbers held (annotation? context) fun _ => held :=
  (Numbers.look _).bind fun _ => .ite
    (Numbers.advance.bind fun _ => (Numbers.identifier _).bind fun _ => .pure fun _ => Nat.le_refl _)
    (.pure fun _ => Nat.le_refl _)

theorem constant_reads (operator : Token) (value : Int64) : Reads Exp.ids (constant operator value) :=
  fun _ => Numbers.freshId.bind fun _ => .pure fun _ => Nat.le_refl _

theorem literal_reads : Reads Exp.ids literal := by
  refine fun held => (Numbers.look _).bind fun token => ?_
  split
  · split
    · exact .fail _
    · exact Numbers.advance.bind fun _ => (Numbers.node _).bind fun _ => .pure fun _ => Nat.le_refl _
  · exact Numbers.advance.bind fun _ => (Numbers.node _).bind fun _ => .pure fun _ => Nat.le_refl _
  · exact Numbers.advance.bind fun _ => (Numbers.node _).bind fun _ => .pure fun _ => Nat.le_refl _
  · exact .unexpected

theorem breakForm_reads : Reads Exp.ids breakForm := fun _ =>
  Numbers.advance.bind fun _ => (Numbers.node _).bind fun _ => .pure fun _ => Nat.le_refl _

theorem block_numbers (held : List Nat) (start : Position) (exps : List Exp) :
    Numbers (Exp.idsList exps ++ held) (block start exps) fun e => e.ids ++ held := by
  unfold block
  split
  · refine .pure fun id => ?_
    simp only [Exp.idsList, List.append_nil]
    exact Nat.le_refl _
  · exact (Numbers.node _).bind fun _ => .pure fun _ => Nat.le_refl _

theorem typeDec_reads (g : Grammar) : Reads Dec.ids (typeDec g) := by
  refine fun held => Numbers.advance.bind fun _ => (Numbers.identifier _).bind fun name =>
    (Numbers.expect _).bind fun _ => (typeExp_reads g _).bind fun definition =>
    (Numbers.node _).bind fun node => .pure fun id => ?_
  simp only [Dec.ids, Dec.idsList, List.append_nil]
  exact Nat.le_refl _

section forms
variable {g : Grammar} {exp : Power → Parser Exp} (hexp : ∀ power, Reads Exp.ids (exp power))
include hexp

theorem call_reads (start : Position) (function : String) :
    Reads Exp.ids (call exp start function) := fun _ =>
  (Numbers.expect _).bind fun _ => (Numbers.commaSeparated (hexp _) _).bind fun args =>
    (Numbers.expect _).bind fun _ => (Numbers.node _).bind fun node => .pure fun id => by
      simp only [Exp.ids, Exp.idsList_eq_flatMap]
      exact Nat.le_refl _

theorem fieldExp_reads : Reads FieldExp.ids (fieldExp exp) := fun _ =>
  (Numbers.look _).bind fun _ => (Numbers.identifier _).bind fun _ => (Numbers.expect _).bind fun _ =>
    (hexp _ _).bind fun _ => (Numbers.look _).bind fun _ => .pure fun _ => Nat.le_refl _

theorem record_reads (start : Position) (typeName : String) :
    Reads Exp.ids (record exp start typeName) := fun _ =>
  (Numbers.expect _).bind fun _ =>
    (Numbers.commaSeparated (fieldExp_reads hexp) _).bind fun fields =>
    (Numbers.expect _).bind fun _ => (Numbers.node _).bind fun node => .pure fun id => by
      simp only [Exp.ids, FieldExp.idsList_eq_flatMap]
      exact Nat.le_refl _

theorem index_reads : Reads Exp.ids (index exp) := fun _ =>
  Numbers.advance.bind fun _ => (hexp _ _).bind fun _ => (Numbers.expect _).bind fun _ =>
    .pure fun _ => Nat.le_refl _

theorem suffixes_numbers (held : List Nat) (start : Position) (base : Var) :
    Numbers (base.ids ++ held) (suffixes exp start base) fun v => v.ids ++ held := by
  refine .loop (fun base => base.ids ++ held) (fun base => (Numbers.look _).bind fun kind => ?_) base
  split
  · exact Numbers.advance.bind fun _ => (Numbers.identifier _).bind fun _ =>
      (Numbers.node _).bind fun _ => .pure fun _ => Nat.le_refl _
  · refine (index_reads hexp _).bind fun index => (Numbers.node _).bind fun node => .pure fun id => ?_
    simp only [Numbers.afterRound, Var.ids, List.count_cons, List.count_append, List.cons_append]
    omega
  · exact .pure fun _ => Nat.le_refl _

theorem variableOrAssignment_numbers (held : List Nat) (start : Position) (base : Var) :
    Numbers (base.ids ++ held) (variableOrAssignment exp start base) fun e => e.ids ++ held := by
  refine (suffixes_numbers hexp held start base).bind fun target => (Numbers.look _).bind fun _ =>
    .ite (Numbers.advance.bind fun _ => (hexp _ _).bind fun value => (Numbers.node _).bind fun node =>
      .pure fun id => ?_) ((Numbers.node _).bind fun _ => .pure fun _ => Nat.le_refl _)
  simp only [Exp.ids, List.count_cons, List.count_append, List.cons_append]
  omega

/-- The node made for the base of a subscript is not used when an array is built. -/
theorem identifierForm_reads : Reads Exp.ids (identifierForm exp) := by
  intro held
  refine Numbers.advance.bind fun token => (Numbers.look _).bind fun kind => ?_
  split
  · exact call_reads hexp _ _ _
  · exact record_reads hexp _ _ _
  · refine (Numbers.node _).bind fun base => (index_reads hexp _).bind fun index =>
      (Numbers.look _).bind fun _ => .ite ?_ ?_
    · refine Numbers.advance.bind fun _ => (hexp _ _).bind fun init => (Numbers.node _).bind fun node =>
        .pure fun id => ?_
      simp only [Exp.ids, List.count_cons, List.count_append, List.cons_append]
      omega
    · refine (Numbers.node _).bind fun node =>
        (variableOrAssignment_numbers hexp held _ _).fewer fun id => ?_
      simp only [Var.ids, List.count_cons, List.count_append, List.cons_append, List.nil_append]
      omega
  · exact (Numbers.node _).bind fun node => variableOrAssignment_numbers hexp _ _ _

theorem binary_numbers (held : List Nat) (left : Exp) (power : Power) :
    Numbers (left.ids ++ held) (binary exp left power) fun e => e.ids ++ held := by
  refine (Numbers.look _).bind fun kind => ?_
  split
  · exact .unexpected
  · refine Numbers.advance.bind fun _ => (hexp _ _).bind fun right => (Numbers.node _).bind fun node =>
      .pure fun id => ?_
    simp only [Exp.ids, List.count_cons, List.count_append, List.cons_append]
    omega

theorem logical_numbers (held : List Nat) (left : Exp) (power : Power) :
    Numbers (left.ids ++ held) (logical exp left power) fun e => e.ids ++ held := by
  refine Numbers.advance.bind fun operator => (hexp _ _).bind fun right => .ite ?_ ?_
  all_goals
    refine (constant_reads _ _ _).bind fun value => (Numbers.node _).bind fun node => .pure fun id => ?_
    simp only [Exp.ids, List.count_cons, List.count_append, List.cons_append]
    omega

theorem minus_reads : Reads Exp.ids (minus exp) := by
  refine fun _ => Numbers.advance.bind fun _ => (hexp _ _).bind fun operand =>
    (constant_reads _ _ _).bind fun zero => (Numbers.node _).bind fun node => .pure fun id => ?_
  simp only [Exp.ids, List.count_cons, List.count_append, List.cons_append]
  omega

theorem sequence_reads (stop : TokenKind) : Reads Exp.idsList (sequence exp stop) := by
  refine fun held => (Numbers.look _).bind fun _ => .ite (.pure fun _ => Nat.le_refl _)
    ((hexp _ _).bind fun first => ?_)
  simp only [Exp.idsList_eq_flatMap]
  refine (Numbers.loop (fun exps => exps.flatMap Exp.ids ++ held)
    (fun exps => (Numbers.look _).bind fun _ => .ite (Numbers.advance.bind fun _ =>
      (hexp _ _).bind fun next => .pure fun id => ?_) (.pure fun _ => Nat.le_refl _)) [first]).fewer
    fun id => ?_
  · simp only [Numbers.afterRound, List.flatMap_append, List.count_append, List.flatMap_singleton]
    omega
  · simp only [List.flatMap_singleton]
    exact Nat.le_refl _

theorem group_reads : Reads Exp.ids (group exp) := fun _ =>
  Numbers.advance.bind fun _ => (sequence_reads hexp _ _).bind fun exps =>
    (Numbers.expect _).bind fun _ => block_numbers _ _ exps

theorem ifForm_reads : Reads Exp.ids (ifForm exp) := by
  refine fun held => Numbers.advance.bind fun _ => (hexp _ _).bind fun test =>
    (Numbers.expect _).bind fun _ => (hexp _ _).bind fun yes => (Numbers.look _).bind fun _ => .ite ?_ ?_
  · refine Numbers.advance.bind fun _ => (hexp _ _).bind fun no => (Numbers.node _).bind fun node =>
      .pure fun id => ?_
    simp only [Exp.ids, List.count_cons, List.count_append, List.cons_append]
    omega
  · refine (Numbers.node _).bind fun node => .pure fun id => ?_
    simp only [Exp.ids, List.count_cons, List.count_append, List.cons_append]
    omega

theorem whileForm_reads : Reads Exp.ids (whileForm exp) := by
  refine fun held => Numbers.advance.bind fun _ => (hexp _ _).bind fun test =>
    (Numbers.expect _).bind fun _ => (hexp _ _).bind fun body => (Numbers.node _).bind fun node =>
    .pure fun id => ?_
  simp only [Exp.ids, List.count_cons, List.count_append, List.cons_append]
  omega

theorem forForm_reads : Reads Exp.ids (forForm exp) := by
  refine fun held => Numbers.advance.bind fun _ => (Numbers.identifier _).bind fun name =>
    (Numbers.expect _).bind fun _ => (hexp _ _).bind fun lo => (Numbers.expect _).bind fun _ =>
    (hexp _ _).bind fun hi => (Numbers.expect _).bind fun _ => (hexp _ _).bind fun body =>
    (Numbers.node _).bind fun node => .pure fun id => ?_
  simp only [Exp.ids, List.count_cons, List.count_append, List.cons_append]
  omega

theorem varDec_reads : Reads Dec.ids (varDec exp) := by
  refine fun held => Numbers.advance.bind fun _ => (Numbers.identifier _).bind fun name =>
    (annotation?_numbers _ _).bind fun typeName => (Numbers.expect _).bind fun _ =>
    (hexp _ _).bind fun init => (Numbers.node _).bind fun node => .pure fun id => ?_
  simp only [Dec.ids, Dec.idsList, List.append_nil]
  exact Nat.le_refl _

theorem functionDec_reads : Reads Dec.ids (functionDec exp) := by
  refine fun held => Numbers.advance.bind fun _ => (Numbers.identifier _).bind fun name =>
    (Numbers.expect _).bind fun _ => (fields_reads _ _).bind fun params =>
    (Numbers.expect _).bind fun _ => (annotation?_numbers _ _).bind fun result =>
    (Numbers.expect _).bind fun _ => (hexp _ _).bind fun body => (Numbers.node _).bind fun node =>
    .pure fun id => ?_
  simp only [Dec.ids, Dec.idsList, List.append_nil, List.count_cons, List.count_append,
    List.cons_append]
  omega

theorem dec_reads (form : DecForm) : Reads Dec.ids (dec g exp form) := by
  cases form with
  | type => exact typeDec_reads g
  | var => exact varDec_reads hexp
  | function => exact functionDec_reads hexp

theorem decs_reads : Reads Dec.idsList (decs g exp) := by
  intro held
  simp only [Dec.idsList_eq_flatMap]
  refine .loop (fun decs => decs.flatMap Dec.ids ++ held) (fun decs =>
    (Numbers.look _).bind fun kind => ?_) []
  split
  · exact .pure fun _ => Nat.le_refl _
  · refine (dec_reads hexp _ _).bind fun next => .pure fun id => ?_
    simp only [Numbers.afterRound, List.flatMap_append, List.count_append, List.flatMap_singleton]
    omega

theorem letForm_reads : Reads Exp.ids (letForm g exp) := by
  refine fun held => Numbers.advance.bind fun _ => (decs_reads hexp _).bind fun decs =>
    (Numbers.expect _).bind fun _ => (Numbers.look _).bind fun _ =>
    (sequence_reads hexp _ _).bind fun exps => (block_numbers _ _ exps).bind fun body =>
    (Numbers.expect _).bind fun _ => (Numbers.node _).bind fun node => .pure fun id => ?_
  simp only [Exp.ids, List.count_cons, List.count_append, List.cons_append]
  omega

theorem opened_reads (form : Opening) : Reads Exp.ids (opened g exp form) := by
  cases form with
  | literal => exact literal_reads
  | identifier => exact identifierForm_reads hexp
  | minus => exact minus_reads hexp
  | group => exact group_reads hexp
  | ifForm => exact ifForm_reads hexp
  | whileForm => exact whileForm_reads hexp
  | forForm => exact forForm_reads hexp
  | breakForm => exact breakForm_reads
  | letForm => exact letForm_reads hexp

theorem climb_numbers (held : List Nat) (power : Power) (left : Exp) :
    Numbers (left.ids ++ held) (climb g exp power left) fun e => e.ids ++ held := by
  refine .loop (fun left => left.ids ++ held) (fun left => (Numbers.look _).bind fun kind => ?_) left
  split
  · exact .pure fun _ => Nat.le_refl _
  · next next form _ =>
    refine .ite (.pure fun _ => Nat.le_refl _) (Numbers.bind ?_ fun _ => .pure fun _ => Nat.le_refl _)
    cases form with
    | logical => exact logical_numbers hexp held left next
    | binary => exact binary_numbers hexp held left next

end forms

theorem expression_reads (g : Grammar) (power : Power) : Reads Exp.ids (expression g power) := by
  intro held s
  change ∀ e s', expressionFrom g power s = (.ok e, s') → _
  induction hn : s.remaining using Nat.strongRecOn generalizing power s held with
  | _ n ih =>
    intro e s' hrun
    rw [expressionFrom] at hrun
    split at hrun
    · simp [unexpected] at hrun
    · next form hform =>
      have hinner : ∀ innerPower, Reads Exp.ids (⟨fun s' =>
          if s'.remaining < s.remaining then expressionFrom g innerPower s'
          else unexpected.run s'⟩ : Parser Exp) := by
        intro innerPower held s₁ e₁ s₂ hrun₁
        dsimp only at hrun₁
        split at hrun₁
        · next hlt => exact ih _ (hn ▸ hlt) innerPower held s₁ rfl e₁ s₂ hrun₁
        · simp [unexpected] at hrun₁
      exact (opened_reads hinner form held).bind (fun left => climb_numbers hinner held power left)
        s e s' hrun

end Parser

theorem parse_given {file : String} {tokens : List Token} {e : Exp}
    (h : (parse file tokens).1 = .ok e) : Parser.Given (parse file tokens).2.nextId e.ids := by
  have hprogram : Parser.Numbers [] Parser.program Exp.ids :=
    (Parser.expression_reads _ _ _).bind fun e => (Parser.Numbers.look _).bind fun _ =>
      .ite (.pure fun _ => by simp) .unexpected
  exact hprogram _ e _ (Prod.ext h rfl) ⟨List.nodup_nil, by simp⟩

theorem parse_nodup {file : String} {tokens : List Token} {e : Exp}
    (h : (parse file tokens).1 = .ok e) : e.ids.Nodup := (parse_given h).nodup

theorem parse_eq_ok_getD {file : String} {tokens : List Token}
    (h : (parse file tokens).1.isOk = true) :
    (parse file tokens).1 = .ok ((parse file tokens).1.toOption.getD default) := by
  cases hresult : (parse file tokens).1 with
  | ok e => rfl
  | error d => simp [hresult, Except.isOk, Except.toBool] at h

end TigerLang

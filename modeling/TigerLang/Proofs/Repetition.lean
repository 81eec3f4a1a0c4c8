import TigerLang.Proofs.Spelling

/-! What repetitions take: operators after an expression, items with commas between them, and the
expressions of a sequence. -/

namespace TigerLang

open Word

namespace Parser

/-- What does not go on with an expression whose operators bind more tightly than `power`. -/
def Stops (power : Power) (kind : TokenKind) : Prop :=
  ∀ next form, Grammar.tiger.joining kind = some (next, form) → next ≤ power

def climbRound (exp : Power → Parser Exp) (power : Power) (left : Exp) : Parser (Round Exp Exp) := do
  match Grammar.tiger.joining (← kind) with
  | none => return .done left
  | some (next, form) =>
    if next ≤ power then return .done left
    return .again (← joined exp left next form)

theorem climb_eq (exp : Power → Parser Exp) (power : Power) (left : Exp) :
    climb .tiger exp power left = loop (climbRound exp power) left := rfl

theorem climb_stops (exp : Power → Parser Exp) (power : Power) (left : Exp) :
    Takes [] (Stops power) (climb .tiger exp power left) (· = left) := by
  refine Takes.loop_done (Takes.kind_nil fun kind hkind => ?_)
  split
  · exact .pure ⟨left, rfl, rfl⟩
  · next next form hjoining =>
    rw [if_pos (hkind next form hjoining)]
    exact .pure ⟨left, rfl, rfl⟩

theorem expression_taken {word : Word} {words words' : List Word} {form : Opening} {power : Power}
    {mid follow : TokenKind → Prop} {goodLeft good : Exp → Prop}
    (hform : Grammar.tiger.opening word.1 = some form)
    (hopen : Takes (word :: words) mid (opened .tiger (expression .tiger) form) goodLeft)
    (hclimb : ∀ left, goodLeft left →
      Takes words' follow (climb .tiger (expression .tiger) power left) good)
    (hleads : Leads words' follow mid) :
    Takes (word :: (words ++ words')) follow (expression .tiger power) good := by
  rw [expression_eq rfl]
  apply Takes.kind_cons
  rw [hform]
  exact hopen.bind hclimb hleads

theorem form_taken {word : Word} {words : List Word} {form : Opening} {power : Power}
    {mid follow : TokenKind → Prop} {good : Exp → Prop}
    (hform : Grammar.tiger.opening word.1 = some form)
    (hopen : Takes (word :: words) mid (opened .tiger (expression .tiger) form) good)
    (hfollow : ∀ kind, follow kind → Stops power kind ∧ mid kind) :
    Takes (word :: words) follow (expression .tiger power) good := by
  have hclimb : ∀ left, good left →
      Takes [] follow (climb .tiger (expression .tiger) power left) good := by
    intro left hleft
    refine ((climb_stops _ power left).before fun kind hkind => (hfollow kind hkind).1).imp ?_
    rintro _ rfl
    exact hleft
  rw [expression_eq rfl]
  apply Takes.kind_cons
  rw [hform]
  exact hopen.andThen hclimb fun kind hkind => (hfollow kind hkind).2

theorem stops_of_none {kind : TokenKind} (h : Grammar.tiger.joining kind = none) (power : Power) :
    Stops power kind := by
  intro next form hjoining
  rw [h] at hjoining
  cases hjoining

section lists
variable {α γ : Type} {item : Parser α} {good : α → Prop} {stop : TokenKind} {word : Word}
  {words : List Word}

def commaRound (stop : TokenKind) (item : Parser α) (items : List α) :
    Parser (Round (List α) (List α)) := do
  if (← kind) = stop then return .done items
  let a ← item
  if (← kind) = .comma then
    let _ ← advance
    return .again (items ++ [a])
  return .done (items ++ [a])

theorem commaRound_stop (items : List α) :
    Takes [] (· = stop) (commaRound stop item items) (· = .done items) := by
  refine Takes.kind_nil fun kind hkind => ?_
  rw [if_pos hkind]
  exact .pure rfl

theorem commaRound_again (h : Takes (word :: words) (· = .comma) item good) (hstop : word.1 ≠ stop)
    (items : List α) : Takes (word :: (words ++ [fixed .comma])) anything
      (commaRound stop item items) fun r => ∃ next, r = .again next ∧
        ∃ a, good a ∧ next = items ++ [a] := by
  apply Takes.kind_cons
  rw [if_neg hstop, ← List.cons_append]
  refine h.bind (fun a ha => Takes.kind_cons ?_) rfl
  rw [fixed_fst, if_pos rfl]
  exact Takes.advance_bind fun _ _ => .pure ⟨_, rfl, a, ha, rfl⟩

theorem commaRound_last (h : Takes (word :: words) (· = stop) item good) (hstop : word.1 ≠ stop)
    (hcomma : stop ≠ .comma) (items : List α) : Takes (word :: words) (· = stop)
      (commaRound stop item items) fun r => ∃ answer, r = .done answer ∧
        ∃ a, good a ∧ answer = items ++ [a] := by
  apply Takes.kind_cons
  rw [if_neg hstop]
  refine h.andThen (fun a ha => Takes.kind_nil fun kind hkind => ?_) fun _ hkind => hkind
  subst hkind
  rw [if_neg hcomma]
  exact .pure ⟨_, rfl, a, ha, rfl⟩

theorem commaSeparated_taken {spell : α → List Word} {view : α → γ} (hcomma : stop ≠ .comma)
    (xs : List α) (hopen : ∀ x ∈ xs, ∃ word words, spell x = word :: words ∧ word.1 ≠ stop)
    (h : ∀ x ∈ xs, Takes (spell x) (fun kind => kind = .comma ∨ kind = stop) item
      fun a => view a = view x) :
    Takes (separated .comma (xs.map spell)) (· = stop) (commaSeparated stop item)
      fun items => items.map view = xs.map view := by
  suffices hfound : ∀ found, Takes (separated .comma (xs.map spell)) (· = stop)
      (loop (commaRound stop item) found)
      fun items => items.map view = found.map view ++ xs.map view from hfound []
  induction xs with
  | nil =>
    intro found
    refine Takes.loop_done ((commaRound_stop found).imp fun r hr => ⟨found, hr, ?_⟩)
    simp
  | cons x xs ih =>
    intro found
    obtain ⟨word, words, hwords, hstop⟩ := hopen x List.mem_cons_self
    have hitem := hwords ▸ h x List.mem_cons_self
    cases xs with
    | nil =>
      have hlast := commaRound_last (hitem.before fun _ hkind => .inr hkind) hstop hcomma found
      simp only [separated, List.map_cons, List.map_nil, List.intercalate_singleton, hwords]
      refine Takes.loop_done (hlast.imp ?_)
      rintro r ⟨answer, hr, a, ha, rfl⟩
      exact ⟨found ++ [a], hr, by simp [ha]⟩
    | cons y ys =>
      have hagain := commaRound_again (hitem.before fun _ hkind => .inl hkind) hstop found
      have hrest := ih (fun z hz => hopen z (List.mem_cons_of_mem _ hz))
        fun z hz => h z (List.mem_cons_of_mem _ hz)
      simp only [separated, List.map_cons, List.intercalate_cons_cons, hwords] at hrest ⊢
      refine hagain.loop_again (by simp) ?_ (leads_anything _ _)
      rintro next ⟨a, ha, rfl⟩
      refine (hrest (found ++ [a])).imp fun items hitems => ?_
      rw [hitems]
      simp [ha]

end lists

section sequence
variable {exp : Power → Parser Exp} {good : Exp → Prop} {stop : TokenKind} {word : Word}
  {words : List Word}

def sequenceRound (exp : Power → Parser Exp) (exps : List Exp) :
    Parser (Round (List Exp) (List Exp)) := do
  if (← kind) = .semicolon then
    let _ ← advance
    let next ← exp .lowest
    return .again (exps ++ [next])
  return .done exps

theorem sequenceRound_stop (hsemicolon : stop ≠ .semicolon) (exps : List Exp) :
    Takes [] (· = stop) (sequenceRound exp exps) (· = .done exps) := by
  refine Takes.kind_nil fun kind hkind => ?_
  subst hkind
  rw [if_neg hsemicolon]
  exact .pure rfl

theorem sequenceRound_again {follow : TokenKind → Prop} (h : Takes words follow (exp .lowest) good)
    (exps : List Exp) : Takes (fixed .semicolon :: words) follow (sequenceRound exp exps)
      fun r => ∃ next, r = .again next ∧ ∃ e, good e ∧ next = exps ++ [e] := by
  apply Takes.kind_cons
  rw [fixed_fst, if_pos rfl]
  exact Takes.advance_bind fun _ _ =>
    h.andThen (fun e he => .pure ⟨_, rfl, e, he, rfl⟩) fun _ hkind => hkind

theorem sequenceRest_taken (hsemicolon : stop ≠ .semicolon) (xs : List Exp)
    (h : ∀ x ∈ xs, Takes x.written (fun kind => kind = .semicolon ∨ kind = stop) (exp .lowest)
      fun e => e.bare = x.bare) (found : List Exp) :
    Takes (xs.flatMap fun x => fixed .semicolon :: x.written) (· = stop)
      (loop (sequenceRound exp) found)
      fun exps => exps.map Exp.bare = found.map Exp.bare ++ xs.map Exp.bare := by
  induction xs generalizing found with
  | nil =>
    refine Takes.loop_done ((sequenceRound_stop hsemicolon found).imp fun r hr => ⟨found, hr, ?_⟩)
    simp
  | cons x xs ih =>
    have hagain := sequenceRound_again (h x List.mem_cons_self) found
    rw [List.flatMap_cons]
    refine hagain.loop_again (by simp) ?_ ?_
    · rintro next ⟨e, he, rfl⟩
      refine (ih (fun z hz => h z (List.mem_cons_of_mem _ hz)) _).imp fun exps hexps => ?_
      rw [hexps]
      simp [he]
    · cases xs with
      | nil => exact fun _ hkind => .inr hkind
      | cons y ys => exact .inl rfl

theorem separated_cons (mark : TokenKind) (first : List Word) (rest : List (List Word)) :
    separated mark (first :: rest) = first ++ rest.flatMap (fixed mark :: ·) := by
  induction rest generalizing first with
  | nil => simp [separated]
  | cons second rest ih =>
    rw [separated, List.intercalate_cons_cons, ← separated, ih, List.flatMap_cons]
    simp

theorem sequence_taken (hstop : stop ≠ .openParen) (hsemicolon : stop ≠ .semicolon) (xs : List Exp)
    (h : ∀ x ∈ xs, Takes x.written (fun kind => kind = .semicolon ∨ kind = stop) (exp .lowest)
      fun e => e.bare = x.bare) :
    Takes (separated .semicolon (xs.map Exp.written)) (· = stop) (sequence exp stop)
      fun exps => exps.map Exp.bare = xs.map Exp.bare := by
  cases xs with
  | nil =>
    refine Takes.kind_nil fun kind hkind => ?_
    rw [if_pos hkind]
    exact .pure rfl
  | cons x xs =>
    rw [List.map_cons, separated_cons, List.flatMap_map]
    apply Takes.kind_cons
    rw [fixed_fst, if_neg hstop.symm]
    refine (h x List.mem_cons_self).bind (fun e he => ?_) ?_
    · refine (sequenceRest_taken hsemicolon xs
        (fun z hz => h z (List.mem_cons_of_mem _ hz)) [e]).imp fun exps hexps => ?_
      rw [hexps]
      simp [he]
    · cases xs with
      | nil => exact fun _ hkind => .inr hkind
      | cons y ys => exact .inl rfl

theorem sequence_single (h : Takes (word :: words) (· = stop) (exp .lowest) good)
    (hstop : word.1 ≠ stop) (hsemicolon : stop ≠ .semicolon) :
    Takes (word :: words) (· = stop) (sequence exp stop) fun exps => ∃ e, exps = [e] ∧ good e := by
  apply Takes.kind_cons
  rw [if_neg hstop]
  refine h.andThen (fun e he => Takes.loop_done ?_) fun _ hkind => hkind
  exact (sequenceRound_stop hsemicolon [e]).imp fun r hr => ⟨[e], hr, e, rfl, he⟩

theorem group_taken {goodList : List Exp → Prop}
    (h : Takes words (· = .closeParen) (sequence exp .closeParen) goodList)
    (hblock : ∀ start exps, goodList exps → Takes [] anything (block start exps) good) :
    Takes (enclosed words) anything (group exp) good :=
  Takes.advance_bind fun _ _ => h.bind
    (fun exps hexps => Takes.expect_bind fun _ _ => hblock _ exps hexps) rfl

end sequence

end Parser

end TigerLang

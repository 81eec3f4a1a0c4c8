import TigerLang.Proofs.Expressions

/-! What a reading takes: the words it goes over where these come next, and what it makes of them. A
reading may look at the word that follows, so what may follow is part of the statement. -/

namespace TigerLang

abbrev Word : Type := TokenKind × String

def Token.word (token : Token) : Word := (token.kind, token.value)

def unplaced (words : List Word) : List Token := words.map fun word => ⟨word.1, word.2, default⟩

theorem map_word_unplaced (words : List Word) : (unplaced words).map Token.word = words := by
  rw [unplaced, List.map_map]
  exact List.map_id _

namespace Cursor

def ahead (s : Cursor) : List Token := s.current :: s.upcoming

theorem ahead_advance {s : Cursor} {token next : Token} {rest : List Token}
    (h : s.ahead = token :: next :: rest) : s.advance.ahead = next :: rest := by
  obtain ⟨file, past, current, upcoming, nextId, closed⟩ := s
  obtain ⟨rfl, rfl⟩ := List.cons.inj h
  rfl

theorem current_of_ahead {s : Cursor} {token : Token} {rest : List Token}
    (h : s.ahead = token :: rest) : s.current = token := (List.cons.inj h).1

theorem ahead_ofTokens_concat (file : String) (tokens : List Token) {last : Token}
    (h : last.kind = .eof) : (ofTokens file (tokens ++ [last])).ahead = tokens ++ [last] := by
  cases tokens with
  | nil =>
    have hclose : closeAfter last [] = [] := if_pos h
    exact congrArg (last :: ·) hclose
  | cons token tokens =>
    have hclose : closeAfter token (tokens ++ [last]) = tokens ++ [last] := by
      rw [closeAfter, List.getLastD_concat, if_pos h]
    exact congrArg (token :: ·) hclose

end Cursor

namespace Parser

def Follows (follow : TokenKind → Prop) (tokens : List Token) : Prop :=
  ∃ token rest, tokens = token :: rest ∧ follow token.kind

theorem Follows.imp {follow follow' : TokenKind → Prop} {tokens : List Token}
    (h : Follows follow tokens) (himp : ∀ kind, follow kind → follow' kind) :
    Follows follow' tokens := by
  obtain ⟨token, rest, htokens, hkind⟩ := h
  exact ⟨token, rest, htokens, himp _ hkind⟩

def anything : TokenKind → Prop := fun _ => True

/-- Words before something in `follow` open with a kind in `opens`, or with one in `follow` if there
are none. -/
def Leads (words : List Word) (follow opens : TokenKind → Prop) : Prop :=
  match words with
  | [] => ∀ kind, follow kind → opens kind
  | word :: _ => opens word.1

theorem leads_anything (words : List Word) (follow : TokenKind → Prop) :
    Leads words follow anything := by
  cases words with
  | nil => exact fun _ _ => trivial
  | cons word words => trivial

theorem Leads.follows {words : List Word} {follow opens : TokenKind → Prop}
    (h : Leads words follow opens) {tokens rest : List Token} (hwords : tokens.map Token.word = words)
    (hrest : Follows follow rest) : Follows opens (tokens ++ rest) := by
  cases tokens with
  | nil =>
    subst hwords
    exact hrest.imp h
  | cons token tokens =>
    subst hwords
    exact ⟨token, tokens ++ rest, rfl, h⟩

/-- Where the words come next, and after them one of the kinds in `follow`, the reading takes the
words and answers something good. -/
def Takes {α : Type} (words : List Word) (follow : TokenKind → Prop) (p : Parser α)
    (good : α → Prop) : Prop :=
  ∀ s tokens rest, s.ahead = tokens ++ rest → tokens.map Token.word = words → Follows follow rest →
    ∃ a s', p.run s = (.ok a, s') ∧ s'.ahead = rest ∧ good a

namespace Takes
variable {α β σ : Type} {words words' : List Word} {follow mid : TokenKind → Prop}
  {good : α → Prop} {good' : β → Prop}

theorem imp {p : Parser α} {good' : α → Prop} (h : Takes words follow p good)
    (himp : ∀ a, good a → good' a) : Takes words follow p good' := by
  intro s tokens rest hahead hwords hrest
  obtain ⟨a, s', hrun, hs', ha⟩ := h s tokens rest hahead hwords hrest
  exact ⟨a, s', hrun, hs', himp a ha⟩

theorem before {p : Parser α} {follow' : TokenKind → Prop} (h : Takes words follow p good)
    (himp : ∀ kind, follow' kind → follow kind) : Takes words follow' p good :=
  fun s tokens rest hahead hwords hrest => h s tokens rest hahead hwords (hrest.imp himp)

theorem pure {a : α} (h : good a) : Takes [] follow (pure a) good := by
  intro s tokens rest hahead hwords hrest
  obtain rfl := List.map_eq_nil_iff.mp hwords
  exact ⟨a, s, rfl, hahead, h⟩

theorem bind {p : Parser α} {f : α → Parser β} (hp : Takes words mid p good)
    (hf : ∀ a, good a → Takes words' follow (f a) good') (hleads : Leads words' follow mid) :
    Takes (words ++ words') follow (p >>= f) good' := by
  intro s tokens rest hahead hwords hrest
  obtain ⟨first, second, rfl, hfirst, hsecond⟩ := List.map_eq_append_iff.mp hwords
  rw [List.append_assoc] at hahead
  obtain ⟨a, s₁, hrun₁, hs₁, ha⟩ := hp s first _ hahead hfirst (hleads.follows hsecond hrest)
  obtain ⟨b, s₂, hrun₂, hs₂, hb⟩ := hf a ha s₁ second rest hs₁ hsecond hrest
  refine ⟨b, s₂, ?_, hs₂, hb⟩
  rw [run_bind, hrun₁]
  exact hrun₂

theorem andThen {p : Parser α} {f : α → Parser β} (hp : Takes words mid p good)
    (hf : ∀ a, good a → Takes [] follow (f a) good') (hfollow : ∀ kind, follow kind → mid kind) :
    Takes words follow (p >>= f) good' := by
  have h := hp.bind hf hfollow
  rwa [List.append_nil] at h

theorem look_bind {f : Cursor → α} {p : α → Parser β} (h : ∀ a, Takes words follow (p a) good') :
    Takes words follow (look f >>= p) good' :=
  fun s tokens rest hahead hwords hrest => h (f s) s tokens rest hahead hwords hrest

theorem current_cons {word : Word} {f : Token → Parser β}
    (h : ∀ token, token.word = word → Takes (word :: words) follow (f token) good') :
    Takes (word :: words) follow (current >>= f) good' := by
  intro s tokens rest hahead hwords hrest
  have hcurrent : s.current.word = word := by
    obtain ⟨token, tokens, rfl, hword, -⟩ := List.map_eq_cons_iff.mp hwords
    rw [Cursor.current_of_ahead hahead]
    exact hword
  exact h s.current hcurrent s tokens rest hahead hwords hrest

theorem kind_cons {word : Word} {f : TokenKind → Parser β}
    (h : Takes (word :: words) follow (f word.1) good') :
    Takes (word :: words) follow (kind >>= f) good' := by
  intro s tokens rest hahead hwords hrest
  obtain ⟨token, tokens, rfl, hword, hwords'⟩ := List.map_eq_cons_iff.mp hwords
  have hkind : s.kind = word.1 := by
    rw [Cursor.kind, Cursor.current_of_ahead hahead, ← hword]
    rfl
  rw [run_kind_bind, hkind]
  exact h s (token :: tokens) rest hahead hwords hrest

theorem kind_nil {f : TokenKind → Parser β} (h : ∀ k, follow k → Takes [] (· = k) (f k) good') :
    Takes [] follow (kind >>= f) good' := by
  intro s tokens rest hahead hwords hrest
  obtain rfl := List.map_eq_nil_iff.mp hwords
  obtain ⟨token, after, hafter, hfollow⟩ := hrest
  have hkind : s.kind = token.kind := by
    rw [Cursor.kind, Cursor.current_of_ahead (hahead.trans hafter)]
  rw [run_kind_bind, hkind]
  exact h token.kind hfollow s [] rest hahead rfl ⟨token, after, hafter, rfl⟩

theorem kind_leads {opens : TokenKind → Prop} {f : TokenKind → Parser β}
    (hleads : Leads words follow opens) (h : ∀ k, opens k → Takes words follow (f k) good') :
    Takes words follow (kind >>= f) good' := by
  intro s tokens rest hahead hwords hrest
  obtain ⟨token, after, hafter, hopens⟩ := hleads.follows hwords hrest
  have hkind : s.kind = token.kind := by
    rw [Cursor.kind, Cursor.current_of_ahead (hahead.trans hafter)]
  rw [run_kind_bind, hkind]
  exact h token.kind hopens s tokens rest hahead hwords hrest

theorem advance_bind {word : Word} {f : Token → Parser β}
    (h : ∀ token, token.word = word → Takes words follow (f token) good') :
    Takes (word :: words) follow (advance >>= f) good' := by
  intro s tokens rest hahead hwords hrest
  obtain ⟨token, tokens, rfl, hword, hwords'⟩ := List.map_eq_cons_iff.mp hwords
  have hnext : s.advance.ahead = tokens ++ rest := by
    obtain ⟨next, after, hafter, -⟩ := (leads_anything words follow).follows hwords' hrest
    rw [List.cons_append, hafter] at hahead
    rw [hafter]
    exact Cursor.ahead_advance hahead
  have hrun : (Parser.advance >>= f).run s = (f token).run s.advance := by
    rw [← Cursor.current_of_ahead hahead]
    rfl
  rw [hrun]
  exact h token hword s.advance tokens rest hnext hwords' hrest

theorem expectOr_bind {word : Word} {failure : Diagnostic} {f : Token → Parser β}
    (h : ∀ token, token.word = word → Takes words follow (f token) good') :
    Takes (word :: words) follow (expectOr word.1 failure >>= f) good' := by
  have heq : expectOr word.1 failure >>= f = kind >>= fun k =>
      (if k = word.1 then advance else fail failure) >>= f := by
    rw [expectOr, bind_assoc]
  rw [heq]
  apply kind_cons
  rw [if_pos rfl]
  exact advance_bind h

theorem expect_bind {word : Word} {f : Token → Parser β}
    (h : ∀ token, token.word = word → Takes words follow (f token) good') :
    Takes (word :: words) follow (expect word.1 >>= f) good' := by
  rw [expect, current, bind_assoc]
  exact look_bind fun token => expectOr_bind h

theorem identifier_bind {name context : String} {f : String → Parser β}
    (h : Takes words follow (f name) good') :
    Takes ((.identifier, name) :: words) follow (identifier context >>= f) good' := by
  rw [identifier, current, bind_assoc]
  refine look_bind fun token => ?_
  rw [bind_assoc]
  refine expectOr_bind fun token hword => ?_
  rw [pure_bind, (Prod.mk.inj hword).2]
  exact h

theorem freshId_bind {f : Nat → Parser β} (h : ∀ id, Takes words follow (f id) good') :
    Takes words follow (freshId >>= f) good' :=
  fun s tokens rest hahead hwords hrest =>
    h s.nextId { s with nextId := s.nextId + 1 } tokens rest hahead hwords hrest

theorem node_bind {start : Position} {f : Node → Parser β}
    (h : ∀ node, Takes words follow (f node) good') :
    Takes words follow (node start >>= f) good' := by
  rw [node, bind_assoc]
  refine freshId_bind fun id => ?_
  rw [bind_assoc]
  exact look_bind fun span => h ⟨id, span⟩

theorem loop_done {round : σ → Parser (Round σ β)} {state : σ}
    (h : Takes words follow (round state) fun r => ∃ answer, r = .done answer ∧ good' answer) :
    Takes words follow (loop round state) good' := by
  intro s tokens rest hahead hwords hrest
  obtain ⟨_, s', hrun, hs', answer, rfl, hgood⟩ := h s tokens rest hahead hwords hrest
  refine ⟨answer, s', ?_, hs', hgood⟩
  change loopFrom round state s = _
  rw [loopFrom, hrun]

theorem remaining_lt {s s' : Cursor} (tokens : List Token) (hahead : s.ahead = tokens ++ s'.ahead)
    (htokens : tokens ≠ []) : s'.remaining < s.remaining := by
  have hlength := congrArg List.length hahead
  have hpos := List.length_pos_iff.mpr htokens
  simp only [Cursor.ahead, List.length_append, List.length_cons] at hlength
  simp only [Cursor.remaining]
  omega

theorem loop_again_bind {γ : Type} {round : σ → Parser (Round σ β)} {state : σ}
    {goodState : σ → Prop} {f : β → Parser γ} {good'' : γ → Prop}
    (h : Takes words mid (round state) fun r => ∃ next, r = .again next ∧ goodState next)
    (hwords : words ≠ [])
    (hnext : ∀ next, goodState next → Takes words' follow (loop round next >>= f) good'')
    (hleads : Leads words' follow mid) :
    Takes (words ++ words') follow (loop round state >>= f) good'' := by
  intro s tokens rest hahead hmap hrest
  obtain ⟨first, second, rfl, hfirst, hsecond⟩ := List.map_eq_append_iff.mp hmap
  rw [List.append_assoc] at hahead
  obtain ⟨_, s₁, hrun, hs₁, next, rfl, hgood⟩ :=
    h s first _ hahead hfirst (hleads.follows hsecond hrest)
  have hlt : s₁.remaining < s.remaining := by
    apply remaining_lt first
    · rw [hahead, hs₁]
    · rintro rfl
      exact hwords hfirst.symm
  have hloop : (loop round state).run s = (loop round next).run s₁ := by
    change loopFrom round state s = loopFrom round next s₁
    rw [loopFrom, hrun]
    exact if_pos hlt
  rw [run_bind, hloop, ← run_bind]
  exact hnext next hgood s₁ second rest hs₁ hsecond hrest

theorem loop_again {round : σ → Parser (Round σ β)} {state : σ} {goodState : σ → Prop}
    (h : Takes words mid (round state) fun r => ∃ next, r = .again next ∧ goodState next)
    (hwords : words ≠ []) (hnext : ∀ next, goodState next → Takes words' follow (loop round next) good')
    (hleads : Leads words' follow mid) : Takes (words ++ words') follow (loop round state) good' := by
  rw [← bind_pure (loop round state)]
  refine h.loop_again_bind hwords (fun next hgood => ?_) hleads
  rw [bind_pure]
  exact hnext next hgood

end Takes

end Parser

end TigerLang

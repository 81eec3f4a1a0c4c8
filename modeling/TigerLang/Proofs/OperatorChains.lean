import TigerLang.Proofs.RoundTrip

/-! Operands with operators between them. Such a chain is read from the left to the right, and what
comes of it is the tree that splits the chain at its loosest operator. -/

namespace TigerLang

open TigerLang.Word TigerLang.Parser

inductive Connective
  | or
  | and
  | operator (op : Operator)
  deriving DecidableEq, Repr

namespace Connective

def kind : Connective → TokenKind
  | or => .or
  | and => .and
  | operator op => op.kind

def rank : Connective → Nat
  | or => 1
  | and => 2
  | operator .eq | operator .neq | operator .lt | operator .le | operator .gt | operator .ge => 3
  | operator .add | operator .sub => 4
  | operator .mul | operator .div => 5

def join : Connective → Exp → Exp → Exp
  | or, left, right => .ifThenElse default left (.int default 1) right
  | and, left, right => .ifThenElse default left right (.int default 0)
  | operator op, left, right => .binary default op left right

end Connective

inductive IsAtom (token : Token) : Exp → Prop
  | number (hkind : token.kind = .number) (hne : token.value.toList ≠ [])
    (hdigits : token.value.toList.all Char.isDigit = true)
    (hbound : Nat.ofDigitChars 10 token.value.toList 0 < 0x8000000000000000) :
    IsAtom token (.int default (Int64.ofNat (Nat.ofDigitChars 10 token.value.toList 0)))
  | string (hkind : token.kind = .string) : IsAtom token (.str default token.value)
  | nil (hkind : token.kind = .nilWord) : IsAtom token (.nil default)
  | name (hkind : token.kind = .identifier) :
    IsAtom token (.var default (.simple default token.value))

structure Operand where
  signs : List Token
  atom : Token
  exp : Exp
  minus : ∀ sign ∈ signs, sign.kind = .dash
  isAtom : IsAtom atom exp

namespace Operand

def tokens (a : Operand) : List Token := a.signs ++ [a.atom]

def tree (a : Operand) : Exp :=
  a.signs.foldr (fun _ e => .binary default .sub (.int default 0) e) a.exp

end Operand

structure ChainLink where
  token : Token
  connective : Connective
  operand : Operand
  kind : token.kind = connective.kind

namespace ChainLink

def tokens (link : ChainLink) : List Token := link.token :: link.operand.tokens

def rank (link : ChainLink) : Nat := link.connective.rank

/-- The loosest of the links, and of those the last, with the links before and after it. -/
def loosest? : List ChainLink → Option (List ChainLink × ChainLink × List ChainLink)
  | [] => none
  | link :: links =>
    match loosest? links with
    | none => some ([], link, [])
    | some (before, loosest, after) =>
      if loosest.rank ≤ link.rank then some (link :: before, loosest, after)
      else some ([], link, links)

theorem loosest?_eq_none {links : List ChainLink} (h : loosest? links = none) : links = [] := by
  cases links with
  | nil => rfl
  | cons link links =>
    rw [loosest?] at h
    split at h
    · cases h
    · split at h <;> cases h

theorem of_loosest? {links before after : List ChainLink} {link : ChainLink}
    (h : loosest? links = some (before, link, after)) :
    links = before ++ link :: after ∧ (∀ other ∈ before, link.rank ≤ other.rank) ∧
      ∀ other ∈ after, link.rank < other.rank := by
  induction links generalizing before link after with
  | nil => cases h
  | cons first links ih =>
    rw [loosest?] at h
    split at h
    · next hnone =>
      cases h
      rw [loosest?_eq_none hnone]
      exact ⟨rfl, List.forall_mem_nil _, List.forall_mem_nil _⟩
    · next before' loosest after' hsome =>
      obtain ⟨rfl, hbefore, hafter⟩ := ih hsome
      split at h
      · next hle =>
        cases h
        exact ⟨rfl, List.forall_mem_cons.mpr ⟨hle, hbefore⟩, hafter⟩
      · next hlt =>
        cases h
        refine ⟨rfl, List.forall_mem_nil _, fun other hother => ?_⟩
        rcases List.mem_append.mp hother with hmem | hmem
        · exact Nat.lt_of_lt_of_le (Nat.lt_of_not_le hlt) (hbefore other hmem)
        · rcases List.mem_cons.mp hmem with rfl | hmem
          · exact Nat.lt_of_not_le hlt
          · exact Nat.lt_trans (Nat.lt_of_not_le hlt) (hafter other hmem)

theorem length_of_loosest? {links before after : List ChainLink} {link : ChainLink}
    (h : loosest? links = some (before, link, after)) :
    before.length < links.length ∧ after.length < links.length := by
  rw [(of_loosest? h).1, List.length_append, List.length_cons]
  omega

end ChainLink

/-- The tree of a chain is split at the loosest link, and so are the parts on both sides of it. -/
def chainTree (first : Operand) (links : List ChainLink) : Exp :=
  match _h : ChainLink.loosest? links with
  | none => first.tree
  | some (before, link, after) =>
    link.connective.join (chainTree first before) (chainTree link.operand after)
termination_by links.length
decreasing_by
  · exact (ChainLink.length_of_loosest? _h).1
  · exact (ChainLink.length_of_loosest? _h).2

theorem chainTree_nil (first : Operand) : chainTree first [] = first.tree := by
  rw [chainTree.eq_def]
  rfl

theorem chainTree_of_loosest? {links before after : List ChainLink} {link : ChainLink}
    (first : Operand) (h : ChainLink.loosest? links = some (before, link, after)) :
    chainTree first links =
      link.connective.join (chainTree first before) (chainTree link.operand after) := by
  rw [chainTree.eq_def]
  split
  · next hnone =>
    rw [h] at hnone
    cases hnone
  · next hsome =>
    rw [h] at hsome
    cases hsome
    rfl

theorem Connective.rank_bounds (c : Connective) : 0 < c.rank ∧ c.rank ≤ 5 := by
  cases c with
  | or => decide
  | and => decide
  | operator op => cases op <;> decide

theorem Connective.joining_kind (c : Connective) : ∃ power form,
    Grammar.tiger.joining c.kind = some (power, form) ∧ power.level = c.rank := by
  cases c with
  | or => exact ⟨_, _, rfl, rfl⟩
  | and => exact ⟨_, _, rfl, rfl⟩
  | operator op => cases op <;> exact ⟨_, _, rfl, rfl⟩

namespace Parser

/-- What ends a chain of connectives that bind more tightly than `rank`: the end of the program, or
a connective that does not. -/
def EndsChain (rank : Nat) (kind : TokenKind) : Prop :=
  kind = .eof ∨ ∃ c : Connective, kind = c.kind ∧ c.rank ≤ rank

namespace EndsChain
variable {rank rank' : Nat} {kind : TokenKind}

theorem mono (h : EndsChain rank kind) (hle : rank ≤ rank') : EndsChain rank' kind := by
  obtain rfl | ⟨c, rfl, hc⟩ := h
  · exact .inl rfl
  · exact .inr ⟨c, rfl, Nat.le_trans hc hle⟩

theorem stops {power : Power} (h : EndsChain rank kind) (hle : rank ≤ power.level) :
    Stops power kind := by
  obtain rfl | ⟨c, rfl, hc⟩ := h
  · exact stops_of_none rfl power
  · intro next form hjoining
    obtain ⟨power', form', hjoining', hlevel⟩ := c.joining_kind
    rw [hjoining] at hjoining'
    cases hjoining'
    change next.level ≤ power.level
    omega

theorem not_suffix (h : EndsChain rank kind) :
    kind ∉ [.openParen, .openCurly, .openBracket, .dot, .assignment] := by
  obtain rfl | ⟨c, rfl, -⟩ := h
  · decide
  · cases c with
    | or => decide
    | and => decide
    | operator op => cases op <;> decide

end EndsChain

section operands
variable {rank : Nat} {token : Token} {exp : Exp}

theorem name_taken (name : String) (start : Position) :
    Takes [] (EndsChain rank) (afterName (expression .tiger) start name)
      fun e => e.bare = .var default (.simple default name) := by
  refine Takes.kind_nil fun kind hkind => ?_
  have hsuffix := hkind.not_suffix
  simp only [List.mem_cons, List.not_mem_nil, or_false, not_or] at hsuffix
  obtain ⟨hparen, hcurly, hbracket, hdot, hassignment⟩ := hsuffix
  split
  · exact absurd rfl hparen
  · exact absurd rfl hcurly
  · exact absurd rfl hbracket
  · refine Takes.node_bind fun _ => ?_
    refine (suffixes_stop kind hdot hbracket _ _ _).andThen ?_ fun _ hnext => hnext
    rintro _ rfl
    refine Takes.kind_nil fun _ hnext => ?_
    rw [if_neg (hnext ▸ hassignment)]
    exact Takes.node_bind fun _ => .pure rfl

theorem atom_taken (h : IsAtom token exp) : ∃ form, Grammar.tiger.opening token.kind = some form ∧
    Takes [token.word] (EndsChain rank) (opened .tiger (expression .tiger) form)
      fun e => e.bare = exp := by
  cases h with
  | number hkind hne hdigits hbound =>
    refine ⟨.literal, by rw [hkind]; rfl, Takes.current_cons fun read hword => ?_⟩
    obtain ⟨hread, hvalue⟩ := Prod.mk.inj hword
    rw [hread, hkind, hvalue]
    dsimp only
    rw [Text.readInt64_of_digits hne hdigits hbound]
    exact Takes.advance_bind fun _ _ => Takes.node_bind fun _ => .pure rfl
  | string hkind =>
    refine ⟨.literal, by rw [hkind]; rfl, Takes.current_cons fun read hword => ?_⟩
    obtain ⟨hread, hvalue⟩ := Prod.mk.inj hword
    rw [hread, hkind, hvalue]
    exact Takes.advance_bind fun _ _ => Takes.node_bind fun _ => .pure rfl
  | nil hkind =>
    refine ⟨.literal, by rw [hkind]; rfl, Takes.current_cons fun read hword => ?_⟩
    obtain ⟨hread, -⟩ := Prod.mk.inj hword
    rw [hread, hkind]
    exact Takes.advance_bind fun _ _ => Takes.node_bind fun _ => .pure rfl
  | name hkind =>
    refine ⟨.identifier, by rw [hkind]; rfl, Takes.advance_bind fun read hword => ?_⟩
    obtain ⟨-, hvalue⟩ := Prod.mk.inj hword
    rw [← hvalue]
    exact name_taken read.value read.span.start

theorem constant_bind {operator : Token} {value : Int64} {words : List Word}
    {follow : TokenKind → Prop} {f : Exp → Parser Exp} {good : Exp → Prop}
    (h : ∀ node, Takes words follow (f (.int node value)) good) :
    Takes words follow (constant operator value >>= f) good := by
  rw [constant, bind_assoc]
  refine Takes.freshId_bind fun id => ?_
  rw [pure_bind]
  exact h ⟨id, operator.span⟩

theorem operand_opened (a : Operand) : ∃ word words form,
    a.tokens.map Token.word = word :: words ∧ Grammar.tiger.opening word.1 = some form ∧
      Takes (word :: words) (EndsChain 5) (opened .tiger (expression .tiger) form)
        fun e => e.bare = a.tree := by
  obtain ⟨signs, atom, exp, hminus, hatom⟩ := a
  induction signs with
  | nil =>
    obtain ⟨form, hform, htaken⟩ := atom_taken hatom
    exact ⟨atom.word, [], form, rfl, hform, htaken⟩
  | cons sign signs ih =>
    obtain ⟨hsign, hminus⟩ := List.forall_mem_cons.mp hminus
    obtain ⟨word, words, form, hwords, hform, htaken⟩ := ih hminus
    refine ⟨sign.word, word :: words, .minus, ?_, ?_, ?_⟩
    · exact congrArg (sign.word :: ·) hwords
    · change Grammar.tiger.opening sign.kind = _
      rw [hsign]
      rfl
    · refine Takes.advance_bind fun operator _ => ?_
      have hoperand : Takes (word :: words) (EndsChain 5) (expression .tiger .unary)
          fun e => e.bare = Operand.tree ⟨signs, atom, exp, hminus, hatom⟩ :=
        form_taken hform htaken fun kind hkind => ⟨hkind.stops (by decide), hkind⟩
      refine hoperand.andThen (fun operand hbare => ?_) fun _ hkind => hkind
      refine constant_bind fun _ => Takes.node_bind fun _ => .pure ?_
      rw [Exp.bare, Exp.bare, hbare]
      rfl

end operands

theorem joined_taken {c : Connective} {power : Power} {form : Joining} {text : String}
    {words : List Word} {follow : TokenKind → Prop} {left right : Exp}
    (hjoining : Grammar.tiger.joining c.kind = some (power, form))
    (hright : Takes words follow (expression .tiger power) fun e => e.bare = right) :
    Takes ((c.kind, text) :: words) follow (joined (expression .tiger) left power form)
      fun e => e.bare = c.join left.bare right := by
  cases c with
  | or =>
    cases hjoining
    refine Takes.advance_bind fun operator hword => ?_
    obtain ⟨hkind, -⟩ := Prod.mk.inj hword
    refine hright.andThen (fun right' hright' => ?_) fun _ hkind => hkind
    rw [if_neg (hkind ▸ by decide)]
    refine constant_bind fun _ => Takes.node_bind fun _ => .pure ?_
    rw [Exp.bare, Exp.bare, hright']
    rfl
  | and =>
    cases hjoining
    refine Takes.advance_bind fun operator hword => ?_
    obtain ⟨hkind, -⟩ := Prod.mk.inj hword
    refine hright.andThen (fun right' hright' => ?_) fun _ hkind => hkind
    rw [if_pos (hkind ▸ by decide)]
    refine constant_bind fun _ => Takes.node_bind fun _ => .pure ?_
    rw [Exp.bare, Exp.bare, hright']
    rfl
  | operator op =>
    obtain ⟨_, hbinary, -, hoperator⟩ := op.joining_kind
    obtain rfl : form = .binary := by
      rw [Connective.kind, hbinary] at hjoining
      exact (Prod.mk.inj (Option.some.inj hjoining)).2.symm
    apply Takes.kind_cons
    rw [Connective.kind, hoperator]
    refine Takes.advance_bind fun _ _ => ?_
    refine hright.andThen (fun right' hright' => ?_) fun _ hkind => hkind
    refine Takes.node_bind fun _ => .pure ?_
    rw [Exp.bare, hright']
    rfl

def linkWords (links : List ChainLink) : List Word := (links.flatMap ChainLink.tokens).map Token.word

theorem linkWords_append (links links' : List ChainLink) :
    linkWords (links ++ links') = linkWords links ++ linkWords links' := by
  rw [linkWords, List.flatMap_append, List.map_append]
  rfl

theorem linkWords_cons (link : ChainLink) (links : List ChainLink) : linkWords (link :: links) =
    (link.connective.kind, link.token.value) ::
      (link.operand.tokens.map Token.word ++ linkWords links) := by
  rw [linkWords, List.flatMap_cons, ChainLink.tokens, List.cons_append, List.map_cons, List.map_append,
    Token.word, link.kind]
  rfl

theorem operand_taken {power : Power} {a : Operand} {words : List Word}
    {follow : TokenKind → Prop} {good : Exp → Prop}
    (hclimb : ∀ left, left.bare = a.tree →
      Takes words follow (climb .tiger (expression .tiger) power left) good)
    (hleads : Leads words follow (EndsChain 5)) :
    Takes (a.tokens.map Token.word ++ words) follow (expression .tiger power) good := by
  obtain ⟨word, words', form, hwords, hform, htaken⟩ := operand_opened a
  rw [hwords]
  exact expression_taken hform htaken hclimb hleads

theorem leads_links {links : List ChainLink} {words : List Word} {follow : TokenKind → Prop}
    (hleads : Leads words follow (EndsChain 5)) :
    Leads (linkWords links ++ words) follow (EndsChain 5) := by
  cases links with
  | nil => exact hleads
  | cons link links =>
    rw [linkWords_cons]
    exact .inr ⟨link.connective, rfl, link.connective.rank_bounds.2⟩

/-- What is on the left of some links is joined to them as the tree of the chain says, if all of
them bind more tightly than what is asked for, and nothing after them binds more tightly than one of
them. -/
theorem climb_links (links : List ChainLink) {power : Power} {first : Operand} {left : Exp}
    {words : List Word} {follow : TokenKind → Prop} {good : Exp → Prop}
    (hleft : left.bare = first.tree) (htight : ∀ link ∈ links, power.level < link.rank)
    (hleads : ∀ link ∈ links, Leads words follow (EndsChain link.rank))
    (hnext : ∀ left', left'.bare = chainTree first links →
      Takes words follow (climb .tiger (expression .tiger) power left') good)
    (hends : Leads words follow (EndsChain 5)) :
    Takes (linkWords links ++ words) follow (climb .tiger (expression .tiger) power left) good := by
  -- The last link to be joined is the loosest, so the recursion is that of the tree.
  match hloosest : ChainLink.loosest? links with
  | none =>
    obtain rfl := ChainLink.loosest?_eq_none hloosest
    exact hnext left (hleft.trans (chainTree_nil first).symm)
  | some (before, link, after) =>
    obtain ⟨hbefore, hafter⟩ := ChainLink.length_of_loosest? hloosest
    have htree := chainTree_of_loosest? first hloosest
    obtain ⟨hlinks, hloose, htighter⟩ := ChainLink.of_loosest? hloosest
    have hmem : link ∈ links := by
      rw [hlinks]
      exact List.mem_append_right _ List.mem_cons_self
    obtain ⟨next, form, hjoining, hlevel⟩ := link.connective.joining_kind
    have hlevel : next.level = link.rank := hlevel
    have hright : Takes (link.operand.tokens.map Token.word ++ linkWords after)
        (EndsChain link.rank) (expression .tiger next)
        fun e => e.bare = chainTree link.operand after := by
      rw [← List.append_nil (linkWords after)]
      have hends : Leads [] (EndsChain link.rank) (EndsChain 5) :=
        fun _ hkind => hkind.mono link.connective.rank_bounds.2
      refine operand_taken (fun left' hleft' => climb_links after hleft' ?_ ?_ ?_ hends)
        (leads_links hends)
      · rw [hlevel]
        exact htighter
      · exact fun other hother _ hkind => hkind.mono (Nat.le_of_lt (htighter other hother))
      · intro right hbare
        refine ((climb_stops _ next right).before fun _ hkind => ?_).imp ?_
        · exact hkind.stops (Nat.le_of_eq hlevel.symm)
        · rintro _ rfl
          exact hbare
    have hround : ∀ left', left'.bare = chainTree first before →
        Takes (linkWords (link :: after)) (EndsChain link.rank)
          (climbRound (expression .tiger) power left')
          fun r => ∃ e, r = .again e ∧ e.bare = chainTree first links := by
      intro left' hleft'
      have hpower : ¬ next ≤ power := Nat.not_le.mpr (hlevel ▸ htight link hmem)
      rw [linkWords_cons]
      apply Takes.kind_cons
      rw [hjoining]
      dsimp only
      rw [if_neg hpower]
      refine (joined_taken hjoining hright).andThen (fun e he => ?_) fun _ hkind => hkind
      refine .pure ⟨e, rfl, ?_⟩
      rw [he, hleft', htree]
    have hclimb : ∀ left', left'.bare = chainTree first before →
        Takes (linkWords (link :: after) ++ words) follow
          (climb .tiger (expression .tiger) power left') good := by
      intro left' hleft'
      refine (hround left' hleft').loop_again ?_ hnext (hleads link hmem)
      rw [linkWords_cons]
      exact List.cons_ne_nil _ _
    rw [hlinks, linkWords_append, List.append_assoc]
    refine climb_links before hleft ?_ ?_ hclimb (leads_links hends)
    · intro other hother
      refine htight other ?_
      rw [hlinks]
      exact List.mem_append_left _ hother
    · intro other hother
      rw [linkWords_cons]
      exact .inr ⟨link.connective, rfl, hloose other hother⟩
termination_by links.length

theorem chain_taken (first : Operand) (links : List ChainLink) :
    Takes (first.tokens.map Token.word ++ linkWords links) (· = .eof) program
      fun e => e.bare = chainTree first links := by
  have hends : ∀ rank, Leads [] (· = TokenKind.eof) (EndsChain rank) := fun _ _ hkind => .inl hkind
  have hexp : Takes (first.tokens.map Token.word ++ linkWords links) (· = .eof)
      (expression .tiger .lowest) fun e => e.bare = chainTree first links := by
    rw [← List.append_nil (linkWords links)]
    refine operand_taken (fun left hleft => climb_links links hleft ?_ ?_ ?_ (hends 5))
      (leads_links (hends 5))
    · exact fun link _ => link.connective.rank_bounds.1
    · exact fun _ _ => hends _
    · intro e he
      refine ((climb_stops _ .lowest e).before fun _ hkind => ?_).imp ?_
      · exact hkind ▸ stops_of_none rfl _
      · rintro _ rfl
        exact he
  refine hexp.andThen (fun e he => Takes.kind_nil fun kind hkind => ?_) fun _ hkind => hkind
  rw [if_pos hkind]
  exact .pure he

end Parser

/-- Operands with connectives between them are read as the tree that splits them at the loosest
connective, and of several at the last, on every level. -/
theorem parse_chain (file : String) (first : Operand) (links : List ChainLink) (last : Token)
    (hlast : last.kind = .eof) :
    ∃ e, (parse file (first.tokens ++ links.flatMap ChainLink.tokens ++ [last])).1 = .ok e ∧
      e.bare = chainTree first links := by
  have hahead := Cursor.ahead_ofTokens_concat file
    (first.tokens ++ links.flatMap ChainLink.tokens) hlast
  obtain ⟨e, s, hrun, -, he⟩ := chain_taken first links _ _ [last] hahead List.map_append
    ⟨last, [], rfl, hlast⟩
  exact ⟨e, congrArg Prod.fst hrun, he⟩

def mixedLinks : List ChainLink :=
  let name : Operand := ⟨[], ⟨.identifier, "b", default⟩, _, List.forall_mem_nil _, .name rfl⟩
  let two : Operand := ⟨[], ⟨.number, "2", default⟩, _, List.forall_mem_nil _,
    .number rfl (by decide) (by decide) (by decide)⟩
  let nothing : Operand := ⟨[], ⟨.nilWord, "nil", default⟩, _, List.forall_mem_nil _, .nil rfl⟩
  let text : Operand := ⟨[], ⟨.string, "s", default⟩, _, List.forall_mem_nil _, .string rfl⟩
  [⟨⟨.dash, "-", default⟩, .operator .sub, name, rfl⟩,
    ⟨⟨.star, "*", default⟩, .operator .mul, two, rfl⟩,
    ⟨⟨.dash, "-", default⟩, .operator .sub, nothing, rfl⟩, ⟨⟨.or, "|", default⟩, .or, text, rfl⟩]

theorem parse_chain_mixed :
    ∃ e, (parse "chain.tig" (unplaced [(.dash, "-"), (.identifier, "a"), (.dash, "-"),
      (.identifier, "b"), (.star, "*"), (.number, "2"), (.dash, "-"), (.nilWord, "nil"), (.or, "|"),
      (.string, "s"), (.eof, "")])).1 = .ok e ∧
      e.bare = .ifThenElse default
        (.binary default .sub
          (.binary default .sub
            (.binary default .sub (.int default 0) (.var default (.simple default "a")))
            (.binary default .mul (.var default (.simple default "b")) (.int default 2)))
          (.nil default))
        (.int default 1) (.str default "s") := by
  let first : Operand :=
    ⟨[⟨.dash, "-", default⟩], ⟨.identifier, "a", default⟩, _, by simp, .name rfl⟩
  obtain ⟨e, hparse, hbare⟩ := parse_chain "chain.tig" first mixedLinks ⟨.eof, "", default⟩ rfl
  refine ⟨e, hparse, hbare.trans ?_⟩
  simp [chainTree, mixedLinks, ChainLink.loosest?, ChainLink.rank, Connective.rank, Connective.join,
    Operand.tree, first]
  decide

end TigerLang

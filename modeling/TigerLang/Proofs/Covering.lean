import TigerLang.Proofs.Incremental
import TigerLang.Proofs.Partition
import TigerLang.Proofs.Phrases

/-! The tokens that a phrase covers and the number it has, beside those of the phrases inside it.
What a reading gathers is followed from the token that opens a phrase up to the place where the
phrase is put together. -/

namespace TigerLang

structure Token.Ordered (tokens : List Token) : Prop where
  forward : ∀ token ∈ tokens, token.startByte ≤ token.stopByte
  ordered : tokens.Pairwise fun token later => token.stopByte ≤ later.startByte

namespace Token.Ordered
variable {tokens : List Token} {i j : Nat} {a b : Token}

theorem stop_le_start (h : Ordered tokens) (hij : i < j) (ha : tokens[i]? = some a)
    (hb : tokens[j]? = some b) : a.stopByte ≤ b.startByte := by
  obtain ⟨hi, rfl⟩ := List.getElem?_eq_some_iff.mp ha
  obtain ⟨hj, rfl⟩ := List.getElem?_eq_some_iff.mp hb
  exact List.pairwise_iff_getElem.mp h.ordered i j hi hj hij

theorem start_le_start (h : Ordered tokens) (hij : i ≤ j) (ha : tokens[i]? = some a)
    (hb : tokens[j]? = some b) : a.startByte ≤ b.startByte := by
  rcases Nat.lt_or_eq_of_le hij with hlt | rfl
  · exact Nat.le_trans (h.forward a (List.mem_of_getElem? ha)) (h.stop_le_start hlt ha hb)
  · obtain rfl := Option.some.inj (ha.symm.trans hb)
    exact Nat.le_refl _

theorem start_le_stop (h : Ordered tokens) (hij : i ≤ j) (ha : tokens[i]? = some a)
    (hb : tokens[j]? = some b) : a.startByte ≤ b.stopByte :=
  Nat.le_trans (h.start_le_start hij ha hb) (h.forward b (List.mem_of_getElem? hb))

theorem stop_le_stop (h : Ordered tokens) (hij : i ≤ j) (ha : tokens[i]? = some a)
    (hb : tokens[j]? = some b) : a.stopByte ≤ b.stopByte := by
  rcases Nat.lt_or_eq_of_le hij with hlt | rfl
  · exact Nat.le_trans (h.stop_le_start hlt ha hb) (h.forward b (List.mem_of_getElem? hb))
  · obtain rfl := Option.some.inj (ha.symm.trans hb)
    exact Nat.le_refl _

end Token.Ordered

namespace Cursor

def tokens (s : Cursor) : List Token := s.past.reverse ++ s.ahead

/-- A later place among the same tokens, when at least as many numbers have been given. -/
structure Before (s s' : Cursor) : Prop where
  tokens : s'.tokens = s.tokens
  index : s.index ≤ s'.index
  nextId : s.nextId ≤ s'.nextId

theorem Before.refl (s : Cursor) : s.Before s := ⟨rfl, Nat.le_refl _, Nat.le_refl _⟩

theorem Before.trans {s s₁ s₂ : Cursor} (h₁ : s.Before s₁) (h₂ : s₁.Before s₂) : s.Before s₂ where
  tokens := h₂.tokens.trans h₁.tokens
  index := Nat.le_trans h₁.index h₂.index
  nextId := Nat.le_trans h₁.nextId h₂.nextId

theorem before_advance (s : Cursor) : s.Before s.advance := by
  obtain ⟨file, past, current, upcoming, nextId, closed⟩ := s
  cases upcoming with
  | nil => exact .refl _
  | cons token tokens =>
    refine ⟨?_, Nat.le_succ _, Nat.le_refl _⟩
    simp [Cursor.tokens, advance, ahead]

theorem before_numbered (s : Cursor) : s.Before { s with nextId := s.nextId + 1 } :=
  ⟨rfl, Nat.le_refl _, Nat.le_succ _⟩

theorem index_advance {s : Cursor} (h : s.kind ≠ .eof) : s.advance.index = s.index + 1 := by
  rw [index, (reaches_advance h).past]
  rfl

theorem getElem?_tokens_index (s : Cursor) : s.tokens[s.index]? = some s.current := by
  simp [tokens, index, ahead]

theorem exists_lastEnd {s : Cursor} (h : 0 < s.index) :
    ∃ token, s.tokens[s.index - 1]? = some token ∧ s.lastEnd = token.span.stop := by
  obtain ⟨file, past, current, upcoming, nextId, closed⟩ := s
  cases past with
  | nil => exact absurd h (Nat.lt_irrefl 0)
  | cons token past => exact ⟨token, by simp [tokens, index], rfl⟩

end Cursor

namespace Phrase

def startByte (p : Phrase) : Nat := p.span.start.offset.toNat

def stopByte (p : Phrase) : Nat := p.span.stop.offset.toNat

def Ascending (p : Phrase) : Prop :=
  ∀ id ∈ p.id?, ∀ c ∈ p.children, ∀ below ∈ c.ids, below < id

/-- A span for no text at all: it starts where the word `end` does and stops where the word `in`
before it has stopped. -/
def Hollow (tokens : List Token) (span : Span) : Prop :=
  ∃ before after inWord endWord, tokens = before ++ inWord :: endWord :: after ∧
    inWord.kind = .inWord ∧ endWord.kind = .endWord ∧
    span = ⟨endWord.span.start, inWord.span.stop⟩

/-- The child is the body of a `let` that has no text. -/
def EmptyBody (tokens : List Token) (p c : Phrase) : Prop :=
  ∃ node decs inner, p = .exp (.letIn node decs (.seq inner [])) ∧ c = .exp (.seq inner []) ∧
    Hollow tokens inner.span

/-- The phrase starts and stops with a token, and its children lie within it. A child does not stop
before it starts, unless it has no text. -/
structure Laid (tokens : List Token) (p : Phrase) : Prop where
  start : ∃ token ∈ tokens, p.span.start = token.span.start
  stop : ∃ token ∈ tokens, p.span.stop = token.span.stop
  within : ∀ c ∈ p.children, p.startByte ≤ c.startByte ∧ c.stopByte ≤ p.stopByte
  forward : ∀ c ∈ p.children, c.startByte ≤ c.stopByte ∨ EmptyBody tokens p c

/-- The phrase starts with token `i` and stops with token `j`, which has been read. All numbers in it
have been given, and numbers and spans are as they should be everywhere inside it. -/
structure Covers (s : Cursor) (i j : Nat) (p : Phrase) : Prop where
  start : ∃ token, s.tokens[i]? = some token ∧ p.span.start = token.span.start
  stop : ∃ token, s.tokens[j]? = some token ∧ p.span.stop = token.span.stop
  read : j < s.index
  below : ∀ id ∈ p.ids, id < s.nextId
  ascending : ∀ q : Phrase, q.Inside p → q.Ascending
  laid : Token.Ordered s.tokens → ∀ q : Phrase, q.Inside p → q.Laid s.tokens

theorem Covers.mono {s s' : Cursor} {i j : Nat} {p : Phrase} (h : p.Covers s i j)
    (hs : s.Before s') : p.Covers s' i j where
  start := by rw [hs.tokens]; exact h.start
  stop := by rw [hs.tokens]; exact h.stop
  read := Nat.lt_of_lt_of_le h.read hs.index
  below id hid := Nat.lt_of_lt_of_le (h.below id hid) hs.nextId
  ascending := h.ascending
  laid := by rw [hs.tokens]; exact h.laid

theorem Covers.of_children {m s : Cursor} {i j : Nat} {p : Phrase} (hs : m.Before s)
    (hstart : ∃ token, m.tokens[i]? = some token ∧ p.span.start = token.span.start)
    (hstop : ∃ token, m.tokens[j]? = some token ∧ p.span.stop = token.span.stop)
    (hread : j < m.index) (hid : ∀ id ∈ p.id?, m.nextId ≤ id ∧ id < s.nextId)
    (hchildren : ∀ c ∈ p.children, ∃ k l, i ≤ k ∧ l ≤ j ∧ c.Covers m k l ∧
      (k ≤ l ∨ EmptyBody m.tokens p c)) : p.Covers s i j := by
  have hbelow : ∀ c ∈ p.children, ∀ id ∈ c.ids, id < m.nextId := by
    intro c hc id hmem
    obtain ⟨k, l, -, -, hcovers, -⟩ := hchildren c hc
    exact hcovers.below id hmem
  obtain ⟨first, hfirst, hspanStart⟩ := hstart
  obtain ⟨last, hlast, hspanStop⟩ := hstop
  rw [← hs.tokens] at hfirst hlast
  refine ⟨⟨first, hfirst, hspanStart⟩, ⟨last, hlast, hspanStop⟩,
    Nat.lt_of_lt_of_le hread hs.index, ?below, ?ascending, ?laid⟩
  case below =>
    intro id hmem
    rw [ids_eq, List.mem_append, List.mem_flatMap] at hmem
    rcases hmem with hown | ⟨c, hc, hinner⟩
    · exact (hid id (Option.mem_toList.mp hown)).2
    · exact Nat.lt_of_lt_of_le (hbelow c hc id hinner) hs.nextId
  case ascending =>
    refine forall_inside_iff.mpr ⟨fun id hmem c hc inner hinner => ?_, fun c hc => ?_⟩
    · exact Nat.lt_of_lt_of_le (hbelow c hc inner hinner) (hid id hmem).1
    · obtain ⟨k, l, -, -, hcovers, -⟩ := hchildren c hc
      exact hcovers.ascending
  case laid =>
    intro hordered
    have hbyte : p.startByte = first.startByte := by
      rw [startByte, hspanStart, Token.startByte]
    have hbyte' : p.stopByte = last.stopByte := by
      rw [stopByte, hspanStop, Token.stopByte]
    refine forall_inside_iff.mpr ⟨⟨⟨first, List.mem_of_getElem? hfirst, hspanStart⟩,
      ⟨last, List.mem_of_getElem? hlast, hspanStop⟩, fun c hc => ?within, fun c hc => ?forward⟩,
      fun c hc => ?inner⟩
    all_goals
      obtain ⟨k, l, hik, hlj, hcovers, hkl⟩ := hchildren c hc
      have hmoved := hcovers.mono hs
      obtain ⟨cfirst, hcfirst, hcstart⟩ := hmoved.start
      obtain ⟨clast, hclast, hcstop⟩ := hmoved.stop
    case within =>
      constructor
      · rw [hbyte, startByte, hcstart]
        exact hordered.start_le_start hik hfirst hcfirst
      · rw [hbyte', stopByte, hcstop]
        exact hordered.stop_le_stop hlj hclast hlast
    case forward =>
      rcases hkl with hkl | hempty
      · left
        rw [startByte, stopByte, hcstart, hcstop]
        exact hordered.start_le_stop hkl hcfirst hclast
      · right
        rw [hs.tokens]
        exact hempty
    case inner => exact hmoved.laid hordered

def Stands (i : Nat) (s : Cursor) (p : Phrase) : Prop := ∃ k l, i ≤ k ∧ k ≤ l ∧ p.Covers s k l

theorem Stands.mono {i i' : Nat} {s s' : Cursor} {p : Phrase} (h : p.Stands i s) (hi : i' ≤ i)
    (hs : s.Before s') : p.Stands i' s' := by
  obtain ⟨k, l, hik, hkl, hcovers⟩ := h
  exact ⟨k, l, Nat.le_trans hi hik, hkl, hcovers.mono hs⟩

theorem Stands.lt_index {i : Nat} {s : Cursor} {p : Phrase} (h : p.Stands i s) : i < s.index := by
  obtain ⟨k, l, hik, hkl, hcovers⟩ := h
  exact Nat.lt_of_le_of_lt (Nat.le_trans hik hkl) hcovers.read

def OfNode (make : Node → Phrase) : Prop :=
  ∀ node, (make node).span = node.span ∧ (make node).id? = some node.id

def OfSpan (make : Span → Phrase) : Prop :=
  ∀ span, (make span).span = span ∧ (make span).id? = none

def ofToken (token : Token) : Phrase := .typeExp (.name token.span token.value)

theorem ofToken_covers {s : Cursor} {i : Nat} {token : Token} (h : s.tokens[i]? = some token)
    (hread : i < s.index) : (ofToken token).Covers s i i :=
  .of_children (.refl s) ⟨token, h, rfl⟩ ⟨token, h, rfl⟩ hread nofun nofun

end Phrase

namespace Parser

open Phrase

structure Gathered (start : Position) (i : Nat) (held : List Phrase) (s : Cursor) : Prop where
  opened : ∃ token, s.tokens[i]? = some token ∧ start = token.span.start
  read : i < s.index
  held : ∀ c ∈ held, c.Stands i s

theorem Gathered.mono {start : Position} {i : Nat} {held held' : List Phrase} {s s' : Cursor}
    (h : Gathered start i held s) (hs : s.Before s') (hsub : ∀ c ∈ held', c ∈ held) :
    Gathered start i held' s' where
  opened := by rw [hs.tokens]; exact h.opened
  read := Nat.lt_of_lt_of_le h.read hs.index
  held c hc := (h.held c (hsub c hc)).mono (Nat.le_refl i) hs

theorem Gathered.cons {start : Position} {i : Nat} {held : List Phrase} {s : Cursor} {p : Phrase}
    (h : Gathered start i held s) (hp : p.Stands i s) : Gathered start i (p :: held) s :=
  ⟨h.opened, h.read, List.forall_mem_cons.mpr ⟨hp, h.held⟩⟩

theorem Gathered.assemble {start : Position} {i : Nat} {held : List Phrase} {m s : Cursor}
    {p : Phrase} (h : Gathered start i held m) (hs : m.Before s) (hspan : p.span = m.spanSince start)
    (hid : ∀ id ∈ p.id?, m.nextId ≤ id ∧ id < s.nextId)
    (hchildren : ∀ c ∈ p.children, c.Stands i m ∨
      ∃ k l, i ≤ k ∧ c.Covers m k l ∧ EmptyBody m.tokens p c) : p.Stands i s := by
  have hread := h.read
  obtain ⟨first, hfirst, hstart⟩ := h.opened
  obtain ⟨last, hlast, hstop⟩ := Cursor.exists_lastEnd (Nat.lt_of_le_of_lt (Nat.zero_le i) hread)
  have hspanStart : p.span.start = first.span.start := by rw [hspan]; exact hstart
  have hspanStop : p.span.stop = last.span.stop := by rw [hspan]; exact hstop
  refine ⟨i, m.index - 1, Nat.le_refl i, Nat.le_sub_one_of_lt hread,
    .of_children hs ⟨first, hfirst, hspanStart⟩ ⟨last, hlast, hspanStop⟩ (by omega) hid
      fun c hc => ?_⟩
  rcases hchildren c hc with ⟨k, l, hik, hkl, hcovers⟩ | ⟨k, l, hik, hcovers, hempty⟩
  · exact ⟨k, l, hik, Nat.le_sub_one_of_lt hcovers.read, hcovers, .inl hkl⟩
  · exact ⟨k, l, hik, Nat.le_sub_one_of_lt hcovers.read, hcovers, .inr hempty⟩

/-- From the place `s`, a reading with the phrases `held` goes on and ends with those of `out`. -/
def GathersFrom {α : Type} (s : Cursor) (start : Position) (i : Nat) (held : List Phrase)
    (p : Parser α) (out : α → List Phrase) : Prop :=
  ∀ a s', p.run s = (.ok a, s') → Gathered start i held s →
    s.Before s' ∧ Gathered start i (out a) s'

def Gathers {α : Type} (start : Position) (i : Nat) (held : List Phrase) (p : Parser α)
    (out : α → List Phrase) : Prop := ∀ s, GathersFrom s start i held p out

def LaysFrom {α : Type} (s : Cursor) (p : Parser α) (phrase : α → Phrase) : Prop :=
  ∀ a s', p.run s = (.ok a, s') → s.Before s' ∧ (phrase a).Stands s.index s'

def Lays {α : Type} (p : Parser α) (phrase : α → Phrase) : Prop := ∀ s, LaysFrom s p phrase

theorem exists_of_run_bind {α β : Type} {p : Parser α} {f : α → Parser β} {s s' : Cursor} {b : β}
    (h : (p >>= f).run s = (.ok b, s')) :
    ∃ a s₁, p.run s = (.ok a, s₁) ∧ (f a).run s₁ = (.ok b, s') := by
  rw [run_bind] at h
  split at h
  · next a s₁ hfirst => exact ⟨a, s₁, hfirst, h⟩
  · simp at h

theorem GathersFrom.bind {α β : Type} {s : Cursor} {start : Position} {i : Nat}
    {held : List Phrase} {p : Parser α} {f : α → Parser β} {mid : α → List Phrase}
    {out : β → List Phrase} (hp : GathersFrom s start i held p mid)
    (hf : ∀ a, Gathers start i (mid a) (f a) out) : GathersFrom s start i held (p >>= f) out := by
  intro b s' hrun h
  obtain ⟨a, s₁, hfirst, hrest⟩ := exists_of_run_bind hrun
  obtain ⟨hbefore, h₁⟩ := hp a s₁ hfirst h
  obtain ⟨hbefore', h₂⟩ := hf a s₁ b s' hrest h₁
  exact ⟨hbefore.trans hbefore', h₂⟩

theorem GathersFrom.lays {α : Type} {s : Cursor} {start : Position} {i : Nat} {held : List Phrase}
    {p : Parser α} {phrase : α → Phrase} (h : LaysFrom s p phrase) :
    GathersFrom s start i held p fun a => phrase a :: held := by
  intro a s' hrun hheld
  obtain ⟨hbefore, hstands⟩ := h a s' hrun
  have hnew : (phrase a).Stands i s' := hstands.mono (Nat.le_of_lt hheld.read) (.refl s')
  exact ⟨hbefore, (hheld.mono hbefore fun _ hc => hc).cons hnew⟩

theorem GathersFrom.look {α β : Type} {s : Cursor} {start : Position} {i : Nat}
    {held : List Phrase} {f : Cursor → α} {g : α → Parser β} {out : β → List Phrase}
    (h : GathersFrom s start i held (g (f s)) out) :
    GathersFrom s start i held (Parser.look f >>= g) out := h

theorem LaysFrom.look {α β : Type} {s : Cursor} {f : Cursor → α} {g : α → Parser β}
    {phrase : β → Phrase} (h : LaysFrom s (g (f s)) phrase) :
    LaysFrom s (Parser.look f >>= g) phrase := h

theorem LaysFrom.fail {α : Type} {s : Cursor} {phrase : α → Phrase} (d : Diagnostic) :
    LaysFrom s (Parser.fail d) phrase := by
  intro a s' hrun
  simp [Parser.fail] at hrun

theorem LaysFrom.unexpected {α : Type} {s : Cursor} {phrase : α → Phrase} :
    LaysFrom s Parser.unexpected phrase := by
  intro a s' hrun
  simp [Parser.unexpected] at hrun

namespace Gathers
variable {α β σ : Type} {start : Position} {i : Nat} {held : List Phrase} {out : α → List Phrase}

theorem bind {p : Parser α} {f : α → Parser β} {out' : β → List Phrase}
    (hp : Gathers start i held p out) (hf : ∀ a, Gathers start i (out a) (f a) out') :
    Gathers start i held (p >>= f) out' := fun s => (hp s).bind hf

theorem pure {a : α} (hsub : ∀ c ∈ out a, c ∈ held) : Gathers start i held (pure a) out := by
  intro s b s' hrun h
  cases hrun
  exact ⟨.refl s, h.mono (.refl s) hsub⟩

theorem fewer {p : Parser α} {held' : List Phrase} (h : Gathers start i held' p out)
    (hsub : ∀ c ∈ held', c ∈ held) : Gathers start i held p out :=
  fun s a s' hrun hheld => h s a s' hrun (hheld.mono (.refl s) hsub)

theorem look (f : Cursor → α) : Gathers start i held (look f) fun _ => held := by
  intro s a s' hrun h
  cases hrun
  exact ⟨.refl s, h⟩

theorem unexpected : Gathers start i held (unexpected : Parser α) out := by
  intro s a s' hrun
  simp [Parser.unexpected] at hrun

theorem fail (d : Diagnostic) : Gathers start i held (fail d : Parser α) out := by
  intro s a s' hrun
  simp [Parser.fail] at hrun

theorem advance : Gathers start i held advance fun _ => held := by
  intro s a s' hrun h
  cases hrun
  exact ⟨s.before_advance, h.mono s.before_advance fun _ hc => hc⟩

theorem ite {c : Prop} [Decidable c] {p q : Parser α} (hp : Gathers start i held p out)
    (hq : Gathers start i held q out) : Gathers start i held (if c then p else q) out := by
  split
  · exact hp
  · exact hq

theorem expectOr (expected : TokenKind) (failure : Diagnostic) :
    Gathers start i held (expectOr expected failure) fun _ => held :=
  (look _).bind fun _ => ite advance (fail _)

theorem expect (expected : TokenKind) : Gathers start i held (expect expected) fun _ => held :=
  (look _).bind fun _ => expectOr _ _

theorem identifier (context : String) : Gathers start i held (identifier context) fun _ => held :=
  (look _).bind fun _ => (expectOr _ _).bind fun _ => pure fun _ hc => hc

theorem lays {p : Parser α} {phrase : α → Phrase} (h : Lays p phrase) :
    Gathers start i held p fun a => phrase a :: held := fun s => .lays (h s)

def afterRound (between : σ → List Phrase) (out : β → List Phrase) : Round σ β → List Phrase
  | .again next => between next
  | .done answer => out answer

theorem loop {round : σ → Parser (Round σ β)} (between : σ → List Phrase) {out : β → List Phrase}
    (h : ∀ state, Gathers start i (between state) (round state) (afterRound between out))
    (state : σ) : Gathers start i (between state) (loop round state) out := by
  intro s
  change ∀ a s', loopFrom round state s = (.ok a, s') → _
  fun_induction loopFrom round state s with
  | case1 state s e s₁ hround => intro a s' hrun; simp at hrun
  | case2 state s answer s₁ hround =>
    intro a s' hrun hheld
    cases hrun
    exact h state _ _ _ hround hheld
  | case3 state s next s₁ hround hlt ih =>
    intro a s' hrun hheld
    obtain ⟨hbefore, h₁⟩ := h state _ _ _ hround hheld
    obtain ⟨hbefore', h₂⟩ := ih a s' hrun h₁
    exact ⟨hbefore.trans hbefore', h₂⟩
  | case4 state s next s₁ hround hlt =>
    intro a s' hrun
    simp [Parser.unexpected] at hrun

theorem commaSeparated {item : Parser α} {phrase : α → Phrase} (h : Lays item phrase)
    (stop : TokenKind) :
    Gathers start i held (commaSeparated stop item) fun items => items.map phrase ++ held := by
  refine loop (fun items => items.map phrase ++ held) (fun items => ?_) []
  refine (look _).bind fun _ => ite (pure fun _ hc => hc) ((lays h).bind fun a => ?_)
  have hsub : ∀ c ∈ (items ++ [a]).map phrase ++ held,
      c ∈ phrase a :: (items.map phrase ++ held) := by
    intro c hc
    simp only [List.map_append, List.map_cons, List.map_nil, List.mem_append, List.mem_cons,
      List.not_mem_nil, or_false] at hc ⊢
    tauto
  exact (look _).bind fun _ => ite (advance.bind fun _ => pure hsub) (pure hsub)

theorem made {f : Node → Parser α} (make : Node → Phrase) (hmake : OfNode make)
    (hchildren : ∀ node, ∀ c ∈ (make node).children, c ∈ held)
    (hf : ∀ node, Gathers start i (make node :: held) (f node) out) :
    Gathers start i held (node start >>= f) out := by
  intro s a s' hrun h
  have hbefore := s.before_numbered
  have hnew : (make ⟨s.nextId, s.spanSince start⟩).Stands i { s with nextId := s.nextId + 1 } := by
    refine h.assemble hbefore (hmake _).1 ?_ fun c hc => .inl (h.held c (hchildren _ c hc))
    intro id hmem
    rw [(hmake _).2, Option.mem_some_iff] at hmem
    subst hmem
    exact ⟨Nat.le_refl _, Nat.lt_succ_self _⟩
  obtain ⟨hbefore', h'⟩ := hf _ _ a s' hrun ((h.mono hbefore fun _ hc => hc).cons hnew)
  exact ⟨hbefore.trans hbefore', h'⟩

theorem spanned {f : Span → Parser α} (make : Span → Phrase) (hmake : OfSpan make)
    (hchildren : ∀ span, ∀ c ∈ (make span).children, c ∈ held)
    (hf : ∀ span, Gathers start i (make span :: held) (f span) out) :
    Gathers start i held (spanSince start >>= f) out := by
  intro s a s' hrun h
  have hnew : (make (s.spanSince start)).Stands i s := by
    refine h.assemble (.refl s) (hmake _).1 ?_ fun c hc => .inl (h.held c (hchildren _ c hc))
    intro id hmem
    rw [(hmake _).2] at hmem
    cases hmem
  exact hf _ s a s' hrun (h.cons hnew)

end Gathers

theorem Gathered.advance {start : Position} {i : Nat} {held : List Phrase} {s : Cursor}
    (h : Gathered start i held s) (hs : s.kind ≠ .eof) :
    Gathered start i (ofToken s.current :: held) s.advance := by
  have hbefore := s.before_advance
  have hindex := Cursor.index_advance hs
  have hcurrent : s.advance.tokens[s.index]? = some s.current := by
    rw [hbefore.tokens]
    exact s.getElem?_tokens_index
  have hcovers := ofToken_covers hcurrent (by omega)
  exact (h.mono hbefore fun _ hc => hc).cons
    ⟨s.index, s.index, Nat.le_of_lt h.read, Nat.le_refl _, hcovers⟩

theorem GathersFrom.advance {α : Type} {s : Cursor} {start : Position} {i : Nat}
    {held : List Phrase} {f : Token → Parser α} {out : α → List Phrase} (hs : s.kind ≠ .eof)
    (hf : ∀ token, Gathers start i (ofToken token :: held) (f token) out) :
    GathersFrom s start i held (Parser.advance >>= f) out := by
  intro a s' hrun h
  obtain ⟨hbefore, h'⟩ := hf _ s.advance a s' hrun (h.advance hs)
  exact ⟨s.before_advance.trans hbefore, h'⟩

theorem GathersFrom.enclose {α : Type} {s : Cursor} {start : Position} {i : Nat} {left : Phrase}
    {p : Parser α} {phrase : α → Phrase}
    (h : ∀ k, GathersFrom s left.span.start k [left] p fun a => [phrase a]) :
    GathersFrom s start i [left] p fun a => [phrase a] := by
  intro a s' hrun hheld
  obtain ⟨k, l, hik, hkl, hcovers⟩ := hheld.held left (List.mem_singleton_self left)
  have hleft : Gathered left.span.start k [left] s :=
    ⟨hcovers.start, Nat.lt_of_le_of_lt hkl hcovers.read,
      List.forall_mem_singleton.mpr ⟨k, l, Nat.le_refl k, hkl, hcovers⟩⟩
  obtain ⟨hbefore, h'⟩ := h k a s' hrun hleft
  have hwhole := h'.held (phrase a) (List.mem_singleton_self _)
  have hempty : Gathered start i [] s' := hheld.mono hbefore (by simp)
  exact ⟨hbefore, hempty.cons (hwhole.mono hik (.refl s'))⟩

theorem LaysFrom.opening {α : Type} {s : Cursor} {f : Token → Parser α} {phrase : α → Phrase}
    (hs : s.kind ≠ .eof)
    (hf : ∀ i, Gathers s.position i [ofToken s.current] (f s.current) fun a => [phrase a]) :
    LaysFrom s (Parser.advance >>= f) phrase := by
  intro a s' hrun
  have hbefore := s.before_advance
  have hindex := Cursor.index_advance hs
  have hcurrent : s.advance.tokens[s.index]? = some s.current := by
    rw [hbefore.tokens]
    exact s.getElem?_tokens_index
  have hopen : Gathered s.position s.index [ofToken s.current] s.advance :=
    ⟨⟨s.current, hcurrent, rfl⟩, by omega, List.forall_mem_singleton.mpr
      ⟨s.index, s.index, Nat.le_refl _, Nat.le_refl _, ofToken_covers hcurrent (by omega)⟩⟩
  obtain ⟨hbefore', h'⟩ := hf s.index s.advance a s' hrun hopen
  exact ⟨hbefore.trans hbefore', h'.held _ (List.mem_singleton_self _)⟩

theorem run_expectOr_ok {expected : TokenKind} {failure : Diagnostic} {s s' : Cursor} {token : Token}
    (h : (expectOr expected failure).run s = (.ok token, s')) :
    s.kind = expected ∧ token = s.current ∧ s' = s.advance := by
  change (if s.kind = expected then Parser.advance else Parser.fail failure).run s = _ at h
  split at h
  · next hkind =>
    cases h
    exact ⟨hkind, rfl, rfl⟩
  · simp [Parser.fail] at h

theorem LaysFrom.expected {α : Type} {s : Cursor} {expected : TokenKind} {failure : Diagnostic}
    {f : Token → Parser α} {phrase : α → Phrase} (he : expected ≠ .eof)
    (hf : ∀ i, Gathers s.position i [ofToken s.current] (f s.current) fun a => [phrase a]) :
    LaysFrom s (expectOr expected failure >>= f) phrase := by
  intro a s' hrun
  obtain ⟨token, s₁, htoken, hrest⟩ := exists_of_run_bind hrun
  obtain ⟨rfl, rfl, rfl⟩ := run_expectOr_ok htoken
  exact LaysFrom.opening he hf a s' hrest

theorem Lays.named {α : Type} {context : String} {f : Position → String → Parser α}
    {phrase : α → Phrase}
    (hf : ∀ start i name, Gathers start i [] (f start name) fun a => [phrase a]) :
    Lays (position >>= fun start => identifier context >>= f start) phrase := by
  intro s a s' hrun
  have hassoc : ((identifier context >>= f s.position).run s) = _ := hrun
  simp only [identifier, bind_assoc, pure_bind] at hassoc
  refine LaysFrom.expected (by decide) (fun i => ?_) a s' hassoc
  exact (hf s.position i _).fewer (by simp)

end Parser

end TigerLang

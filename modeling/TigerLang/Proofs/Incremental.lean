import TigerLang.Proofs.Taking

/-! What the course of a reading depends on: the tokens up to the one it stops at, and nothing after
it. And what has been read can always be completed. -/

namespace TigerLang

structure Cursor.Level (s t : Cursor) : Prop where
  file : s.file = t.file
  past : s.past = t.past
  nextId : s.nextId = t.nextId

structure Cursor.Reaches (s : Cursor) (read : List Token) (s' : Cursor) : Prop where
  past : s'.past = read.reverse ++ s.past
  ahead : s.ahead = read ++ s'.ahead

namespace Cursor

theorem Reaches.trans {s s₁ s₂ : Cursor} {read₁ read₂ : List Token} (h₁ : s.Reaches read₁ s₁)
    (h₂ : s₁.Reaches read₂ s₂) : s.Reaches (read₁ ++ read₂) s₂ where
  past := by rw [h₂.past, h₁.past, List.reverse_append, List.append_assoc]
  ahead := by rw [h₁.ahead, h₂.ahead, List.append_assoc]

theorem Reaches.current {s s' : Cursor} {token : Token} {read : List Token}
    (h : s.Reaches (token :: read) s') : s.current = token := (List.cons.inj h.ahead).1

theorem Reaches.opens {s s' : Cursor} {read : List Token} (h : s.Reaches read s')
    (rest : List Token) : ∃ after, read ++ s'.current :: rest = s.current :: after := by
  cases read with
  | nil =>
    have hcurrent : s.current = s'.current := (List.cons.inj h.ahead).1
    exact ⟨rest, by rw [hcurrent, List.nil_append]⟩
  | cons token read => exact ⟨_, by rw [h.current, List.cons_append]⟩

theorem Reaches.remaining {s s' : Cursor} {read : List Token} (h : s.Reaches read s') :
    s.remaining = read.length + s'.remaining := by
  have hlength := congrArg List.length h.ahead
  simp only [Cursor.ahead, List.length_append, List.length_cons] at hlength
  simp only [Cursor.remaining]
  omega

theorem reaches_advance {s : Cursor} (h : s.kind ≠ .eof) : s.Reaches [s.current] s.advance := by
  have hpos := remaining_pos h
  obtain ⟨file, past, current, upcoming, nextId, closed⟩ := s
  cases upcoming with
  | nil => exact absurd hpos (Nat.lt_irrefl 0)
  | cons token tokens => exact ⟨rfl, rfl⟩

theorem Level.advance {s t : Cursor} {token next : Token} {rest : List Token} (h : s.Level t)
    (hs : s.kind ≠ .eof) (ht : t.ahead = token :: next :: rest) (htoken : s.current = token) :
    s.advance.Level t.advance := by
  have hpos := remaining_pos hs
  obtain ⟨file, past, current, upcoming, nextId, closed⟩ := s
  obtain ⟨file', past', current', upcoming', nextId', closed'⟩ := t
  obtain ⟨rfl, rfl⟩ := List.cons.inj ht
  obtain ⟨rfl, rfl, rfl⟩ := h
  subst htoken
  cases upcoming with
  | nil => exact absurd hpos (Nat.lt_irrefl 0)
  | cons token tokens => exact ⟨rfl, rfl, rfl⟩

end Cursor

namespace Parser

/-- From every place level with `s`, the reading takes the tokens `read` and certain words after them
in front of `follow`. -/
def Completes {α : Type} (follow : TokenKind → Prop) (p : Parser α) (s : Cursor)
    (read : List Token) : Prop :=
  ∃ words, ∀ t tokens rest, s.Level t → t.ahead = read ++ (tokens ++ rest) →
    tokens.map Token.word = words → Follows follow rest →
      ∃ a t', p.run t = (.ok a, t') ∧ t'.ahead = rest

/-- From the place `s` the reading goes over the tokens `read`. A failure is reported where it
stops. Nothing after the token there makes a difference. If any token has been read, those read can
be completed to something that the reading takes in front of `follow`. -/
structure Course {α : Type} (follow : TokenKind → Prop) (p : Parser α) (s : Cursor)
    (read : List Token) : Prop where
  reaches : s.Reaches read (p.run s).2
  position : ∀ d, (p.run s).1 = .error d → d.position = (p.run s).2.position
  same : ∀ t rest, s.Level t → t.ahead = read ++ (p.run s).2.current :: rest →
    (p.run t).1 = (p.run s).1 ∧ (p.run s).2.Level (p.run t).2 ∧
      (p.run t).2.ahead = (p.run s).2.current :: rest
  completes : read ≠ [] → Completes follow p s read

namespace Course
variable {α β σ : Type} {follow mid : TokenKind → Prop} {s : Cursor} {read : List Token}

theorem still {p : Parser α} {answer : Cursor → Except Diagnostic α} {next : Cursor → Nat}
    (hrun : ∀ t, p.run t = (answer t, { t with nextId := next t }))
    (hposition : ∀ d, answer s = .error d → d.position = s.position)
    (hlocal : ∀ t, s.Level t → t.current = s.current → answer t = answer s ∧ next t = next s) :
    Course follow p s [] where
  reaches := by
    rw [hrun]
    exact ⟨rfl, rfl⟩
  position := by
    rw [hrun]
    exact hposition
  same t rest hlevel hahead := by
    rw [hrun] at hahead
    obtain ⟨hanswer, hnext⟩ := hlocal t hlevel (Cursor.current_of_ahead hahead)
    rw [hrun, hrun, hanswer, hnext]
    exact ⟨rfl, ⟨hlevel.file, hlevel.past, rfl⟩, hahead⟩
  completes hread := absurd rfl hread

theorem pure (a : α) : Course follow (pure a) s [] :=
  .still (fun _ => rfl) nofun fun _ hlevel _ => ⟨rfl, hlevel.nextId.symm⟩

theorem unexpected : Course follow (unexpected : Parser α) s [] := by
  refine .still (fun _ => rfl) ?_ fun t hlevel hcurrent => ?_
  · rintro _ ⟨⟩
    rfl
  · rw [Cursor.position, hcurrent]
    exact ⟨rfl, hlevel.nextId.symm⟩

theorem fail {d : Diagnostic} (h : d.position = s.position) :
    Course follow (fail d : Parser α) s [] := by
  refine .still (fun _ => rfl) ?_ fun _ hlevel _ => ⟨rfl, hlevel.nextId.symm⟩
  rintro _ ⟨⟩
  exact h

theorem advance (h : s.kind ≠ .eof) : Course follow advance s [s.current] where
  reaches := Cursor.reaches_advance h
  position := nofun
  same t rest hlevel hahead :=
    ⟨congrArg Except.ok (Cursor.current_of_ahead hahead), hlevel.advance h hahead rfl,
      Cursor.ahead_advance hahead⟩
  completes _ := by
    refine ⟨[], fun t tokens rest hlevel hahead hmap hrest => ⟨t.current, t.advance, rfl, ?_⟩⟩
    obtain rfl := List.map_eq_nil_iff.mp hmap
    obtain ⟨next, after, rfl, -⟩ := hrest
    exact Cursor.ahead_advance hahead

theorem look_bind {f : Cursor → α} {p : α → Parser β} (h : Course follow (p (f s)) s read)
    (hlocal : ∀ t, s.Level t → t.current = s.current → f t = f s) :
    Course follow (look f >>= p) s read where
  reaches := h.reaches
  position := h.position
  same t rest hlevel hahead := by
    obtain ⟨after, hafter⟩ := h.reaches.opens rest
    have hlook := hlocal t hlevel (Cursor.current_of_ahead (hahead.trans hafter))
    change ((p (f t)).run t).1 = _ ∧ Cursor.Level _ ((p (f t)).run t).2 ∧ ((p (f t)).run t).2.ahead = _
    rw [hlook]
    exact h.same t rest hlevel hahead
  completes hread := by
    obtain ⟨words, hwords⟩ := h.completes hread
    refine ⟨words, fun t tokens rest hlevel hahead hmap hrest => ?_⟩
    have hcurrent : t.current = s.current := by
      obtain ⟨token, read, rfl⟩ := List.exists_cons_of_ne_nil hread
      rw [h.reaches.current]
      exact Cursor.current_of_ahead hahead
    change ∃ b t', (p (f t)).run t = _ ∧ _
    rw [hlocal t hlevel hcurrent]
    exact hwords t tokens rest hlevel hahead hmap hrest

theorem error {p : Parser α} {q : Parser β} {d : Diagnostic} (hp : Course mid p s read)
    (hd : (p.run s).1 = .error d)
    (hq : ∀ t, (p.run t).1 = .error d → q.run t = (.error d, (p.run t).2))
    (hcompletes : read ≠ [] → Completes follow q s read) : Course follow q s read where
  reaches := by
    rw [hq s hd]
    exact hp.reaches
  position := by
    rw [hq s hd]
    rintro _ ⟨⟩
    exact hp.position d hd
  same t rest hlevel hahead := by
    rw [hq s hd] at hahead ⊢
    obtain ⟨hsame, hplace⟩ := hp.same t rest hlevel hahead
    rw [hq t (hsame.trans hd)]
    exact ⟨rfl, hplace⟩
  completes := hcompletes

theorem append {p : Parser α} {q r : Parser β} {a : α} {read' : List Token} (hp : Course mid p s read)
    (ha : (p.run s).1 = .ok a) (hq : Course follow q (p.run s).2 read')
    (hr : ∀ t t₁, p.run t = (.ok a, t₁) → t.ahead = read ++ t₁.ahead → r.run t = q.run t₁)
    (hcompletes : read ≠ [] → Completes follow r s read) : Course follow r s (read ++ read') := by
  have hs : r.run s = q.run (p.run s).2 := hr s _ (Prod.ext ha rfl) hp.reaches.ahead
  -- The first part does the same wherever the tokens agree up to the place where it ended.
  have hfirst : ∀ t after, s.Level t → t.ahead = read ++ (p.run s).2.current :: after →
      ∃ t₁, (p.run s).2.Level t₁ ∧ t₁.ahead = (p.run s).2.current :: after ∧
        r.run t = q.run t₁ := by
    intro t after hlevel hahead
    obtain ⟨hsame, hplace, hrest⟩ := hp.same t after hlevel hahead
    refine ⟨_, hplace, hrest, hr t _ (Prod.ext (hsame.trans ha) rfl) ?_⟩
    rw [hahead, hrest]
  refine ⟨?_, ?_, ?_, ?_⟩
  · rw [hs]
    exact hp.reaches.trans hq.reaches
  · rw [hs]
    exact hq.position
  · intro t rest hlevel hahead
    rw [hs] at hahead ⊢
    rw [List.append_assoc] at hahead
    obtain ⟨after, hafter⟩ := hq.reaches.opens rest
    rw [hafter] at hahead
    obtain ⟨t₁, hlevel₁, hahead₁, hrun⟩ := hfirst t after hlevel hahead
    rw [hrun]
    exact hq.same t₁ rest hlevel₁ (hahead₁.trans hafter.symm)
  · intro hread
    cases read' with
    | nil =>
      rw [List.append_nil] at hread ⊢
      exact hcompletes hread
    | cons token read' =>
      obtain ⟨words, hwords⟩ := hq.completes (List.cons_ne_nil _ _)
      refine ⟨words, fun t tokens rest hlevel hahead hmap hrest => ?_⟩
      rw [List.append_assoc, List.cons_append, ← hq.reaches.current] at hahead
      obtain ⟨t₁, hlevel₁, hahead₁, hrun⟩ := hfirst t _ hlevel hahead
      rw [hrun]
      rw [hq.reaches.current] at hahead₁
      exact hwords t₁ tokens rest hlevel₁ hahead₁ hmap hrest

end Course

theorem Completes.bind {α β : Type} {follow mid : TokenKind → Prop} {s : Cursor} {read : List Token}
    {words : List Word} {p : Parser α} {f : α → Parser β} (hp : Completes mid p s read)
    (hf : ∀ a, Takes words follow (f a) fun _ => True) (hleads : Leads words follow mid) :
    Completes follow (p >>= f) s read := by
  obtain ⟨words₁, hwords₁⟩ := hp
  refine ⟨words₁ ++ words, fun t tokens rest hlevel hahead hmap hrest => ?_⟩
  obtain ⟨first, second, rfl, hfirst, hsecond⟩ := List.map_eq_append_iff.mp hmap
  rw [List.append_assoc] at hahead
  obtain ⟨a, t₁, hrun, hahead₁⟩ :=
    hwords₁ t first _ hlevel hahead hfirst (hleads.follows hsecond hrest)
  obtain ⟨b, t₂, hrun₂, hahead₂, -⟩ := hf a t₁ second rest hahead₁ hsecond hrest
  refine ⟨b, t₂, ?_, hahead₂⟩
  rw [run_bind, hrun]
  exact hrun₂

def Tracked {α : Type} (n : Nat) (opens follow : TokenKind → Prop) (p : Parser α) : Prop :=
  ∀ s, s.remaining < n → opens s.kind → ∃ read, Course follow p s read

namespace Tracked
variable {α β σ : Type} {n : Nat} {opens mid follow : TokenKind → Prop} {words : List Word}

theorem mono {p : Parser α} {n' : Nat} {opens' follow' : TokenKind → Prop}
    (h : Tracked n opens follow p) (hn : n' ≤ n) (hopens : ∀ kind, opens' kind → opens kind)
    (hfollow : ∀ kind, follow' kind → follow kind) : Tracked n' opens' follow' p := by
  intro s hs hkind
  obtain ⟨read, hcourse⟩ := h s (Nat.lt_of_lt_of_le hs hn) (hopens _ hkind)
  refine ⟨read, hcourse.reaches, hcourse.position, hcourse.same, fun hread => ?_⟩
  obtain ⟨words, hwords⟩ := hcourse.completes hread
  exact ⟨words, fun t tokens rest hlevel hahead hmap hrest =>
    hwords t tokens rest hlevel hahead hmap (hrest.imp hfollow)⟩

theorem le {p : Parser α} (h : Tracked (n + 1) opens follow p) : Tracked n opens follow p :=
  h.mono (Nat.le_succ n) (fun _ hkind => hkind) fun _ hkind => hkind

theorem pure (a : α) : Tracked n opens follow (pure a) := fun _ _ _ => ⟨[], .pure a⟩

theorem unexpected : Tracked n opens follow (unexpected : Parser α) :=
  fun _ _ _ => ⟨[], .unexpected⟩

theorem look_bind {f : Cursor → α} {p : α → Parser β}
    (hlocal : ∀ s t, s.Level t → t.current = s.current → f t = f s)
    (h : ∀ a, Tracked n opens follow (p a)) : Tracked n opens follow (look f >>= p) := by
  intro s hs hkind
  obtain ⟨read, hcourse⟩ := h (f s) s hs hkind
  exact ⟨read, hcourse.look_bind (hlocal s)⟩

theorem freshId_bind {p : Nat → Parser β} (h : ∀ id, Tracked n opens follow (p id)) :
    Tracked n opens follow (freshId >>= p) := by
  intro s hs hkind
  have hfresh : Course follow freshId s [] := by
    refine .still (fun _ => rfl) nofun fun t hlevel _ => ?_
    rw [hlevel.nextId]
    exact ⟨rfl, rfl⟩
  obtain ⟨read, hcourse⟩ := h s.nextId { s with nextId := s.nextId + 1 } hs hkind
  refine ⟨_, hfresh.append rfl hcourse (fun t t₁ ht _ => ?_) fun hread => absurd rfl hread⟩
  rw [run_bind, ht]

theorem position_bind {p : Position → Parser β} (h : ∀ a, Tracked n opens follow (p a)) :
    Tracked n opens follow (position >>= p) :=
  look_bind (fun s t _ hcurrent => by rw [Cursor.position, hcurrent, Cursor.position]) h

theorem spanSince_bind {start : Position} {p : Span → Parser β}
    (h : ∀ a, Tracked n opens follow (p a)) : Tracked n opens follow (spanSince start >>= p) := by
  refine look_bind (fun s t hlevel _ => ?_) h
  simp only [Cursor.spanSince, Cursor.lastEnd, hlevel.past, hlevel.file]

theorem current_bind {f : Token → Parser β}
    (h : ∀ s, s.remaining < n → opens s.kind → ∃ read, Course follow (f s.current) s read) :
    Tracked n opens follow (current >>= f) := by
  intro s hs hkind
  obtain ⟨read, hcourse⟩ := h s hs hkind
  exact ⟨read, hcourse.look_bind fun _ _ hcurrent => hcurrent⟩

theorem node_bind {start : Position} {p : Node → Parser β}
    (h : ∀ node, Tracked n opens follow (p node)) :
    Tracked n opens follow (node start >>= p) := by
  rw [node, bind_assoc]
  refine freshId_bind fun id => ?_
  rw [bind_assoc]
  exact spanSince_bind fun span => h ⟨id, span⟩

theorem kind_bind {f : TokenKind → Parser β}
    (h : ∀ kind, opens kind → Tracked n (· = kind) follow (f kind)) :
    Tracked n opens follow (kind >>= f) := by
  intro s hs hkind
  obtain ⟨read, hcourse⟩ := h s.kind hkind s hs rfl
  refine ⟨read, hcourse.look_bind fun t _ hcurrent => ?_⟩
  rw [Cursor.kind, hcurrent, Cursor.kind]

theorem bind {p : Parser α} {f : α → Parser β} (hp : Tracked n opens mid p)
    (hf : ∀ a, Tracked n anything follow (f a)) (htakes : ∀ a, Takes words follow (f a) fun _ => True)
    (hleads : Leads words follow mid) : Tracked n opens follow (p >>= f) := by
  intro s hs hkind
  obtain ⟨read, hcourse⟩ := hp s hs hkind
  have hcompletes : read ≠ [] → Completes follow (p >>= f) s read :=
    fun hread => (hcourse.completes hread).bind htakes hleads
  cases hrun : (p.run s).1 with
  | error d =>
    refine ⟨read, hcourse.error hrun (fun t ht => ?_) hcompletes⟩
    rw [run_bind, ← Prod.eta (p.run t), ht]
  | ok a =>
    have hlt : (p.run s).2.remaining < n := by
      have hremaining := hcourse.reaches.remaining
      omega
    obtain ⟨read', hcourse'⟩ := hf a _ hlt trivial
    refine ⟨read ++ read', hcourse.append hrun hcourse' (fun t t₁ ht _ => ?_) hcompletes⟩
    rw [run_bind, ht]

theorem advance_bind {f : Token → Parser β} (heof : ¬ opens .eof)
    (hf : ∀ a, Tracked n anything follow (f a))
    (htakes : ∀ a, Takes words follow (f a) fun _ => True) :
    Tracked (n + 1) opens follow (advance >>= f) := by
  intro s hs hkind
  have hadvance : Course anything Parser.advance s [s.current] :=
    .advance fun h => heof (h ▸ hkind)
  have hlt : s.advance.remaining < n := by
    have hremaining : s.remaining = 1 + s.advance.remaining := hadvance.reaches.remaining
    omega
  obtain ⟨read, hcourse⟩ := hf s.current s.advance hlt trivial
  refine ⟨_, hadvance.append rfl hcourse (fun t t₁ ht _ => ?_) fun hread => ?_⟩
  · rw [run_bind, ht]
  · exact (hadvance.completes hread).bind htakes (leads_anything words follow)

theorem expectOr {expected : TokenKind} (hexpected : expected ≠ .eof) (cause : Token → Cause) :
    Tracked n opens follow (current >>= fun token =>
      expectOr expected ⟨cause token, token.span.start⟩) := by
  refine .current_bind fun s hs _ => ?_
  have hcourse : ∃ read, Course follow (if s.kind = expected then Parser.advance
      else fail ⟨cause s.current, s.position⟩) s read := by
    split
    · next hkind => exact ⟨_, .advance (hkind ▸ hexpected)⟩
    · exact ⟨[], .fail rfl⟩
  obtain ⟨read, hcourse⟩ := hcourse
  refine ⟨read, hcourse.look_bind fun t _ hcurrent => ?_⟩
  rw [Cursor.kind, hcurrent, Cursor.kind]

theorem expect {expected : TokenKind} (hexpected : expected ≠ .eof) :
    Tracked n opens follow (expect expected) := expectOr hexpected _

theorem identifier (context : String) : Tracked n opens follow (identifier context) := by
  have h : Tracked n opens anything (current >>= fun token => Parser.expectOr .identifier
      ⟨.unexpectedBecause token.value ("expected identifier " ++ context), token.span.start⟩) :=
    expectOr (by decide) fun token =>
      .unexpectedBecause token.value ("expected identifier " ++ context)
  have hbind := h.bind (fun name => pure name.value) (fun name => Takes.pure trivial)
    (leads_anything [] follow)
  rwa [bind_assoc] at hbind

section loop
variable {round : σ → Parser (Round σ β)}

theorem loop_completes {s : Cursor} {read : List Token} {state : σ} (hread : read ≠ [])
    (h : Completes follow (round state) s read)
    (hstop : ∀ state, Takes [] follow (round state) fun r => ∃ answer, r = .done answer) :
    Completes follow (loop round state) s read := by
  obtain ⟨words, hwords⟩ := h
  refine ⟨words, fun t tokens rest hlevel hahead hmap hrest => ?_⟩
  obtain ⟨r, t₁, hrun, hahead₁⟩ := hwords t tokens rest hlevel hahead hmap hrest
  change ∃ b t', loopFrom round state t = (.ok b, t') ∧ t'.ahead = rest
  rw [loopFrom, hrun]
  cases r with
  | done answer => exact ⟨answer, t₁, rfl, hahead₁⟩
  | again next =>
    have hlt : t₁.remaining < t.remaining := by
      apply Takes.remaining_lt (read ++ tokens)
      · rw [hahead, hahead₁, List.append_assoc]
      · exact List.append_ne_nil_of_left_ne_nil hread _
    have hlast : Takes [] follow (Parser.loop round next) fun _ => True := by
      refine Takes.loop_done ((hstop next).imp ?_)
      rintro _ ⟨answer, rfl⟩
      exact ⟨answer, rfl, trivial⟩
    obtain ⟨b, t₂, hrun₂, hahead₂, -⟩ := hlast t₁ [] rest hahead₁ rfl hrest
    exact ⟨b, t₂, (if_pos hlt).trans hrun₂, hahead₂⟩

theorem loop (hround : ∀ state, Tracked n anything follow (round state))
    (hstop : ∀ state, Takes [] follow (round state) fun r => ∃ answer, r = .done answer)
    (state : σ) : Tracked n opens follow (loop round state) := by
  intro s hs hkind
  clear hkind
  induction hm : s.remaining using Nat.strongRecOn generalizing state s with
  | _ m ih =>
    obtain ⟨read, hcourse⟩ := hround state s hs trivial
    have hcompletes : read ≠ [] → Completes follow (Parser.loop round state) s read :=
      fun hread => loop_completes hread (hcourse.completes hread) hstop
    have hremaining := hcourse.reaches.remaining
    cases hrun : ((round state).run s).1 with
    | error d =>
      refine ⟨read, hcourse.error hrun (fun t ht => ?_) hcompletes⟩
      change loopFrom round state t = _
      rw [loopFrom, ← Prod.eta ((round state).run t), ht]
    | ok r =>
      cases r with
      | done answer =>
        refine ⟨_, hcourse.append hrun (.pure answer) (fun t t₁ ht _ => ?_) hcompletes⟩
        change loopFrom round state t = _
        rw [loopFrom, ht]
        rfl
      | again next =>
        by_cases hread : read = []
        · -- A round that read nothing and asks for another fails, wherever it stands.
          refine ⟨_, hcourse.append hrun .unexpected (fun t t₁ ht hahead => ?_) hcompletes⟩
          have hsame : t.remaining = t₁.remaining := by
            rw [hread] at hahead
            exact congrArg List.length (List.cons.inj hahead).2
          change loopFrom round state t = _
          rw [loopFrom, ht]
          exact if_neg (by omega)
        · have hlength := List.length_pos_iff.mpr hread
          obtain ⟨read', hcourse'⟩ :=
            ih ((round state).run s).2.remaining (by omega) next _ (by omega) rfl
          refine ⟨_, hcourse.append hrun hcourse' (fun t t₁ ht hahead => ?_) hcompletes⟩
          change loopFrom round state t = _
          rw [loopFrom, ht]
          exact if_pos (Takes.remaining_lt read hahead hread)

end loop

end Tracked

structure Steady {α : Type} (n : Nat) (opens follow : TokenKind → Prop) (words : List Word)
    (p : Parser α) : Prop where
  tracked : Tracked n opens follow p
  takes : Takes words follow p fun _ => True

theorem Tracked.andThen {α β : Type} {n : Nat} {opens mid follow : TokenKind → Prop}
    {words : List Word} {p : Parser α} {f : α → Parser β} (hp : Tracked n opens mid p)
    (hf : ∀ a, Steady n anything follow words (f a)) (hleads : Leads words follow mid) :
    Tracked n opens follow (p >>= f) :=
  hp.bind (fun a => (hf a).tracked) (fun a => (hf a).takes) hleads

theorem Tracked.advance_andThen {β : Type} {n : Nat} {opens follow : TokenKind → Prop}
    {words : List Word} {f : Token → Parser β} (heof : ¬ opens .eof)
    (h : ∀ a, Steady n anything follow words (f a)) :
    Tracked (n + 1) opens follow (advance >>= f) :=
  .advance_bind heof (fun a => (h a).tracked) fun a => (h a).takes

namespace Steady
variable {α β σ : Type} {n : Nat} {opens mid follow : TokenKind → Prop} {words words' : List Word}

theorem before {p : Parser α} {follow' : TokenKind → Prop} (h : Steady n opens follow words p)
    (hfollow : ∀ kind, follow' kind → follow kind) : Steady n opens follow' words p :=
  ⟨h.tracked.mono (Nat.le_refl n) (fun _ hkind => hkind) hfollow, h.takes.before hfollow⟩

theorem pure (a : α) : Steady n opens follow [] (pure a) := ⟨.pure a, .pure trivial⟩

theorem bind {p : Parser α} {f : α → Parser β} (hp : Steady n opens mid words p)
    (hf : ∀ a, Steady n anything follow words' (f a)) (hleads : Leads words' follow mid) :
    Steady n opens follow (words ++ words') (p >>= f) where
  tracked := hp.tracked.andThen hf hleads
  takes := hp.takes.bind (fun a _ => (hf a).takes) hleads

theorem andThen {p : Parser α} {f : α → Parser β} (hp : Steady n opens mid words p)
    (hf : ∀ a, Steady n anything follow [] (f a)) (hfollow : ∀ kind, follow kind → mid kind) :
    Steady n opens follow words (p >>= f) := by
  have h := hp.bind hf hfollow
  rwa [List.append_nil] at h

theorem position_bind {p : Position → Parser β} (h : ∀ a, Steady n opens follow words (p a)) :
    Steady n opens follow words (position >>= p) :=
  ⟨.position_bind fun a => (h a).tracked, .look_bind fun a => (h a).takes⟩

theorem spanSince_bind {start : Position} {p : Span → Parser β}
    (h : ∀ a, Steady n opens follow words (p a)) :
    Steady n opens follow words (spanSince start >>= p) :=
  ⟨.spanSince_bind fun a => (h a).tracked, .look_bind fun a => (h a).takes⟩

theorem freshId_bind {p : Nat → Parser β} (h : ∀ id, Steady n opens follow words (p id)) :
    Steady n opens follow words (freshId >>= p) :=
  ⟨.freshId_bind fun id => (h id).tracked, .freshId_bind fun id => (h id).takes⟩

theorem node_bind {start : Position} {p : Node → Parser β}
    (h : ∀ node, Steady n opens follow words (p node)) :
    Steady n opens follow words (node start >>= p) :=
  ⟨.node_bind fun node => (h node).tracked, .node_bind fun node => (h node).takes⟩

theorem expect_bind (word : Word) {f : Token → Parser β} (hword : word.1 ≠ .eof)
    (h : ∀ a, Steady n anything follow words (f a)) :
    Steady n opens follow (word :: words) (expect word.1 >>= f) where
  tracked := (Tracked.expect hword).andThen h (leads_anything words follow)
  takes := .expect_bind fun a _ => (h a).takes

theorem identifier_bind (name : String) {context : String} {f : String → Parser β}
    (h : ∀ a, Steady n anything follow words (f a)) :
    Steady n opens follow ((.identifier, name) :: words) (identifier context >>= f) where
  tracked := (Tracked.identifier context).andThen h (leads_anything words follow)
  takes := .identifier_bind (h name).takes

theorem behind {p q : Parser β} {mark : TokenKind} (hmark : ¬ follow mark)
    (hp : Tracked n (· = mark) follow p) (hq : Steady n (· ≠ mark) follow [] q) :
    Steady n opens follow [] (kind >>= fun k => if k = mark then p else q) where
  tracked := by
    refine .kind_bind fun kind _ => ?_
    split
    · next hkind => exact hkind ▸ hp
    · next hkind =>
      exact hq.tracked.mono (Nat.le_refl n) (fun _ h => h.symm ▸ hkind) fun _ h => h
  takes := by
    refine Takes.kind_nil fun kind hkind => ?_
    have hne : kind ≠ mark := fun h => hmark (h ▸ hkind)
    rw [if_neg hne]
    exact hq.takes.before fun _ h => h.symm ▸ hkind

theorem loop {round : σ → Parser (Round σ β)}
    (hround : ∀ state, Tracked n anything follow (round state))
    (hstop : ∀ state, Takes [] follow (round state) fun r => ∃ answer, r = .done answer)
    (state : σ) : Steady n opens follow [] (loop round state) := by
  refine ⟨.loop hround hstop state, Takes.loop_done ((hstop state).imp ?_)⟩
  rintro _ ⟨answer, rfl⟩
  exact ⟨answer, rfl, trivial⟩

end Steady

end Parser

end TigerLang

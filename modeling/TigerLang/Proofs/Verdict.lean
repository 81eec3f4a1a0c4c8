import TigerLang.Proofs.BlockTypes
import TigerLang.Proofs.Situated

/-! The checker's verdict on a part of a program: it reports nothing exactly when the rules give the
part a type, and then what it finds represents that type. There is one lemma here for each way of
putting parts together. -/

namespace TigerLang

instance : Inhabited SiteType := ⟨.int⟩

structure Posed (Γ : Context) (pre : Link) (own ids : List Nat) (rep : Rep) (s : Checker) :
    Prop where
  nodup : (own ++ ids).Nodup
  apart : rep.Apart ids
  models : Models Γ rep s
  given : pre.holds rep

structure Settled (rep : Rep) (ids : List Nat) (A : Annotations) (link : Link) (s : Checker)
    (rep' : Rep) : Prop where
  extends_ : rep.Extends rep' ids
  sane : Sane rep' s
  link : link.holds rep'
  noted : Noted rep' A s

/-- The action reports nothing if and only if there is something with the property `P`, and then its
result is linked to it. The numbers in `own` are those of nodes that it may note something about,
but not as expressions. -/
structure Verdict {α σ : Type} (Γ : Context) (pre : Link) (own ids : List Nat) (x : CheckM α)
    (rel : σ → α → Link) (P : σ → Annotations → Prop) : Prop where
  keeps : Keeps (· ∈ own ++ ids) x
  within : ∀ {a A}, P a A → ∀ entry ∈ A, entry.1 ∈ ids
  silent : ∀ {rep s}, Posed Γ pre own ids rep s → (Silent s x ↔ ∃ a A, P a A)
  typed : ∀ {rep s a A}, Posed Γ pre own ids rep s → P a A →
    ∃ rep', Settled rep ids A (rel a (x.run s).1) (x.run s).2 rep'

section sane
variable {rep : Rep} {s s' : Checker}

theorem Clean.slots_modify {frame : Nat} {change : Frame → Frame} (h : Clean s)
    (hchange : ∀ f ∈ s.frames.frames, ∀ ty ∈ (change f).slots, ty ∈ f.slots ∨ ty ≠ .error) :
    ∀ f ∈ s.frames.frames.modify frame change, ∀ ty ∈ f.slots, ty ≠ .error := by
  intro f hf ty hty
  obtain ⟨i, hi⟩ := Array.mem_iff_getElem?.mp hf
  rw [Array.getElem?_modify] at hi
  split at hi
  · obtain ⟨g, hg, rfl⟩ := Option.map_eq_some_iff.mp hi
    have hmem := Array.mem_of_getElem? hg
    rcases hchange g hmem ty hty with hold | hnew
    · exact h.slots g hmem ty hold
    · exact hnew
  · exact h.slots f (Array.mem_of_getElem? hi) ty hty

-- What is in order depends on what has been found out alone: these four may not change.
variable (h : Sane rep s) (hregistry : s'.registry = s.registry)
  (hexps : s'.facts.expTypes = s.facts.expTypes) (hvars : s'.facts.varTypes = s.facts.varTypes)
  (hfunctions : s'.facts.functions = s.facts.functions)
include h hregistry hexps hvars hfunctions

theorem Sane.of_slots (hslots : ∀ f ∈ s'.frames.frames, ∀ ty ∈ f.slots, ty ≠ .error) :
    Sane rep s' where
  faithful := hregistry ▸ h.faithful
  clean := ⟨hexps ▸ h.clean.exps, hvars ▸ h.clean.vars, hfunctions ▸ h.clean.routines,
    hslots, hregistry ▸ h.clean.records, hregistry ▸ h.clean.arrays⟩

theorem Sane.congr (hframes : s'.frames.frames = s.frames.frames) : Sane rep s' :=
  h.of_slots hregistry hexps hvars hfunctions (hframes ▸ h.clean.slots)

theorem Sane.reserve {ty : Ty} (hty : ty ≠ .error)
    (hframes : s'.frames.frames = (s.frames.reserve ty).2.frames) : Sane rep s' := by
  refine h.of_slots hregistry hexps hvars hfunctions ?_
  rw [hframes, Frames.reserve]
  dsimp only
  refine h.clean.slots_modify fun f _ t ht => ?_
  rcases Array.mem_push.mp ht with hold | rfl
  · exact .inl hold
  · exact .inr hty

theorem Sane.finalize (frame : Nat)
    (hframes : s'.frames.frames = (s.frames.finalize frame).frames) : Sane rep s' := by
  refine h.of_slots hregistry hexps hvars hfunctions ?_
  rw [hframes, Frames.finalize]
  dsimp only
  refine h.clean.slots_modify fun f _ t ht => ?_
  exact .inl ht

end sane

theorem NodeMap.forall_insert {α : Type} {map : NodeMap α} {P : α → Prop} {key : Nat} {value : α}
    (h : ∀ {id : Nat} {a}, map[id]? = some a → P a) (hvalue : P value) {id : Nat} {a : α}
    (hid : (map.insert key value)[id]? = some a) : P a := by
  by_cases heq : id = key
  · subst heq
    rw [NodeMap.getElem?_insert_self] at hid
    exact Option.some.inj hid ▸ hvalue
  · rw [NodeMap.getElem?_insert_of_ne value heq] at hid
    exact h hid

theorem rel_define {α β : Type} {R : α → β → Prop} {scope scope' : Scope α} {t : Scopes β}
    {name : String} {a : α} {b : β} (h : ∀ n, Option.Rel R (scope.value? n) (t.find? n))
    (hscope : ∀ n, scope'.value? n = if n = name then some a else scope.value? n) (hab : R a b)
    (n : String) : Option.Rel R (scope'.value? n) ((t.bind name b).find? n) := by
  rw [hscope, Scopes.find?_bind]
  split
  · exact .some hab
  · exact h n

theorem Noted.grows {rep rep' : Rep} {A : Annotations} {s s' : Checker} {base current : Nat}
    {touched : Nat → Prop} (h : Noted rep A s) (hle : ∀ {τ ty}, rep τ ty → rep' τ ty)
    (hgrows : s.Grows base current touched s') (hids : ∀ entry ∈ A, ¬ touched entry.1) :
    Noted rep' A s' := by
  intro entry hentry
  obtain ⟨ty, hty, hrep⟩ := h entry hentry
  exact ⟨ty, (hgrows.facts (hids entry hentry)).expTypes.trans hty, hle hrep⟩

theorem Noted.append {rep : Rep} {A B : Annotations} {s : Checker} (h : Noted rep A s)
    (h' : Noted rep B s) : Noted rep (A ++ B) s := by
  intro entry hentry
  rcases List.mem_append.mp hentry with hentry | hentry
  · exact h entry hentry
  · exact h' entry hentry

section posed
variable {Γ : Context} {pre link link' : Link} {own ids ids' : List Nat} {rep rep' rep'' : Rep}
  {s s' s'' : Checker} {A B : Annotations}

theorem Posed.resolved (h : Posed Γ pre own ids rep s) : AllResolved s.types := h.models.resolved

theorem Posed.first (h : Posed Γ pre own (ids ++ ids') rep s) : Posed Γ pre [] ids rep s where
  nodup := h.nodup.sublist (by simp)
  apart := h.apart.subset (List.subset_append_left _ _)
  models := h.models
  given := h.given

theorem Posed.after (h : Posed Γ pre own ids rep s) (hfirst : Settled rep ids A link s' rep')
    (henv : s.SameEnv s') : Models Γ rep' s' ∧ (pre.both link).holds rep' :=
  ⟨h.models.keeps henv hfirst.extends_.le hfirst.sane,
    pre.mono (fun _ _ => hfirst.extends_.le) h.given, hfirst.link⟩

theorem Posed.second (h : Posed Γ pre own (ids ++ ids') rep s)
    (hfirst : Settled rep ids A link s' rep') (henv : s.SameEnv s') :
    Posed Γ (pre.both link) own ids' rep' s' where
  nodup := h.nodup.sublist (by simp)
  apart := by
    obtain ⟨-, hnodup, -⟩ := List.nodup_append.mp h.nodup
    obtain ⟨-, -, hdisjoint⟩ := List.nodup_append.mp hnodup
    exact (h.apart.subset (List.subset_append_right _ _)).extends hfirst.extends_
      fun id hid hid' => hdisjoint id hid id hid' rfl
  models := h.models.keeps henv hfirst.extends_.le hfirst.sane
  given := ⟨pre.mono (fun _ _ => hfirst.extends_.le) h.given, hfirst.link⟩

theorem Posed.inner {node : Node} (h : Posed Γ pre [] (node.id :: ids) rep s)
    (hown : own.Sublist [node.id]) : Posed Γ pre own ids rep s where
  nodup := h.nodup.sublist (hown.append (.refl ids))
  apart := h.apart.subset (List.subset_cons_self _ _)
  models := h.models
  given := h.given

theorem Posed.looping (h : Posed Γ pre own ids rep s) :
    Posed Γ.looping pre own ids rep { s with loopDepth := s.loopDepth + 1 } where
  nodup := h.nodup
  apart := h.apart
  models := ⟨h.resolved, h.models.types, h.models.vars, h.models.functions,
    iff_of_true rfl (Nat.succ_pos _), h.models.sane.congr rfl rfl rfl rfl rfl⟩
  given := h.given

theorem Posed.loopVar {node : Node} (h : Posed Γ pre [node.id] ids rep s) (name : String) :
    Posed { Γ with vars := (name, ⟨.int, true⟩) :: Γ.vars } pre [] ids rep
      (Situated.loopEntered s node name) where
  nodup := h.nodup.sublist (by simp)
  apart := h.apart
  models := by
    have hvars : ∀ n, Option.Rel (VarMatches rep) (Γ.vars.value? n) (s.vars.enter.find? n) := by
      intro n
      rw [Scopes.enter_eq_within, Scopes.find?_within_nil]
      exact h.models.vars n
    have hint : rep .int .int := h.models.sane.faithful.int
    exact ⟨h.resolved, h.models.types,
      rel_define hvars (fun n => Scope.value?_cons n name _ _) ⟨hint, rfl⟩, h.models.functions,
      h.models.loop, h.models.sane.reserve rfl rfl rfl rfl (by simp) rfl⟩
  given := h.given

theorem Settled.append (h : Settled rep ids A link s' rep')
    (h' : Settled rep' ids' B link' s'' rep'') (hnoted : Noted rep'' A s'') :
    Settled rep (ids ++ ids') (A ++ B) link' s'' rep'' where
  extends_ := (h.extends_.mono (List.subset_append_left _ _)).trans
    (h'.extends_.mono (List.subset_append_right _ _))
  sane := h'.sane
  link := h'.link
  noted := hnoted.append h'.noted

end posed

namespace Verdict
variable {α β σ ρ : Type} {Γ : Context} {pre : Link} {own ids ids' : List Nat} {x : CheckM α}
  {f : α → CheckM β} {rel : σ → α → Link} {rel' : ρ → β → Link} {P P' : σ → Annotations → Prop}
  {Q : σ → ρ → Annotations → Prop} {R : σ → ρ → Prop}

theorem congr (h : Verdict Γ pre own ids x rel P) (hiff : ∀ a A, P' a A ↔ P a A) :
    Verdict Γ pre own ids x rel P' where
  keeps := h.keeps
  within ha := h.within ((hiff _ _).mp ha)
  silent hs := (h.silent hs).trans (exists_congr fun a => exists_congr fun A => (hiff a A).symm)
  typed hs ha := h.typed hs ((hiff _ _).mp ha)

theorem of_ruled {S : σ → Prop} (h : Ruled Γ pre x rel S) :
    Verdict Γ pre [] [] x rel fun a A => S a ∧ A = [] where
  keeps := .of_onlyReports h.reports
  within ha := by simp [ha.2]
  silent hs := by simpa using h.silent hs.models hs.given
  typed {rep s a A} hs ha := by
    obtain ⟨ha, rfl⟩ := ha
    exact ⟨rep, .refl _ _, hs.models.sane.reports (h.reports s hs.resolved),
      h.typed hs.models hs.given ha, by simp [Noted]⟩

theorem bind [Inhabited σ] (hx : Verdict Γ pre [] ids x rel P)
    (hf : ∀ a r, Verdict Γ (pre.both (rel a r)) own ids' (f r) rel' (Q a)) :
    Verdict Γ pre own (ids ++ ids') (x >>= f) rel'
      fun b C => ∃ a A B, P a A ∧ Q a b B ∧ C = A ++ B where
  keeps := by
    refine (hx.keeps.mono fun id hid => ?_).bind fun r => (hf default r).keeps.mono fun id hid => ?_
    · exact List.mem_append_right _ (List.mem_append_left _ hid)
    · rcases List.mem_append.mp hid with hid | hid
      · exact List.mem_append_left _ hid
      · exact List.mem_append_right _ (List.mem_append_right _ hid)
  within {b C} hb entry hentry := by
    obtain ⟨a, A, B, ha, hb, rfl⟩ := hb
    rcases List.mem_append.mp hentry with hentry | hentry
    · exact List.mem_append_left _ (hx.within ha entry hentry)
    · exact List.mem_append_right _ ((hf a (x.run .initial).1).within hb entry hentry)
  silent {rep s} hs := by
    have hkeeps := hx.keeps s hs.resolved
    have hresolved : AllResolved (x.run s).2.types := hkeeps.resolved hs.resolved
    have hrest := (hf default (x.run s).1).keeps (x.run s).2 hresolved
    rw [silent_bind hkeeps.grows.diagnostics hrest.grows.diagnostics, hx.silent hs.first]
    constructor
    · rintro ⟨⟨a, A, ha⟩, hsilent⟩
      obtain ⟨rep', hfirst⟩ := hx.typed hs.first ha
      obtain ⟨b, B, hb⟩ := ((hf a _).silent (hs.second hfirst hkeeps.env)).mp hsilent
      exact ⟨b, A ++ B, a, A, B, ha, hb, rfl⟩
    · rintro ⟨b, -, a, A, B, ha, hb, rfl⟩
      obtain ⟨rep', hfirst⟩ := hx.typed hs.first ha
      exact ⟨⟨a, A, ha⟩, ((hf a _).silent (hs.second hfirst hkeeps.env)).mpr ⟨b, B, hb⟩⟩
  typed {rep s b C} hs hb := by
    obtain ⟨a, A, B, ha, hb, rfl⟩ := hb
    have hkeeps := hx.keeps s hs.resolved
    have hresolved : AllResolved (x.run s).2.types := hkeeps.resolved hs.resolved
    have hrest := (hf default (x.run s).1).keeps (x.run s).2 hresolved
    obtain ⟨rep', hfirst⟩ := hx.typed hs.first ha
    obtain ⟨rep'', hsecond⟩ := (hf a _).typed (hs.second hfirst hkeeps.env) hb
    refine ⟨rep'', hfirst.append hsecond ?_⟩
    refine hfirst.noted.grows hsecond.extends_.le hrest.grows fun entry hentry hid => ?_
    -- The second part has none of the numbers of the first.
    have hentry := hx.within ha entry hentry
    obtain ⟨-, hnodup, hown⟩ := List.nodup_append.mp hs.nodup
    obtain ⟨-, -, hdisjoint⟩ := List.nodup_append.mp hnodup
    rcases List.mem_append.mp hid with hid | hid
    · exact hown _ hid _ (List.mem_append_left _ hentry) rfl
    · exact hdisjoint _ hentry _ hid rfl

theorem andThen [Inhabited σ] (hx : Verdict Γ pre own ids x rel P)
    (hf : ∀ a r, Ruled Γ (pre.both (rel a r)) (f r) rel' (R a)) :
    Verdict Γ pre own ids (x >>= f) rel' fun b A => ∃ a, P a A ∧ R a b where
  keeps := hx.keeps.bind fun r => .of_onlyReports (hf default r).reports
  within {b A} hb := by
    obtain ⟨a, ha, -⟩ := hb
    exact hx.within ha
  silent {rep s} hs := by
    have hkeeps := hx.keeps s hs.resolved
    have hresolved : AllResolved (x.run s).2.types := hkeeps.resolved hs.resolved
    have hrest := (hf default (x.run s).1).reports (x.run s).2 hresolved
    rw [silent_bind hkeeps.grows.diagnostics hrest.diagnostics, hx.silent hs]
    constructor
    · rintro ⟨⟨a, A, ha⟩, hsilent⟩
      obtain ⟨rep', hfirst⟩ := hx.typed hs ha
      obtain ⟨hmodels, hgiven⟩ := hs.after hfirst hkeeps.env
      obtain ⟨b, hb⟩ := ((hf a _).silent hmodels hgiven).mp hsilent
      exact ⟨b, A, a, ha, hb⟩
    · rintro ⟨b, A, a, ha, hb⟩
      obtain ⟨rep', hfirst⟩ := hx.typed hs ha
      obtain ⟨hmodels, hgiven⟩ := hs.after hfirst hkeeps.env
      exact ⟨⟨a, A, ha⟩, ((hf a _).silent hmodels hgiven).mpr ⟨b, hb⟩⟩
  typed {rep s b A} hs hb := by
    obtain ⟨a, ha, hb⟩ := hb
    have hkeeps := hx.keeps s hs.resolved
    have hresolved : AllResolved (x.run s).2.types := hkeeps.resolved hs.resolved
    have hrest := (hf default (x.run s).1).reports (x.run s).2 hresolved
    obtain ⟨rep', hfirst⟩ := hx.typed hs ha
    obtain ⟨hmodels, hgiven⟩ := hs.after hfirst hkeeps.env
    refine ⟨rep', hfirst.extends_, hfirst.sane.reports hrest, (hf a _).typed hmodels hgiven hb, ?_⟩
    change Noted rep' A ((f (x.run s).1).run (x.run s).2).2
    rw [hrest.same]
    exact hfirst.noted

theorem after [Inhabited σ] {S : σ → Prop} (hx : Ruled Γ pre x rel S)
    (hf : ∀ a r, Verdict Γ (pre.both (rel a r)) own ids (f r) rel' (Q a)) :
    Verdict Γ pre own ids (x >>= f) rel' fun b A => ∃ a, S a ∧ Q a b A := by
  refine ((of_ruled hx).bind hf).congr fun b C => ?_
  simp

theorem exp {node : Node} {find : CheckM Ty} {P : SiteType → Annotations → Prop}
    (hown : own.Sublist [node.id]) (h : Verdict Γ pre own ids find Link.type P) :
    Verdict Γ pre [] (node.id :: ids) (CheckM.noteExp node find) Link.type
      fun τ A => ∃ B, P τ B ∧ A = (node.id, τ) :: B where
  keeps := .noteExp (h.keeps.mono fun id hid => (hown.append (.refl ids)).subset hid) (by simp)
  within {τ A} hτ entry hentry := by
    obtain ⟨B, hτ, rfl⟩ := hτ
    rcases List.mem_cons.mp hentry with rfl | hentry
    · exact List.mem_cons_self
    · exact List.mem_cons_of_mem _ (h.within hτ entry hentry)
  silent {rep s} hs := by
    have hsame : Silent s (CheckM.noteExp node find) ↔ Silent s find := Iff.rfl
    rw [hsame, h.silent (hs.inner hown)]
    simp
  typed {rep s τ A} hs hτ := by
    obtain ⟨B, hτ, rfl⟩ := hτ
    obtain ⟨rep', hextends, hsane, hrep, hnoted⟩ := h.typed (hs.inner hown) hτ
    have hclean := hsane.clean
    refine ⟨rep', hextends.mono (List.subset_cons_self _ _), ⟨hsane.faithful, ?_⟩, hrep, ?_⟩
    · exact ⟨NodeMap.forall_insert hclean.exps (hsane.faithful.ne_error hrep), hclean.vars,
        hclean.routines, hclean.slots, hclean.records, hclean.arrays⟩
    · intro entry hentry
      rcases List.mem_cons.mp hentry with rfl | hentry
      · exact ⟨_, NodeMap.getElem?_insert_self _ _ _, hrep⟩
      · obtain ⟨ty, hty, htyped⟩ := hnoted entry hentry
        have hne : entry.1 ≠ node.id := fun heq =>
          (List.nodup_cons.mp hs.nodup).1 (heq ▸ h.within hτ entry hentry)
        exact ⟨ty, (NodeMap.getElem?_insert_of_ne _ hne).trans hty, htyped⟩

theorem var {node : Node} {find : CheckM Ty} {P : SiteType → Annotations → Prop}
    (hown : own.Sublist [node.id]) (h : Verdict Γ pre own ids find Link.type P) :
    Verdict Γ pre [] (node.id :: ids) (CheckM.noteVar node find) Link.type P where
  keeps := .noteVar (h.keeps.mono fun id hid => (hown.append (.refl ids)).subset hid) (by simp)
  within hτ entry hentry := List.mem_cons_of_mem _ (h.within hτ entry hentry)
  silent hs := h.silent (hs.inner hown)
  typed {rep s τ A} hs hτ := by
    obtain ⟨rep', hextends, hsane, hrep, hnoted⟩ := h.typed (hs.inner hown) hτ
    have hclean := hsane.clean
    refine ⟨rep', hextends.mono (List.subset_cons_self _ _), ⟨hsane.faithful, ?_⟩, hrep, hnoted⟩
    exact ⟨hclean.exps, NodeMap.forall_insert hclean.vars (hsane.faithful.ne_error hrep),
      hclean.routines, hclean.slots, hclean.records, hclean.arrays⟩

theorem simple (node : Node) (name : String) :
    Verdict Γ pre [node.id] [] (CheckM.typeOfSimple node name) Link.type
      fun τ A => (∃ var, Γ.vars.value? name = some var ∧ τ = var.type) ∧ A = [] where
  keeps := .typeOfSimple name (by simp)
  within hτ := by simp [hτ.2]
  silent {rep s} hs := by
    have hvar := hs.models.vars name
    unfold CheckM.typeOfSimple
    rw [Silent, CheckM.run_get_bind]
    cases hvalue : Γ.vars.value? name with
    | none =>
      rw [hvalue] at hvar
      rw [eq_none_of_rel hvar]
      exact iff_of_false (not_silent_report _ _ hs.resolved (.pure _)) (by simp)
    | some var =>
      rw [hvalue] at hvar
      obtain ⟨entry, hfind, -⟩ := exists_of_rel_some hvar
      rw [hfind]
      exact iff_of_true rfl ⟨var.type, [], ⟨var, rfl, rfl⟩, rfl⟩
  typed {rep s τ A} hs hτ := by
    obtain ⟨⟨var, hvalue, rfl⟩, rfl⟩ := hτ
    have hvar := hs.models.vars name
    rw [hvalue] at hvar
    obtain ⟨entry, hfind, hrep, -⟩ := exists_of_rel_some hvar
    unfold CheckM.typeOfSimple
    rw [CheckM.run_get_bind, hfind]
    exact ⟨rep, .refl _ _, hs.models.sane.congr rfl rfl rfl rfl rfl, hrep, by simp [Noted]⟩

theorem typeOfCall (node : Node) (function : String) {types : List SiteType}
    {args : List (Ty × Position)}
    (hargs : ∀ {rep}, pre.holds rep → (Link.types types args).holds rep) :
    Verdict Γ pre [node.id] [] (CheckM.typeOfCall node function args) Link.type
      fun τ A => (∃ signature, Γ.functions.value? function = some signature ∧
        List.Forall₂ Compatible signature.params types ∧ τ = signature.result) ∧ A = [] where
  keeps := .typeOfCall function args (by simp)
  within hτ := by simp [hτ.2]
  silent {rep s} hs := by
    have hfunction := hs.models.functions function
    have hargs := hargs hs.given
    unfold CheckM.typeOfCall
    rw [Silent, CheckM.run_get_bind]
    cases hvalue : Γ.functions.value? function with
    | none =>
      rw [hvalue] at hfunction
      rw [eq_none_of_rel hfunction]
      exact iff_of_false (not_silent_report _ _ hs.resolved (.pure _)) (by simp)
    | some signature =>
      rw [hvalue] at hfunction
      obtain ⟨entry, hfind, hparams, -⟩ := exists_of_rel_some hfunction
      set s₁ : Checker := { s with
        facts := { s.facts with calls := s.facts.calls.insert node.id entry.target } }
      have hs₁ : AllResolved s₁.types := hs.resolved
      have hchecked : OnlyReports (CheckM.checkArgs entry.params args) :=
        CheckM.checkArgs_onlyReports entry.params args
      have hfit : (∃ τ A, (∃ other, some signature = some other ∧
          List.Forall₂ Compatible other.params types ∧ τ = other.result) ∧ A = ([] : Annotations)) ↔
          List.Forall₂ Compatible signature.params types := by
        simp
      rw [hfind, hfit]
      dsimp only
      rw [CheckM.run_bind]
      split
      · next hlength =>
        refine iff_of_false (not_silent_report (s := s₁) _ _ hs₁ (hchecked.bind fun _ => .pure _))
          fun hfit => ?_
        exact hlength (hparams.length_eq.symm.trans (hfit.length_eq.trans hargs.length_eq))
      · next hlength =>
        exact checkArgs_silent (s := s₁) hs₁ hs.models.sane.faithful hparams hargs
          (not_not.mp hlength)
  typed {rep s τ A} hs hτ := by
    obtain ⟨⟨signature, hvalue, hfit, rfl⟩, rfl⟩ := hτ
    have hfunction := hs.models.functions function
    rw [hvalue] at hfunction
    obtain ⟨entry, hfind, hparams, hresult⟩ := exists_of_rel_some hfunction
    set s₁ : Checker := { s with
      facts := { s.facts with calls := s.facts.calls.insert node.id entry.target } }
    have hs₁ : Sane rep s₁ := hs.models.sane.congr rfl rfl rfl rfl rfl
    have hlength : entry.params.length = args.length :=
      hparams.length_eq.symm.trans (hfit.length_eq.trans (hargs hs.given).length_eq)
    have hreports := CheckM.checkArgs_onlyReports entry.params args s₁ hs.resolved
    unfold CheckM.typeOfCall
    rw [CheckM.run_get_bind, hfind]
    dsimp only
    rw [CheckM.run_bind, if_neg (not_not.mpr hlength)]
    exact ⟨rep, .refl _ _, hs₁.reports hreports, hresult, by simp [Noted]⟩

theorem inLoop (h : Verdict Γ.looping pre own ids x rel P) :
    Verdict Γ pre own ids (CheckM.inLoop x) rel P where
  keeps := h.keeps.inLoop
  within := h.within
  silent hs := h.silent hs.looping
  typed {rep s a A} hs ha := by
    obtain ⟨rep', hextends, hsane, hlink, hnoted⟩ := h.typed hs.looping ha
    exact ⟨rep', hextends, hsane.congr rfl rfl rfl rfl rfl, hlink, hnoted⟩

theorem withLoopVar {node : Node} {name : String}
    (h : Verdict { Γ with vars := (name, ⟨.int, true⟩) :: Γ.vars } pre [] ids x rel P) :
    Verdict Γ pre [node.id] ids (CheckM.withLoopVar node name x) rel P where
  keeps := .withLoopVar name (h.keeps.mono fun id hid => List.mem_append_right _ hid) (by simp)
  within := h.within
  silent hs := h.silent (hs.loopVar name)
  typed {rep s a A} hs ha := by
    obtain ⟨rep', hextends, hsane, hlink, hnoted⟩ := h.typed (hs.loopVar name) ha
    exact ⟨rep', hextends, hsane.congr rfl rfl rfl rfl rfl, hlink, hnoted⟩

end Verdict

end TigerLang

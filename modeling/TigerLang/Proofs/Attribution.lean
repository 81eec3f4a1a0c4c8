import TigerLang.Proofs.Passage
import TigerLang.Proofs.TypePlaces

/-! Which expression a report is about. A mismatch is justified by an expression of the program with
the type that was received, as it has been noted. What is noted stays, so a report that is justified
once is so for good. -/

namespace TigerLang

/-- The expression is the left operand of an operator on numbers whose right operand starts at the
position. -/
def Exp.LeftOf (root : Phrase) (q : Exp) (position : Position) : Prop :=
  ∃ node op right, (Phrase.exp (.binary node op q right)).Inside root ∧ op.isEquality = false ∧
    right.start = position

/-- The expression has the type that was received. It is where the mismatch is reported, unless it is
a left operand that is no number: this is reported where the right operand is. -/
structure Checker.Blames (root : Phrase) (s : Checker) (expected received : String)
    (position : Position) (q : Exp) (ty : Ty) : Prop where
  inside : (Phrase.exp q).Inside root
  noted : s.facts.expTypes[q.node.id]? = some ty
  name : s.registry.nameOf ty = received
  place : q.start = position ∨
    expected = "int" ∧ Ty.int.accepts ty = false ∧ q.LeftOf root position

structure Diagnostic.Justified (root : Phrase) (s : Checker) (d : Diagnostic) : Prop where
  starts : d.position.StartsIn root
  blames : ∀ expected received, d.cause = .typeMismatch expected received →
    ∃ q ty, s.Blames root expected received d.position q ty

structure Checker.Advances (ids : List Nat) (s s' : Checker) : Prop where
  kept : ∀ {id : Nat} {ty}, s.facts.expTypes[id]? = some ty → s'.facts.expTypes[id]? = some ty
  blank : ∀ {id : Nat}, id ∉ ids → s.facts.expTypes[id]? = none → s'.facts.expTypes[id]? = none
  registry : s.registry.Extends s'.registry

structure Checker.Honest (root : Phrase) (s : Checker) : Prop where
  fit : s.Fit True
  justified : ∀ d ∈ s.diagnostics, d.Justified root s

structure Checker.Awaits (root : Phrase) (ids : List Nat) (s : Checker) : Prop
    extends s.Honest root where
  nodup : ids.Nodup
  blank : ∀ id ∈ ids, s.facts.expTypes[id]? = none

def Checker.Vouches (root : Phrase) (s : Checker) (ty : Ty) (position : Position) : Prop :=
  ∃ q : Exp, (Phrase.exp q).Inside root ∧ q.start = position ∧
    s.facts.expTypes[q.node.id]? = some ty

theorem Registry.Extends.nameOf {r r' : Registry} (h : r.Extends r') {ty : Ty}
    (hty : ty.Registered r) : r'.nameOf ty = r.nameOf ty := by
  cases ty with
  | record k =>
    have hk := Array.getElem?_eq_getElem hty
    simp only [Registry.nameOf, hk, h.record? hk]
  | array k =>
    have hk := Array.getElem?_eq_getElem hty
    simp only [Registry.nameOf, hk, h.array? hk]
  | _ => rfl

namespace Checker.Advances
variable {ids ids' : List Nat} {s s' s'' : Checker}

theorem trans (h : s.Advances ids s') (h' : s'.Advances ids' s'') :
    s.Advances (ids ++ ids') s'' where
  kept hty := h'.kept (h.kept hty)
  blank hid hnone := by
    rw [List.mem_append, not_or] at hid
    exact h'.blank hid.2 (h.blank hid.1 hnone)
  registry := h.registry.trans h'.registry

theorem mono (h : s.Advances ids s') (hsub : ids ⊆ ids') : s.Advances ids' s' :=
  { h with blank := fun hid => h.blank fun hmem => hid (hsub hmem) }

theorem of_eq (hexps : s'.facts.expTypes = s.facts.expTypes) (hregistry : s'.registry = s.registry) :
    s.Advances ids s' where
  kept hty := hexps ▸ hty
  blank _ hnone := hexps ▸ hnone
  registry := hregistry ▸ .refl _

theorem of_reports (h : s.Reports s') : s.Advances ids s' :=
  of_eq (by rw [h.same]) (by rw [h.same])

theorem of_grows {base current : Nat} (h : s.Grows base current (· ∈ ids) s')
    (hblank : ∀ id ∈ ids, s.facts.expTypes[id]? = none) : s.Advances ids s' where
  kept {id ty} hty := by
    have hid : id ∉ ids := fun hmem => by simp [hblank id hmem] at hty
    rw [(h.facts hid).expTypes, hty]
  blank hid hnone := by rw [(h.facts hid).expTypes, hnone]
  registry := h.registry

end Checker.Advances

section advance
variable {root : Phrase} {ids : List Nat} {s s' : Checker} {d : Diagnostic}

theorem Checker.Vouches.advance {ty : Ty} {position : Position} (h : s.Vouches root ty position)
    (hadvances : s.Advances ids s') : s'.Vouches root ty position := by
  obtain ⟨q, hinside, hstart, hnoted⟩ := h
  exact ⟨q, hinside, hstart, hadvances.kept hnoted⟩

theorem Checker.Vouches.registered {ty : Ty} {position : Position} (h : s.Vouches root ty position)
    (hs : s.Fit True) : ty.Registered s.registry := by
  obtain ⟨q, -, -, hnoted⟩ := h
  exact hs.stored.held.expTypes hnoted

theorem Diagnostic.Justified.advance (h : d.Justified root s) (hs : s.Fit True)
    (hadvances : s.Advances ids s') : d.Justified root s' := by
  refine ⟨h.starts, fun expected received hcause => ?_⟩
  obtain ⟨q, ty, hblames⟩ := h.blames expected received hcause
  have hname := hadvances.registry.nameOf (hs.stored.held.expTypes hblames.noted)
  exact ⟨q, ty, { hblames with
    noted := hadvances.kept hblames.noted
    name := hname.trans hblames.name }⟩

theorem Diagnostic.Placed.justified (h : d.Placed root) : d.Justified root s :=
  ⟨h.starts, fun expected received hcause => absurd hcause (h.cause expected received)⟩

theorem Checker.Vouches.justified {received : Ty} {position : Position}
    (h : s.Vouches root received position) (expected : String) : Diagnostic.Justified root s
      ⟨.typeMismatch expected (s.registry.nameOf received), position⟩ := by
  obtain ⟨q, hinside, rfl, hnoted⟩ := h
  refine ⟨⟨_, hinside, rfl⟩, fun _ _ hcause => ?_⟩
  obtain ⟨-, rfl⟩ := Cause.typeMismatch.inj hcause
  exact ⟨q, received, hinside, hnoted, rfl, .inl rfl⟩

theorem Diagnostic.justified_left {node : Node} {op : Operator} {left right : Exp} {ty : Ty}
    (hinside : (Phrase.exp (.binary node op left right)).Inside root)
    (hop : op.isEquality = false) (hnoted : s.facts.expTypes[left.node.id]? = some ty)
    (haccepts : Ty.int.accepts ty = false) : Diagnostic.Justified root s
      ⟨.typeMismatch (s.registry.nameOf .int) (s.registry.nameOf ty), right.start⟩ := by
  have hleft : (Phrase.exp left).Inside root := hinside.child List.mem_cons_self
  have hright : (Phrase.exp right).Inside root :=
    hinside.child (List.mem_cons_of_mem _ List.mem_cons_self)
  refine ⟨⟨_, hright, rfl⟩, fun _ _ hcause => ?_⟩
  obtain ⟨rfl, rfl⟩ := Cause.typeMismatch.inj hcause
  exact ⟨left, ty, hleft, hnoted, rfl, .inr ⟨rfl, haccepts, node, op, right, hinside, hop, rfl⟩⟩

theorem Checker.Honest.advance (hs : s.Honest root) (hadvances : s.Advances ids s')
    (hfit : s'.Fit True)
    (htold : ∀ d ∈ s'.diagnostics, d ∈ s.diagnostics ∨ d.Justified root s') : s'.Honest root := by
  refine ⟨hfit, fun d hd => ?_⟩
  rcases htold d hd with hold | hnew
  · exact (hs.justified d hold).advance hs.fit hadvances
  · exact hnew

end advance

namespace Checker.Awaits
variable {root : Phrase} {id : Nat} {ids ids' : List Nat} {s s' : Checker}

theorem subset (h : s.Awaits root ids) (hnodup : ids'.Nodup) (hsub : ids' ⊆ ids) :
    s.Awaits root ids' :=
  { h with nodup := hnodup, blank := fun id hid => h.blank id (hsub hid) }

theorem first (h : s.Awaits root (ids ++ ids')) : s.Awaits root ids :=
  h.subset (List.nodup_append.mp h.nodup).1 (List.subset_append_left _ _)

theorem second (h : s.Awaits root (ids ++ ids')) : s.Awaits root ids' :=
  h.subset (List.nodup_append.mp h.nodup).2.1 (List.subset_append_right _ _)

theorem tail (h : s.Awaits root (id :: ids)) : s.Awaits root ids :=
  h.subset (List.nodup_cons.mp h.nodup).2 (List.subset_cons_self _ _)

theorem rest (h : s.Awaits root (ids ++ ids')) (hs' : s'.Honest root)
    (hadvances : s.Advances ids s') : s'.Awaits root ids' := by
  obtain ⟨-, hnodup, hdisjoint⟩ := List.nodup_append'.mp h.nodup
  refine ⟨hs', hnodup, fun id hid => hadvances.blank ?_ ?_⟩
  · exact fun hmem => hdisjoint hmem hid
  · exact h.blank id (List.mem_append_right _ hid)

end Checker.Awaits

/-- In the state, or after it with more reports, the action makes justified reports only. -/
def Attests {α : Type} (root : Phrase) (s : Checker) (x : CheckM α) : Prop :=
  ∀ s', s.Reports s' → ∀ d ∈ (x.run s').2.diagnostics, d ∈ s'.diagnostics ∨ d.Justified root s

namespace Attests
variable {α β : Type} {root : Phrase} {s : Checker} {x : CheckM α} {f : α → CheckM β}

theorem pure (a : α) : Attests root s (pure a) := fun _ _ _ => .inl

theorem bind (hobserves : Observes x) (hx : Attests root s x) (hf : ∀ a, Attests root s (f a)) :
    Attests root s (x >>= f) := by
  intro s' hs' d hd
  rcases hf _ _ (hs'.trans (hobserves.reports s')) d hd with hd | hd
  · exact hx s' hs' d hd
  · exact .inr hd

theorem getThen {f : Checker → CheckM β} (hf : ∀ s', s.Reports s' → Attests root s (f s')) :
    Attests root s (get >>= f) := fun s' hs' => hf s' hs' s' hs'

theorem report {cause : Cause} {position : Position}
    (h : Diagnostic.Justified root s ⟨cause, position⟩) :
    Attests root s (CheckM.report cause position) := by
  intro s' _ d hd
  rcases Array.mem_push.mp hd with hd | rfl
  · exact .inl hd
  · exact .inr h

theorem report_then {cause : Cause} {position : Position}
    (h : Diagnostic.Justified root s ⟨cause, position⟩) (hx : Attests root s x) :
    Attests root s (CheckM.report cause position >>= fun _ => x) :=
  (report h).bind (.report _ _) fun _ => hx

theorem place_then {cause : Cause} {position : Position} (hposition : position.StartsIn root)
    (hcause : ∀ expected received, cause ≠ .typeMismatch expected received) (hx : Attests root s x) :
    Attests root s (CheckM.report cause position >>= fun _ => x) :=
  report_then (Diagnostic.Placed.justified ⟨hposition, hcause⟩) hx

theorem require {expected received : Ty} {position : Position}
    (h : expected.accepts received = false → Diagnostic.Justified root s
      ⟨.typeMismatch (s.registry.nameOf expected) (s.registry.nameOf received), position⟩) :
    Attests root s (CheckM.require expected received position) := by
  unfold CheckM.require
  split
  · exact pure _
  · next haccepts =>
    refine getThen fun s' hs' => report_then ?_ (pure _)
    rw [hs'.registry]
    exact h (by simpa using haccepts)

theorem require_then {expected received : Ty} {position : Position}
    (h : expected.accepts received = false → Diagnostic.Justified root s
      ⟨.typeMismatch (s.registry.nameOf expected) (s.registry.nameOf received), position⟩)
    (hx : Attests root s x) :
    Attests root s (Functor.discard (CheckM.require expected received position) >>= fun _ => x) :=
  Attests.bind (Observes.require _ _ _).discard (require h) fun _ => hx

end Attests

structure Attributes {α : Type} (root : Phrase) (ids : List Nat) (x : CheckM α) (s : Checker)
    (Q : α → Checker → Prop) : Prop where
  honest : (x.run s).2.Honest root
  advances : s.Advances ids (x.run s).2
  answer : Q (x.run s).1 (x.run s).2

namespace Attributes
variable {α β : Type} {root : Phrase} {ids ids' : List Nat} {s : Checker} {x : CheckM α}
  {f : α → CheckM β} {Q : α → Checker → Prop} {R : β → Checker → Prop}

theorem mono (h : Attributes root ids x s Q) (hsub : ids ⊆ ids') : Attributes root ids' x s Q :=
  { h with advances := h.advances.mono hsub }

theorem observe (hs : s.Honest root) (hobserves : Observes x) (hattests : Attests root s x)
    (hq : Q (x.run s).1 (x.run s).2) : Attributes root [] x s Q := by
  have hreports := hobserves.reports s
  have hadvances : s.Advances [] (x.run s).2 := .of_reports hreports
  refine ⟨hs.advance hadvances (hs.fit.reports hreports) fun d hd => ?_, hadvances, hq⟩
  exact (hattests s (.refl s) d hd).imp_right (·.advance hs.fit hadvances)

theorem pure {a : α} (hs : s.Honest root) (hq : Q a s) : Attributes root [] (pure a) s Q :=
  observe hs (.pure a) (.pure a) hq

theorem write {g : Checker → α × Checker} (hs : s.Honest root) (hfit : (g s).2.Fit True)
    (hexps : (g s).2.facts.expTypes = s.facts.expTypes) (hregistry : (g s).2.registry = s.registry)
    (hdiagnostics : (g s).2.diagnostics = s.diagnostics) (hq : Q (g s).1 (g s).2) :
    Attributes root [] (modifyGet g) s Q := by
  have hadvances : s.Advances [] (g s).2 := .of_eq hexps hregistry
  refine ⟨hs.advance hadvances hfit fun d hd => .inl ?_, hadvances, hq⟩
  rwa [← hdiagnostics]

theorem bind (hs : s.Awaits root (ids ++ ids')) (hx : Attributes root ids x s Q)
    (hf : ∀ a s', s'.Awaits root ids' → s.Advances ids s' → Q a s' →
      Attributes root ids' (f a) s' R) : Attributes root (ids ++ ids') (x >>= f) s R := by
  have hrest := hf _ _ (hs.rest hx.honest hx.advances) hx.advances hx.answer
  exact ⟨hrest.honest, hx.advances.trans hrest.advances, hrest.answer⟩

theorem andThen (hx : Attributes root ids x s Q)
    (hf : ∀ a s', s'.Honest root → s.Advances ids s' → Q a s' → Attributes root [] (f a) s' R) :
    Attributes root ids (x >>= f) s R := by
  have hrest := hf _ _ hx.honest hx.advances hx.answer
  have hadvances := hx.advances.trans hrest.advances
  rw [List.append_nil] at hadvances
  exact ⟨hrest.honest, hadvances, hrest.answer⟩

theorem before (hs : s.Awaits root ids) (hx : Attributes root [] x s Q)
    (hf : ∀ a s', s'.Awaits root ids → s.Advances [] s' → Q a s' →
      Attributes root ids (f a) s' R) : Attributes root ids (x >>= f) s R :=
  @bind _ _ _ [] ids _ _ _ _ _ hs hx hf

theorem getThen {f : Checker → CheckM β} (h : Attributes root ids (f s) s R) :
    Attributes root ids (get >>= f) s R := ⟨h.honest, h.advances, h.answer⟩

theorem of_places {P : α → Prop} {t : Trace x} (hs : s.Honest root) (hholds : t.Holds True s Q)
    (hplaces : Places root x s P) (hadvances : s.Advances ids (x.run s).2) :
    Attributes root ids x s Q := by
  refine ⟨hs.advance hadvances hholds.after fun d hd => ?_, hadvances, hholds.answer⟩
  exact (hplaces.told d hd).imp_right Diagnostic.Placed.justified

theorem noteExp {node : Node} {x : CheckM Ty} (hs : s.Awaits root (node.id :: ids))
    (hx : Attributes root ids x s fun _ _ => True)
    (hfit : ((CheckM.noteExp node x).run s).2.Fit True) :
    Attributes root (node.id :: ids) (CheckM.noteExp node x) s fun ty s' =>
      s'.facts.expTypes[node.id]? = some ty := by
  -- The parts of a node have other numbers, so nothing is overwritten.
  have hnone : (x.run s).2.facts.expTypes[node.id]? = none :=
    hx.advances.blank (List.nodup_cons.mp hs.nodup).1 (hs.blank _ List.mem_cons_self)
  have hlast : (x.run s).2.Advances [node.id] ((CheckM.noteExp node x).run s).2 := by
    constructor
    case kept =>
      intro id ty hty
      have hne : id ≠ node.id := by
        rintro rfl
        simp [hnone] at hty
      exact (NodeMap.getElem?_insert_of_ne _ hne).trans hty
    case blank =>
      intro id hid hblank
      have hne : id ≠ node.id := fun heq => hid (List.mem_singleton.mpr heq)
      exact (NodeMap.getElem?_insert_of_ne _ hne).trans hblank
    case registry => exact .refl _
  refine ⟨hx.honest.advance hlast hfit fun _ hd => .inl hd, (hx.advances.trans hlast).mono ?_,
    NodeMap.getElem?_insert_self _ _ _⟩
  exact List.append_subset.mpr
    ⟨List.subset_cons_self _ _, List.cons_subset.mpr ⟨List.mem_cons_self, List.nil_subset _⟩⟩

theorem noteVar {node : Node} {x : CheckM Ty} (hx : Attributes root ids x s fun _ _ => True)
    (hfit : ((CheckM.noteVar node x).run s).2.Fit True) :
    Attributes root ids (CheckM.noteVar node x) s fun _ _ => True := by
  have hlast : (x.run s).2.Advances [] ((CheckM.noteVar node x).run s).2 := .of_eq rfl rfl
  have hadvances := hx.advances.trans hlast
  rw [List.append_nil] at hadvances
  exact ⟨hx.honest.advance hlast hfit fun _ hd => .inl hd, hadvances, trivial⟩

end Attributes

end TigerLang

import TigerLang.Proofs.Acceptance
import TigerLang.Proofs.Counterparts

/-! Actions done side by side. While the first checker reports nothing, the second reports what is
expected of it, and mismatches with `nil` where a record has been lost. -/

namespace TigerLang

def Diagnostic.receivesNil (d : Diagnostic) : Bool :=
  match d.cause with
  | .typeMismatch _ received => received == "nil"
  | _ => false

structure Mistake.Explains (m : Mistake) (β β' : Bridge) (expected new : List Diagnostic) :
    Prop where
  others : new.filter (fun d => !d.receivesNil) = expected
  lossless : m.lossless → new = expected
  first : β.met = false → ∀ d ∈ new.head?, d.receivesNil = false
  still : new = [] → β'.met = β.met

namespace Mistake.Explains
variable {m : Mistake} {β β' β'' : Bridge} {expected expected' new new' : List Diagnostic}

theorem nothing (h : β'.met = β.met) : m.Explains β β' [] [] :=
  ⟨rfl, fun _ => rfl, fun _ d hd => by simp at hd, fun _ => h⟩

theorem append (h : m.Explains β β' expected new) (h' : m.Explains β' β'' expected' new') :
    m.Explains β β'' (expected ++ expected') (new ++ new') := by
  refine ⟨?_, ?_, ?_, ?_⟩
  · rw [List.filter_append, h.others, h'.others]
  · intro hlossless
    rw [h.lossless hlossless, h'.lossless hlossless]
  · intro hmet d hd
    cases new with
    | nil => exact h'.first ((h.still rfl).trans hmet) d hd
    | cons first rest => exact h.first hmet d hd
  · intro hnil
    obtain ⟨hnew, hnew'⟩ := List.append_eq_nil_iff.mp hnil
    exact (h'.still hnew').trans (h.still hnew)

theorem nil_mismatch (hmet : β.met = true) (hloss : ¬ m.lossless) (expected : String)
    (position : Position) :
    m.Explains β β' [] [⟨.typeMismatch expected "nil", position⟩] := by
  refine ⟨?_, fun hlossless => absurd hlossless hloss, fun hnot => ?_, fun hnil => ?_⟩
  · simp [Diagnostic.receivesNil]
  · rw [hmet] at hnot
    cases hnot
  · cases hnil

theorem report (m : Mistake) (β β' : Bridge) : m.Explains β β' [m.report] [m.report] := by
  refine ⟨?_, fun _ => rfl, fun _ d hd => ?_, fun hnil => ?_⟩
  · simp [Diagnostic.receivesNil, Mistake.report]
  · obtain rfl : m.report = d := by simpa using hd
    rfl
  · cases hnil

end Mistake.Explains

theorem CheckM.size_report (cause : Cause) (position : Position) (s : Checker) :
    ((report cause position).run s).2.diagnostics.size = s.diagnostics.size + 1 :=
  Array.size_push _

theorem CheckM.size_report_ne (cause : Cause) (position : Position) (s : Checker) :
    ((report cause position).run s).2.diagnostics.size ≠ s.diagnostics.size := by
  rw [size_report]
  omega

def Adds {α : Type} (inv : Scopes TypeBinding → Prop) (x : CheckM α) : Prop :=
  ∀ s : Checker, inv s.types →
    inv (x.run s).2.types ∧ s.diagnostics.size ≤ (x.run s).2.diagnostics.size

namespace Adds
variable {α α' : Type} {inv : Scopes TypeBinding → Prop}

theorem of_keeps {touched : Nat → Prop} {x : CheckM α} (h : Keeps touched x) :
    Adds AllResolved x := by
  intro s hs
  have hkeeps := h s hs
  exact ⟨hkeeps.resolved hs, by simpa using hkeeps.grows.diagnostics.length_le⟩

theorem of_onlyReports {x : CheckM α} (h : OnlyReports x) : Adds AllResolved x := by
  have hkeeps : Keeps (fun _ => True) x := .of_onlyReports h
  exact of_keeps hkeeps

theorem pure (a : α) : Adds inv (pure a : CheckM α) := fun _ hs => ⟨hs, Nat.le_refl _⟩

theorem bind {x : CheckM α} {f : α → CheckM α'} (hx : Adds inv x) (hf : ∀ a, Adds inv (f a)) :
    Adds inv (x >>= f) := by
  intro s hs
  obtain ⟨hinv, hle⟩ := hx s hs
  obtain ⟨hinv', hle'⟩ := hf (x.run s).1 _ hinv
  exact ⟨hinv', hle.trans hle'⟩

theorem get {f : Checker → CheckM α} (hf : ∀ s, Adds inv (f s)) : Adds inv (get >>= f) :=
  fun s hs => hf s s hs

theorem report (cause : Cause) (position : Position) : Adds inv (CheckM.report cause position) := by
  intro s hs
  refine ⟨hs, ?_⟩
  rw [CheckM.size_report]
  omega

end Adds

/-- Two actions of which the first reports nothing. If they start in states that are alike, they end
so, with results that are related as `post` says. -/
structure Mistake.Tracks {α α' : Type} (m : Mistake) (inv : Scopes TypeBinding → Prop)
    (expected : List Diagnostic) (pre : Bridge → Prop) (x : CheckM α) (y : CheckM α')
    (post : Bridge → α → α' → Prop) : Prop where
  adds : Adds inv x
  quiet : ∀ {β : Bridge} {s s' : Checker}, s.Alike m β s' → inv s.types → pre β →
    (x.run s).2.diagnostics.size = s.diagnostics.size →
    ∃ β' new, β.Le β' ∧ (x.run s).2.Alike m β' (y.run s').2 ∧ post β' (x.run s).1 (y.run s').1 ∧
      (y.run s').2.diagnostics.toList = s'.diagnostics.toList ++ new ∧
      m.Explains β β' expected new

namespace Mistake.Tracks
variable {α α' γ γ' : Type} {m : Mistake} {inv : Scopes TypeBinding → Prop}
  {expected expected' : List Diagnostic} {pre pre' : Bridge → Prop} {x : CheckM α} {y : CheckM α'}
  {f : α → CheckM γ} {g : α' → CheckM γ'} {post post' : Bridge → α → α' → Prop}
  {post'' : Bridge → γ → γ' → Prop}

theorem bind (hx : m.Tracks inv expected pre x y post)
    (hf : ∀ a a', m.Tracks inv expected' (fun β => post β a a') (f a) (g a') post'') :
    m.Tracks inv (expected ++ expected') pre (x >>= f) (y >>= g) post'' := by
  constructor
  · intro s hs
    obtain ⟨hinv, hle⟩ := hx.adds s hs
    -- The result of the second action only has to be of its type here.
    obtain ⟨hinv', hle'⟩ := (hf (x.run s).1 (y.run s).1).adds _ hinv
    exact ⟨hinv', hle.trans hle'⟩
  · intro β s s' hs hinv hpre hsize
    obtain ⟨hinv₁, hle⟩ := hx.adds s hinv
    have hrest := hf (x.run s).1 (y.run s').1
    have hle' := (hrest.adds _ hinv₁).2
    have hsize' : ((f (x.run s).1).run (x.run s).2).2.diagnostics.size = s.diagnostics.size := hsize
    obtain ⟨β₁, new, hβ, hs₁, hpost, hnew, hexplains⟩ := hx.quiet hs hinv hpre (by omega)
    obtain ⟨β₂, new', hβ', hs₂, hpost', hnew', hexplains'⟩ :=
      hrest.quiet hs₁ hinv₁ hpost (by omega)
    refine ⟨β₂, new ++ new', hβ.trans hβ', hs₂, hpost', ?_, hexplains.append hexplains'⟩
    calc ((g (y.run s').1).run (y.run s').2).2.diagnostics.toList
        = (y.run s').2.diagnostics.toList ++ new' := hnew'
      _ = s'.diagnostics.toList ++ (new ++ new') := by rw [hnew, List.append_assoc]

theorem conseq (h : m.Tracks inv expected pre x y post) (hpre : ∀ β, pre' β → pre β)
    (hpost : ∀ β a a', post β a a' → post' β a a') : m.Tracks inv expected pre' x y post' := by
  refine ⟨h.adds, fun hs hinv hpre' hsize => ?_⟩
  obtain ⟨β', new, hβ, hs', hpost', hnew, hexplains⟩ := h.quiet hs hinv (hpre _ hpre') hsize
  exact ⟨β', new, hβ, hs', hpost _ _ _ hpost', hnew, hexplains⟩

theorem strengthen (h : m.Tracks inv expected pre x y post) (hpre : ∀ β, pre' β → pre β) :
    m.Tracks inv expected pre' x y post :=
  h.conseq hpre fun _ _ _ hpost => hpost

theorem andThen (hx : m.Tracks inv [] pre x y post)
    (hf : ∀ a a', m.Tracks inv expected (fun β => post β a a') (f a) (g a') post'') :
    m.Tracks inv expected pre (x >>= f) (y >>= g) post'' :=
  hx.bind hf

theorem bind_silent (hx : m.Tracks inv expected pre x y post)
    (hf : ∀ a a', m.Tracks inv [] (fun β => post β a a') (f a) (g a') post'') :
    m.Tracks inv expected pre (x >>= f) (y >>= g) post'' := by
  have h := hx.bind hf
  rwa [List.append_nil] at h

theorem discard (h : m.Tracks inv expected pre x y post) {Q : Bridge → Prop}
    (hpost : ∀ β a a', post β a a' → Q β) :
    m.Tracks inv expected pre (discard x : CheckM Unit) (discard y : CheckM Unit)
      fun β _ _ => Q β := by
  refine ⟨h.adds, fun hs hinv hpre hsize => ?_⟩
  obtain ⟨β', new, hβ, hs', hpost', hnew, hexplains⟩ := h.quiet hs hinv hpre hsize
  exact ⟨β', new, hβ, hs', hpost _ _ _ hpost', hnew, hexplains⟩

theorem frame (h : m.Tracks inv expected pre x y post) {Q : Bridge → Prop} (hQ : Persistent Q) :
    m.Tracks inv expected (fun β => pre β ∧ Q β) x y fun β a a' => post β a a' ∧ Q β := by
  refine ⟨h.adds, fun hs hinv hpre hsize => ?_⟩
  obtain ⟨β', new, hβ, hs', hpost, hnew, hexplains⟩ := h.quiet hs hinv hpre.1 hsize
  exact ⟨β', new, hβ, hs', ⟨hpost, hQ _ _ hβ hpre.2⟩, hnew, hexplains⟩

theorem carry (h : m.Tracks inv expected (fun _ => True) x y post) {Q : Bridge → Prop}
    (hQ : Persistent Q) : m.Tracks inv expected Q x y fun β a a' => post β a a' ∧ Q β :=
  (h.frame hQ).strengthen fun _ hpre => ⟨trivial, hpre⟩

theorem of_forall (hx : Adds inv x)
    (h : ∀ β₀, pre β₀ → m.Tracks inv expected β₀.Le x y post) :
    m.Tracks inv expected pre x y post :=
  ⟨hx, fun hs hinv hpre hsize => (h _ hpre).quiet hs hinv (.refl _) hsize⟩

theorem silent (hx : Adds inv x)
    (hy : ∀ s, (y.run s).2.diagnostics = s.diagnostics)
    (h : ∀ {β s s'}, s.Alike m β s' → inv s.types → pre β → ∃ β', β.Le β' ∧ β'.met = β.met ∧
      (x.run s).2.Alike m β' (y.run s').2 ∧ post β' (x.run s).1 (y.run s').1) :
    m.Tracks inv [] pre x y post := by
  refine ⟨hx, fun {β s s'} hs hinv hpre _ => ?_⟩
  obtain ⟨β', hβ, hmet, hs', hpost⟩ := h hs hinv hpre
  exact ⟨β', [], hβ, hs', hpost, by rw [hy, List.append_nil], .nothing hmet⟩

theorem pure {a : α} {a' : α'} (h : ∀ β, pre β → post β a a') :
    m.Tracks inv [] pre (pure a) (pure a') post :=
  .silent (.pure a) (fun _ => rfl)
    fun {β _ _} hs _ hpre => ⟨β, .refl β, rfl, hs, h β hpre⟩

theorem unnoticed (hx : ∀ s, s.SameKnown (x.run s).2 ∧ (x.run s).2.diagnostics = s.diagnostics)
    (hy : ∀ s, s.SameKnown (y.run s).2 ∧ (y.run s).2.diagnostics = s.diagnostics) :
    m.Tracks inv [] pre x y fun β _ _ => pre β := by
  refine .silent (fun s hs => ⟨?_, ?_⟩) (fun s => (hy s).2)
    fun {β s s'} hs _ hpre => ⟨β, .refl β, rfl, hs.congr (hx s).1 (hy s').1, hpre⟩
  · rw [(hx s).1.types]
    exact hs
  · rw [(hx s).2]

theorem learn {f f' : Facts → Facts}
    (hf : ∀ a, (f a).routineOf = a.routineOf ∧ (f a).functions = a.functions)
    (hf' : ∀ a, (f' a).routineOf = a.routineOf ∧ (f' a).functions = a.functions) :
    m.Tracks inv [] pre (CheckM.learn f) (CheckM.learn f') fun β _ _ => pre β :=
  unnoticed (fun s => ⟨⟨rfl, rfl, rfl, rfl, rfl, (hf s.facts).1, (hf s.facts).2⟩, rfl⟩)
    fun s => ⟨⟨rfl, rfl, rfl, rfl, rfl, (hf' s.facts).1, (hf' s.facts).2⟩, rfl⟩

theorem of_loud (hx : Adds inv x)
    (h : ∀ s, inv s.types → s.diagnostics.size < (x.run s).2.diagnostics.size) :
    m.Tracks inv expected pre x y post :=
  ⟨hx, fun _ hinv _ hsize => absurd hsize (Nat.ne_of_gt (h _ hinv))⟩

theorem report_then (cause : Cause) (position : Position) (hx : Adds inv x) :
    m.Tracks inv expected pre (CheckM.report cause position >>= fun _ => x) y post := by
  refine of_loud ((Adds.report cause position).bind fun _ => hx) fun s hs => ?_
  have hle := (hx ((CheckM.report cause position).run s).2 hs).2
  rw [CheckM.size_report] at hle
  exact hle

theorem nil_mismatch (h : m.Tracks inv [] pre x y post)
    (hmet : ∀ β, pre β → β.met = true ∧ ¬ m.lossless) (expected : Checker → String)
    (position : Position) :
    m.Tracks inv [] pre x (get >>= fun s => do
      CheckM.report (.typeMismatch (expected s) "nil") position
      y) post := by
  refine ⟨h.adds, fun {β s s'} hs hinv hpre hsize => ?_⟩
  set cause : Cause := .typeMismatch (expected s') "nil"
  set s₁ := ((CheckM.report cause position).run s').2
  have hs₁ : s.Alike m β s₁ := hs.reported cause position
  obtain ⟨β', new, hβ, hend, hpost, hnew, hexplains⟩ := h.quiet hs₁ hinv hpre hsize
  obtain ⟨hmet, hloss⟩ := hmet β hpre
  have hcomplaint : m.Explains β β [] [⟨cause, position⟩] := .nil_mismatch hmet hloss _ position
  refine ⟨β', ⟨cause, position⟩ :: new, hβ, hend, hpost, ?_, hcomplaint.append hexplains⟩
  have hdiagnostics : s₁.diagnostics.toList = s'.diagnostics.toList ++ [⟨cause, position⟩] :=
    Array.toList_push
  calc (y.run s₁).2.diagnostics.toList = s₁.diagnostics.toList ++ new := hnew
    _ = s'.diagnostics.toList ++ ⟨cause, position⟩ :: new := by
      rw [hdiagnostics, List.append_assoc, List.singleton_append]

theorem get {f : Checker → CheckM γ} {g : Checker → CheckM γ'}
    (hx : Adds inv (get >>= f : CheckM γ))
    (h : ∀ {β s s'}, s.Alike m β s' → inv s.types → pre β →
      m.Tracks inv expected β.Le (f s) (g s') post'') :
    m.Tracks inv expected pre (get >>= f) (get >>= g) post'' :=
  ⟨hx, fun hs hinv hpre hsize => (h hs hinv hpre).quiet hs hinv (.refl _) hsize⟩

end Mistake.Tracks

end TigerLang

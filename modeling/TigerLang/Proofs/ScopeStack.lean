import Mathlib.Data.List.Forall2
import TigerLang.Proofs.Tables

/-! A table of scopes as a stack of environments. Every open scope has a log of the values that its
names were given, and whatever has been done to a table, a name is found to have the latest value in
the innermost log that mentions it. -/

namespace TigerLang.Scopes
variable {α : Type}

inductive Op (α : Type)
  | enter
  | leave
  | bind (name : String) (value : α)
  | change (name : String) (f : α → α)
  | reset

def Op.apply : Op α → Scopes α → Scopes α
  | .enter, t => t.enter
  | .leave, t => t.leave
  | .bind name value, t => t.bind name value
  | .change name f, t => t.change name f
  | .reset, _ => empty

def run (ops : List (Op α)) (t : Scopes α) : Scopes α := ops.foldl (fun t op => op.apply t) t

abbrev Log (α : Type) : Type := List (String × α)

/-- The innermost log that mentions the name gets one more value for it. -/
def amend (name : String) (f : α → α) : List (Log α) → List (Log α)
  | [] => []
  | log :: outer =>
    match log.lookup name with
    | some value => ((name, f value) :: log) :: outer
    | none => log :: amend name f outer

/-- What an operation adds to the logs of the open scopes, the innermost first. The log of the
outermost scope is never closed. -/
def record : Op α → List (Log α) → List (Log α)
  | .enter, logs => [] :: logs
  | .leave, _ :: log :: outer => log :: outer
  | .leave, logs => logs
  | .bind name value, log :: outer => ((name, value) :: log) :: outer
  | .bind _ _, [] => []
  | .change name f, logs => amend name f logs
  | .reset, _ => [[]]

def journal (ops : List (Op α)) (logs : List (Log α)) : List (Log α) :=
  ops.foldl (fun logs op => record op logs) logs

/-- The value is the latest that the name was given in the innermost log that mentions it. -/
def Latest (logs : List (Log α)) (name : String) (value : α) : Prop :=
  ∃ inner log outer newer older, logs = inner ++ log :: outer ∧
    (∀ l ∈ inner, name ∉ l.map Prod.fst) ∧
    log = newer ++ (name, value) :: older ∧ name ∉ newer.map Prod.fst

section logs

theorem lookup_eq_some_iff {log : Log α} {name : String} {value : α} :
    log.lookup name = some value ↔ ∃ newer older, log = newer ++ (name, value) :: older ∧
      name ∉ newer.map Prod.fst := by
  rw [List.lookup_eq_some_iff]
  constructor
  · rintro ⟨newer, older, hlog, hnewer⟩
    have hnone : newer.lookup name = none := List.lookup_eq_none_iff.mpr hnewer
    exact ⟨newer, older, hlog, Scope.value?_eq_none_iff.mp hnone⟩
  · rintro ⟨newer, older, hlog, hnewer⟩
    have hnone : newer.lookup name = none := Scope.value?_eq_none_iff.mpr hnewer
    exact ⟨newer, older, hlog, List.lookup_eq_none_iff.mp hnone⟩

theorem latest_iff {logs : List (Log α)} {name : String} {value : α} :
    Latest logs name value ↔ logs.findSome? (·.lookup name) = some value := by
  rw [List.findSome?_eq_some_iff]
  constructor
  · rintro ⟨inner, log, outer, newer, older, rfl, hinner, hlog, hnewer⟩
    have hvalue := lookup_eq_some_iff.mpr ⟨newer, older, hlog, hnewer⟩
    have hnone : ∀ l ∈ inner, l.lookup name = none :=
      fun l hl => Scope.value?_eq_none_iff.mpr (hinner l hl)
    exact ⟨inner, log, outer, rfl, hvalue, hnone⟩
  · rintro ⟨inner, log, outer, rfl, hvalue, hnone⟩
    obtain ⟨newer, older, hlog, hnewer⟩ := lookup_eq_some_iff.mp hvalue
    have hinner : ∀ l ∈ inner, name ∉ l.map Prod.fst :=
      fun l hl => Scope.value?_eq_none_iff.mp (hnone l hl)
    exact ⟨inner, log, outer, newer, older, rfl, hinner, hlog, hnewer⟩

end logs

section scopes
variable {t t' : Scopes α} {scope : Scope α} {inner outer : List (Scope α)} {name : String}

theorem eq_of_scopes (h : t.scopes = t'.scopes) : t = t' := by
  obtain ⟨inner, root⟩ := t
  obtain ⟨inner', root'⟩ := t'
  obtain ⟨rfl, rfl⟩ := List.append_inj' h rfl |>.imp_right List.cons.inj |>.imp_right And.left
  rfl

theorem scopes_leave (h : t.scopes = scope :: outer) :
    t.leave.scopes = if outer = [] then t.scopes else outer := by
  obtain ⟨inner, root⟩ := t
  cases inner with
  | nil =>
    obtain ⟨-, rfl⟩ := List.cons.inj h
    rw [if_pos rfl]
    rfl
  | cons first rest =>
    obtain ⟨-, rfl⟩ := List.cons.inj h
    rw [if_neg (by simp)]
    rfl

theorem scopes_bind (h : t.scopes = scope :: outer) (name : String) (value : α) :
    (t.bind name value).scopes = scope.bind name value :: outer := by
  obtain ⟨inner, root⟩ := t
  cases inner with
  | nil =>
    obtain ⟨rfl, rfl⟩ := List.cons.inj h
    rfl
  | cons first rest =>
    obtain ⟨rfl, rfl⟩ := List.cons.inj h
    rfl

theorem changeScopes_append (f : α → α) (h : ∀ scope ∈ inner, scope.value? name = none) :
    changeScopes name f (inner ++ outer) = (changeScopes name f outer).map (inner ++ ·) := by
  induction inner with
  | nil => simp
  | cons scope inner ih =>
    have hscope := h scope List.mem_cons_self
    have hrest := ih fun other hother => h other (List.mem_cons_of_mem _ hother)
    rw [List.cons_append, changeScopes, hscope, hrest, Option.map_map]
    rfl

theorem changeScopes_eq_none (f : α → α) (h : ∀ scope ∈ inner, scope.value? name = none) :
    changeScopes name f inner = none := by
  have happend : changeScopes name f (inner ++ []) = none := changeScopes_append f h
  rwa [List.append_nil] at happend

theorem changeScopes_holder (f : α → α) (hinner : ∀ scope ∈ inner, scope.value? name = none)
    {value : α} (hvalue : scope.value? name = some value) :
    changeScopes name f (inner ++ scope :: outer) =
      some (inner ++ scope.bind name (f value) :: outer) := by
  rw [changeScopes_append f hinner, changeScopes, hvalue]
  rfl

theorem value?_eq_none_of_find? (h : t.find? name = none) : ∀ scope ∈ t.scopes,
    scope.value? name = none := List.findSome?_eq_none_iff.mp h

theorem change_of_unbound (f : α → α) (h : t.find? name = none) : t.change name f = t := by
  have hnone := value?_eq_none_of_find? h
  have hinner : changeScopes name f t.inner = none :=
    changeScopes_eq_none f fun scope hscope => hnone scope (List.mem_append_left _ hscope)
  have hroot : t.root.value? name = none :=
    hnone t.root (List.mem_append_right _ (List.mem_singleton_self _))
  rw [change, hinner, hroot]

theorem scopes_change (f : α → α) (h : t.scopes = inner ++ scope :: outer)
    (hinner : ∀ scope ∈ inner, scope.value? name = none) {value : α}
    (hvalue : scope.value? name = some value) :
    (t.change name f).scopes = inner ++ scope.bind name (f value) :: outer := by
  obtain ⟨inner', root⟩ := t
  rcases List.eq_nil_or_concat outer with rfl | ⟨between, last, rfl⟩
  · -- The name is held by the root.
    obtain ⟨rfl, hroot⟩ := List.append_inj' h rfl
    obtain ⟨rfl, -⟩ := List.cons.inj hroot
    have hnone : changeScopes name f inner' = none := changeScopes_eq_none f hinner
    unfold change
    rw [hnone]
    dsimp only
    rw [hvalue]
    rfl
  · rw [List.concat_eq_append, ← List.cons_append, ← List.append_assoc] at h
    obtain ⟨rfl, hroot⟩ := List.append_inj' h rfl
    obtain ⟨rfl, -⟩ := List.cons.inj hroot
    have hsome : changeScopes name f (inner ++ scope :: between) =
        some (inner ++ scope.bind name (f value) :: between) := changeScopes_holder f hinner hvalue
    unfold change
    rw [hsome, List.concat_eq_append]
    simp [scopes]

end scopes

theorem find?_change (t : Scopes α) (name : String) (f : α → α) (other : String) :
    (t.change name f).find? other =
      if other = name then (t.find? name).map f else t.find? other := by
  cases hfind : t.find? name with
  | none =>
    rw [change_of_unbound f hfind]
    split
    · next heq => rw [heq, hfind, Option.map_none]
    · rfl
  | some value =>
    obtain ⟨inner, scope, outer, hscopes, hvalue, hinner⟩ := List.findSome?_eq_some_iff.mp hfind
    unfold find?
    rw [scopes_change f hscopes hinner hvalue, hscopes, List.findSome?_append, List.findSome?_append,
      List.findSome?_cons, List.findSome?_cons, Scope.value?_bind]
    by_cases heq : other = name
    · subst heq
      rw [if_pos rfl, if_pos rfl, List.findSome?_eq_none_iff.mpr hinner, Option.none_or,
        Option.map_some]
    · rw [if_neg heq, if_neg heq]

def Agrees (scope : Scope α) (log : Log α) : Prop := ∀ name, scope.value? name = log.lookup name

theorem Agrees.bind {scope : Scope α} {log : Log α} (h : Agrees scope log) (name : String)
    (value : α) : Agrees (scope.bind name value) ((name, value) :: log) := by
  intro other
  have hlog : List.lookup other ((name, value) :: log) =
      if other = name then some value else log.lookup other := Scope.value?_cons other name value log
  rw [Scope.value?_bind, hlog, h other]

theorem findSome?_agrees {scopes : List (Scope α)} {logs : List (Log α)}
    (h : List.Forall₂ Agrees scopes logs) (name : String) :
    scopes.findSome? (·.value? name) = logs.findSome? (·.lookup name) := by
  induction h with
  | nil => rfl
  | cons hscope _ ih => rw [List.findSome?_cons, List.findSome?_cons, hscope name, ih]

theorem amend_of_unbound (f : α → α) {logs : List (Log α)} {name : String}
    (h : logs.findSome? (·.lookup name) = none) : amend name f logs = logs := by
  induction logs with
  | nil => rfl
  | cons log outer ih =>
    rw [List.findSome?_eq_none_iff] at h
    have hlog : log.lookup name = none := h log List.mem_cons_self
    have houter := ih (List.findSome?_eq_none_iff.mpr fun l hl => h l (List.mem_cons_of_mem _ hl))
    rw [amend, hlog, houter]

theorem exists_holder (f : α → α) {scopes : List (Scope α)} {logs : List (Log α)} {name : String}
    {value : α} (hagree : List.Forall₂ Agrees scopes logs)
    (hvalue : logs.findSome? (·.lookup name) = some value) :
    ∃ inner scope outer, scopes = inner ++ scope :: outer ∧
      (∀ scope ∈ inner, scope.value? name = none) ∧ scope.value? name = some value ∧
      List.Forall₂ Agrees (inner ++ scope.bind name (f value) :: outer) (amend name f logs) := by
  induction hagree with
  | nil => simp at hvalue
  | @cons scope log scopes logs hscope houter ih =>
    rw [List.findSome?_cons] at hvalue
    cases hlog : log.lookup name with
    | some found =>
      rw [hlog] at hvalue
      obtain rfl := Option.some.inj hvalue
      have hamend : amend name f (log :: logs) = ((name, f found) :: log) :: logs := by
        rw [amend, hlog]
      rw [hamend]
      exact ⟨[], scope, scopes, rfl, by simp, (hscope name).trans hlog,
        .cons (hscope.bind name (f found)) houter⟩
    | none =>
      rw [hlog] at hvalue
      obtain ⟨inner, holder, outer, rfl, hinner, hholder, hchanged⟩ := ih hvalue
      have hamend : amend name f (log :: logs) = log :: amend name f logs := by
        rw [amend, hlog]
      have hnone : ∀ other ∈ scope :: inner, other.value? name = none := by
        intro other hother
        rcases List.mem_cons.mp hother with rfl | hother
        · exact (hscope name).trans hlog
        · exact hinner other hother
      rw [hamend]
      exact ⟨scope :: inner, holder, outer, rfl, hnone, hholder, .cons hscope hchanged⟩

/-- Innermost in the table are scopes that find what their logs have last, and around these are the
scopes below. -/
def Stacked (below : List (Scope α)) (t : Scopes α) (logs : List (Log α)) : Prop :=
  ∃ top, t.scopes = top ++ below ∧ List.Forall₂ Agrees top logs ∧ logs ≠ []

/-- The operation has nothing to do with the scopes below: it closes none of them, and what it
changes is mentioned in a log. -/
def Op.Above (below : List (Scope α)) (t : Scopes α) (logs : List (Log α)) : Op α → Prop
  | .enter => True
  | .leave => below = [] ∨ 1 < logs.length
  | .bind _ _ => True
  | .change name _ => t.find? name = none ∨ ∃ value, Latest logs name value
  | .reset => below = []

namespace Stacked
variable {below : List (Scope α)} {t : Scopes α} {logs : List (Log α)}

theorem find? (h : Stacked below t logs) (name : String) :
    t.find? name = (logs.findSome? (·.lookup name)).or (below.findSome? (·.value? name)) := by
  obtain ⟨top, hscopes, hagree, -⟩ := h
  unfold Scopes.find?
  rw [hscopes, List.findSome?_append, findSome?_agrees hagree]

theorem leave (h : Stacked below t logs) (habove : below = [] ∨ 1 < logs.length) :
    Stacked below t.leave (record .leave logs) := by
  obtain ⟨top, hscopes, hagree, hne⟩ := h
  cases hagree with
  | nil => exact absurd rfl hne
  | @cons scope log top logs hscope hrest =>
    have hleave : t.leave.scopes = if top ++ below = [] then t.scopes else top ++ below :=
      scopes_leave hscopes
    cases hrest with
    | nil =>
      -- The only scope with a log is the root, which stays open.
      have hbelow : below = [] := habove.resolve_right (by simp)
      rw [List.nil_append, if_pos hbelow] at hleave
      exact ⟨[scope], hleave.trans hscopes, .cons hscope .nil, hne⟩
    | @cons next log' top logs hnext hrest =>
      rw [if_neg (by simp)] at hleave
      exact ⟨next :: top, hleave, .cons hnext hrest, List.cons_ne_nil _ _⟩

theorem bind (h : Stacked below t logs) (name : String) (value : α) :
    Stacked below (t.bind name value) (record (.bind name value) logs) := by
  obtain ⟨top, hscopes, hagree, hne⟩ := h
  cases hagree with
  | nil => exact absurd rfl hne
  | @cons scope log top logs hscope hrest =>
    have hbind : (t.bind name value).scopes = scope.bind name value :: (top ++ below) :=
      scopes_bind hscopes name value
    exact ⟨scope.bind name value :: top, hbind, .cons (hscope.bind name value) hrest,
      List.cons_ne_nil _ _⟩

theorem change (h : Stacked below t logs) {name : String} (f : α → α)
    (habove : t.find? name = none ∨ ∃ value, Latest logs name value) :
    Stacked below (t.change name f) (amend name f logs) := by
  rcases habove with hnone | ⟨value, hlatest⟩
  · have hlogs : logs.findSome? (·.lookup name) = none := by
      have hfind := h.find? name
      rw [hnone] at hfind
      exact (Option.or_eq_none_iff.mp hfind.symm).1
    rw [change_of_unbound f hnone, amend_of_unbound f hlogs]
    exact h
  · obtain ⟨top, hscopes, hagree, -⟩ := h
    obtain ⟨inner, scope, outer, rfl, hinner, hscope, hchanged⟩ :=
      exists_holder f hagree (latest_iff.mp hlatest)
    rw [List.append_assoc, List.cons_append] at hscopes
    have hchange := scopes_change f hscopes hinner hscope
    refine ⟨inner ++ scope.bind name (f value) :: outer, ?_, hchanged, ?_⟩
    · rw [hchange, List.append_assoc, List.cons_append]
    · intro hnil
      rw [hnil] at hchanged
      simp at hchanged

theorem apply (h : Stacked below t logs) {op : Op α} (habove : op.Above below t logs) :
    Stacked below (op.apply t) (record op logs) := by
  cases op with
  | enter =>
    obtain ⟨top, hscopes, hagree, -⟩ := h
    have henter : t.enter.scopes = [] :: top ++ below := congrArg (List.cons []) hscopes
    exact ⟨[] :: top, henter, .cons (fun _ => rfl) hagree, List.cons_ne_nil _ _⟩
  | leave => exact h.leave habove
  | bind name value => exact h.bind name value
  | change name f => exact h.change f habove
  | reset =>
    have hbelow : below = [] := habove
    rw [hbelow]
    exact ⟨[[]], rfl, .cons (fun _ => rfl) .nil, List.cons_ne_nil _ _⟩

theorem above (h : Stacked [] t logs) (op : Op α) : op.Above [] t logs := by
  cases op with
  | enter => trivial
  | leave => exact .inl rfl
  | bind name value => trivial
  | change name f =>
    cases hfind : t.find? name with
    | none => exact .inl hfind
    | some value =>
      have hlogs := h.find? name
      rw [hfind, List.findSome?_nil, Option.or_none] at hlogs
      exact .inr ⟨value, latest_iff.mpr hlogs.symm⟩
  | reset => rfl

end Stacked

theorem run_stacked (ops : List (Op α)) : Stacked [] (run ops empty) (journal ops [[]]) := by
  have hstart : Stacked ([] : List (Scope α)) empty [[]] :=
    ⟨[[]], rfl, .cons (fun _ => rfl) .nil, List.cons_ne_nil _ _⟩
  suffices h : ∀ (t : Scopes α) logs, Stacked [] t logs →
      Stacked [] (run ops t) (journal ops logs) from h _ _ hstart
  induction ops with
  | nil => exact fun _ _ h => h
  | cons op ops ih => exact fun t logs h => ih _ _ (h.apply (h.above op))

section balanced

def Balanced : Nat → List (Op α) → Prop
  | depth, [] => depth = 0
  | depth, .enter :: ops => Balanced (depth + 1) ops
  | 0, .leave :: _ => False
  | depth + 1, .leave :: ops => Balanced depth ops
  | depth, .bind _ _ :: ops => Balanced depth ops
  | depth, .change _ _ :: ops => Balanced depth ops
  | _, .reset :: _ => False

/-- Every binding that the operations change has been made by one of them, which its log shows. -/
def ChangesOwn (t : Scopes α) (logs : List (Log α)) (ops : List (Op α)) : Prop :=
  ∀ first name f rest, ops = first ++ .change name f :: rest →
    (run first t).find? name = none ∨ ∃ value, Latest (journal first logs) name value

theorem changesOwn_nil (t : Scopes α) (logs : List (Log α)) : ChangesOwn t logs [] := by
  intro first name f rest hops
  simp at hops

theorem changesOwn_cons_iff {t : Scopes α} {logs : List (Log α)} {op : Op α} {ops : List (Op α)} :
    ChangesOwn t logs (op :: ops) ↔
      (∀ name f, op = .change name f → t.find? name = none ∨ ∃ value, Latest logs name value) ∧
        ChangesOwn (op.apply t) (record op logs) ops := by
  constructor
  · intro h
    refine ⟨?_, ?_⟩
    · rintro name f rfl
      exact h [] name f ops rfl
    · intro first name f rest hops
      apply h (op :: first) name f rest
      rw [hops, List.cons_append]
  · rintro ⟨hop, hops⟩ first name f rest heq
    cases first with
    | nil =>
      obtain ⟨rfl, -⟩ := List.cons.inj heq
      exact hop name f rfl
    | cons other first =>
      obtain ⟨rfl, hrest⟩ := List.cons.inj heq
      exact hops first name f rest hrest

theorem length_amend (name : String) (f : α → α) (logs : List (Log α)) :
    (amend name f logs).length = logs.length := by
  induction logs with
  | nil => rfl
  | cons log outer ih =>
    rw [amend]
    split
    · rfl
    · rw [List.length_cons, List.length_cons, ih]

theorem Stacked.run_balanced {below : List (Scope α)} {ops : List (Op α)} {depth : Nat}
    {t : Scopes α} {logs : List (Log α)} (h : Stacked below t logs)
    (hlength : logs.length = depth + 1) (hbalanced : Balanced depth ops)
    (hown : ChangesOwn t logs ops) : ∃ log, Stacked below (run ops t) [log] := by
  induction ops generalizing depth t logs with
  | nil =>
    have hdepth : depth = 0 := by simpa [Balanced] using hbalanced
    rw [hdepth] at hlength
    obtain ⟨log, rfl⟩ := List.length_eq_one_iff.mp hlength
    exact ⟨log, h⟩
  | cons op ops ih =>
    obtain ⟨hop, hown⟩ := changesOwn_cons_iff.mp hown
    cases op with
    | enter =>
      have hlength' : (record .enter logs).length = depth + 1 + 1 := by
        rw [record, List.length_cons, hlength]
      exact ih (h.apply trivial) hlength' (by simpa [Balanced] using hbalanced) hown
    | leave =>
      cases depth with
      | zero => simp [Balanced] at hbalanced
      | succ depth =>
        have habove : 1 < logs.length := by omega
        have hlength' : (record .leave logs).length = depth + 1 := by
          obtain ⟨first, rest, rfl⟩ := List.exists_cons_of_length_eq_add_one hlength
          have hrest : rest.length = depth + 1 := Nat.succ.inj hlength
          obtain ⟨log, outer, rfl⟩ := List.exists_cons_of_length_eq_add_one hrest
          exact hrest
        exact ih (h.apply (.inr habove)) hlength' (by simpa [Balanced] using hbalanced) hown
    | bind name value =>
      have hlength' : (record (.bind name value) logs).length = depth + 1 := by
        obtain ⟨log, outer, rfl⟩ := List.exists_cons_of_length_eq_add_one hlength
        exact hlength
      exact ih (h.apply trivial) hlength' (by simpa [Balanced] using hbalanced) hown
    | change name f =>
      have hlength' : (record (.change name f) logs).length = depth + 1 := by
        rw [record, length_amend, hlength]
      exact ih (h.apply (hop name f rfl)) hlength' (by simpa [Balanced] using hbalanced) hown
    | reset => simp [Balanced] at hbalanced

theorem leave_run_enter {t : Scopes α} {ops : List (Op α)} (hbalanced : Balanced 0 ops)
    (hown : ChangesOwn t.enter [[]] ops) : (run ops t.enter).leave = t := by
  have henter : Stacked t.scopes t.enter [[]] :=
    ⟨[[]], rfl, .cons (fun _ => rfl) .nil, List.cons_ne_nil _ _⟩
  obtain ⟨log, top, hscopes, hagree, -⟩ := henter.run_balanced rfl hbalanced hown
  obtain ⟨scope, rfl⟩ : ∃ scope, top = [scope] := List.length_eq_one_iff.mp hagree.length_eq
  apply eq_of_scopes
  have hleave : (run ops t.enter).leave.scopes =
      if t.scopes = [] then (run ops t.enter).scopes else t.scopes := scopes_leave hscopes
  have hne : t.scopes ≠ [] := by simp [scopes]
  rwa [if_neg hne] at hleave

end balanced

/-- Whatever has been done to a table, a name is found to have the value it was given last in the
innermost scope that binds it; changing it changes that binding alone; binding a name makes no other
name found differently; the root stays open; and what is done in a scope of its own, and changes
only what it has made, is undone when the scope is left. -/
theorem run_environments (ops : List (Op α)) :
    let t := run ops empty
    (∀ name value, t.find? name = some value ↔ Latest (journal ops [[]]) name value) ∧
    (∀ name f, (t.find? name = none → t.change name f = t) ∧
      ∀ inner scope outer value, t.scopes = inner ++ scope :: outer →
        (∀ other ∈ inner, other.value? name = none) → scope.value? name = some value →
        ∃ scope', (t.change name f).scopes = inner ++ scope' :: outer ∧
          ∀ other, scope'.value? other =
            if other = name then some (f value) else scope.value? other) ∧
    (∀ name value other, (t.bind name value).find? other =
      if other = name then some value else t.find? other) ∧
    (t.depth = 1 → t.leave = t) ∧
    ∀ seq, Balanced 0 seq → ChangesOwn t.enter [[]] seq → (run seq t.enter).leave = t := by
  intro t
  have hstacked : Stacked [] t (journal ops [[]]) := run_stacked ops
  refine ⟨fun name value => ?_, fun name f => ⟨change_of_unbound f, ?_⟩, ?_, fun hdepth => ?_, ?_⟩
  · rw [hstacked.find?, List.findSome?_nil, Option.or_none, latest_iff]
  · intro inner scope outer value hscopes hinner hvalue
    exact ⟨_, scopes_change f hscopes hinner hvalue, fun other => Scope.value?_bind _ _ _ _⟩
  · exact fun name value other => find?_bind t name value other
  · have hinner : t.inner = [] := List.length_eq_zero_iff.mp (Nat.succ.inj hdepth)
    unfold leave
    rw [hinner]
    exact congrArg (Scopes.mk · t.root) hinner.symm
  · exact fun seq hbalanced hown => leave_run_enter hbalanced hown

theorem run_environments_shadowed :
    let ops : List (Op Nat) := [.bind "x" 1, .enter, .bind "y" 2, .change "x" (· + 10)]
    let seq : List (Op Nat) := [.bind "x" 5, .enter, .change "x" (· + 1), .leave, .change "z" (· + 1)]
    let t := run ops empty
    (Latest (journal ops [[]]) "x" 11 ∧ t.find? "x" = some 11) ∧
    (∃ scope : Scope Nat, (t.change "x" (· + 1)).scopes = [[("y", 2)], scope] ∧
      scope.value? "x" = some 12) ∧
    ((run [.bind "x" 1] empty).depth = 1 ∧
      (run [.bind "x" 1] empty).leave = run [.bind "x" 1] empty) ∧
    Balanced 0 seq ∧ ChangesOwn t.enter [[]] seq ∧ (run seq t.enter).find? "x" = some 6 ∧
    (run seq t.enter).leave = t := by
  intro ops seq t
  have hlatest : Latest (journal ops [[]]) "x" 11 := latest_iff.mpr (by decide)
  have hbalanced : Balanced 0 seq := by simp [seq, Balanced]
  have hown : ChangesOwn t.enter [[]] seq := by
    simp only [seq, changesOwn_cons_iff, reduceCtorEq, false_implies, implies_true, true_and,
      changesOwn_nil, and_true, Op.change.injEq, and_imp]
    refine ⟨?_, ?_⟩
    · rintro name f rfl rfl
      exact .inr ⟨5, latest_iff.mpr (by decide)⟩
    · rintro name f rfl rfl
      exact .inl (by decide)
  obtain ⟨hfind, hchange, -, -, hrestored⟩ := run_environments ops
  obtain ⟨-, -, -, hroot, -⟩ := run_environments [Op.bind "x" 1]
  obtain ⟨scope, hscopes, hvalue⟩ :=
    (hchange "x" (· + 1)).2 [[("y", 2)]] [("x", 11)] [] 11 (by decide) (by decide) (by decide)
  exact ⟨⟨hlatest, (hfind "x" 11).mpr hlatest⟩, ⟨scope, hscopes, hvalue "x"⟩,
    ⟨rfl, hroot rfl⟩, hbalanced, hown, by decide, hrestored seq hbalanced hown⟩

end TigerLang.Scopes

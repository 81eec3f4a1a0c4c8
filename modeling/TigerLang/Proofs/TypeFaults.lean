import TigerLang.Proofs.CanonicalTypes

/-! What is wrong with the type declarations of a block, each fault where it stands. While the names
of the block get their types, the reports are held against the faults of the names that have got
one. -/

namespace TigerLang

namespace TypeBlock

/-- A use of a name is a fault unless the name is declared in the block or known outside. -/
def unknownAt (b : TypeBlock) (name : String) (position : Position) : List Diagnostic :=
  if (b.declared.value? name).isSome || (b.outer.find? name).isSome then []
  else [⟨.undefinedName .type name, position⟩]

/-- Of fields with the same name only the first is looked into. -/
def unknownNames (b : TypeBlock) : TypeExp → List Diagnostic
  | .name span target => b.unknownAt target span.start
  | .array span element => b.unknownAt element span.start
  | .record _ fields => (firstNamed Field.name [] fields).flatMap fun field =>
      b.unknownAt field.typeName field.node.span.start

def repeatedFields : TypeExp → List Diagnostic
  | .record _ fields => (laterNamed Field.name [] fields).map fun field =>
      ⟨.redefinition .field field.name, field.node.span.start⟩
  | _ => []

def faults (b : TypeBlock) (entry : String × TypeBinding) : List Diagnostic :=
  match entry.2.definition with
  | some definition => b.unknownNames definition ++ repeatedFields definition
  | none => []

def definitions (b : TypeBlock) : List TypeExp :=
  b.declared.filterMap fun entry => entry.2.definition

def OnCycle (b : TypeBlock) (name : String) : Prop :=
  Relation.TransGen (fun m n => b.next? m = some n) name name

def cycleReport (entry : String × TypeBinding) : Diagnostic :=
  ⟨.cyclicType entry.1, entry.2.position⟩

/-- Declarations that stand for the cycles with names among the given ones: each is on a cycle, no
two are on the same, and every cycle has one. -/
structure OnePerCycle (b : TypeBlock) (among : String → Prop) (reps : Scope TypeBinding) :
    Prop where
  declared : ∀ entry ∈ reps, entry ∈ b.declared
  onCycle : ∀ entry ∈ reps, b.OnCycle entry.1 ∧ among entry.1
  apart : reps.Pairwise fun entry other => ¬ b.Leads entry.1 other.1
  covers : ∀ name, b.OnCycle name → among name → ∃ entry ∈ reps, b.Leads name entry.1

variable {b : TypeBlock}

theorem unknownAt_of_definition? {name : String} {definition : TypeExp}
    (h : b.definition? name = some definition) (position : Position) :
    b.unknownAt name position = [] := by
  obtain ⟨binding, hvalue, -⟩ := Option.bind_eq_some_iff.mp h
  exact if_pos (by simp [hvalue])

theorem flatMap_faults_perm (b : TypeBlock) : (b.declared.flatMap b.faults).Perm
    (b.definitions.flatMap b.unknownNames ++ b.definitions.flatMap repeatedFields) := by
  have hfaults : b.declared.flatMap b.faults =
      b.definitions.flatMap fun definition =>
        b.unknownNames definition ++ repeatedFields definition := by
    unfold definitions
    induction b.declared with
    | nil => rfl
    | cons entry rest ih => cases h : entry.2.definition <;> simp [faults, h, ih]
  rw [hfaults]
  exact (List.flatMap_append_perm _ _ _).symm

theorem faults_of_next? {entry : String × TypeBinding} {definition : TypeExp} {target : String}
    (hentry : entry.2.definition = some definition)
    (hname : b.definition? entry.1 = some definition) (hnext : b.next? entry.1 = some target) :
    b.faults entry = b.unknownAt target definition.span.start := by
  unfold faults
  rw [hentry]
  cases definition with
  | name span m =>
    obtain rfl : m = target := by simpa [next?, hname] using hnext
    exact List.append_nil _
  | array span m =>
    obtain rfl : m = target := by simpa [next?, hname] using hnext
    exact List.append_nil _
  | record span fields => simp [next?, hname] at hnext

theorem definition?_of_mem {entry : String × TypeBinding} (hnodup : (b.declared.map Prod.fst).Nodup)
    (hentry : entry ∈ b.declared) : b.definition? entry.1 = entry.2.definition := by
  rw [definition?, Scope.value?_of_mem hnodup hentry]
  rfl

theorem Unresolved.definition?_of_mem (hb : b.Unresolved) {entry : String × TypeBinding}
    (hentry : entry ∈ b.declared) : ∃ definition, b.definition? entry.1 = some definition := by
  have hvalue := Scope.value?_of_mem hb.nodup hentry
  rw [TypeBlock.definition?_of_mem hb.nodup hentry]
  exact Option.isSome_iff_exists.mp (hb.open_ hvalue).2

theorem OnCycle.next? {name : String} (h : b.OnCycle name) :
    ∃ target, b.next? name = some target ∧ b.Leads target name := by
  obtain ⟨target, hnext, hleads⟩ := Relation.TransGen.head'_iff.mp h
  exact ⟨target, hnext, hleads⟩

theorem OnCycle.declared {name : String} (h : b.OnCycle name) :
    ∃ definition, b.definition? name = some definition := by
  obtain ⟨target, hnext, -⟩ := h.next?
  obtain ⟨definition, hname, -⟩ := declared_of_next? hnext
  exact ⟨definition, hname⟩

/-- A name that has a type goes on to names that have one, as long as these are declared. -/
def Closed (b : TypeBlock) (s : Checker) : Prop :=
  ∀ m n definition, b.next? m = some n → b.definition? n = some definition →
    (typeOf? s.types m).isSome → (typeOf? s.types n).isSome

theorem Closed.leads {s : Checker} (h : b.Closed s) {m n : String} (hleads : b.Leads m n)
    {definition : TypeExp} (hn : b.definition? n = some definition)
    (hm : (typeOf? s.types m).isSome) : (typeOf? s.types n).isSome := by
  induction hleads using Relation.ReflTransGen.head_induction_on with
  | refl => exact hm
  | @head m k hstep hrest ih =>
    refine ih ?_
    rcases Relation.ReflTransGen.cases_head hrest with rfl | ⟨target, hnext, -⟩
    · exact h m k definition hstep hn hm
    · obtain ⟨definition', hk, -⟩ := declared_of_next? hnext
      exact h m k definition' hstep hk hm

def Gains (s s' : Checker) (name : String) : Prop :=
  typeOf? s.types name = none ∧ (typeOf? s'.types name).isSome

def gained (b : TypeBlock) (s s' : Checker) : Scope TypeBinding :=
  b.declared.filter fun entry =>
    (typeOf? s.types entry.1).isNone && (typeOf? s'.types entry.1).isSome

def Keeps (s s' : Checker) : Prop :=
  ∀ name, (typeOf? s.types name).isSome → (typeOf? s'.types name).isSome

theorem gained_perm {s s₁ s₂ : Checker} (h₁ : Keeps s s₁) (h₂ : Keeps s₁ s₂) :
    (b.gained s s₂).Perm (b.gained s s₁ ++ b.gained s₁ s₂) := by
  have hsplit := List.filter_append_perm (fun entry => (typeOf? s₁.types entry.1).isSome)
    (b.gained s s₂)
  refine hsplit.symm.trans (List.Perm.of_eq ?_)
  unfold gained
  rw [List.filter_filter, List.filter_filter]
  congr 1
  · apply List.filter_congr
    intro entry _
    have hkept := h₂ entry.1
    cases h : typeOf? s.types entry.1 <;> cases h' : typeOf? s₁.types entry.1 <;> simp_all
  · apply List.filter_congr
    intro entry _
    have hkept := h₁ entry.1
    cases h : typeOf? s.types entry.1 <;> cases h' : typeOf? s₁.types entry.1 <;> simp_all

/-- From one state to the other, what has been reported is `own` and what is wrong with the names that
have got a type, except for `owed`, and each cycle among them once. -/
structure Accounts (b : TypeBlock) (s s' : Checker) (own owed : List Diagnostic) : Prop where
  keeps : Keeps s s'
  told : ∃ new reps, s'.diagnostics.toList = s.diagnostics.toList ++ new ∧
    (new ++ owed).Perm (own ++ ((b.gained s s').flatMap b.faults ++ reps.map cycleReport)) ∧
    b.OnePerCycle (Gains s s') reps

theorem OnePerCycle.congr {among among' : String → Prop} {reps : Scope TypeBinding}
    (h : b.OnePerCycle among reps) (hsame : ∀ name, b.OnCycle name → (among name ↔ among' name)) :
    b.OnePerCycle among' reps := by
  constructor
  case declared => exact h.declared
  case onCycle =>
    intro entry hentry
    obtain ⟨hcycle, hamong⟩ := h.onCycle entry hentry
    exact ⟨hcycle, (hsame _ hcycle).mp hamong⟩
  case apart => exact h.apart
  case covers =>
    intro name hcycle hamong
    exact h.covers name hcycle ((hsame name hcycle).mpr hamong)

/-- Cycles are gained as a whole, so those of two stages are different. -/
theorem OnePerCycle.append {s s₁ s₂ : Checker} {reps reps' : Scope TypeBinding}
    (h : b.OnePerCycle (Gains s s₁) reps) (h' : b.OnePerCycle (Gains s₁ s₂) reps')
    (hclosed : b.Closed s₁) (hkeeps : Keeps s s₁) (hkeeps' : Keeps s₁ s₂) :
    b.OnePerCycle (Gains s s₂) (reps ++ reps') := by
  constructor
  case declared =>
    intro entry hentry
    rcases List.mem_append.mp hentry with hentry | hentry
    · exact h.declared entry hentry
    · exact h'.declared entry hentry
  case onCycle =>
    intro entry hentry
    rcases List.mem_append.mp hentry with hentry | hentry
    · obtain ⟨hcycle, hopen, hsome⟩ := h.onCycle entry hentry
      exact ⟨hcycle, hopen, hkeeps' _ hsome⟩
    · obtain ⟨hcycle, hopen, hsome⟩ := h'.onCycle entry hentry
      have hopen' : ¬ (typeOf? s.types entry.1).isSome := fun hold => by
        simpa [hopen] using hkeeps _ hold
      exact ⟨hcycle, by simpa using hopen', hsome⟩
  case apart =>
    refine List.pairwise_append.mpr ⟨h.apart, h'.apart, fun entry hentry other hother hleads => ?_⟩
    obtain ⟨-, -, hsome⟩ := h.onCycle entry hentry
    obtain ⟨hcycle, hopen, -⟩ := h'.onCycle other hother
    obtain ⟨definition, hdefinition⟩ := hcycle.declared
    simpa [hopen] using hclosed.leads hleads hdefinition hsome
  case covers =>
    rintro name hcycle ⟨hopen, hsome⟩
    cases hmid : typeOf? s₁.types name with
    | some ty =>
      obtain ⟨entry, hentry, hleads⟩ := h.covers name hcycle ⟨hopen, by simp [hmid]⟩
      exact ⟨entry, List.mem_append_left _ hentry, hleads⟩
    | none =>
      obtain ⟨entry, hentry, hleads⟩ := h'.covers name hcycle ⟨hmid, hsome⟩
      exact ⟨entry, List.mem_append_right _ hentry, hleads⟩

namespace Accounts
variable {s s' s₁ s₂ : Checker} {own own' own₁ own₂ owed owed' owed₁ owed₂ : List Diagnostic}

theorem trans (h₁ : b.Accounts s s₁ own₁ owed₁) (h₂ : b.Accounts s₁ s₂ own₂ owed₂)
    (hclosed : b.Closed s₁) : b.Accounts s s₂ (own₁ ++ own₂) (owed₁ ++ owed₂) := by
  obtain ⟨new₁, reps₁, hnew₁, hperm₁, hcycles₁⟩ := h₁.told
  obtain ⟨new₂, reps₂, hnew₂, hperm₂, hcycles₂⟩ := h₂.told
  have hgained := (gained_perm (b := b) h₁.keeps h₂.keeps).flatMap_right b.faults
  refine ⟨fun name hsome => h₂.keeps name (h₁.keeps name hsome), new₁ ++ new₂, reps₁ ++ reps₂, ?_,
    ?_, hcycles₁.append hcycles₂ hclosed h₁.keeps h₂.keeps⟩
  · rw [hnew₂, hnew₁, List.append_assoc]
  -- The two balances are added up, one diagnostic at a time.
  · refine List.perm_iff_count.mpr fun d => ?_
    have hcount₁ := hperm₁.count_eq d
    have hcount₂ := hperm₂.count_eq d
    have hcount := hgained.count_eq d
    simp only [List.flatMap_append, List.map_append, List.count_append] at hcount₁ hcount₂ hcount ⊢
    omega

theorem balance (h : b.Accounts s s' own owed) (hperm : (own ++ owed').Perm (own' ++ owed)) :
    b.Accounts s s' own' owed' := by
  obtain ⟨new, reps, hnew, hnewPerm, hcycles⟩ := h.told
  refine ⟨h.keeps, new, reps, hnew, List.perm_iff_count.mpr fun d => ?_, hcycles⟩
  have hcount := hperm.count_eq d
  have hnewCount := hnewPerm.count_eq d
  simp only [List.count_append] at hcount hnewCount ⊢
  omega

theorem reports (htypes : s'.types = s.types)
    (hnew : s'.diagnostics.toList = s.diagnostics.toList ++ own) : b.Accounts s s' own [] := by
  have hnone : ∀ name, ¬ Gains s s' name := by
    rintro name ⟨hopen, hsome⟩
    simp [htypes, hopen] at hsome
  have hgained : b.gained s s' = [] := by
    refine List.filter_eq_nil_iff.mpr fun entry _ hentry => ?_
    simp only [Bool.and_eq_true, Option.isNone_iff_eq_none] at hentry
    exact hnone entry.1 hentry
  refine ⟨fun name hsome => by rwa [htypes], own, [], hnew, ?_, by simp, by simp, .nil, ?_⟩
  · simp [hgained]
  · exact fun name _ hgains => absurd hgains (hnone name)

theorem same (htypes : s'.types = s.types) (hsame : s'.diagnostics = s.diagnostics) :
    b.Accounts s s' [] [] := reports htypes (by simp [hsame])

end Accounts

section settling
variable {s s' : Checker} {entry : String × TypeBinding}

theorem mem_gained {names : List String} {ty : Ty} (hopen : ∀ n ∈ names, typeOf? s.types n = none)
    (htypes : ∀ n, typeOf? s'.types n = if n ∈ names then some ty else typeOf? s.types n) :
    entry ∈ b.gained s s' ↔ entry ∈ b.declared ∧ entry.1 ∈ names := by
  rw [gained, List.mem_filter, htypes]
  by_cases hmem : entry.1 ∈ names
  · simp [hmem, hopen _ hmem]
  · cases h : typeOf? s.types entry.1 <;> simp [hmem]

theorem keeps_settled {names : List String} {ty : Ty}
    (htypes : ∀ n, typeOf? s'.types n = if n ∈ names then some ty else typeOf? s.types n) :
    Keeps s s' := by
  intro name hsome
  rw [htypes]
  split
  · rfl
  · exact hsome

theorem Accounts.settles {ty : Ty} (hnodup : (b.declared.map Prod.fst).Nodup)
    (hentry : entry ∈ b.declared) (hcycle : ¬ b.OnCycle entry.1)
    (hopen : typeOf? s.types entry.1 = none)
    (htypes : ∀ n, typeOf? s'.types n = if n ∈ [entry.1] then some ty else typeOf? s.types n)
    (hsame : s'.diagnostics = s.diagnostics) : b.Accounts s s' [] (b.faults entry) := by
  have hgained : (b.gained s s').Perm [entry] := by
    refine (List.perm_ext_iff_of_nodup ?_ (List.nodup_singleton entry)).mpr fun other => ?_
    · exact (List.Nodup.of_map _ hnodup).filter _
    · rw [mem_gained (by simpa using hopen) htypes, List.mem_singleton, List.mem_singleton]
      constructor
      · rintro ⟨hother, heq⟩
        exact List.inj_on_of_nodup_map hnodup hother hentry heq
      · rintro rfl
        exact ⟨hentry, rfl⟩
  refine ⟨keeps_settled htypes, [], [], by simp [hsame], ?_, by simp, by simp, .nil, ?_⟩
  · simpa using (hgained.flatMap_right b.faults).symm
  · rintro name hname ⟨hnone, hsome⟩
    rw [htypes] at hsome
    split at hsome
    · next hmem => exact absurd (List.mem_singleton.mp hmem ▸ hname) hcycle
    · simp [hnone] at hsome

/-- The names of a loop get a type together, and the loop is reported once. Nothing else is wrong with
them, since each goes on to another. -/
theorem Accounts.settlesLoop {loop : List String} {ty : Ty}
    (hnodup : (b.declared.map Prod.fst).Nodup) (hentry : entry ∈ b.declared) (hfirst : entry.1 ∈ loop)
    (hloop : ∀ m ∈ loop, ∃ n ∈ loop, b.next? m = some n) (hleads : ∀ m ∈ loop, b.Leads m entry.1)
    (hopen : ∀ n ∈ loop, typeOf? s.types n = none)
    (htypes : ∀ n, typeOf? s'.types n = if n ∈ loop then some ty else typeOf? s.types n)
    (hnew : s'.diagnostics.toList = s.diagnostics.toList ++ [cycleReport entry]) :
    b.Accounts s s' [] [] := by
  have hfaults : (b.gained s s').flatMap b.faults = [] := by
    refine List.flatMap_eq_nil_iff.mpr fun other hother => ?_
    obtain ⟨hdeclared, hmem⟩ := (mem_gained hopen htypes).mp hother
    obtain ⟨target, htarget, hnext⟩ := hloop _ hmem
    obtain ⟨target', -, hnext'⟩ := hloop _ htarget
    obtain ⟨definition, hname, -⟩ := declared_of_next? hnext
    obtain ⟨definition', htarget', -⟩ := declared_of_next? hnext'
    have hown : other.2.definition = some definition :=
      (definition?_of_mem hnodup hdeclared).symm.trans hname
    rw [faults_of_next? hown hname hnext, unknownAt_of_definition? htarget']
  have hcycle : b.OnCycle entry.1 := by
    obtain ⟨target, htarget, hnext⟩ := hloop _ hfirst
    exact Relation.TransGen.head' hnext (hleads target htarget)
  refine ⟨keeps_settled htypes, [cycleReport entry], [entry], hnew, by simp [hfaults], ?_⟩
  refine ⟨by simpa using hentry, ?_, List.pairwise_singleton _ _, ?_⟩
  · simp [hcycle, Gains, hopen _ hfirst, htypes, hfirst]
  · rintro name - ⟨hnone, hsome⟩
    rw [htypes] at hsome
    split at hsome
    · next hmem => exact ⟨entry, List.mem_singleton_self entry, hleads name hmem⟩
    · simp [hnone] at hsome

end settling

end TypeBlock

end TigerLang

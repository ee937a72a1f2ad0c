import Decaf.Proofs.Scope.Lookup

/-!
# Tables over a history of calls

Tables are changed by two calls only: to open a scope, inside one that was opened before
or inside none, and to define a symbol in a scope that was opened before. A `Run` is any
sequence of such calls from empty tables, with what each of them answered.

What the tables say after a run is a function of the run. Every scope has the parent, the
line and the level that it was opened with, and of what was defined in it the first
definition of each name is a symbol and every other one is a duplicate (`Registers`). A
name is looked up along the parents, and the answer is the first definition of the name
in the nearest scope that has one (`Finds`), also if that definition came after the inner
scopes were opened.

The invariant is `Recorded`. It is kept by one call of either sort (`Recorded.push`,
`Recorded.define`), so it holds after any run (`Run.recorded`), and
`Run.registers_and_finds` reads everything else off it.
-/

namespace Decaf

/-! ## Positions in a scope -/

namespace Scope

/-- The positions of a scope are exactly those of its symbols, by name. -/
def Indexed (s : Scope) : Prop :=
  ∀ (x : String) (i : Nat), s.positions[x]? = some i ↔ ∃ y, s.symbols[i]? = some y ∧ y.name = x

/-- A new scope has no symbols and no positions. -/
theorem indexed_empty (parent : Option ScopeId) (level line : Nat) :
    (empty parent level line).Indexed := by
  intro x i
  simp [empty]

/-- Every symbol of a scope can be found by its name. -/
theorem Indexed.contains {s : Scope} (h : s.Indexed) {i : Nat} {y : Symbol}
    (hy : s.symbols[i]? = some y) : s.positions.contains y.name := by
  have hi : s.positions[y.name]? = some i := (h y.name i).mpr ⟨y, hy, rfl⟩
  rw [Std.TreeMap.contains_eq_isSome_getElem?, hi]
  rfl

/-- A new name gets the position behind the last symbol, and the others keep theirs. -/
theorem Indexed.define_fresh {s : Scope} (h : s.Indexed) (d : Declaration)
    (hd : ¬ s.positions.contains d.symbol.name) : (s.define d).Indexed := by
  intro x i
  unfold define
  rw [if_neg hd]
  show (s.positions.insert d.symbol.name s.symbols.size)[x]? = some i ↔
    ∃ y, (s.symbols.push { d.symbol with level := s.level })[i]? = some y ∧ y.name = x
  rw [Std.TreeMap.getElem?_insert, Array.getElem?_push]
  by_cases hi : i = s.symbols.size
  · rw [if_pos hi]
    by_cases hx : d.symbol.name = x
    · subst hx
      rw [if_pos Std.ReflCmp.compare_self, hi]
      exact ⟨fun _ => ⟨_, rfl, rfl⟩, fun _ => rfl⟩
    · rw [if_neg (by simpa using hx), h x i, hi, Array.getElem?_size]
      refine ⟨fun ⟨y, hy, _⟩ => (by cases hy), fun ⟨y, hy, hname⟩ => ?_⟩
      cases hy
      exact absurd hname hx
  · rw [if_neg hi]
    by_cases hx : d.symbol.name = x
    · rw [if_pos (by simpa using hx)]
      refine ⟨fun he => absurd (Option.some.inj he).symm hi, fun ⟨y, hy, hname⟩ => ?_⟩
      -- an older symbol of that name would have been there
      exact absurd (h.contains hy) (hname.trans hx.symm ▸ hd)
    · rw [if_neg (by simpa using hx)]
      exact h x i

/-- A definition keeps the positions in step with the symbols: a new name gets the position of its
symbol, and one that has a position keeps it. -/
theorem Indexed.define {s : Scope} (h : s.Indexed) (d : Declaration) : (s.define d).Indexed := by
  by_cases hd : s.positions.contains d.symbol.name
  · -- a duplicate leaves positions and symbols alone
    unfold Scope.define
    rw [if_pos hd]
    exact h
  · exact h.define_fresh d hd

/-- Two symbols of one name would have one position. -/
theorem Indexed.nodup {s : Scope} (h : s.Indexed) : (s.symbols.toList.map (·.name)).Nodup := by
  unfold List.Nodup
  rw [List.pairwise_map, List.pairwise_iff_getElem]
  intro i j hi hj hlt hname
  have hfst : s.positions[(s.symbols.toList[i]).name]? = some i :=
    (h _ i).mpr ⟨_, by simp, rfl⟩
  have hsnd : s.positions[(s.symbols.toList[i]).name]? = some j :=
    (h _ j).mpr ⟨s.symbols.toList[j], by simp, hname.symm⟩
  have heq : i = j := Option.some.inj (hfst.symm.trans hsnd)
  omega

end Scope

namespace Tables

/-! ## Calls and runs -/

/-- A call that was made on tables, and what it answered. -/
inductive Call where
  | push (parent : Option ScopeId) (line : Nat) (answer : ScopeId)
  | define (scope : ScopeId) (declared : Declaration) (answer : Option Clash)

/-- The scope that a call opened, if it opened one. -/
def Call.opened? : Call → Option ScopeId
  | push _ _ answer => some answer
  | define .. => none

/-- What a call defined in a scope, if it did. -/
def Call.declared? (id : ScopeId) : Call → Option Declaration
  | push .. => none
  | define scope d _ => if scope = id then some d else none

/-- The scopes that calls opened. -/
def opened (calls : List Call) : List ScopeId :=
  calls.filterMap Call.opened?

/-- What calls defined in a scope, in order, whether or not they succeeded. -/
def declaredIn (calls : List Call) (id : ScopeId) : List Declaration :=
  calls.filterMap (Call.declared? id)

/-- A sequence of calls from empty tables, and the tables after it. The scopes that a
call mentions were answered by earlier calls. -/
inductive Run : List Call → Tables → Prop
  | start : Run [] .empty
  | push {calls : List Call} {t : Tables} {parent : Option ScopeId} (line : Nat) :
    Run calls t → (∀ outer, parent = some outer → outer ∈ opened calls) →
    Run (calls ++ [.push parent line (t.push parent line).1]) (t.push parent line).2
  | define {calls : List Call} {t : Tables} {id : ScopeId} (d : Declaration) :
    Run calls t → id ∈ opened calls →
    Run (calls ++ [.define id d (t.define id d).1]) (t.define id d).2

theorem opened_push (calls : List Call) (parent : Option ScopeId) (line : Nat) (id : ScopeId) :
    opened (calls ++ [.push parent line id]) = opened calls ++ [id] := by
  unfold opened
  rw [List.filterMap_append]
  rfl

theorem opened_define (calls : List Call) (id : ScopeId) (d : Declaration)
    (answer : Option Clash) : opened (calls ++ [.define id d answer]) = opened calls := by
  unfold opened
  rw [List.filterMap_append]
  exact List.append_nil _

theorem declaredIn_push (calls : List Call) (parent : Option ScopeId) (line : Nat)
    (answer id : ScopeId) :
    declaredIn (calls ++ [.push parent line answer]) id = declaredIn calls id := by
  unfold declaredIn
  rw [List.filterMap_append]
  exact List.append_nil _

/-- A definition is the last of those in its scope. -/
theorem declaredIn_define (calls : List Call) (id : ScopeId) (d : Declaration)
    (answer : Option Clash) :
    declaredIn (calls ++ [.define id d answer]) id = declaredIn calls id ++ [d] := by
  unfold declaredIn
  rw [List.filterMap_append]
  simp [Call.declared?]

/-- A definition in one scope is none in another. -/
theorem declaredIn_define_ne (calls : List Call) {id other : ScopeId} (d : Declaration)
    (answer : Option Clash) (h : id ≠ other) :
    declaredIn (calls ++ [.define id d answer]) other = declaredIn calls other := by
  unfold declaredIn
  rw [List.filterMap_append]
  simp [Call.declared?, h]

/-! ## What one call does to the scopes -/

theorem push_size (t : Tables) (parent : Option ScopeId) (line : Nat) :
    (t.push parent line).2.size = t.size + 1 := by
  rw [push_eq]
  exact Array.size_push ..

/-- To open a scope leaves the others as they are. -/
theorem push_scope?_cases {t : Tables} {parent : Option ScopeId} {line : Nat} {id : ScopeId}
    {s : Scope} (h : (t.push parent line).2.scope? id = some s) :
    t.scope? id = some s ∨
      id = ⟨t.size⟩ ∧ s = .empty parent ((parent.bind t.scope?).elim 0 (·.level + 1)) line := by
  rw [push_eq] at h
  change (t.scopes.push _)[id.index]? = some s at h
  rw [Array.getElem?_push] at h
  split at h
  next hid =>
    right
    refine ⟨?_, (Option.some.inj h).symm⟩
    show id = ⟨t.scopes.size⟩
    rw [← hid]
  next => exact .inl h

/-- Opening a scope leaves the others as they are. -/
theorem push_scope?_old {t : Tables} {id : ScopeId} {s : Scope} (h : t.scope? id = some s)
    (parent : Option ScopeId) (line : Nat) : (t.push parent line).2.scope? id = some s := by
  have hne : id.index ≠ t.scopes.size := Nat.ne_of_lt (scope?_lt_size h)
  rw [push_eq]
  show (t.scopes.push _)[id.index]? = some s
  rw [Array.getElem?_push, if_neg hne]
  exact h

theorem define_size (t : Tables) (id : ScopeId) (d : Declaration) :
    (t.define id d).2.size = t.size :=
  Array.size_modify

/-- To define a symbol changes one scope. -/
theorem define_scope?_self (t : Tables) (id : ScopeId) (d : Declaration) :
    (t.define id d).2.scope? id = (t.scope? id).map (·.define d) := by
  show (t.scopes.modify id.index (·.define d))[id.index]? = _
  rw [Array.getElem?_modify, if_pos rfl]
  rfl

/-- A definition changes the scope that it is made in, and no other. -/
theorem define_scope?_ne (t : Tables) {id other : ScopeId} (d : Declaration) (h : id ≠ other) :
    (t.define id d).2.scope? other = t.scope? other := by
  have hne : id.index ≠ other.index := fun he => h (congrArg ScopeId.mk he)
  show (t.scopes.modify id.index (·.define d))[other.index]? = _
  rw [Array.getElem?_modify, if_neg hne]
  rfl

/-- Every scope of `t` is in `t'` too, at the same level. -/
def Keeps (t t' : Tables) : Prop :=
  ∀ id s, t.scope? id = some s → ∃ s', t'.scope? id = some s' ∧ s'.level = s.level

/-- Opening a scope leaves the others at their levels. -/
theorem push_keeps (t : Tables) (parent : Option ScopeId) (line : Nat) :
    t.Keeps (t.push parent line).2 :=
  fun _ s h => ⟨s, push_scope?_old h parent line, rfl⟩

/-- A definition leaves all scopes at their levels. -/
theorem define_keeps (t : Tables) (id : ScopeId) (d : Declaration) :
    t.Keeps (t.define id d).2 := by
  intro other s h
  by_cases hid : id = other
  · subst hid
    refine ⟨s.define d, ?_, s.define_level d⟩
    rw [define_scope?_self, h]
    rfl
  · exact ⟨s, (define_scope?_ne t d hid).trans h, rfl⟩

/-! ## The invariant -/

/-- A scope stands one level below its parent, which comes before it, and at the outermost
level if it has none. -/
structure Nested (t : Tables) (id : ScopeId) (s : Scope) : Prop where
  root : s.parent = none → s.level = 0
  inner : ∀ outer, s.parent = some outer → outer.index < id.index ∧
    ∃ around, t.scope? outer = some around ∧ s.level = around.level + 1

/-- A scope stays one level below its parent as long as both stay at their levels. -/
theorem Nested.keeps {t t' : Tables} {id : ScopeId} {s s' : Scope} (h : t.Nested id s)
    (ht : t.Keeps t') (hparent : s'.parent = s.parent) (hlevel : s'.level = s.level) :
    t'.Nested id s' := by
  refine ⟨fun hnone => ?_, fun outer houter => ?_⟩
  · rw [hlevel]
    exact h.root (hparent ▸ hnone)
  · obtain ⟨hlt, around, hfound, habove⟩ := h.inner outer (hparent ▸ houter)
    obtain ⟨around', hfound', hsame⟩ := ht outer around hfound
    exact ⟨hlt, around', hfound', by omega⟩

/-- What a scope is after calls: it was opened with its parent and its line, it is nested
properly, and it was filled with what was defined in it. -/
structure Made (calls : List Call) (t : Tables) (id : ScopeId) (s : Scope) : Prop where
  pushed : Call.push s.parent s.line id ∈ calls
  nested : t.Nested id s
  indexed : s.Indexed
  holds : s.Holds (declaredIn calls id)

/-- The tables record the calls: the scopes are those that were opened, nothing was defined
elsewhere, and each scope is what the calls made it. -/
structure Recorded (calls : List Call) (t : Tables) : Prop where
  opened_eq : opened calls = (List.range t.size).map ScopeId.mk
  elsewhere : ∀ id : ScopeId, t.size ≤ id.index → declaredIn calls id = []
  made : ∀ id s, t.scope? id = some s → Made calls t id s

/-- Before any call there are no scopes. -/
theorem recorded_empty : Recorded [] .empty where
  opened_eq := rfl
  elsewhere _ _ := rfl
  made id s h := by cases h

/-- The scopes that were opened are those with a number below the size of the tables. -/
theorem Recorded.mem_opened_iff {calls : List Call} {t : Tables} (h : Recorded calls t)
    {id : ScopeId} : id ∈ opened calls ↔ id.index < t.size := by
  rw [h.opened_eq, List.mem_map]
  constructor
  · intro hid
    obtain ⟨i, hi, rfl⟩ := hid
    exact List.mem_range.mp hi
  · intro hid
    exact ⟨id.index, List.mem_range.mpr hid, rfl⟩

/-- Every scope that was opened is there. -/
theorem Recorded.exists_scope {calls : List Call} {t : Tables} (h : Recorded calls t)
    {id : ScopeId} (hid : id ∈ opened calls) : ∃ s, t.scope? id = some s :=
  ⟨_, Array.getElem?_eq_getElem (h.mem_opened_iff.mp hid)⟩

/-- The scope that is opened is empty, and nested in the one that it is opened in. -/
theorem Recorded.made_new {calls : List Call} {t : Tables} (h : Recorded calls t)
    {parent : Option ScopeId} (line : Nat)
    (hparent : ∀ outer, parent = some outer → outer ∈ opened calls) :
    Made (calls ++ [.push parent line ⟨t.size⟩]) (t.push parent line).2 ⟨t.size⟩
      (.empty parent ((parent.bind t.scope?).elim 0 (·.level + 1)) line) where
  pushed := List.mem_append_right _ List.mem_cons_self
  nested := by
    refine ⟨fun hnone => ?_, fun outer houter => ?_⟩
    · change parent = none at hnone
      subst hnone
      rfl
    · change parent = some outer at houter
      subst houter
      have hmem := hparent outer rfl
      obtain ⟨around, hfound⟩ := h.exists_scope hmem
      refine ⟨h.mem_opened_iff.mp hmem, around, push_scope?_old hfound _ line, ?_⟩
      show ((some outer).bind t.scope?).elim 0 (·.level + 1) = around.level + 1
      rw [Option.bind_some, hfound, Option.elim_some]
  indexed := Scope.indexed_empty _ _ _
  holds := by
    rw [declaredIn_push, h.elsewhere ⟨t.size⟩ (Nat.le_refl _)]
    exact Scope.holds_empty ..

/-- To open a scope keeps the record. -/
theorem Recorded.push {calls : List Call} {t : Tables} (h : Recorded calls t)
    {parent : Option ScopeId} (line : Nat)
    (hparent : ∀ outer, parent = some outer → outer ∈ opened calls) :
    Recorded (calls ++ [.push parent line (t.push parent line).1]) (t.push parent line).2 where
  opened_eq := by
    rw [opened_push, h.opened_eq, push_size, List.range_succ, List.map_append]
    rfl
  elsewhere id hid := by
    rw [push_size] at hid
    rw [declaredIn_push]
    exact h.elsewhere id (by omega)
  made id s hs := by
    rcases push_scope?_cases hs with hold | ⟨hid, hnew⟩
    · have hmade := h.made id s hold
      refine ⟨List.mem_append_left _ hmade.pushed,
        hmade.nested.keeps (push_keeps t parent line) rfl rfl, hmade.indexed, ?_⟩
      rw [declaredIn_push]
      exact hmade.holds
    · subst hid hnew
      exact h.made_new line hparent

/-- To define a symbol keeps the record. -/
theorem Recorded.define {calls : List Call} {t : Tables} (h : Recorded calls t) {id : ScopeId}
    (d : Declaration) (hid : id ∈ opened calls) :
    Recorded (calls ++ [.define id d (t.define id d).1]) (t.define id d).2 where
  opened_eq := by
    rw [opened_define, define_size]
    exact h.opened_eq
  elsewhere other hother := by
    rw [define_size] at hother
    have hne : id ≠ other := by
      intro he
      subst he
      have hlt := h.mem_opened_iff.mp hid
      omega
    rw [declaredIn_define_ne calls d _ hne]
    exact h.elsewhere other hother
  made other s hs := by
    by_cases hne : id = other
    · subst hne
      obtain ⟨old, hold⟩ := h.exists_scope hid
      have hmade := h.made id old hold
      rw [define_scope?_self, hold] at hs
      cases hs
      refine ⟨?_, hmade.nested.keeps (define_keeps t id d) (old.define_parent d)
        (old.define_level d), hmade.indexed.define d, ?_⟩
      · rw [old.define_parent, old.define_line]
        exact List.mem_append_left _ hmade.pushed
      · rw [declaredIn_define]
        exact hmade.holds.define d
    · rw [define_scope?_ne t d hne] at hs
      have hmade := h.made other s hs
      refine ⟨List.mem_append_left _ hmade.pushed,
        hmade.nested.keeps (define_keeps t id d) rfl rfl, hmade.indexed, ?_⟩
      rw [declaredIn_define_ne calls d _ hne]
      exact hmade.holds

/-- The tables record every run. -/
theorem Run.recorded {calls : List Call} {t : Tables} (h : Run calls t) : Recorded calls t := by
  induction h with
  | start => exact recorded_empty
  | push line _ hparent ih => exact ih.push line hparent
  | define d _ hid ih => exact ih.define d hid

/-! ## What the tables say -/

/-- What a scope says of the calls: its parent and its line are those that it was opened
with; it is nested properly; its names are distinct, and its positions are those of its
symbols; its symbols, all at its level, are the first definitions of their names, and its
duplicates are the other definitions, both in the order of the calls. -/
structure Registers (calls : List Call) (t : Tables) (id : ScopeId) (s : Scope) : Prop where
  pushed : Call.push s.parent s.line id ∈ calls
  nested : t.Nested id s
  names : (s.symbols.toList.map (·.name)).Nodup
  positions : s.Indexed
  levels : ∀ y ∈ s.symbols.toList, y.level = s.level
  symbols : s.symbols.toList =
    (firsts (·.symbol.name) [] (declaredIn calls id)).map
      fun d => { d.symbol with level := s.level }
  duplicates : s.duplicates.toList =
    (repeated (·.symbol.name) [] (declaredIn calls id)).map
      fun d => ⟨d.symbol.name, d.symbol.line, d.span⟩

/-- What a scope registers is read off what it was filled with. -/
theorem Made.registers {calls : List Call} {t : Tables} {id : ScopeId} {s : Scope}
    (h : Made calls t id s) : Registers calls t id s where
  pushed := h.pushed
  nested := h.nested
  names := h.indexed.nodup
  positions := h.indexed
  levels y hy := by
    rw [h.holds.symbols_eq] at hy
    obtain ⟨d, _, rfl⟩ := List.mem_map.mp hy
    rfl
  symbols := h.holds.symbols_eq
  duplicates := h.holds.duplicates_eq

/-- What a name is found as from a scope: as its first definition in that scope; else as
what it is found as from the parent; and if there is no parent, as nothing. -/
inductive Finds (calls : List Call) (t : Tables) (x : String) : ScopeId → Option Symbol → Prop
  | here {id : ScopeId} {s : Scope} {d : Declaration} :
    t.scope? id = some s → (declaredIn calls id).find? (·.symbol.name == x) = some d →
    Finds calls t x id (some { d.symbol with level := s.level })
  | further {id outer : ScopeId} {s : Scope} {answer : Option Symbol} :
    t.scope? id = some s → (∀ d ∈ declaredIn calls id, d.symbol.name ≠ x) →
    s.parent = some outer → Finds calls t x outer answer → Finds calls t x id answer
  | nowhere {id : ScopeId} {s : Scope} :
    t.scope? id = some s → (∀ d ∈ declaredIn calls id, d.symbol.name ≠ x) →
    s.parent = none → Finds calls t x id none

/-- The chain of a scope goes on with that of its parent: it is never cut short. -/
theorem Nested.chain_eq {t : Tables} {id : ScopeId} {s : Scope} (h : t.Nested id s)
    (hs : t.scope? id = some s) : t.chain id = id :: s.parent.elim [] t.chain := by
  rw [chain, hs]
  cases hparent : s.parent with
  | none => simp only [hparent, Option.elim_none]
  | some outer =>
    have hlt := (h.inner outer hparent).1
    simp only [hparent, if_pos hlt, Option.elim_some]

/-- A name that a scope does not have is looked up from its parent. -/
theorem Nested.lookup_eq {t : Tables} {id : ScopeId} {s : Scope} (h : t.Nested id s)
    (hs : t.scope? id = some s) (x : String) :
    t.lookup id x = (s.find? x).or (s.parent.elim none (t.lookup · x)) := by
  have hhere : t.findIn? id x = s.find? x := by
    unfold findIn?
    rw [hs, Option.bind_some]
  unfold lookup
  rw [h.chain_eq hs, List.findSome?_cons, hhere]
  cases s.find? x with
  | some y => rfl
  | none => cases s.parent <;> rfl

/-- A look-up goes along the parents and ends, for these come earlier and earlier. -/
theorem Recorded.finds {calls : List Call} {t : Tables} (h : Recorded calls t) (x : String)
    (id : ScopeId) (hid : id ∈ opened calls) : Finds calls t x id (t.lookup id x) := by
  obtain ⟨s, hs⟩ := h.exists_scope hid
  have hmade := h.made id s hs
  rw [hmade.nested.lookup_eq hs, hmade.holds.find?_eq]
  cases hfound : (declaredIn calls id).find? (·.symbol.name == x) with
  | some d => exact .here hs hfound
  | none =>
    have hno : ∀ d ∈ declaredIn calls id, d.symbol.name ≠ x := by
      intro d hd he
      exact List.find?_eq_none.mp hfound d hd (beq_iff_eq.mpr he)
    cases hparent : s.parent with
    | none => exact .nowhere hs hno hparent
    | some outer =>
      obtain ⟨hlt, around, haround, _⟩ := hmade.nested.inner outer hparent
      have houter : outer ∈ opened calls := h.mem_opened_iff.mpr (scope?_lt_size haround)
      exact .further hs hno hparent (h.finds x outer houter)
termination_by id.index

/-- A definition is refused exactly if the scope was given one of that name before. -/
theorem Recorded.define_answer {calls : List Call} {t : Tables} (h : Recorded calls t)
    {id : ScopeId} (hid : id ∈ opened calls) (d : Declaration) :
    (t.define id d).1 =
      if d.symbol.name ∈ (declaredIn calls id).map (·.symbol.name) then some ⟨d.symbol.name⟩
      else none := by
  obtain ⟨s, hs⟩ := h.exists_scope hid
  have hiff := (h.made id s hs).holds.contains_iff d.symbol.name
  unfold Tables.define
  rw [hs]
  simp only [hiff]

/-- A refused definition adds a duplicate to its scope, and that is all. -/
theorem define_refused {t : Tables} {id : ScopeId} {d : Declaration} {clash : Clash}
    (h : (t.define id d).1 = some clash) :
    (t.define id d).2 = ⟨t.scopes.modify id.index fun s => { s with
      duplicates := s.duplicates.push ⟨d.symbol.name, d.symbol.line, d.span⟩ }⟩ := by
  -- only the scope at that position is asked, and it holds the name
  have hsame : ∀ s, t.scope? id = some s → s.define d = { s with
      duplicates := s.duplicates.push ⟨d.symbol.name, d.symbol.line, d.span⟩ } := by
    intro s hs
    unfold define at h
    rw [hs] at h
    by_cases hd : s.positions.contains d.symbol.name
    · unfold Scope.define
      rw [if_pos hd]
    · simp [hd] at h
  apply congrArg Tables.mk
  apply Array.ext_getElem?
  intro j
  rw [Array.getElem?_modify, Array.getElem?_modify]
  by_cases hj : id.index = j
  · subst hj
    rw [if_pos rfl, if_pos rfl]
    exact Option.map_congr hsame
  · rw [if_neg hj, if_neg hj]

/-- After any run, the scopes are the ones that were opened, numbered in that order, and
each of them registers what was done to it. A further definition is refused exactly if its
scope was given the name before, and then nothing but the duplicates of that scope is
changed. And a name is looked up along the parents, to its first definition in the nearest
scope that has one. -/
theorem Run.registers_and_finds {calls : List Call} {t : Tables} (h : Run calls t) :
    opened calls = (List.range t.size).map ScopeId.mk ∧
    (∀ id s, t.scope? id = some s → Registers calls t id s) ∧
    (∀ id ∈ opened calls, ∀ d : Declaration,
      ((t.define id d).1 =
        if d.symbol.name ∈ (declaredIn calls id).map (·.symbol.name) then some ⟨d.symbol.name⟩
        else none) ∧
      ((t.define id d).1.isSome →
        (t.define id d).2 = ⟨t.scopes.modify id.index fun s => { s with
          duplicates := s.duplicates.push ⟨d.symbol.name, d.symbol.line, d.span⟩ }⟩)) ∧
    ∀ id ∈ opened calls, ∀ x : String, Finds calls t x id (t.lookup id x) := by
  have hrec := h.recorded
  refine ⟨hrec.opened_eq, fun id s hs => (hrec.made id s hs).registers, fun id hid d => ?_,
    fun id hid x => hrec.finds x id hid⟩
  refine ⟨hrec.define_answer hid d, fun hsome => ?_⟩
  obtain ⟨clash, hclash⟩ := Option.isSome_iff_exists.mp hsome
  exact define_refused hclash

/-- A definition in the outer scope is seen from the inner one though it comes later, and
a second one is refused and changes nothing of that. -/
theorem late_definition_found :
    ∃ (calls : List Call) (t : Tables), Run calls t ∧ opened calls = [⟨0⟩, ⟨1⟩] ∧
      (t.define ⟨0⟩ ⟨⟨"x", .scalar, .bool, 0, 4⟩, .point 9⟩).1 = some ⟨"x"⟩ ∧
      t.lookup ⟨1⟩ "x" = some ⟨"x", .scalar, .int, 0, 3⟩ ∧
      Finds calls t "x" ⟨1⟩ (some ⟨"x", .scalar, .int, 0, 3⟩) := by
  have hroot : Run _ (Tables.empty.push none 1).2 := .push 1 .start fun _ h => by cases h
  have hinner : Run _ ((Tables.empty.push none 1).2.push (some ⟨0⟩) 2).2 :=
    .push 2 hroot fun outer h => by cases h; exact List.mem_cons_self
  have hrun : Run _ (((Tables.empty.push none 1).2.push (some ⟨0⟩) 2).2.define ⟨0⟩
      ⟨⟨"x", .scalar, .int, 0, 3⟩, .point 5⟩).2 := .define _ hinner List.mem_cons_self
  obtain ⟨_, _, hdefine, hfinds⟩ := hrun.registers_and_finds
  have hlookup := hfinds ⟨1⟩ (List.mem_cons_of_mem _ List.mem_cons_self) "x"
  have heval : (((Tables.empty.push none 1).2.push (some ⟨0⟩) 2).2.define ⟨0⟩
      ⟨⟨"x", .scalar, .int, 0, 3⟩, .point 5⟩).2.lookup ⟨1⟩ "x" =
        some ⟨"x", .scalar, .int, 0, 3⟩ := by
    decide +kernel
  rw [heval] at hlookup
  exact ⟨_, _, hrun, rfl, (hdefine ⟨0⟩ List.mem_cons_self _).1, heval, hlookup⟩

end Tables

end Decaf

import Decaf.Proofs.Scope.History

/-!
# Tables whose positions must be there

`Tables.push`, `Tables.define` and `Tables.lookup` give an answer for any scope, also for
one that the tables do not have. Here they are partial: to open a scope inside another,
to add to a scope and to look into it asks for a scope that is there, and the position that
a scope notes for a name must be that of a symbol. What does not hold ends in `none`.

Building a program never ends there. The induction over its tree carries that the tables
were made by calls (`Reached`): each call names a scope that an earlier one answered, so
that the tables have it, and the partial forms give what the total ones do
(`Program.withScopes_builds`, `Reached.resolve?_eq`).
-/

namespace Decaf

/-! ## Partial forms -/

/-- The symbol of a name in a scope, if it has one. A position that is noted must be that
of a symbol. -/
def Scope.entry? (s : Scope) (x : String) : Option (Option Symbol) :=
  match s.positions[x]? with
  | none => some none
  | some i => s.symbols[i]?.map some

namespace Tables

/-- The level of a scope at the outermost level, or inside a scope that must be there. -/
def levelIn? (t : Tables) : Option ScopeId → Option Nat
  | none => some 0
  | some outer => (t.scope? outer).map (·.level + 1)

/-- Opens a scope at the outermost level, or inside a scope that must be there. -/
def push? (t : Tables) (parent : Option ScopeId) (line : Nat) : Option (ScopeId × Tables) := do
  let level ← t.levelIn? parent
  return (⟨t.size⟩, ⟨t.scopes.push (.empty parent level line)⟩)

/-- Adds a declaration to a scope that must be there. -/
def define? (t : Tables) (id : ScopeId) (d : Declaration) : Option Tables :=
  (t.scope? id).map fun s => ⟨t.scopes.setIfInBounds id.index (s.define d)⟩

/-- Adds declarations to a scope that must be there, one after the other. -/
def defineAll? (t : Tables) (id : ScopeId) : List Declaration → Option Tables
  | [] => some t
  | d :: ds => do
    let defined ← t.define? id d
    defined.defineAll? id ds

/-- Opens a scope and fills it. -/
def openScope? (t : Tables) (parent : Option ScopeId) (line : Nat) (ds : List Declaration) :
    Option (ScopeId × Tables) := do
  let opened ← t.push? parent line
  let filled ← opened.2.defineAll? opened.1 ds
  return (opened.1, filled)

/-- The symbol of a name as seen from a scope, if there is one. The scope and those that
its parents name must be there, each before the one that names it. -/
def resolve? (t : Tables) (id : ScopeId) (x : String) : Option (Option Symbol) :=
  match t.scope? id with
  | none => none
  | some s =>
    match s.entry? x with
    | none => none
    | some (some y) => some (some y)
    | some none =>
      match s.parent with
      | none => some none
      | some outer => if outer.index < id.index then resolve? t outer x else none
termination_by id.index

end Tables

mutual

/-- Opens the scope of a block inside `parent`, and those of the blocks in it. -/
def Block.withScopes? (parent : ScopeId) : Block → Tables → Option (Block × Tables)
  | ⟨locals, statements, place, _⟩, t => do
    let opened ← t.openScope? (some parent) place.line (locals.map (·.declaration))
    let inner ← stmtsWithScopes? opened.1 statements opened.2
    return (⟨locals, inner.1, place, some opened.1⟩, inner.2)

/-- Opens the scopes of the blocks in a statement that stands in `scope`. -/
def Stmt.withScopes? (scope : ScopeId) : Stmt → Tables → Option (Stmt × Tables)
  | .conditional place test thenBlock none, t => do
    let a ← thenBlock.withScopes? scope t
    return (.conditional place test a.1 none, a.2)
  | .conditional place test thenBlock (some elseBlock), t => do
    let a ← thenBlock.withScopes? scope t
    let b ← elseBlock.withScopes? scope a.2
    return (.conditional place test a.1 (some b.1), b.2)
  | .loop place test body, t => do
    let a ← body.withScopes? scope t
    return (.loop place test a.1, a.2)
  | .block place block, t => do
    let a ← block.withScopes? scope t
    return (.block place a.1, a.2)
  | .assign place target value, t => some (.assign place target value, t)
  | .call place call, t => some (.call place call, t)
  | .ret place value, t => some (.ret place value, t)
  | .break place, t => some (.break place, t)
  | .continue place, t => some (.continue place, t)

/-- Opens the scopes of the blocks in a list of statements. -/
def stmtsWithScopes? (scope : ScopeId) : List Stmt → Tables → Option (List Stmt × Tables)
  | [], t => some ([], t)
  | s :: rest, t => do
    let a ← s.withScopes? scope t
    let b ← stmtsWithScopes? scope rest a.2
    return (a.1 :: b.1, b.2)

end

/-- Opens the scope of a function inside `parent`, and those of its blocks. -/
def Function.withScopes? (parent : ScopeId) (f : Function) (t : Tables) :
    Option (Function × Tables) := do
  let opened ← t.openScope? (some parent) f.place.line f.declarations
  let body ← f.body.withScopes? opened.1 opened.2
  return ({ f with body := body.1, scope := some opened.1 }, body.2)

/-- Opens the scopes of the functions of a program. -/
def functionsWithScopes? (parent : ScopeId) :
    List Function → Tables → Option (List Function × Tables)
  | [], t => some ([], t)
  | f :: rest, t => do
    let a ← f.withScopes? parent t
    let b ← functionsWithScopes? parent rest a.2
    return (a.1 :: b.1, b.2)

/-- The tables of a program, and the program with its scopes marked. -/
def Program.withScopes? (p : Program) : Option (Program × Tables) := do
  let opened ← Tables.empty.openScope? none p.place.line p.declarations
  let functions ← functionsWithScopes? opened.1 p.functions opened.2
  return ({ p with functions := functions.1, scope := some opened.1 }, functions.2)

/-! ## Tables that calls lead to -/

namespace Tables

/-- Tables that were made by calls. -/
def Reached (t : Tables) : Prop :=
  ∃ calls, Run calls t

variable {t : Tables} {id : ScopeId} {parent : Option ScopeId} {line : Nat}

theorem reached_empty : Reached .empty :=
  ⟨[], .start⟩

/-- Every scope of such tables is nested, and its positions are those of its symbols. -/
theorem Reached.sound {s : Scope} (h : t.Reached) (hs : t.scope? id = some s) :
    t.Nested id s ∧ s.Indexed := by
  obtain ⟨calls, hrun⟩ := h
  have hmade := hrun.recorded.made id s hs
  exact ⟨hmade.nested, hmade.indexed⟩

theorem exists_scope (hid : id.index < t.size) : ∃ s, t.scope? id = some s :=
  ⟨_, Array.getElem?_eq_getElem hid⟩

/-- A scope opened in one that is there leaves tables that were made by calls. -/
theorem Reached.push (h : t.Reached)
    (hparent : ∀ outer, parent = some outer → outer.index < t.size) :
    (t.push parent line).2.Reached := by
  obtain ⟨calls, hrun⟩ := h
  refine ⟨_, .push line hrun fun outer houter => ?_⟩
  exact hrun.recorded.mem_opened_iff.mpr (hparent outer houter)

/-- A symbol defined in a scope that is there leaves tables that were made by calls. -/
theorem Reached.define (h : t.Reached) (hid : id.index < t.size) (d : Declaration) :
    (t.define id d).2.Reached := by
  obtain ⟨calls, hrun⟩ := h
  exact ⟨_, .define d hrun (hrun.recorded.mem_opened_iff.mpr hid)⟩

/-! ## One call -/

/-- Opening a scope cannot fail if the one around it is there. -/
theorem push?_eq (hparent : ∀ outer, parent = some outer → outer.index < t.size) :
    t.push? parent line = some (t.push parent line) := by
  rw [push_eq]
  cases parent with
  | none => rfl
  | some outer =>
    obtain ⟨s, hs⟩ := exists_scope (hparent outer rfl)
    have hlevel : t.levelIn? (some outer) = some (s.level + 1) := by
      show (t.scope? outer).map (·.level + 1) = _
      rw [hs, Option.map_some]
    unfold push?
    rw [hlevel, Option.bind_some, hs]
    rfl

/-- Defining a symbol cannot fail in a scope that is there. -/
theorem define?_eq (hid : id.index < t.size) (d : Declaration) :
    t.define? id d = some (t.define id d).2 := by
  obtain ⟨s, hs⟩ := exists_scope hid
  unfold define?
  rw [hs, Option.map_some]
  refine congrArg (fun scopes => some (Tables.mk scopes)) (Array.ext_getElem? fun i => ?_)
  rw [Array.getElem?_modify, Array.getElem?_setIfInBounds]
  by_cases hi : id.index = i
  · subst hi
    have hfound : t.scopes[id.index]? = some s := hs
    have hlt : id.index < t.scopes.size := hid
    rw [if_pos rfl, if_pos rfl, if_pos hlt, hfound, Option.map_some]
  · rw [if_neg hi, if_neg hi]

/-- What partial building gives is what total building gives, and calls lead there. -/
structure Builds {α : Type} (attempt : Option (α × Tables)) (result : α × Tables) : Prop where
  eq : attempt = some result
  reached : result.2.Reached

/-- Defining one symbol after the other cannot fail either, as no scope goes away. -/
theorem defineAll?_eq (h : t.Reached) (hid : id.index < t.size) (ds : List Declaration) :
    t.defineAll? id ds = some (t.defineAll id ds) ∧ (t.defineAll id ds).Reached := by
  induction ds generalizing t with
  | nil => exact ⟨rfl, h⟩
  | cons d ds ih =>
    have hid' : id.index < (t.define id d).2.size := by
      rw [define_size]
      exact hid
    obtain ⟨heq, hreached⟩ := ih (h.define hid d) hid'
    refine ⟨?_, hreached⟩
    unfold defineAll?
    rw [define?_eq hid]
    exact heq

/-- A scope is opened and filled without a failure, inside a scope that is there. -/
theorem openScope_builds (h : t.Reached)
    (hparent : ∀ outer, parent = some outer → outer.index < t.size) (line : Nat)
    (ds : List Declaration) :
    Builds (t.openScope? parent line ds) (t.openScope parent line ds) := by
  have hid : (t.push parent line).1.index < (t.push parent line).2.size := by
    rw [push_size, push_eq]
    exact Nat.lt_succ_self _
  obtain ⟨heq, hreached⟩ := defineAll?_eq (h.push hparent) hid ds
  refine ⟨?_, hreached⟩
  unfold openScope?
  rw [push?_eq hparent]
  show (do
    let filled ← (t.push parent line).2.defineAll? (t.push parent line).1 ds
    return ((t.push parent line).1, filled)) = _
  rw [heq]
  rfl

/-- The scope that was opened is there. -/
theorem openScope_lt_size (t : Tables) (parent : Option ScopeId) (line : Nat)
    (ds : List Declaration) :
    (t.openScope parent line ds).1.index < (t.openScope parent line ds).2.size := by
  obtain ⟨s, heq, -⟩ := t.openScope_spec parent line ds
  rw [heq]
  show t.size < (t.scopes.push s).size
  rw [Array.size_push]
  exact Nat.lt_succ_self _

end Tables

/-! ## Along the tree -/

open Tables

theorem stmtsWithScopes_builds_of {ss : List Stmt}
    (h : ∀ x ∈ ss, ∀ (scope : ScopeId) (t : Tables), t.Reached → scope.index < t.size →
      Builds (x.withScopes? scope t) (x.withScopes scope t))
    {scope : ScopeId} {t : Tables} (ht : t.Reached) (hscope : scope.index < t.size) :
    Builds (stmtsWithScopes? scope ss t) (stmtsWithScopes scope ss t) := by
  induction ss generalizing t with
  | nil => exact ⟨rfl, ht⟩
  | cons x ss ih =>
    have hx := h x List.mem_cons_self scope t ht hscope
    have hgrows := (block_stmt_withScopes_extends.2 x scope t).size_le
    have hss := ih (fun y hy => h y (List.mem_cons_of_mem x hy)) hx.reached (by omega)
    refine ⟨?_, hss.reached⟩
    rw [stmtsWithScopes?, hx.eq, Option.bind_eq_bind, Option.bind_some, hss.eq]
    rfl

/-- Building a block or a statement inside a scope that is there never ends in `none`. -/
theorem block_stmt_withScopes_builds :
    (∀ (b : Block) (parent : ScopeId) (t : Tables), t.Reached → parent.index < t.size →
      Builds (b.withScopes? parent t) (b.withScopes parent t)) ∧
    ∀ (x : Stmt) (scope : ScopeId) (t : Tables), t.Reached → scope.index < t.size →
      Builds (x.withScopes? scope t) (x.withScopes scope t) := by
  refine Block.induction ?mk ?assign ?call ?ifThen ?ifElse ?loop ?ret ?brk ?cont ?inner
  case mk =>
    intro locals statements place scope ih parent t ht hparent
    have hopened := openScope_builds ht (fun outer h => Option.some.inj h ▸ hparent) place.line
      (locals.map (·.declaration))
    have hinner := stmtsWithScopes_builds_of ih hopened.reached
      (t.openScope_lt_size (some parent) place.line (locals.map (·.declaration)))
    refine ⟨?_, hinner.reached⟩
    rw [Block.withScopes?, hopened.eq, Option.bind_eq_bind, Option.bind_some, hinner.eq]
    rfl
  case ifThen =>
    intro place test b ihb scope t ht hscope
    have hb := ihb scope t ht hscope
    refine ⟨?_, hb.reached⟩
    rw [Stmt.withScopes?, hb.eq]
    rfl
  case ifElse =>
    intro place test b c ihb ihc scope t ht hscope
    have hb := ihb scope t ht hscope
    have hgrows := (block_stmt_withScopes_extends.1 b scope t).size_le
    have hc := ihc scope _ hb.reached (by omega)
    refine ⟨?_, hc.reached⟩
    rw [Stmt.withScopes?, hb.eq, Option.bind_eq_bind, Option.bind_some, hc.eq]
    rfl
  case loop =>
    intro place test b ihb scope t ht hscope
    have hb := ihb scope t ht hscope
    refine ⟨?_, hb.reached⟩
    rw [Stmt.withScopes?, hb.eq]
    rfl
  case inner =>
    intro place b ihb scope t ht hscope
    have hb := ihb scope t ht hscope
    refine ⟨?_, hb.reached⟩
    rw [Stmt.withScopes?, hb.eq]
    rfl
  all_goals
    intros
    rw [Stmt.withScopes?, Stmt.withScopes]
    exact ⟨rfl, by assumption⟩

/-- The scopes of a function are built without a failure. -/
theorem Function.withScopes_builds (f : Function) {parent : ScopeId} {t : Tables} (ht : t.Reached)
    (hparent : parent.index < t.size) :
    Builds (f.withScopes? parent t) (f.withScopes parent t) := by
  have hopened := openScope_builds ht (fun outer h => Option.some.inj h ▸ hparent) f.place.line
    f.declarations
  have hbody := block_stmt_withScopes_builds.1 f.body _ _ hopened.reached
    (t.openScope_lt_size (some parent) f.place.line f.declarations)
  refine ⟨?_, hbody.reached⟩
  rw [Function.withScopes?, hopened.eq, Option.bind_eq_bind, Option.bind_some, hbody.eq]
  rfl

/-- The scopes of functions in a row are built without a failure. -/
theorem functionsWithScopes_builds (fs : List Function) {parent : ScopeId} {t : Tables}
    (ht : t.Reached) (hparent : parent.index < t.size) :
    Builds (functionsWithScopes? parent fs t) (functionsWithScopes parent fs t) := by
  induction fs generalizing t with
  | nil => exact ⟨rfl, ht⟩
  | cons f fs ih =>
    have hf := f.withScopes_builds ht hparent
    have hgrows := (f.withScopes_extends parent t).size_le
    have hfs := ih hf.reached (by omega)
    refine ⟨?_, hfs.reached⟩
    rw [functionsWithScopes?, hf.eq, Option.bind_eq_bind, Option.bind_some, hfs.eq]
    rfl

/-- The tables of a program are built without a failure, and they are those that the total forms
build. -/
theorem Program.withScopes_builds (p : Program) : Builds p.withScopes? p.withScopes := by
  have houtermost : ∀ outer, (none : Option ScopeId) = some outer →
      outer.index < Tables.empty.size := fun _ h => by cases h
  have hopened := openScope_builds reached_empty houtermost p.place.line p.declarations
  have hfunctions := functionsWithScopes_builds p.functions hopened.reached
    (Tables.empty.openScope_lt_size none p.place.line p.declarations)
  refine ⟨?_, hfunctions.reached⟩
  rw [Program.withScopes?, hopened.eq, Option.bind_eq_bind, Option.bind_some, hfunctions.eq]
  rfl

/-! ## Look-ups -/

/-- The position noted for a name is that of a symbol, in a scope whose positions are those of its
symbols. -/
theorem Scope.Indexed.entry?_eq {s : Scope} (h : s.Indexed) (x : String) :
    s.entry? x = some (s.find? x) := by
  unfold Scope.entry? Scope.find?
  cases hx : s.positions[x]? with
  | none => rfl
  | some i =>
    obtain ⟨y, hy, -⟩ := (h x i).mp hx
    show s.symbols[i]?.map some = some (s.symbols[i]?)
    rw [hy]
    rfl

/-- A look-up from a scope that is there finds all that it needs. -/
theorem Tables.Reached.resolve?_eq {t : Tables} (h : t.Reached) (x : String) (id : ScopeId)
    (hid : id.index < t.size) : t.resolve? id x = some (t.lookup id x) := by
  obtain ⟨s, hs⟩ := exists_scope hid
  obtain ⟨hnested, hindexed⟩ := h.sound hs
  rw [resolve?, hs, hnested.lookup_eq hs]
  simp only [hindexed.entry?_eq x]
  cases s.find? x with
  | some y => rfl
  | none =>
    cases hparent : s.parent with
    | none => rfl
    | some outer =>
      obtain ⟨hlt, around, haround, -⟩ := hnested.inner outer hparent
      simp only [if_pos hlt]
      exact h.resolve?_eq x outer (scope?_lt_size haround)
termination_by id.index

end Decaf

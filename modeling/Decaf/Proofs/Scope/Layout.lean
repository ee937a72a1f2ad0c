import Decaf.Proofs.Scope.Lookup
import Decaf.Proofs.Syntax.Layout

/-!
# Scopes of two layouts

Tables record lines, and the spans of duplicates, but nothing that is done with them
depends on either. `Tables.onLines` forgets the spans and what does not count of the
lines, and everything commutes with it: building the scopes of a program
(`Program.withScopes_onLines`), and looking up a name (`Tables.lookup_onLines`). Only
the built-in functions ask for something: they stand on line zero, and that line has to
stay what it is.
-/

namespace Decaf

variable (keep : Nat → Nat)

/-! ## What is left of tables -/

/-- A symbol with what counts of its line. -/
def Symbol.onLines (keep : Nat → Nat) (s : Symbol) : Symbol :=
  { s with line := keep s.line }

/-- A duplicate with what counts of its line, and no span. -/
def Duplicate.onLines (keep : Nat → Nat) (d : Duplicate) : Duplicate :=
  ⟨d.name, keep d.line, .point 0⟩

/-- A declaration with what counts of its line, and no span. -/
def Declaration.onLines (keep : Nat → Nat) (d : Declaration) : Declaration :=
  ⟨d.symbol.onLines keep, .point 0⟩

/-- A scope with what counts of its lines, and no spans. -/
def Scope.onLines (keep : Nat → Nat) (s : Scope) : Scope :=
  { s with
    symbols := s.symbols.map (·.onLines keep)
    duplicates := s.duplicates.map (·.onLines keep)
    line := keep s.line }

/-- Tables with what counts of their lines, and no spans. -/
def Tables.onLines (keep : Nat → Nat) (t : Tables) : Tables :=
  ⟨t.scopes.map (·.onLines keep)⟩

/-! ## Declarations -/

theorem declarations_onLines (ds : List VarDecl) :
    (ds.map (·.relabel (.onLines keep))).map (·.declaration) =
      (ds.map (·.declaration)).map (·.onLines keep) := by
  rw [List.map_map, List.map_map]
  rfl

/-- What a function declares itself as says its types and its line, and only the line moves. -/
theorem Function.declaration_onLines (f : Function) :
    (f.relabel (.onLines keep)).declaration = f.declaration.onLines keep := by
  have htypes : (f.relabel (.onLines keep)).paramTypes = f.paramTypes := by
    show (f.params.map _).map _ = f.params.map _
    rw [List.map_map]
    rfl
  rw [Function.declaration, htypes]
  rfl

theorem Function.declarations_onLines (f : Function) :
    (f.relabel (.onLines keep)).declarations = f.declarations.map (·.onLines keep) := by
  show (f.params.map _).map _ = (f.params.map _).map _
  rw [List.map_map, List.map_map]
  rfl

/-- The built-in functions stand on line zero, so they stay where that line does. -/
theorem builtins_onLines (hkeep : keep 0 = 0) : builtins.map (·.onLines keep) = builtins := by
  simp [builtins, Declaration.onLines, Symbol.onLines, hkeep]

/-- The names of a program move with it, except for those that are built in. -/
theorem Program.declarations_onLines (hkeep : keep 0 = 0) (p : Program) :
    (p.relabel (.onLines keep)).declarations = p.declarations.map (·.onLines keep) := by
  have hfunctions : (p.functions.map (·.relabel (.onLines keep))).map (·.declaration) =
      (p.functions.map (·.declaration)).map (·.onLines keep) := by
    rw [List.map_map, List.map_map]
    exact List.map_congr_left fun f _ => f.declaration_onLines keep
  show builtins ++ (p.globals.map _).map _ ++ (p.functions.map _).map _ = _
  rw [hfunctions, Decaf.declarations_onLines, Program.declarations, List.map_append,
    List.map_append, builtins_onLines keep hkeep]

/-! ## Operations on tables -/

/-- Whether a name is new to a scope does not depend on lines. -/
theorem Scope.define_onLines (s : Scope) (d : Declaration) :
    (s.define d).onLines keep = (s.onLines keep).define (d.onLines keep) := by
  have hcontains : (s.onLines keep).positions.contains (d.onLines keep).symbol.name =
      s.positions.contains d.symbol.name := rfl
  -- positions go by name, so both sides take the same branch
  rw [Scope.define, Scope.define, hcontains]
  split
  · simp only [Scope.onLines, Array.map_push]
    rfl
  · simp only [Scope.onLines, Array.map_push, Array.size_map]
    rfl

namespace Tables

theorem scope?_onLines (t : Tables) (id : ScopeId) :
    (t.onLines keep).scope? id = (t.scope? id).map (·.onLines keep) :=
  Array.getElem?_map ..

/-- A new scope gets the same number, wherever it begins. -/
theorem push_onLines (t : Tables) (parent : Option ScopeId) (line : Nat) :
    (t.onLines keep).push parent (keep line) =
      ((t.push parent line).1, (t.push parent line).2.onLines keep) := by
  have hlevel : ((parent.bind (t.onLines keep).scope?).elim 0 (·.level + 1)) =
      ((parent.bind t.scope?).elim 0 (·.level + 1)) := by
    cases parent with
    | none => rfl
    | some id =>
      rw [Option.bind_some, Option.bind_some, scope?_onLines]
      cases t.scope? id <;> rfl
  have hempty : ∀ level, (Scope.empty parent level line).onLines keep =
      Scope.empty parent level (keep line) := by
    intro level
    simp [Scope.onLines, Scope.empty]
  rw [push_eq, push_eq, hlevel]
  simp only [onLines, size, Array.size_map, Array.map_push, hempty]

/-- Defining a symbol and moving to other lines can be done in either order. -/
theorem define_onLines (t : Tables) (id : ScopeId) (d : Declaration) :
    ((t.onLines keep).define id (d.onLines keep)).2 = (t.define id d).2.onLines keep := by
  show Tables.mk ((t.scopes.map (·.onLines keep)).modify id.index (·.define (d.onLines keep))) =
    Tables.mk ((t.scopes.modify id.index (·.define d)).map (·.onLines keep))
  congr 1
  apply Array.ext_getElem?
  intro i
  rw [Array.getElem?_modify, Array.getElem?_map, Array.getElem?_map, Array.getElem?_modify]
  split
  · rw [Option.map_map, Option.map_map]
    congr 1
    funext s
    exact (s.define_onLines keep d).symm
  · rfl

/-- So can defining one symbol after the other. -/
theorem defineAll_onLines (t : Tables) (id : ScopeId) (ds : List Declaration) :
    (t.onLines keep).defineAll id (ds.map (·.onLines keep)) =
      (t.defineAll id ds).onLines keep := by
  induction ds generalizing t with
  | nil => rfl
  | cons d ds ih =>
    show ((t.onLines keep).define id (d.onLines keep)).2.defineAll id (ds.map _) = _
    rw [define_onLines, ih]
    rfl

/-- Opening a scope with all that it declares gives the same number, and the same tables moved. -/
theorem openScope_onLines (t : Tables) (parent : Option ScopeId) (line : Nat)
    (ds : List Declaration) :
    (t.onLines keep).openScope parent (keep line) (ds.map (·.onLines keep)) =
      ((t.openScope parent line ds).1, (t.openScope parent line ds).2.onLines keep) := by
  rw [openScope, push_onLines, openScope, defineAll_onLines]

/-- Opening the scope of a construct that was relabelled. -/
theorem openScope_relabel (t : Tables) (parent : Option ScopeId) (p : Place)
    {ds ds' : List Declaration} (hds : ds' = ds.map (·.onLines keep)) :
    (t.onLines keep).openScope parent ((Relabel.onLines keep).place p).line ds' =
      ((t.openScope parent p.line ds).1, (t.openScope parent p.line ds).2.onLines keep) := by
  rw [hds]
  exact t.openScope_onLines keep parent p.line ds

/-- The scopes around a scope are told by their parents, which are not moved. -/
theorem chain_onLines (t : Tables) (id : ScopeId) : (t.onLines keep).chain id = t.chain id := by
  fun_induction Tables.chain t id with
  | case1 id hnone =>
    rw [chain, scope?_onLines, hnone]
    rfl
  | case2 id s hs hparent =>
    rw [chain, scope?_onLines, hs]
    simp only [Option.map_some, Scope.onLines, hparent]
  | case3 id s hs parent hparent hlt ih =>
    rw [chain, scope?_onLines, hs]
    simp only [Option.map_some, Scope.onLines, hparent, if_pos hlt, ih]
  | case4 id s hs parent hparent hge =>
    rw [chain, scope?_onLines, hs]
    simp only [Option.map_some, Scope.onLines, hparent, if_neg hge]

/-- A name is found in the same scope as the same symbol, moved. -/
theorem findIn?_onLines (t : Tables) (id : ScopeId) (x : String) :
    (t.onLines keep).findIn? id x = (t.findIn? id x).map (·.onLines keep) := by
  have hfind : ∀ s : Scope, (s.onLines keep).find? x = (s.find? x).map (·.onLines keep) := by
    intro s
    show s.positions[x]?.bind ((s.symbols.map _)[·]?) = (s.positions[x]?.bind (s.symbols[·]?)).map _
    cases s.positions[x]? with
    | none => rfl
    | some i => exact Array.getElem?_map ..
  rw [findIn?, scope?_onLines, findIn?]
  cases t.scope? id with
  | none => rfl
  | some s => exact hfind s

/-- A name stands for the same symbol, up to its line. -/
theorem lookup_onLines (t : Tables) (id : ScopeId) (x : String) :
    (t.onLines keep).lookup id x = (t.lookup id x).map (·.onLines keep) := by
  rw [lookup, lookup, chain_onLines, List.map_findSome?]
  congr 1
  funext s
  exact t.findIn?_onLines keep s x

end Tables

/-! ## Building -/

theorem stmtsWithScopes_onLines_of {ss : List Stmt}
    (h : ∀ s ∈ ss, ∀ scope t, (s.relabel (.onLines keep)).withScopes scope (t.onLines keep) =
      ((s.withScopes scope t).1.relabel (.onLines keep), (s.withScopes scope t).2.onLines keep))
    (scope : ScopeId) (t : Tables) :
    stmtsWithScopes scope (relabelStmts (.onLines keep) ss) (t.onLines keep) =
      (relabelStmts (.onLines keep) (stmtsWithScopes scope ss t).1,
        (stmtsWithScopes scope ss t).2.onLines keep) := by
  induction ss generalizing t with
  | nil => rfl
  | cons s ss ih =>
    rw [relabelStmts, stmtsWithScopes, h s List.mem_cons_self,
      ih fun s' hs => h s' (List.mem_cons_of_mem s hs)]
    rfl

/-- The scopes of a statement are built alike on other lines: the same numbers are written into
it, and the same tables come of it, moved. -/
theorem block_stmt_withScopes_onLines :
    (∀ (b : Block) (scope : ScopeId) (t : Tables),
      (b.relabel (.onLines keep)).withScopes scope (t.onLines keep) =
        ((b.withScopes scope t).1.relabel (.onLines keep),
          (b.withScopes scope t).2.onLines keep)) ∧
    ∀ (s : Stmt) (scope : ScopeId) (t : Tables),
      (s.relabel (.onLines keep)).withScopes scope (t.onLines keep) =
        ((s.withScopes scope t).1.relabel (.onLines keep),
          (s.withScopes scope t).2.onLines keep) := by
  refine Block.induction ?mk ?assign ?call ?ifThen ?ifElse ?loop ?ret ?brk ?cont ?inner
  case mk =>
    intro locals statements p scope ih parent t
    have hopen := t.openScope_relabel keep (some parent) p (declarations_onLines keep locals)
    rw [Block.relabel, Block.withScopes, hopen]
    dsimp only
    rw [stmtsWithScopes_onLines_of keep ih]
    rfl
  case assign => exact fun p target value scope t => rfl
  case call => exact fun p e scope t => rfl
  case ifThen =>
    intro p test b ihb scope t
    rw [Stmt.relabel, Stmt.withScopes, ihb]
    rfl
  case ifElse =>
    intro p test b c ihb ihc scope t
    rw [Stmt.relabel, Stmt.withScopes, ihb, ihc]
    rfl
  case loop =>
    intro p test b ihb scope t
    rw [Stmt.relabel, Stmt.withScopes, ihb]
    rfl
  case ret => exact fun p value scope t => rfl
  case brk => exact fun p scope t => rfl
  case cont => exact fun p scope t => rfl
  case inner =>
    intro p b ihb scope t
    rw [Stmt.relabel, Stmt.withScopes, ihb]
    rfl

/-- The scopes of functions are built alike on other lines. -/
theorem functionsWithScopes_onLines (fs : List Function) (parent : ScopeId) (t : Tables) :
    functionsWithScopes parent (fs.map (·.relabel (.onLines keep))) (t.onLines keep) =
      ((functionsWithScopes parent fs t).1.map (·.relabel (.onLines keep)),
        (functionsWithScopes parent fs t).2.onLines keep) := by
  have one : ∀ (f : Function) (t : Tables),
      (f.relabel (.onLines keep)).withScopes parent (t.onLines keep) =
        ((f.withScopes parent t).1.relabel (.onLines keep),
          (f.withScopes parent t).2.onLines keep) := by
    intro f t
    have hopen := t.openScope_relabel keep (some parent) f.place (f.declarations_onLines keep)
    have hbody := (block_stmt_withScopes_onLines keep).1 f.body
    obtain ⟨name, ty, ps, body, place, scope⟩ := f
    rw [Function.withScopes, Function.relabel]
    rw [Function.relabel] at hopen
    dsimp only at hopen hbody ⊢
    rw [hopen, hbody]
    rfl
  induction fs generalizing t with
  | nil => rfl
  | cons f fs ih =>
    rw [List.map_cons, functionsWithScopes, one, ih]
    rfl

/-- The scopes of a program are built without looking at its places. -/
theorem Program.withScopes_onLines (hkeep : keep 0 = 0) (p : Program) :
    (p.relabel (.onLines keep)).withScopes =
      (p.withScopes.1.relabel (.onLines keep), p.withScopes.2.onLines keep) := by
  have hempty : Tables.empty = Tables.empty.onLines keep := by simp [Tables.onLines, Tables.empty]
  have hopen := Tables.empty.openScope_relabel keep none p.place (p.declarations_onLines keep hkeep)
  rw [← hempty] at hopen
  obtain ⟨globals, functions, place, scope⟩ := p
  rw [Program.withScopes, Program.relabel]
  rw [Program.relabel] at hopen
  dsimp only at hopen ⊢
  rw [hopen, functionsWithScopes_onLines]
  rfl

end Decaf

import Decaf.Proofs.Scope.Lookup

/-!
# The tables of a program mirror its tree

The tables that are built for a program have one scope for each construct that opens
one: the program, its functions, and all blocks, however deep. `Program.sites` lists
these constructs as they stand in the tree, each before the ones inside it, together
with what the tree says about them: the scope that is written into the construct, the
scopes written into the constructs around it, its line, and what it declares.

The main statement (`Program.withScopes_mirrors`) reads the tables off this list. The
scopes are numbered in the order of the sites; a scope has the scope of the next
construct around as its parent, the number of constructs around as its level, the first
declarations of its names as symbols, and the other declarations as duplicates.

The induction is on the tree, and what it carries is `Grown`: from some tables to others
exactly the scopes of a list of sites were added at the end.
-/

namespace Decaf

/-! ## What the tree says -/

/-- A variable as it is declared at a level. -/
def VarDecl.declaredAt (level : Nat) (d : VarDecl) : Declaration :=
  ⟨⟨d.name, d.length.elim .scalar .array, d.type, level, d.place.line⟩, d.place.span⟩

/-- A parameter as it is declared at a level. -/
def Param.declaredAt (level : Nat) (p : Param) : Declaration :=
  ⟨⟨p.name, .scalar, p.type, level, p.place.line⟩, p.place.span⟩

/-- A function as it is declared at the outermost level. -/
def Function.declared (f : Function) : Declaration :=
  ⟨⟨f.name, .function (f.params.map (·.type)), f.returnType, 0, f.place.line⟩, f.place.span⟩

/-- The functions that are there without being declared. -/
def builtinsDeclared : List Declaration :=
  [⟨⟨"print_int", .function [.int], .void, 0, 0⟩, .point 0⟩,
    ⟨⟨"print_bool", .function [.bool], .void, 0, 0⟩, .point 0⟩,
    ⟨⟨"print_str", .function [.str], .void, 0, 0⟩, .point 0⟩]

/-- A construct that opens a scope: the scope that is written into it, those of the
constructs around it from the inside out, its line, and what it declares. -/
structure Site where
  scope : Option ScopeId
  outer : List (Option ScopeId)
  line : Nat
  declared : List Declaration

mutual

/-- The sites of a block inside others: the block itself, then those in it. -/
def Block.sites (outer : List (Option ScopeId)) : Block → List Site
  | ⟨locals, statements, place, scope⟩ =>
    ⟨scope, outer, place.line, locals.map (·.declaredAt outer.length)⟩ ::
      stmtsSites (scope :: outer) statements

/-- The sites in a statement. -/
def Stmt.sites (outer : List (Option ScopeId)) : Stmt → List Site
  | .conditional _ _ b none => b.sites outer
  | .conditional _ _ b (some c) => b.sites outer ++ c.sites outer
  | .loop _ _ b => b.sites outer
  | .block _ b => b.sites outer
  | .assign .. | .call .. | .ret .. | .break _ | .continue _ => []

/-- The sites in statements. -/
def stmtsSites (outer : List (Option ScopeId)) : List Stmt → List Site
  | [] => []
  | s :: ss => s.sites outer ++ stmtsSites outer ss

end

/-- The sites of a function: the function itself, then those of its body. -/
def Function.sites (outer : List (Option ScopeId)) (f : Function) : List Site :=
  ⟨f.scope, outer, f.place.line, f.params.map (·.declaredAt outer.length)⟩ ::
    f.body.sites (f.scope :: outer)

/-- The sites of a program: the program itself, then those of its functions. -/
def Program.sites (p : Program) : List Site :=
  ⟨p.scope, [], p.place.line,
    builtinsDeclared ++ p.globals.map (·.declaredAt 0) ++ p.functions.map (·.declared)⟩ ::
      p.functions.flatMap (·.sites [p.scope])

mutual

/-- The number of blocks in a block, itself included. -/
def Block.blocks : Block → Nat
  | ⟨_, statements, _, _⟩ => 1 + stmtsBlocks statements

/-- The number of blocks in a statement. -/
def Stmt.blocks : Stmt → Nat
  | .conditional _ _ b none => b.blocks
  | .conditional _ _ b (some c) => b.blocks + c.blocks
  | .loop _ _ b => b.blocks
  | .block _ b => b.blocks
  | .assign .. | .call .. | .ret .. | .break _ | .continue _ => 0

/-- The number of blocks in statements. -/
def stmtsBlocks : List Stmt → Nat
  | [] => 0
  | s :: ss => s.blocks + stmtsBlocks ss

end

/-- The number of blocks in functions. -/
def functionsBlocks : List Function → Nat
  | [] => 0
  | f :: fs => f.body.blocks + functionsBlocks fs

/-- The scope `s`, found under `id`, says of a site what the tree says. -/
structure Site.Mirrored (t : Tables) (site : Site) (id : ScopeId) (s : Scope) : Prop where
  carried : site.scope = some id
  found : t.scope? id = some s
  parent : s.parent = site.outer.head?.join
  level : s.level = site.outer.length
  line : s.line = site.line
  symbols : s.symbols.toList = (firsts (·.symbol.name) [] site.declared).map (·.symbol)
  duplicates : s.duplicates.toList =
    (repeated (·.symbol.name) [] site.declared).map fun d => ⟨d.symbol.name, d.symbol.line, d.span⟩

/-! ## Declarations at a level -/

/-- Puts a declaration at a level. -/
def Declaration.atLevel (level : Nat) (d : Declaration) : Declaration :=
  { d with symbol := { d.symbol with level := level } }

/-- A variable is entered at the level of its scope with what its declaration says. -/
theorem VarDecl.declaration_atLevel (level : Nat) (d : VarDecl) :
    d.declaration.atLevel level = d.declaredAt level := by
  obtain ⟨name, type, length, place⟩ := d
  cases length <;> rfl

theorem declarations_atLevel (level : Nat) (ds : List VarDecl) :
    (ds.map (·.declaration)).map (·.atLevel level) = ds.map (·.declaredAt level) := by
  rw [List.map_map]
  exact List.map_congr_left fun d _ => d.declaration_atLevel level

theorem Function.declarations_atLevel (level : Nat) (f : Function) :
    f.declarations.map (·.atLevel level) = f.params.map (·.declaredAt level) := by
  rw [Function.declarations, List.map_map]
  rfl

/-- At level zero stand the built-in functions, then the variables, then the functions of the
program. -/
theorem Program.declarations_atLevel (p : Program) :
    p.declarations.map (·.atLevel 0) =
      builtinsDeclared ++ p.globals.map (·.declaredAt 0) ++ p.functions.map (·.declared) := by
  rw [Program.declarations, List.map_append, List.map_append, Decaf.declarations_atLevel,
    List.map_map]
  rfl

/-- What a scope holds, in terms of declarations that are at its level already. -/
theorem Scope.Holds.mirrored {t : Tables} {id : ScopeId} {s : Scope} {ds : List Declaration}
    {site : Site} (h : s.Holds ds) (hid : site.scope = some id) (hs : t.scope? id = some s)
    (hparent : s.parent = site.outer.head?.join) (hlevel : s.level = site.outer.length)
    (hline : s.line = site.line)
    (hdeclared : ds.map (·.atLevel site.outer.length) = site.declared) :
    site.Mirrored t id s := by
  refine ⟨hid, hs, hparent, hlevel, hline, ?_, ?_⟩
  · rw [h.symbols_eq, ← hdeclared, firsts_map, List.map_map, hlevel]
    rfl
  · rw [h.duplicates_eq, ← hdeclared, repeated_map, List.map_map]
    rfl

/-- What the tables say about a site stays when they grow. -/
theorem Site.Mirrored.extends {t t' : Tables} {site : Site} {id : ScopeId} {s : Scope}
    (h : site.Mirrored t id s) (ht : t.Extends t') : site.Mirrored t' id s := by
  exact { h with found := (ht.scope?_eq (Tables.scope?_lt_size h.found)).trans h.found }

/-! ## Growing by sites -/

namespace Tables

/-- From `t` to `t'` the scopes of `n` sites were added, in order. -/
structure Grown (t t' : Tables) (sites : List Site) (n : Nat) : Prop where
  grows : t.Extends t'
  size : t'.size = t.size + n
  scopes : sites.map (·.scope) = (List.range' t.size n).map fun i => some ⟨i⟩
  mirrored : ∀ site ∈ sites, ∃ id s, site.Mirrored t' id s

theorem Grown.refl (t : Tables) : t.Grown t [] 0 :=
  ⟨.refl t, rfl, rfl, fun _ h => absurd h List.not_mem_nil⟩

/-- Tables that grow by some sites and then by others grow by all of them, numbered on. -/
theorem Grown.append {t t' t'' : Tables} {xs ys : List Site} {m n : Nat}
    (h : t.Grown t' xs m) (h' : t'.Grown t'' ys n) : t.Grown t'' (xs ++ ys) (m + n) where
  grows := h.grows.trans h'.grows
  size := by rw [h'.size, h.size, Nat.add_assoc]
  scopes := by
    rw [List.map_append, h.scopes, h'.scopes, h.size, ← List.map_append, List.range'_append_1]
  mirrored site hsite := by
    rcases List.mem_append.mp hsite with hsite | hsite
    · obtain ⟨id, s, hs⟩ := h.mirrored site hsite
      exact ⟨id, s, hs.extends h'.grows⟩
    · exact h'.mirrored site hsite

/-- A scope stands under as many others as the list has. -/
def Stands (t : Tables) (id : ScopeId) (outer : List (Option ScopeId)) : Prop :=
  ∃ s, t.scope? id = some s ∧ s.level = outer.length

/-- Where a scope stands does not change when the tables grow. -/
theorem Stands.extends {t t' : Tables} {id : ScopeId} {outer : List (Option ScopeId)}
    (h : t.Stands id outer) (ht : t.Extends t') : t'.Stands id outer := by
  obtain ⟨s, hs, hlevel⟩ := h
  exact ⟨s, (ht.scope?_eq (scope?_lt_size hs)).trans hs, hlevel⟩

/-- To open a scope is to grow by one site. -/
theorem openScope_grown (t : Tables) (outer : List (Option ScopeId)) (line : Nat)
    (ds : List Declaration) {declared : List Declaration}
    (houter : ∀ parent rest, outer = parent :: rest →
      ∃ id, parent = some id ∧ t.Stands id rest)
    (hdeclared : ds.map (·.atLevel outer.length) = declared) :
    t.Grown (t.openScope outer.head?.join line ds).2
        [⟨some (t.openScope outer.head?.join line ds).1, outer, line, declared⟩] 1 ∧
      (t.openScope outer.head?.join line ds).2.Stands (t.openScope outer.head?.join line ds).1
        outer := by
  obtain ⟨s, heq, hlevel, hparent, hline, hholds⟩ := t.openScope_spec outer.head?.join line ds
  have hextends := t.openScope_extends outer.head?.join line ds
  rw [heq] at hextends ⊢
  have hfound : (⟨t.scopes.push s⟩ : Tables).scope? ⟨t.size⟩ = some s := Array.getElem?_push_size
  -- the level is one more than the parent's, and the parent stands under one scope less
  have hlevel' : s.level = outer.length := by
    rw [hlevel]
    cases outer with
    | nil => rfl
    | cons parent rest =>
      obtain ⟨id, rfl, s', hs', hrest⟩ := houter parent rest rfl
      show (t.scope? id).elim 0 (·.level + 1) = rest.length + 1
      rw [hs', Option.elim_some, hrest]
  refine ⟨⟨hextends, ?_, rfl, fun site hsite => ?_⟩, s, hfound, hlevel'⟩
  · exact Array.size_push ..
  · rw [List.mem_singleton.mp hsite]
    exact ⟨_, s, hholds.mirrored rfl hfound hparent hlevel' hline hdeclared⟩

end Tables

/-! ## Along the tree -/

open Tables

theorem stmtsWithScopes_grown_of {ss : List Stmt}
    (h : ∀ x ∈ ss, ∀ (scope : ScopeId) (outer : List (Option ScopeId)) (t : Tables),
      t.Stands scope outer →
      t.Grown (x.withScopes scope t).2 ((x.withScopes scope t).1.sites (some scope :: outer))
        x.blocks)
    {scope : ScopeId} {outer : List (Option ScopeId)} {t : Tables} (ht : t.Stands scope outer) :
    t.Grown (stmtsWithScopes scope ss t).2
      (stmtsSites (some scope :: outer) (stmtsWithScopes scope ss t).1) (stmtsBlocks ss) := by
  induction ss generalizing t with
  | nil => exact .refl t
  | cons x ss ih =>
    have hx := h x List.mem_cons_self scope outer t ht
    exact hx.append (ih (fun y hy => h y (List.mem_cons_of_mem x hy)) (ht.extends hx.grows))

/-- Going through a block or a statement adds exactly the scopes of its sites. -/
theorem block_stmt_withScopes_grown :
    (∀ (b : Block) (parent : ScopeId) (outer : List (Option ScopeId)) (t : Tables),
      t.Stands parent outer →
      t.Grown (b.withScopes parent t).2 ((b.withScopes parent t).1.sites (some parent :: outer))
        b.blocks) ∧
    ∀ (x : Stmt) (scope : ScopeId) (outer : List (Option ScopeId)) (t : Tables),
      t.Stands scope outer →
      t.Grown (x.withScopes scope t).2 ((x.withScopes scope t).1.sites (some scope :: outer))
        x.blocks := by
  refine Block.induction ?mk ?assign ?call ?ifThen ?ifElse ?loop ?ret ?brk ?cont ?inner
  case mk =>
    intro locals statements place scope ih parent outer t ht
    rw [Block.withScopes, Block.sites, Block.blocks]
    obtain ⟨hopened, hstands⟩ := t.openScope_grown (some parent :: outer) place.line
      (locals.map (·.declaration))
      (fun _ _ h => by cases h; exact ⟨parent, rfl, ht⟩) (declarations_atLevel _ locals)
    -- the new scope is the parent of everything inside the block
    exact hopened.append (stmtsWithScopes_grown_of ih hstands)
  case ifThen =>
    intro place test b ihb scope outer t ht
    rw [Stmt.withScopes, Stmt.sites, Stmt.blocks]
    exact ihb scope outer t ht
  case ifElse =>
    intro place test b c ihb ihc scope outer t ht
    rw [Stmt.withScopes, Stmt.sites, Stmt.blocks]
    have hb := ihb scope outer t ht
    exact hb.append (ihc scope outer _ (ht.extends hb.grows))
  case loop =>
    intro place test b ihb scope outer t ht
    rw [Stmt.withScopes, Stmt.sites, Stmt.blocks]
    exact ihb scope outer t ht
  case inner =>
    intro place b ihb scope outer t ht
    rw [Stmt.withScopes, Stmt.sites, Stmt.blocks]
    exact ihb scope outer t ht
  all_goals
    intros
    rw [Stmt.withScopes, Stmt.sites, Stmt.blocks]
    exact .refl _

/-- For a function one scope is added, and behind it those of the blocks in its body. -/
theorem Function.withScopes_grown (f : Function) {parent : ScopeId}
    {outer : List (Option ScopeId)} {t : Tables} (ht : t.Stands parent outer) :
    t.Grown (f.withScopes parent t).2 ((f.withScopes parent t).1.sites (some parent :: outer))
      (1 + f.body.blocks) := by
  rw [Function.withScopes, Function.sites]
  obtain ⟨hopened, hstands⟩ := t.openScope_grown (some parent :: outer) f.place.line
    f.declarations
    (fun _ _ h => by cases h; exact ⟨parent, rfl, ht⟩) (f.declarations_atLevel _)
  exact hopened.append (block_stmt_withScopes_grown.1 f.body _ _ _ hstands)

/-- The scopes of functions in a row are added one function after the other. -/
theorem functionsWithScopes_grown (fs : List Function) {parent : ScopeId}
    {outer : List (Option ScopeId)} {t : Tables} (ht : t.Stands parent outer) :
    t.Grown (functionsWithScopes parent fs t).2
      ((functionsWithScopes parent fs t).1.flatMap (·.sites (some parent :: outer)))
      (fs.length + functionsBlocks fs) := by
  induction fs generalizing t with
  | nil => exact .refl t
  | cons f fs ih =>
    have hf := f.withScopes_grown ht
    have hcount : (f :: fs).length + functionsBlocks (f :: fs) =
        1 + f.body.blocks + (fs.length + functionsBlocks fs) := by
      rw [functionsBlocks, List.length_cons]
      omega
    rw [hcount]
    exact hf.append (ih (ht.extends hf.grows))

/-! ## Nothing else is changed -/

theorem stmtsWithScopes_unscoped_of {ss : List Stmt}
    (h : ∀ x ∈ ss, ∀ (scope : ScopeId) (t : Tables),
      (x.withScopes scope t).1.relabel .unscoped = x.relabel .unscoped)
    (scope : ScopeId) (t : Tables) :
    relabelStmts .unscoped (stmtsWithScopes scope ss t).1 = relabelStmts .unscoped ss := by
  induction ss generalizing t with
  | nil => rfl
  | cons x ss ih =>
    rw [stmtsWithScopes, relabelStmts, relabelStmts, h x List.mem_cons_self,
      ih fun y hy => h y (List.mem_cons_of_mem x hy)]

/-- A block or a statement is the same afterwards, apart from the scopes. -/
theorem block_stmt_withScopes_unscoped :
    (∀ (b : Block) (parent : ScopeId) (t : Tables),
      (b.withScopes parent t).1.relabel .unscoped = b.relabel .unscoped) ∧
    ∀ (x : Stmt) (scope : ScopeId) (t : Tables),
      (x.withScopes scope t).1.relabel .unscoped = x.relabel .unscoped := by
  refine Block.induction ?mk ?assign ?call ?ifThen ?ifElse ?loop ?ret ?brk ?cont ?inner
  case mk =>
    intro locals statements place scope ih parent t
    rw [Block.withScopes, Block.relabel, Block.relabel, stmtsWithScopes_unscoped_of ih]
    rfl
  case ifThen =>
    intro place test b ihb scope t
    rw [Stmt.withScopes, Stmt.relabel, Stmt.relabel, ihb]
  case ifElse =>
    intro place test b c ihb ihc scope t
    rw [Stmt.withScopes, Stmt.relabel, Stmt.relabel, ihb, ihc]
  case loop =>
    intro place test b ihb scope t
    rw [Stmt.withScopes, Stmt.relabel, Stmt.relabel, ihb]
  case inner =>
    intro place b ihb scope t
    rw [Stmt.withScopes, Stmt.relabel, Stmt.relabel, ihb]
  all_goals
    intros
    rw [Stmt.withScopes]

/-- Writing scopes into a function changes nothing else in it. -/
theorem Function.withScopes_unscoped (f : Function) (parent : ScopeId) (t : Tables) :
    (f.withScopes parent t).1.relabel .unscoped = f.relabel .unscoped := by
  rw [Function.withScopes, Function.relabel, Function.relabel, block_stmt_withScopes_unscoped.1]
  rfl

theorem functionsWithScopes_unscoped (fs : List Function) (parent : ScopeId) (t : Tables) :
    (functionsWithScopes parent fs t).1.map (·.relabel .unscoped) =
      fs.map (·.relabel .unscoped) := by
  induction fs generalizing t with
  | nil => rfl
  | cons f fs ih =>
    rw [functionsWithScopes, List.map_cons, List.map_cons, f.withScopes_unscoped, ih]

/-- What a function is declared as does not depend on the scopes written into it. -/
theorem functionsWithScopes_declared (fs : List Function) (parent : ScopeId) (t : Tables) :
    (functionsWithScopes parent fs t).1.map (·.declared) = fs.map (·.declared) := by
  induction fs generalizing t with
  | nil => rfl
  | cons f fs ih =>
    rw [functionsWithScopes, List.map_cons, List.map_cons, ih]
    rfl

/-! ## Programs -/

/-- From empty tables exactly the scopes of the sites of the program are added. -/
theorem Program.withScopes_grown (p : Program) :
    Tables.empty.Grown p.withScopes.2 p.withScopes.1.sites
      (1 + (p.functions.length + functionsBlocks p.functions)) := by
  rw [Program.withScopes, Program.sites]
  have hdeclared : p.declarations.map (·.atLevel 0) = builtinsDeclared ++
      p.globals.map (·.declaredAt 0) ++ p.functions.map (·.declared) := p.declarations_atLevel
  -- the sites are those of the functions that have their scopes, and these declare the same
  rw [← functionsWithScopes_declared p.functions
    (Tables.empty.openScope none p.place.line p.declarations).1
    (Tables.empty.openScope none p.place.line p.declarations).2] at hdeclared
  obtain ⟨hopened, hstands⟩ := Tables.empty.openScope_grown [] p.place.line p.declarations
    (fun _ _ h => by cases h) hdeclared
  exact hopened.append (functionsWithScopes_grown p.functions hstands)

/-- The scopes are numbered in the order in which the constructs stand. -/
theorem Program.withScopes_sites_scope (p : Program) :
    p.withScopes.1.sites.map (·.scope) =
      (List.range p.withScopes.2.size).map fun i => some ⟨i⟩ := by
  have h := p.withScopes_grown
  rw [h.scopes, h.size, List.range_eq_range', show Tables.empty.size = 0 from rfl, Nat.zero_add]

/-- The tables of a program mirror its tree. Apart from the scopes that are written into
it, the program stays as it is. There is one scope for the program, one for each function
and one for each block, numbered in the order in which they stand; and each has the
parent, the level, the line, the symbols and the duplicates that its site says. -/
theorem Program.withScopes_mirrors (p : Program) :
    p.withScopes.1.relabel .unscoped = p.relabel .unscoped ∧
    p.withScopes.2.size = 1 + p.functions.length + functionsBlocks p.functions ∧
    p.withScopes.1.sites.map (·.scope) =
      (List.range p.withScopes.2.size).map (fun i => some ⟨i⟩) ∧
    ∀ site ∈ p.withScopes.1.sites, ∃ id s, site.Mirrored p.withScopes.2 id s := by
  have h := p.withScopes_grown
  refine ⟨?_, ?_, p.withScopes_sites_scope, h.mirrored⟩
  · rw [Program.withScopes, Program.relabel, Program.relabel, functionsWithScopes_unscoped]
    rfl
  · rw [h.size, show Tables.empty.size = 0 from rfl]
    omega

end Decaf

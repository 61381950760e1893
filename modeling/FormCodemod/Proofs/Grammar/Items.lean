import FormCodemod.Grammar.Source
import FormCodemod.Library.Names
import FormCodemod.Proofs.Grammar.Yields
import FormCodemod.Proofs.Tree.Alike

/-!
# What the items of a source file can be

Reading a file never makes an import out of anything but an import declaration, and what such a
declaration lists are names: no function, call or member read stands in its specifiers or in its
source (`Source.read?_plainImports`). Only the clause behind `with` may hold any expression.

The proofs follow the grammar, one lemma for each of its functions. Statements and exports are shown
not to be imports at all (`NoImport`), down to any depth; the names of an import are shown to be
without code (`Inert`) where they are read.
-/

namespace FormCodemod

/-- There is no code in the names that an import lists, nor in what it says where these come from. -/
def Tree.PlainImport (t : Tree) : Prop :=
  ∀ d, t.import? = some d → d.specifiers.all Tree.isInert = true ∧ d.source.isInert = true

def Module.PlainImports (m : Module) : Prop := ∀ t ∈ m.items, t.PlainImport

namespace Grammar

open Grammar.Parser

variable (g : Productions) (ctx : Context) (lo : Nat)

/-! ## Declarations -/

def NoImport (t : Tree) : Prop := t.import? = none

theorem noImport_varStatement (declare : Bool) : Yields NoImport (varStatement g ctx lo declare) := by
  unfold varStatement
  refine .bind fun kw => .bind fun _ => .bind fun ds => .bind fun _ => .bind fun o => ?_
  exact .pure rfl

theorem noImport_usingStatement? (isAwait : Bool) : YieldsIf NoImport (usingStatement? g ctx lo isAwait) := by
  unfold usingStatement?
  refine .bind fun next => .ite .none ?_
  refine .bind fun _ => .bind fun ds => .bind fun _ => .bind fun o => ?_
  exact .some rfl

theorem noImport_functionDecl (declare : Bool) : Yields NoImport (functionDecl g ctx lo declare) := by
  unfold functionDecl
  refine .bind fun isAsync => .bind fun _ => .bind fun isGenerator => .bind fun name => ?_
  refine .bind fun f => .bind fun o => ?_
  exact .pure rfl

theorem noImport_classDecl (declare isAbstract : Bool) : Yields NoImport (classDecl g ctx lo declare isAbstract) := by
  unfold classDecl
  refine .bind fun _ => .bind fun name => .bind fun c => .bind fun o => ?_
  exact .pure rfl

theorem noImport_interfaceFrom (declare : Bool) : Yields NoImport (interfaceFrom g ctx lo declare) := by
  unfold interfaceFrom
  refine .bind fun name => .bind fun tps => .bind fun heirs => .either fun hs => ?_
  refine .bind fun again => .when fun _ => ?_
  refine .bind fun mlo => .bind fun ms => .bind fun mo => .bind fun o => ?_
  exact .pure rfl

theorem noImport_typeAliasFrom (declare : Bool) : Yields NoImport (typeAliasFrom g ctx lo declare) := by
  unfold typeAliasFrom
  refine .bind fun name => .bind fun tps => .bind fun _ => .bind fun t => .bind fun _ => .bind fun o => ?_
  exact .pure rfl

theorem noImport_enumFrom (declare isConst : Bool) : Yields NoImport (enumFrom g ctx lo declare isConst) := by
  unfold enumFrom
  refine .bind fun name => .bind fun _ => .bind fun ms => .bind fun _ => .bind fun o => ?_
  exact .pure rfl

theorem noImport_namespaceFrom (declare : Bool) : Yields NoImport (namespaceFrom g ctx lo declare) := by
  unfold namespaceFrom
  refine .bind fun first => .bind fun names => .bind fun body => .bind fun o => ?_
  exact .pure rfl

theorem noImport_ambientBody (declare : Bool) (kw : String) (name : Tree) :
    Yields NoImport (ambientBody g ctx lo declare kw name) := by
  unfold ambientBody
  refine .bind fun braced => .ite (.bind fun body => ?_) (.bind fun _ => .bind fun body => ?_)
  · exact .bind fun o => .pure rfl
  · exact .bind fun o => .pure rfl

theorem noImport_declarationFrom? (declare marked : Bool) (s : String) (sameLine : Bool) :
    YieldsIf NoImport (declarationFrom? g ctx lo declare marked s sameLine) := by
  unfold declarationFrom?
  refine .bind fun token => .bind fun newline => ?_
  split
  · exact .bind fun isClass => .ite (noImport_classDecl g ctx lo declare true).lift .none
  · exact .ite (noImport_enumFrom g ctx lo declare false).lift .none
  · exact .ite (noImport_interfaceFrom g ctx lo declare).lift .none
  · refine .ite .none (.bind fun token => ?_)
    split
    · exact .bind fun name => (noImport_ambientBody g ctx lo declare "module" name).lift
    · exact .ite (noImport_namespaceFrom g ctx lo declare).lift .none
  · exact .ite (noImport_namespaceFrom g ctx lo declare).lift .none
  · exact .ite (noImport_typeAliasFrom g ctx lo declare).lift .none
  · exact .none

theorem noImport_markedDeclaration? (declare : Bool) :
    YieldsIf NoImport (markedDeclaration? g ctx lo declare) := by
  unfold markedDeclaration?
  refine .bind fun token => ?_
  split
  next s =>
    refine .ite (.bind fun newline => .bind fun c => .bind fun _ => ?_) .none
    refine (noImport_declarationFrom? g ctx lo declare true s _).then fun d hd => ?_
    cases d with
    | some d => exact .some (hd d rfl)
    | none => exact .bind fun _ => .none
  next => exact .none

theorem noImport_declared? : YieldsIf NoImport (declared? g ctx lo) := by
  unfold declared?
  refine .bind fun token => ?_
  split
  · exact (noImport_functionDecl g _ lo true).lift
  · exact (noImport_classDecl g _ lo true false).lift
  · refine .bind fun next => .ite (.bind fun _ => .bind fun _ => ?_) ?_
    · exact (noImport_enumFrom g _ lo true true).lift
    · exact (noImport_varStatement g _ lo true).lift
  · exact (noImport_varStatement g _ lo true).lift
  · exact (noImport_varStatement g _ lo true).lift
  · exact .bind fun name => (noImport_ambientBody g _ lo true "" name).lift
  · exact noImport_markedDeclaration? g _ lo true

theorem noImport_namedDeclaration? (o : Origin) (x : String) :
    YieldsIf NoImport (namedDeclaration? g ctx lo o x) := by
  unfold namedDeclaration?
  split
  · exact noImport_declared? g ctx lo
  · exact .bind fun braced => .ite (.bind fun body => .bind fun o => .some rfl) .none
  · exact noImport_declarationFrom? g ctx lo false false x true

/-! ## Other statements -/

theorem noImport_block : Yields NoImport (block g ctx) := by
  unfold block
  exact .bind fun lo => .bind fun ss => .bind fun o => .pure rfl

theorem noImport_ifStatement : Yields NoImport (ifStatement g ctx) := by
  unfold ifStatement
  refine .bind fun lo => .bind fun _ => .bind fun _ => .bind fun test => .bind fun closed => .ite ?_ ?_
  · exact .bind fun yes => .bind fun no => .bind fun o => .pure rfl
  · exact .bind fun _ => .bind fun o => .pure rfl

theorem noImport_forStatement : Yields NoImport (forStatement g ctx) := by
  unfold forStatement
  refine .bind fun lo => .bind fun _ => .bind fun isAwait => .bind fun _ => .bind fun init => ?_
  refine .bind fun collects => .ite ?_ ?_
  · refine .bind fun isOf => .bind fun _ => .either fun right => ?_
    exact .bind fun _ => .bind fun body => .bind fun _ => .bind fun o => .pure rfl
  · refine .bind fun _ => .bind fun test => .bind fun _ => .bind fun update => ?_
    exact .bind fun _ => .bind fun body => .bind fun _ => .bind fun o => .pure rfl

theorem noImport_switchStatement : Yields NoImport (switchStatement g ctx) := by
  unfold switchStatement
  refine .bind fun lo => .bind fun _ => .bind fun subject => .bind fun _ => .bind fun cases => ?_
  exact .bind fun _ => .bind fun _ => .bind fun o => .pure rfl

theorem noImport_tryStatement : Yields NoImport (tryStatement g ctx) := by
  unfold tryStatement
  refine .bind fun lo => .bind fun _ => .bind fun body => .bind fun handler => .bind fun finalizer => ?_
  exact .bind fun o => .pure rfl

theorem noImport_strayHandler : Yields NoImport (strayHandler g ctx) := by
  unfold strayHandler
  exact .bind fun o => .bind fun _ => .bind fun _ => .pure rfl

theorem noImport_jump (k : StmtKind) : Yields NoImport (jump k) := by
  unfold jump
  refine .bind fun lo => .bind fun _ => .bind fun ends => .ite (.bind fun o => .pure rfl) ?_
  exact .bind fun label => .bind fun _ => .bind fun o => .pure rfl

theorem noImport_endedExpression (e : Tree) : Yields NoImport (endedExpression g ctx lo e) := by
  unfold endedExpression
  refine .bind fun ends => .ite (.bind fun o => .pure rfl) ?_
  exact .bind fun operator => .bind fun _ => .bind fun e => .bind fun o => .pure rfl

theorem noImport_expressionStatement : Yields NoImport (expressionStatement g ctx) := by
  unfold expressionStatement
  refine .bind fun lo => .bind fun e => ?_
  split
  next o x _ =>
    refine .bind fun labels => .ite (.bind fun s => .bind fun o => .pure rfl) (.bind fun newline => .ite ?_ ?_)
    · exact .bind fun _ => .bind fun o => .pure rfl
    · refine (noImport_namedDeclaration? g ctx lo o x).then fun d hd => ?_
      cases d with
      | some d => exact .pure (hd d rfl)
      | none =>
          refine .bind fun isInterface => .ite (.bind fun _ => ?_) ?_
          · exact noImport_interfaceFrom g ctx lo false
          · exact noImport_endedExpression g ctx lo _
  next => exact noImport_endedExpression g ctx lo _

theorem noImport_importStatement : Yields NoImport (importStatement g ctx) := by
  unfold importStatement
  refine .bind fun lo => .bind fun next => ?_
  split
  · exact .bind fun _ => .bind fun e => .bind fun _ => .bind fun o => .pure rfl
  · exact .bind fun _ => .bind fun e => .bind fun _ => .bind fun o => .pure rfl

theorem noImport_awaitUsing : Yields NoImport (awaitUsing g ctx) := by
  unfold awaitUsing
  refine .bind fun lo => .bind fun start => .bind fun _ => ?_
  refine (noImport_usingStatement? g ctx lo true).then fun s hs => ?_
  cases s with
  | some s => exact .pure (hs s rfl)
  | none => exact .bind fun _ => .bind fun e => .bind fun e => .bind fun _ => .bind fun o => .pure rfl

theorem noImport_wordStatement (declares : Bool) (s : String) : Yields NoImport (wordStatement g ctx declares s) := by
  unfold wordStatement
  refine .bind fun lo => ?_
  split
  · exact noImport_importStatement g ctx
  · refine .bind fun next => .ite (.bind fun _ => .bind fun _ => ?_) (.bind fun _ => ?_)
    · exact noImport_enumFrom g ctx lo false true
    · exact noImport_varStatement g ctx lo false
  · exact noImport_varStatement g ctx lo false
  · exact .bind fun letDeclares =>
      .ite (noImport_varStatement g ctx lo false) (noImport_expressionStatement g ctx)
  · refine (noImport_usingStatement? g ctx lo false).fork .none fun d hd => ?_
    cases d with
    | some d => exact .pure (hd d rfl)
    | none => exact noImport_expressionStatement g ctx
  · exact .bind fun next => .ite (noImport_awaitUsing g ctx) (noImport_expressionStatement g ctx)
  · exact noImport_functionDecl g ctx lo false
  · exact .bind fun next => .ite (noImport_functionDecl g ctx lo false) (noImport_expressionStatement g ctx)
  · exact noImport_classDecl g ctx lo false false
  · exact .bind fun _ => .bind fun _ => .bind fun o => .pure rfl
  · exact .bind fun _ => .bind fun e => .bind fun _ => .bind fun o => .pure rfl
  · exact .bind fun _ => .bind fun newline => .bind fun _ => .bind fun e => .bind fun _ => .bind fun o => .pure rfl
  · exact noImport_ifStatement g ctx
  · exact noImport_forStatement g ctx
  · exact .bind fun _ => .bind fun test => .bind fun body => .bind fun o => .pure rfl
  · refine .bind fun _ => .bind fun body => .bind fun _ => .bind fun test => ?_
    exact .bind fun _ => .bind fun o => .pure rfl
  · exact noImport_switchStatement g ctx
  · exact noImport_tryStatement g ctx
  · exact noImport_strayHandler g ctx
  · exact noImport_strayHandler g ctx
  · exact .bind fun _ => .bind fun e => .bind fun body => .bind fun o => .pure rfl
  · exact noImport_jump .breakTo
  · exact noImport_jump .continueTo
  · exact noImport_expressionStatement g ctx

/-- No statement is an import, however deep it is read. -/
theorem noImport_anyStatement (declares : Bool) : Yields NoImport (anyStatement g ctx declares) := by
  unfold anyStatement
  refine .bind fun lo => .bind fun token => ?_
  split
  · exact noImport_wordStatement g _ declares _
  · exact noImport_block g _
  · exact .bind fun _ => .bind fun o => .pure rfl
  · exact noImport_expressionStatement g _

/-- Whatever the depth, a statement is no import. -/
theorem noImport_statement (n : Nat) (declares : Bool) : Yields NoImport ((productions n).statement ctx declares) := by
  cases n with
  | zero => exact yields_fail
  | succ n => exact noImport_anyStatement (productions n) ctx declares

/-! ## Exports -/

theorem noImport_importEquals (isExport typeOnly : Bool) (name : Tree) :
    Yields NoImport (importEquals lo isExport typeOnly name) := by
  unfold importEquals
  refine .bind fun _ => .bind fun rlo => .bind fun required => .bind fun next => .ite ?_ ?_
  · refine .bind fun _ => .bind fun _ => .bind fun source => .bind fun _ => .bind fun o => ?_
    exact .bind fun target => .bind fun _ => .bind fun o => .pure rfl
  · exact .bind fun target => .bind fun _ => .bind fun o => .pure rfl

theorem noImport_exportNames (typeOnly : Bool) : Yields NoImport (exportNames g ctx lo typeOnly) := by
  unfold exportNames
  refine .bind fun _ => .bind fun ss => .bind fun _ => .bind fun hasSource => .ite ?_ ?_
  · exact .bind fun source => .bind fun o => .pure rfl
  · exact .bind fun _ => .bind fun source => .bind fun o => .pure rfl

theorem noImport_exportStar (slo : Nat) (typeOnly : Bool) : Yields NoImport (exportStar g ctx lo slo typeOnly) := by
  unfold exportStar
  refine .bind fun _ => .bind fun named => .ite ?_ ?_
  · exact .bind fun name => .bind fun o => .bind fun source => .bind fun o => .pure rfl
  · exact .bind fun source => .bind fun o => .pure rfl

theorem noImport_exportDefault : Yields NoImport (exportDefault g ctx lo) := by
  unfold exportDefault
  refine .bind fun clo => .bind fun isAbstract => .bind fun next => .ite ?_ ?_
  · exact .bind fun _ => .bind fun d => .bind fun o => .pure rfl
  · refine .bind fun isAbstract => .bind fun next => .when fun _ => ?_
    refine .bind fun dlo => .bind fun isInterface => .ite ?_ ?_
    · exact .bind fun d => .bind fun o => .pure rfl
    · refine .bind fun isClass => .ite ?_ ?_
      · exact .bind fun d => .bind fun o => .pure rfl
      · refine .bind fun isFunction => .bind fun isAsync => .bind fun next => .ite ?_ ?_
        · exact .bind fun d => .bind fun o => .pure rfl
        · exact .bind fun e => .bind fun _ => .bind fun o => .pure rfl

theorem noImport_exportRest : Yields NoImport (exportRest g ctx lo) := by
  unfold exportRest
  refine .bind fun slo => .bind fun isImport => .ite ?_ ?_
  · refine .bind fun typed => .bind fun next => .when fun _ => .bind fun name => ?_
    exact noImport_importEquals lo true _ name
  refine .bind fun isAssign => .ite ?_ ?_
  · exact .bind fun e => .bind fun _ => .bind fun o => .pure rfl
  refine .bind fun isAs => .ite ?_ ?_
  · exact .bind fun _ => .bind fun name => .bind fun _ => .bind fun o => .pure rfl
  refine .bind fun isDefault => .ite (noImport_exportDefault g ctx lo) ?_
  refine .bind fun typeOnly => .either fun d => ?_
  cases d with
  | some d => exact .bind fun o => .pure rfl
  | none =>
      refine .bind fun isStar => .ite ?_ ?_
      · exact noImport_exportStar g ctx lo slo typeOnly
      · exact noImport_exportNames g ctx lo typeOnly

/-- No export is an import. -/
theorem noImport_exportDecl : Yields NoImport (exportDecl g ctx) := by
  unfold exportDecl
  refine .bind fun lo => .bind fun _ => .bind fun dlo => .bind fun isDeclare => ?_
  refine .either fun declared => .bind fun tlo => ?_
  cases declared with
  | some d =>
      refine .bind fun typed => ?_
      cases typed with
      | some d => exact .bind fun o => .pure rfl
      | none => exact noImport_exportRest g ctx lo
  | none =>
      refine .bind fun read => .bind fun typed => ?_
      cases typed with
      | some d => exact .bind fun o => .pure rfl
      | none => exact noImport_exportRest g ctx lo

/-! ## Imports -/

/-- Nothing but names, strings and what marks them. -/
def Inert (t : Tree) : Prop := t.isInert = true

theorem inert_nameOf (p : Parser String) : Yields Inert (nameOf p) := by
  unfold nameOf
  exact .bind fun o => .bind fun x => .pure rfl

theorem inert_stringLiteral : Yields Inert stringLiteral := by
  unfold stringLiteral
  refine .bind fun token => ?_
  split
  · exact .bind fun o => .bind fun _ => .pure rfl
  · exact yields_fail

theorem inert_farName : Yields Inert farName := by
  unfold farName
  refine .bind fun token => ?_
  split
  · exact inert_stringLiteral
  · exact inert_nameOf anyWord

theorem inert_maybe {here : Parser Bool} {p : Parser Tree} (h : Yields Inert p) : Yields Inert (maybe here p) :=
  .bind fun _ => .ite h (.pure rfl)

/-- The two names of a specifier. -/
structure Specifier.IsInert (s : Specifier) : Prop where
  far : Inert s.far
  near : Inert s.near

theorem inert_specifier {near : Parser Tree} (h : Yields Inert near) : Yields Specifier.IsInert (specifier near) := by
  unfold specifier
  refine inert_farName.then fun first hfirst => .bind fun atWord => .ite ?_ ?_
  · refine (inert_nameOf anyWord).then fun second hsecond => .ite ?_ (.bind fun atWord => .ite ?_ ?_)
    · exact (inert_maybe h).then fun other hother => .pure ⟨hsecond, hother⟩
    · exact .pure ⟨hsecond, rfl⟩
    · refine h.then fun third hthird => .bind fun atWord => .ite ?_ ?_
      · exact h.then fun fourth hfourth => .pure ⟨hsecond, hfourth⟩
      · exact .pure ⟨hfirst, hthird⟩
  · exact (inert_maybe h).then fun other hother => .pure ⟨hfirst, hother⟩

theorem inert_item {o : Origin} {k : ItemKind} {ts : List Tree} (h : ∀ t ∈ ts, Inert t) : Inert (.item o k ts) := by
  rw [Inert, Tree.isInert_node]
  exact List.all_eq_true.mpr h

theorem inert_importSpecifier : Yields Inert importSpecifier := by
  unfold importSpecifier
  refine .bind fun lo => (inert_specifier (inert_nameOf boundName)).then fun s hs => .bind fun o => .ite ?_ ?_
  · split
    · exact .pure (inert_item (List.forall_mem_cons.mpr ⟨hs.far, List.forall_mem_singleton.mpr rfl⟩))
    · exact yields_fail
  · exact .pure (inert_item (List.forall_mem_cons.mpr ⟨hs.near, List.forall_mem_singleton.mpr hs.far⟩))

/-- The specifiers of an import are no code. -/
theorem inert_importClause : Yields (fun ts => ∀ t ∈ ts, Inert t) importClause := by
  unfold importClause
  refine .bind fun lo => .bind fun isStar => .ite ?_ (.bind fun braced => .ite ?_ ?_)
  · refine .bind fun _ => (inert_nameOf boundName).then fun near hnear => .bind fun o => .pure ?_
    exact List.forall_mem_singleton.mpr (inert_item (List.forall_mem_singleton.mpr hnear))
  · exact (yields_commaList inert_importSpecifier).then fun ss hss => .bind fun _ => .pure hss
  · exact .pure (List.forall_mem_nil Inert)

theorem inert_fromClause : Yields (fun r => Inert r.1) (fromClause g ctx) := by
  unfold fromClause
  refine .bind fun _ => inert_stringLiteral.then fun source hsource => ?_
  exact .bind fun attrs => .bind fun _ => .pure hsource

/-- A default name in front of the other names is no code. -/
def ImportHead.IsInert (head : ImportHead) : Prop := ∀ t ∈ head.default, Inert t

theorem inert_importHead : Yields ImportHead.IsInert (importHead ctx) := by
  have hnone : ∀ typeOnly phase, ImportHead.IsInert { typeOnly, phase } := by
    intro typeOnly phase t ht
    exact absurd ht (Option.not_mem_none t)
  have hsome : ∀ typeOnly phase, ∀ name, Inert name → ImportHead.IsInert { typeOnly, phase, default := some name } := by
    intro typeOnly phase name hname t ht
    rw [Option.mem_some_iff] at ht
    exact ht ▸ hname
  unfold importHead
  refine .bind fun token => .ite (.pure (hnone _ _)) ?_
  refine (inert_nameOf boundName).then fun first hfirst => .bind fun opens => .ite (.pure (hnone _ _)) ?_
  refine .bind fun named => .bind fun isFrom => .bind fun next => ?_
  refine (inert_nameOf boundName).fork (.pure hfirst) fun name hname => ?_
  refine .bind fun isEquals => .ite (.pure (hsome _ _ name hname)) ?_
  refine .bind fun opens => .ite (.pure (hnone _ _)) (.bind fun named => .ite ?_ ?_)
  · exact (inert_nameOf boundName).then fun name hname => .pure (hsome _ _ name hname)
  · exact .pure (hsome _ _ name hname)

theorem NoImport.plainImport {t : Tree} (h : NoImport t) : t.PlainImport := by
  intro d hd
  rw [h] at hd
  cases hd

theorem plainImport_item {o : Origin} {typeOnly : Bool} {phase : String} {specs : List Tree} {source attrs : Tree}
    (hspecs : ∀ t ∈ specs, Inert t) (hsource : Inert source) :
    (Tree.item o (.importDecl typeOnly phase) [.list specs, source, attrs]).PlainImport := by
  intro d hd
  cases hd
  exact ⟨List.all_eq_true.mpr hspecs, hsource⟩

/-- An import that was read holds no code besides what it asks of its module. -/
theorem plainImport_importDecl : Yields Tree.PlainImport (importDecl g ctx) := by
  unfold importDecl
  refine .bind fun lo => .bind fun _ => .bind fun token => ?_
  split
  · refine inert_stringLiteral.then fun source hsource => .bind fun attrs => .bind fun _ => .bind fun o => ?_
    exact .pure (plainImport_item (List.forall_mem_nil Inert) hsource)
  · refine (inert_importHead ctx).then fun head hhead => ?_
    extract_lets finish
    have hfinish : ∀ specs, (∀ t ∈ specs, Inert t) → Yields Tree.PlainImport (finish specs) := by
      intro specs hspecs
      refine inert_importClause.then fun names hnames => (inert_fromClause g ctx).then fun r hr => .bind fun o => ?_
      exact .pure (plainImport_item (List.forall_mem_append.mpr ⟨hspecs, hnames⟩) hr)
    split
    · exact hfinish [] (List.forall_mem_nil Inert)
    next name hname =>
      refine .bind fun isEquals => .ite ?_ (.bind fun isFrom => .unless fun _ => ?_)
      · exact (noImport_importEquals lo false head.typeOnly name).imp fun _ => NoImport.plainImport
      · exact hfinish _ (List.forall_mem_singleton.mpr (inert_item (List.forall_mem_singleton.mpr (hhead name hname))))

/-! ## Items -/

/-- Any item that is read is no import or a plain one. -/
theorem plainImport_anyItem (n : Nat) : Yields Tree.PlainImport (anyItem (productions n) ctx) := by
  have hstatement : Yields Tree.PlainImport ((productions n).statement ctx true) :=
    (noImport_statement ctx n true).imp fun _ => NoImport.plainImport
  unfold anyItem
  refine .bind fun token => ?_
  split
  · refine .bind fun next => ?_
    split
    · exact .ite hstatement (plainImport_importDecl _ ctx)
    · exact plainImport_importDecl _ ctx
  · exact (noImport_exportDecl _ ctx).imp fun _ => NoImport.plainImport
  · exact hstatement

theorem plainImport_moduleItem (n : Nat) : Yields Tree.PlainImport ((productions n).moduleItem ctx) := by
  cases n with
  | zero => exact yields_fail
  | succ n => exact plainImport_anyItem ctx n

/-- The imports of a file that was read are plain. -/
theorem plainImports_sourceFile (n : Nat) (interpreter : Option String) :
    Yields Module.PlainImports (sourceFile (productions n) interpreter) := by
  unfold sourceFile
  have hitems := yields_listUntil atEnd (plainImport_moduleItem {} n)
  refine .bind fun ends => .ite (.bind fun lo => ?_) (.either fun lo => ?_)
  · exact hitems.then fun items hitems => .bind fun hi => .pure hitems
  · exact hitems.then fun items hitems => .bind fun hi => .pure hitems

end Grammar

open Grammar in
/-- The imports of a file that was read are plain. -/
theorem Source.read?_plainImports {text : String} {source : Source} (h : Source.read? text = some source) :
    source.module.PlainImports := by
  rw [Source.read?] at h
  rcases hsplit : splitInterpreter text.toList with ⟨interpreter, rest⟩
  simp only [hsplit] at h
  split at h
  next m c hread =>
    cases h
    exact plainImports_sourceFile _ interpreter _ m c hread
  next => cases h

end FormCodemod

/-!
# Kinds of nodes

A source file is held as one uniform tree (`FormCodemod.Tree`): every node has an
origin, a kind and children. This module lists the kinds, grouped by what they stand
for. A kind carries the text and the flags of a node and never another node, so that
every traversal of the tree is one recursion and not one per kind.

The comment behind each kind gives its children, in the order in which a traversal meets
them. `[a]` is a group of any number of `a`, `a?` a child that may be absent.
-/

namespace FormCodemod

/-- Expressions. A node is an expression exactly when its kind is one of these or a
`MarkupKind.element` or `MarkupKind.fragment`. -/
inductive ExprKind
  /-- A reference to a variable. -/
  | ident (name : String)
  /-- A string: its value, and its source text when it was read. -/
  | str (value : String) (raw : Option String)
  | num (raw : String)
  | bigint (raw : String)
  | bool (value : Bool)
  | null
  | regex (raw : String)
  /-- `[expression] [quasi]` -/
  | template
  /-- `tag typeArgs? template` -/
  | tagged
  | this
  | privateName (name : String)
  /-- `new.target`, `import.meta` -/
  | metaProp (text : String)
  /-- `[element?]` -/
  | array
  /-- `[property]` -/
  | object
  /-- `name? function` -/
  | func
  /-- `[parameter] body typeParams? returnType?` -/
  | arrow (isAsync : Bool)
  /-- `name? class` -/
  | clazz
  | unary (op : String)
  | update (op : String) (before : Bool)
  | binary (op : String)
  | assign (op : String)
  /-- `test consequent alternate` -/
  | cond
  /-- the expressions in order -/
  | seq
  /-- `callee [argument] typeArgs?` -/
  | call
  /-- `callee [argument]? typeArgs?` -/
  | construct
  /-- `object key` -/
  | member
  | superMember
  /-- A member link of an optional chain, `link` when written with `?.`. -/
  | chainMember (link : Bool)
  /-- A call link of an optional chain: `callee [argument] typeArgs?`. -/
  | chainCall (link : Bool)
  | paren
  | await
  /-- `value?` -/
  | yield (delegate : Bool)
  /-- `expression type` -/
  | asType
  | asConst
  /-- `expression type` -/
  | satisfies
  | nonNull
  /-- `expression typeArgs` -/
  | instantiate
  /-- Stands where an expression is missing. -/
  | invalid
  deriving DecidableEq, Repr, Inhabited

/-- Statements and declarations. -/
inductive StmtKind
  /-- the statements in order -/
  | block
  | expr
  | empty
  | debugger
  /-- `value?` -/
  | ret
  | throw
  /-- `test consequent alternate?` -/
  | ifElse
  /-- `init? test? update? body` -/
  | forLoop
  /-- `left right body` -/
  | forIn
  /-- `left right body` -/
  | forOf (isAwait : Bool)
  /-- `test body` -/
  | whileLoop
  /-- `test body` -/
  | doWhile
  /-- `subject [case]` -/
  | switch
  /-- `label?` -/
  | breakTo
  /-- `label?` -/
  | continueTo
  /-- `label body` -/
  | labeled
  /-- `block handler? finalizer?` -/
  | tryCatch
  /-- `object body` -/
  | withScope
  /-- the declarators in order -/
  | vars (keyword : String) (declare : Bool)
  /-- Variables that are disposed of at the end of their block: the declarators in order. -/
  | using (isAwait : Bool)
  /-- `name function` -/
  | func (declare : Bool)
  /-- `name class` -/
  | clazz (declare : Bool)
  /-- `name typeParams? [heritage] members`, the members as those of a literal type -/
  | interface (declare : Bool)
  /-- `name typeParams? type` -/
  | typeAlias (declare : Bool)
  /-- `name [member]` -/
  | enum (declare isConst : Bool)
  /-- `[name] body?`; `keyword` is `namespace`, `module` or empty -/
  | space (declare : Bool) (keyword : String)
  deriving DecidableEq, Repr, Inhabited

/-- Patterns: what a declaration, a parameter or an assignment binds. -/
inductive PatKind
  /-- A bound name: `typeAnn?`. -/
  | binding (name : String) (optional : Bool)
  /-- `[element?] typeAnn?` -/
  | array (optional : Bool)
  /-- `[property] typeAnn?` -/
  | object (optional : Bool)
  /-- `pattern typeAnn?` -/
  | rest
  /-- `pattern default` -/
  | withDefault
  /-- `key pattern` -/
  | keyValue
  /-- `binding default?` -/
  | shorthand
  /-- The member an assignment writes to: `object key`. Not an expression. -/
  | memberTarget
  /-- A constructor parameter that is also a field: `pattern`. -/
  | field (modifiers : List String)
  /-- Stands where an expression cannot be read as a pattern. -/
  | invalid
  deriving DecidableEq, Repr, Inhabited

/-- Members of an object literal, except a shorthand name and a spread. -/
inductive PropKind
  /-- `key value` -/
  | keyValue
  /-- `name value`, only meaningful when the literal is read as a pattern -/
  | withDefault
  /-- `key function` -/
  | method
  /-- `key typeAnn? body?` -/
  | getter
  /-- `key first? parameter body?`; a parameter in front of the one that is set may name
  the receiver -/
  | setter
  deriving DecidableEq, Repr, Inhabited

/-- Words in front of a class member, and the mark behind its name. -/
structure Modifiers where
  accessibility : Option String := none
  declare : Bool := false
  isStatic : Bool := false
  isAbstract : Bool := false
  override : Bool := false
  readonly : Bool := false
  accessor : Bool := false
  optional : Bool := false
  definite : Bool := false
  deriving DecidableEq, Repr, Inhabited

/-- Members of a class. -/
inductive MemberKind
  /-- `key [parameter] body?` -/
  | constructor (modifiers : Modifiers)
  /-- `key function`; `role` is `get`, `set` or empty -/
  | method (modifiers : Modifiers) (role : String)
  /-- `key value? typeAnn?` -/
  | property (modifiers : Modifiers)
  /-- `[parameter] typeAnn?` -/
  | index (modifiers : Modifiers)
  /-- `block` -/
  | staticBlock
  | empty
  deriving DecidableEq, Repr, Inhabited

/-- Markup: elements, their attributes and children. -/
inductive MarkupKind
  /-- `name [attribute] typeArgs? [child] closing?`; `asValue` when it stands bare as the
  value of an attribute, where it is neither an expression nor a child -/
  | element (selfClosing asValue : Bool)
  /-- the children in order -/
  | fragment
  /-- A dotted tag: `object key`. -/
  | tagMember
  /-- A tag or attribute name with a colon. -/
  | namespaced (space name : String)
  /-- `name value?` -/
  | attr
  /-- `{expression}` -/
  | container
  /-- nothing between the braces of a container -/
  | empty
  /-- `{...expression}` -/
  | spreadChild
  /-- Text between tags: with entities decoded, and as written. -/
  | text (value raw : String)
  deriving DecidableEq, Repr, Inhabited

/-- Types and the members of type literals and interfaces. -/
inductive TypeKind
  /-- `any`, `string`, `this`, ... -/
  | keyword (text : String)
  /-- `entity typeArgs?` -/
  | ref
  /-- `left key` -/
  | qualified
  /-- `typeof`: `entity typeArgs?` -/
  | query
  /-- the members in order -/
  | literal
  | array
  /-- the elements in order -/
  | tuple
  /-- `label? type` -/
  | tupleElem
  | optional
  | rest
  /-- the members in order -/
  | union
  /-- the members in order -/
  | inter
  /-- `check extends then else` -/
  | conditional
  /-- `typeParam` -/
  | infer
  | paren
  | operator (op : String)
  /-- `object index` -/
  | indexed
  /-- `typeParam nameType? type?`; the marks are empty, or the word with its sign -/
  | mapped (readonly optional : String)
  /-- `literal` expression -/
  | constant
  /-- `[type] [quasi]` -/
  | template
  /-- `name typeAnn?` -/
  | predicate (asserts : Bool)
  /-- `argument qualifier? typeArgs? attributes?` -/
  | importType
  /-- `[parameter] typeParams? typeAnn` -/
  | func
  /-- `[parameter] typeParams? typeAnn` -/
  | construct (isAbstract : Bool)
  /-- `key typeAnn?` -/
  | property (readonly optional computed : Bool)
  /-- `key [parameter] typeParams? typeAnn?` -/
  | method (optional computed : Bool)
  /-- `key typeAnn?` -/
  | getter (computed : Bool)
  /-- `key parameter` -/
  | setter (computed : Bool)
  /-- `[parameter] typeParams? typeAnn?` -/
  | callable
  /-- `[parameter] typeParams? typeAnn?` -/
  | constructible
  /-- `[parameter] typeAnn?` -/
  | index (readonly : Bool)
  deriving DecidableEq, Repr, Inhabited

/-- Imports and exports. -/
inductive ItemKind
  /-- `[specifier] source attributes?`; `phase` is `source`, `defer` or empty -/
  | importDecl (typeOnly : Bool) (phase : String)
  /-- `local imported?` -/
  | importNamed (typeOnly : Bool)
  /-- `local` -/
  | importDefault
  /-- `local` -/
  | importStar
  /-- `name reference` -/
  | importEquals (isExport typeOnly : Bool)
  /-- `require("…")`: `source` -/
  | externalRef
  /-- `declaration` -/
  | exportDecl
  /-- `[specifier] source? attributes?` -/
  | exportNamed (typeOnly : Bool)
  /-- `local exported?` -/
  | exportSpec (typeOnly : Bool)
  /-- `name` -/
  | exportStarAs
  /-- `source attributes?` -/
  | exportAll (typeOnly : Bool)
  /-- `expression` -/
  | exportDefaultExpr
  /-- `declaration` -/
  | exportDefaultDecl
  /-- `expression` -/
  | exportAssign
  /-- `name` -/
  | exportAsNamespace
  deriving DecidableEq, Repr, Inhabited

/-- Pieces that are none of the above by themselves. -/
inductive PartKind
  /-- An identifier that is not an expression but counts as a use of its name: the name
  of a function or class, a tag, a label, a shorthand property, a type. -/
  | name (text : String)
  /-- The name of a property or attribute, which is no use of a variable. -/
  | key (text : String)
  | privateKey (text : String)
  /-- `[expression]` as the key of a property -/
  | computed
  /-- `[expression]` as the key of a member -/
  | index
  /-- `...expression` -/
  | spread
  | superRef
  /-- `import` as what is called; `phase` is `source`, `defer` or empty -/
  | importRef (phase : String)
  /-- `[parameter] body? typeParams? returnType?` -/
  | function (isAsync isGenerator : Bool)
  /-- `[member] superClass? typeParams? superTypeArgs? [heritage]` -/
  | clazz (isAbstract : Bool)
  /-- `pattern init?` -/
  | declarator (definite : Bool)
  /-- `test? [statement]` -/
  | switchCase
  /-- `parameter? body` -/
  | catchClause
  | quasi (raw : String)
  /-- `: type`, or the type behind an arrow or `is` -/
  | typeAnn
  /-- the types in order -/
  | typeArgs
  /-- the parameters in order -/
  | typeParams
  /-- `name constraint? default?` -/
  | typeParam (modifiers : List String)
  /-- `expression typeArgs?` behind `extends` or `implements` -/
  | heritage
  /-- `name init?` -/
  | enumMember
  /-- the items of a namespace in order -/
  | items
  deriving DecidableEq, Repr, Inhabited

/-- The kind of a node. -/
inductive Kind
  | expr (k : ExprKind)
  | stmt (k : StmtKind)
  | pat (k : PatKind)
  | prop (k : PropKind)
  | member (k : MemberKind)
  | markup (k : MarkupKind)
  | type (k : TypeKind)
  | item (k : ItemKind)
  | part (k : PartKind)
  deriving DecidableEq, Repr, Inhabited

end FormCodemod

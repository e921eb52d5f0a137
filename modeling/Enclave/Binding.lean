import Enclave.Syntax.Tree

/-!
# Binding accessors to classes

Before a program runs, every `private` and `static` accessor in it is bound to the innermost class
whose body encloses it, and every use of `super` is checked against the function it stands in. The
clause after `extends` belongs to the scope around its class.

The walk carries a `ScopeContext` down and gathers `Finding`s in the order in which it meets them:
bound accessors, classes, and errors. `Program.bind` gives the bindings, or all errors if there are
any.
-/

namespace Enclave

/-- What `super` may stand for in a function or initializer: nothing, a member of the parent's
prototype, or besides that a call of the parent's constructor. -/
inductive SuperUse
  | nothing | member | construction
  deriving DecidableEq

/-- Why a program is rejected before it runs. -/
inductive ScopeFault
  | accessorOutsideClass (keyword : String)
  | superCall
  | superMember
  deriving DecidableEq

/-- The wording of a fault. -/
def ScopeFault.message : ScopeFault → String
  | .accessorOutsideClass keyword => "`" ++ keyword ++ "` used outside of any class body"
  | .superCall => "`super(...)` is only valid in the constructor of a class with `extends`"
  | .superMember => "`super` is only valid in methods of a class with `extends`"

/-- A fault and where it lies. -/
structure ScopeError where
  fault : ScopeFault
  span : Span
  deriving DecidableEq

/-- A fault with its place in front. -/
def ScopeError.text (e : ScopeError) : String := e.span.text ++ ": " ++ e.fault.message

/-- What surrounds a node: the innermost class body, and what `super` may stand for. -/
structure ScopeContext where
  enclosing : Option ClassSite
  superUse : SuperUse

/-- Outside all classes and functions. -/
def ScopeContext.top : ScopeContext := ⟨none, .nothing⟩

/-- An accessor and the class it is bound to. -/
structure BoundSite where
  expr : ExprId
  span : Span
  classSite : ClassSite

/-- Something met on the walk over a program. -/
inductive Finding
  | site (s : BoundSite)
  | class (definition : ClassDef)
  | error (e : ScopeError)

namespace Finding

/-- An accessor in this context. -/
def ofAccessor (context : ScopeContext) (expr : ExprId) (span : Span) (accessor : Accessor) :
    List Finding :=
  match context.enclosing with
  | some classSite => [.site ⟨expr, span, classSite⟩]
  | none => [.error ⟨.accessorOutsideClass accessor.keyword, accessor.span⟩]

/-- A call of the parent's constructor in this context. -/
def ofSuperCall (context : ScopeContext) (span : Span) : List Finding :=
  if context.superUse = .construction then [] else [.error ⟨.superCall, span⟩]

/-- A member of the parent's prototype in this context. -/
def ofSuperMember (context : ScopeContext) (span : Span) : List Finding :=
  if context.superUse = .nothing then [.error ⟨.superMember, span⟩] else []

end Finding

/-- The context of a function in this context. -/
def ScopeContext.withSuper (context : ScopeContext) (superUse : SuperUse) : ScopeContext :=
  { context with superUse }

/-- What surrounds the constructor of a class. -/
def ScopeContext.inConstructor (site : ClassSite) (isDerived : Bool) : ScopeContext :=
  ⟨some site, if isDerived then .construction else .nothing⟩

/-- What surrounds a public or private method of a class. -/
def ScopeContext.inMethod (site : ClassSite) (isDerived : Bool) : ScopeContext :=
  ⟨some site, if isDerived then .member else .nothing⟩

/-- What surrounds a static method or an initializer of a class. -/
def ScopeContext.inClass (site : ClassSite) : ScopeContext := ⟨some site, .nothing⟩

mutual

def Expr.findings (context : ScopeContext) : Expr → List Finding
  | ⟨id, span, _, form⟩ => form.findings context id span

def ExprForm.findings (context : ScopeContext) (id : ExprId) (span : Span) :
    ExprForm → List Finding
  | .number _ | .string _ | .bool _ | .null | .undefined | .ident _ | .this => []
  | .object properties => propertiesFindings context properties
  -- a function of its own takes `super` from what is inside, but not the class
  | .functionDef f => f.findings (context.withSuper .nothing)
  | .classDef c => c.findings context
  | .unary _ operand => operand.findings context
  | .binary _ left right | .logical _ left right => left.findings context ++ right.findings context
  | .assign target value => target.findings context ++ value.findings context
  | .member e _ => e.findings context
  | .index e key => e.findings context ++ key.findings context
  | .call callee args | .new callee args => callee.findings context ++ exprsFindings context args
  | .slot accessor key =>
    Finding.ofAccessor context id span accessor ++ accessor.findings context ++ key.findings context
  -- the key is met first, as it is written first
  | .hasSlot key accessor =>
    key.findings context ++ Finding.ofAccessor context id span accessor ++ accessor.findings context
  | .superCall args => Finding.ofSuperCall context span ++ exprsFindings context args
  | .superMember _ => Finding.ofSuperMember context span

/-- The findings in the target of an accessor. -/
def Accessor.findings (context : ScopeContext) : Accessor → List Finding
  | .ofReceiver _ | .ofClass _ => []
  | .ofTarget _ target => target.findings context

/-- The findings in a key. -/
def SlotKey.findings (context : ScopeContext) : SlotKey → List Finding
  | .named _ => []
  | .computed key => key.findings context

def propertiesFindings (context : ScopeContext) : List Property → List Finding
  | [] => []
  | ⟨_, value⟩ :: rest => value.findings context ++ propertiesFindings context rest

def exprsFindings (context : ScopeContext) : List Expr → List Finding
  | [] => []
  | e :: rest => e.findings context ++ exprsFindings context rest

/-- The findings in an expression that may be left out. -/
def optionalFindings (context : ScopeContext) : Option Expr → List Finding
  | none => []
  | some e => e.findings context

/-- The findings in the body of a function; the context is that of the body. -/
def FunctionDef.findings (context : ScopeContext) : FunctionDef → List Finding
  | ⟨_, _, _, _, body, _, _⟩ => stmtsFindings context body

/-- The clause after `extends` is met first, in the context around the class; then the class itself,
its constructor, and its other members in order. -/
def ClassDef.findings (context : ScopeContext) : ClassDef → List Finding
  | ⟨site, name, superclass, constructor, members, span, height⟩ =>
    -- the class around is the one that the clause belongs to
    optionalFindings context superclass ++
    [.class ⟨site, name, superclass, constructor, members, span, height⟩] ++
    constructorFindings (.inConstructor site superclass.isSome) constructor ++
    membersFindings site superclass.isSome members

def constructorFindings (context : ScopeContext) : Option FunctionDef → List Finding
  | none => []
  | some f => f.findings context

def membersFindings (site : ClassSite) (isDerived : Bool) : List Member → List Finding
  | [] => []
  | ⟨_, form, _⟩ :: rest => form.findings site isDerived ++ membersFindings site isDerived rest

def MemberForm.findings (site : ClassSite) (isDerived : Bool) : MemberForm → List Finding
  | .method f | .privateMethod f => f.findings (.inMethod site isDerived)
  | .staticMethod f => f.findings (.inClass site)
  | .privateField initializer | .staticField initializer =>
    optionalFindings (.inClass site) initializer

def Stmt.findings (context : ScopeContext) : Stmt → List Finding
  | ⟨form, _⟩ => form.findings context

def StmtForm.findings (context : ScopeContext) : StmtForm → List Finding
  | .declare _ _ initializer => optionalFindings context initializer
  | .expr e | .raise e => e.findings context
  | .block body => stmtsFindings context body
  | .cond test yes none => test.findings context ++ yes.findings context
  | .cond test yes (some no) =>
    test.findings context ++ yes.findings context ++ no.findings context
  | .loop test body => test.findings context ++ body.findings context
  | .ret value => optionalFindings context value
  | .attempt body _ handler => stmtsFindings context body ++ stmtsFindings context handler
  | .functionDef f => f.findings (context.withSuper .nothing)
  | .classDef c => c.findings context

def stmtsFindings (context : ScopeContext) : List Stmt → List Finding
  | [] => []
  | s :: rest => s.findings context ++ stmtsFindings context rest

end

/-! ### What is kept of the findings -/

/-- The names of a list, each once, in ascending order. -/
def sortedNames (names : List String) : List String :=
  -- equal names are next to each other once they are sorted
  (names.mergeSort (fun a b => !decide (b < a))).foldr
    (fun name rest => if rest.head? = some name then rest else name :: rest) []

def MemberForm.isPrivate : MemberForm → Bool
  | .privateMethod _ | .privateField _ => true
  | _ => false

def MemberForm.isStatic : MemberForm → Bool
  | .staticMethod _ | .staticField _ => true
  | _ => false

/-- The names a class body declares `private`. -/
def ClassDef.privateNames (c : ClassDef) : List String :=
  sortedNames ((c.members.filter (·.form.isPrivate)).map (·.name))

/-- The names a class body declares `static`. -/
def ClassDef.staticNames (c : ClassDef) : List String :=
  sortedNames ((c.members.filter (·.form.isStatic)).map (·.name))

/-- What is known of a class before the program runs. -/
structure ConstructInfo where
  site : ClassSite
  name : String
  span : Span
  privateNames : List String
  staticNames : List String
  /-- The number of accessors bound to the class. -/
  accessSites : Nat

/-- The bindings of a program: the class of each accessor, and its classes in order. -/
structure Bindings where
  sites : List BoundSite
  constructs : List ConstructInfo

/-- The class that an accessor is bound to. -/
def Bindings.classOf? (b : Bindings) (expr : ExprId) : Option ClassSite :=
  (b.sites.find? (·.expr = expr)).map (·.classSite)

def Finding.site? : Finding → Option BoundSite
  | .site s => some s
  | _ => none

def Finding.class? : Finding → Option ClassDef
  | .class definition => some definition
  | _ => none

def Finding.error? : Finding → Option ScopeError
  | .error e => some e
  | _ => none

/-- The bindings among some findings. -/
def Bindings.ofFindings (findings : List Finding) : Bindings :=
  let sites := findings.filterMap Finding.site?
  let info (c : ClassDef) : ConstructInfo :=
    ⟨c.site, c.displayName, c.span, c.privateNames, c.staticNames,
      sites.countP (·.classSite = c.site)⟩
  let constructs := (findings.filterMap Finding.class?).map info
  -- classes are numbered from the inside out, and listed by number
  ⟨sites, constructs.mergeSort (fun a b => a.site.index ≤ b.site.index)⟩

/-- Everything the walk over a program meets. -/
def Program.findings (p : Program) : List Finding := stmtsFindings .top p.body

/-- Binds every accessor of a program, or reports every error. -/
def Program.bind (p : Program) : Except (List ScopeError) Bindings :=
  let errors := p.findings.filterMap Finding.error?
  -- one error is enough for nothing to be bound
  if errors.isEmpty then .ok (.ofFindings p.findings) else .error errors

/-- A class with its declared members and the number of accessors bound to it, a line each. -/
def ConstructInfo.text (c : ConstructInfo) : String :=
  "class " ++ c.name ++ " at " ++ c.span.text ++ "\n" ++
  "  private: [" ++ ", ".intercalate c.privateNames ++ "]\n" ++
  "  static:  [" ++ ", ".intercalate c.staticNames ++ "]\n" ++
  "  accessor sites: " ++ toString c.accessSites ++ "\n"

/-- All classes of a program. -/
def Bindings.text (b : Bindings) : String := String.join (b.constructs.map ConstructInfo.text)

end Enclave

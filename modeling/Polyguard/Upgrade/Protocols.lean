import Polyguard.HopByHop.Agreement
import Polyguard.Upgrade.Implementations

/-! The members of a protocol list: distinct tokens.
Four implementations keep the members seen so far, one keeps them in a trie whose
edges from one node form a chain of siblings, each older than the one before it. -/
namespace Polyguard.Upgrade
open Ascii Slices HopByHopAgreement

/-- The members are distinct tokens. -/
def distinctTokens (members : List (List UInt8)) : Bool := members.all isToken && decide members.Nodup

theorem uniqueFrom_eq (seen raws : List (List UInt8)) :
    uniqueFrom seen raws =
      (distinctTokens (raws.map (trim isOws)) && (raws.map (trim isOws)).all fun member => !seen.contains member) := by
  induction raws generalizing seen with
  | nil => rfl
  | cons raw raws ih =>
    have trims : trimUpgradeOws raw = trim isOws raw := rfl
    have fresh : (raws.map (trim isOws)).all (fun member => !(trim isOws raw :: seen).contains member) =
        (!(raws.map (trim isOws)).contains (trim isOws raw) &&
          (raws.map (trim isOws)).all fun member => !seen.contains member) := by
      rw [Bool.eq_iff_iff]
      simp only [List.all_eq_true,Bool.not_eq_true',Bool.and_eq_true,List.contains_eq_mem,List.mem_cons,
        decide_eq_false_iff_not,not_or]
      constructor
      · intro all
        exact ⟨fun member => (all _ member).1 rfl,fun member present => (all member present).2⟩
      · rintro ⟨absent,all⟩ member present
        exact ⟨fun same => absent (same ▸ present),all member present⟩
    unfold uniqueFrom
    rw [trims]
    dsimp only
    rw [refused_token,ih,fresh]
    unfold distinctTokens
    simp only [List.map_cons,List.all_cons,List.nodup_cons,Bool.decide_and,List.contains_eq_mem,decide_not]
    cases isToken (trim isOws raw) with
    | false => simp
    | true =>
      by_cases known : trim isOws raw ∈ seen
      · simp [known]
      · by_cases again : trim isOws raw ∈ raws.map (trim isOws)
        · simp only [again,known]
          simp
        · simp only [again,known]
          simp [Bool.and_assoc]

theorem unique_members (raws : List (List UInt8)) : uniqueFrom [] raws = distinctTokens (raws.map (trim isOws)) := by
  rw [uniqueFrom_eq]
  simp

section Siblings
open UpgradeInvariantSignature

def siblingLayout : Trie.Layout UInt8 TokenTrie := ⟨fun trie => trie.nodes.length,childOf⟩

/-- The sibling of an edge is older, and a node starts at an edge that exists. -/
structure Linked (trie : TokenTrie) : Prop where
  older : ∀ (index : Nat) (edge : TrieEdge) (sibling : Nat), trie.edges[index]? = some edge → edge.sibling = some sibling → sibling < index
  exist : ∀ (index : Nat) (node : TrieNode) (edge : Nat), trie.nodes[index]? = some node → node.firstEdge = some edge → edge < trie.edges.length

theorem findEdge_none (edges : List TrieEdge) (byte : UInt8) (fuel : Nat) : findEdge edges byte fuel none = none := by
  cases fuel <;> rfl

theorem findEdge_fuel {edges : List TrieEdge}
    (older : ∀ (index : Nat) (edge : TrieEdge) (sibling : Nat), edges[index]? = some edge →
      edge.sibling = some sibling → sibling < index)
    (byte : UInt8) (more : List TrieEdge) (start : Option Nat) (fuel fuel' : Nat)
    (bounds : ∀ index ∈ start, index < fuel ∧ index < fuel' ∧ index < edges.length) :
    findEdge (edges ++ more) byte fuel start = findEdge edges byte fuel' start := by
  induction fuel generalizing start fuel' with
  | zero =>
    cases start with
    | none => rw [findEdge_none,findEdge_none]
    | some index =>
      have bound := bounds index rfl
      omega
  | succ fuel ih =>
    cases start with
    | none => rw [findEdge_none,findEdge_none]
    | some index =>
      obtain ⟨-,below,inside⟩ := bounds index rfl
      obtain ⟨fuel',rfl⟩ : ∃ n, fuel' = n + 1 := ⟨fuel' - 1,by omega⟩
      obtain ⟨edge,here⟩ : ∃ edge, edges[index]? = some edge := ⟨_,List.getElem?_eq_getElem inside⟩
      have again := ih edge.sibling fuel' (by
        intro sibling next
        have bound := older index edge sibling here next
        have top := bounds index rfl
        omega)
      simp only [findEdge,List.getElem?_append_left inside,here,again]

theorem findEdge_append {trie : TokenTrie} (linked : Linked trie) (byte : UInt8) (more : List TrieEdge)
    {node : TrieNode} {index : Nat} (here : trie.nodes[index]? = some node) (fuel : Nat)
    (enough : trie.edges.length ≤ fuel) :
    findEdge (trie.edges ++ more) byte fuel node.firstEdge = findEdge trie.edges byte trie.edges.length node.firstEdge := by
  apply findEdge_fuel linked.older
  intro edge first
  have bound := linked.exist index node edge here first
  omega

/-- A round of an insertion keeps the chains, follows an edge or adds one in front of its siblings. -/
theorem sibling_round (trie : TokenTrie) (index : Nat) (byte : UInt8) (linked : Linked trie)
    (valid : siblingLayout.Valid trie) (inside : index < siblingLayout.size trie) :
    Linked (insertByte (trie,index) byte).1 ∧ siblingLayout.Extends trie (insertByte (trie,index) byte).1 ∧
      siblingLayout.child (insertByte (trie,index) byte).1 index byte = some (insertByte (trie,index) byte).2 := by
  unfold insertByte
  dsimp only
  cases found : childOf trie index byte with
  | some next => exact ⟨linked,.refl valid,found⟩
  | none =>
    obtain ⟨node,here⟩ : ∃ node, trie.nodes[index]? = some node := ⟨_,List.getElem?_eq_getElem inside⟩
    simp only [here,Option.bind_some]
    generalize after : TokenTrie.mk ((trie.nodes ++ [TrieNode.new]).modify index fun node =>
      { node with firstEdge := some trie.edges.length }) (trie.edges ++ [⟨byte,trie.nodes.length,node.firstEdge⟩]) = grown
    have nodes : grown.nodes = (trie.nodes ++ [TrieNode.new]).modify index fun node =>
      { node with firstEdge := some trie.edges.length } := by rw [← after]
    have edges : grown.edges = trie.edges ++ [⟨byte,trie.nodes.length,node.firstEdge⟩] := by rw [← after]
    have changed : grown.nodes[index]? = some { node with firstEdge := some trie.edges.length } := by
      rw [nodes,List.getElem?_modify_eq,List.getElem?_append_left inside,here]
      rfl
    have untouched (other : Nat) (differ : other ≠ index) : grown.nodes[other]? = (trie.nodes ++ [TrieNode.new])[other]? := by
      rw [nodes,List.getElem?_modify_ne _ _ (Ne.symm differ)]
    have first (key : UInt8) : siblingLayout.child grown index key =
        if byte == key then some trie.nodes.length else childOf trie index key := by
      have chain := findEdge_append linked key [⟨byte,trie.nodes.length,node.firstEdge⟩] here trie.edges.length
        (Nat.le_refl _)
      have old : childOf trie index key = findEdge trie.edges key trie.edges.length node.firstEdge := by
        simp only [childOf,here,Option.bind_some]
      simp only [siblingLayout,childOf,changed,Option.bind_some,edges,List.length_append,List.length_singleton,findEdge,
        List.getElem?_append_right (Nat.le_refl _),Nat.sub_self,List.getElem?_cons_zero,chain]
      rw [← old]
      rfl
    refine ⟨⟨?_,?_⟩,valid.link inside found ?_ ?_ ?_,?_⟩
    · intro position edge sibling present next
      rw [edges] at present
      rcases Nat.lt_or_ge position trie.edges.length with old | new
      · rw [List.getElem?_append_left old] at present
        exact linked.older position edge sibling present next
      · rw [List.getElem?_append_right new,List.getElem?_singleton] at present
        split at present
        · cases present
          have bound := linked.exist index node sibling here next
          omega
        · cases present
    · intro other found' edge present next
      rw [edges,List.length_append,List.length_singleton]
      by_cases same : other = index
      · subst same
        rw [changed] at present
        cases present
        cases next
        omega
      · rw [untouched other same] at present
        rcases Nat.lt_or_ge other trie.nodes.length with old | new
        · rw [List.getElem?_append_left old] at present
          have bound := linked.exist other found' edge present next
          omega
        · rw [List.getElem?_append_right new,List.getElem?_singleton] at present
          split at present
          · cases present
            cases next
          · cases present
    · simp [siblingLayout,nodes]
    · rw [first]
      simp [siblingLayout]
    · intro other key differ
      by_cases same : other = index
      · subst same
        have different : (byte == key) = false := by
          rw [beq_eq_false_iff_ne]
          rintro rfl
          exact differ ⟨rfl,rfl⟩
        rw [first,different]
        rfl
      · simp only [siblingLayout,childOf,untouched other same]
        rcases Nat.lt_trichotomy other trie.nodes.length with old | rfl | outside
        · obtain ⟨found',present⟩ : ∃ found', trie.nodes[other]? = some found' := ⟨_,List.getElem?_eq_getElem old⟩
          rw [List.getElem?_append_left old,present,Option.bind_some,Option.bind_some,edges]
          exact findEdge_append linked key _ present _ (by simp)
        · simp [TrieNode.new,findEdge_none]
        · rw [List.getElem?_eq_none (by simp; omega),List.getElem?_eq_none (by omega)]
          rfl
    · rw [first]
      simp

/-- The trie holds the tokens. -/
structure Holding (trie : TokenTrie) (tokens : List (List UInt8)) : Prop where
  linked : Linked trie
  valid : siblingLayout.Valid trie
  holds : ∀ token, siblingLayout.Holds trie (terminalAt trie) token ↔ token ∈ tokens

theorem sibling_marks (token : List UInt8) (state : TokenTrie × Nat) (index : Nat) :
    terminalAt (token.foldl insertByte state).1 index = terminalAt state.1 index := by
  induction token generalizing state with
  | nil => rfl
  | cons byte token ih =>
    rw [List.foldl_cons,ih]
    unfold insertByte
    cases childOf state.1 state.2 byte with
    | some next => rfl
    | none =>
      apply Trie.link_marks
      · rfl
      · intro node
        rfl

theorem sibling_mark (trie : TokenTrie) (index : Nat) :
    siblingLayout.child { trie with nodes := trie.nodes.modify index fun found => { found with terminal := true } } =
      siblingLayout.child trie := by
  funext other key
  simp only [siblingLayout,childOf]
  by_cases same : index = other
  · subst same
    rw [List.getElem?_modify_eq]
    cases trie.nodes[index]? <;> rfl
  · rw [List.getElem?_modify_ne _ _ same]

theorem linked_mark {trie : TokenTrie} (linked : Linked trie) (index : Nat) :
    Linked { trie with nodes := trie.nodes.modify index fun found => { found with terminal := true } } := by
  refine ⟨linked.older,?_⟩
  intro other node edge present first
  dsimp only at present
  rw [List.getElem?_modify] at present
  cases old : trie.nodes[other]? with
  | none => simp [old] at present
  | some before =>
    rw [old] at present
    refine linked.exist other before edge old ?_
    split at present
    · cases present
      exact first
    · cases present
      exact first

theorem sibling_insert {trie : TokenTrie} {tokens : List (List UInt8)} (holding : Holding trie tokens) (token : List UInt8) :
    (TokenTrie.insert trie token).2 = !tokens.contains token ∧ Holding (TokenTrie.insert trie token).1 (token :: tokens) := by
  obtain ⟨linked,valid,holds⟩ := holding
  obtain ⟨kept,later,reached⟩ := Trie.Layout.foldl_walk Linked sibling_round token trie 0 linked valid valid.rooted
  have unchanged := sibling_marks token (trie,0)
  have marks : ∀ node, terminalAt trie node → node < siblingLayout.size trie := by
    intro node marked
    by_contra outside
    unfold terminalAt at marked
    rw [List.getElem?_eq_none (by unfold siblingLayout at outside; simpa using outside)] at marked
    cases marked
  unfold TokenTrie.insert
  generalize token.foldl insertByte (trie,0) = walked at kept later reached unchanged ⊢
  obtain ⟨after,target⟩ := walked
  dsimp only at kept unchanged reached later ⊢
  have known := later.marked_iff marks reached
  rw [holds] at known
  have inside : target < after.nodes.length := later.valid.walk_lt reached
  have edges := sibling_mark after target
  have later' := later.transfer (by simp [siblingLayout]) edges
  have marks' (node : Nat) :
      terminalAt { after with nodes := after.nodes.modify target fun found => { found with terminal := true } } node ↔
        terminalAt trie node ∨ node = target := by
    rw [← unchanged]
    exact Trie.set_marks (fun _ => rfl) inside node
  rw [← edges] at reached
  refine ⟨?_,linked_mark kept target,later'.valid,fun name => ?_⟩
  · rw [unchanged,Bool.not_inj_iff,Bool.eq_iff_iff,List.contains_iff_mem]
    exact known
  · rw [later'.holds_iff marks reached marks',holds,List.mem_cons]

theorem holding_new : Holding TokenTrie.new [] := by
  have none (node : Nat) (key : UInt8) : siblingLayout.child TokenTrie.new node key = none := by
    rcases node with _ | node
    · rfl
    · rfl
  refine ⟨⟨?_,?_⟩,⟨by decide,?_,?_⟩,?_⟩
  · intro index edge sibling present
    cases present
  · intro index node edge present first
    rcases index with _ | index
    · cases present
      cases first
    · cases present
  · intro node key next edge
    rw [none] at edge
    cases edge
  · intro node key other key' next edge
    rw [none] at edge
    cases edge
  · intro token
    constructor
    · rintro ⟨node,-,marked⟩
      rcases node with _ | node
      · cases marked
      · cases marked
    · intro member
      cases member

theorem uniqueMembers_eq {trie : TokenTrie} {seen : List (List UInt8)} (holding : Holding trie seen)
    (raws : List (List UInt8)) : uniqueMembers trie raws = uniqueFrom seen raws := by
  induction raws generalizing trie seen with
  | nil => rfl
  | cons raw raws ih =>
    obtain ⟨fresh,inserted⟩ := sibling_insert holding (trimUpgradeOws raw)
    simp only [uniqueMembers,uniqueFrom,fresh,ih inserted]
    cases (trimUpgradeOws raw).isEmpty || !(trimUpgradeOws raw).all isTchar with
    | true => simp
    | false =>
      cases seen.contains (trimUpgradeOws raw) with
      | true => simp
      | false => simp

end Siblings

theorem trie_members (raws : List (List UInt8)) :
    UpgradeInvariantSignature.uniqueMembers UpgradeInvariantSignature.TokenTrie.new raws =
      distinctTokens (raws.map (trim isOws)) := by
  rw [uniqueMembers_eq holding_new,unique_members]

theorem obligation_trim (value : List UInt8) : UpgradeObligationAlgebra.trimOws value = trim isOws value :=
  trim_positions isOws value

theorem obligation_members (seen raws : List (List UInt8)) :
    UpgradeObligationAlgebra.uniqueFrom seen raws = uniqueFrom seen raws := by
  induction raws generalizing seen with
  | nil => rfl
  | cons raw raws ih =>
    have trims : trimUpgradeOws raw = trim isOws raw := rfl
    simp only [UpgradeObligationAlgebra.uniqueFrom,uniqueFrom,obligation_trim,trims,ih]
    cases (trim isOws raw).isEmpty with
    | true => simp
    | false =>
      cases (trim isOws raw).all isTchar with
      | false => simp
      | true => cases seen.contains (trim isOws raw) <;> simp

end Polyguard.Upgrade

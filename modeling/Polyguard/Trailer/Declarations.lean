import Polyguard.Collections.Trie
import Polyguard.Trailer.Implementations

/-! The declared names of a trailer section.
Two tables are radix sorted, two are sorted by comparison and one is a trie. Each of
them is built exactly for distinct lowercase tokens that are not forbidden, and then
holds the declared names. -/
namespace Polyguard.TrailerDeclarations
open Ascii Slices

/-- A lowercase token that may be declared. -/
structure DeclaredName (name : List UInt8) : Prop where
  filled : name ≠ []
  token : ∀ b ∈ name, isTchar b ∧ isAsciiUppercase b = false
  allowed : isForbiddenTrailer name = false

structure Declarable (names : List (List UInt8)) : Prop where
  distinct : names.Nodup
  each : ∀ name ∈ names, DeclaredName name

def Short (names : List (List UInt8)) : Prop := ∀ name ∈ names, name.length ≤ trailerNameBytes

section Order

variable {α : Type} {key : α → List UInt8}

theorem radixBucket_end {position : Nat} {name : List UInt8} (ended : name.length ≤ position) : radixBucket position name = 0 := by
  unfold radixBucket
  rw [List.getElem?_eq_none ended]

theorem radixBucket_byte {position : Nat} {name : List UInt8} (inside : position < name.length) :
    radixBucket position name = name[position].toNat + 1 := by
  unfold radixBucket
  rw [List.getElem?_eq_getElem inside]

theorem nil_below : ∀ name : List UInt8, [] ≤ name
  | [] => le_refl _
  | _ :: _ => le_of_lt List.Lex.nil

theorem positions_le {left right : α} : ∀ count position,
    (key left).length ≤ position + count → (key right).length ≤ position + count →
    Radix.Positions (fun position entry => radixBucket position (key entry)) position count left right →
    (key left).drop position ≤ (key right).drop position := by
  intro count
  induction count with
  | zero =>
    intro position leftEnds rightEnds _
    rw [List.drop_eq_nil_of_le (by omega),List.drop_eq_nil_of_le (by omega)]
  | succ count ih =>
    intro position leftEnds rightEnds within
    have later := ih (position + 1) (by omega) (by omega)
    unfold Radix.Positions Radix.Within at within
    dsimp only at within
    rcases Nat.lt_or_ge position (key left).length with leftInside | leftOutside
    · rw [radixBucket_byte leftInside] at within
      rcases Nat.lt_or_ge position (key right).length with rightInside | rightOutside
      · rw [radixBucket_byte rightInside] at within
        rw [List.drop_eq_getElem_cons leftInside,List.drop_eq_getElem_cons rightInside]
        rcases within with below | ⟨same,related⟩
        · exact le_of_lt (List.Lex.rel (UInt8.lt_iff_toNat_lt.mpr (by omega)))
        · rw [UInt8.toNat_inj.mp (Nat.succ.inj same)]
          exact List.cons_le_cons _ (later related)
      · rw [radixBucket_end rightOutside] at within
        omega
    · rw [List.drop_eq_nil_of_le leftOutside]
      exact nil_below _

theorem radixOrder_passes (buckets : Nat) (entries : List α) :
    radixOrder buckets key entries =
      Radix.passes buckets (fun position entry => radixBucket position (key entry)) 0 trailerNameBytes entries := by
  unfold radixOrder radixPass
  rw [List.range_eq_range']
  exact Radix.foldl_passes buckets (fun position entry => radixBucket position (key entry)) entries trailerNameBytes 0

theorem radixOrder_sort (buckets : Nat) (key : α → List UInt8) {entries : List α} (short : Short (entries.map key))
    (small : ∀ entry ∈ entries, ∀ b ∈ key entry, b.toNat + 1 < buckets) (some : 0 < buckets) :
    (radixOrder buckets key entries).map key = Ordered.sort (entries.map key) := by
  have bounded (position : Nat) (entry : α) (member : entry ∈ entries) : radixBucket position (key entry) < buckets := by
    rcases Nat.lt_or_ge position (key entry).length with inside | outside
    · rw [radixBucket_byte inside]
      exact small entry member _ (List.getElem_mem inside)
    · rw [radixBucket_end outside]
      exact some
  rw [radixOrder_passes]
  have permuted := Radix.passes_perm bounded trailerNameBytes 0
  have sorted : ((Radix.passes buckets (fun position entry => radixBucket position (key entry)) 0 trailerNameBytes entries).map key).Pairwise
      (· ≤ ·) := by
    rw [List.pairwise_map]
    refine (Radix.passes_ordered buckets (fun position entry => radixBucket position (key entry)) entries trailerNameBytes 0).imp_of_mem ?_
    intro left right leftMember rightMember related
    have leftShort := short (key left) (List.mem_map_of_mem (permuted.mem_iff.mp leftMember))
    have rightShort := short (key right) (List.mem_map_of_mem (permuted.mem_iff.mp rightMember))
    simpa using positions_le trailerNameBytes 0 (by omega) (by omega) related
  have perm := (permuted.map key).trans (List.perm_insertionSort (· ≤ ·) (entries.map key)).symm
  exact List.Perm.eq_of_pairwise (fun _ _ _ _ => le_antisymm) sorted (Ordered.pairwise_sort _) perm

end Order

theorem equalNeighbours_sorted {names : List (List UInt8)} (sorted : names.Pairwise (· ≤ ·)) :
    hasEqualNeighbours names = false ↔ names.Nodup := by
  fun_induction hasEqualNeighbours names with
  | case1 first second rest ih =>
    obtain ⟨above,later⟩ := List.pairwise_cons.mp sorted
    rw [Bool.or_eq_false_iff,ih later,beq_eq_false_iff_ne,List.nodup_cons (a := first)]
    constructor
    · rintro ⟨differ,distinct⟩
      refine ⟨?_,distinct⟩
      intro member
      rcases List.mem_cons.mp member with same | behind
      · exact differ same
      · have back := (List.pairwise_cons.mp later).1 first behind
        exact differ (le_antisymm (above second (by simp)) back)
    · rintro ⟨absent,distinct⟩
      exact ⟨fun same => absent (by simp [same]),distinct⟩
  | case2 names short =>
    rcases names with _ | ⟨first,_ | ⟨second,rest⟩⟩
    · simp
    · simp
    · exact absurd rfl (short first second rest)

theorem equalNeighbours_sort (names : List (List UInt8)) : hasEqualNeighbours (Ordered.sort names) = false ↔ names.Nodup := by
  rw [equalNeighbours_sorted (Ordered.pairwise_sort names)]
  exact (List.perm_insertionSort (· ≤ ·) names).nodup_iff

theorem check_names {check : List (List UInt8) → Result Unit} {malformed forbidden : List UInt8 → Bool} {first second : PolyguardError}
    (nil : check [] = .ok ())
    (cons : ∀ name names, check (name :: names) =
      if malformed name then .error first else if forbidden name then .error second else check names)
    (names : List (List UInt8)) : check names = .ok () ↔ ∀ name ∈ names, malformed name = false ∧ forbidden name = false := by
  induction names with
  | nil => simp [nil]
  | cons name names ih =>
    rw [cons,List.forall_mem_cons,← ih]
    cases malformed name with
    | true => simp
    | false =>
      cases forbidden name with
      | true => simp
      | false => simp

theorem lowercase_byte (byte : UInt8) (lower : isAsciiUppercase byte = false) : toAsciiLowercase byte = byte := by
  simp [toAsciiLowercase,lower]

theorem lowercase_name {name : List UInt8} (lower : ∀ b ∈ name, isAsciiUppercase b = false) : name.map toAsciiLowercase = name := by
  rw [List.map_congr_left fun b member => lowercase_byte b (lower b member)]
  exact List.map_id' name

theorem forwarded_start (name : List UInt8) :
    (forwardedStart.length ≤ name.length && eqIgnoreAsciiCase (name.take forwardedStart.length) forwardedStart) =
      forwardedStart.isPrefixOf (name.map toAsciiLowercase) := by
  have lower : forwardedStart.map toAsciiLowercase = forwardedStart := by decide
  rw [Bool.eq_iff_iff,List.isPrefixOf_iff_prefix,List.prefix_iff_eq_take,Bool.and_eq_true,eqIgnoreAsciiCase_iff,lower,decide_eq_true_eq,
    ← List.map_take]
  constructor
  · exact fun both => both.2.symm
  · intro same
    refine ⟨?_,same.symm⟩
    have lengths := congrArg List.length same
    rw [List.length_map,List.length_take] at lengths
    omega

theorem listed_name {listed : List (List UInt8)} (lower : listed.map (List.map toAsciiLowercase) = listed) (name : List UInt8) :
    listed.any (eqIgnoreAsciiCase name) = listed.contains (name.map toAsciiLowercase) := by
  rw [Bool.eq_iff_iff,List.any_eq_true,List.contains_iff_mem]
  constructor
  · rintro ⟨other,member,same⟩
    rw [eqIgnoreAsciiCase_iff] at same
    rw [same,← lower]
    exact List.mem_map_of_mem member
  · intro member
    refine ⟨_,member,?_⟩
    rw [eqIgnoreAsciiCase_iff,List.map_map]
    exact List.map_congr_left fun b _ => (toAsciiLowercase_idem b).symm

theorem forbidden_wire (name : List UInt8) : isForbiddenWire forbiddenTrailers name = isForbiddenTrailer (name.map toAsciiLowercase) := by
  unfold isForbiddenWire isForbiddenTrailer
  rw [forwarded_start,listed_name (by decide +kernel)]

theorem forbidden_invariants (name : List UInt8) :
    isForbiddenWire TrailerValidatedInvariants.forbidden name = isForbiddenTrailer (name.map toAsciiLowercase) := by
  unfold isForbiddenWire isForbiddenTrailer
  rw [forwarded_start,listed_name (by decide +kernel)]
  unfold TrailerValidatedInvariants.forbidden
  generalize name.map toAsciiLowercase = lower
  rw [Bool.eq_iff_iff]
  simp only [Bool.or_eq_true,List.contains_iff_mem,List.mem_append,List.mem_cons,List.not_mem_nil,or_false]
  constructor
  · rintro (start | listed | rfl | rfl)
    · exact .inl start
    · exact .inr listed
    · exact .inl (by decide)
    · exact .inl (by decide)
  · rintro (start | listed)
    · exact .inl start
    · exact .inr (.inl listed)

theorem declaredName_iff {name : List UInt8} (short : name.length ≤ trailerNameBytes) (accepts : UInt8 → Bool)
    (bytes : ∀ b, accepts b = (isTchar b && !isAsciiUppercase b)) :
    DeclaredName name ↔
      (name.isEmpty || decide (name.length > trailerNameBytes) || !name.all accepts) = false ∧ isForbiddenTrailer name = false := by
  have within : decide (name.length > trailerNameBytes) = false := by simpa using short
  rw [within,Bool.or_false,Bool.or_eq_false_iff,List.isEmpty_eq_false_iff,Bool.not_eq_false',List.all_eq_true]
  constructor
  · rintro ⟨filled,token,allowed⟩
    refine ⟨⟨filled,?_⟩,allowed⟩
    intro b member
    rw [bytes,(token b member).1,(token b member).2]
    rfl
  · rintro ⟨⟨filled,token⟩,allowed⟩
    refine ⟨filled,?_,allowed⟩
    intro b member
    have accepted := token b member
    rw [bytes,Bool.and_eq_true,Bool.not_eq_true'] at accepted
    exact accepted

theorem table_ok {names : List (List UInt8)} (check : List (List UInt8) → Result Unit)
    (checks : check names = .ok () ↔ ∀ name ∈ names, DeclaredName name) {sorted table : List (List UInt8)}
    (sorts : check names = .ok () → sorted = Ordered.sort names) {refusal : PolyguardError} :
    (check names >>= fun _ => if hasEqualNeighbours sorted then .error refusal else .ok sorted) = .ok table ↔
      Declarable names ∧ table = Ordered.sort names := by
  cases checked : check names with
  | error error =>
    constructor
    · intro impossible
      cases impossible
    · rintro ⟨⟨_,each⟩,_⟩
      rw [checks.mpr each] at checked
      cases checked
  | ok _ =>
    rw [bind_ok,sorts checked]
    have each := checks.mp checked
    have apart := equalNeighbours_sort names
    cases equal : hasEqualNeighbours (Ordered.sort names) with
    | true =>
      constructor
      · intro impossible
        cases impossible
      · rintro ⟨⟨distinct,_⟩,_⟩
        rw [apart.mpr distinct] at equal
        cases equal
    | false =>
      have distinct := apart.mp equal
      constructor
      · intro same
        cases same
        exact ⟨⟨distinct,each⟩,rfl⟩
      · rintro ⟨_,rfl⟩
        rfl

theorem direct_table {names table : List (List UInt8)} (short : Short names) :
    TrailerDirectTable.declarationTable names = .ok table ↔ Declarable names ∧ table = Ordered.sort names := by
  have bytes : ∀ b, TrailerDirectTable.isDeclarationByte b = (isTchar b && !isAsciiUppercase b) :=
    forall_byte (p := fun b => TrailerDirectTable.isDeclarationByte b = (isTchar b && !isAsciiUppercase b)) (by decide)
  refine table_ok TrailerDirectTable.checkDeclarations ?_ ?_
  · rw [check_names rfl (fun _ _ => rfl)]
    refine forall₂_congr fun name member => ?_
    exact (declaredName_iff (short name member) _ bytes).symm
  · intro _
    have ordered := radixOrder_sort 257 id (show Short (names.map id) by rwa [List.map_id]) ?_ (by decide)
    · rwa [List.map_id,List.map_id] at ordered
    · intro name _ b _
      have byte := b.toNat_lt
      omega

theorem invariants_table {names table : List (List UInt8)} (short : Short names) :
    TrailerValidatedInvariants.declarationDomain names = .ok table ↔ Declarable names ∧ table = Ordered.sort names := by
  have bytes (b : UInt8) : TrailerValidatedInvariants.isLowercaseTokenByte b = (isTchar b && !isAsciiUppercase b) := Bool.and_comm _ _
  refine table_ok TrailerValidatedInvariants.checkDeclarations ?_ fun _ => rfl
  rw [check_names rfl (fun _ _ => rfl)]
  refine forall₂_congr fun name member => ?_
  rw [declaredName_iff (short name member) _ bytes]
  refine and_congr_right fun accepted => ?_
  rw [forbidden_invariants,lowercase_name]
  intro b inside
  rw [Bool.or_eq_false_iff,Bool.not_eq_false',List.all_eq_true] at accepted
  have token := accepted.2 b inside
  rw [bytes,Bool.and_eq_true,Bool.not_eq_true'] at token
  exact token.2

/-- The tests of the bytes of a name in two loops. -/
theorem token_loops (name : List UInt8) :
    (!name.all fun b => isTchar b && !isAsciiUppercase b) = (!name.all isTchar || name.any isAsciiUppercase) := by
  induction name with
  | nil => rfl
  | cons b name ih =>
    rw [List.all_cons,List.all_cons,List.any_cons,Bool.not_and,ih]
    cases isTchar b <;> cases isAsciiUppercase b <;> simp

theorem automaton_table {names table : List (List UInt8)} (short : Short names) :
    TrailerEventAutomaton.compileDeclarations names = .ok table ↔ Declarable names ∧ table = Ordered.sort names := by
  refine table_ok TrailerEventAutomaton.checkDeclarations ?_ fun _ => rfl
  rw [check_names rfl (fun _ _ => rfl)]
  refine forall₂_congr fun name member => ?_
  rw [declaredName_iff (short name member) _ (fun _ => rfl),token_loops,Bool.or_comm (!name.all isTchar),← Bool.or_assoc]

section Phases

open TrailerTransitionPhases

theorem tchar_small (byte : UInt8) : isTchar byte → byte.toNat + 1 < 128 :=
  forall_byte (p := fun b => isTchar b → b.toNat + 1 < 128) (by decide) byte

theorem earliestOf_isSome (earliest second : Option Nat) :
    (earliestOf earliest second).isSome = (earliest.isSome || second.isSome) := by
  cases earliest <;> cases second <;> rfl

theorem add_second (group : Group) (index : Nat) : (group.add index).second.isSome = true := by
  unfold Group.add
  split
  · rfl
  · cases second : group.second with
    | none => rfl
    | some other =>
      dsimp only
      split
      · rfl
      · simp [second]

theorem duplicateFrom_isSome (entries : List (Nat × List UInt8)) (earliest : Option Nat) (group : Group) :
    (duplicateFrom earliest group entries).isSome =
      (earliest.isSome || group.second.isSome || hasEqualNeighbours (group.name :: entries.map Prod.snd)) := by
  induction entries generalizing earliest group with
  | nil => simp [duplicateFrom,earliestOf_isSome,hasEqualNeighbours]
  | cons entry entries ih =>
    obtain ⟨index,name⟩ := entry
    unfold duplicateFrom
    rw [List.map_cons,hasEqualNeighbours]
    by_cases same : name = group.name
    · rw [if_pos (by simp [same]),ih,add_second]
      simp [same]
    · rw [if_neg (by simpa using same),ih,earliestOf_isSome]
      have differ : (group.name == name) = false := by simpa using Ne.symm same
      simp [differ]

theorem earliestDuplicate_isSome (entries : List (Nat × List UInt8)) :
    (earliestDuplicate entries).isSome = hasEqualNeighbours (entries.map Prod.snd) := by
  rcases entries with _ | ⟨⟨index,name⟩,entries⟩
  · rfl
  · unfold earliestDuplicate
    rw [duplicateFrom_isSome]
    rfl

theorem survey_names (names : List (List UInt8)) (start : Nat) (short : Short names) :
    (surveyFrom (names.zipIdx start)).2 = none ↔ ∀ name ∈ names, DeclaredName name := by
  induction names generalizing start with
  | nil => simp [surveyFrom]
  | cons name names ih =>
    have tests := declaredName_iff (short name (by simp)) (fun b => isTchar b && !isAsciiUppercase b) (fun _ => rfl)
    rw [token_loops,← Bool.or_assoc] at tests
    rw [List.zipIdx_cons,surveyFrom,List.forall_mem_cons,tests,← ih (start + 1) fun other member => short other (by simp [member])]
    cases malformed : name.isEmpty || decide (name.length > trailerNameBytes) || !name.all isTchar || name.any isAsciiUppercase with
    | true => simp
    | false =>
      cases isForbiddenTrailer name with
      | true => simp
      | false => simp

theorem survey_front (names : List (List UInt8)) (start : Nat) (clean : (surveyFrom (names.zipIdx start)).2 = none) :
    (surveyFrom (names.zipIdx start)).1.map Prod.snd = names := by
  induction names generalizing start with
  | nil => rfl
  | cons name names ih =>
    rw [List.zipIdx_cons,surveyFrom] at clean ⊢
    split at clean
    · cases clean
    · rename_i accepted
      rw [if_neg accepted]
      split at clean
      · cases clean
      · rename_i allowed
        rw [if_neg allowed]
        dsimp only at clean ⊢
        rw [List.map_cons,ih (start + 1) clean]

theorem phases_table {names table : List (List UInt8)} (short : Short names) :
    catalogDeclarations names = .ok table ↔ Declarable names ∧ table = Ordered.sort names := by
  have issues := survey_names names 0 short
  have kept := survey_front names 0
  unfold catalogDeclarations
  generalize surveyFrom names.zipIdx = survey at issues kept
  obtain ⟨valid,issue⟩ := survey
  dsimp only at issues kept ⊢
  have repeated := earliestDuplicate_isSome (radixOrder 128 Prod.snd valid)
  cases issue with
  | some found =>
    have failed : ¬ Declarable names := fun declarable => by cases issues.mpr declarable.each
    cases earliestDuplicate (radixOrder 128 Prod.snd valid) with
    | none => simp [invalidTrailer,failed]
    | some index =>
      dsimp only
      split <;> simp [invalidTrailer,failed]
  | none =>
    have each := issues.mp rfl
    have same := kept rfl
    have sorted : (radixOrder 128 Prod.snd valid).map Prod.snd = Ordered.sort names := by
      rw [← same]
      apply radixOrder_sort 128 Prod.snd (by rwa [same]) _ (by decide)
      intro entry member b inside
      have name := each entry.2 (by rw [← same]; exact List.mem_map_of_mem member)
      exact tchar_small b (name.token b inside).1
    rw [sorted] at repeated
    have apart := equalNeighbours_sort names
    cases duplicate : earliestDuplicate (radixOrder 128 Prod.snd valid) with
    | some index =>
      have failed : ¬ Declarable names := by
        intro declarable
        rw [apart.mpr declarable.distinct,duplicate] at repeated
        cases repeated
      simp [invalidTrailer,failed]
    | none =>
      rw [duplicate] at repeated
      have declarable : Declarable names := ⟨apart.mp repeated.symm,each⟩
      simp only [sorted,Except.ok.injEq]
      constructor
      · exact fun equal => ⟨declarable,equal.symm⟩
      · exact fun both => both.2.symm

end Phases

section NameTrie

open TrailerInvariantTrie

/-- The edges of the trie of declared names. -/
def nameLayout : Trie.Layout UInt8 DeclaredNames := Trie.edgeLayout NameNode.edges

/-- The trie holds the declared names and, of them, the received ones. -/
structure Represents (nodes : DeclaredNames) (names received : List (List UInt8)) : Prop where
  valid : nameLayout.Valid nodes
  declares : ∀ name, nameLayout.Holds nodes (declaredAt nodes) name ↔ name ∈ names
  receives : ∀ name, nameLayout.Holds nodes (receivedAt nodes) name ↔ name ∈ received

theorem childOf_follow (nodes : DeclaredNames) (index : Nat) (byte : UInt8) : childOf nodes index byte = nameLayout.child nodes index byte := by
  have follows (edges : List (UInt8 × Nat)) :
      (edges.find? fun edge => edge.1 == byte).map Prod.snd = Trie.follow edges byte := by
    induction edges with
    | nil => rfl
    | cons edge edges ih =>
      unfold Trie.follow at ih ⊢
      rw [List.find?_cons,List.findSome?_cons]
      cases edge.1 == byte with
      | true => rfl
      | false => exact ih
  unfold childOf nameLayout Trie.edgeLayout
  simp only [follows]

theorem name_round (nodes : DeclaredNames) (index : Nat) (byte : UInt8) (_ : True) (valid : nameLayout.Valid nodes)
    (inside : index < nameLayout.size nodes) :
    True ∧ nameLayout.Extends nodes (insertByte (nodes,index) byte).1 ∧
      nameLayout.child (insertByte (nodes,index) byte).1 index byte = some (insertByte (nodes,index) byte).2 := by
  unfold insertByte
  dsimp only
  rw [childOf_follow]
  cases found : nameLayout.child nodes index byte with
  | some next => exact ⟨trivial,.refl valid,found⟩
  | none =>
    refine ⟨trivial,?_⟩
    exact Trie.edge_link NameNode.default rfl (fun edge node => { node with edges := node.edges ++ [edge] })
      (fun _ _ => rfl) valid inside found

/-- The loop of an insertion leaves the marks alone. -/
theorem name_marks {read : NameNode → Bool} (fresh : read NameNode.default = false)
    (keeps : ∀ (node : NameNode) (edges : List (UInt8 × Nat)), read { node with edges := edges } = read node) (name : List UInt8)
    (state : DeclaredNames × Nat) (index : Nat) :
    (name.foldl insertByte state).1[index]?.any read = state.1[index]?.any read := by
  induction name generalizing state with
  | nil => rfl
  | cons byte name ih =>
    rw [List.foldl_cons,ih]
    unfold insertByte
    cases childOf state.1 state.2 byte with
    | some next => rfl
    | none => exact Trie.link_marks fresh (fun node => keeps node _) state.1 state.2 index

theorem marked_lt {read : NameNode → Bool} {nodes : DeclaredNames} {node : Nat} (marked : nodes[node]?.any read) :
    node < nameLayout.size nodes := by
  by_contra outside
  rw [List.getElem?_eq_none (by unfold nameLayout Trie.edgeLayout at outside; simpa using outside)] at marked
  cases marked

theorem kept_marks (read : NameNode → Bool) (change : NameNode → NameNode) (keeps : ∀ node, read (change node) = read node)
    (nodes : DeclaredNames) (index node : Nat) : (nodes.modify index change)[node]?.any read = nodes[node]?.any read := by
  rw [List.getElem?_modify]
  cases nodes[node]? with
  | none => simp
  | some found =>
    by_cases same : index = node
    · simp [same,keeps]
    · simp [same]

theorem holds_later {before after : DeclaredNames} (later : nameLayout.Extends before after) {mark : Nat → Bool}
    (marks : ∀ node, mark node → node < nameLayout.size before) (name : List UInt8) :
    nameLayout.Holds after mark name ↔ nameLayout.Holds before mark name := by
  constructor
  · rintro ⟨node,arrives,marked⟩
    exact ⟨node,later.walk_fresh arrives (marks node marked),marked⟩
  · rintro ⟨node,arrives,marked⟩
    exact ⟨node,later.walk_keeps arrives,marked⟩

theorem insert_name {nodes : DeclaredNames} {names : List (List UInt8)} (represents : Represents nodes names [])
    (name : List UInt8) :
    (name ∈ names → TrailerInvariantTrie.insert nodes name = invalidTrailer "duplicate_declaration") ∧
      (name ∉ names → ∃ after, TrailerInvariantTrie.insert nodes name = .ok after ∧ Represents after (names ++ [name]) []) := by
  obtain ⟨valid,declares,receives⟩ := represents
  obtain ⟨-,later,reached⟩ := Trie.Layout.foldl_walk (fun _ => True) name_round name nodes 0 trivial valid valid.rooted
  have declaredMarks (index : Nat) : declaredAt (name.foldl insertByte (nodes,0)).1 index = declaredAt nodes index :=
    name_marks rfl (fun _ _ => rfl) name (nodes,0) index
  have receivedMarks (index : Nat) : receivedAt (name.foldl insertByte (nodes,0)).1 index = receivedAt nodes index :=
    name_marks rfl (fun _ _ => rfl) name (nodes,0) index
  unfold TrailerInvariantTrie.insert
  generalize name.foldl insertByte (nodes,0) = walked at later reached declaredMarks receivedMarks ⊢
  obtain ⟨after,target⟩ := walked
  dsimp only at later reached declaredMarks receivedMarks ⊢
  have declaredInside (node : Nat) (marked : declaredAt nodes node) : node < nameLayout.size nodes := marked_lt marked
  have receivedInside (node : Nat) (marked : receivedAt nodes node) : node < nameLayout.size nodes := marked_lt marked
  have known := later.marked_iff declaredInside reached
  rw [declares] at known
  rw [declaredMarks]
  constructor
  · intro member
    rw [if_pos (known.mpr member)]
  · intro absent
    rw [if_neg (fun marked => absent (known.mp marked))]
    refine ⟨_,rfl,?_⟩
    have inside : target < after.length := later.valid.walk_lt reached
    have edges : nameLayout.child (after.modify target fun node => { node with declared := true }) = nameLayout.child after :=
      Trie.edge_mark (fun node : NameNode => { node with declared := true }) (fun _ => rfl) after target
    have later' : nameLayout.Extends nodes (after.modify target fun node => { node with declared := true }) :=
      later.transfer (by simp [nameLayout,Trie.edgeLayout]) edges
    have marks (node : Nat) : declaredAt (after.modify target fun node => { node with declared := true }) node ↔
        declaredAt nodes node ∨ node = target := by
      rw [← declaredMarks]
      exact Trie.set_marks (fun _ => rfl) inside node
    have others : receivedAt (after.modify target fun node => { node with declared := true }) = receivedAt nodes := by
      funext node
      rw [← receivedMarks]
      exact kept_marks (·.received) (fun node => { node with declared := true }) (fun _ => rfl) after target node
    rw [← edges] at reached
    refine ⟨later'.valid,?_,?_⟩
    · intro other
      rw [later'.holds_iff declaredInside reached marks other,declares,List.mem_append,List.mem_singleton,or_comm]
    · intro other
      rw [others,holds_later later' receivedInside,receives]

theorem represents_root : Represents [NameNode.default] [] [] := by
  have nothing {read : NameNode → Bool} (fresh : read NameNode.default = false) (name : List UInt8) :
      ¬ nameLayout.Holds [NameNode.default] (fun node => ([NameNode.default] : DeclaredNames)[node]?.any read) name := by
    rintro ⟨node,-,marked⟩
    rcases node with _ | node
    · simp [fresh] at marked
    · simp at marked
  refine ⟨Trie.edge_valid NameNode.edges NameNode.default rfl,?_,?_⟩
  · intro name
    simp only [List.not_mem_nil,iff_false]
    exact nothing rfl name
  · intro name
    simp only [List.not_mem_nil,iff_false]
    exact nothing rfl name

theorem lowercaseToken_iff (name : List UInt8) :
    isLowercaseToken name ↔ name ≠ [] ∧ ∀ b ∈ name, isTchar b ∧ isAsciiUppercase b = false := by
  have letters : ∀ b, (!(isAsciiUppercase b || isAsciiLowercase b) || isAsciiLowercase b) = !isAsciiUppercase b :=
    forall_byte (p := fun b => (!(isAsciiUppercase b || isAsciiLowercase b) || isAsciiLowercase b) = !isAsciiUppercase b) (by decide)
  unfold isLowercaseToken
  simp only [letters,Bool.and_eq_true,Bool.not_eq_true',List.isEmpty_eq_false_iff,List.all_eq_true]
  constructor
  · rintro ⟨⟨filled,tokens⟩,lower⟩
    exact ⟨filled,fun b member => ⟨tokens b member,lower b member⟩⟩
  · rintro ⟨filled,both⟩
    exact ⟨⟨filled,fun b member => (both b member).1⟩,fun b member => (both b member).2⟩

theorem validate_name {nodes : DeclaredNames} {names : List (List UInt8)} (represents : Represents nodes names []) (name : List UInt8) :
    (¬ (DeclaredName name ∧ name ∉ names) → ∃ error, validateName nodes name = .error error) ∧
      (DeclaredName name ∧ name ∉ names → ∃ after, validateName nodes name = .ok after ∧ Represents after (names ++ [name]) []) := by
  obtain ⟨refused,added⟩ := insert_name represents name
  unfold validateName
  cases token : isLowercaseToken name with
  | false =>
    refine ⟨fun _ => ⟨_,rfl⟩,fun both => ?_⟩
    rw [(lowercaseToken_iff name).mpr ⟨both.1.filled,both.1.token⟩] at token
    cases token
  | true =>
    obtain ⟨filled,tokens⟩ := (lowercaseToken_iff name).mp token
    simp only [Bool.not_true,Bool.false_eq_true,if_false]
    cases allowed : isForbiddenTrailer name with
    | true =>
      refine ⟨fun _ => ⟨_,rfl⟩,fun both => ?_⟩
      rw [both.1.allowed] at allowed
      cases allowed
    | false =>
      simp only [Bool.false_eq_true,if_false]
      refine ⟨fun wrong => ?_,fun both => added both.2⟩
      by_cases member : name ∈ names
      · exact ⟨_,refused member⟩
      · exact absurd ⟨⟨filled,tokens,allowed⟩,member⟩ wrong

theorem validate_names (later earlier : List (List UInt8)) (nodes : DeclaredNames) (represents : Represents nodes earlier [])
    (declarable : Declarable earlier) :
    (∀ after, later.foldlM validateName nodes = .ok after → Declarable (earlier ++ later) ∧ Represents after (earlier ++ later) []) ∧
      (Declarable (earlier ++ later) → ∃ after, later.foldlM validateName nodes = .ok after) := by
  induction later generalizing earlier nodes with
  | nil =>
    rw [List.append_nil]
    refine ⟨?_,fun _ => ⟨_,rfl⟩⟩
    intro after same
    cases same
    exact ⟨declarable,represents⟩
  | cons name later ih =>
    obtain ⟨refused,added⟩ := validate_name represents name
    rw [List.foldlM_cons,List.append_cons]
    by_cases fits : DeclaredName name ∧ name ∉ earlier
    · obtain ⟨after,stepped,represents'⟩ := added fits
      rw [stepped,bind_ok]
      apply ih _ _ represents'
      refine ⟨?_,?_⟩
      · rw [List.nodup_append]
        refine ⟨declarable.distinct,by simp,?_⟩
        rintro left leftMember right rightMember rfl
        rw [List.mem_singleton.mp rightMember] at leftMember
        exact fits.2 leftMember
      · intro other member
        rcases List.mem_append.mp member with old | new
        · exact declarable.each other old
        · rw [List.mem_singleton.mp new]
          exact fits.1
    · obtain ⟨error,failed⟩ := refused fits
      rw [failed,bind_error]
      constructor
      · intro after impossible
        cases impossible
      · intro whole
        refine absurd ⟨whole.each name (by simp),?_⟩ fits
        intro member
        have apart := whole.distinct.of_append_left
        rw [List.nodup_append] at apart
        exact apart.2.2 name member name (by simp) rfl

theorem trie_table (names : List (List UInt8)) :
    (∀ nodes, validate names = .ok nodes → Declarable names ∧ Represents nodes names []) ∧
      (Declarable names → ∃ nodes, validate names = .ok nodes) :=
  validate_names names [] _ represents_root ⟨List.nodup_nil,fun _ member => by cases member⟩

theorem walk_names (nodes : DeclaredNames) (index : Nat) (name : List UInt8) :
    walk nodes index name = Trie.walk (nameLayout.child nodes) index name := by
  induction name generalizing index with
  | nil => rfl
  | cons byte name ih =>
    unfold walk Trie.walk
    rw [childOf_follow]
    cases nameLayout.child nodes index byte with
    | none => rfl
    | some next => exact ih next

theorem accept_received {nodes : DeclaredNames} {names received : List (List UInt8)} (represents : Represents nodes names received)
    (name : List UInt8) :
    (¬ (isForbiddenTrailer name = false ∧ name ∈ names ∧ name ∉ received) → ∃ error, acceptReceived nodes name = .error error) ∧
      (isForbiddenTrailer name = false ∧ name ∈ names ∧ name ∉ received →
        ∃ after, acceptReceived nodes name = .ok after ∧ Represents after names (received ++ [name])) := by
  obtain ⟨valid,declares,receives⟩ := represents
  have declaredInside (node : Nat) (marked : declaredAt nodes node) : node < nameLayout.size nodes := marked_lt marked
  have receivedInside (node : Nat) (marked : receivedAt nodes node) : node < nameLayout.size nodes := marked_lt marked
  unfold acceptReceived
  rw [walk_names]
  cases allowed : isForbiddenTrailer name with
  | true => exact ⟨fun _ => ⟨_,rfl⟩,fun both => by cases both.1⟩
  | false =>
    simp only [Bool.false_eq_true,if_false,true_and]
    cases arrives : Trie.walk (nameLayout.child nodes) 0 name with
    | none =>
      refine ⟨fun _ => ⟨_,rfl⟩,fun both => ?_⟩
      obtain ⟨node,reached,-⟩ := (declares name).mpr both.1
      rw [arrives] at reached
      cases reached
    | some target =>
      have declared : declaredAt nodes target = true ↔ name ∈ names := by
        rw [← declares]
        constructor
        · exact fun marked => ⟨target,arrives,marked⟩
        · rintro ⟨node,reached,marked⟩
          rw [arrives] at reached
          cases reached
          exact marked
      have taken : receivedAt nodes target = true ↔ name ∈ received := by
        rw [← receives]
        constructor
        · exact fun marked => ⟨target,arrives,marked⟩
        · rintro ⟨node,reached,marked⟩
          rw [arrives] at reached
          cases reached
          exact marked
      dsimp only
      cases known : declaredAt nodes target with
      | false =>
        refine ⟨fun _ => ⟨_,rfl⟩,fun both => ?_⟩
        rw [declared.mpr both.1] at known
        cases known
      | true =>
        simp only [Bool.not_true,Bool.false_eq_true,if_false]
        cases earlier : receivedAt nodes target with
        | true => exact ⟨fun _ => ⟨_,rfl⟩,fun both => absurd (taken.mp earlier) both.2⟩
        | false =>
          have fresh : name ∉ received := fun member => by rw [taken.mpr member] at earlier; cases earlier
          refine ⟨fun wrong => absurd ⟨declared.mp known,fresh⟩ wrong,fun _ => ⟨_,rfl,?_⟩⟩
          have inside : target < nodes.length := valid.walk_lt arrives
          have edges : nameLayout.child (nodes.modify target fun node => { node with received := true }) = nameLayout.child nodes :=
            Trie.edge_mark (fun node : NameNode => { node with received := true }) (fun _ => rfl) nodes target
          have later : nameLayout.Extends nodes (nodes.modify target fun node => { node with received := true }) :=
            (Trie.Layout.Extends.refl valid).transfer (by simp [nameLayout,Trie.edgeLayout]) edges
          have marks (node : Nat) : receivedAt (nodes.modify target fun node => { node with received := true }) node ↔
              receivedAt nodes node ∨ node = target := Trie.set_marks (fun _ => rfl) inside node
          have others : declaredAt (nodes.modify target fun node => { node with received := true }) = declaredAt nodes := by
            funext node
            exact kept_marks (·.declared) (fun node => { node with received := true }) (fun _ => rfl) nodes target node
          rw [← edges] at arrives
          refine ⟨later.valid,?_,?_⟩
          · intro other
            rw [others,holds_later later declaredInside,declares]
          · intro other
            rw [later.holds_iff receivedInside arrives marks other,receives,List.mem_append,List.mem_singleton,or_comm]

end NameTrie

end Polyguard.TrailerDeclarations

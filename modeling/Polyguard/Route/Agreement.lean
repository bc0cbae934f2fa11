import Polyguard.Route.Rules
import Polyguard.Route.Orders

/-! Agreement of the five route matchers.
A table of rules is judged rule by rule: a rule is checked, and then its order
compared with the earlier ones. One implementation checks all rules before it
compares any orders, and two do not bound the length of a prefix; the matchers
agree exactly on the tables on which neither difference shows. -/
namespace Polyguard.RouteAgreement
open Ascii Slices TargetBytes Route

def duplicateOrder : String := "duplicate_declaration_order"

/-- The first fault of a table behind the rules that have passed. -/
def tableFault (bounded : Bool) (passed : List RouteRule) : List RouteRule → Option String
  | [] => none
  | rule :: rules =>
    match ruleFault bounded rule with
    | some reason => some reason
    | none =>
      if rule.declarationOrder ∈ passed.map (·.declarationOrder) then some duplicateOrder
      else tableFault bounded (passed ++ [rule]) rules

def eligible (authority : EffectiveAuthority) (path : List UInt8) (rule : RouteRule) : Bool :=
  eqIgnoreAsciiCase rule.host authority.host && covers rule.pathPrefix path

/-- The longer prefix, then the earlier declaration. -/
def outranks (rule other : RouteRule) : Bool :=
  rule.pathPrefix.length > other.pathPrefix.length ||
    (rule.pathPrefix.length == other.pathPrefix.length && rule.declarationOrder < other.declarationOrder)

def pick (authority : EffectiveAuthority) (path : List UInt8) (best : Option RouteRule) (rule : RouteRule) :
    Option RouteRule :=
  if eligible authority path rule then
    match best with
    | none => some rule
    | some current => if outranks rule current then some rule else some current
  else best

def selected (authority : EffectiveAuthority) (path : List UInt8) (rules : List RouteRule) : Option RouteRule :=
  rules.foldl (pick authority path) none

def serve : Option RouteRule → Result RouteMatch
  | some rule => .ok ⟨rule.upstream,rule.declarationOrder⟩
  | none => .error .noRoute

def judged (fault : Option String) (choice : Option RouteRule) : Result RouteMatch :=
  match fault with
  | some reason => invalidRoute reason
  | none => serve choice

def routable (target : NormalizedTarget) : Bool :=
  (target.form = .origin || target.form = .absolute) && startsWith 0x2f target.routingPath

/-- The checks that every implementation makes before it looks at a rule. -/
def framed (target : NormalizedTarget) (rules : List RouteRule) (answer : Result RouteMatch) : Result RouteMatch :=
  if rules.length > 256 then tooManyRoutes 256 rules.length
  else if routable target then answer
  else invalidRoute "invalid_target"

section run
variable {σ : Type} (bounded : Bool) (step : σ → RouteRule → Result σ) (Reached : List RouteRule → σ → Prop)

/-- One round of a matcher that checks a rule and then its order. -/
def Round : Prop := ∀ passed state rule, Reached passed state → passed.length < 256 →
  ∃ next, step state rule = afterChecks bounded rule
      (if rule.declarationOrder ∈ passed.map (·.declarationOrder) then invalidRoute duplicateOrder else .ok next) ∧
    (rule.declarationOrder ∉ passed.map (·.declarationOrder) → Reached (passed ++ [rule]) next)

theorem table_run (round : Round bounded step Reached) (rules : List RouteRule) : ∀ passed state,
    Reached passed state → passed.length + rules.length ≤ 256 →
    (∃ reason, tableFault bounded passed rules = some reason ∧ rules.foldlM step state = invalidRoute reason) ∨
    (tableFault bounded passed rules = none ∧
      ∃ final, rules.foldlM step state = .ok final ∧ Reached (passed ++ rules) final) := by
  induction rules with
  | nil =>
    intro passed state reached _
    exact .inr ⟨rfl,state,rfl,by simpa using reached⟩
  | cons rule rules ih =>
    intro passed state reached room
    rw [List.length_cons] at room
    obtain ⟨next,stepped,kept⟩ := round passed state rule reached (by omega)
    rw [List.foldlM_cons,stepped]
    unfold tableFault afterChecks
    cases fault : ruleFault bounded rule with
    | some reason => exact .inl ⟨reason,rfl,rfl⟩
    | none =>
      by_cases repeated : rule.declarationOrder ∈ passed.map (·.declarationOrder)
      · exact .inl ⟨duplicateOrder,by rw [if_pos repeated],by rw [if_pos repeated]; rfl⟩
      · rw [if_neg repeated,if_neg repeated,bind_ok]
        have later := ih (passed ++ [rule]) next (kept repeated) (by simp only [List.length_append,List.length_singleton]; omega)
        rwa [List.append_assoc] at later

end run

theorem mem_orders (passed : List RouteRule) (order : UInt64) :
    ((passed.map (·.declarationOrder)).reverse.contains order) =
      decide (order ∈ passed.map (·.declarationOrder)) := by
  rw [List.contains_eq_mem]
  simp only [List.mem_reverse]

theorem orders_snoc (passed : List RouteRule) (rule : RouteRule) :
    ((passed ++ [rule]).map (·.declarationOrder)).reverse =
      rule.declarationOrder :: (passed.map (·.declarationOrder)).reverse := by
  rw [List.map_append,List.reverse_append]
  rfl

theorem selected_snoc (authority : EffectiveAuthority) (path : List UInt8) (passed : List RouteRule) (rule : RouteRule) :
    selected authority path (passed ++ [rule]) = pick authority path (selected authority path passed) rule := by
  rw [selected,List.foldl_append]
  rfl

theorem outranks_compare (rule other : RouteRule) :
    outranks rule other = match compare rule.pathPrefix.length other.pathPrefix.length with
      | .gt => true
      | .eq => decide (rule.declarationOrder < other.declarationOrder)
      | .lt => false := by
  unfold outranks
  rcases Nat.lt_trichotomy rule.pathPrefix.length other.pathPrefix.length with less | same | more
  · rw [Nat.compare_eq_lt.mpr less]
    simp [Nat.ne_of_lt less,Nat.le_of_lt less]
  · rw [Nat.compare_eq_eq.mpr same]
    simp [same]
  · rw [Nat.compare_eq_gt.mpr more]
    simp [more]

def directRule (rule : RouteRule) : RouteDirect.ValidRule :=
  ⟨rule.host,rule.pathPrefix,rule.upstream,rule.declarationOrder⟩

theorem direct_round (authority : EffectiveAuthority) (path : List UInt8) :
    Round true (RouteDirect.considerRule authority path) fun passed state =>
      state = ((passed.map (·.declarationOrder)).reverse,(selected authority path passed).map directRule) := by
  intro passed state rule reached _
  subst reached
  refine ⟨(rule.declarationOrder :: (passed.map (·.declarationOrder)).reverse,
    (pick authority path (selected authority path passed) rule).map directRule),?_,?_⟩
  · unfold RouteDirect.considerRule
    rw [direct_rule]
    unfold afterChecks insertOrder
    cases ruleFault true rule with
    | some reason => rfl
    | none =>
      simp only [bind_ok,mem_orders]
      by_cases repeated : rule.declarationOrder ∈ passed.map (·.declarationOrder)
      · simp [repeated,duplicateOrder]
      · simp only [repeated,decide_false,Bool.false_eq_true,if_false,Bool.not_true,direct_covers]
        unfold pick eligible
        cases eqIgnoreAsciiCase rule.host authority.host with
        | false => simp
        | true =>
          cases covers rule.pathPrefix path with
          | false => simp
          | true =>
            cases selected authority path passed with
            | none => simp [directRule]
            | some current =>
              have same : RouteDirect.precedes (directRule rule) (directRule current) = outranks rule current :=
                (outranks_compare rule current).symm
              simp only [Option.map_some,Bool.and_self,if_true]
              change (Except.ok (_,if RouteDirect.precedes (directRule rule) (directRule current) = true then _ else _) : Result _) = _
              rw [same]
              cases outranks rule current <;> rfl
  · intro _
    rw [orders_snoc,selected_snoc]

theorem outranks_ties (rule other : RouteRule) :
    outranks rule other = match compare rule.pathPrefix.length other.pathPrefix.length with
      | .gt => true
      | .lt => false
      | .eq => match compare rule.declarationOrder other.declarationOrder with
        | .lt => true
        | .eq | .gt => false := by
  rw [outranks_compare]
  cases compare rule.pathPrefix.length other.pathPrefix.length with
  | gt => rfl
  | lt => rfl
  | eq =>
    simp only [compare,compareOfLessAndEq]
    by_cases less : rule.declarationOrder < other.declarationOrder
    · simp [less]
    · by_cases same : rule.declarationOrder = other.declarationOrder <;> simp [less,same]

def boundedWinner (rule : RouteRule) : RouteBoundedMatch.Winner :=
  ⟨⟨rule.pathPrefix.length,rule.declarationOrder⟩,rule.upstream⟩

theorem bounded_choose (best : Option RouteRule) (rule : RouteRule) :
    RouteBoundedMatch.choose (best.map boundedWinner) (boundedWinner rule) =
      (match best with
        | none => some rule
        | some current => if outranks rule current then some rule else some current).map boundedWinner := by
  cases best with
  | none => rfl
  | some current =>
    simp only [outranks_ties,Option.map_some,RouteBoundedMatch.choose,boundedWinner]
    cases compare rule.pathPrefix.length current.pathPrefix.length with
    | gt => rfl
    | lt => rfl
    | eq => cases compare rule.declarationOrder current.declarationOrder <;> rfl

theorem bounded_round (authority : EffectiveAuthority) (path : List UInt8) :
    Round true (RouteBoundedMatch.considerRule authority path) fun passed state =>
      Records state.1 (passed.map (·.declarationOrder)).reverse ∧
        state.2 = (selected authority path passed).map boundedWinner := by
  rintro passed ⟨orders,winner⟩ rule ⟨records,reached⟩ room
  dsimp only at records reached
  subst reached
  have checks (next : RouteBoundedMatch.HostName → List UInt8 → List UInt8 →
      Result (RouteBoundedMatch.DeclarationOrders × Option RouteBoundedMatch.Winner)) :=
    checks_row true rule (bounded_host rule.host) (bounded_prefixed rule.pathPrefix) (bounded_upstream rule.upstream) next
  unfold RouteBoundedMatch.considerRule
  dsimp only
  rw [checks]
  by_cases repeated : rule.declarationOrder ∈ passed.map (·.declarationOrder)
  · refine ⟨(orders,none),?_,fun fresh => absurd repeated fresh⟩
    rw [insert_repeated records (List.mem_reverse.mpr repeated)]
    simp [repeated,duplicateOrder]
  · obtain ⟨next,inserted,kept⟩ := insert_fresh records (by rwa [List.mem_reverse]) (by simpa using room)
    refine ⟨(next,(pick authority path (selected authority path passed) rule).map boundedWinner),?_,fun _ => ?_⟩
    · rw [inserted,if_neg repeated]
      congr 1
      simp only [boundedHost_matches,bounded_covers,Bool.not_true,Bool.false_eq_true,if_false]
      unfold pick eligible
      cases eqIgnoreAsciiCase rule.host authority.host <;> cases covers rule.pathPrefix path <;> try rfl
      exact congrArg (fun winner => (Except.ok (next,winner) : Result _))
        (bounded_choose (selected authority path passed) rule)
    · rw [orders_snoc,selected_snoc]
      exact ⟨kept,rfl⟩

def typedCandidate (rule : RouteRule) : RouteTypedArithmetic.Candidate :=
  ⟨rule.pathPrefix,rule.upstream,rule.declarationOrder⟩

theorem typed_better (best : Option RouteRule) (rule : RouteRule) :
    RouteTypedArithmetic.better (best.map typedCandidate) (typedCandidate rule) =
      (match best with
        | none => some rule
        | some current => if outranks rule current then some rule else some current).map typedCandidate := by
  cases best with
  | none => rfl
  | some current =>
    simp only [outranks_ties,Option.map_some,RouteTypedArithmetic.better,typedCandidate]
    cases compare rule.pathPrefix.length current.pathPrefix.length with
    | gt => rfl
    | lt => rfl
    | eq => cases compare rule.declarationOrder current.declarationOrder <;> rfl

theorem typed_round (authority : EffectiveAuthority) (path : List UInt8) :
    Round false (RouteTypedArithmetic.considerRule authority path) fun passed state =>
      state = ((passed.map (·.declarationOrder)).reverse,(selected authority path passed).map typedCandidate) := by
  intro passed state rule reached _
  subst reached
  have prefixed : RouteTypedArithmetic.canonicalPrefix rule.pathPrefix =
      if isPrefix rule.pathPrefix && (!false || rule.pathPrefix.length ≤ prefixLimit) then .ok rule.pathPrefix
      else invalidRoute "invalid_path_prefix" := by simp [typed_prefixed]
  have named : RouteTypedArithmetic.upstreamName rule.upstream =
      if isUpstream rule.upstream then .ok rule.upstream else invalidRoute "invalid_upstream" := rfl
  have checks (next : List UInt8 → List UInt8 → List UInt8 →
      Result (List UInt64 × Option RouteTypedArithmetic.Candidate)) :=
    checks_row false rule (typed_host rule.host) prefixed named next
  refine ⟨(rule.declarationOrder :: (passed.map (·.declarationOrder)).reverse,
    (pick authority path (selected authority path passed) rule).map typedCandidate),?_,?_⟩
  · unfold RouteTypedArithmetic.considerRule
    dsimp only
    rw [checks]
    unfold insertOrder
    rw [mem_orders]
    by_cases repeated : rule.declarationOrder ∈ passed.map (·.declarationOrder)
    · simp [repeated,duplicateOrder]
    · rw [if_neg repeated]
      congr 1
      simp only [repeated,decide_false,Bool.false_eq_true,if_false,Bool.not_true,typed_covers]
      unfold pick eligible
      cases eqIgnoreAsciiCase rule.host authority.host <;> cases covers rule.pathPrefix path <;> try rfl
      exact congrArg (fun winner => (Except.ok (_,winner) : Result _))
        (typed_better (selected authority path passed) rule)
  · intro _
    rw [orders_snoc,selected_snoc]

def tableRule (rule : RouteRule) : RouteImmutableTable.ValidRule :=
  ⟨rule.host,rule.pathPrefix,rule.upstream,rule.declarationOrder⟩

theorem table_round :
    Round false RouteImmutableTable.collectRule fun passed state =>
      state = ((passed.map (·.declarationOrder)).reverse,passed.map tableRule) := by
  intro passed state rule reached _
  subst reached
  refine ⟨(rule.declarationOrder :: (passed.map (·.declarationOrder)).reverse,passed.map tableRule ++ [tableRule rule]),
    ?_,?_⟩
  · unfold RouteImmutableTable.collectRule RouteImmutableTable.validateRule afterChecks insertOrder
    rw [← table_requirements,mem_orders]
    cases RouteImmutableTable.ruleRequirements.find? fun requirement => !requirement.accepts rule with
    | some failed => rfl
    | none =>
      by_cases repeated : rule.declarationOrder ∈ passed.map (·.declarationOrder)
      · simp [repeated,duplicateOrder]
      · simp [repeated,tableRule]
  · intro _
    rw [orders_snoc,List.map_append]
    rfl

theorem maxByKey_snoc {α κ : Type} (greater : κ → κ → Bool) (key : α → κ) (items : List α) (item : α) :
    maxByKey greater key (items ++ [item]) = some (match maxByKey greater key items with
      | none => item
      | some best => if greater (key best) (key item) then best else item) := by
  cases items with
  | nil => rfl
  | cons first rest =>
    rw [List.cons_append,maxByKey,List.foldl_append]
    rfl

theorem pick_cases (authority : EffectiveAuthority) (path : List UInt8) (best : Option RouteRule) (rule : RouteRule) :
    pick authority path best rule = best ∨ pick authority path best rule = some rule := by
  unfold pick
  split
  · cases best with
    | none => exact .inr rfl
    | some current =>
      dsimp only
      split <;> simp
  · exact .inl rfl

theorem selected_mem {authority : EffectiveAuthority} {path : List UInt8} {rules : List RouteRule} {rule : RouteRule}
    (chosen : selected authority path rules = some rule) : rule ∈ rules := by
  induction rules using List.reverseRecOn with
  | nil => cases chosen
  | append_singleton init last ih =>
    rw [selected_snoc] at chosen
    rcases pick_cases authority path (selected authority path init) last with kept | taken
    · rw [kept] at chosen
      exact List.mem_append_left _ (ih chosen)
    · rw [taken] at chosen
      cases chosen
      simp

/-- Between rules of different orders the standing one keeps its place exactly when it is not outranked. -/
theorem rankGreater_outranks {rule current : RouteRule} (differ : current.declarationOrder ≠ rule.declarationOrder) :
    rankGreater (current.pathPrefix.length,current.declarationOrder) (rule.pathPrefix.length,rule.declarationOrder) =
      !outranks rule current := by
  rw [Bool.eq_iff_iff]
  simp only [rankGreater,outranks,Bool.or_eq_true,Bool.and_eq_true,decide_eq_true_eq,beq_iff_eq,Bool.not_eq_true',
    Bool.or_eq_false_iff,Bool.and_eq_false_iff,decide_eq_false_iff_not,beq_eq_false_iff_ne]
  have apart : current.declarationOrder.toNat ≠ rule.declarationOrder.toNat := fun same =>
    differ (UInt64.toNat_inj.mp same)
  rw [UInt64.lt_iff_toNat_lt,UInt64.lt_iff_toNat_lt]
  omega

/-- The last of the greatest eligible rules is the one the loop selects. -/
theorem selected_maxByKey (authority : EffectiveAuthority) (path : List UInt8) (rules : List RouteRule)
    (distinct : (rules.map (·.declarationOrder)).Nodup) :
    maxByKey rankGreater (fun rule : RouteRule => (rule.pathPrefix.length,rule.declarationOrder))
      (rules.filter (eligible authority path)) = selected authority path rules := by
  induction rules using List.reverseRecOn with
  | nil => rfl
  | append_singleton init last ih =>
    rw [List.map_append,List.nodup_append] at distinct
    obtain ⟨before,-,apart⟩ := distinct
    rw [selected_snoc,List.filter_append]
    unfold pick
    cases able : eligible authority path last with
    | false =>
      rw [List.filter_cons_of_neg (by simp [able]),List.filter_nil,List.append_nil,ih before]
      rfl
    | true =>
      rw [List.filter_cons_of_pos able,List.filter_nil,maxByKey_snoc,ih before,if_pos rfl]
      cases chosen : selected authority path init with
      | none => rfl
      | some current =>
        have differ : current.declarationOrder ≠ last.declarationOrder :=
          apart _ (List.mem_map_of_mem (selected_mem chosen)) _ (by simp)
        dsimp only
        rw [rankGreater_outranks differ]
        cases outranks last current <;> rfl

theorem maxByKey_map {α β κ : Type} (greater : κ → κ → Bool) (key : β → κ) (f : α → β) (items : List α) :
    maxByKey greater key (items.map f) = (maxByKey greater (fun item => key (f item)) items).map f := by
  induction items using List.reverseRecOn with
  | nil => rfl
  | append_singleton init last ih =>
    rw [List.map_append,List.map_singleton,maxByKey_snoc,maxByKey_snoc,ih]
    cases maxByKey greater (fun item => key (f item)) init with
    | none => rfl
    | some best =>
      simp only [Option.map_some]
      split <;> rfl

/-- Rules that pass their checks, in orders of their own. -/
structure Clean (bounded : Bool) (rules : List RouteRule) : Prop where
  sound : ∀ rule ∈ rules, ruleFault bounded rule = none
  distinct : (rules.map (·.declarationOrder)).Nodup

theorem tableFault_none (bounded : Bool) (rules : List RouteRule) : ∀ passed : List RouteRule,
    (passed.map (·.declarationOrder)).Nodup →
    (tableFault bounded passed rules = none ↔
      (∀ rule ∈ rules, ruleFault bounded rule = none) ∧ ((passed ++ rules).map (·.declarationOrder)).Nodup) := by
  induction rules with
  | nil =>
    intro passed distinct
    simpa [tableFault] using distinct
  | cons rule rules ih =>
    intro passed distinct
    unfold tableFault
    cases fault : ruleFault bounded rule with
    | some reason => simp [fault]
    | none =>
      by_cases repeated : rule.declarationOrder ∈ passed.map (·.declarationOrder)
      · rw [if_pos repeated]
        constructor
        · intro impossible
          cases impossible
        · rintro ⟨-,apart⟩
          rw [List.map_append,List.nodup_append] at apart
          exact absurd rfl (apart.2.2 _ repeated _ (by simp))
      · have grown : ((passed ++ [rule]).map (·.declarationOrder)).Nodup := by
          rw [List.map_append,List.nodup_append]
          refine ⟨distinct,by simp,?_⟩
          rintro order member other last rfl
          rw [List.mem_singleton.mp last] at member
          exact repeated member
        rw [if_neg repeated,ih (passed ++ [rule]) grown]
        simp [fault]

theorem clean_iff (bounded : Bool) (rules : List RouteRule) : tableFault bounded [] rules = none ↔ Clean bounded rules := by
  rw [tableFault_none bounded rules [] List.nodup_nil]
  exact ⟨fun ⟨sound,distinct⟩ => ⟨sound,distinct⟩,fun ⟨sound,distinct⟩ => ⟨sound,distinct⟩⟩

/-- The rule at which a table fails, behind rules that passed. -/
def FailsAt (bounded : Bool) (before : List RouteRule) (rule : RouteRule) (reason : String) : Prop :=
  ruleFault bounded rule = some reason ∨
    (ruleFault bounded rule = none ∧ rule.declarationOrder ∈ before.map (·.declarationOrder) ∧ reason = duplicateOrder)

theorem tableFault_some (bounded : Bool) (reason : String) (rules : List RouteRule) : ∀ passed : List RouteRule,
    tableFault bounded passed rules = some reason ↔ ∃ before rule after, rules = before ++ rule :: after ∧
      tableFault bounded passed before = none ∧ FailsAt bounded (passed ++ before) rule reason := by
  induction rules with
  | nil => simp [tableFault]
  | cons rule rules ih =>
    intro passed
    constructor
    · intro failed
      unfold tableFault at failed
      cases fault : ruleFault bounded rule with
      | some found =>
        rw [fault] at failed
        cases failed
        exact ⟨[],rule,rules,rfl,rfl,.inl fault⟩
      | none =>
        rw [fault] at failed
        by_cases repeated : rule.declarationOrder ∈ passed.map (·.declarationOrder)
        · simp only [if_pos repeated,Option.some.injEq] at failed
          exact ⟨[],rule,rules,rfl,rfl,.inr ⟨fault,by simpa using repeated,failed.symm⟩⟩
        · simp only [if_neg repeated] at failed
          obtain ⟨before,bad,after,rfl,clean,fails⟩ := (ih (passed ++ [rule])).mp failed
          refine ⟨rule :: before,bad,after,rfl,?_,by simpa using fails⟩
          unfold tableFault
          simpa only [fault,if_neg repeated] using clean
    · rintro ⟨before,bad,after,split,clean,fails⟩
      unfold tableFault
      cases before with
      | nil =>
        obtain ⟨rfl,rfl⟩ := List.cons_eq_cons.mp split
        rw [List.append_nil] at fails
        rcases fails with fault | ⟨fault,repeated,rfl⟩
        · rw [fault]
        · simp only [fault,if_pos repeated]
      | cons first before =>
        obtain ⟨rfl,rfl⟩ := List.cons_eq_cons.mp split
        unfold tableFault at clean
        cases fault : ruleFault bounded rule with
        | some found =>
          rw [fault] at clean
          cases clean
        | none =>
          simp only [fault] at clean
          by_cases repeated : rule.declarationOrder ∈ passed.map (·.declarationOrder)
          · rw [if_pos repeated] at clean
            cases clean
          · rw [if_neg repeated] at clean
            simp only [if_neg repeated]
            exact (ih (passed ++ [rule])).mpr ⟨before,bad,after,rfl,clean,by simpa using fails⟩

theorem fault_iff (bounded : Bool) (reason : String) (rules : List RouteRule) :
    tableFault bounded [] rules = some reason ↔ ∃ before rule after, rules = before ++ rule :: after ∧
      Clean bounded before ∧ FailsAt bounded before rule reason := by
  rw [tableFault_some bounded reason rules []]
  simp only [clean_iff,List.nil_append]

def pipelineRule (rule : RouteRule) : RouteRulePipeline.CheckedRule :=
  ⟨rule.host,rule.pathPrefix,rule.upstream,rule.declarationOrder⟩

/-- All rules first, and then their orders. -/
def pipelineFault (rules : List RouteRule) : Option String :=
  (rules.findSome? (ruleFault true)).or (tableFault true [] rules)

theorem pipeline_checks (rules : List RouteRule) :
    rules.mapM RouteRulePipeline.checkRule = match rules.findSome? (ruleFault true) with
      | some reason => invalidRoute reason
      | none => .ok (rules.map pipelineRule) := by
  induction rules with
  | nil => rfl
  | cons rule rules ih =>
    rw [List.mapM_cons,pipeline_rule,ih,List.findSome?_cons]
    unfold afterChecks
    cases ruleFault true rule with
    | some reason => rfl
    | none =>
      dsimp only
      cases rules.findSome? (ruleFault true) with
      | some reason => rfl
      | none => rfl

theorem foldlM_sound {rules : List RouteRule} (sound : ∀ rule ∈ rules, ruleFault true rule = none) : ∀ seen : List UInt64,
    (rules.map pipelineRule).foldlM RouteRulePipeline.noteOrder seen =
      rules.foldlM (fun seen rule => afterChecks true rule (RouteRulePipeline.noteOrder seen (pipelineRule rule))) seen := by
  induction rules with
  | nil =>
    intro seen
    rfl
  | cons rule rules ih =>
    intro seen
    have tail := ih fun other member => sound other (List.mem_cons_of_mem rule member)
    rw [List.map_cons,List.foldlM_cons,List.foldlM_cons,afterChecks,sound rule List.mem_cons_self]
    simp only [tail]

theorem pipeline_round :
    Round true (fun seen rule => afterChecks true rule (RouteRulePipeline.noteOrder seen (pipelineRule rule)))
      fun passed seen => seen = (passed.map (·.declarationOrder)).reverse := by
  intro passed seen rule reached _
  subst reached
  refine ⟨rule.declarationOrder :: (passed.map (·.declarationOrder)).reverse,?_,fun _ => (orders_snoc passed rule).symm⟩
  have contained := mem_orders passed rule.declarationOrder
  unfold RouteRulePipeline.noteOrder insertOrder pipelineRule
  dsimp only
  rw [contained]
  by_cases repeated : rule.declarationOrder ∈ passed.map (·.declarationOrder) <;> simp [repeated,duplicateOrder]

theorem judged_run {σ : Type} {bounded : Bool} {step : σ → RouteRule → Result σ} {Reached : List RouteRule → σ → Prop}
    (round : Round bounded step Reached) {rules : List RouteRule} {start : σ} (initial : Reached [] start)
    (room : rules.length ≤ 256) (finish : σ → Result RouteMatch) (choice : Option RouteRule)
    (finished : ∀ final, Reached rules final → Clean bounded rules → finish final = serve choice) :
    (rules.foldlM step start >>= finish) = judged (tableFault bounded [] rules) choice := by
  rcases table_run bounded step Reached round rules [] start initial (by simpa using room) with
    ⟨reason,fault,failed⟩ | ⟨fault,final,ran,reached⟩
  · rw [failed,fault]
    rfl
  · rw [ran,fault]
    exact finished final reached ((clean_iff bounded rules).mp fault)

theorem routingPath_direct (target : NormalizedTarget) :
    RouteDirect.routingPathOf target =
      if routable target then .ok target.routingPath else invalidRoute "invalid_target" := by
  unfold RouteDirect.routingPathOf routable startsWith
  cases target.form <;> rcases target.routingPath with _ | ⟨first,rest⟩ <;> simp

theorem routingPath_bounded (target : NormalizedTarget) :
    RouteBoundedMatch.routingPathOf target =
      if routable target then .ok target.routingPath else invalidRoute "invalid_target" := by
  unfold RouteBoundedMatch.routingPathOf routable startsWith
  cases target.form <;> rcases target.routingPath with _ | ⟨first,rest⟩ <;> simp

theorem framed_bind {rules : List RouteRule} {target : NormalizedTarget} {path : Result (List UInt8)}
    {next : List UInt8 → Result RouteMatch} {answer : Result RouteMatch}
    (found : path = if routable target then .ok target.routingPath else invalidRoute "invalid_target")
    (answered : rules.length ≤ 256 → next target.routingPath = answer) :
    (if rules.length > 256 then tooManyRoutes 256 rules.length else path >>= next) = framed target rules answer := by
  unfold framed
  by_cases large : rules.length > 256
  · rw [if_pos large,if_pos large]
  · rw [if_neg large,if_neg large,found]
    cases routable target with
    | false => rfl
    | true => exact answered (Nat.not_lt.mp large)

theorem direct_judged (authority : EffectiveAuthority) (target : NormalizedTarget) (rules : List RouteRule) :
    RouteDirect.matchRoute authority target rules =
      framed target rules (judged (tableFault true [] rules) (selected authority target.routingPath rules)) := by
  refine framed_bind (routingPath_direct target) fun room => ?_
  refine judged_run (direct_round authority target.routingPath) rfl room _ _ ?_
  rintro final rfl _
  cases selected authority target.routingPath rules <;> rfl

theorem bounded_judged (authority : EffectiveAuthority) (target : NormalizedTarget) (rules : List RouteRule) :
    RouteBoundedMatch.matchRoute authority target rules =
      framed target rules (judged (tableFault true [] rules) (selected authority target.routingPath rules)) := by
  refine framed_bind (routingPath_bounded target) fun room => ?_
  refine judged_run (bounded_round authority target.routingPath) ⟨records_empty,rfl⟩ room _ _ ?_
  rintro ⟨orders,winner⟩ ⟨-,reached⟩ _
  dsimp only at reached
  subst reached
  cases selected authority target.routingPath rules <;> rfl

theorem typed_judged (authority : EffectiveAuthority) (target : NormalizedTarget) (rules : List RouteRule) :
    RouteTypedArithmetic.matchRoute authority target rules =
      framed target rules (judged (tableFault false [] rules) (selected authority target.routingPath rules)) := by
  refine framed_bind (routingPath_direct target) fun room => ?_
  refine judged_run (typed_round authority target.routingPath) rfl room _ _ ?_
  rintro final rfl _
  cases selected authority target.routingPath rules <;> rfl

theorem filter_eligible {β : Type} (view : RouteRule → β) (hosted applies : β → Bool) (authority : EffectiveAuthority)
    (path : List UInt8) (rules : List RouteRule)
    (host : ∀ rule, hosted (view rule) = eqIgnoreAsciiCase rule.host authority.host)
    (prefixed : ∀ rule, applies (view rule) = covers rule.pathPrefix path) :
    ((rules.map view).filter hosted).filter applies = (rules.filter (eligible authority path)).map view := by
  rw [List.filter_filter,List.filter_map]
  congr 1
  apply List.filter_congr
  intro rule _
  simp only [Function.comp_apply,host,prefixed,eligible]
  exact Bool.and_comm _ _

theorem table_judged (authority : EffectiveAuthority) (target : NormalizedTarget) (rules : List RouteRule) :
    RouteImmutableTable.matchRoute authority target rules =
      framed target rules (judged (tableFault false [] rules) (selected authority target.routingPath rules)) := by
  have found : RouteImmutableTable.routingPathOf target =
      if routable target then .ok target.routingPath else invalidRoute "invalid_target" := by
    simp [RouteImmutableTable.routingPathOf,routable]
  refine framed_bind found fun room => ?_
  refine judged_run table_round rfl room _ _ ?_
  rintro final rfl clean
  dsimp only
  rw [filter_eligible tableRule _ _ authority target.routingPath rules (fun _ => rfl) (fun _ => rfl),maxByKey_map]
  have chosen := selected_maxByKey authority target.routingPath rules clean.distinct
  simp only [tableRule] at chosen ⊢
  rw [chosen]
  cases selected authority target.routingPath rules <;> rfl

theorem pipeline_judged (authority : EffectiveAuthority) (target : NormalizedTarget) (rules : List RouteRule) :
    RouteRulePipeline.matchRoute authority target rules =
      framed target rules (judged (pipelineFault rules) (selected authority target.routingPath rules)) := by
  have found : RouteRulePipeline.routingPathOf target =
      if routable target then .ok target.routingPath else invalidRoute "invalid_target" := by
    simp [RouteRulePipeline.routingPathOf,routable,startsWith]
  unfold RouteRulePipeline.matchRoute RouteRulePipeline.validateBoundary framed
  rw [found,show RouteRulePipeline.routeLimit = 256 from rfl]
  by_cases large : rules.length > 256
  · rw [if_pos large,if_pos large]
    rfl
  · rw [if_neg large,if_neg large]
    cases routable target with
    | false => rfl
    | true =>
      simp only [if_true,bind_ok,pipeline_checks,pipelineFault]
      cases sound : rules.findSome? (ruleFault true) with
      | some reason => rfl
      | none =>
        have each : ∀ rule ∈ rules, ruleFault true rule = none := by simpa using sound
        simp only [bind_ok,foldlM_sound each,bind_assoc,Option.none_or]
        refine judged_run pipeline_round rfl (Nat.not_lt.mp large) _ _ ?_
        rintro final rfl clean
        rw [filter_eligible pipelineRule _ _ authority target.routingPath rules (fun _ => rfl) (fun _ => rfl),maxByKey_map]
        have chosen := selected_maxByKey authority target.routingPath rules clean.distinct
        simp only [pipelineRule] at chosen ⊢
        rw [chosen]
        cases selected authority target.routingPath rules <;> rfl

/-- A repeated order behind rules that pass, with a rule further on that does not. -/
def RepeatHidesFault (rules : List RouteRule) : Prop :=
  ∃ before rule after, rules = before ++ rule :: after ∧ Clean true before ∧ ruleFault true rule = none ∧
    rule.declarationOrder ∈ before.map (·.declarationOrder) ∧ ∃ later ∈ after, ruleFault true later ≠ none

/-- From this rule on, the first fault of a table that bounds no prefix is a malformed prefix. -/
def MalformedPrefixFollows (before rules : List RouteRule) : Prop :=
  ∃ middle rule after, rules = middle ++ rule :: after ∧ Clean false (before ++ middle) ∧ isHost rule.host ∧
    ¬ isPrefix rule.pathPrefix

/-- An overlong prefix is the first fault, and no malformed prefix gives the same reason later. -/
def OverlongPrefix (rules : List RouteRule) : Prop :=
  ∃ before rule after, rules = before ++ rule :: after ∧ Clean true before ∧ isHost rule.host ∧
    isPrefix rule.pathPrefix ∧ prefixLimit < rule.pathPrefix.length ∧ ¬ MalformedPrefixFollows before (rule :: after)

theorem ruleFault_reason {bounded : Bool} {rule : RouteRule} {reason : String} (fault : ruleFault bounded rule = some reason) :
    reason ≠ duplicateOrder := by
  unfold ruleFault at fault
  rintro rfl
  split at fault
  · exact absurd (Option.some.inj fault) (by decide)
  · split at fault
    · exact absurd (Option.some.inj fault) (by decide)
    · split at fault
      · exact absurd (Option.some.inj fault) (by decide)
      · cases fault

theorem ruleFault_none (bounded : Bool) (rule : RouteRule) :
    ruleFault bounded rule = none ↔ isHost rule.host ∧ isPrefix rule.pathPrefix ∧
      (bounded → rule.pathPrefix.length ≤ prefixLimit) ∧ isUpstream rule.upstream := by
  unfold ruleFault
  by_cases long : rule.pathPrefix.length ≤ prefixLimit <;> cases isHost rule.host <;>
    cases isPrefix rule.pathPrefix <;> cases isUpstream rule.upstream <;> cases bounded <;> simp [long]

theorem ruleFault_lax {rule : RouteRule} (passes : ruleFault true rule = none) : ruleFault false rule = none := by
  rw [ruleFault_none] at passes ⊢
  exact ⟨passes.1,passes.2.1,fun impossible => absurd impossible (by decide),passes.2.2.2⟩

theorem Clean.lax {rules : List RouteRule} (clean : Clean true rules) : Clean false rules :=
  ⟨fun rule member => ruleFault_lax (clean.sound rule member),clean.distinct⟩

theorem pipelineFault_differs (rules : List RouteRule) :
    tableFault true [] rules ≠ pipelineFault rules ↔ RepeatHidesFault rules := by
  constructor
  · intro differ
    unfold pipelineFault at differ
    cases found : rules.findSome? (ruleFault true) with
    | none =>
      rw [found,Option.none_or] at differ
      exact absurd rfl differ
    | some reason =>
      rw [found,Option.some_or] at differ
      obtain ⟨front,bad,back,rfl,fault,sound⟩ := List.findSome?_eq_some_iff.mp found
      cases whole : tableFault true [] (front ++ bad :: back) with
      | none =>
        have clean := (clean_iff true _).mp whole
        rw [clean.sound bad (by simp)] at fault
        cases fault
      | some raised =>
        obtain ⟨before,rule,after,split,clean,fails⟩ := (fault_iff true raised _).mp whole
        rcases fails with own | ⟨passes,repeated,rfl⟩
        · -- the first faulty rule is the same one for both
          exfalso
          have first : (before ++ rule :: after).findSome? (ruleFault true) = some raised := by
            rw [List.findSome?_append,List.findSome?_eq_none_iff.mpr clean.sound,Option.none_or,List.findSome?_cons,own]
          rw [split,first] at found
          cases found
          exact differ (by rw [split] at whole; rw [split,whole])
        · refine ⟨before,rule,after,split,clean,passes,repeated,?_⟩
          have member : bad ∈ before ++ rule :: after := by rw [← split]; simp
          rcases List.mem_append.mp member with early | late
          · rw [clean.sound bad early] at fault
            cases fault
          · rcases List.mem_cons.mp late with rfl | later
            · rw [passes] at fault
              cases fault
            · exact ⟨bad,later,by rw [fault]; simp⟩
  · rintro ⟨before,rule,after,rfl,clean,passes,repeated,later,member,fault⟩
    have whole : tableFault true [] (before ++ rule :: after) = some duplicateOrder :=
      (fault_iff true _ _).mpr ⟨before,rule,after,rfl,clean,.inr ⟨passes,repeated,rfl⟩⟩
    unfold pipelineFault
    cases found : (before ++ rule :: after).findSome? (ruleFault true) with
    | none => exact absurd (List.findSome?_eq_none_iff.mp found later (by simp [member])) fault
    | some reason =>
      obtain ⟨front,bad,back,-,own,-⟩ := List.findSome?_eq_some_iff.mp found
      rw [whole,Option.some_or]
      exact fun same => ruleFault_reason own (Option.some.inj same).symm

theorem overlong_fault {rule : RouteRule} (hosted : isHost rule.host) (shaped : isPrefix rule.pathPrefix)
    (long : prefixLimit < rule.pathPrefix.length) : ruleFault true rule = some "invalid_path_prefix" := by
  simp [ruleFault,hosted,shaped,Nat.not_le.mpr long]

/-- A rule that fails with the bound fails without it in the same way, unless its prefix is only too long. -/
theorem ruleFault_bounded {rule : RouteRule} {reason : String} (fault : ruleFault true rule = some reason) :
    ruleFault false rule = some reason ∨
      (isHost rule.host ∧ isPrefix rule.pathPrefix ∧ prefixLimit < rule.pathPrefix.length ∧
        reason = "invalid_path_prefix") := by
  unfold ruleFault at fault ⊢
  by_cases long : rule.pathPrefix.length ≤ prefixLimit
  · exact .inl (by simpa [long] using fault)
  · cases host : isHost rule.host with
    | false => exact .inl (by simpa [host] using fault)
    | true =>
      cases shape : isPrefix rule.pathPrefix with
      | false => exact .inl (by simpa [host,shape] using fault)
      | true =>
        refine .inr ⟨rfl,rfl,Nat.not_le.mp long,?_⟩
        simpa [host,shape,long] using fault.symm

theorem malformed_fault {rule : RouteRule} :
    ruleFault false rule = some "invalid_path_prefix" ↔ isHost rule.host ∧ ¬ isPrefix rule.pathPrefix := by
  unfold ruleFault
  cases isHost rule.host <;> cases isPrefix rule.pathPrefix <;> cases isUpstream rule.upstream <;> simp

theorem unboundedFault_differs (rules : List RouteRule) :
    tableFault true [] rules ≠ tableFault false [] rules ↔ OverlongPrefix rules := by
  constructor
  · intro differ
    cases whole : tableFault true [] rules with
    | none =>
      rw [whole,(clean_iff false rules).mpr ((clean_iff true rules).mp whole).lax] at differ
      exact absurd rfl differ
    | some reason =>
      obtain ⟨before,rule,after,rfl,clean,fails⟩ := (fault_iff true reason rules).mp whole
      have settled (same : FailsAt false before rule reason) : False := by
        rw [whole,(fault_iff false reason _).mpr ⟨before,rule,after,rfl,clean.lax,same⟩] at differ
        exact differ rfl
      rcases fails with own | ⟨passes,repeated,rfl⟩
      · rcases ruleFault_bounded own with same | ⟨hosted,shaped,long,rfl⟩
        · exact (settled (.inl same)).elim
        · refine ⟨before,rule,after,rfl,clean,hosted,shaped,long,?_⟩
          rintro ⟨middle,bad,tail,split,passed,malformed⟩
          rw [whole,(fault_iff false "invalid_path_prefix" _).mpr ⟨before ++ middle,bad,tail,
            by rw [split,List.append_assoc],passed,.inl (malformed_fault.mpr malformed)⟩] at differ
          exact differ rfl
      · exact (settled (.inr ⟨ruleFault_lax passes,repeated,rfl⟩)).elim
  · rintro ⟨before,rule,after,rfl,clean,hosted,shaped,long,alone⟩
    rw [(fault_iff true "invalid_path_prefix" _).mpr
      ⟨before,rule,after,rfl,clean,.inl (overlong_fault hosted shaped long)⟩]
    intro same
    obtain ⟨front,bad,back,split,passed,fails⟩ := (fault_iff false _ _).mp same.symm
    rcases fails with own | ⟨-,-,impossible⟩
    · obtain ⟨badHost,malformed⟩ := malformed_fault.mp own
      -- the malformed prefix stands behind the rules that pass and is not the overlong one
      rcases List.append_eq_append_iff.mp split with ⟨middle,rfl,rest⟩ | ⟨middle,rfl,rest⟩
      · exact alone ⟨middle,bad,back,rest,passed,badHost,malformed⟩
      · cases middle with
        | nil =>
          obtain ⟨rfl,rfl⟩ := List.cons_eq_cons.mp rest
          exact malformed shaped
        | cons first middle =>
          obtain ⟨rfl,rfl⟩ := List.cons_eq_cons.mp rest
          have sound := clean.lax.sound bad (by simp)
          rw [own] at sound
          cases sound
    · exact absurd impossible (by decide)

theorem serve_valid (choice : Option RouteRule) (reason : String) : serve choice ≠ invalidRoute reason := by
  cases choice <;> exact fun same => nomatch same

theorem judged_injective {left right : Option String} {choice : Option RouteRule} :
    judged left choice = judged right choice ↔ left = right := by
  constructor
  · intro same
    cases left with
    | none =>
      cases right with
      | none => rfl
      | some reason => exact absurd same (serve_valid choice reason)
    | some reason =>
      cases right with
      | none => exact absurd same.symm (serve_valid choice reason)
      | some other =>
        cases same
        rfl
  · rintro rfl
    rfl

/-- The implementations agree exactly when the table or the target is refused as a whole, or when no
repeated order hides a faulty rule and no overlong prefix passes unnoticed. -/
theorem route_agreement_iff (authority : EffectiveAuthority) (target : NormalizedTarget) (rules : List RouteRule) :
    (∀ f ∈ routeImplementations, ∀ g ∈ routeImplementations, f authority target rules = g authority target rules) ↔
      256 < rules.length ∨ ¬ routable target ∨ (¬ RepeatHidesFault rules ∧ ¬ OverlongPrefix rules) := by
  by_cases large : rules.length > 256
  · have refused : ∀ f ∈ routeImplementations, f authority target rules = tooManyRoutes 256 rules.length := by
      intro f registered
      simp only [routeImplementations,List.mem_cons,List.not_mem_nil,or_false] at registered
      rcases registered with rfl | rfl | rfl | rfl | rfl <;>
        simp only [direct_judged,pipeline_judged,bounded_judged,typed_judged,table_judged,framed,if_pos large]
    refine iff_of_true ?_ (.inl large)
    intro f fMember g gMember
    rw [refused f fMember,refused g gMember]
  · cases found : routable target with
    | false =>
      have refused : ∀ f ∈ routeImplementations, f authority target rules = invalidRoute "invalid_target" := by
        intro f registered
        simp only [routeImplementations,List.mem_cons,List.not_mem_nil,or_false] at registered
        rcases registered with rfl | rfl | rfl | rfl | rfl <;>
          simp only [direct_judged,pipeline_judged,bounded_judged,typed_judged,table_judged,framed,if_neg large,found,
            Bool.false_eq_true,if_false]
      refine iff_of_true ?_ (.inr (.inl (by decide)))
      intro f fMember g gMember
      rw [refused f fMember,refused g gMember]
    | true =>
      have answers (fault : Option String) :
          framed target rules (judged fault (selected authority target.routingPath rules)) =
            judged fault (selected authority target.routingPath rules) := by
        rw [framed,if_neg large,found,if_pos rfl]
      constructor
      · intro agreed
        have direct := agreed RouteDirect.matchRoute (by simp [routeImplementations])
        have pipeline := direct RouteRulePipeline.matchRoute (by simp [routeImplementations])
        have typed := direct RouteTypedArithmetic.matchRoute (by simp [routeImplementations])
        rw [direct_judged,pipeline_judged,answers,answers,judged_injective] at pipeline
        rw [direct_judged,typed_judged,answers,answers,judged_injective] at typed
        exact .inr (.inr ⟨fun hidden => (pipelineFault_differs rules).mpr hidden pipeline,
          fun overlong => (unboundedFault_differs rules).mpr overlong typed⟩)
      · rintro (many | refused | ⟨shown,short⟩)
        · exact absurd many large
        · exact absurd rfl refused
        · have pipeline : pipelineFault rules = tableFault true [] rules := by
            by_contra differ
            exact shown ((pipelineFault_differs rules).mp (Ne.symm differ))
          have unbounded : tableFault false [] rules = tableFault true [] rules := by
            by_contra differ
            exact short ((unboundedFault_differs rules).mp (Ne.symm differ))
          have refined : ∀ f ∈ routeImplementations, f authority target rules =
              framed target rules (judged (tableFault true [] rules) (selected authority target.routingPath rules)) := by
            intro f registered
            simp only [routeImplementations,List.mem_cons,List.not_mem_nil,or_false] at registered
            rcases registered with rfl | rfl | rfl | rfl | rfl
            · exact direct_judged authority target rules
            · rw [pipeline_judged,pipeline]
            · exact bounded_judged authority target rules
            · rw [typed_judged,unbounded]
            · rw [table_judged,unbounded]
          intro f fMember g gMember
          rw [refined f fMember,refined g gMember]

def sampleAuthority : EffectiveAuthority := ⟨ascii "a.test",none⟩

def sampleTarget : NormalizedTarget := ⟨.origin,none,none,ascii "/",ascii "/"⟩

/-- Two rules of one order and a third without an upstream. -/
def sampleRules : List RouteRule :=
  [⟨ascii "a.test",ascii "/",ascii "one",0⟩,⟨ascii "a.test",ascii "/two",ascii "two",0⟩,
    ⟨ascii "a.test",ascii "/three",[],1⟩]

theorem route_disagreement :
    RouteDirect.matchRoute sampleAuthority sampleTarget sampleRules = invalidRoute "duplicate_declaration_order" ∧
      ¬ ∀ f ∈ routeImplementations, ∀ g ∈ routeImplementations,
        f sampleAuthority sampleTarget sampleRules = g sampleAuthority sampleTarget sampleRules := by
  have direct : RouteDirect.matchRoute sampleAuthority sampleTarget sampleRules =
      invalidRoute "duplicate_declaration_order" := by decide +kernel
  have pipeline : RouteRulePipeline.matchRoute sampleAuthority sampleTarget sampleRules =
      invalidRoute "invalid_upstream" := by decide +kernel
  refine ⟨direct,fun agreed => ?_⟩
  have same := agreed RouteDirect.matchRoute (by simp [routeImplementations]) RouteRulePipeline.matchRoute
    (by simp [routeImplementations])
  rw [direct,pipeline] at same
  exact absurd same (by decide)

end Polyguard.RouteAgreement

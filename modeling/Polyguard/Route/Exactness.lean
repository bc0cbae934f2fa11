import Polyguard.Route.Agreement
import Mathlib.Data.List.Nodup
import Mathlib.Data.Prod.Lex
import Polyguard.Collections.Greatest

/-! What the matchers of routes serve.
For valid rules in orders of their own every matcher serves the applicable rule of the
longest prefix, and of these the one that is declared first; the order of the table does
not matter. -/
namespace Polyguard.RouteAgreement
open Ascii Slices TargetBytes Route Greatest

section Exactness

/-- A rule for the host, ignoring case, whose prefix is the root, the path, or followed in it by a slash. -/
def Applies (authority : EffectiveAuthority) (path : List UInt8) (rule : RouteRule) : Prop :=
  eqIgnoreAsciiCase rule.host authority.host ∧
    (rule.pathPrefix = ascii "/" ∨ path = rule.pathPrefix ∨ ∃ rest, path = rule.pathPrefix ++ 0x2f :: rest)

/-- A canonical host, a normalized prefix within the limit and the name of an upstream. -/
structure ValidRule (rule : RouteRule) : Prop where
  host : isHost rule.host
  shape : isPrefix rule.pathPrefix
  short : rule.pathPrefix.length ≤ prefixLimit
  upstream : isUpstream rule.upstream

theorem covers_iff (value path : List UInt8) :
    covers value path ↔ value = ascii "/" ∨ path = value ∨ ∃ rest, path = value ++ 0x2f :: rest := by
  unfold covers
  rw [Bool.or_eq_true,beq_iff_eq]
  refine or_congr Iff.rfl ?_
  unfold stripPrefix
  constructor
  · intro covered
    split at covered
    · rename_i begins
      obtain ⟨rest,rfl⟩ := List.isPrefixOf_iff_prefix.mp begins
      rw [List.drop_left,Option.any_some] at covered
      cases rest with
      | nil => exact .inl (List.append_nil value)
      | cons byte rest =>
        rw [List.isEmpty_cons,Bool.false_or,startsWith,List.head?_cons,beq_iff_eq] at covered
        cases covered
        exact .inr ⟨rest,rfl⟩
    · cases covered
  · rintro (rfl | ⟨rest,rfl⟩)
    · rw [if_pos (List.isPrefixOf_iff_prefix.mpr (List.prefix_refl path)),List.drop_length]
      rfl
    · rw [if_pos (List.isPrefixOf_iff_prefix.mpr (List.prefix_append value _)),List.drop_left]
      rfl

theorem eligible_iff (authority : EffectiveAuthority) (path : List UInt8) (rule : RouteRule) :
    eligible authority path rule ↔ Applies authority path rule := by
  unfold eligible Applies
  rw [Bool.and_eq_true,covers_iff]

theorem ValidRule.passes {rule : RouteRule} (valid : ValidRule rule) (bounded : Bool) : ruleFault bounded rule = none := by
  unfold ruleFault
  simp [valid.host,valid.shape,valid.short,valid.upstream]

def ruleRank (rule : RouteRule) : Nat ×ₗ Natᵒᵈ := toLex (rule.pathPrefix.length,OrderDual.toDual rule.declarationOrder.toNat)

theorem outranks_rank {rule other : RouteRule} : outranks rule other ↔ ruleRank other < ruleRank rule := by
  unfold outranks ruleRank
  simp only [Prod.Lex.lt_iff,ofLex_toLex,OrderDual.toDual_lt_toDual,Bool.or_eq_true,Bool.and_eq_true,decide_eq_true_eq,beq_iff_eq,
    UInt64.lt_iff_toNat_lt,gt_iff_lt]
  simp only [eq_comm]

theorem pick_keep (authority : EffectiveAuthority) (path : List UInt8) : pick authority path = keep (eligible authority path) ruleRank := by
  funext best rule
  unfold pick keep
  cases best with
  | none => rfl
  | some current => exact if_congr Iff.rfl (if_congr outranks_rank rfl rfl) rfl

variable {authority : EffectiveAuthority} {path : List UInt8} {rules : List RouteRule}

theorem selected_choice : IsChoice (eligible authority path) ruleRank rules (selected authority path rules) := by
  unfold selected
  rw [pick_keep]
  exact fold_choice rules

theorem ruleRanks_apart (distinct : (rules.map (·.declarationOrder)).Nodup) : ∀ first ∈ rules, ∀ second ∈ rules,
    ruleRank first = ruleRank second → first = second := by
  intro first member second member' same
  unfold ruleRank at same
  rw [toLex_inj,Prod.mk.injEq,OrderDual.toDual_inj] at same
  exact List.inj_on_of_nodup_map distinct member member' (UInt64.toNat_inj.mp same.2)

theorem selected_perm (distinct : (rules.map (·.declarationOrder)).Nodup) {permuted : List RouteRule} (permutation : permuted.Perm rules) :
    selected authority path permuted = selected authority path rules :=
  choice_unique (ruleRanks_apart distinct) ((choice_congr (fun _ => permutation.mem_iff) _).mp selected_choice) selected_choice

theorem valid_served {target : NormalizedTarget} (few : rules.length ≤ 256) (routed : routable target)
    (valid : ∀ rule ∈ rules, ValidRule rule) (distinct : (rules.map (·.declarationOrder)).Nodup) {f : EffectiveAuthority →
      NormalizedTarget → List RouteRule → Result RouteMatch} (registered : f ∈ routeImplementations) :
    f authority target rules = serve (selected authority target.routingPath rules) := by
  have clean (bounded : Bool) : tableFault bounded [] rules = none :=
    (clean_iff bounded rules).mpr ⟨fun rule member => (valid rule member).passes bounded,distinct⟩
  have framed_serve : framed target rules (judged none (selected authority target.routingPath rules)) =
      serve (selected authority target.routingPath rules) := by
    unfold framed
    rw [if_neg (Nat.not_lt.mpr few),if_pos routed]
    rfl
  have pipeline : pipelineFault rules = none := by
    unfold pipelineFault
    rw [clean true,Option.or_none,List.findSome?_eq_none_iff]
    exact fun rule member => (valid rule member).passes true
  simp only [routeImplementations,List.mem_cons,List.not_mem_nil,or_false] at registered
  rcases registered with rfl | rfl | rfl | rfl | rfl
  · rw [direct_judged,clean,framed_serve]
  · rw [pipeline_judged,pipeline,framed_serve]
  · rw [bounded_judged,clean,framed_serve]
  · rw [typed_judged,clean,framed_serve]
  · rw [table_judged,clean,framed_serve]

/-- The greatest among the rules that apply, in the words of the two keys. -/
def IsBest (authority : EffectiveAuthority) (path : List UInt8) (rules : List RouteRule) (rule : RouteRule) : Prop :=
  Applies authority path rule ∧ ∀ other ∈ rules, Applies authority path other → other = rule ∨
    other.pathPrefix.length < rule.pathPrefix.length ∨
      (other.pathPrefix.length = rule.pathPrefix.length ∧ rule.declarationOrder < other.declarationOrder)

theorem below_iff {rule other : RouteRule} : ruleRank other < ruleRank rule ↔ other.pathPrefix.length < rule.pathPrefix.length ∨
    (other.pathPrefix.length = rule.pathPrefix.length ∧ rule.declarationOrder < other.declarationOrder) := by
  unfold ruleRank
  rw [Prod.Lex.lt_iff]
  simp only [ofLex_toLex,OrderDual.toDual_lt_toDual,UInt64.lt_iff_toNat_lt]

theorem selected_some (distinct : (rules.map (·.declarationOrder)).Nodup) {rule : RouteRule} :
    selected authority path rules = some rule ↔ rule ∈ rules ∧ IsBest authority path rules rule := by
  constructor
  · intro chosen
    have choice := @selected_choice authority path rules
    rw [chosen] at choice
    obtain ⟨inside,able,greatest⟩ := choice
    refine ⟨inside,(eligible_iff authority path rule).mp able,fun other member applies => ?_⟩
    by_cases same : other = rule
    · exact .inl same
    · have below := greatest other member ((eligible_iff authority path other).mpr applies)
      exact .inr (below_iff.mp (lt_of_le_of_ne below fun ranks => same (ruleRanks_apart distinct other member rule inside ranks)))
  · rintro ⟨inside,applies,best⟩
    refine choice_unique (ruleRanks_apart distinct) selected_choice ⟨inside,(eligible_iff authority path rule).mpr applies,?_⟩
    intro other member able
    rcases best other member ((eligible_iff authority path other).mp able) with rfl | below
    · exact le_refl _
    · exact le_of_lt (below_iff.mpr below)

theorem selected_none : selected authority path rules = none ↔ ∀ rule ∈ rules, ¬ Applies authority path rule := by
  have choice := @selected_choice authority path rules
  constructor
  · intro nothing
    rw [nothing] at choice
    exact fun rule member applies => choice rule member ((eligible_iff authority path rule).mpr applies)
  · intro refused
    cases chosen : selected authority path rules with
    | none => rfl
    | some rule =>
      rw [chosen] at choice
      exact absurd ((eligible_iff authority path rule).mp choice.2.1) (refused rule choice.1)

/-- Every implementation serves the applicable rule of the longest prefix, and of these the one declared
first, in whatever order the rules stand. -/
theorem route_matcher_exact (authority : EffectiveAuthority) (target : NormalizedTarget)
    (form : target.form = .origin ∨ target.form = .absolute) (rooted : startsWith 0x2f target.routingPath)
    (rules : List RouteRule) (few : rules.length ≤ 256) (valid : ∀ rule ∈ rules, ValidRule rule)
    (distinct : (rules.map (·.declarationOrder)).Nodup) : ∀ f ∈ routeImplementations,
      (∀ served, f authority target rules = .ok served ↔ ∃ rule ∈ rules,
        IsBest authority target.routingPath rules rule ∧ served = ⟨rule.upstream,rule.declarationOrder⟩) ∧
      (f authority target rules = .error .noRoute ↔ ∀ rule ∈ rules, ¬ Applies authority target.routingPath rule) ∧
      ∀ permuted : List RouteRule, permuted.Perm rules → f authority target permuted = f authority target rules := by
  have routed : routable target := by
    unfold routable
    rw [Bool.and_eq_true]
    exact ⟨by rcases form with form | form <;> simp [form],rooted⟩
  intro f registered
  rw [valid_served few routed valid distinct registered]
  refine ⟨fun served => ?_,?_,fun permuted permutation => ?_⟩
  · cases chosen : selected authority target.routingPath rules with
    | none =>
      refine iff_of_false (fun impossible => by cases impossible) ?_
      rintro ⟨rule,member,best,-⟩
      exact selected_none.mp chosen rule member best.1
    | some best =>
      obtain ⟨inside,greatest⟩ := (selected_some distinct).mp chosen
      constructor
      · intro answered
        cases answered
        exact ⟨best,inside,greatest,rfl⟩
      · rintro ⟨rule,member,found,rfl⟩
        cases chosen.symm.trans ((selected_some distinct).mpr ⟨member,found⟩)
        rfl
  · rw [← selected_none]
    cases selected authority target.routingPath rules with
    | none => exact iff_of_true rfl rfl
    | some rule => exact iff_of_false (fun impossible => by cases impossible) (fun impossible => by cases impossible)
  · rw [valid_served (permutation.length_eq ▸ few) routed (fun rule member => valid rule (permutation.mem_iff.mp member))
      ((permutation.map _).nodup_iff.mpr distinct) registered,selected_perm distinct permutation]

/-- A rule for a host, and one for a path below it. -/
def nestedRules : List RouteRule := [⟨ascii "a.test",ascii "/",ascii "all",1⟩,⟨ascii "a.test",ascii "/x",ascii "one",0⟩]

theorem nestedRules_exact :
    routeImplementations.map (fun f => f sampleAuthority ⟨.origin,none,none,ascii "/x/y",ascii "/x/y"⟩ nestedRules.reverse) =
      List.replicate 5 (.ok ⟨ascii "one",0⟩) := by
  have valid : ∀ rule ∈ nestedRules, ValidRule rule := by
    intro rule member
    simp only [nestedRules,List.mem_cons,List.not_mem_nil,or_false] at member
    rcases member with rfl | rfl
    · exact ⟨by decide +kernel,by decide +kernel,by decide,by decide +kernel⟩
    · exact ⟨by decide +kernel,by decide +kernel,by decide,by decide +kernel⟩
  refine List.eq_replicate_iff.mpr ⟨rfl,List.forall_mem_map.mpr fun f registered => ?_⟩
  have exact := route_matcher_exact sampleAuthority ⟨.origin,none,none,ascii "/x/y",ascii "/x/y"⟩ (.inl rfl) (by decide) nestedRules
    (by decide) valid (by decide) f registered
  rw [exact.2.2 nestedRules.reverse nestedRules.reverse_perm]
  refine (exact.1 _).mpr ⟨⟨ascii "a.test",ascii "/x",ascii "one",0⟩,by decide,⟨⟨by decide,.inr (.inr ⟨ascii "y",by decide⟩)⟩,?_⟩,rfl⟩
  intro other member _
  simp only [nestedRules,List.mem_cons,List.not_mem_nil,or_false] at member
  rcases member with rfl | rfl
  · exact .inr (.inl (by decide))
  · exact .inl rfl

end Exactness
end Polyguard.RouteAgreement

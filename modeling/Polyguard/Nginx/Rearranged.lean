import Polyguard.Nginx.LocationRuns

/-! Locations whose settings stand in another order around the conditions.
The order of the directives of one name is kept, and so is that of the conditions. What
each component reads of one name alone does not change; the conditions see the settings
that were read before them, and the last of `root` and `alias` counts. -/
namespace Polyguard.Nginx
open Ascii Slices Decimal Proxy

section Orders

/-- The settings of a location that may be moved. -/
def movable : List (List UInt8) :=
  [ascii "client_max_body_size",ascii "proxy_set_header",ascii "add_header",ascii "root",ascii "index"]

/-- The two lists differ in the places of the movable settings, those of each name in one order. -/
structure Rearranged (left right : List Directive) : Prop where
  fixed : (left.filter fun child => !movable.contains child.name) = right.filter fun child => !movable.contains child.name
  each : ∀ name ∈ movable, inherited left name = inherited right name

variable {left right : List Directive}

theorem Rearranged.named (moved : Rearranged left right) (name : List UInt8) : inherited left name = inherited right name := by
  by_cases member : name ∈ movable
  · exact moved.each name member
  · have still (children : List Directive) : inherited children name =
        inherited (children.filter fun child => !movable.contains child.name) name := by
      unfold inherited
      rw [List.filter_filter]
      refine List.filter_congr fun child _ => ?_
      cases same : child.name == name with
      | false => rw [Bool.false_and]
      | true =>
        rw [beq_iff_eq.mp same,Bool.true_and]
        have fixed : movable.contains name = false := Bool.eq_false_iff.mpr fun inside => member (List.contains_iff_mem.mp inside)
        rw [fixed]
        rfl
    rw [still left,still right,moved.fixed]

theorem Rearranged.mem (moved : Rearranged left right) (child : Directive) : child ∈ left ↔ child ∈ right := by
  have listed (children : List Directive) : child ∈ children ↔ child ∈ inherited children child.name :=
    ⟨fun inside => mem_inherited.mpr ⟨inside,rfl⟩,fun inside => (mem_inherited.mp inside).1⟩
  rw [listed left,listed right,moved.named child.name]

theorem Rearranged.any (moved : Rearranged left right) (test : Directive → Bool) : left.any test = right.any test := by
  rw [Bool.eq_iff_iff,List.any_eq_true,List.any_eq_true]
  exact exists_congr fun child => and_congr (moved.mem child) Iff.rfl

theorem inherited_cons {child : Directive} {name : List UInt8} (named : child.name = name) (children : List Directive) :
    inherited (child :: children) name = child :: inherited children name := by
  rw [inherited,List.filter_cons,if_pos (beq_iff_eq.mpr named)]
  rfl

theorem inherited_cons_other {child : Directive} {name : List UInt8} (other : child.name ≠ name) (children : List Directive) :
    inherited (child :: children) name = inherited children name := by
  rw [inherited,List.filter_cons,if_neg fun same => other (beq_iff_eq.mp same)]
  rfl

theorem foldl_inherited {β : Type} {change : β → Directive → β} {keyword : Keyword} {name : List UInt8}
    (listed : (name,keyword) ∈ keywords) (idle : ∀ value child, child.keyword ≠ keyword → change value child = value)
    (children : List Directive) : ∀ value, children.foldl change value = (inherited children name).foldl change value := by
  induction children with
  | nil => exact fun value => rfl
  | cons child children ih =>
    intro value
    rw [List.foldl_cons,ih]
    by_cases named : child.name = name
    · rw [inherited_cons named,List.foldl_cons]
    · rw [idle value child fun read => named ((keyword_named listed).mp read),inherited_cons_other named]

theorem Rearranged.foldl (moved : Rearranged left right) {β : Type} {change : β → Directive → β} {keyword : Keyword}
    {name : List UInt8} (listed : (name,keyword) ∈ keywords)
    (idle : ∀ value child, child.keyword ≠ keyword → change value child = value) (value : β) :
    left.foldl change value = right.foldl change value := by
  rw [foldl_inherited listed idle left,foldl_inherited listed idle right,moved.named name]

end Orders

section Components
variable {left right : List Directive}

theorem indexesAfter_other {keyword : Keyword} (other : keyword ≠ .index) (args indexes : List (List UInt8)) :
    indexesAfter keyword args indexes = indexes := by
  unfold indexesAfter
  split
  · exact absurd rfl other
  · rfl

theorem tryFilesAfter_other {keyword : Keyword} (other : keyword ≠ .tryFiles) (args : List (List UInt8)) (tryFiles : Bool) :
    tryFilesAfter keyword args tryFiles = tryFiles := by
  unfold tryFilesAfter
  split
  · exact absurd rfl other
  · rfl

theorem limitAfter_other {keyword : Keyword} (other : keyword ≠ .clientMaxBodySize) (args : List (List UInt8)) (limit : Option Nat) :
    limitAfter keyword args limit = limit := by
  unfold limitAfter
  split
  · exact absurd rfl other
  · rfl

theorem actionAfter_other {keyword : Keyword} (other : keyword ≠ .returns) (child : Directive) (action : Option RouteActionConfig) :
    actionAfter keyword child action = action := by
  unfold actionAfter
  split
  · exact absurd rfl other
  · rfl

theorem requestAfter_other {keyword : Keyword} (other : keyword ≠ .proxySetHeader) (args : List (List UInt8))
    (settings : RequestSettings) : requestAfter keyword args settings = settings := by
  unfold requestAfter
  split
  · exact absurd rfl other
  · rfl

theorem conflicts_other {keyword : Keyword} (other : keyword ≠ .proxySetHeader) (args : List (List UInt8))
    (settings : RequestSettings) : conflicts keyword args settings = false := by
  unfold conflicts
  split
  · exact absurd rfl other
  · rfl

theorem upstreamAfter_other {keyword : Keyword} (other : keyword ≠ .proxyPass) (args : List (List UInt8))
    (settings : UpstreamSettings) : upstreamAfter keyword args settings = settings := by
  unfold upstreamAfter
  split
  · exact absurd rfl other
  · rfl

theorem consistent_inherited (children : List Directive) : ∀ settings : RequestSettings,
    consistent children settings = consistent (inherited children (ascii "proxy_set_header")) settings := by
  have listed : (ascii "proxy_set_header",Keyword.proxySetHeader) ∈ keywords := by decide
  induction children with
  | nil => exact fun settings => rfl
  | cons child children ih =>
    intro settings
    rw [consistent,ih]
    by_cases named : child.name = ascii "proxy_set_header"
    · rw [inherited_cons named,consistent]
    · have other : child.keyword ≠ .proxySetHeader := fun read => named ((keyword_named listed).mp read)
      rw [inherited_cons_other named,conflicts_other other,requestAfter_other other,Bool.not_false,Bool.true_and]

/-- A directive that names the directory of the files. -/
def placing (child : Directive) : Bool :=
  (child.keyword == .root || child.keyword == .aliases) && child.args.length == 1

theorem placeAfter_isSome (child : Directive) (place : Place) :
    (placeAfter child.keyword child.args place).1.isSome = (placing child || place.1.isSome) := by
  unfold placeAfter placing
  split
  · rename_i read args
    rw [read,args]
    rfl
  · rename_i read args
    rw [read,args]
    rfl
  · rename_i noRoot noAlias
    have still : ((child.keyword == .root || child.keyword == .aliases) && child.args.length == 1) = false := by
      rw [Bool.and_eq_false_iff,or_iff_not_imp_right,Bool.not_eq_false,beq_iff_eq]
      intro single
      obtain ⟨root,args⟩ := List.length_eq_one_iff.mp single
      rw [Bool.or_eq_false_iff,beq_eq_false_iff_ne,beq_eq_false_iff_ne]
      exact ⟨fun read => noRoot root read args,fun read => noAlias root read args⟩
    rw [still,Bool.false_or]

theorem foldl_isSome {σ β : Type} {change : σ → Directive → σ} (field : σ → Option β) (test : Directive → Bool)
    (children : List Directive) (steps : ∀ child ∈ children, ∀ state, (field (change state child)).isSome =
      (test child || (field state).isSome)) : ∀ state,
    (field (children.foldl change state)).isSome = (children.any test || (field state).isSome) := by
  induction children with
  | nil => exact fun state => rfl
  | cons child children ih =>
    intro state
    rw [List.foldl_cons,ih fun other member => steps other (List.mem_cons_of_mem _ member),steps child List.mem_cons_self,
      List.any_cons,Bool.or_left_comm,Bool.or_assoc]

theorem place_isSome (children : List Directive) (place : Place) :
    (children.foldl (fun place child => placeAfter child.keyword child.args place) place).1.isSome =
      (children.any placing || place.1.isSome) :=
  foldl_isSome Prod.fst placing children (fun child _ place => placeAfter_isSome child place) place

theorem anyRefused_mem {children : List Directive} (clean : anyRefused children = false) {child : Directive}
    (member : child ∈ children) : refused child.keyword child.args child = false := by
  rw [anyRefused,List.any_eq_false] at clean
  exact Bool.eq_false_iff.mpr (clean child member)

theorem action_isSome {children : List Directive} (clean : anyRefused children = false) :
    (children.foldl (fun action child => actionAfter child.keyword child action) none).isSome =
      children.any fun child => child.keyword == .returns := by
  have steps (child : Directive) (member : child ∈ children) (action : Option RouteActionConfig) :
      (actionAfter child.keyword child action).isSome = ((child.keyword == .returns) || action.isSome) := by
    have allowed := anyRefused_mem clean member
    by_cases read : child.keyword = .returns
    · rw [read] at allowed ⊢
      unfold refused at allowed
      obtain ⟨returned,given⟩ := Option.isSome_iff_exists.mp (Option.isNone_eq_false_iff.mp allowed)
      rw [actionAfter,given]
      rfl
    · rw [actionAfter_other read,beq_eq_false_iff_ne.mpr read,Bool.false_or]
  exact (foldl_isSome id _ children steps none).trans (Bool.or_false _)

theorem proxy_isSome {children : List Directive} (clean : anyRefused children = false) (names : List (SocketAddr × List UInt8)) :
    (children.foldl (fun settings child => upstreamAfter child.keyword child.args settings) ⟨none,names⟩).proxy.isSome =
      children.any fun child => child.keyword == .proxyPass := by
  have steps (child : Directive) (member : child ∈ children) (settings : UpstreamSettings) :
      (upstreamAfter child.keyword child.args settings).proxy.isSome =
        ((child.keyword == .proxyPass) || settings.proxy.isSome) := by
    have allowed := anyRefused_mem clean member
    by_cases read : child.keyword = .proxyPass
    · rw [read] at allowed ⊢
      unfold refused at allowed
      split at allowed
      all_goals first | contradiction | skip
      rename_i target args
      obtain ⟨⟨address,replacement⟩,given⟩ := Option.isSome_iff_exists.mp (Option.isNone_eq_false_iff.mp allowed)
      rw [args,upstreamAfter,given]
      rfl
    · rw [upstreamAfter_other read,beq_eq_false_iff_ne.mpr read,Bool.false_or]
  exact (foldl_isSome UpstreamSettings.proxy _ children steps ⟨none,names⟩).trans (Bool.or_false _)

end Components

section Conditions

/-- A condition that returns. -/
def returning (child : Directive) : Bool :=
  child.keyword == .condition && (methodBlock child).any fun block => block.action.isSome

/-- The limit of the bodies and the headers of the requests that each condition that returns sees before it. -/
def settingsSeen : List Directive → Option Nat → RequestSettings → List (Option Nat × List HeaderValueConfig)
  | [],_,_ => []
  | child :: rest,limit,settings =>
    (if returning child then [(limit,settings.headers)] else []) ++
      settingsSeen rest (limitAfter child.keyword child.args limit) (requestAfter child.keyword child.args settings)

def seenBy (route : ActionRouteConfig) : Option Nat × List HeaderValueConfig := (route.maxRequestBodyBytes,route.requestHeaders)

def unseen (route : ActionRouteConfig) : ActionRouteConfig := { route with maxRequestBodyBytes := none, requestHeaders := [] }

variable {path : List UInt8} {matchKind : RouteMatchKind}

theorem conditionalRoute_none {limit : Option Nat} {headers : List HeaderValueConfig} {child : Directive}
    (silent : returning child = false) : conditionalRoute path matchKind limit headers child.keyword child = none := by
  unfold returning at silent
  unfold conditionalRoute
  split
  · rename_i read
    rw [read,beq_self_eq_true,Bool.true_and] at silent
    cases block : methodBlock child with
    | none => rfl
    | some block' =>
      rw [block,Option.any_some,Option.isSome_eq_false_iff,Option.isNone_iff_eq_none] at silent
      rw [Option.bind_some,silent]
      rfl
  · rfl

theorem conditionalRoute_some {child : Directive} (returns : returning child = true) : ∃ block action,
    ∀ limit headers, conditionalRoute path matchKind limit headers child.keyword child =
      some ⟨path,matchKind,[MethodBlock.method block],[],limit,headers,block.headers,[],action⟩ := by
  unfold returning at returns
  rw [Bool.and_eq_true,beq_iff_eq] at returns
  obtain ⟨block,read,answered⟩ := Option.any_eq_true _ _ |>.mp returns.2
  obtain ⟨action,given⟩ := Option.isSome_iff_exists.mp answered
  refine ⟨block,action,fun limit headers => ?_⟩
  unfold conditionalRoute
  rw [returns.1]
  dsimp only
  rw [read,Option.bind_some,given]
  rfl

theorem conditionalRun_seen (children : List Directive) : ∀ (limit : Option Nat) (settings : RequestSettings),
    (conditionalRun path matchKind children limit settings).map seenBy = settingsSeen children limit settings := by
  induction children with
  | nil => exact fun limit settings => rfl
  | cons child children ih =>
    intro limit settings
    rw [conditionalRun,settingsSeen,List.map_append,ih]
    cases returns : returning child with
    | false =>
      rw [conditionalRoute_none returns]
      rfl
    | true =>
      obtain ⟨block,action,made⟩ := @conditionalRoute_some path matchKind child returns
      rw [made]
      rfl

theorem conditionalRun_unseen (children : List Directive) : ∀ (limit : Option Nat) (settings : RequestSettings),
    (conditionalRun path matchKind children limit settings).map unseen =
      (inherited children (ascii "if")).flatMap fun child => (conditionalRoute path matchKind none [] child.keyword child).toList := by
  have listed : (ascii "if",Keyword.condition) ∈ keywords := by decide
  induction children with
  | nil => exact fun limit settings => rfl
  | cons child children ih =>
    intro limit settings
    rw [conditionalRun,List.map_append,ih]
    cases returns : returning child with
    | false =>
      rw [conditionalRoute_none returns]
      by_cases named : child.name = ascii "if"
      · rw [inherited_cons named,List.flatMap_cons,conditionalRoute_none returns]
        rfl
      · rw [inherited_cons_other named]
        rfl
    | true =>
      obtain ⟨block,action,made⟩ := @conditionalRoute_some path matchKind child returns
      have named : child.name = ascii "if" := by
        rw [returning,Bool.and_eq_true,beq_iff_eq] at returns
        exact (keyword_named listed).mp returns.1
      rw [inherited_cons named,List.flatMap_cons,made,made]
      rfl

theorem unseen_injective {left right : List ActionRouteConfig} (seen : left.map seenBy = right.map seenBy)
    (rest : left.map unseen = right.map unseen) : left = right := by
  have both : left.map (fun route => (seenBy route,unseen route)) = right.map fun route => (seenBy route,unseen route) := by
    rw [← @List.zip_map' _ _ _ seenBy unseen left,← @List.zip_map' _ _ _ seenBy unseen right,seen,rest]
  refine List.map_injective_iff.mpr (fun first second same => ?_) both
  obtain ⟨seen,rest⟩ := Prod.mk.inj same
  cases first
  cases second
  cases seen
  cases rest
  rfl

end Conditions

section Rearrangements

/-- The headers that a location starts from: none of the server's where it adds some of its own. -/
def startHeaders (children : List Directive) (server : ServerSpec) : List HeaderValueConfig :=
  if children.any (·.name == ascii "add_header") then [] else server.responseHeaders

def headersInForce (children : List Directive) (headers : List HeaderValueConfig) : List HeaderValueConfig :=
  children.foldl (fun headers child => responseAfter child.keyword child headers) headers

def filesFrom (children : List Directive) (place : Place) : Place :=
  children.foldl (fun place child => placeAfter child.keyword child.args place) place

/-- The location answers out of files. -/
def ServesFiles (children : List Directive) : Prop :=
  inherited children (ascii "return") = [] ∧ inherited children (ascii "proxy_pass") = []

/-- The location is refused in whatever order its settings stand. -/
def Faulty (directive : Directive) (server : ServerSpec) : Prop :=
  locationMatch directive = none ∨ anyRefused directive.children = true ∨ consistent directive.children ⟨[],none⟩ = false ∨
    (ServesFiles directive.children ∧ (filesFrom directive.children (server.root,.root)).1 = none)

/-- What the order of the settings can change: what the conditions see, the headers in force and the directory of the files. -/
structure SameReading (left right : List Directive) (server : ServerSpec) : Prop where
  seen : settingsSeen left server.maxRequestBodyBytes ⟨[],none⟩ = settingsSeen right server.maxRequestBodyBytes ⟨[],none⟩
  inForce : headersInForce left (startHeaders left server) = headersInForce right (startHeaders right server)
  files : ServesFiles left → filesFrom left (server.root,.root) = filesFrom right (server.root,.root)

variable {path : List UInt8} {matchKind : RouteMatchKind} {directive : Directive} {server : ServerSpec} {translation : Translation}

theorem inherited_nil (children : List Directive) {keyword : Keyword} {name : List UInt8} (listed : (name,keyword) ∈ keywords) :
    inherited children name = [] ↔ (children.any fun child => child.keyword == keyword) = false := by
  rw [inherited,List.filter_eq_nil_iff,List.any_eq_false]
  refine forall_congr' fun child => imp_congr_right fun _ => not_congr ?_
  rw [beq_iff_eq,beq_iff_eq,keyword_named listed]

/-- The state behind the directives of a location whose directives are not refused, as far as its action goes. -/
theorem serves_iff (clean : anyRefused directive.children = false) : ServesFiles directive.children ↔
    (locationEnd directive server translation matchKind path).action = none ∧
      (locationEnd directive server translation matchKind path).proxy = none := by
  have ran := @locationEnd_ran path matchKind directive server translation
  have acted := action_isSome clean
  have proxied := proxy_isSome clean translation.upstreamNames
  have upstream := congrArg UpstreamSettings.proxy ran.upstream
  change (locationEnd directive server translation matchKind path).proxy = _ at upstream
  rw [ServesFiles,inherited_nil _ (by decide : (ascii "return",Keyword.returns) ∈ keywords),
    inherited_nil _ (by decide : (ascii "proxy_pass",Keyword.proxyPass) ∈ keywords),← acted,← proxied,ran.action,upstream,
    Option.isSome_eq_false_iff,Option.isSome_eq_false_iff,Option.isNone_iff_eq_none,Option.isNone_iff_eq_none]
  rfl

theorem locationAction_files {state : LocationState} (action : state.action = none) (proxy : state.proxy = none) :
    locationAction server state = state.root.map fun directory => .files directory state.mapping
      (if state.indexes.isEmpty then [ascii "index.html"] else state.indexes) state.tryFiles server.errorPage404 := by
  unfold locationAction
  rw [action,proxy]
  rfl

theorem locationAction_isSome (state : LocationState) :
    (locationAction server state).isSome = (state.action.isSome || state.proxy.isSome || state.root.isSome) := by
  unfold locationAction
  rw [Option.isSome_or,Option.isSome_or,Option.isSome_map,Option.isSome_map]

theorem outcome_clean (matched : locationMatch directive = some (matchKind,path)) (clean : anyRefused directive.children = false)
    (agreed : consistent directive.children ⟨[],none⟩ = true) : outcome directive server translation =
      if inheriting directive.children (startHeaders directive.children server) = true then
        finalRoutes path matchKind server (locationEnd directive server translation matchKind path)
      else none := by
  have quiet := (@locationEnd_ran path matchKind directive server translation).quiet
  rw [outcome_matched matched]
  refine if_congr ?_ rfl rfl
  exact quiet.trans ⟨fun all => all.2.2,fun inherits => ⟨clean,agreed,inherits⟩⟩

theorem outcome_faulty (faulty : Faulty directive server) : outcome directive server translation = none := by
  cases matched : locationMatch directive with
  | none => exact outcome_unmatched matched
  | some kind =>
    obtain ⟨matchKind,path⟩ := kind
    have ran := @locationEnd_ran path matchKind directive server translation
    rw [outcome_matched matched]
    split
    · rename_i quiet
      obtain ⟨clean,agreed,-⟩ := ran.quiet.mp quiet
      rcases faulty with unmatched | bad | differs | ⟨serves,nowhere⟩
      · rw [matched] at unmatched
        cases unmatched
      · rw [clean] at bad
        cases bad
      · exact absurd (agreed.symm.trans differs) (by decide)
      · obtain ⟨action,proxy⟩ := (@serves_iff path matchKind directive server translation clean).mp serves
        have root : (locationEnd directive server translation matchKind path).root = none :=
          (congrArg Prod.fst ran.place).trans nowhere
        rw [finalRoutes,locationAction_files action proxy,root]
        rfl
    · rfl

variable {left right : Directive}

theorem Rearranged.faulty (args : left.args = right.args) (moved : Rearranged left.children right.children) :
    Faulty left server ↔ Faulty right server := by
  have matches' : locationMatch left = locationMatch right := by
    unfold locationMatch
    rw [args]
  have placed : (filesFrom left.children (server.root,.root)).1.isSome = (filesFrom right.children (server.root,.root)).1.isSome := by
    rw [filesFrom,filesFrom,place_isSome,place_isSome,moved.any]
  have nowhere : (filesFrom left.children (server.root,.root)).1 = none ↔
      (filesFrom right.children (server.root,.root)).1 = none := by
    rw [← Option.isNone_iff_eq_none,← Option.isNone_iff_eq_none,← Option.isSome_eq_false_iff,placed,Option.isSome_eq_false_iff]
  unfold Faulty ServesFiles
  rw [matches',anyRefused,anyRefused,moved.any,consistent_inherited,consistent_inherited right.children,
    moved.named (ascii "proxy_set_header"),moved.named (ascii "return"),moved.named (ascii "proxy_pass"),nowhere]

/-- What the order of the settings leaves alone. -/
structure Alike (left right : LocationState) : Prop where
  indexes : left.indexes = right.indexes
  tryFiles : left.tryFiles = right.tryFiles
  limit : left.maxRequestBodyBytes = right.maxRequestBodyBytes
  action : left.action = right.action
  requestHeaders : left.requestHeaders = right.requestHeaders
  hostHeader : left.hostHeader = right.hostHeader
  proxy : left.proxy = right.proxy
  deny : left.deny = right.deny

theorem Rearranged.alike (moved : Rearranged left.children right.children) :
    Alike (locationEnd left server translation matchKind path) (locationEnd right server translation matchKind path) := by
  have first := @locationEnd_ran path matchKind left server translation
  have second := @locationEnd_ran path matchKind right server translation
  have request : (locationEnd left server translation matchKind path).request =
      (locationEnd right server translation matchKind path).request := by
    rw [first.request,second.request]
    exact moved.foldl (by decide : (ascii "proxy_set_header",Keyword.proxySetHeader) ∈ keywords)
      (fun settings child other => requestAfter_other other child.args settings) _
  have upstream : (locationEnd left server translation matchKind path).upstream =
      (locationEnd right server translation matchKind path).upstream := by
    rw [first.upstream,second.upstream]
    exact moved.foldl (by decide : (ascii "proxy_pass",Keyword.proxyPass) ∈ keywords)
      (fun settings child other => upstreamAfter_other other child.args settings) _
  refine ⟨?_,?_,?_,?_,congrArg RequestSettings.headers request,congrArg RequestSettings.host request,
    congrArg UpstreamSettings.proxy upstream,?_⟩
  · rw [first.indexes,second.indexes]
    exact moved.foldl (by decide : (ascii "index",Keyword.index) ∈ keywords)
      (fun indexes child other => indexesAfter_other other child.args indexes) _
  · rw [first.tryFiles,second.tryFiles]
    exact moved.foldl (by decide : (ascii "try_files",Keyword.tryFiles) ∈ keywords)
      (fun tryFiles child other => tryFilesAfter_other other child.args tryFiles) _
  · rw [first.limit,second.limit]
    exact moved.foldl (by decide : (ascii "client_max_body_size",Keyword.clientMaxBodySize) ∈ keywords)
      (fun limit child other => limitAfter_other other child.args limit) _
  · rw [first.action,second.action]
    exact moved.foldl (by decide : (ascii "return",Keyword.returns) ∈ keywords)
      (fun action child other => actionAfter_other other child action) _
  · have denies (children : List Directive) : children.flatMap written =
        children.foldl (fun networks child => networks ++ written child) [] :=
      (foldl_appends id written (fun _ _ => rfl) children []).symm
    rw [locationEnd_deny,locationEnd_deny,denies,denies]
    refine congrArg _ (moved.foldl (by decide : (ascii "deny",Keyword.deny) ∈ keywords) (fun networks child other => ?_) _)
    rw [written_other other,List.append_nil]

theorem seenBy_inheritHeaders (headers : List HeaderValueConfig) (routes : List ActionRouteConfig) :
    (routes.map (inheritHeaders headers)).map seenBy = routes.map seenBy := by
  rw [List.map_map]
  rfl

theorem finalRoutes_some {state : LocationState} {action : RouteActionConfig} (acts : locationAction server state = some action) :
    finalRoutes path matchKind server state = some (state.conditionalRoutes.map (inheritHeaders state.responseHeaders) ++
      [⟨path,matchKind,[],[],state.maxRequestBodyBytes,state.requestHeaders,state.responseHeaders,
        if state.action.isSome then [] else state.deny,action⟩]) := by
  rw [finalRoutes,acts,Option.map_some]

theorem Alike.locationAction {left right : LocationState} (alike : Alike left right)
    (files : left.action = none → left.proxy = none → (left.root,left.mapping) = (right.root,right.mapping)) :
    locationAction server left = locationAction server right := by
  unfold Nginx.locationAction
  rw [← alike.action,← alike.proxy,← alike.hostHeader,← alike.indexes,← alike.tryFiles]
  cases action : left.action with
  | some action => rfl
  | none =>
    cases proxy : left.proxy with
    | some proxy => rfl
    | none =>
      obtain ⟨root,mapping⟩ := Prod.mk.inj (files action proxy)
      rw [root,mapping]

theorem locationAction_some (clean : anyRefused directive.children = false)
    (served : ¬ (ServesFiles directive.children ∧ (filesFrom directive.children (server.root,.root)).1 = none)) :
    ∃ action, locationAction server (locationEnd directive server translation matchKind path) = some action := by
  have ran := @locationEnd_ran path matchKind directive server translation
  have serves := @serves_iff path matchKind directive server translation clean
  have root : (locationEnd directive server translation matchKind path).root =
      (filesFrom directive.children (server.root,.root)).1 := congrArg Prod.fst ran.place
  rw [← Option.isSome_iff_exists,locationAction_isSome]
  rw [serves,← root] at served
  cases action : (locationEnd directive server translation matchKind path).action with
  | some action => rfl
  | none =>
    cases proxy : (locationEnd directive server translation matchKind path).proxy with
    | some proxy => rfl
    | none =>
      cases files : (locationEnd directive server translation matchKind path).root with
      | some directory => rfl
      | none => exact absurd ⟨⟨action,proxy⟩,files⟩ served

/-- Of two orders that are accepted, the routes are the same exactly when the settings read the same in both. -/
theorem finalRoutes_iff (moved : Rearranged left.children right.children) (clean : anyRefused left.children = false)
    (served : ¬ (ServesFiles left.children ∧ (filesFrom left.children (server.root,.root)).1 = none))
    (rightServed : ¬ (ServesFiles right.children ∧ (filesFrom right.children (server.root,.root)).1 = none)) :
    finalRoutes path matchKind server (locationEnd left server translation matchKind path) =
        finalRoutes path matchKind server (locationEnd right server translation matchKind path) ↔
      SameReading left.children right.children server := by
  have first := @locationEnd_ran path matchKind left server translation
  have second := @locationEnd_ran path matchKind right server translation
  have alike := @Rearranged.alike path matchKind server translation left right moved
  have serves := @serves_iff path matchKind left server translation clean
  have rightClean : anyRefused right.children = false := by
    rw [← clean,anyRefused,anyRefused,moved.any]
  obtain ⟨action,acts⟩ := @locationAction_some path matchKind left server translation clean served
  obtain ⟨rightAction,rightActs⟩ := @locationAction_some path matchKind right server translation rightClean rightServed
  have firstRoutes := first.routes
  have secondRoutes := second.routes
  have firstForce : (locationEnd left server translation matchKind path).responseHeaders =
      headersInForce left.children (startHeaders left.children server) := first.response
  have secondForce : (locationEnd right server translation matchKind path).responseHeaders =
      headersInForce right.children (startHeaders right.children server) := second.response
  have firstPlace : ((locationEnd left server translation matchKind path).root,
      (locationEnd left server translation matchKind path).mapping) = filesFrom left.children (server.root,.root) := first.place
  have secondPlace : ((locationEnd right server translation matchKind path).root,
      (locationEnd right server translation matchKind path).mapping) = filesFrom right.children (server.root,.root) := second.place
  change _ = [] ++ conditionalRun path matchKind left.children server.maxRequestBodyBytes ⟨[],none⟩ at firstRoutes
  change _ = [] ++ conditionalRun path matchKind right.children server.maxRequestBodyBytes ⟨[],none⟩ at secondRoutes
  rw [List.nil_append] at firstRoutes secondRoutes
  constructor
  · intro same
    rw [finalRoutes_some acts,finalRoutes_some rightActs] at same
    obtain ⟨conditional,last⟩ := List.append_inj' (Option.some.inj same) rfl
    have fallback := (List.cons.inj last).1
    refine ⟨?_,?_,fun files => ?_⟩
    · have seen := congrArg (List.map seenBy) conditional
      rw [seenBy_inheritHeaders,seenBy_inheritHeaders,firstRoutes,secondRoutes,conditionalRun_seen,conditionalRun_seen] at seen
      exact seen
    · rw [← firstForce,← secondForce]
      exact congrArg ActionRouteConfig.responseHeaders fallback
    · obtain ⟨none,noProxy⟩ := serves.mp files
      have same : action = rightAction := congrArg ActionRouteConfig.action fallback
      rw [locationAction_files none noProxy] at acts
      rw [locationAction_files (alike.action.symm.trans none) (alike.proxy.symm.trans noProxy)] at rightActs
      obtain ⟨directory,found,made⟩ := Option.map_eq_some_iff.mp acts
      obtain ⟨rightDirectory,rightFound,rightMade⟩ := Option.map_eq_some_iff.mp rightActs
      rw [← firstPlace,← secondPlace,found,rightFound]
      rw [same,← rightMade] at made
      injection made with directories mappings
      rw [directories,mappings]
  · intro reading
    have conditional : (locationEnd left server translation matchKind path).conditionalRoutes =
        (locationEnd right server translation matchKind path).conditionalRoutes := by
      rw [firstRoutes,secondRoutes]
      refine unseen_injective ?_ ?_
      · rw [conditionalRun_seen,conditionalRun_seen,reading.seen]
      · rw [conditionalRun_unseen,conditionalRun_unseen,moved.named (ascii "if")]
    have inForce : (locationEnd left server translation matchKind path).responseHeaders =
        (locationEnd right server translation matchKind path).responseHeaders := by
      rw [firstForce,secondForce,reading.inForce]
    have same := @Alike.locationAction server _ _ alike fun none noProxy => by
      rw [firstPlace,secondPlace,reading.files (serves.mpr ⟨none,noProxy⟩)]
    unfold finalRoutes
    rw [same,conditional,inForce,alike.limit,alike.requestHeaders,alike.action,alike.deny]

/-- Two orders of the settings around the conditions of a location have one outcome exactly when the location is refused in any
order, or the conditions override the headers in both orders, or in neither and what they see is the same. -/
theorem rearranged_outcome_iff (server : ServerSpec) (translation : Translation) (left right : Directive)
    (args : left.args = right.args) (moved : Rearranged left.children right.children) :
    outcome left server translation = outcome right server translation ↔ Faulty left server ∨
      (inheriting left.children (startHeaders left.children server) = inheriting right.children (startHeaders right.children server) ∧
        (inheriting left.children (startHeaders left.children server) = true → SameReading left.children right.children server)) := by
  by_cases faulty : Faulty left server
  · refine iff_of_true ?_ (.inl faulty)
    rw [outcome_faulty faulty,outcome_faulty ((moved.faulty args).mp faulty)]
  · have rightFaulty : ¬ Faulty right server := fun bad => faulty ((moved.faulty args).mpr bad)
    have same : locationMatch right = locationMatch left := by
      unfold locationMatch
      rw [args]
    rw [or_iff_right faulty]
    unfold Faulty at faulty rightFaulty
    rw [not_or,not_or,not_or,Bool.not_eq_true,Bool.not_eq_false] at faulty rightFaulty
    obtain ⟨matched,clean,agreed,served⟩ := faulty
    obtain ⟨-,rightClean,rightAgreed,rightServed⟩ := rightFaulty
    obtain ⟨⟨matchKind,path⟩,read⟩ := Option.ne_none_iff_exists'.mp matched
    rw [outcome_clean read clean agreed,outcome_clean (same.trans read) rightClean rightAgreed]
    obtain ⟨action,acts⟩ := @locationAction_some path matchKind left server translation clean served
    obtain ⟨rightAction,rightActs⟩ := @locationAction_some path matchKind right server translation rightClean rightServed
    have iff := @finalRoutes_iff path matchKind server translation left right moved clean served rightServed
    rw [finalRoutes_some acts,finalRoutes_some rightActs] at iff ⊢
    cases inheriting left.children (startHeaders left.children server) with
    | true =>
      cases inheriting right.children (startHeaders right.children server) with
      | true =>
        rw [if_pos rfl,if_pos rfl,iff]
        exact ⟨fun reading => ⟨rfl,fun _ => reading⟩,fun both => both.2 rfl⟩
      | false =>
        rw [if_pos rfl,if_neg Bool.false_ne_true]
        exact ⟨fun impossible => (by cases impossible),fun impossible => (by cases impossible.1)⟩
    | false =>
      cases inheriting right.children (startHeaders right.children server) with
      | true =>
        rw [if_pos rfl,if_neg Bool.false_ne_true]
        exact ⟨fun impossible => (by cases impossible),fun impossible => (by cases impossible.1)⟩
      | false => exact iff_of_true rfl ⟨rfl,fun impossible => (by cases impossible)⟩

theorem Rearranged.swap (before after : List Directive) {setting other : Directive} (moves : setting.name ∈ movable)
    (differs : setting.name ≠ other.name) :
    Rearranged (before ++ setting :: other :: after) (before ++ other :: setting :: after) := by
  refine ⟨?_,fun name _ => ?_⟩
  · have goes : (!movable.contains setting.name) = false := by
      rw [List.contains_iff_mem.mpr moves]
      rfl
    simp only [List.filter_append,List.filter_cons,goes,Bool.false_eq_true,if_false]
  · unfold inherited
    simp only [List.filter_append,List.filter_cons,beq_iff_eq]
    by_cases named : setting.name = name
    · rw [if_pos named,if_neg fun same => differs (named.trans same.symm),if_neg fun same => differs (named.trans same.symm),
        if_pos named]
    · rw [if_neg named,if_neg named]

def plainLocation (children : List Directive) : Directive := ⟨ascii "location",[ascii "/"],children,ascii "nginx.conf",1⟩

def settingDirective (name value : String) : Directive := ⟨ascii name,[ascii value],[],ascii "nginx.conf",2⟩

/-- A return for the requests of one method. -/
def postCondition : Directive := ⟨ascii "if",[ascii "($request_method",ascii "=",ascii "POST)"],
  [settingDirective "return" "405"],ascii "nginx.conf",3⟩

/-- The directory of the files moved past a condition changes nothing. -/
theorem rearranged_root :
    (outcome (plainLocation [settingDirective "root" "/srv",postCondition]) (emptyServer (some 1048576)) ⟨[],[]⟩).isSome ∧
      outcome (plainLocation [settingDirective "root" "/srv",postCondition]) (emptyServer (some 1048576)) ⟨[],[]⟩ =
        outcome (plainLocation [postCondition,settingDirective "root" "/srv"]) (emptyServer (some 1048576)) ⟨[],[]⟩ := by
  refine ⟨by decide +kernel,(rearranged_outcome_iff (emptyServer (some 1048576)) ⟨[],[]⟩
    (plainLocation [settingDirective "root" "/srv",postCondition]) (plainLocation [postCondition,settingDirective "root" "/srv"]) rfl
    (.swap [] [] (by decide) (by decide))).mpr (.inr ⟨by decide +kernel,fun _ => ⟨?_,?_,fun _ => ?_⟩⟩)⟩
  · rfl
  · rfl
  · rfl

/-- The limit of the bodies moved past a condition is not the one of its route any more. -/
theorem rearranged_limit : Rearranged [settingDirective "client_max_body_size" "1k",postCondition,settingDirective "root" "/srv"]
      [postCondition,settingDirective "client_max_body_size" "1k",settingDirective "root" "/srv"] ∧
    outcome (plainLocation [settingDirective "client_max_body_size" "1k",postCondition,settingDirective "root" "/srv"])
        (emptyServer (some 1048576)) ⟨[],[]⟩ ≠
      outcome (plainLocation [postCondition,settingDirective "client_max_body_size" "1k",settingDirective "root" "/srv"])
        (emptyServer (some 1048576)) ⟨[],[]⟩ :=
  ⟨.swap [] [settingDirective "root" "/srv"] (by decide) (by decide),by decide +kernel⟩

end Rearrangements

end Polyguard.Nginx

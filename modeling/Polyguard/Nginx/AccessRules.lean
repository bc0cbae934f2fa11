import Polyguard.Nginx.Assembly

/-! The access rules of servers and locations, from the tree to the routes.
A step of either loop changes the denied networks only for a deny, and takes no issue
back: a translation without issues had none after any step. -/
namespace Polyguard.Nginx
open Ascii Slices Decimal Proxy

section Words

theorem keyword_listed {directive : Directive} {keyword : Keyword} (known : keyword ≠ .other)
    (read : directive.keyword = keyword) : (directive.name,keyword) ∈ keywords := by
  unfold Directive.keyword at read
  cases found : keywords.find? fun entry => entry.1 == directive.name with
  | none =>
    rw [found] at read
    exact absurd read.symm known
  | some entry =>
    rw [found] at read
    have member := List.mem_of_find?_eq_some found
    have named := List.find?_some found
    rw [beq_iff_eq] at named
    rw [← named,← read]
    exact member

theorem keyword_named {directive : Directive} {keyword : Keyword} {name : List UInt8} (listed : (name,keyword) ∈ keywords) :
    directive.keyword = keyword ↔ directive.name = name := by
  have known : ∀ entry ∈ keywords, entry.2 ≠ .other := by decide
  have single : ∀ entry ∈ keywords, ∀ other ∈ keywords, entry.2 = other.2 → entry.1 = other.1 := by decide
  have found : ∀ entry ∈ keywords, (keywords.find? fun other => other.1 == entry.1) = some entry := by decide
  constructor
  · intro read
    exact single (directive.name,keyword) (keyword_listed (known _ listed) read) (name,keyword) listed rfl
  · intro named
    rw [Directive.keyword,named,found _ listed]
    rfl

theorem keyword_deny {directive : Directive} : directive.keyword = .deny ↔ directive.name = ascii "deny" :=
  keyword_named (by decide)

theorem keyword_returns {directive : Directive} : directive.keyword = .returns ↔ directive.name = ascii "return" :=
  keyword_named (by decide)

theorem keyword_location {directive : Directive} : directive.keyword = .location ↔ directive.name = ascii "location" :=
  keyword_named (by decide)

end Words

section Steps

/-- Every route of a condition so far names the methods it is for. -/
def Conditional (state : LocationState) : Prop := ∀ route ∈ state.conditionalRoutes, route.methods ≠ []

/-- A step that leaves the denied networks and the action as they are, and takes no issue back. -/
structure LocationKept (before after : LocationState) : Prop where
  deny : after.deny = before.deny
  action : after.action = before.action
  quiet : after.translation.issues = [] → before.translation.issues = []
  conditional : Conditional before → Conditional after

theorem LocationKept.refl (state : LocationState) : LocationKept state state := ⟨rfl,rfl,id,id⟩

theorem LocationState.issue_kept (state : LocationState) (directive : Directive) (message : List UInt8) :
    LocationKept state (state.issue directive message) :=
  ⟨rfl,rfl,fun none => absurd (congrArg List.length none) (by simp [LocationState.issue,Translation.issue]),id⟩

theorem setRequestHeader_kept (child : Directive) (name value : List UInt8) (state : LocationState) :
    LocationKept state (setRequestHeader child name value state) := by
  unfold setRequestHeader
  split
  · split
    · exact state.issue_kept child _
    · exact .refl state
  · exact ⟨rfl,rfl,id,id⟩

theorem proxySetHeader_kept (child : Directive) (name value : List UInt8) (state : LocationState) :
    LocationKept state (proxySetHeader child name value state) := by
  unfold proxySetHeader
  split
  · split
    · exact state.issue_kept child _
    · exact ⟨rfl,rfl,id,id⟩
  · split
    · exact .refl state
    · split
      · exact .refl state
      · split
        · exact .refl state
        · split
          · exact state.issue_kept child _
          · exact setRequestHeader_kept child name value state

theorem Translation.issue_some (translation : Translation) (directive : Directive) (message : List UInt8) :
    (translation.issue directive message).issues ≠ [] := by
  simp [Translation.issue]

theorem conditionalStep_quiet {methods : List (List UInt8)} {state : ConditionalState} {nested : Directive}
    (none : (conditionalStep methods state nested).translation.issues = []) : state.translation.issues = [] := by
  unfold conditionalStep at none
  split at none
  · split at none
    · split at none
      · exact none
      · split at none
        · exact none
        · exact none
    · exact absurd none (Translation.issue_some _ _ _)
  · split at none
    · exact none
    · exact absurd none (Translation.issue_some _ _ _)
  · exact absurd none (Translation.issue_some _ _ _)

/-- What each step keeps, a fold keeps from its start, and from behind any of its items, to its end. -/
theorem foldl_grows {σ α : Type} {step : σ → α → σ} (grows : σ → σ → Prop) (refl : ∀ state, grows state state)
    (trans : ∀ first second third, grows first second → grows second third → grows first third)
    (steps : ∀ state item, grows state (step state item)) (items : List α) : ∀ state,
      grows state (items.foldl step state) ∧ ∀ item ∈ items, ∃ before, grows (step before item) (items.foldl step state) := by
  induction items with
  | nil =>
    intro state
    refine ⟨refl state,fun item member => ?_⟩
    cases member
  | cons first items ih =>
    intro state
    obtain ⟨begun,later⟩ := ih (step state first)
    refine ⟨trans _ _ _ (steps state first) begun,fun item member => ?_⟩
    rcases List.mem_cons.mp member with rfl | behind
    · exact ⟨state,begun⟩
    · exact later item behind

theorem foldl_appends {σ α β : Type} {step : σ → α → σ} (field : σ → List β) (gives : α → List β)
    (steps : ∀ state item, field (step state item) = field state ++ gives item) (items : List α) :
    ∀ state, field (items.foldl step state) = field state ++ items.flatMap gives := by
  induction items with
  | nil =>
    intro state
    rw [List.foldl_nil,List.flatMap_nil,List.append_nil]
  | cons first items ih =>
    intro state
    rw [List.foldl_cons,ih,steps,List.flatMap_cons,List.append_assoc]

theorem methodCondition_kept (path : List UInt8) (matchKind : RouteMatchKind) (child : Directive) (value : List UInt8)
    (state : LocationState) : LocationKept state (methodCondition path matchKind child value state) := by
  have back (none : (child.children.foldl (conditionalStep [value]) ⟨[],.none,.none,state.translation⟩).translation.issues = []) :
      state.translation.issues = [] :=
    (foldl_grows (fun before after : ConditionalState => after.translation.issues = [] → before.translation.issues = [])
      (fun _ => id) (fun _ _ _ first second => first ∘ second) (fun _ _ => conditionalStep_quiet) child.children _).1 none
  unfold methodCondition
  dsimp only
  split
  · refine ⟨rfl,rfl,back,fun before route member => ?_⟩
    rcases List.mem_append.mp member with early | last
    · exact before route early
    · rw [List.mem_singleton.mp last]
      exact List.cons_ne_nil value []
  · split
    · exact ⟨rfl,rfl,back,id⟩
    · split
      · exact ⟨rfl,rfl,back,id⟩
      · split
        · exact ⟨rfl,rfl,fun none => absurd none (Translation.issue_some _ _ _),id⟩
        · exact ⟨rfl,rfl,back,id⟩

theorem upstream_issues (translation : Translation) (address : SocketAddr) :
    (translation.upstream address).2.issues = translation.issues := by
  unfold Translation.upstream
  split
  · rfl
  · rfl

/-- Every directive but a deny and a return leaves the denied networks and the action alone. -/
theorem locationStep_kept {child : Directive} (allowed : child.keyword ≠ .deny) (goesOn : child.keyword ≠ .returns)
    (path : List UInt8) (matchKind : RouteMatchKind) (state : LocationState) :
    LocationKept state (locationStep path matchKind state child) := by
  have issued (message : List UInt8) := state.issue_kept child message
  unfold locationStep
  cases read : child.keyword with
  | deny => exact absurd read allowed
  | returns => exact absurd read goesOn
  | root =>
    dsimp only
    split
    · exact ⟨rfl,rfl,id,id⟩
    · exact issued _
  | aliases =>
    dsimp only
    split
    · exact ⟨rfl,rfl,id,id⟩
    · exact issued _
  | index =>
    dsimp only
    split
    · exact issued _
    · exact ⟨rfl,rfl,id,id⟩
  | tryFiles =>
    dsimp only
    split
    · exact ⟨rfl,rfl,id,id⟩
    · exact issued _
  | clientMaxBodySize =>
    dsimp only
    split
    · split
      · exact ⟨rfl,rfl,fun none => absurd none (Translation.issue_some _ _ _),id⟩
      · exact ⟨rfl,rfl,id,id⟩
    · exact issued _
  | proxyPass =>
    dsimp only
    split
    · split
      · exact ⟨rfl,rfl,fun none => (upstream_issues _ _).symm.trans none,id⟩
      · exact issued _
    · exact issued _
  | proxySetHeader =>
    dsimp only
    split
    · exact proxySetHeader_kept child _ _ state
    · exact issued _
  | proxyHttpVersion =>
    dsimp only
    split
    · exact .refl state
    · exact issued _
  | proxyRedirect =>
    dsimp only
    split
    · exact .refl state
    · exact issued _
  | addHeader =>
    dsimp only
    split
    · exact ⟨rfl,rfl,id,id⟩
    · exact issued _
  | condition =>
    dsimp only
    split
    · exact issued _
    · split
      · exact issued _
      · exact methodCondition_kept path matchKind child _ state
  | listen => exact .refl state
  | serverName => exact .refl state
  | errorPage => exact .refl state
  | sslCertificate => exact .refl state
  | sslCertificateKey => exact .refl state
  | location => exact .refl state
  | other => exact .refl state

/-- The networks that a directive denies. -/
def written (child : Directive) : List (List UInt8) :=
  match child.keyword,child.args with
  | .deny,[network] => if network == ascii "all" then allNetworks else [network]
  | _,_ => []

theorem written_other {child : Directive} (allowed : child.keyword ≠ .deny) : written child = [] := by
  unfold written
  split
  · rename_i read _
    exact absurd read allowed
  · rfl

theorem locationStep_returns {child : Directive} (read : child.keyword = .returns) (path : List UInt8) (matchKind : RouteMatchKind)
    (state : LocationState) : (locationStep path matchKind state child).deny = state.deny ∧
      ((locationStep path matchKind state child).translation.issues = [] → state.translation.issues = []) ∧
      (locationStep path matchKind state child).conditionalRoutes = state.conditionalRoutes := by
  unfold locationStep
  rw [read]
  dsimp only
  split
  · exact ⟨rfl,id,rfl⟩
  · exact ⟨rfl,(state.issue_kept child _).quiet,rfl⟩

theorem locationStep_denied {child : Directive} (read : child.keyword = .deny) (path : List UInt8) (matchKind : RouteMatchKind)
    (state : LocationState) : (locationStep path matchKind state child).deny = state.deny ++ written child ∧
      (locationStep path matchKind state child).action = state.action ∧
      (locationStep path matchKind state child).conditionalRoutes = state.conditionalRoutes ∧
      ((locationStep path matchKind state child).translation.issues = [] →
        state.translation.issues = [] ∧ child.args.length = 1) := by
  unfold locationStep written
  rw [read]
  dsimp only
  split
  · rename_i network given
    refine ⟨?_,rfl,rfl,fun none => ⟨none,by rw [given]; rfl⟩⟩
    rw [given]
  · rename_i other
    refine ⟨?_,rfl,rfl,fun none => absurd none (Translation.issue_some _ _ _)⟩
    split
    · rename_i network _ given
      exact absurd given (other network)
    · exact (List.append_nil _).symm

theorem locationStep_deny (path : List UInt8) (matchKind : RouteMatchKind) (state : LocationState) (child : Directive) :
    (locationStep path matchKind state child).deny = state.deny ++ written child := by
  by_cases denies : child.keyword = .deny
  · exact (locationStep_denied denies path matchKind state).1
  · rw [written_other denies,List.append_nil]
    by_cases returned : child.keyword = .returns
    · exact (locationStep_returns returned path matchKind state).1
    · exact (locationStep_kept denies returned path matchKind state).deny

theorem locationStep_quiet (path : List UInt8) (matchKind : RouteMatchKind) (state : LocationState) (child : Directive)
    (none : (locationStep path matchKind state child).translation.issues = []) : state.translation.issues = [] := by
  by_cases denies : child.keyword = .deny
  · exact ((locationStep_denied denies path matchKind state).2.2.2 none).1
  · by_cases returned : child.keyword = .returns
    · exact (locationStep_returns returned path matchKind state).2.1 none
    · exact (locationStep_kept denies returned path matchKind state).quiet none

theorem locationStep_conditional (path : List UInt8) (matchKind : RouteMatchKind) (state : LocationState) (child : Directive)
    (before : Conditional state) : Conditional (locationStep path matchKind state child) := by
  unfold Conditional at before ⊢
  by_cases denies : child.keyword = .deny
  · rw [(locationStep_denied denies path matchKind state).2.2.1]
    exact before
  · by_cases returned : child.keyword = .returns
    · rw [(locationStep_returns returned path matchKind state).2.2]
      exact before
    · exact (locationStep_kept denies returned path matchKind state).conditional before

theorem locationStep_action {child : Directive} (goesOn : child.keyword ≠ .returns) (path : List UInt8) (matchKind : RouteMatchKind)
    (state : LocationState) : (locationStep path matchKind state child).action = state.action := by
  by_cases denies : child.keyword = .deny
  · exact (locationStep_denied denies path matchKind state).2.1
  · exact (locationStep_kept denies goesOn path matchKind state).action

/-- A step that leaves the denied networks of the server as they are, and takes no issue back. -/
structure ServerKept (before after : ServerState) : Prop where
  deny : after.server.deny = before.server.deny
  quiet : after.translation.issues = [] → before.translation.issues = []

theorem ServerKept.refl (state : ServerState) : ServerKept state state := ⟨rfl,id⟩

theorem ServerKept.trans (first second third : ServerState) (early : ServerKept first second) (late : ServerKept second third) :
    ServerKept first third := ⟨late.deny.trans early.deny,early.quiet ∘ late.quiet⟩

theorem ServerState.issue_kept (state : ServerState) (directive : Directive) (message : List UInt8) :
    ServerKept state (state.issue directive message) := ⟨rfl,fun none => absurd none (Translation.issue_some _ _ _)⟩

theorem serverNameStep_kept (child : Directive) (state : ServerState) (name : List UInt8) :
    ServerKept state (serverNameStep child state name) := by
  unfold serverNameStep
  split
  · exact .refl state
  · split
    · exact state.issue_kept child _
    · exact ⟨rfl,id⟩

theorem hostConditionStep_kept (value : List UInt8) (state : ServerState) (nested : Directive) :
    ServerKept state (hostConditionStep value state nested) := by
  unfold hostConditionStep
  split
  · split
    · exact ⟨rfl,id⟩
    · exact state.issue_kept nested _
  · exact .refl state

theorem serverStep_kept {child : Directive} (allowed : child.keyword ≠ .deny) (state : ServerState) :
    ServerKept state (serverStep state child) := by
  have issued (message : List UInt8) := state.issue_kept child message
  unfold serverStep
  cases read : child.keyword with
  | deny => exact absurd read allowed
  | listen =>
    dsimp only
    split
    · exact ⟨rfl,id⟩
    · exact issued _
  | serverName =>
    dsimp only
    split
    · exact issued _
    · exact (foldl_grows ServerKept .refl .trans (serverNameStep_kept child) child.args state).1
  | root =>
    dsimp only
    split
    · exact ⟨rfl,id⟩
    · exact issued _
  | index =>
    dsimp only
    split
    · exact issued _
    · exact ⟨rfl,id⟩
  | errorPage =>
    dsimp only
    split
    · split
      · exact ⟨rfl,id⟩
      · exact issued _
    · exact issued _
  | clientMaxBodySize =>
    dsimp only
    split
    · split
      · exact ⟨rfl,fun none => absurd none (Translation.issue_some _ _ _)⟩
      · exact ⟨rfl,id⟩
    · exact issued _
  | sslCertificate =>
    dsimp only
    split
    · exact ⟨rfl,id⟩
    · exact issued _
  | sslCertificateKey =>
    dsimp only
    split
    · exact ⟨rfl,id⟩
    · exact issued _
  | addHeader =>
    dsimp only
    split
    · exact ⟨rfl,id⟩
    · exact issued _
  | returns =>
    dsimp only
    split
    · exact ⟨rfl,id⟩
    · exact issued _
  | condition =>
    dsimp only
    split
    · exact issued _
    · split
      · exact issued _
      · exact (foldl_grows ServerKept .refl .trans (hostConditionStep_kept _) child.children state).1
  | aliases => exact .refl state
  | location => exact .refl state
  | tryFiles => exact .refl state
  | proxyPass => exact .refl state
  | proxySetHeader => exact .refl state
  | proxyHttpVersion => exact .refl state
  | proxyRedirect => exact .refl state
  | other => exact .refl state

theorem serverStep_denied {child : Directive} (read : child.keyword = .deny) (state : ServerState) :
    (serverStep state child).server.deny = state.server.deny ++ written child ∧
      (serverStep state child).translation = state.translation := by
  unfold serverStep written
  rw [read]
  dsimp only
  split
  · rename_i network given
    refine ⟨?_,rfl⟩
    rw [given]
  · rename_i other
    refine ⟨?_,rfl⟩
    split
    · rename_i network _ given
      exact absurd given (other network)
    · exact (List.append_nil _).symm

theorem serverStep_deny (state : ServerState) (child : Directive) :
    (serverStep state child).server.deny = state.server.deny ++ written child := by
  by_cases denies : child.keyword = .deny
  · exact (serverStep_denied denies state).1
  · rw [written_other denies,List.append_nil]
    exact (serverStep_kept denies state).deny

theorem settleServer_deny (server : ServerSpec) : (settleServer server).deny = server.deny := by
  unfold settleServer
  dsimp only
  split
  · rfl
  · rfl

theorem serverSnapshot_deny (directive : Directive) (limit : Option Nat) (translation : Translation) :
    (serverSnapshot directive limit translation).server.deny = directive.children.flatMap written := by
  unfold serverSnapshot
  dsimp only
  rw [settleServer_deny,foldl_appends (fun state : ServerState => state.server.deny) written serverStep_deny]
  rfl

end Steps

section Blocks

def serverBlocks (tree : List Directive) : List Directive :=
  (inherited tree (ascii "http")).flatMap fun http => inherited http.children (ascii "server")

def locationsOf (block : Directive) : List Directive := inherited block.children (ascii "location")

def denies (block : Directive) : List Directive := inherited block.children (ascii "deny")

def returnsOf (block : Directive) : List Directive := inherited block.children (ascii "return")

/-- The networks that the arguments of a deny stand for. -/
def denied (rule : Directive) : List (List UInt8) :=
  rule.args.flatMap fun network => if network == ascii "all" then allNetworks else [network]

theorem mem_inherited {directives : List Directive} {name : List UInt8} {directive : Directive} :
    directive ∈ inherited directives name ↔ directive ∈ directives ∧ directive.name = name := by
  rw [inherited,List.mem_filter,beq_iff_eq]

theorem written_denied {block rule : Directive} (member : rule ∈ denies block) (single : rule.args.length = 1) :
    written rule = denied rule := by
  obtain ⟨-,named⟩ := mem_inherited.mp member
  obtain ⟨network,given⟩ := List.length_eq_one_iff.mp single
  unfold written denied
  rw [keyword_deny.mpr named,given,List.flatMap_singleton]

theorem mem_written {block rule : Directive} (member : rule ∈ denies block) (single : rule.args.length = 1) {network : List UInt8}
    (inside : network ∈ denied rule) : network ∈ block.children.flatMap written := by
  refine List.mem_flatMap.mpr ⟨rule,(mem_inherited.mp member).1,?_⟩
  rw [written_denied member single]
  exact inside

end Blocks

section Runs

/-- The state behind the loop of `parse_location`. -/
def locationEnd (directive : Directive) (server : ServerSpec) (translation : Translation) (matchKind : RouteMatchKind)
    (path : List UInt8) : LocationState :=
  directive.children.foldl (locationStep path matchKind) (locationStart directive server translation)

variable {directive : Directive} {server : ServerSpec} {translation : Translation} {matchKind : RouteMatchKind} {path : List UInt8}

theorem locationEnd_deny : (locationEnd directive server translation matchKind path).deny =
    server.deny ++ directive.children.flatMap written :=
  foldl_appends LocationState.deny written (locationStep_deny path matchKind) directive.children _

theorem locationEnd_quiet (none : (locationEnd directive server translation matchKind path).translation.issues = []) :
    translation.issues = [] ∧ ∀ rule ∈ denies directive, rule.args.length = 1 := by
  have grown := foldl_grows (fun before after : LocationState => after.translation.issues = [] → before.translation.issues = [])
    (fun _ => id) (fun _ _ _ first second => first ∘ second) (locationStep_quiet path matchKind) directive.children
    (locationStart directive server translation)
  refine ⟨grown.1 none,fun rule member => ?_⟩
  obtain ⟨inside,named⟩ := mem_inherited.mp member
  obtain ⟨before,quiet⟩ := grown.2 rule inside
  exact ((locationStep_denied (keyword_deny.mpr named) path matchKind before).2.2.2 (quiet none)).2

theorem locationEnd_conditional : Conditional (locationEnd directive server translation matchKind path) := by
  refine (foldl_grows (fun before after => Conditional before → Conditional after) (fun _ => id)
    (fun _ _ _ first second => second ∘ first) (locationStep_conditional path matchKind) directive.children
    (locationStart directive server translation)).1 ?_
  intro route member
  cases member

theorem locationEnd_action (goesOn : returnsOf directive = []) :
    (locationEnd directive server translation matchKind path).action = none := by
  have apart : ∀ child ∈ directive.children, child.keyword ≠ .returns := by
    intro child member read
    have returned : child ∈ returnsOf directive := mem_inherited.mpr ⟨member,keyword_returns.mp read⟩
    rw [goesOn] at returned
    cases returned
  have whole (children : List Directive) (state : LocationState) (apart : ∀ child ∈ children, child.keyword ≠ .returns) :
      (children.foldl (locationStep path matchKind) state).action = state.action := by
    induction children generalizing state with
    | nil => rfl
    | cons child children ih =>
      rw [List.foldl_cons,ih _ fun other member => apart other (List.mem_cons_of_mem _ member)]
      exact locationStep_action (apart child List.mem_cons_self) path matchKind state
  exact whole directive.children _ apart

/-- A location has one unconditional route, which denies what the server and the location write where the location does not return. -/
theorem parseLocation_unconditional {routes : List ActionRouteConfig}
    (parsed : (parseLocation directive server translation).1 = some routes) : ∃ route,
      routes.filter (·.methods.isEmpty) = [route] ∧ locationMatch directive = some (route.matchKind,route.path) ∧
        (returnsOf directive = [] → route.deny = server.deny ++ directive.children.flatMap written) := by
  unfold parseLocation at parsed
  split at parsed
  · cases parsed
  · rename_i matchKind path matched
    dsimp only at parsed
    split at parsed
    · cases parsed
    · cases parsed
      have conditional : ((locationEnd directive server translation matchKind path).conditionalRoutes.map
          (inheritHeaders (locationEnd directive server translation matchKind path).responseHeaders)).filter (·.methods.isEmpty) = [] := by
        rw [List.filter_eq_nil_iff]
        intro route member free
        obtain ⟨before,inside,rfl⟩ := List.mem_map.mp member
        exact locationEnd_conditional before inside (List.isEmpty_iff.mp free)
      rw [List.filter_append]
      refine ⟨_,congrArg (· ++ _) conditional,matched,fun goesOn => ?_⟩
      dsimp only
      rw [show directive.children.foldl (locationStep path matchKind) (locationStart directive server translation) =
        locationEnd directive server translation matchKind path from rfl,locationEnd_action goesOn]
      exact locationEnd_deny

theorem parseLocation_quiet (none : (parseLocation directive server translation).2.issues = []) :
    translation.issues = [] ∧ (∀ rule ∈ denies directive, rule.args.length = 1) ∧
      ∃ routes, (parseLocation directive server translation).1 = some routes ∧ ∃ route ∈ routes, route.methods = [] := by
  unfold parseLocation at none ⊢
  split at none
  · exact absurd none (Translation.issue_some _ _ _)
  · rename_i matchKind path _
    dsimp only at none ⊢
    split at none
    · exact absurd none (Translation.issue_some _ _ _)
    · obtain ⟨quiet,single⟩ := locationEnd_quiet none
      exact ⟨quiet,single,_,rfl,_,List.mem_append_right _ (List.mem_singleton.mpr rfl),rfl⟩

theorem locationsStep_quiet (snapshot : ServerSpec) (state : ServerState) (child : Directive)
    (none : (locationsStep snapshot state child).translation.issues = []) : state.translation.issues = [] := by
  unfold locationsStep at none
  split at none
  · have quiet := @parseLocation_quiet child snapshot state.translation
    split at none
    · rename_i routes translation parsed
      rw [parsed] at quiet
      exact (quiet none).1
    · rename_i translation parsed
      rw [parsed] at quiet
      exact (quiet none).1
  · exact none

/-- The loop over the locations takes no issue back. -/
theorem parseServer_settled {block : Directive} {limit : Option Nat} {started : Translation}
    (none : (parseServer block limit started).translation.issues = []) :
    (serverSnapshot block limit started).translation.issues = [] ∧ ∀ child ∈ block.children, ∃ before,
      (locationsStep (serverSnapshot block limit started).server before child).translation.issues = [] := by
  obtain ⟨begun,later⟩ := foldl_grows (fun before after : ServerState => after.translation.issues = [] → before.translation.issues = [])
    (fun _ => id) (fun _ _ _ first second => first ∘ second) (locationsStep_quiet (serverSnapshot block limit started).server)
    block.children (serverSnapshot block limit started)
  refine ⟨begun none,fun child member => ?_⟩
  obtain ⟨before,quiet⟩ := later child member
  exact ⟨before,quiet none⟩

theorem parseServer_single {block : Directive} {limit : Option Nat} {started : Translation}
    (none : (parseServer block limit started).translation.issues = []) : ∀ location ∈ locationsOf block,
      ∀ rule ∈ denies location, rule.args.length = 1 := by
  intro location member
  obtain ⟨inside,named⟩ := mem_inherited.mp member
  obtain ⟨before,quiet⟩ := (parseServer_settled none).2 location inside
  unfold locationsStep at quiet
  rw [keyword_location.mpr named] at quiet
  dsimp only at quiet
  have settled := @parseLocation_quiet location (serverSnapshot block limit started).server before.translation
  cases parsed : parseLocation location (serverSnapshot block limit started).server before.translation with
  | mk result translation =>
    rw [parsed] at quiet settled
    cases result with
    | none => exact (settled quiet).2.1
    | some routes => exact (settled quiet).2.1

theorem serverStep_quiet (state : ServerState) (child : Directive) (none : (serverStep state child).translation.issues = []) :
    state.translation.issues = [] := by
  by_cases denied : child.keyword = .deny
  · rw [(serverStep_denied denied state).2] at none
    exact none
  · exact (serverStep_kept denied state).quiet none

theorem parseServer_quiet {block : Directive} {limit : Option Nat} {started : Translation}
    (none : (parseServer block limit started).translation.issues = []) : started.issues = [] := by
  have scanned := foldl_grows (fun before after : ServerState => after.translation.issues = [] → before.translation.issues = [])
    (fun _ => id) (fun _ _ _ first second => first ∘ second) serverStep_quiet block.children ⟨emptyServer limit,started⟩
  exact scanned.1 (parseServer_settled none).1

theorem serversFold_each {limit : Option Nat} {ended : Translation} {servers : List ServerSpec} (none : ended.issues = [])
    (blocks : List Directive) : ∀ (done : List ServerSpec) (state : Translation),
      (blocks.foldl (fun (servers,translation) directive =>
        let state := parseServer directive limit translation
        (servers ++ [state.server],state.translation)) (done,state)) = (servers,ended) →
      state.issues = [] ∧ (∃ rest, servers = done ++ rest) ∧ ∀ (index : Nat) (block : Directive), blocks[index]? = some block →
        ∃ before, (parseServer block limit before).translation.issues = [] ∧
          servers[done.length + index]? = some (parseServer block limit before).server := by
  induction blocks with
  | nil =>
    intro done state ran
    cases ran
    refine ⟨none,⟨[],(List.append_nil _).symm⟩,fun index block placed => ?_⟩
    cases placed
  | cons first blocks ih =>
    intro done state ran
    obtain ⟨quiet,⟨rest,rfl⟩,each⟩ := ih _ _ ran
    refine ⟨parseServer_quiet quiet,⟨_,List.append_assoc _ _ _⟩,fun index block placed => ?_⟩
    cases index with
    | zero =>
      cases placed
      refine ⟨state,quiet,?_⟩
      rw [List.append_assoc,Nat.add_zero,List.getElem?_append_right (Nat.le_refl _),Nat.sub_self]
      rfl
    | succ index =>
      obtain ⟨before,settled,found⟩ := each index block placed
      refine ⟨before,settled,?_⟩
      rw [List.length_append,List.length_singleton,Nat.add_assoc,Nat.add_comm 1 index] at found
      exact found

/-- The servers that were read are those of the blocks, in their order, and none of them raised an issue. -/
theorem parseServers_each {directives : List Directive} {limit : Option Nat} {started ended : Translation} {servers : List ServerSpec}
    (parsed : parseServers directives limit started = (servers,ended)) (none : ended.issues = []) (index : Nat) (block : Directive)
    (placed : (inherited directives (ascii "server"))[index]? = some block) : ∃ before,
      (parseServer block limit before).translation.issues = [] ∧ servers[index]? = some (parseServer block limit before).server := by
  obtain ⟨-,-,each⟩ := serversFold_each none _ [] started parsed
  obtain ⟨before,settled,found⟩ := each index block placed
  rw [List.length_nil,Nat.zero_add] at found
  exact ⟨before,settled,found⟩

end Runs

section Trees

theorem translate_servers {files : Files} {tree : List Directive} {config : Config} {http : Directive} {limit : Nat}
    {translation : Translation} {owners : Owners} {assembly : Assembly}
    (passes : Translated files tree config http limit translation owners assembly) {index : Nat} {block : Directive}
    (placed : (serverBlocks tree)[index]? = some block) : ∃ before,
      (parseServer block (some limit) before).translation.issues = [] ∧
        (treeServers tree)[index]? = some (parseServer block (some limit) before).server := by
  rw [serverBlocks,passes.block,List.flatMap_singleton] at placed
  exact parseServers_each passes.parsed passes.quiet index block placed

def leafDirective (name : String) (args : List String) : Directive := ⟨ascii name,args.map ascii,[],ascii "nginx.conf",1⟩

def blockDirective (name : String) (args : List String) (children : List Directive) : Directive :=
  ⟨ascii name,args.map ascii,children,ascii "nginx.conf",1⟩

/-- One server on one address with a deny and a location that forwards. -/
def denyingServer (networks : List String) : Directive :=
  blockDirective "server" [] [leafDirective "listen" ["127.0.0.1:8080"],leafDirective "server_name" ["app.example.test"],
    leafDirective "deny" networks,blockDirective "location" ["/"] [leafDirective "proxy_pass" ["http://127.0.0.1:3000"]]]

def denyingTree (networks : List String) : List Directive :=
  [blockDirective "events" [] [],blockDirective "http" [] [denyingServer networks]]

def openFiles : Files := ⟨fun _ => true,fun _ => none⟩

theorem translate_ok {files : Files} {tree : List Directive} (accepted : (translate files tree).toOption.isSome) :
    ∃ config, translate files tree = .ok config := by
  cases result : translate files tree with
  | ok config => exact ⟨config,rfl⟩
  | error fault =>
    rw [result] at accepted
    cases accepted

end Trees

end Polyguard.Nginx

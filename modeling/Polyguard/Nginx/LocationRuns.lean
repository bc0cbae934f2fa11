import Polyguard.Nginx.AccessRules

/-! What the directives of a location change, one component of the state at a time.
Each component is read off the directives by a fold of its own, and the translation is
quiet exactly when no directive is refused, in conflict with the headers set before it,
or an override of the headers in force. -/
namespace Polyguard.Nginx
open Ascii Slices Decimal Proxy

section Components

abbrev Place := Option (List UInt8) × StaticMapping

/-- The directory of the files, and how a path is mapped into it. -/
def placeAfter (keyword : Keyword) (args : List (List UInt8)) (place : Place) : Place :=
  match keyword,args with
  | .root,[root] => (some root,.root)
  | .aliases,[root] => (some root,.alias)
  | _,_ => place

def indexesAfter (keyword : Keyword) (args indexes : List (List UInt8)) : List (List UInt8) :=
  match keyword with
  | .index => if args.isEmpty then indexes else args
  | _ => indexes

def triedFiles : List (List UInt8) := [ascii "$uri",ascii "$uri/",ascii "=404"]

def tryFilesAfter (keyword : Keyword) (args : List (List UInt8)) (tryFiles : Bool) : Bool :=
  match keyword with
  | .tryFiles => args == triedFiles || tryFiles
  | _ => tryFiles

def limitAfter (keyword : Keyword) (args : List (List UInt8)) (limit : Option Nat) : Option Nat :=
  match keyword,args with
  | .clientMaxBodySize,[size] => parseSize size
  | _,_ => limit

def actionAfter (keyword : Keyword) (child : Directive) (action : Option RouteActionConfig) : Option RouteActionConfig :=
  match keyword with
  | .returns => (returnAction child).or action
  | _ => action

/-- What the requests to an upstream carry: the headers that are set, and the one for the host. -/
structure RequestSettings where
  headers : List HeaderValueConfig
  host : Option (List UInt8)
deriving DecidableEq, Repr

def isHostSetting (name value : List UInt8) : Bool := name == ascii "host" && hostVariables.contains value

/-- A header that the proxy sets itself, with the value it sets. -/
def isManaged (name value : List UInt8) : Bool :=
  (name == ascii "x-forwarded-for" && value == ascii "$proxy_add_x_forwarded_for") ||
    (name == ascii "x-forwarded-proto" && value == ascii "$scheme") ||
    (name == ascii "x-forwarded-host" && hostVariables.contains value) || name == ascii "forwarded"

def RequestSettings.set (name value : List UInt8) (settings : RequestSettings) : RequestSettings :=
  if isHostSetting name value then
    if settings.host.any (· != value) then settings else { settings with host := some value }
  else if isManaged name value then settings
  else if (settings.headers.find? fun existing => existing.name == name).isSome then settings
  else { settings with headers := settings.headers ++ [⟨name,value,false,[]⟩] }

/-- The setting is not the one made before. -/
def RequestSettings.conflicts (name value : List UInt8) (settings : RequestSettings) : Bool :=
  if isHostSetting name value then settings.host.any (· != value)
  else if isManaged name value then false
  else (settings.headers.find? fun existing => existing.name == name).any (·.value ≠ value)

def requestAfter (keyword : Keyword) (args : List (List UInt8)) (settings : RequestSettings) : RequestSettings :=
  match keyword,args with
  | .proxySetHeader,[name,value] => settings.set (name.map toAsciiLowercase) value
  | _,_ => settings

/-- The upstream of a location, and the names of the upstreams by address. -/
structure UpstreamSettings where
  proxy : Option (List UInt8 × Option (List UInt8))
  names : List (SocketAddr × List UInt8)

def UpstreamSettings.pass (address : SocketAddr) (replacement : Option (List UInt8)) (settings : UpstreamSettings) :
    UpstreamSettings :=
  let (name,translation) := (⟨[],settings.names⟩ : Translation).upstream address
  ⟨some (name,replacement),translation.upstreamNames⟩

def upstreamAfter (keyword : Keyword) (args : List (List UInt8)) (settings : UpstreamSettings) : UpstreamSettings :=
  match keyword,args with
  | .proxyPass,[target] =>
    match parseProxyPass target with
    | some (address,replacement) => settings.pass address replacement
    | none => settings
  | _,_ => settings

/-- A condition on the method: the method, the headers it adds and the action it returns. -/
structure MethodBlock where
  method : List UInt8
  headers : List HeaderValueConfig
  action : Option RouteActionConfig

def methodRun (method : List UInt8) (children : List Directive) : ConditionalState :=
  children.foldl (conditionalStep [method]) ⟨[],none,none,⟨[],[]⟩⟩

def methodBlock (child : Directive) : Option MethodBlock :=
  (ifCondition child).bind fun condition =>
    if condition.name ≠ ascii "$request_method" || condition.operator ≠ ascii "=" then none
    else
      let run := methodRun condition.value child.children
      some ⟨condition.value,run.headers,run.action.map (withContentType run.contentType)⟩

/-- The headers in force: those a directive adds, and those a condition adds where there were none. -/
def responseAfter (keyword : Keyword) (child : Directive) (headers : List HeaderValueConfig) : List HeaderValueConfig :=
  match keyword with
  | .addHeader => headers ++ (headerFromAdd child []).toList
  | .condition =>
    match methodBlock child with
    | some block => if block.action.isNone && headers.isEmpty then block.headers else headers
    | none => headers
  | _ => headers

/-- A condition adds headers of its own where others are in force. -/
def overrides (keyword : Keyword) (child : Directive) (headers : List HeaderValueConfig) : Bool :=
  match keyword with
  | .condition => (methodBlock child).any fun block => block.action.isNone && !block.headers.isEmpty && !headers.isEmpty &&
      !faithfullyInherited block.headers headers
  | _ => false

/-- The route of a condition, with the settings that were read so far. -/
def conditionalRoute (path : List UInt8) (matchKind : RouteMatchKind) (limit : Option Nat) (headers : List HeaderValueConfig)
    (keyword : Keyword) (child : Directive) : Option ActionRouteConfig :=
  match keyword with
  | .condition => (methodBlock child).bind fun block => block.action.map fun action =>
      ⟨path,matchKind,[block.method],[],limit,headers,block.headers,[],action⟩
  | _ => none

/-- A directive inside a condition that is refused. -/
def refusedInside (nested : Directive) : Bool :=
  match nested.keyword with
  | .addHeader => (headerFromAdd nested []).isNone
  | .returns => (returnAction nested).isNone
  | _ => true

/-- A directive of a location that is refused, whatever stands around it. -/
def refused (keyword : Keyword) (args : List (List UInt8)) (child : Directive) : Bool :=
  match keyword,args with
  | .root,[_] => false
  | .root,_ => true
  | .aliases,[_] => false
  | .aliases,_ => true
  | .index,args => args.isEmpty
  | .tryFiles,args => args != triedFiles
  | .clientMaxBodySize,[size] => (parseSize size).isNone
  | .clientMaxBodySize,_ => true
  | .proxyPass,[target] => (parseProxyPass target).isNone
  | .proxyPass,_ => true
  | .proxySetHeader,[name,_] => name.map toAsciiLowercase == ascii "forwarded"
  | .proxySetHeader,_ => true
  | .proxyHttpVersion,args => args != [ascii "1.1"]
  | .proxyRedirect,args => args != [ascii "off"]
  | .addHeader,_ => (headerFromAdd child []).isNone
  | .deny,[_] => false
  | .deny,_ => true
  | .returns,_ => (returnAction child).isNone
  | .condition,_ => (methodBlock child).isNone || child.children.any refusedInside
  | _,_ => false

def conflicts (keyword : Keyword) (args : List (List UInt8)) (settings : RequestSettings) : Bool :=
  match keyword,args with
  | .proxySetHeader,[name,value] => settings.conflicts (name.map toAsciiLowercase) value
  | _,_ => false

end Components

section Steps

def LocationState.request (state : LocationState) : RequestSettings := ⟨state.requestHeaders,state.hostHeader⟩

def LocationState.upstream (state : LocationState) : UpstreamSettings := ⟨state.proxy,state.translation.upstreamNames⟩

/-- What a directive of a location, read as its keyword and its arguments, makes of the state. -/
structure Stepped (path : List UInt8) (matchKind : RouteMatchKind) (keyword : Keyword) (args : List (List UInt8)) (child : Directive)
    (before after : LocationState) : Prop where
  place : (after.root,after.mapping) = placeAfter keyword args (before.root,before.mapping)
  indexes : after.indexes = indexesAfter keyword args before.indexes
  tryFiles : after.tryFiles = tryFilesAfter keyword args before.tryFiles
  limit : after.maxRequestBodyBytes = limitAfter keyword args before.maxRequestBodyBytes
  action : after.action = actionAfter keyword child before.action
  request : after.request = requestAfter keyword args before.request
  upstream : after.upstream = upstreamAfter keyword args before.upstream
  response : after.responseHeaders = responseAfter keyword child before.responseHeaders
  routes : after.conditionalRoutes = before.conditionalRoutes ++
    (conditionalRoute path matchKind before.maxRequestBodyBytes before.requestHeaders keyword child).toList
  quiet : after.translation.issues = before.translation.issues ↔ refused keyword args child = false ∧
    conflicts keyword args before.request = false ∧ overrides keyword child before.responseHeaders = false
  grows : before.translation.issues <+: after.translation.issues

variable {path : List UInt8} {matchKind : RouteMatchKind}

theorem issue_loud (translation : Translation) (directive : Directive) (message : List UInt8) :
    (translation.issue directive message).issues ≠ translation.issues := by
  intro same
  have sized := congrArg List.length same
  rw [Translation.issue,List.length_append,List.length_singleton] at sized
  omega

theorem headerFromAdd_methods (directive : Directive) (methods : List (List UInt8)) :
    headerFromAdd directive methods = (headerFromAdd directive []).map fun header => { header with methods } := by
  unfold headerFromAdd
  split
  · rfl
  · rfl
  · rfl

/-- Two states of the loop over a condition that have read the same. -/
structure ReadAlike (left right : ConditionalState) : Prop where
  headers : left.headers = right.headers
  action : left.action = right.action
  contentType : left.contentType = right.contentType

theorem conditionalStep_alike {left right : ConditionalState} (alike : ReadAlike left right) (methods : List (List UInt8))
    (nested : Directive) : ReadAlike (conditionalStep methods left nested) (conditionalStep methods right nested) := by
  unfold conditionalStep
  split
  · split
    · split
      · exact alike
      · split
        · exact ⟨alike.headers,alike.action,rfl⟩
        · exact ⟨congrArg (· ++ [_]) alike.headers,alike.action,alike.contentType⟩
    · exact ⟨alike.headers,alike.action,alike.contentType⟩
  · split
    · exact ⟨alike.headers,rfl,alike.contentType⟩
    · exact ⟨alike.headers,alike.action,alike.contentType⟩
  · exact ⟨alike.headers,alike.action,alike.contentType⟩

/-- What a directive inside a condition does to the translation. -/
structure Reported (fault : Bool) (before after : Translation) : Prop where
  names : after.upstreamNames = before.upstreamNames
  quiet : after.issues = before.issues ↔ fault = false
  grows : before.issues <+: after.issues

theorem Reported.silent (translation : Translation) : Reported false translation translation :=
  ⟨rfl,iff_of_true rfl rfl,List.prefix_refl _⟩

theorem Reported.loud (translation : Translation) (directive : Directive) (message : List UInt8) :
    Reported true translation (translation.issue directive message) :=
  ⟨rfl,iff_of_false (issue_loud _ _ _) Bool.noConfusion,List.prefix_append _ _⟩

theorem Reported.trans {first second : Bool} {before middle after : Translation} (early : Reported first before middle)
    (late : Reported second middle after) : Reported (first || second) before after := by
  refine ⟨late.names.trans early.names,?_,early.grows.trans late.grows⟩
  rw [Bool.or_eq_false_iff,← early.quiet,← late.quiet]
  constructor
  · intro same
    -- nothing was reported at the end, so nothing was in between
    have inside : after.issues <+: middle.issues := by
      rw [same]
      exact early.grows
    have settled := List.IsPrefix.eq_of_length_le late.grows inside.length_le
    exact ⟨settled.trans same,settled.symm⟩
  · rintro ⟨first,second⟩
    exact second.trans first

theorem conditionalStep_reported (methods : List (List UInt8)) (state : ConditionalState) (nested : Directive) :
    Reported (refusedInside nested) state.translation (conditionalStep methods state nested).translation := by
  unfold conditionalStep refusedInside
  rw [headerFromAdd_methods nested methods]
  cases nested.keyword with
  | addHeader =>
    cases headerFromAdd nested [] with
    | none => exact .loud _ _ _
    | some header =>
      dsimp only [Option.map_some]
      split
      · exact .silent _
      · split
        · exact .silent _
        · exact .silent _
  | returns =>
    cases returnAction nested with
    | none => exact .loud _ _ _
    | some action => exact .silent _
  | _ => exact .loud _ _ _

theorem conditionalRun_alike (methods : List (List UInt8)) (children : List Directive) : ∀ {left right : ConditionalState},
    ReadAlike left right → ReadAlike (children.foldl (conditionalStep methods) left) (children.foldl (conditionalStep methods) right) := by
  induction children with
  | nil => exact id
  | cons nested children ih => exact fun alike => ih (conditionalStep_alike alike methods nested)

theorem conditionalRun_reported (methods : List (List UInt8)) (children : List Directive) : ∀ state : ConditionalState,
    Reported (children.any refusedInside) state.translation (children.foldl (conditionalStep methods) state).translation := by
  induction children with
  | nil => exact fun state => .silent _
  | cons nested children ih => exact fun state => (conditionalStep_reported methods state nested).trans (ih _)

theorem methodCondition_stepped (state : LocationState) (child : Directive) (args : List (List UInt8)) {condition : Condition}
    (read : ifCondition child = some condition)
    (supported : ¬ (condition.name ≠ ascii "$request_method" || condition.operator ≠ ascii "=")) :
    Stepped path matchKind .condition args child state (methodCondition path matchKind child condition.value state) := by
  have alike : ReadAlike (child.children.foldl (conditionalStep [condition.value]) ⟨[],none,none,state.translation⟩)
      (methodRun condition.value child.children) := conditionalRun_alike [condition.value] child.children ⟨rfl,rfl,rfl⟩
  have reported := conditionalRun_reported [condition.value] child.children ⟨[],none,none,state.translation⟩
  have block : methodBlock child = some ⟨condition.value,(methodRun condition.value child.children).headers,
      (methodRun condition.value child.children).action.map
        (withContentType (methodRun condition.value child.children).contentType)⟩ := by
    rw [methodBlock,read,Option.bind_some,if_neg supported]
  rw [← alike.headers,← alike.action,← alike.contentType] at block
  unfold methodCondition
  dsimp only
  generalize child.children.foldl (conditionalStep [condition.value]) ⟨[],none,none,state.translation⟩ = run at reported block ⊢
  obtain ⟨headers,action,contentType,translation⟩ := run
  obtain ⟨names,quiet,grows⟩ := reported
  have blocked : refused .condition args child = child.children.any refusedInside := by
    rw [refused,block,Option.isNone_some,Bool.false_or]
  have upstream : (⟨state.proxy,translation.upstreamNames⟩ : UpstreamSettings) = state.upstream := by
    rw [LocationState.upstream,← names]
  have silent (rest : overrides .condition child state.responseHeaders = false) :
      translation.issues = state.translation.issues ↔ refused .condition args child = false ∧
        conflicts .condition args state.request = false ∧ overrides .condition child state.responseHeaders = false := by
    rw [blocked]
    exact quiet.trans ⟨fun still => ⟨still,rfl,rest⟩,And.left⟩
  cases action with
  | some action =>
    refine ⟨rfl,rfl,rfl,rfl,rfl,rfl,upstream,?_,?_,silent ?_,grows⟩
    · rw [responseAfter,block]
      rfl
    · rw [conditionalRoute,block]
      rfl
    · rw [overrides,block]
      rfl
  | none =>
    have still : conditionalRoute path matchKind state.maxRequestBodyBytes state.requestHeaders .condition child = none := by
      rw [conditionalRoute,block]
      rfl
    have routes : state.conditionalRoutes = state.conditionalRoutes ++
        (conditionalRoute path matchKind state.maxRequestBodyBytes state.requestHeaders .condition child).toList := by
      rw [still,Option.toList_none,List.append_nil]
    have inForce : responseAfter .condition child state.responseHeaders =
        if state.responseHeaders.isEmpty then headers else state.responseHeaders := by
      rw [responseAfter,block]
      rfl
    dsimp only
    split
    · rename_i none
      rw [List.isEmpty_iff] at none
      subst none
      refine ⟨rfl,rfl,rfl,rfl,rfl,rfl,upstream,?_,routes,silent ?_,grows⟩
      · rw [inForce]
        split
        · rename_i empty
          exact List.isEmpty_iff.mp empty
        · rfl
      · rw [overrides,block]
        rfl
    · rename_i some
      rw [Bool.not_eq_true] at some
      split
      · rename_i empty
        refine ⟨rfl,rfl,rfl,rfl,rfl,rfl,upstream,?_,routes,silent ?_,grows⟩
        · rw [inForce,if_pos empty]
        · rw [overrides,block]
          dsimp only [Option.any_some,Option.map_none,Option.isNone_none]
          rw [empty,Bool.not_true,Bool.and_false,Bool.false_and]
      · rename_i held
        have response : state.responseHeaders = responseAfter .condition child state.responseHeaders := by
          rw [inForce,if_neg held]
        rw [Bool.not_eq_true] at held
        have overriding : overrides .condition child state.responseHeaders = !faithfullyInherited headers state.responseHeaders := by
          rw [overrides,block]
          dsimp only [Option.any_some,Option.map_none,Option.isNone_none]
          rw [some,held]
          rfl
        split
        · rename_i unfaithful
          refine ⟨rfl,rfl,rfl,rfl,rfl,rfl,upstream,response,routes,iff_of_false ?_ ?_,grows.trans (List.prefix_append _ _)⟩
          · intro same
            have longer : state.translation.issues.length ≤ translation.issues.length := grows.length_le
            have sized := congrArg List.length same
            dsimp only [LocationState.issue,Translation.issue] at sized
            rw [List.length_append,List.length_singleton] at sized
            omega
          · rintro ⟨-,-,impossible⟩
            rw [overriding,unfaithful] at impossible
            cases impossible
        · rename_i faithful
          refine ⟨rfl,rfl,rfl,rfl,rfl,rfl,upstream,response,routes,silent ?_,grows⟩
          rw [overriding]
          exact Bool.not_eq_true _ ▸ faithful

/-- What a setting of the requests does to the state. -/
structure RequestSet (name value : List UInt8) (state after : LocationState) : Prop where
  kept : after = { state with
    requestHeaders := after.requestHeaders, hostHeader := after.hostHeader, translation := after.translation }
  request : after.request = state.request.set name value
  reported : Reported (name == ascii "forwarded" || state.request.conflicts name value) state.translation after.translation

theorem proxySetHeader_set (child : Directive) (name value : List UInt8) (state : LocationState) :
    RequestSet name value state (proxySetHeader child name value state) := by
  unfold proxySetHeader
  cases host : name == ascii "host" && hostVariables.contains value with
  | true =>
    have named : (name == ascii "forwarded") = false := by
      rw [Bool.and_eq_true,beq_iff_eq] at host
      rw [host.1]
      decide
    rw [if_pos rfl]
    split
    · rename_i differs
      refine ⟨rfl,?_,?_⟩
      · rw [RequestSettings.set,isHostSetting,host,if_pos rfl]
        exact (if_pos differs).symm
      · rw [named,RequestSettings.conflicts,isHostSetting,host,if_pos rfl]
        rw [show state.request.host.any (· != value) = true from differs]
        exact .loud _ _ _
    · rename_i same
      refine ⟨rfl,?_,?_⟩
      · rw [RequestSettings.set,isHostSetting,host,if_pos rfl]
        exact (if_neg same).symm
      · rw [named,RequestSettings.conflicts,isHostSetting,host,if_pos rfl]
        rw [show state.request.host.any (· != value) = false from Bool.not_eq_true _ ▸ same]
        exact .silent _
  | false =>
    rw [if_neg Bool.false_ne_true]
    have managed (known : isManaged name value = true) (unnamed : (name == ascii "forwarded") = false) :
        RequestSet name value state state := by
      refine ⟨rfl,?_,?_⟩
      · rw [RequestSettings.set,isHostSetting,host,if_neg Bool.false_ne_true,known,if_pos rfl]
      · rw [unnamed,RequestSettings.conflicts,isHostSetting,host,if_neg Bool.false_ne_true,known,if_pos rfl]
        exact .silent _
    -- the names of the headers that the proxy sets are not that of the one it refuses
    have apart {other : List UInt8} {rest : Bool} (both : (name == other && rest) = true) (differs : other ≠ ascii "forwarded") :
        (name == ascii "forwarded") = false := by
      rw [Bool.and_eq_true,beq_iff_eq] at both
      rw [both.1]
      exact beq_eq_false_iff_ne.mpr differs
    split
    · rename_i client
      exact managed (by rw [isManaged,client]; rfl) (apart client (by decide))
    · rename_i noClient
      rw [Bool.not_eq_true] at noClient
      split
      · rename_i scheme
        exact managed (by rw [isManaged,scheme,noClient]; rfl) (apart scheme (by decide))
      · rename_i noScheme
        rw [Bool.not_eq_true] at noScheme
        split
        · rename_i forwardedHost
          exact managed (by rw [isManaged,forwardedHost,noClient,noScheme]; rfl) (apart forwardedHost (by decide))
        · rename_i noHost
          rw [Bool.not_eq_true] at noHost
          split
          · rename_i forwarded
            refine ⟨rfl,?_,?_⟩
            · rw [RequestSettings.set,isHostSetting,host,if_neg Bool.false_ne_true,isManaged,forwarded,Bool.or_true,if_pos rfl]
              rfl
            · rw [forwarded,Bool.true_or]
              exact .loud _ _ _
          · rename_i other
            rw [Bool.not_eq_true] at other
            have unmanaged : isManaged name value = false := by
              rw [isManaged,noClient,noScheme,noHost,other]
              rfl
            have settled : state.request.set name value =
                if (state.requestHeaders.find? fun existing => existing.name == name).isSome then state.request
                else ⟨state.requestHeaders ++ [⟨name,value,false,[]⟩],state.hostHeader⟩ := by
              rw [RequestSettings.set,isHostSetting,host,if_neg Bool.false_ne_true,unmanaged,if_neg Bool.false_ne_true]
              rfl
            have conflict : state.request.conflicts name value =
                (state.requestHeaders.find? fun existing => existing.name == name).any (·.value ≠ value) := by
              rw [RequestSettings.conflicts,isHostSetting,host,if_neg Bool.false_ne_true,unmanaged,if_neg Bool.false_ne_true]
              rfl
            unfold setRequestHeader
            split
            · rename_i existing found
              rw [found,Option.isSome_some,if_pos rfl] at settled
              rw [found,Option.any_some] at conflict
              split
              · rename_i differs
                refine ⟨rfl,settled.symm,?_⟩
                rw [other,conflict,decide_eq_true differs]
                exact .loud _ _ _
              · rename_i same
                refine ⟨rfl,settled.symm,?_⟩
                rw [other,conflict,decide_eq_false same]
                exact .silent _
            · rename_i missing
              rw [missing,Option.isSome_none,if_neg Bool.false_ne_true] at settled
              rw [missing,Option.any_none] at conflict
              refine ⟨rfl,settled.symm,?_⟩
              rw [other,conflict]
              exact .silent _

theorem upstream_named (translation : Translation) (address : SocketAddr) :
    (translation.upstream address).1 = ((⟨[],translation.upstreamNames⟩ : Translation).upstream address).1 ∧
      (translation.upstream address).2.upstreamNames =
        ((⟨[],translation.upstreamNames⟩ : Translation).upstream address).2.upstreamNames := by
  unfold Translation.upstream
  dsimp only
  cases Ledger.find address translation.upstreamNames with
  | none => exact ⟨rfl,rfl⟩
  | some name => exact ⟨rfl,rfl⟩

theorem locationStep_stepped (state : LocationState) (child : Directive) :
    Stepped path matchKind child.keyword child.args child state (locationStep path matchKind state child) := by
  have still : (state.conditionalRoutes : List ActionRouteConfig) = state.conditionalRoutes ++ [] := (List.append_nil _).symm
  have loud (message : List UInt8) (rest : Prop) :
      (state.issue child message).translation.issues = state.translation.issues ↔ true = false ∧ rest :=
    iff_of_false (issue_loud _ _ _) fun all => Bool.noConfusion all.1
  have grown (message : List UInt8) : state.translation.issues <+: (state.issue child message).translation.issues :=
    List.prefix_append _ _
  unfold locationStep
  generalize child.keyword = keyword
  generalize child.args = args
  cases keyword with
  | root =>
    match args with
    | [_] => exact ⟨rfl,rfl,rfl,rfl,rfl,rfl,rfl,rfl,still,iff_of_true rfl ⟨rfl,rfl,rfl⟩,List.prefix_refl _⟩
    | [] => exact ⟨rfl,rfl,rfl,rfl,rfl,rfl,rfl,rfl,still,loud _ _,grown _⟩
    | _ :: _ :: _ => exact ⟨rfl,rfl,rfl,rfl,rfl,rfl,rfl,rfl,still,loud _ _,grown _⟩
  | aliases =>
    match args with
    | [_] => exact ⟨rfl,rfl,rfl,rfl,rfl,rfl,rfl,rfl,still,iff_of_true rfl ⟨rfl,rfl,rfl⟩,List.prefix_refl _⟩
    | [] => exact ⟨rfl,rfl,rfl,rfl,rfl,rfl,rfl,rfl,still,loud _ _,grown _⟩
    | _ :: _ :: _ => exact ⟨rfl,rfl,rfl,rfl,rfl,rfl,rfl,rfl,still,loud _ _,grown _⟩
  | index =>
    match args with
    | [] => exact ⟨rfl,rfl,rfl,rfl,rfl,rfl,rfl,rfl,still,loud _ _,grown _⟩
    | _ :: _ => exact ⟨rfl,rfl,rfl,rfl,rfl,rfl,rfl,rfl,still,iff_of_true rfl ⟨rfl,rfl,rfl⟩,List.prefix_refl _⟩
  | tryFiles =>
    dsimp only
    split
    · rename_i tried
      refine ⟨rfl,rfl,?_,rfl,rfl,rfl,rfl,rfl,still,iff_of_true rfl ⟨?_,rfl,rfl⟩,List.prefix_refl _⟩
      · unfold tryFilesAfter triedFiles
        rw [tried,Bool.true_or]
      · rw [refused,triedFiles,bne,tried,Bool.not_true]
    · rename_i untried
      rw [Bool.not_eq_true] at untried
      refine ⟨rfl,rfl,?_,rfl,rfl,rfl,rfl,rfl,still,?_,grown _⟩
      · unfold tryFilesAfter triedFiles
        rw [untried,Bool.false_or]
        rfl
      · rw [refused,triedFiles,bne,untried,Bool.not_false]
        exact loud _ _
  | clientMaxBodySize =>
    match args with
    | [] => exact ⟨rfl,rfl,rfl,rfl,rfl,rfl,rfl,rfl,still,loud _ _,grown _⟩
    | _ :: _ :: _ => exact ⟨rfl,rfl,rfl,rfl,rfl,rfl,rfl,rfl,still,loud _ _,grown _⟩
    | [size] =>
      dsimp only
      split
      · rename_i none
        refine ⟨rfl,rfl,rfl,rfl,rfl,rfl,rfl,rfl,still,?_,grown _⟩
        rw [refused,none]
        exact loud _ _
      · rename_i some
        rw [Bool.not_eq_true] at some
        exact ⟨rfl,rfl,rfl,rfl,rfl,rfl,rfl,rfl,still,iff_of_true rfl ⟨some,rfl,rfl⟩,List.prefix_refl _⟩
  | proxyPass =>
    match args with
    | [] => exact ⟨rfl,rfl,rfl,rfl,rfl,rfl,rfl,rfl,still,loud _ _,grown _⟩
    | _ :: _ :: _ => exact ⟨rfl,rfl,rfl,rfl,rfl,rfl,rfl,rfl,still,loud _ _,grown _⟩
    | [target] =>
      dsimp only
      cases read : parseProxyPass target with
      | none =>
        refine ⟨rfl,rfl,rfl,rfl,rfl,rfl,?_,rfl,still,?_,grown _⟩
        · rw [upstreamAfter,read]
          rfl
        · rw [refused,read,Option.isNone_none]
          exact loud _ _
      | some pass =>
        obtain ⟨address,replacement⟩ := pass
        obtain ⟨named,names⟩ := upstream_named state.translation address
        have issues := upstream_issues state.translation address
        dsimp only
        refine ⟨rfl,rfl,rfl,rfl,rfl,rfl,?_,rfl,still,iff_of_true issues ⟨?_,rfl,rfl⟩,?_⟩
        · rw [upstreamAfter,read]
          dsimp only
          rw [UpstreamSettings.pass,LocationState.upstream]
          dsimp only
          rw [named,names]
          rfl
        · rw [refused,read,Option.isNone_some]
        · exact issues ▸ List.prefix_refl _
  | proxySetHeader =>
    match args with
    | [] => exact ⟨rfl,rfl,rfl,rfl,rfl,rfl,rfl,rfl,still,loud _ _,grown _⟩
    | [_] => exact ⟨rfl,rfl,rfl,rfl,rfl,rfl,rfl,rfl,still,loud _ _,grown _⟩
    | _ :: _ :: _ :: _ => exact ⟨rfl,rfl,rfl,rfl,rfl,rfl,rfl,rfl,still,loud _ _,grown _⟩
    | [name,value] =>
      obtain ⟨kept,request,reported⟩ := proxySetHeader_set child (name.map toAsciiLowercase) value state
      dsimp only
      generalize proxySetHeader child (name.map toAsciiLowercase) value state = after at kept request reported ⊢
      rw [kept] at request reported ⊢
      refine ⟨rfl,rfl,rfl,rfl,rfl,request,?_,rfl,still,?_,reported.grows⟩
      · rw [LocationState.upstream,reported.names]
        rfl
      · refine reported.quiet.trans (Bool.or_eq_false_iff.trans ?_)
        exact and_congr Iff.rfl ⟨fun calm => ⟨calm,rfl⟩,And.left⟩
  | proxyHttpVersion =>
    dsimp only
    split
    · rename_i known
      refine ⟨rfl,rfl,rfl,rfl,rfl,rfl,rfl,rfl,still,iff_of_true rfl ⟨?_,rfl,rfl⟩,List.prefix_refl _⟩
      rw [refused,bne,known,Bool.not_true]
    · rename_i unknown
      rw [Bool.not_eq_true] at unknown
      refine ⟨rfl,rfl,rfl,rfl,rfl,rfl,rfl,rfl,still,?_,grown _⟩
      rw [refused,bne,unknown,Bool.not_false]
      exact loud _ _
  | proxyRedirect =>
    dsimp only
    split
    · rename_i known
      refine ⟨rfl,rfl,rfl,rfl,rfl,rfl,rfl,rfl,still,iff_of_true rfl ⟨?_,rfl,rfl⟩,List.prefix_refl _⟩
      rw [refused,bne,known,Bool.not_true]
    · rename_i unknown
      rw [Bool.not_eq_true] at unknown
      refine ⟨rfl,rfl,rfl,rfl,rfl,rfl,rfl,rfl,still,?_,grown _⟩
      rw [refused,bne,unknown,Bool.not_false]
      exact loud _ _
  | addHeader =>
    dsimp only
    split
    · rename_i header added
      refine ⟨rfl,rfl,rfl,rfl,rfl,rfl,rfl,?_,still,iff_of_true rfl ⟨?_,rfl,rfl⟩,List.prefix_refl _⟩
      · rw [responseAfter,added]
        rfl
      · rw [refused,added,Option.isNone_some]
    · rename_i missing
      refine ⟨rfl,rfl,rfl,rfl,rfl,rfl,rfl,?_,still,?_,grown _⟩
      · rw [responseAfter,missing,Option.toList_none,List.append_nil]
        rfl
      · rw [refused,missing,Option.isNone_none]
        exact loud _ _
  | deny =>
    match args with
    | [_] => exact ⟨rfl,rfl,rfl,rfl,rfl,rfl,rfl,rfl,still,iff_of_true rfl ⟨rfl,rfl,rfl⟩,List.prefix_refl _⟩
    | [] => exact ⟨rfl,rfl,rfl,rfl,rfl,rfl,rfl,rfl,still,loud _ _,grown _⟩
    | _ :: _ :: _ => exact ⟨rfl,rfl,rfl,rfl,rfl,rfl,rfl,rfl,still,loud _ _,grown _⟩
  | returns =>
    dsimp only
    split
    · rename_i action returned
      refine ⟨rfl,rfl,rfl,rfl,?_,rfl,rfl,rfl,still,iff_of_true rfl ⟨?_,rfl,rfl⟩,List.prefix_refl _⟩
      · rw [actionAfter,returned,Option.some_or]
      · rw [refused,returned,Option.isNone_some]
    · rename_i missing
      refine ⟨rfl,rfl,rfl,rfl,?_,rfl,rfl,rfl,still,?_,grown _⟩
      · rw [actionAfter,missing,Option.none_or]
        rfl
      · rw [refused,missing,Option.isNone_none]
        exact loud _ _
  | condition =>
    dsimp only
    cases read : ifCondition child with
    | none =>
      have block : methodBlock child = none := by rw [methodBlock,read,Option.bind_none]
      refine ⟨rfl,rfl,rfl,rfl,rfl,rfl,rfl,?_,?_,?_,grown _⟩
      · rw [responseAfter,block]
        rfl
      · rw [conditionalRoute,block]
        exact still
      · rw [refused,block]
        exact loud _ _
    | some condition =>
      dsimp only
      split
      · rename_i unsupported
        have block : methodBlock child = none := by rw [methodBlock,read,Option.bind_some,if_pos unsupported]
        refine ⟨rfl,rfl,rfl,rfl,rfl,rfl,rfl,?_,?_,?_,grown _⟩
        · rw [responseAfter,block]
          rfl
        · rw [conditionalRoute,block]
          exact still
        · rw [refused,block]
          exact loud _ _
      · rename_i supported
        exact methodCondition_stepped state child args read supported
  | listen => exact ⟨rfl,rfl,rfl,rfl,rfl,rfl,rfl,rfl,still,iff_of_true rfl ⟨rfl,rfl,rfl⟩,List.prefix_refl _⟩
  | serverName => exact ⟨rfl,rfl,rfl,rfl,rfl,rfl,rfl,rfl,still,iff_of_true rfl ⟨rfl,rfl,rfl⟩,List.prefix_refl _⟩
  | errorPage => exact ⟨rfl,rfl,rfl,rfl,rfl,rfl,rfl,rfl,still,iff_of_true rfl ⟨rfl,rfl,rfl⟩,List.prefix_refl _⟩
  | sslCertificate => exact ⟨rfl,rfl,rfl,rfl,rfl,rfl,rfl,rfl,still,iff_of_true rfl ⟨rfl,rfl,rfl⟩,List.prefix_refl _⟩
  | sslCertificateKey => exact ⟨rfl,rfl,rfl,rfl,rfl,rfl,rfl,rfl,still,iff_of_true rfl ⟨rfl,rfl,rfl⟩,List.prefix_refl _⟩
  | location => exact ⟨rfl,rfl,rfl,rfl,rfl,rfl,rfl,rfl,still,iff_of_true rfl ⟨rfl,rfl,rfl⟩,List.prefix_refl _⟩
  | other => exact ⟨rfl,rfl,rfl,rfl,rfl,rfl,rfl,rfl,still,iff_of_true rfl ⟨rfl,rfl,rfl⟩,List.prefix_refl _⟩

end Steps

section Runs

/-- The routes of the conditions of a location, each with the settings that were read before it. -/
def conditionalRun (path : List UInt8) (matchKind : RouteMatchKind) : List Directive → Option Nat → RequestSettings →
    List ActionRouteConfig
  | [],_,_ => []
  | child :: rest,limit,settings =>
    (conditionalRoute path matchKind limit settings.headers child.keyword child).toList ++
      conditionalRun path matchKind rest (limitAfter child.keyword child.args limit) (requestAfter child.keyword child.args settings)

/-- No setting of the requests conflicts with one before it. -/
def consistent : List Directive → RequestSettings → Bool
  | [],_ => true
  | child :: rest,settings =>
    !conflicts child.keyword child.args settings && consistent rest (requestAfter child.keyword child.args settings)

/-- No condition overrides the headers in force where it stands. -/
def inheriting : List Directive → List HeaderValueConfig → Bool
  | [],_ => true
  | child :: rest,headers => !overrides child.keyword child headers && inheriting rest (responseAfter child.keyword child headers)

def anyRefused (children : List Directive) : Bool := children.any fun child => refused child.keyword child.args child

theorem anyRefused_cons (child : Directive) (children : List Directive) :
    anyRefused (child :: children) = (refused child.keyword child.args child || anyRefused children) := List.any_cons

/-- What is read of the directives of a location, from the state before them to the one behind them. -/
structure Ran (path : List UInt8) (matchKind : RouteMatchKind) (children : List Directive) (before after : LocationState) : Prop where
  place : (after.root,after.mapping) =
    children.foldl (fun place child => placeAfter child.keyword child.args place) (before.root,before.mapping)
  indexes : after.indexes = children.foldl (fun indexes child => indexesAfter child.keyword child.args indexes) before.indexes
  tryFiles : after.tryFiles = children.foldl (fun tryFiles child => tryFilesAfter child.keyword child.args tryFiles) before.tryFiles
  limit : after.maxRequestBodyBytes =
    children.foldl (fun limit child => limitAfter child.keyword child.args limit) before.maxRequestBodyBytes
  action : after.action = children.foldl (fun action child => actionAfter child.keyword child action) before.action
  request : after.request = children.foldl (fun settings child => requestAfter child.keyword child.args settings) before.request
  upstream : after.upstream = children.foldl (fun settings child => upstreamAfter child.keyword child.args settings) before.upstream
  response : after.responseHeaders =
    children.foldl (fun headers child => responseAfter child.keyword child headers) before.responseHeaders
  routes : after.conditionalRoutes =
    before.conditionalRoutes ++ conditionalRun path matchKind children before.maxRequestBodyBytes before.request
  quiet : after.translation.issues = before.translation.issues ↔ anyRefused children = false ∧
    consistent children before.request = true ∧ inheriting children before.responseHeaders = true
  grows : before.translation.issues <+: after.translation.issues

variable {path : List UInt8} {matchKind : RouteMatchKind}

theorem locationSteps_ran (children : List Directive) : ∀ state : LocationState,
    Ran path matchKind children state (children.foldl (locationStep path matchKind) state) := by
  induction children with
  | nil =>
    intro state
    exact ⟨rfl,rfl,rfl,rfl,rfl,rfl,rfl,rfl,(List.append_nil _).symm,iff_of_true rfl ⟨rfl,rfl,rfl⟩,List.prefix_refl _⟩
  | cons child children ih =>
    intro state
    have step := @locationStep_stepped path matchKind state child
    have rest := ih (locationStep path matchKind state child)
    rw [List.foldl_cons]
    generalize locationStep path matchKind state child = middle at step rest ⊢
    generalize children.foldl (locationStep path matchKind) middle = after at rest ⊢
    refine ⟨?_,?_,?_,?_,?_,?_,?_,?_,?_,?_,step.grows.trans rest.grows⟩
    · rw [rest.place,step.place,List.foldl_cons]
    · rw [rest.indexes,step.indexes,List.foldl_cons]
    · rw [rest.tryFiles,step.tryFiles,List.foldl_cons]
    · rw [rest.limit,step.limit,List.foldl_cons]
    · rw [rest.action,step.action,List.foldl_cons]
    · rw [rest.request,step.request,List.foldl_cons]
    · rw [rest.upstream,step.upstream,List.foldl_cons]
    · rw [rest.response,step.response,List.foldl_cons]
    · rw [rest.routes,step.routes,step.limit,step.request,List.append_assoc]
      rfl
    · -- the issues at the end are those at the start exactly when they are so at every step
      have settled : after.translation.issues = state.translation.issues ↔
          middle.translation.issues = state.translation.issues ∧ after.translation.issues = middle.translation.issues := by
        constructor
        · intro same
          have inside : after.translation.issues.length ≤ middle.translation.issues.length := by
            rw [same]
            exact step.grows.length_le
          have still := rest.grows.eq_of_length_le inside
          exact ⟨still.trans same,still.symm⟩
        · rintro ⟨first,second⟩
          exact second.trans first
      rw [settled,step.quiet,rest.quiet,step.request,step.response,anyRefused_cons,Bool.or_eq_false_iff,consistent,inheriting,
        Bool.and_eq_true,Bool.and_eq_true,Bool.not_eq_true',Bool.not_eq_true']
      exact ⟨fun ⟨⟨a,b,c⟩,d,e,f⟩ => ⟨⟨a,d⟩,⟨b,e⟩,c,f⟩,fun ⟨⟨a,d⟩,⟨b,e⟩,c,f⟩ => ⟨⟨a,b,c⟩,d,e,f⟩⟩

theorem locationEnd_ran (directive : Directive) (server : ServerSpec) (translation : Translation) :
    Ran path matchKind directive.children (locationStart directive server translation)
      (locationEnd directive server translation matchKind path) :=
  locationSteps_ran directive.children (locationStart directive server translation)

/-- The routes of a location, or nothing where its translation raises an issue. -/
def outcome (directive : Directive) (server : ServerSpec) (translation : Translation) : Option (List ActionRouteConfig) :=
  if (parseLocation directive server translation).2.issues = translation.issues then (parseLocation directive server translation).1
  else none

theorem outcome_unmatched {directive : Directive} {server : ServerSpec} {translation : Translation}
    (unmatched : locationMatch directive = none) : outcome directive server translation = none := by
  unfold outcome parseLocation
  rw [unmatched,ite_self]

/-- The routes of a location out of the state behind its directives. -/
def finalRoutes (path : List UInt8) (matchKind : RouteMatchKind) (server : ServerSpec) (state : LocationState) :
    Option (List ActionRouteConfig) :=
  (locationAction server state).map fun action => state.conditionalRoutes.map (inheritHeaders state.responseHeaders) ++
    [⟨path,matchKind,[],[],state.maxRequestBodyBytes,state.requestHeaders,state.responseHeaders,
      if state.action.isSome then [] else state.deny,action⟩]

theorem parseLocation_matched {directive : Directive} {server : ServerSpec} {translation : Translation}
    (matched : locationMatch directive = some (matchKind,path)) : ∃ message, parseLocation directive server translation =
      match finalRoutes path matchKind server (locationEnd directive server translation matchKind path) with
      | some routes => (some routes,(locationEnd directive server translation matchKind path).translation)
      | none => (none,(locationEnd directive server translation matchKind path).translation.issue directive message) := by
  refine ⟨ascii "location has no proxy, response, or static root",?_⟩
  unfold parseLocation finalRoutes
  rw [matched]
  dsimp only
  rw [show directive.children.foldl (locationStep path matchKind) (locationStart directive server translation) =
    locationEnd directive server translation matchKind path from rfl]
  cases locationAction server (locationEnd directive server translation matchKind path) with
  | some action => rfl
  | none => rfl

theorem outcome_matched {directive : Directive} {server : ServerSpec} {translation : Translation}
    (matched : locationMatch directive = some (matchKind,path)) : outcome directive server translation =
      if (locationEnd directive server translation matchKind path).translation.issues = translation.issues then
        finalRoutes path matchKind server (locationEnd directive server translation matchKind path)
      else none := by
  obtain ⟨message,parsed⟩ := @parseLocation_matched path matchKind directive server translation matched
  unfold outcome
  rw [parsed]
  cases finalRoutes path matchKind server (locationEnd directive server translation matchKind path) with
  | some routes => rfl
  | none => rw [ite_self,ite_self]

end Runs

end Polyguard.Nginx

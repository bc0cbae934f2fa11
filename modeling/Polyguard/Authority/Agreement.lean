import Polyguard.Header.Agreement
import Polyguard.RequestTarget.Agreement
import Polyguard.Authority.Endpoints

/-! The five implementations of `reconcile_authority` agree except on a host of commas.
They read the only host field, the endpoint it names and the endpoint of the target,
in different orders, but every failure after the host field has the same error. One
implementation takes a list of empty members for a repeated host. -/
namespace Polyguard.AuthorityAgreement
open Ascii Slices Decimal Address TargetBytes RequestTarget

/-- The values of the host fields. -/
def hosts (fields : List HeaderField) : List (List UInt8) := (fields.filter (·.name == ascii "host")).map (·.value)

/-- One value, none, or an error. -/
def onlyHost : List (List UInt8) → Result (Option (List UInt8))
  | [] => .ok none
  | [value] => .ok (some value)
  | _ => multipleHost

theorem collectHost_from (fields : List HeaderField) (found : Option (List UInt8)) :
    fields.foldlM (fun found field =>
      if field.name != ascii "host" then (.ok found : Result (Option (List UInt8)))
      else if found.isSome then multipleHost
      else .ok (some field.value)) found = onlyHost (found.toList ++ hosts fields) := by
  induction fields generalizing found with
  | nil => cases found <;> rfl
  | cons field fields ih =>
    rw [List.foldlM_cons,hosts,List.filter_cons]
    cases same : field.name == ascii "host" with
    | false =>
      have differ : (field.name != ascii "host") = true := by simpa using same
      rw [if_pos differ,bind_ok,ih,if_neg (by decide)]
      rfl
    | true =>
      have equal : ¬ (field.name != ascii "host") = true := by simpa using same
      rw [if_neg equal,if_pos rfl]
      cases found with
      | none =>
        rw [if_neg (by decide),bind_ok,ih]
        rfl
      | some value => rfl

theorem collectHost_eq (fields : List HeaderField) : collectHost fields = onlyHost (hosts fields) :=
  collectHost_from fields none

/-- The only host value, unless it has a comma. -/
def hostText (fields : List HeaderField) : Result (Option (List UInt8)) :=
  match hosts fields with
  | [] => .ok none
  | [value] => if value.contains 0x2c then .error (commaValueError value) else .ok (some value)
  | _ => multipleHost

/-- The forms of a normalized target, with its authority and its default port. -/
inductive Shape : NormalizedTarget → Option (List UInt8) → Option Nat → Prop
  | origin (path routing : List UInt8) : Shape ⟨.origin,none,none,path,routing⟩ none none
  | asterisk (path routing : List UInt8) : Shape ⟨.asterisk,none,none,path,routing⟩ none none
  | http (authority path routing : List UInt8) :
    Shape ⟨.absolute,some (ascii "http"),some authority,path,routing⟩ (some authority) (some 80)
  | https (authority path routing : List UInt8) :
    Shape ⟨.absolute,some (ascii "https"),some authority,path,routing⟩ (some authority) (some 443)
  | authority (authority path routing : List UInt8) :
    Shape ⟨.authority,none,some authority,path,routing⟩ (some authority) none

/-- The endpoint without a port that the scheme implies. -/
def effective (fallback : Option Nat) (found : Authority) : EffectiveAuthority :=
  ⟨found.host,found.port.filter fun port => some port != fallback⟩

theorem endpoint_cases (text : List UInt8) : endpoint text = invalidAuthority ∨ ∃ found, endpoint text = .ok found := by
  unfold endpoint
  cases readAuthority false text with
  | none => exact .inl rfl
  | some read => exact .inr ⟨_,rfl⟩

theorem utf8_cases (value : List UInt8) :
    Utf8.fromUtf8 value = some value ∨ Utf8.fromUtf8 value = none ∧ endpoint value = invalidAuthority := by
  by_cases valid : Utf8.valid value = true
  · exact .inl (if_pos valid)
  · refine .inr ⟨if_neg valid,?_⟩
    unfold endpoint
    cases accepted : readAuthority false value with
    | none => rfl
    | some read =>
      refine absurd (Utf8.valid_of_ascii fun b member => ?_) valid
      exact forall_byte (p := fun c => isAuthorityByte c → isAscii c) (by decide) b
        (readAuthority_inside accepted b member)

/-- The optional endpoint of an optional text. -/
def source (text : Option (List UInt8)) : Result (Option Authority) := transpose (text.map endpoint)

theorem source_cases (text : Option (List UInt8)) :
    source text = invalidAuthority ∨ ∃ found, source text = .ok found ∧ (found = none ↔ text = none) := by
  cases text with
  | none => exact .inr ⟨none,rfl,by simp⟩
  | some text =>
    rcases endpoint_cases text with refused | ⟨found,read⟩
    · exact .inl (by rw [source,Option.map_some,refused]; rfl)
    · exact .inr ⟨some found,by rw [source,Option.map_some,read]; rfl,by simp⟩

theorem source_swap {α : Type} (left right : Option (List UInt8)) (next : Option Authority → Option Authority → Result α) :
    (source left >>= fun first => source right >>= fun second => next first second) =
      source right >>= fun second => source left >>= fun first => next first second := by
  rcases source_cases left with failed | ⟨first,read,-⟩
  · rcases source_cases right with failed' | ⟨second,read',-⟩
    · rw [failed,failed']
      rfl
    · rw [failed,read']
      rfl
  · rcases source_cases right with failed' | ⟨second,read',-⟩
    · rw [read,failed']
      rfl
    · rw [read,read']
      rfl

/-- The endpoint of the target, or else of the header, when they do not differ. -/
def merge (fallback : Option Nat) : Option Authority → Option Authority → Result EffectiveAuthority
  | some target,some header =>
    if target.host == header.host && target.port.or fallback == header.port.or fallback then
      .ok (effective fallback target)
    else authorityMismatch
  | some target,none => .ok (effective fallback target)
  | none,some header => .ok (effective fallback header)
  | none,none => missingHost

def reference (authority : Option (List UInt8)) (fallback : Option Nat) (fields : List HeaderField) :
    Result EffectiveAuthority := do
  let host ← hostText fields
  let target ← source authority
  let header ← source host
  merge fallback target header

/-- The text of a host value, as three implementations take it. -/
def decoded : Option (List UInt8) → Result (Option (List UInt8))
  | none => .ok none
  | some value =>
    match Utf8.fromUtf8 value with
    | some text => .ok (some text)
    | none => invalidAuthority

theorem decoded_source {α : Type} (authority host : Option (List UInt8)) (next : Option Authority → Option Authority → Result α) :
    (decoded host >>= fun text => source authority >>= fun target => source text >>= fun header => next target header) =
      source authority >>= fun target => source host >>= fun header => next target header := by
  cases host with
  | none => rfl
  | some value =>
    rcases utf8_cases value with valid | ⟨invalid,refused⟩
    · rw [decoded,valid]
      rfl
    · have failed : source (some value) = invalidAuthority := by
        rw [source,Option.map_some,refused]
        rfl
      rw [decoded,invalid,failed]
      rcases source_cases authority with failed' | ⟨target,read,-⟩
      · rw [failed']
        rfl
      · rw [read]
        rfl

theorem required_source (authority host : Option (List UInt8)) (fallback : Option Nat) :
    (if authority = none ∧ host = none then missingHost
      else source authority >>= fun target => source host >>= fun header => merge fallback target header) =
      source authority >>= fun target => source host >>= fun header => merge fallback target header := by
  split
  · rename_i absent
    obtain ⟨rfl,rfl⟩ := absent
    rfl
  · rfl

theorem phases_host (headers : HeaderBlock) : AuthorityPhases.hostText headers = hostText headers.fields >>= decoded := by
  unfold AuthorityPhases.hostText hostText
  rw [collectHost_eq]
  rcases hosts headers.fields with _ | ⟨value,_ | ⟨second,rest⟩⟩
  · rfl
  · simp only [onlyHost,bind_ok]
    split <;> rfl
  · rfl

theorem shape_host {target : NormalizedTarget} {authority : Option (List UInt8)} {fallback : Option Nat}
    (shape : Shape target authority fallback) : (target.form = .origin ∨ target.form = .asterisk) ↔ authority = none := by
  cases shape <;> simp

theorem phases_target {target : NormalizedTarget} {authority : Option (List UInt8)} {fallback : Option Nat}
    (shape : Shape target authority fallback) :
    (∃ implied, AuthorityPhases.targetDefault target = .ok implied ∧ implied.number = fallback) ∧
      AuthorityPhases.targetAuthority target = source authority := by
  have wrapped (text : List UInt8) : (AuthorityPhases.parseAuthority text).map some = source (some text) := by
    rw [phases_endpoint,source,Option.map_some]
    cases endpoint text <;> rfl
  cases shape with
  | origin path routing => exact ⟨⟨.none,rfl,rfl⟩,rfl⟩
  | asterisk path routing => exact ⟨⟨.none,rfl,rfl⟩,rfl⟩
  | http text path routing => exact ⟨⟨.http,rfl,rfl⟩,wrapped text⟩
  | https text path routing => exact ⟨⟨.https,rfl,rfl⟩,wrapped text⟩
  | authority text path routing => exact ⟨⟨.none,rfl,rfl⟩,wrapped text⟩

theorem unless_same {α : Type} (same : Bool) (chosen : Result α) :
    (if !same then authorityMismatch else chosen) = if same then chosen else authorityMismatch := by
  cases same <;> rfl

theorem phases_merge (implied : AuthorityPhases.DefaultPort) (target header : Option Authority) :
    (if AuthorityPhases.mismatched implied target header then authorityMismatch
      else match target.or header with
        | none => missingHost
        | some chosen => .ok (AuthorityPhases.renderEffective chosen implied)) = merge implied.number target header := by
  cases target with
  | none => cases header <;> rfl
  | some target =>
    cases header with
    | none => rfl
    | some header =>
      exact unless_same (target.host == header.host && target.port.or implied.number == header.port.or implied.number)
        (.ok (effective implied.number target))

theorem phases_reference {target : NormalizedTarget} {authority : Option (List UInt8)} {fallback : Option Nat}
    (shape : Shape target authority fallback) (headers : HeaderBlock) :
    AuthorityPhases.reconcileAuthority target headers = reference authority fallback headers.fields := by
  obtain ⟨⟨implied,found,rfl⟩,fromTarget⟩ := phases_target shape
  have needs := shape_host shape
  have parses (host : Option (List UInt8)) : transpose (host.map AuthorityPhases.parseAuthority) = source host := by
    rw [funext phases_endpoint]
    rfl
  unfold AuthorityPhases.reconcileAuthority reference
  rw [phases_host,found,fromTarget]
  cases hostText headers.fields with
  | error error => rfl
  | ok host =>
    rw [bind_ok,bind_ok,← decoded_source]
    apply bind_congr_ok
    intro text _
    simp only [AuthorityPhases.enforceHostCardinality,needs,bind_ok,parses]
    rw [source_swap,← required_source]
    split
    · rfl
    · exact bind_congr_ok fun target _ => bind_congr_ok fun header _ => phases_merge implied target header

theorem table_inputs {target : NormalizedTarget} {authority : Option (List UInt8)} {fallback : Option Nat}
    (shape : Shape target authority fallback) (headers : HeaderBlock) {α : Type}
    (next : AuthorityInvariantTable.ReconciliationInputs → Result α) :
    (AuthorityInvariantTable.inspectHostFields headers >>= fun host =>
        AuthorityInvariantTable.decideInputs target host >>= next) =
      hostText headers.fields >>= fun host => decoded host >>= fun text =>
        if authority = none ∧ text = none then missingHost else next ⟨authority,text,fallback⟩ := by
  have decided : ∀ text, AuthorityInvariantTable.decideInputs target
      (text.elim .absent .one) = if authority = none ∧ text = none then missingHost else .ok ⟨authority,text,fallback⟩ := by
    intro text
    cases shape <;> cases text <;> rfl
  unfold AuthorityInvariantTable.inspectHostFields hostText
  rw [collectHost_eq]
  rcases hosts headers.fields with _ | ⟨value,_ | ⟨second,rest⟩⟩
  · change AuthorityInvariantTable.decideInputs target ((none : Option (List UInt8)).elim .absent .one) >>= next = _
    rw [decided]
    simp only [bind_ok,decoded]
    split <;> rfl
  · simp only [onlyHost,bind_ok]
    split
    · rfl
    · rcases utf8_cases value with valid | ⟨invalid,-⟩
      · rw [valid,bind_ok,bind_ok,decoded,valid]
        change AuthorityInvariantTable.decideInputs target ((some value).elim .absent .one) >>= next = _
        rw [decided]
        simp
      · rw [invalid,bind_ok,decoded,invalid]
        rfl
  · rfl

theorem table_merge (fallback : Option Nat) {target header : Option AuthorityInvariantTable.ValidAuthority}
    (targetMarked : ∀ found, target = some found → Marked found.host)
    (headerMarked : ∀ found, header = some found → Marked found.host) :
    (if AuthorityInvariantTable.differ fallback target header then authorityMismatch
      else match target.or header with
        | none => missingHost
        | some authority => .ok (AuthorityInvariantTable.intoEffective authority fallback)) =
      merge fallback (target.map tabled) (header.map tabled) := by
  cases target with
  | none => cases header <;> rfl
  | some target =>
    cases header with
    | none => rfl
    | some header =>
      refine (unless_same (AuthorityInvariantTable.sameCanonicalHost target.host header.host &&
        target.explicitPort.or fallback == header.explicitPort.or fallback) (.ok (effective fallback (tabled target)))).trans ?_
      rw [marked_same (targetMarked target rfl) (headerMarked header rfl)]
      rfl

theorem table_source (text : Option (List UInt8)) :
    (source text = invalidAuthority ∧ transpose (text.map AuthorityInvariantTable.parse) = invalidAuthority) ∨
    ∃ found, transpose (text.map AuthorityInvariantTable.parse) = .ok found ∧ source text = .ok (found.map tabled) ∧
      ∀ authority, found = some authority → Marked authority.host := by
  cases text with
  | none => exact .inr ⟨none,rfl,rfl,fun _ impossible => nomatch impossible⟩
  | some text =>
    obtain ⟨same,marked⟩ := table_endpoint text
    rw [source,Option.map_some,Option.map_some,← same]
    cases parsed : AuthorityInvariantTable.parse text with
    | error error =>
      rcases endpoint_cases text with refused | ⟨found,read⟩
      · rw [parsed,refused] at same
        cases same
        exact .inl ⟨rfl,rfl⟩
      · rw [parsed,read] at same
        cases same
    | ok found =>
      refine .inr ⟨some found,rfl,rfl,?_⟩
      intro authority same
      cases same
      exact marked found parsed

theorem table_reference {target : NormalizedTarget} {authority : Option (List UInt8)} {fallback : Option Nat}
    (shape : Shape target authority fallback) (headers : HeaderBlock) :
    AuthorityInvariantTable.reconcileAuthority target headers = reference authority fallback headers.fields := by
  unfold AuthorityInvariantTable.reconcileAuthority reference
  rw [table_inputs shape headers]
  apply bind_congr_ok
  intro host _
  rw [← decoded_source]
  apply bind_congr_ok
  intro text _
  rw [← required_source]
  split
  · rfl
  · rcases table_source authority with ⟨failed,failed'⟩ | ⟨first,parsed,read,marked⟩
    · rw [failed,failed']
      rfl
    · rw [parsed,read,bind_ok,bind_ok]
      rcases table_source text with ⟨failed,failed'⟩ | ⟨second,parsed',read',marked'⟩
      · rw [failed,failed']
        rfl
      · rw [parsed',read',bind_ok,bind_ok]
        exact table_merge fallback marked marked'

theorem segment_boundary {target : NormalizedTarget} {authority : Option (List UInt8)} {fallback : Option Nat}
    (shape : Shape target authority fallback) (headers : HeaderBlock) :
    AuthoritySegmentPipeline.validateBoundary target headers =
      hostText headers.fields >>= fun host =>
        if authority = none ∧ host = none then missingHost else .ok ⟨authority,host,fallback⟩ := by
  have shaped : AuthoritySegmentPipeline.targetShape target = .ok (authority,fallback,authority.isNone) := by
    cases shape <;> rfl
  unfold AuthoritySegmentPipeline.validateBoundary AuthoritySegmentPipeline.validateHostCardinality hostText
  rw [collectHost_eq,shaped]
  rcases hosts headers.fields with _ | ⟨value,_ | ⟨second,rest⟩⟩
  · cases authority <;> rfl
  · simp only [onlyHost,bind_ok]
    split
    · rfl
    · simp
  · rfl

theorem segment_source (text : Option (List UInt8)) :
    (source text = invalidAuthority ∧ transpose (text.map AuthoritySegmentPipeline.decodeAuthority) = invalidAuthority) ∨
    ∃ found, transpose (text.map AuthoritySegmentPipeline.decodeAuthority) = .ok found ∧
      source text = .ok (found.map loweredEndpoint) := by
  cases text with
  | none => exact .inr ⟨none,rfl,rfl⟩
  | some text =>
    have same := segment_endpoint text
    rw [source,Option.map_some,Option.map_some,← same]
    cases parsed : AuthoritySegmentPipeline.decodeAuthority text with
    | error error =>
      rcases endpoint_cases text with refused | ⟨found,read⟩
      · rw [parsed,refused] at same
        cases same
        exact .inl ⟨rfl,rfl⟩
      · rw [parsed,read] at same
        cases same
    | ok found => exact .inr ⟨some found,rfl,rfl⟩

theorem source_ascii {text : Option (List UInt8)} {found : Authority} (read : source text = .ok (some found)) :
    collectChars found.host = found.host := by
  cases text with
  | none => cases read
  | some text =>
    rcases endpoint_cases text with refused | ⟨endpointFound,accepted⟩
    · rw [source,Option.map_some,refused] at read
      cases read
    · rw [source,Option.map_some,accepted] at read
      cases read
      exact collectChars_ascii (endpoint_ascii accepted)

theorem agree_next {α : Type} (same : Bool) (chosen : Result α) :
    ((if same then .ok () else authorityMismatch) >>= fun _ => chosen) = if same then chosen else authorityMismatch := by
  cases same <;> rfl

theorem segment_merge (fallback : Option Nat) (target header : Option AuthoritySegmentPipeline.Endpoint)
    (targetSmall : ∀ found, target.map loweredEndpoint = some found → collectChars found.host = found.host)
    (headerSmall : ∀ found, header.map loweredEndpoint = some found → collectChars found.host = found.host) :
    (AuthoritySegmentPipeline.requireAgreement (target,header) fallback >>= fun _ =>
        AuthoritySegmentPipeline.materializePreferred (target,header) fallback) =
      merge fallback (target.map loweredEndpoint) (header.map loweredEndpoint) := by
  have rendered {found : AuthoritySegmentPipeline.Endpoint}
      (small : collectChars (loweredEndpoint found).host = (loweredEndpoint found).host) :
      (⟨collectChars (found.canonicalHost.map toAsciiLowercase),
        found.explicitPort.filter fun port => some port != fallback⟩ : EffectiveAuthority) =
        effective fallback (loweredEndpoint found) :=
    congrArg (EffectiveAuthority.mk · _) small
  cases target with
  | none =>
    cases header with
    | none => rfl
    | some header => exact congrArg Except.ok (rendered (headerSmall _ rfl))
  | some target =>
    have chosen := rendered (targetSmall _ rfl)
    cases header with
    | none => exact congrArg Except.ok chosen
    | some header =>
      have hosts : eqIgnoreAsciiCase target.canonicalHost header.canonicalHost =
          ((loweredEndpoint target).host == (loweredEndpoint header).host) :=
        Bool.eq_iff_iff.mpr ((eqIgnoreAsciiCase_iff _ _).trans beq_iff_eq.symm)
      unfold AuthoritySegmentPipeline.requireAgreement AuthoritySegmentPipeline.materializePreferred merge
      simp only [hosts,Option.some_or,Option.map_some,chosen]
      exact agree_next _ _

theorem segment_reference {target : NormalizedTarget} {authority : Option (List UInt8)} {fallback : Option Nat}
    (shape : Shape target authority fallback) (headers : HeaderBlock) :
    AuthoritySegmentPipeline.reconcileAuthority target headers = reference authority fallback headers.fields := by
  unfold AuthoritySegmentPipeline.reconcileAuthority reference
  rw [segment_boundary shape headers]
  cases hostText headers.fields with
  | error error => rfl
  | ok host =>
    rw [bind_ok,bind_ok,← required_source]
    split
    · rfl
    · rw [bind_ok,AuthoritySegmentPipeline.decodeSources]
      rcases segment_source authority with ⟨failed,failed'⟩ | ⟨first,parsed,read⟩
      · rw [failed,failed']
        rfl
      · rw [parsed,read]
        rcases segment_source host with ⟨failed,failed'⟩ | ⟨second,parsed',read'⟩
        · rw [failed,failed']
          rfl
        · rw [parsed',read']
          refine segment_merge fallback first second ?_ ?_
          · intro found same
            rw [same] at read
            exact source_ascii read
          · intro found same
            rw [same] at read'
            exact source_ascii read'

open AuthorityEndpointAlgebra in
/-- The header of the algebra as an option. -/
def HeaderReads (field : HostField ValidatedAuthority) (found : Option Authority) : Prop :=
  match field with
  | .missing => found = none
  | .present value => found = some (canonicalize value)

open AuthorityEndpointAlgebra in
theorem algebra_validate (text : List UInt8) :
    (endpoint text = invalidAuthority ∧ validateAuthority text = invalidAuthority) ∨
    ∃ found, validateAuthority text = .ok found ∧ endpoint text = .ok (canonicalize found) := by
  have same := algebra_endpoint text
  cases parsed : validateAuthority text with
  | error error =>
    rcases endpoint_cases text with refused | ⟨found,read⟩
    · rw [parsed,refused] at same
      cases same
      exact .inl ⟨refused,rfl⟩
    · rw [parsed,read] at same
      cases same
  | ok found =>
    rw [parsed] at same
    exact .inr ⟨found,rfl,same.symm⟩

open AuthorityEndpointAlgebra in
theorem algebra_observe (headers : HeaderBlock) {α : Type} (next : HostField ValidatedAuthority → Result α)
    (next' : Option Authority → Result α) (same : ∀ field found, HeaderReads field found → next field = next' found) :
    (observeHost headers >>= next) = hostText headers.fields >>= fun host => source host >>= next' := by
  unfold observeHost hostText
  rw [collectHost_eq]
  rcases hosts headers.fields with _ | ⟨value,_ | ⟨second,rest⟩⟩
  · exact same .missing none rfl
  · simp only [onlyHost,bind_ok]
    split
    · rfl
    · rw [bind_ok,source,Option.map_some]
      rcases utf8_cases value with valid | ⟨invalid,refused⟩
      · rw [valid]
        rcases algebra_validate value with ⟨refused,failed⟩ | ⟨found,parsed,read⟩
        · dsimp only
          rw [refused,failed]
          rfl
        · dsimp only
          rw [parsed,read]
          exact same (.present found) (some (canonicalize found)) rfl
      · rw [invalid,refused]
        rfl
  · rfl

open AuthorityEndpointAlgebra in
theorem algebra_source (text : Option (List UInt8)) :
    (source text = invalidAuthority ∧ transpose (text.map validateAuthority) = invalidAuthority) ∨
    ∃ found, transpose (text.map validateAuthority) = .ok found ∧ source text = .ok (found.map canonicalize) := by
  cases text with
  | none => exact .inr ⟨none,rfl,rfl⟩
  | some text =>
    rcases algebra_validate text with ⟨refused,failed⟩ | ⟨found,parsed,read⟩
    · exact .inl ⟨by rw [source,Option.map_some,refused]; rfl,by rw [Option.map_some,failed]; rfl⟩
    · exact .inr ⟨some found,by rw [Option.map_some,parsed]; rfl,by rw [source,Option.map_some,read]; rfl⟩

open AuthorityEndpointAlgebra in
theorem algebra_table {target : NormalizedTarget} {authority : Option (List UInt8)} {fallback : Option Nat}
    (shape : Shape target authority fallback) {first : Option ValidatedAuthority} (present : first = none ↔ authority = none)
    {field : HostField ValidatedAuthority} {header : Option Authority} (reads : HeaderReads field header) :
    decisionTable ⟨target.form,target.scheme,first.map canonicalize,field.map canonicalize⟩ =
      merge fallback (first.map canonicalize) header := by
  have derived (implied : Option Nat) (preferred : Authority) :
      deriveEffective preferred (field.map canonicalize) implied = merge implied (some preferred) header := by
    cases field with
    | missing =>
      obtain rfl : header = none := reads
      rfl
    | present value =>
      obtain rfl : header = some (canonicalize value) := reads
      unfold deriveEffective endpointKey merge HostField.map
      dsimp only
      rw [show ((preferred.host,preferred.port.or implied) != ((canonicalize value).host,(canonicalize value).port.or implied)) =
        !(preferred.host == (canonicalize value).host && preferred.port.or implied == (canonicalize value).port.or implied)
        from rfl]
      exact unless_same _ _
  have alone {form : TargetForm} (needs : form = .origin ∨ form = .asterisk) :
      decisionTable ⟨form,none,none,field.map canonicalize⟩ = merge none none header := by
    cases field with
    | missing =>
      obtain rfl : header = none := reads
      rcases needs with rfl | rfl <;> rfl
    | present value =>
      obtain rfl : header = some (canonicalize value) := reads
      rcases needs with rfl | rfl <;> rfl
  cases shape with
  | origin path routing =>
    obtain rfl := present.mpr rfl
    exact alone (.inl rfl)
  | asterisk path routing =>
    obtain rfl := present.mpr rfl
    exact alone (.inr rfl)
  | http text path routing =>
    cases first with
    | none => cases present.mp rfl
    | some found => exact derived (some 80) (canonicalize found)
  | https text path routing =>
    cases first with
    | none => cases present.mp rfl
    | some found => exact derived (some 443) (canonicalize found)
  | authority text path routing =>
    cases first with
    | none => cases present.mp rfl
    | some found => exact derived none (canonicalize found)

theorem algebra_reference {target : NormalizedTarget} {authority : Option (List UInt8)} {fallback : Option Nat}
    (shape : Shape target authority fallback) (headers : HeaderBlock) :
    AuthorityEndpointAlgebra.reconcileAuthority target headers = reference authority fallback headers.fields := by
  have text : target.authority = authority := by cases shape <;> rfl
  unfold AuthorityEndpointAlgebra.reconcileAuthority reference
  rw [text]
  simp only [source_swap authority]
  refine algebra_observe headers _ (fun header => source authority >>= fun found => merge fallback found header) ?_
  intro field header reads
  rcases algebra_source authority with ⟨failed,failed'⟩ | ⟨first,parsed,read⟩
  · rw [failed,failed']
    rfl
  · rw [parsed,read,bind_ok,bind_ok]
    refine algebra_table shape ?_ reads
    rcases source_cases authority with failed | ⟨found,read',present⟩
    · rw [failed] at read
      cases read
    · rw [read] at read'
      cases read'
      rw [← present,Option.map_eq_none_iff]

theorem splitOn_separators (value : List UInt8) :
    (∀ part ∈ value.splitOn 0x2c, part = []) ↔ ∀ b ∈ value, b = 0x2c := by
  constructor
  · intro empty b member
    rcases splitOn_mem 0x2c member with separator | ⟨part,among,inside⟩
    · exact separator
    · rw [empty part among] at inside
      cases inside
  · intro commas
    induction value with
    | nil => simp
    | cons first rest ih =>
      obtain rfl := commas first (by simp)
      have first : position (· == 0x2c) (0x2c :: rest) = some 0 := rfl
      rw [splitOn_position,first]
      intro part among
      rcases List.mem_cons.mp among with rfl | later
      · rfl
      · exact ih (fun b member => commas b (by simp [member])) part (by simpa using later)

/-- The only host value is a list of empty members. -/
def CommaHost (fields : List HeaderField) : Prop :=
  ∃ value, hosts fields = [value] ∧ value ≠ [] ∧ ∀ b ∈ value, b = 0x2c

theorem comma_cases (value : List UInt8) :
    ((0x2c : UInt8) ∉ value ∧ AuthorityComposableComponents.isRepeatedCommaValue value = false) ∨
    ((0x2c : UInt8) ∈ value ∧ AuthorityComposableComponents.isRepeatedCommaValue value = false ∧
      commaValueError value = .invalidAuthority ∧ ∃ b ∈ value, b ≠ 0x2c) ∨
    ((0x2c : UInt8) ∈ value ∧ AuthorityComposableComponents.isRepeatedCommaValue value = true ∧
      (commaValueError value = .multipleHost ∧ (∃ b ∈ value, b ≠ 0x2c) ∨
        commaValueError value = .invalidAuthority ∧ ∀ b ∈ value, b = 0x2c)) := by
  unfold AuthorityComposableComponents.isRepeatedCommaValue commaValueError
  by_cases comma : (0x2c : UInt8) ∈ value
  · obtain ⟨first,second,rest,split⟩ := splitOn_of_mem comma
    have spread := splitOn_separators value
    have mixed (part : List UInt8) (among : part ∈ value.splitOn 0x2c) (full : part ≠ []) : ∃ b ∈ value, b ≠ 0x2c := by
      by_contra commas
      have everywhere : ∀ b ∈ value, b = 0x2c := by simpa using commas
      exact full (spread.mpr everywhere part among)
    rw [split] at spread mixed ⊢
    dsimp only
    cases same : (second :: rest).all (· == first) with
    | false =>
      refine .inr (.inl ⟨comma,by simp,by simp,?_⟩)
      obtain ⟨part,among,differ⟩ := List.all_eq_false.mp same
      by_cases full : first = []
      · refine mixed part (by simp [among]) ?_
        rintro rfl
        simp [full] at differ
      · exact mixed first (by simp) full
    | true =>
      refine .inr (.inr ⟨comma,by simp,?_⟩)
      cases empty : first.isEmpty with
      | true =>
        refine .inr ⟨by simp,spread.mp ?_⟩
        obtain rfl := List.isEmpty_iff.mp empty
        intro part among
        rcases List.mem_cons.mp among with rfl | later
        · rfl
        · simpa using List.all_eq_true.mp same part later
      | false =>
        exact .inl ⟨by simp,mixed first (by simp) (List.isEmpty_eq_false_iff.mp empty)⟩
  · have single : value.splitOn 0x2c = [value] := by
      rw [splitOn_position,position_none (miss_of_absent comma)]
    rw [single]
    exact .inl ⟨comma,by simp⟩

/-- The names of the fields are in lowercase. -/
def Canonical (fields : List HeaderField) : Prop := ∀ field ∈ fields, field.name.map toAsciiLowercase = field.name

/-- The host values as the composable implementation goes through them. -/
def singleHost (found : Option (List UInt8)) : List (List UInt8) → Result (Option (List UInt8))
  | [] => .ok found
  | value :: values =>
    if found.isSome || AuthorityComposableComponents.isRepeatedCommaValue value then multipleHost
    else singleHost (some value) values

theorem composable_host {fields : List HeaderField} (canonical : Canonical fields) (found : Option (List UInt8)) :
    fields.foldlM (fun found field =>
      if !eqIgnoreAsciiCase field.name (ascii "host") then (.ok found : Result (Option (List UInt8)))
      else if found.isSome || AuthorityComposableComponents.isRepeatedCommaValue field.value then multipleHost
      else .ok (some field.value)) found = singleHost found (hosts fields) := by
  induction fields generalizing found with
  | nil => rfl
  | cons field fields ih =>
    have named : eqIgnoreAsciiCase field.name (ascii "host") = (field.name == ascii "host") := by
      rw [Bool.eq_iff_iff,eqIgnoreAsciiCase_iff,canonical field (by simp),beq_iff_eq]
      rfl
    have rest := ih (fun later member => canonical later (by simp [member]))
    rw [List.foldlM_cons,named,hosts,List.filter_cons]
    cases field.name == ascii "host" with
    | false => exact rest found
    | true =>
      simp only [Bool.not_true,Bool.false_eq_true,if_false,if_true,List.map_cons,singleHost]
      split
      · rfl
      · exact rest (some field.value)

theorem composable_target {target : NormalizedTarget} {authority : Option (List UInt8)} {fallback : Option Nat}
    (shape : Shape target authority fallback) :
    AuthorityComposableComponents.defaultPort target = fallback ∧ target.authority = authority := by
  cases shape <;> exact ⟨rfl,rfl⟩

theorem composable_merge (fallback : Option Nat) (target header : Option Authority) :
    (if AuthorityComposableComponents.disagree fallback target header then authorityMismatch
      else match target.or header with
        | none => missingHost
        | some selected => .ok ⟨selected.host,selected.port.filter fun port => some port != fallback⟩) =
      merge fallback target header := by
  cases target with
  | none => cases header <;> rfl
  | some target =>
    cases header with
    | none => rfl
    | some header =>
      have flip : AuthorityComposableComponents.disagree fallback (some target) (some header) =
          !(target.host == header.host && target.port.or fallback == header.port.or fallback) := by
        unfold AuthorityComposableComponents.disagree AuthorityComposableComponents.comparablePort
        rw [Bool.not_and]
        rfl
      rw [flip]
      exact unless_same _ (.ok (effective fallback target))

theorem composable_settle {target : NormalizedTarget} {authority : Option (List UInt8)} {fallback : Option Nat}
    (shape : Shape target authority fallback) {headers : HeaderBlock} (canonical : Canonical headers.fields) :
    AuthorityComposableComponents.reconcileAuthority target headers =
      singleHost none (hosts headers.fields) >>= fun host => source authority >>= fun target =>
        source host >>= fun header => merge fallback target header := by
  obtain ⟨implied,text⟩ := composable_target shape
  have needs := shape_host shape
  have parses (host : Option (List UInt8)) :
      transpose (host.map AuthorityComposableComponents.parseAuthority) = source host := by
    rw [funext composable_endpoint]
    rfl
  unfold AuthorityComposableComponents.reconcileAuthority AuthorityComposableComponents.singleHostValue
  rw [composable_host canonical,implied,text]
  apply bind_congr_ok
  intro host _
  simp only [AuthorityComposableComponents.requireHostForForm,needs,parses]
  rw [source_swap,← required_source]
  split
  · rfl
  · exact bind_congr_ok fun target _ => bind_congr_ok fun header _ => composable_merge fallback target header

theorem comma_source {value : List UInt8} (comma : (0x2c : UInt8) ∈ value) : source (some value) = invalidAuthority := by
  rw [source,Option.map_some,endpoint]
  cases accepted : readAuthority false value with
  | none => rfl
  | some read => exact absurd (readAuthority_inside accepted 0x2c comma) (by decide)

theorem composable_reference {target : NormalizedTarget} {authority : Option (List UInt8)} {fallback : Option Nat}
    (shape : Shape target authority fallback) {headers : HeaderBlock} (canonical : Canonical headers.fields)
    (other : ¬ CommaHost headers.fields) :
    AuthorityComposableComponents.reconcileAuthority target headers = reference authority fallback headers.fields := by
  rw [composable_settle shape canonical,reference,hostText]
  rcases listed : hosts headers.fields with _ | ⟨value,_ | ⟨second,rest⟩⟩
  · rfl
  · rcases comma_cases value with ⟨absent,once⟩ | ⟨comma,once,error,-⟩ | ⟨comma,repeated,⟨error,-⟩ | ⟨-,commas⟩⟩
    · have clear : value.contains 0x2c = false := by simpa using absent
      simp only [singleHost,once,clear,Option.isSome_none,Bool.or_self,Bool.false_eq_true,if_false]
    · have found : value.contains 0x2c = true := by simpa using comma
      simp only [singleHost,once,found,error,Option.isSome_none,Bool.or_self,Bool.false_eq_true,if_false,if_true,bind_ok,
        comma_source comma]
      rcases source_cases authority with failed | ⟨target,read,-⟩
      · rw [failed]
        rfl
      · rw [read]
        rfl
    · have found : value.contains 0x2c = true := by simpa using comma
      simp only [singleHost,repeated,found,error,Bool.or_true,if_true]
      rfl
    · refine absurd ⟨value,listed,?_,commas⟩ other
      rintro rfl
      cases comma
  · have several : singleHost none (value :: second :: rest) = multipleHost := by
      unfold singleHost
      split
      · rfl
      · rfl
    rw [several]

theorem comma_differs {target : NormalizedTarget} {authority : Option (List UInt8)} {fallback : Option Nat}
    (shape : Shape target authority fallback) {headers : HeaderBlock} (canonical : Canonical headers.fields)
    (commas : CommaHost headers.fields) :
    AuthorityComposableComponents.reconcileAuthority target headers = multipleHost ∧
      reference authority fallback headers.fields = invalidAuthority := by
  obtain ⟨value,listed,full,commas⟩ := commas
  have comma : (0x2c : UInt8) ∈ value := by
    obtain ⟨first,rest,rfl⟩ := List.exists_cons_of_ne_nil full
    exact commas first (by simp) ▸ List.mem_cons_self
  have found : value.contains 0x2c = true := by simpa using comma
  rw [composable_settle shape canonical,reference,hostText,listed]
  rcases comma_cases value with ⟨absent,-⟩ | ⟨-,-,-,b,member,differ⟩ | ⟨-,repeated,⟨-,b,member,differ⟩ | ⟨error,-⟩⟩
  · exact absurd comma absent
  · exact absurd (commas b member) differ
  · exact absurd (commas b member) differ
  · simp only [singleHost,repeated,found,error,Bool.or_true,if_true]
    exact ⟨rfl,rfl⟩

def Shaped (target : NormalizedTarget) : Prop := ∃ authority fallback, Shape target authority fallback

/-- Whatever the run returns has the property. -/
def Yields {α : Type} (property : α → Prop) (result : Result α) : Prop := ∀ value, result = .ok value → property value

theorem yields_error {α : Type} {property : α → Prop} (error : PolyguardError) : Yields property (.error error) :=
  fun _ impossible => nomatch impossible

theorem yields_ok {α : Type} {property : α → Prop} {value : α} (holds : property value) : Yields property (.ok value) := by
  intro other same
  cases same
  exact holds

theorem yields_bind {α β : Type} {property : β → Prop} {first : Result α} {next : α → Result β}
    (each : ∀ value, first = .ok value → Yields property (next value)) : Yields property (first >>= next) := by
  cases first with
  | error error => exact yields_error error
  | ok value => exact each value rfl

theorem yields_map {α β : Type} {property : β → Prop} {f : α → β} {result : Result α}
    (each : Yields (fun value => property (f value)) result) : Yields property (result.map f) := by
  cases result with
  | error error => exact yields_error error
  | ok value => exact yields_ok (each value rfl)

def Known (scheme : List UInt8) : Prop := scheme = ascii "http" ∨ scheme = ascii "https"

theorem shaped_absolute {scheme : List UInt8} (known : Known scheme) (authority path routing : List UInt8) :
    Shaped ⟨.absolute,some scheme,some authority,path,routing⟩ := by
  rcases known with rfl | rfl
  · exact ⟨_,_,.http authority path routing⟩
  · exact ⟨_,_,.https authority path routing⟩

theorem shaped_origin (path routing : List UInt8) : Shaped ⟨.origin,none,none,path,routing⟩ :=
  ⟨_,_,.origin path routing⟩

theorem shaped_asterisk (path routing : List UInt8) : Shaped ⟨.asterisk,none,none,path,routing⟩ :=
  ⟨_,_,.asterisk path routing⟩

theorem shaped_authority (authority path routing : List UInt8) :
    Shaped ⟨.authority,none,some authority,path,routing⟩ := ⟨_,_,.authority authority path routing⟩

theorem rules_shapes (request : RequestLine) : Yields Shaped (RequestTargetRules.normalizeRequestTarget request) := by
  refine yields_bind fun target _ => ?_
  split
  · exact yields_ok (shaped_asterisk _ _)
  · exact yields_error _
  · exact yields_bind fun authority _ => yields_ok (shaped_authority authority _ _)
  · exact yields_error _
  · exact yields_bind fun path _ => yields_ok (shaped_origin _ _)
  · rename_i scheme remainder _ _
    refine yields_bind fun authority _ => yields_bind fun path _ => yields_ok (shaped_absolute ?_ _ _ _)
    cases scheme
    · exact .inl rfl
    · exact .inr rfl
  · exact yields_error _

theorem pipeline_shapes (request : RequestLine) :
    Yields Shaped (RequestTargetValidatedPipeline.normalizeRequestTarget request) := by
  refine yields_map (yields_bind fun _ _ => ?_)
  split
  · split
    · exact yields_ok (shaped_asterisk _ _)
    · exact yields_error _
  · split
    · split
      · exact yields_error _
      · exact yields_map fun authority _ => shaped_authority _ _ _
    · split
      · exact yields_map fun path _ => shaped_origin _ _
      · split
        · exact yields_error _
        · rename_i word scheme found
          have known : Known scheme := by
            have member := List.mem_of_find?_eq_some found
            simp only [RequestTargetValidatedPipeline.absoluteSchemes,List.mem_cons,Prod.mk.injEq,List.not_mem_nil,
              or_false] at member
            exact member.imp (·.2) (·.2)
          exact yields_bind fun authority _ => yields_bind fun path _ => yields_ok (shaped_absolute known _ _ _)

theorem offsets_path_shapes {form : TargetForm} {scheme authority : Option (List UInt8)}
    (shapes : ∀ path routing, Shaped ⟨form,scheme,authority,path,routing⟩) (path : List UInt8) :
    Yields Shaped (RequestTargetInvariantOffsets.pathTarget form scheme authority path) := by
  refine yields_bind fun _ _ => ?_
  unfold RequestTargetInvariantOffsets.finishPathTarget
  dsimp only
  split
  · exact yields_error _
  · exact yields_ok (shapes _ _)

theorem offsets_shapes (request : RequestLine) :
    Yields Shaped (RequestTargetInvariantOffsets.normalizeRequestTarget request) := by
  refine yields_bind fun _ _ => ?_
  split
  · split
    · exact yields_error _
    · exact yields_ok (shaped_asterisk _ _)
  · split
    · split
      · exact yields_error _
      · exact yields_bind fun authority _ => yields_ok (shaped_authority authority _ _)
    · split
      · exact offsets_path_shapes shaped_origin _
      · split
        · exact yields_error _
        · rename_i length scheme found
          have known : Known scheme := by
            unfold RequestTargetInvariantOffsets.schemePrefix at found
            split at found
            · cases found
              exact .inl rfl
            · split at found
              · cases found
                exact .inr rfl
              · cases found
          refine yields_bind fun authority _ => ?_
          dsimp only
          split
          · exact offsets_path_shapes (shaped_absolute known authority) _
          · exact offsets_path_shapes (shaped_absolute known authority) _

theorem typed_shapes (request : RequestLine) :
    Yields Shaped (RequestTargetTypedMatrix.normalizeRequestTarget request) := by
  refine yields_bind fun boundary _ => ?_
  split
  · exact yields_ok (shaped_asterisk _ _)
  · exact yields_error _
  · exact yields_bind fun authority _ => yields_ok (shaped_authority authority _ _)
  · exact yields_error _
  · exact yields_bind fun path _ => yields_ok (shaped_origin _ _)
  · rename_i scheme remainder _ _
    unfold RequestTargetTypedMatrix.absoluteResult
    split
    · exact yields_error _
    · refine yields_bind fun authority _ => yields_bind fun tail _ => yields_bind fun path _ =>
        yields_ok (shaped_absolute ?_ _ _ _)
      cases scheme
      · exact .inl rfl
      · exact .inr rfl
  · exact yields_error _

theorem validators_shapes (request : RequestLine) :
    Yields Shaped (RequestTargetComposableValidators.normalizeRequestTarget request) := by
  have rendered {form : TargetForm} {scheme : Option (List UInt8)}
      {authority : Option RequestTargetComposableValidators.Authority} {path query : Option (List UInt8)}
      (other : form ≠ .authority) (shapes : ∀ path routing,
        Shaped ⟨form,scheme,authority.map RequestTargetComposableValidators.renderAuthority,path,routing⟩) :
      Yields Shaped (RequestTargetComposableValidators.render ⟨form,scheme,authority,path,query,none⟩) := by
    unfold RequestTargetComposableValidators.render
    dsimp only
    rw [if_neg other]
    split
    · exact yields_error _
    · exact yields_ok (shapes _ _)
  have decomposed : Yields (fun parts => Yields Shaped (RequestTargetComposableValidators.render parts))
      (RequestTargetComposableValidators.validateAndDecompose request) := by
    unfold RequestTargetComposableValidators.validateAndDecompose
    dsimp only
    split
    · split
      · exact yields_ok (yields_ok (shaped_asterisk _ _))
      · exact yields_error _
    · split
      · split
        · exact yields_error _
        · exact yields_bind fun authority _ => yields_ok (yields_ok (shaped_authority _ _ _))
      · split
        · exact yields_bind fun _ _ => yields_bind fun _ _ => yields_ok (rendered (by decide) shaped_origin)
        · split
          · exact yields_error _
          · rename_i length scheme found
            have known : Known scheme := by
              obtain ⟨entry,member,matched⟩ := List.exists_of_findSome?_eq_some found
              simp only [RequestTargetComposableValidators.schemeTable,List.mem_cons,List.not_mem_nil,or_false] at member
              rcases member with rfl | rfl
              · dsimp only at matched
                split at matched
                · cases matched
                  exact .inl rfl
                · cases matched
              · dsimp only at matched
                split at matched
                · cases matched
                  exact .inr rfl
                · cases matched
            exact yields_bind fun authority _ => yields_bind fun _ _ => yields_bind fun _ _ =>
              yields_ok (rendered (by decide) (shaped_absolute known _))
  refine yields_bind fun _ _ => yields_bind fun parts found => ?_
  exact decomposed parts found

theorem normalized_shaped {normalize : RequestLine → Result NormalizedTarget}
    (registered : normalize ∈ requestTargetImplementations) {request : RequestLine} {target : NormalizedTarget}
    (normalized : normalize request = .ok target) : Shaped target := by
  simp only [requestTargetImplementations,List.mem_cons,List.not_mem_nil,or_false] at registered
  rcases registered with rfl | rfl | rfl | rfl | rfl
  · exact rules_shapes request target normalized
  · exact pipeline_shapes request target normalized
  · exact offsets_shapes request target normalized
  · exact typed_shapes request target normalized
  · exact validators_shapes request target normalized

theorem parsed_canonical {parse : List UInt8 → Result HeaderBlock} (registered : parse ∈ headerImplementations)
    {input : List UInt8} {headers : HeaderBlock} (parsed : parse input = .ok headers) : Canonical headers.fields := by
  obtain ⟨lines,rest,-,-,-,-,fields⟩ := (HeaderAgreement.accepted_grammar input headers parse registered).mp parsed
  intro field member
  rw [fields] at member
  obtain ⟨line,-,rfl⟩ := List.mem_map.mp member
  simp only [HeaderAgreement.FieldLine.field,List.map_map]
  apply List.map_congr_left
  intro b _
  exact toAsciiLowercase_idem b

/-- On what the earlier stages return, the implementations agree exactly when the only host is no list of empty members. -/
theorem authority_agreement_iff (normalize : RequestLine → Result NormalizedTarget)
    (normalizer : normalize ∈ requestTargetImplementations) (request : RequestLine) (target : NormalizedTarget)
    (normalized : normalize request = .ok target) (parse : List UInt8 → Result HeaderBlock)
    (parser : parse ∈ headerImplementations) (input : List UInt8) (headers : HeaderBlock)
    (parsed : parse input = .ok headers) :
    (∀ f ∈ authorityImplementations, ∀ g ∈ authorityImplementations, f target headers = g target headers) ↔
      ¬ CommaHost headers.fields := by
  obtain ⟨authority,fallback,shape⟩ := normalized_shaped normalizer normalized
  have canonical := parsed_canonical parser parsed
  have phases := phases_reference shape headers
  constructor
  · intro agreed commas
    obtain ⟨multiple,invalid⟩ := comma_differs shape canonical commas
    have same := agreed AuthorityComposableComponents.reconcileAuthority (by simp [authorityImplementations])
      AuthorityPhases.reconcileAuthority (by simp [authorityImplementations])
    rw [multiple,phases,invalid] at same
    cases same
  · intro other
    have refined : ∀ f ∈ authorityImplementations, f target headers = reference authority fallback headers.fields := by
      intro f registered
      simp only [authorityImplementations,List.mem_cons,List.not_mem_nil,or_false] at registered
      rcases registered with rfl | rfl | rfl | rfl | rfl
      · exact phases
      · exact table_reference shape headers
      · exact composable_reference shape canonical other
      · exact segment_reference shape headers
      · exact algebra_reference shape headers
    intro f fMember g gMember
    rw [refined f fMember,refined g gMember]

def sampleRequest : RequestLine := ⟨ascii "get",ascii "/",.http11,0⟩

def sampleTarget : NormalizedTarget := ⟨.origin,none,none,ascii "/",ascii "/"⟩

theorem authority_agreement_sample :
    HeaderTypedCursor.parseHeaderSection (ascii "Host: Example.Test.:8080\r\n\r\n") =
        .ok ⟨[⟨ascii "host",ascii "Example.Test.:8080"⟩],28⟩ ∧
      ∀ f ∈ authorityImplementations, ∀ g ∈ authorityImplementations,
        f sampleTarget ⟨[⟨ascii "host",ascii "Example.Test.:8080"⟩],28⟩ =
          g sampleTarget ⟨[⟨ascii "host",ascii "Example.Test.:8080"⟩],28⟩ := by
  have parsed : HeaderTypedCursor.parseHeaderSection (ascii "Host: Example.Test.:8080\r\n\r\n") =
      .ok ⟨[⟨ascii "host",ascii "Example.Test.:8080"⟩],28⟩ := by decide +kernel
  refine ⟨parsed,(authority_agreement_iff RequestTargetRules.normalizeRequestTarget
    (by simp [requestTargetImplementations]) sampleRequest sampleTarget (by decide +kernel) HeaderTypedCursor.parseHeaderSection
    (by simp [headerImplementations]) _ _ parsed).mpr ?_⟩
  rintro ⟨value,only,-,commas⟩
  have host : hosts [⟨ascii "host",ascii "Example.Test.:8080"⟩] = [ascii "Example.Test.:8080"] := rfl
  rw [host] at only
  rw [← (List.cons.inj only).1] at commas
  exact absurd commas (by decide)

/-- A host of one comma. -/
theorem authority_disagreement :
    RequestTargetRules.normalizeRequestTarget sampleRequest = .ok sampleTarget ∧
      HeaderTypedCursor.parseHeaderSection (ascii "Host: ,\r\n\r\n") = .ok ⟨[⟨ascii "host",ascii ","⟩],11⟩ ∧
      ¬ ∀ f ∈ authorityImplementations, ∀ g ∈ authorityImplementations,
        f sampleTarget ⟨[⟨ascii "host",ascii ","⟩],11⟩ = g sampleTarget ⟨[⟨ascii "host",ascii ","⟩],11⟩ := by
  refine ⟨by decide +kernel,by decide +kernel,fun agreed => ?_⟩
  have same := agreed AuthorityComposableComponents.reconcileAuthority (by simp [authorityImplementations])
    AuthorityPhases.reconcileAuthority (by simp [authorityImplementations])
  exact absurd same (by decide +kernel)

end Polyguard.AuthorityAgreement

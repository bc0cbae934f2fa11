import Polyguard.Forwarding.Policies
import Polyguard.Forwarding.Scans

/-! Agreement and exactness of the forwarding functions.
For the policies that a request is forwarded under each of them is a scan of the incoming
fields followed by the same four outputs. -/
namespace Polyguard.ForwardingAgreement
open Ascii Slices Decimal Address AuthorityAgreement

section Outputs

/-- The incoming value, when there is one, with a comma and a blank before the new one. -/
def joined (previous : Option (List UInt8)) (addition : List UInt8) : List UInt8 :=
  previous.elim addition fun value => value ++ ascii ", " ++ addition

def bounded (previous : Option (List UInt8)) (addition : List UInt8) : Result (List UInt8) := do
  enforceForwardingLimit (joined previous addition).length
  .ok (joined previous addition)

local instance four_slots : NeZero 4 := ⟨by decide⟩

/-- The four outputs, each within the limit. -/
def emit (held : Held) (added : Slots (List UInt8)) : Result ForwardingResult := do
  let forwarded ← bounded (held 0) (added 0)
  let xForwardedFor ← bounded (held 1) (added 1)
  let xForwardedProto ← bounded (held 2) (added 2)
  let xForwardedHost ← bounded (held 3) (added 3)
  .ok ⟨forwarded,xForwardedFor,xForwardedProto,xForwardedHost⟩

def additions (address : IpAddr) (policy : ForwardingPolicy) : Slots (List UInt8) :=
  ![hop address policy,policy.clientIp,policy.proto,policy.host]

/-- What the scan with a step leaves, when the incoming fields are trusted. -/
def incoming (step : Held → HeaderField → Result Held) (policy : ForwardingPolicy) (headers : HeaderBlock) : Result Held :=
  if policy.trustIncoming then headers.fields.foldlM step noneHeld else .ok noneHeld

/-- What a forwarding function with this step computes. -/
def reference (step : Held → HeaderField → Result Held) (address : IpAddr) (policy : ForwardingPolicy) (headers : HeaderBlock) :
    Result ForwardingResult := incoming step policy headers >>= fun held => emit held (additions address policy)

theorem joined_length (previous : Option (List UInt8)) (addition : List UInt8) : (joined previous addition).length =
    previous.elim addition.length fun value => value.length + 2 + addition.length := by
  cases previous with
  | none => rfl
  | some value =>
    have separator : (ascii ", ").length = 2 := by decide
    simp [joined,separator,Nat.add_assoc]

/-- The held values are texts. -/
def Texts (held : Held) : Prop := ∀ slot, ∀ value ∈ held slot, Utf8.fromUtf8 value = some value

theorem texts_none : Texts noneHeld := fun _ _ impossible => by cases impossible

theorem acceptable_text {value : List UInt8} (acceptable : Acceptable value) : Utf8.fromUtf8 value = some value := by
  unfold Utf8.fromUtf8
  refine if_pos (Utf8.valid_of_ascii fun b member => ?_)
  exact forall_byte (p := fun b => isPrintable b = true → isAscii b = true) (by decide) b
    (List.all_eq_true.mp acceptable.printable b member)

theorem clean_texts {lookup : List UInt8 → Option (Fin 4)} {fields : List HeaderField} (clean : Clean lookup fields) :
    Texts (heldBy lookup fields) := by
  intro slot value held
  obtain ⟨field,found,rfl⟩ := Option.map_eq_some_iff.mp held
  have placed := List.find?_some found
  rw [beq_iff_eq] at placed
  exact acceptable_text (clean.values field (List.mem_of_find?_eq_some found) (by rw [placed]; rfl))

theorem scanned_texts {lookup : List UInt8 → Option (Fin 4)} {fields : List HeaderField} {held : Held}
    (ran : fields.foldlM (strictStep lookup) noneHeld = .ok held) : Texts held := by
  obtain ⟨clean,rfl⟩ := (strict_ok lookup fields held).mp ran
  exact clean_texts clean

theorem reference_untrusted {step : Held → HeaderField → Result Held} {address : IpAddr} {policy : ForwardingPolicy}
    {headers : HeaderBlock} (untrusted : policy.trustIncoming = false) :
    reference step address policy headers = emit noneHeld (additions address policy) := by
  unfold reference incoming
  rw [untrusted,if_neg Bool.false_ne_true,bind_ok]

theorem reference_trusted {step : Held → HeaderField → Result Held} {address : IpAddr} {policy : ForwardingPolicy}
    {headers : HeaderBlock} (trusted : policy.trustIncoming = true) {next : Held → Result ForwardingResult}
    (texts : ∀ held, headers.fields.foldlM step noneHeld = .ok held → Texts held)
    (emits : ∀ held, Texts held → next held = emit held (additions address policy)) :
    (headers.fields.foldlM step noneHeld >>= next) = reference step address policy headers := by
  unfold reference incoming
  rw [trusted,if_pos rfl]
  exact bind_congr_ok fun held ran => emits held (texts held ran)

theorem reference_meaning {σ : Type} {scan : Result σ} {meaning : σ → Held} {step : Held → HeaderField → Result Held}
    {address : IpAddr} {policy : ForwardingPolicy} {headers : HeaderBlock} (trusted : policy.trustIncoming = true)
    (same : scan.map meaning = headers.fields.foldlM step noneHeld) {next : σ → Result ForwardingResult}
    (texts : ∀ held, headers.fields.foldlM step noneHeld = .ok held → Texts held)
    (emits : ∀ state, Texts (meaning state) → next state = emit (meaning state) (additions address policy)) :
    (scan >>= next) = reference step address policy headers := by
  rw [← reference_trusted trusted texts fun _ _ => rfl]
  cases scan with
  | error error =>
    rw [← same]
    rfl
  | ok state =>
    rw [← same]
    exact emits state (texts (meaning state) same.symm)

theorem emit_checks (held : Held) (added : Slots (List UInt8)) : emit held added = (do
    enforceForwardingLimit (joined (held 0) (added 0)).length
    enforceForwardingLimit (joined (held 1) (added 1)).length
    enforceForwardingLimit (joined (held 2) (added 2)).length
    enforceForwardingLimit (joined (held 3) (added 3)).length
    .ok ⟨joined (held 0) (added 0),joined (held 1) (added 1),joined (held 2) (added 2),joined (held 3) (added 3)⟩) := by
  unfold emit bounded
  simp only [bind_assoc,bind_ok]

theorem bounded_ok {previous : Option (List UInt8)} {addition value : List UInt8} (accepted : bounded previous addition = .ok value) :
    value = joined previous addition ∧ enforceForwardingLimit value.length = .ok () := by
  obtain ⟨_,short,same⟩ := bind_success accepted
  cases same
  exact ⟨rfl,short⟩

theorem finRange_four : List.finRange 4 = [0,1,2,3] := rfl

theorem forM_four (check : Fin 4 → Result Unit) : [0,1,2,3].forM check = (do
    check 0
    check 1
    check 2
    check 3) := by
  change (check 0 >>= fun _ => check 1 >>= fun _ => check 2 >>= fun _ => check 3 >>= fun _ => .ok ()) = _
  refine bind_congr_ok fun _ _ => bind_congr_ok fun _ _ => bind_congr_ok fun _ _ => ?_
  cases check 3 <;> rfl

/-- The first row that a name hits in a table of the four names is that of its place. -/
theorem find_slot {ρ : Type} (row : Slots ρ) {name : List UInt8} {hits : ρ → Bool}
    (same : ∀ slot, hits (row slot) = (name == slotName slot)) :
    [row 0,row 1,row 2,row 3].find? hits = (exactSlot name).map row := by
  unfold exactSlot ForwardingPrimitiveBoundary.fieldSlot
  by_cases first : name = ascii "forwarded"
  · rw [List.find?_cons_of_pos (by rw [same,first]; rfl),if_pos first]
    rfl
  · rw [List.find?_cons_of_neg (by rw [same]; exact fun hit => first (beq_iff_eq.mp hit)),if_neg first]
    by_cases second : name = ascii "x-forwarded-for"
    · rw [List.find?_cons_of_pos (by rw [same,second]; rfl),if_pos second]
      rfl
    · rw [List.find?_cons_of_neg (by rw [same]; exact fun hit => second (beq_iff_eq.mp hit)),if_neg second]
      by_cases third : name = ascii "x-forwarded-proto"
      · rw [List.find?_cons_of_pos (by rw [same,third]; rfl),if_pos third]
        rfl
      · rw [List.find?_cons_of_neg (by rw [same]; exact fun hit => third (beq_iff_eq.mp hit)),if_neg third]
        by_cases fourth : name = ascii "x-forwarded-host"
        · rw [List.find?_cons_of_pos (by rw [same,fourth]; rfl),if_pos fourth]
          rfl
        · rw [List.find?_cons_of_neg (by rw [same]; exact fun hit => fourth (beq_iff_eq.mp hit)),if_neg fourth]
          rfl

theorem foldlM_meaning {σ τ α : Type} {step : σ → α → Result σ} {step' : τ → α → Result τ} (meaning : σ → τ)
    (each : ∀ state item, (step state item).map meaning = step' (meaning state) item) (items : List α) (state : σ) :
    (items.foldlM step state).map meaning = items.foldlM step' (meaning state) := by
  induction items generalizing state with
  | nil => rfl
  | cons item items ih =>
    rw [List.foldlM_cons,List.foldlM_cons,← each]
    cases step state item with
    | error error => rfl
    | ok next => exact ih next

/-- The bytes around the address in its node. -/
def quoting : IpAddr → Nat
  | .v4 _ _ _ => 0
  | .v6 _ _ _ => 4

theorem hop_ready {address : IpAddr} {policy : ForwardingPolicy} (served : Served address policy) :
    enforceForwardingLimit (19 + quoting address + address.display.length + policy.proto.length + policy.host.length) = .ok () := by
  have short := served.short.1
  have noded : (node address).length = quoting address + address.display.length := by
    cases address with
    | v4 octets four small => exact (Nat.zero_add _).symm
    | v6 segments eight small =>
      have quotes : (ascii "\"[").length = 2 ∧ (ascii "]\"").length = 2 := by decide
      change (ascii "\"[" ++ _ ++ ascii "]\"").length = 4 + _
      rw [List.length_append,List.length_append]
      omega
  rw [hop_length,noded] at short
  exact enforce_ok.mpr (by omega)

end Outputs

section Table
open ForwardingDecisionTable

theorem table_output {transition : Transition} {previous : Option (List UInt8)} (addition : List UInt8)
    (text : ∀ value ∈ previous, Utf8.fromUtf8 value = some value) (extending : transition = .extend ∨ previous = none) :
    transitionValue transition previous addition = bounded previous addition := by
  unfold transitionValue bounded
  rw [joined_length]
  rcases extending with rfl | rfl
  · cases previous with
    | none => rfl
    | some value =>
      dsimp only
      rw [text value rfl]
      rfl
  · cases transition <;> rfl

theorem table_emit {held : Held} (texts : Texts held) (added : Slots (List UInt8)) {transition : Transition}
    (extending : transition = .extend ∨ held = noneHeld) :
    (fieldRules.foldlM (fun outputs rule => do
      let value ← transitionValue transition (held rule.slot) (added rule.slot)
      .ok (Slots.put outputs rule.slot value)) (fun _ => []) >>= fun outputs : Slots (List UInt8) =>
        (.ok ⟨outputs 0,outputs 1,outputs 2,outputs 3⟩ : Result ForwardingResult)) = emit held added := by
  have each (slot : Fin 4) : transitionValue transition (held slot) (added slot) = bounded (held slot) (added slot) :=
    table_output _ (texts slot) (extending.imp_right fun none => by rw [none]; rfl)
  unfold fieldRules emit
  simp only [List.foldlM_cons,List.foldlM_nil,each]
  cases bounded (held 0) (added 0) with
  | error error => rfl
  | ok forwarded =>
    cases bounded (held 1) (added 1) with
    | error error => rfl
    | ok xForwardedFor =>
      cases bounded (held 2) (added 2) with
      | error error => rfl
      | ok xForwardedProto =>
        cases bounded (held 3) (added 3) with
        | error error => rfl
        | ok xForwardedHost => rfl

theorem table_find (name : List UInt8) : (fieldRules.find? fun rule => name == rule.name) =
    (exactSlot name).map fun slot => ⟨slotName slot,slot⟩ :=
  find_slot (fun slot => (⟨slotName slot,slot⟩ : FieldRule)) fun _ => rfl

theorem table_scan (held : Held) (field : HeaderField) : collectField held field = strictStep exactSlot held field := by
  unfold collectField strictStep
  rw [table_find]
  cases exactSlot field.name with
  | none => rfl
  | some slot =>
    dsimp only [Option.map_some]
    rw [table_value]

theorem table_hop {address : IpAddr} {policy : ForwardingPolicy} (served : Served address policy) :
    renderForwardedHop (parts address) policy.proto policy.host = .ok (hop address policy) := by
  obtain ⟨escaped,none⟩ := escape_rendered served.host
  have ready := enforce_ok.mpr served.short.1
  rw [hop_length] at ready
  unfold renderForwardedHop
  rw [escaped,none]
  cases address with
  | v4 octets four small =>
    change (enforceForwardingLimit (19 + (node (.v4 octets four small)).length + policy.proto.length + policy.host.length) >>=
      fun _ => _) = _
    rw [ready]
    rfl
  | v6 segments eight small =>
    change (enforceForwardingLimit (19 + (node (.v6 segments eight small)).length + policy.proto.length + policy.host.length) >>=
      fun _ => _) = _
    rw [ready]
    rfl

theorem table_reference {address : IpAddr} {policy : ForwardingPolicy} (served : Served address policy) (headers : HeaderBlock) :
    applyForwardingPolicy policy headers = reference (strictStep exactSlot) address policy headers := by
  have steps : collectField = strictStep exactSlot := funext fun held => funext fun field => table_scan held field
  have added : ![hop address policy,addressString (parts address),policy.proto,policy.host] = additions address policy := by
    rw [display_string,← served.client]
    rfl
  unfold applyForwardingPolicy
  rw [served.client,table_client address,bind_ok,validateProto,served.scheme,if_pos rfl,bind_ok,table_host served.host,bind_ok]
  cases trusted : policy.trustIncoming with
  | false =>
    rw [reference_untrusted trusted]
    simp only [Bool.false_eq_true,if_false,bind_ok,table_hop served,added]
    exact table_emit texts_none _ (.inr rfl)
  | true =>
    rw [← reference_trusted trusted (fun held => scanned_texts) fun held texts => table_emit texts _ (.inl rfl)]
    simp only [if_true,table_hop served,bind_ok,added,collectTrustedValues,steps]
    rfl

end Table

section Direct
open ForwardingDirectMatch

def priorHeld (prior : PriorValues) : Held := ![prior.forwarded,prior.xFor,prior.xProto,prior.xHost]

theorem direct_step (prior : PriorValues) (field : HeaderField) :
    (inspectField prior field).map priorHeld = strictStep exactSlot (priorHeld prior) field := by
  have stored {slot : Fin 4} {put : Option (List UInt8) → PriorValues}
      (puts : ∀ value, priorHeld (put value) = (priorHeld prior).put slot value) :
      (store (priorHeld prior slot) field.value put).map priorHeld =
        if (priorHeld prior slot).isSome then invalidForwardingInput else (do
          acceptValue field.value
          .ok ((priorHeld prior).put slot (some field.value))) := by
    cases priorHeld prior slot with
    | some value => rfl
    | none =>
      unfold store
      rw [direct_value,← puts]
      cases acceptValue field.value <;> rfl
  unfold inspectField strictStep exactSlot ForwardingPrimitiveBoundary.fieldSlot
  split
  · exact @stored 0 _ fun value => slots_ext rfl rfl rfl rfl
  · split
    · exact @stored 1 _ fun value => slots_ext rfl rfl rfl rfl
    · split
      · exact @stored 2 _ fun value => slots_ext rfl rfl rfl rfl
      · split
        · exact @stored 3 _ fun value => slots_ext rfl rfl rfl rfl
        · rfl

theorem prior_none : priorHeld ⟨none,none,none,none⟩ = noneHeld := slots_ext rfl rfl rfl rfl

theorem direct_length (previous : Option (List UInt8)) (addition : List UInt8) : combinedLen previous addition.length = (do
    enforceForwardingLimit (joined previous addition).length
    .ok (joined previous addition).length) := by
  unfold combinedLen
  rw [joined_length]
  cases previous <;> rfl

theorem direct_combine {previous : Option (List UInt8)} (addition : List UInt8)
    (text : ∀ value ∈ previous, Utf8.fromUtf8 value = some value) : combine previous addition = .ok (joined previous addition) := by
  unfold combine
  cases previous with
  | none => rfl
  | some value =>
    dsimp only
    rw [text value rfl]
    rfl

theorem direct_emit {prior : PriorValues} (texts : Texts (priorHeld prior)) (forwarded client proto host : List UInt8) :
    (do
      let _ ← combinedLen prior.forwarded forwarded.length
      let _ ← combinedLen prior.xFor client.length
      let _ ← combinedLen prior.xProto proto.length
      let _ ← combinedLen prior.xHost host.length
      let forwarded ← combine prior.forwarded forwarded
      let xForwardedFor ← combine prior.xFor client
      let xForwardedProto ← combine prior.xProto proto
      let xForwardedHost ← combine prior.xHost host
      .ok ⟨forwarded,xForwardedFor,xForwardedProto,xForwardedHost⟩ : Result ForwardingResult) =
      emit (priorHeld prior) ![forwarded,client,proto,host] := by
  have first : ∀ value ∈ prior.forwarded, Utf8.fromUtf8 value = some value := texts 0
  have second : ∀ value ∈ prior.xFor, Utf8.fromUtf8 value = some value := texts 1
  have third : ∀ value ∈ prior.xProto, Utf8.fromUtf8 value = some value := texts 2
  have fourth : ∀ value ∈ prior.xHost, Utf8.fromUtf8 value = some value := texts 3
  rw [emit_checks]
  simp only [direct_length,direct_combine _ first,direct_combine _ second,direct_combine _ third,direct_combine _ fourth,
    bind_assoc,bind_ok]
  rfl

theorem direct_hop {address : IpAddr} {policy : ForwardingPolicy} (served : Served address policy) :
    canonicalHop policy (clientFamily address) = .ok (hop address policy) := by
  obtain ⟨escaped,none⟩ := escape_rendered served.host
  have ready := hop_ready served
  unfold canonicalHop hop
  rw [escaped,none,served.client]
  cases address with
  | v4 octets four small =>
    change (enforceForwardingLimit (19 + quoting (.v4 octets four small) + _ + _ + _) >>= fun _ => _) = _
    rw [ready]
    rfl
  | v6 segments eight small =>
    change (enforceForwardingLimit (19 + quoting (.v6 segments eight small) + _ + _ + _) >>= fun _ => _) = _
    rw [ready]
    rfl

theorem direct_reference {address : IpAddr} {policy : ForwardingPolicy} (served : Served address policy) (headers : HeaderBlock) :
    applyForwardingPolicy policy headers = reference (strictStep exactSlot) address policy headers := by
  have listener : validateListenerValues policy = .ok (clientFamily address) := by
    unfold validateListenerValues
    rw [served.client,direct_client address,bind_ok,served.scheme,if_pos rfl,bind_ok,direct_host served.host,bind_ok]
  unfold applyForwardingPolicy
  rw [listener,bind_ok]
  cases trusted : policy.trustIncoming with
  | false =>
    rw [reference_untrusted trusted]
    simp only [Bool.false_eq_true,if_false,bind_ok,direct_hop served]
    rw [← prior_none]
    exact direct_emit (prior_none ▸ texts_none) _ _ _ _
  | true =>
    simp only [if_true,direct_hop served,bind_ok]
    exact reference_meaning trusted (prior_none ▸ foldlM_meaning priorHeld direct_step headers.fields _) (fun held => scanned_texts)
      fun prior texts => direct_emit texts _ _ _ _

end Direct

section Transition
open ForwardingTransitionModel

theorem transition_slot (name : List UInt8) : lookupSlot name = foldedSlot name := by
  have found := @find_slot _ (fun slot => (slotName slot,slot)) (name.map toAsciiLowercase)
    (fun candidate => eqIgnoreAsciiCase name candidate.1) fun slot => by
      match slot with
      | 0 | 1 | 2 | 3 => rfl
  unfold lookupSlot foldedSlot
  change (List.find? _ [(slotName 0,0),(slotName 1,1),(slotName 2,2),(slotName 3,3)]).map _ = _
  rw [found,Option.map_map]
  exact congrFun Option.map_id _

theorem transition_step (held : Held) (field : HeaderField) : scanField held field = eagerStep foldedSlot held field := by
  unfold scanField eagerStep
  rw [transition_slot]
  cases foldedSlot field.name with
  | none => rfl
  | some slot =>
    dsimp only
    rw [transition_value]
    refine bind_congr_ok fun _ _ => ?_
    cases (held slot).isSome <;> rfl

theorem transition_output {held : Held} {output added : Slots (List UInt8)} {slot : Fin 4}
    (text : ∀ value ∈ held slot, Utf8.fromUtf8 value = some value) (unset : output slot = added slot) :
    extendOutput held output slot = (do
      let value ← bounded (held slot) (added slot)
      .ok (Slots.put output slot value)) := by
  unfold extendOutput bounded appendValue
  rw [unset,joined_length]
  cases found : held slot with
  | none =>
    have kept : Slots.put output slot (joined none (added slot)) = output := by
      unfold Slots.put
      rw [show joined none (added slot) = output slot from unset.symm,Function.update_eq_self]
    simp only [bind_assoc,bind_ok,kept]
    rfl
  | some value =>
    dsimp only
    rw [text value found]
    simp only [bind_assoc,bind_ok]
    rfl

theorem transition_values {values : Slots (List UInt8)} (short : ∀ slot, enforceForwardingLimit (values slot).length = .ok ()) :
    resultFromValues values = .ok ⟨values 0,values 1,values 2,values 3⟩ := by
  unfold resultFromValues
  rw [finRange_four]
  simp only [short]
  rfl

theorem transition_emit {held : Held} (texts : Texts held) (added : Slots (List UInt8)) :
    ((List.finRange 4).foldlM (extendOutput held) added >>= resultFromValues) = emit held added := by
  rw [finRange_four]
  unfold emit
  simp only [List.foldlM_cons,List.foldlM_nil]
  rw [transition_output (texts 0) rfl]
  cases first : bounded (held 0) (added 0) with
  | error error => rfl
  | ok forwarded =>
    rw [bind_ok,bind_ok,bind_ok,transition_output (texts 1) (put_other _ _ (by decide))]
    cases second : bounded (held 1) (added 1) with
    | error error => rfl
    | ok xForwardedFor =>
      rw [bind_ok,bind_ok,bind_ok,transition_output (texts 2) (by rw [put_other _ _ (by decide),put_other _ _ (by decide)])]
      cases third : bounded (held 2) (added 2) with
      | error error => rfl
      | ok xForwardedProto =>
        rw [bind_ok,bind_ok,bind_ok,transition_output (texts 3) (by
          rw [put_other _ _ (by decide),put_other _ _ (by decide),put_other _ _ (by decide)])]
        cases fourth : bounded (held 3) (added 3) with
        | error error => rfl
        | ok xForwardedHost =>
          refine transition_values fun slot => ?_
          match slot with
          | 0 => exact (bounded_ok first).2
          | 1 => exact (bounded_ok second).2
          | 2 => exact (bounded_ok third).2
          | 3 => exact (bounded_ok fourth).2

theorem transition_hop {address : IpAddr} {policy : ForwardingPolicy} (served : Served address policy) :
    formatForwardedHop (clientAddress address) policy.proto policy.host = hop address policy := by
  unfold formatForwardedHop hop
  rw [(escape_rendered served.host).1]
  cases address with
  | v4 octets four small => rfl
  | v6 segments eight small =>
    have opened : ascii "for=\"[" = ascii "for=" ++ ascii "\"[" := by decide
    simp [clientAddress,node,IpAddr.display,opened]

theorem transition_reference {address : IpAddr} {policy : ForwardingPolicy} (served : Served address policy) (headers : HeaderBlock) :
    applyForwardingPolicy policy headers = reference (eagerStep foldedSlot) address policy headers := by
  have steps : scanField = eagerStep foldedSlot := funext fun held => funext fun field => transition_step held field
  have added : ![formatForwardedHop (clientAddress address) policy.proto policy.host,policy.clientIp,policy.proto,policy.host] =
      additions address policy := by
    rw [transition_hop served]
    rfl
  have client := transition_client address
  rw [← served.client] at client
  unfold applyForwardingPolicy
  rw [client,bind_ok,validateProto,served.scheme,if_pos rfl,bind_ok,transition_host served.host,bind_ok]
  dsimp only
  rw [added,steps]
  cases trusted : policy.trustIncoming with
  | false =>
    rw [reference_untrusted trusted,← transition_emit texts_none,finRange_four]
    have short : ∀ slot, enforceForwardingLimit ((additions address policy) slot).length = .ok () := by
      obtain ⟨hopped,client,proto,host⟩ := served.short
      intro slot
      match slot with
      | 0 => exact enforce_ok.mpr hopped
      | 1 => exact enforce_ok.mpr client
      | 2 => exact enforce_ok.mpr proto
      | 3 => exact enforce_ok.mpr host
    have kept (slot : Fin 4) : extendOutput noneHeld (additions address policy) slot = .ok (additions address policy) := by
      unfold extendOutput
      change (enforceForwardingLimit ((additions address policy) slot).length >>= fun _ => _) = _
      rw [short slot]
      rfl
    simp only [List.foldlM_cons,List.foldlM_nil,kept,bind_ok]
    rfl
  | true =>
    exact reference_trusted trusted (fun held ran => scanned_texts ((eager_strict foldedSlot _ _ _).mp ran)) fun held texts =>
      transition_emit texts _

end Transition

section Central
open ForwardingCentralTransition

theorem central_find (name : List UInt8) : (forwardingHeaders.find? fun rule => name == rule.name) =
    (exactSlot name).map fun slot => ⟨slotName slot,slot⟩ :=
  find_slot (fun slot => (⟨slotName slot,slot⟩ : HeaderRule)) fun _ => rfl

theorem central_step (held : Held) (field : HeaderField) : collectField held field = eagerStep exactSlot held field := by
  unfold collectField eagerStep
  rw [central_find]
  cases exactSlot field.name with
  | none => rfl
  | some slot =>
    dsimp only [Option.map_some]
    rw [central_value]
    refine bind_congr_ok fun _ accepted => ?_
    rw [acceptable_text (acceptValue_ok.mp accepted)]

theorem central_output (previous : Option (List UInt8)) (canonical : List UInt8) :
    transitionValue previous canonical = bounded previous canonical := by
  unfold transitionValue bounded
  rw [joined_length]
  cases previous <;> rfl

theorem central_emit {held : Held} {state : BoundaryState} (boundary : state = .extend held ∨ state = .replace ∧ held = noneHeld)
    (added : Slots (List UInt8)) : (boundaryOutputs added state >>= fun outputs => match outputs with
      | [forwarded,xForwardedFor,xForwardedProto,xForwardedHost] =>
        .ok ⟨forwarded,xForwardedFor,xForwardedProto,xForwardedHost⟩
      | _ => invalidForwardingInput : Result ForwardingResult) = emit held added := by
  have outputs : boundaryOutputs added state = (List.finRange 4).mapM fun index => bounded (held index) (added index) := by
    rcases boundary with rfl | ⟨rfl,rfl⟩
    · exact congrArg (List.mapM · (List.finRange 4)) (funext fun index => central_output _ _)
    · rfl
  rw [outputs,finRange_four]
  unfold emit
  simp only [List.mapM_cons,List.mapM_nil,bind_assoc,pure_result,bind_ok]

theorem central_hop {address : IpAddr} {policy : ForwardingPolicy} (served : Served address policy) :
    canonicalFor (parts address) policy.clientIp ++ ascii ";proto=" ++ policy.proto ++ ascii ";host=" ++ quoteHost policy.host =
      hop address policy := by
  unfold quoteHost hop
  rw [(escape_rendered served.host).1,served.client]
  have quoted : ascii ";host=\"" = ascii ";host=" ++ [0x22] := by decide
  have closed : ascii "\"" = [0x22] := by decide
  cases address with
  | v4 octets four small => simp [canonicalFor,parts,node,quoted,closed]
  | v6 segments eight small =>
    have opened : ascii "for=\"[" = ascii "for=" ++ ascii "\"[" := by decide
    simp [canonicalFor,parts,node,opened,quoted,closed]

theorem central_reference {address : IpAddr} {policy : ForwardingPolicy} (served : Served address policy) (headers : HeaderBlock) :
    applyForwardingPolicy policy headers = reference (eagerStep exactSlot) address policy headers := by
  have steps : collectField = eagerStep exactSlot := funext fun held => funext fun field => central_step held field
  have client := central_client address
  rw [← served.client] at client
  unfold applyForwardingPolicy
  rw [client,bind_ok,validateProto,served.scheme,if_pos rfl,bind_ok,central_host served.host,bind_ok]
  dsimp only
  rw [central_hop served,boundaryState]
  cases trusted : policy.trustIncoming with
  | false =>
    rw [reference_untrusted trusted,if_neg Bool.false_ne_true,bind_ok]
    exact central_emit (.inr ⟨rfl,rfl⟩) _
  | true =>
    rw [if_pos rfl,collectForwardingHeaders,steps,← reference_trusted trusted
      (fun held ran => scanned_texts ((eager_strict exactSlot _ _ _).mp ran)) fun held _ => central_emit (.inl rfl) _]
    change (Except.map BoundaryState.extend (headers.fields.foldlM (eagerStep exactSlot) noneHeld) >>= _) = _
    cases headers.fields.foldlM (eagerStep exactSlot) noneHeld <;> rfl

end Central

section Primitive
open ForwardingPrimitiveBoundary

/-- The values at the positions of some fields. -/
def positionHeld (headers : HeaderBlock) (positions : Slots (Option Nat)) : Held := fun slot =>
  (positions slot).map (oldValue headers)

theorem primitive_step {headers : HeaderBlock} {field : HeaderField} {index : Nat} (here : oldValue headers index = field.value)
    (positions : Slots (Option Nat)) : (positionField positions (field,index)).map (positionHeld headers) =
      eagerStep exactSlot (positionHeld headers positions) field := by
  unfold positionField eagerStep exactSlot
  dsimp only
  cases fieldSlot field.name with
  | none => rfl
  | some slot =>
    dsimp only
    have taken : (positionHeld headers positions slot).isSome = (positions slot).isSome := Option.isSome_map
    have put : positionHeld headers (positions.put slot (some index)) = (positionHeld headers positions).put slot (some field.value) := by
      funext other
      by_cases same : other = slot
      · subst same
        rw [put_same,positionHeld,put_same,Option.map_some,here]
      · rw [put_other _ _ same,positionHeld,put_other _ _ same]
        rfl
    rw [primitive_value,taken,← put]
    cases acceptValue field.value with
    | error error => rfl
    | ok _ => cases (positions slot).isSome <;> rfl

theorem primitive_scan (headers : HeaderBlock) (later : List HeaderField) : ∀ (earlier : List HeaderField)
    (positions : Slots (Option Nat)), headers.fields = earlier ++ later →
      ((later.zipIdx earlier.length).foldlM positionField positions).map (positionHeld headers) =
        later.foldlM (eagerStep exactSlot) (positionHeld headers positions) := by
  induction later with
  | nil => exact fun _ _ _ => rfl
  | cons field later ih =>
    intro earlier positions whole
    have here : oldValue headers earlier.length = field.value := by
      unfold oldValue
      rw [whole,List.getElem?_append_right (Nat.le_refl _),Nat.sub_self]
      rfl
    rw [List.zipIdx_cons,List.foldlM_cons,List.foldlM_cons,← primitive_step here]
    cases positionField positions (field,earlier.length) with
    | error error => rfl
    | ok next =>
      have rest := ih (earlier ++ [field]) next (by rw [whole,List.append_assoc]; rfl)
      rw [List.length_append,List.length_singleton] at rest
      exact rest

theorem primitive_size (position : Option Nat) (addition : List UInt8) (headers : HeaderBlock) :
    outputSize position addition.length headers = (do
      enforceForwardingLimit (joined (position.map (oldValue headers)) addition).length
      .ok (joined (position.map (oldValue headers)) addition).length) := by
  unfold outputSize
  rw [joined_length]
  cases position <;> rfl

theorem primitive_write {position : Option Nat} (addition : List UInt8) {headers : HeaderBlock}
    (text : ∀ value ∈ position.map (oldValue headers), Utf8.fromUtf8 value = some value) :
    writeOutput position addition headers = .ok (joined (position.map (oldValue headers)) addition) := by
  unfold writeOutput
  cases position with
  | none => rfl
  | some index =>
    dsimp only
    rw [text (oldValue headers index) rfl]
    rfl

theorem primitive_emit {headers : HeaderBlock} {positions : Slots (Option Nat)} (texts : Texts (positionHeld headers positions))
    (added : Slots (List UInt8)) :
    (do
      (List.finRange 4).forM fun index => do
        let _ ← outputSize (positions index) (added index).length headers
        .ok ()
      let forwarded ← writeOutput (positions 0) (added 0) headers
      let xForwardedFor ← writeOutput (positions 1) (added 1) headers
      let xForwardedProto ← writeOutput (positions 2) (added 2) headers
      let xForwardedHost ← writeOutput (positions 3) (added 3) headers
      .ok ⟨forwarded,xForwardedFor,xForwardedProto,xForwardedHost⟩ : Result ForwardingResult) =
      emit (positionHeld headers positions) added := by
  rw [emit_checks,finRange_four]
  simp only [primitive_write _ (texts 0),primitive_write _ (texts 1),primitive_write _ (texts 2),primitive_write _ (texts 3),
    primitive_size,forM_four,bind_assoc,bind_ok]
  rfl

theorem primitive_hop {address : IpAddr} {policy : ForwardingPolicy} (served : Served address policy) :
    makeHop policy (ipFamily address) = .ok (hop address policy) := by
  have plain := rendered_unquoted served.host
  have ready := hop_ready served
  have host : (policy.host.flatMap fun byte => if isQuotedByte byte then 0x5c :: charFrom byte else charFrom byte) = policy.host := by
    rw [List.flatMap_congr fun b member => by
      rw [plain b member,if_neg Bool.false_ne_true,charFrom_ascii (forall_byte
        (p := fun b => RequestTarget.isAuthorityByte b → isAscii b) (by decide) b (served.host.inside b member))]]
    exact List.flatMap_singleton' policy.host
  unfold makeHop hop
  dsimp only
  rw [host,(escape_rendered served.host).2,served.client]
  cases address with
  | v4 octets four small =>
    change (enforceForwardingLimit (19 + quoting (.v4 octets four small) + _ + _ + _) >>= fun _ => _) = _
    rw [ready]
    rfl
  | v6 segments eight small =>
    change (enforceForwardingLimit (19 + quoting (.v6 segments eight small) + _ + _ + _) >>= fun _ => _) = _
    rw [ready]
    rfl

theorem primitive_reference {address : IpAddr} {policy : ForwardingPolicy} (served : Served address policy) (headers : HeaderBlock) :
    applyForwardingPolicy policy headers = reference (eagerStep exactSlot) address policy headers := by
  have accepted : validatePolicy policy = .ok (ipFamily address) := by
    unfold validatePolicy
    rw [served.client,primitive_client address,bind_ok,served.scheme,if_pos rfl,bind_ok,primitive_host served.host,bind_ok]
  have scanned := primitive_scan headers headers.fields [] (fun _ => none) rfl
  unfold applyForwardingPolicy
  rw [accepted,bind_ok]
  cases trusted : policy.trustIncoming with
  | false =>
    rw [reference_untrusted trusted]
    simp only [Bool.false_eq_true,if_false,bind_ok,primitive_hop served]
    exact @primitive_emit headers (fun _ => none) texts_none _
  | true =>
    simp only [if_true,primitive_hop served,bind_ok]
    exact reference_meaning trusted scanned (fun held ran => scanned_texts ((eager_strict exactSlot _ _ _).mp ran))
      fun positions texts => primitive_emit texts _

end Primitive

section Laws

theorem canonical_scan {fields : List HeaderField} (canonical : Canonical fields) (held : Held) :
    fields.foldlM (eagerStep foldedSlot) held = fields.foldlM (eagerStep exactSlot) held := by
  induction fields generalizing held with
  | nil => rfl
  | cons field fields ih =>
    have lower : foldedSlot field.name = exactSlot field.name := congrArg exactSlot (canonical field List.mem_cons_self)
    have step : eagerStep foldedSlot held field = eagerStep exactSlot held field := by
      unfold eagerStep
      rw [lower]
    rw [List.foldlM_cons,List.foldlM_cons,step]
    exact bind_congr_ok fun next _ => ih (fun other member => canonical other (List.mem_cons_of_mem field member)) next

theorem canonical_reference {address : IpAddr} {policy : ForwardingPolicy} {headers : HeaderBlock}
    (canonical : Canonical headers.fields) :
    reference (eagerStep foldedSlot) address policy headers = reference (eagerStep exactSlot) address policy headers := by
  unfold reference incoming
  rw [canonical_scan canonical]

theorem bind_parts {α β : Type} {first second : Result α} (same : ∀ value, first = .ok value ↔ second = .ok value)
    (next : α → Result β) : (first >>= next) = (second >>= next) ↔ first = second := by
  cases first with
  | ok value =>
    rw [(same value).mp rfl]
    exact iff_of_true rfl rfl
  | error raised =>
    cases second with
    | ok value => cases (same value).mpr rfl
    | error other =>
      rw [bind_error,bind_error,Except.error.injEq,Except.error.injEq]

theorem reference_agree (address : IpAddr) (policy : ForwardingPolicy) (headers : HeaderBlock) :
    reference (strictStep exactSlot) address policy headers = reference (eagerStep exactSlot) address policy headers ↔
      ¬ (policy.trustIncoming = true ∧ LongRepetition exactSlot headers.fields) := by
  unfold reference incoming
  cases policy.trustIncoming with
  | false => exact iff_of_true rfl fun both => absurd both.1 Bool.false_ne_true
  | true =>
    rw [if_pos rfl,if_pos rfl,bind_parts fun value => (eager_strict exactSlot headers.fields noneHeld value).symm,scans_agree,
      not_and]
    exact ⟨fun short _ => short,fun short => short rfl⟩

/-- A policy for a client address and an effective authority. -/
structure PolicyFor (address : IpAddr) (authority : EffectiveAuthority) (policy : ForwardingPolicy) : Prop where
  client : policy.clientIp = address.display
  scheme : isHttpScheme policy.proto = true
  host : policy.host = Proxy.authorityString authority

theorem forwardingPolicy_for (gateway : Proxy.Gateway) (client : Proxy.Client) (authority : EffectiveAuthority) :
    PolicyFor client.address authority (Proxy.forwardingPolicy gateway client authority) := by
  refine ⟨rfl,?_,rfl⟩
  change isHttpScheme client.scheme = true
  unfold Proxy.Client.scheme
  cases client.tls <;> rfl

theorem PolicyFor.served {address : IpAddr} {authority : EffectiveAuthority} {policy : ForwardingPolicy}
    (built : PolicyFor address authority policy) (reconciled : Reconciled authority) : Served address policy :=
  ⟨built.client,built.scheme,built.host ▸ reconciled.rendered⟩

def localhost : IpAddr := .v4 [127,0,0,1] rfl (by decide)

def trustedPolicy : ForwardingPolicy := ⟨true,ascii "127.0.0.1",ascii "http",ascii "example.test"⟩

theorem trustedPolicy_for : PolicyFor localhost namedHost trustedPolicy := ⟨by decide,by decide,by decide⟩

/-- The implementations agree exactly when no trusted field repeats a name with a value beyond the limit. -/
theorem forwarding_agreement_iff (address : IpAddr) (authority : EffectiveAuthority) (reconciled : Reconciled authority)
    (policy : ForwardingPolicy) (built : PolicyFor address authority policy) (parse : List UInt8 → Result HeaderBlock)
    (parser : parse ∈ headerImplementations) (input : List UInt8) (headers : HeaderBlock) (parsed : parse input = .ok headers) :
    (∀ f ∈ forwardingImplementations, ∀ g ∈ forwardingImplementations, f policy headers = g policy headers) ↔
      ¬ (policy.trustIncoming = true ∧ LongRepetition exactSlot headers.fields) := by
  have served := built.served reconciled
  have canonical := parsed_canonical parser parsed
  have table := table_reference served headers
  have central := central_reference served headers
  rw [← reference_agree address]
  constructor
  · intro agreed
    rw [← table,← central]
    exact agreed _ (by simp [forwardingImplementations]) _ (by simp [forwardingImplementations])
  · intro same
    have refined : ∀ f ∈ forwardingImplementations, f policy headers =
        reference (eagerStep exactSlot) address policy headers := by
      intro f registered
      simp only [forwardingImplementations,List.mem_cons,List.not_mem_nil,or_false] at registered
      rcases registered with rfl | rfl | rfl | rfl | rfl
      · exact table.trans same
      · exact (direct_reference served headers).trans same
      · exact (transition_reference served headers).trans (canonical_reference canonical)
      · exact central
      · exact primitive_reference served headers
    intro f fMember g gMember
    rw [refined f fMember,refined g gMember]

theorem forwarding_agreement_single :
    HeaderTypedCursor.parseHeaderSection (ascii "forwarded: for=a\r\n\r\n") = .ok ⟨[⟨ascii "forwarded",ascii "for=a"⟩],20⟩ ∧
      ∀ f ∈ forwardingImplementations, ∀ g ∈ forwardingImplementations,
        f trustedPolicy ⟨[⟨ascii "forwarded",ascii "for=a"⟩],20⟩ = g trustedPolicy ⟨[⟨ascii "forwarded",ascii "for=a"⟩],20⟩ := by
  have parsed : HeaderTypedCursor.parseHeaderSection (ascii "forwarded: for=a\r\n\r\n") =
      .ok ⟨[⟨ascii "forwarded",ascii "for=a"⟩],20⟩ := by decide +kernel
  refine ⟨parsed,(forwarding_agreement_iff localhost namedHost namedHost_reconciled trustedPolicy trustedPolicy_for
    HeaderTypedCursor.parseHeaderSection (by simp [headerImplementations]) _ _ parsed).mpr ?_⟩
  rintro ⟨-,before,field,after,slot,split,-,-,⟨earlier,inside,-⟩,-⟩
  -- a repetition needs a field before it
  cases before with
  | nil => cases inside
  | cons first before =>
    have rest := (List.cons.inj split).2
    exact absurd (congrArg List.length rest) (by simp)

/-- A field of 1025 bytes that repeats a name. -/
def repeatedHeaders : HeaderBlock := ⟨[⟨ascii "forwarded",ascii "a"⟩,⟨ascii "forwarded",List.replicate 1025 0x62⟩],1054⟩

theorem forwarding_disagreement :
    Reconciled namedHost ∧ PolicyFor localhost namedHost trustedPolicy ∧
      HeaderTypedCursor.parseHeaderSection (ascii "forwarded: a\r\nforwarded: " ++ List.replicate 1025 0x62 ++ ascii "\r\n\r\n") =
        .ok repeatedHeaders ∧
      ¬ ∀ f ∈ forwardingImplementations, ∀ g ∈ forwardingImplementations,
        f trustedPolicy repeatedHeaders = g trustedPolicy repeatedHeaders := by
  refine ⟨namedHost_reconciled,trustedPolicy_for,by decide +kernel,fun agreed => ?_⟩
  have same := agreed ForwardingDirectMatch.applyForwardingPolicy (by simp [forwardingImplementations])
    ForwardingTransitionModel.applyForwardingPolicy (by simp [forwardingImplementations])
  exact absurd same (by decide +kernel)

end Laws

section Appending

/-- The output of a place. -/
def outputOf (result : ForwardingResult) : Slots (List UInt8) :=
  ![result.forwarded,result.xForwardedFor,result.xForwardedProto,result.xForwardedHost]

/-- What a place has before the new value: the incoming value, if it is trusted. -/
def previous (lookup : List UInt8 → Option (Fin 4)) (policy : ForwardingPolicy) (headers : HeaderBlock) : Held := fun slot =>
  if policy.trustIncoming then heldBy lookup headers.fields slot else none

/-- What a forwarding function that finds the places by `lookup` does. -/
structure Appends (apply : ForwardingPolicy → HeaderBlock → Result ForwardingResult) (lookup : List UInt8 → Option (Fin 4))
    (address : IpAddr) (policy : ForwardingPolicy) (headers : HeaderBlock) : Prop where
  accepted : (∃ result, apply policy headers = .ok result) ↔ policy.trustIncoming = false ∨
    Clean lookup headers.fields ∧
      ∀ slot, (joined (heldBy lookup headers.fields slot) (additions address policy slot)).length ≤ forwardingValueLimit
  output : ∀ result, apply policy headers = .ok result → ∀ slot,
    outputOf result slot = joined (previous lookup policy headers slot) (additions address policy slot)
  others : ∀ bytes, apply policy ⟨headers.fields.filter fun field => (lookup field.name).isSome,bytes⟩ = apply policy headers

theorem emit_ok (held : Held) (added : Slots (List UInt8)) (result : ForwardingResult) : emit held added = .ok result ↔
    (∀ slot, (joined (held slot) (added slot)).length ≤ forwardingValueLimit) ∧
      ∀ slot, outputOf result slot = joined (held slot) (added slot) := by
  rw [emit_checks]
  constructor
  · intro emitted
    obtain ⟨_,first,emitted⟩ := bind_success emitted
    obtain ⟨_,second,emitted⟩ := bind_success emitted
    obtain ⟨_,third,emitted⟩ := bind_success emitted
    obtain ⟨_,fourth,emitted⟩ := bind_success emitted
    cases emitted
    refine ⟨fun slot => ?_,fun slot => ?_⟩
    · match slot with
      | 0 => exact enforce_ok.mp first
      | 1 => exact enforce_ok.mp second
      | 2 => exact enforce_ok.mp third
      | 3 => exact enforce_ok.mp fourth
    · match slot with
      | 0 | 1 | 2 | 3 => rfl
  · rintro ⟨short,outputs⟩
    obtain ⟨forwarded,client,proto,host⟩ := result
    have first : forwarded = _ := outputs 0
    have second : client = _ := outputs 1
    have third : proto = _ := outputs 2
    have fourth : host = _ := outputs 3
    rw [enforce_ok.mpr (short 0),enforce_ok.mpr (short 1),enforce_ok.mpr (short 2),enforce_ok.mpr (short 3),first,second,third,fourth]
    rfl

theorem additions_short {address : IpAddr} {policy : ForwardingPolicy} (served : Served address policy) (slot : Fin 4) :
    (joined none (additions address policy slot)).length ≤ forwardingValueLimit := by
  obtain ⟨hopped,client,proto,host⟩ := served.short
  match slot with
  | 0 => exact hopped
  | 1 => exact client
  | 2 => exact proto
  | 3 => exact host

theorem reference_appends {apply : ForwardingPolicy → HeaderBlock → Result ForwardingResult} {lookup : List UInt8 → Option (Fin 4)}
    {step : Held → HeaderField → Result Held} {address : IpAddr} {policy : ForwardingPolicy} (served : Served address policy)
    (skips : ∀ held field, lookup field.name = none → step held field = .ok held)
    (ends : ∀ fields reached, fields.foldlM step noneHeld = .ok reached ↔ Clean lookup fields ∧ reached = heldBy lookup fields)
    (same : ∀ headers, apply policy headers = reference step address policy headers) (headers : HeaderBlock) :
    Appends apply lookup address policy headers := by
  have result (result : ForwardingResult) : apply policy headers = .ok result ↔
      (policy.trustIncoming = true → Clean lookup headers.fields) ∧
        emit (previous lookup policy headers) (additions address policy) = .ok result := by
    rw [same]
    unfold reference incoming previous
    cases policy.trustIncoming with
    | false =>
      rw [if_neg Bool.false_ne_true,bind_ok]
      exact ⟨fun emitted => ⟨fun impossible => absurd impossible Bool.false_ne_true,emitted⟩,fun both => both.2⟩
    | true =>
      rw [if_pos rfl]
      constructor
      · intro ran
        obtain ⟨reached,scanned,emitted⟩ := bind_success ran
        obtain ⟨clean,rfl⟩ := (ends headers.fields reached).mp scanned
        exact ⟨fun _ => clean,emitted⟩
      · rintro ⟨clean,emitted⟩
        rw [(ends headers.fields _).mpr ⟨clean rfl,rfl⟩,bind_ok]
        exact emitted
  refine ⟨⟨?_,?_⟩,fun value accepted slot => ((emit_ok _ _ _).mp ((result value).mp accepted).2).2 slot,fun bytes => ?_⟩
  · rintro ⟨value,accepted⟩
    obtain ⟨clean,emitted⟩ := (result value).mp accepted
    cases trusted : policy.trustIncoming with
    | false => exact .inl rfl
    | true =>
      refine .inr ⟨clean trusted,fun slot => ?_⟩
      have short := ((emit_ok _ _ _).mp emitted).1 slot
      rwa [previous,trusted,if_pos rfl] at short
  · intro condition
    have short (slot : Fin 4) :
        (joined (previous lookup policy headers slot) (additions address policy slot)).length ≤ forwardingValueLimit := by
      unfold previous
      cases trusted : policy.trustIncoming with
      | false =>
        rw [if_neg Bool.false_ne_true]
        exact additions_short served slot
      | true =>
        rcases condition with untrusted | ⟨-,short⟩
        · rw [trusted] at untrusted
          cases untrusted
        · exact short slot
    have emitted : emit (previous lookup policy headers) (additions address policy) =
        .ok ⟨joined (previous lookup policy headers 0) (additions address policy 0),
          joined (previous lookup policy headers 1) (additions address policy 1),
          joined (previous lookup policy headers 2) (additions address policy 2),
          joined (previous lookup policy headers 3) (additions address policy 3)⟩ := by
      refine (emit_ok _ _ _).mpr ⟨short,fun slot => ?_⟩
      match slot with
      | 0 | 1 | 2 | 3 => rfl
    refine ⟨_,(result _).mpr ⟨fun trusted => ?_,emitted⟩⟩
    rcases condition with untrusted | ⟨clean,-⟩
    · rw [trusted] at untrusted
      cases untrusted
    · exact clean
  · rw [same,same]
    unfold reference incoming
    rw [← scans_filter lookup step skips]

theorem strict_skips (lookup : List UInt8 → Option (Fin 4)) (held : Held) (field : HeaderField) (absent : lookup field.name = none) :
    strictStep lookup held field = .ok held := by
  unfold strictStep
  rw [absent]

theorem eager_skips (lookup : List UInt8 → Option (Fin 4)) (held : Held) (field : HeaderField) (absent : lookup field.name = none) :
    eagerStep lookup held field = .ok held := by
  unfold eagerStep
  rw [absent]

theorem eager_ends (lookup : List UInt8 → Option (Fin 4)) (fields : List HeaderField) (reached : Held) :
    fields.foldlM (eagerStep lookup) noneHeld = .ok reached ↔ Clean lookup fields ∧ reached = heldBy lookup fields :=
  (eager_strict lookup fields noneHeld reached).trans (strict_ok lookup fields reached)

/-- The implementations with the way in which each finds the place of a field. -/
def forwardingLookups : List ((ForwardingPolicy → HeaderBlock → Result ForwardingResult) × (List UInt8 → Option (Fin 4))) :=
  [(ForwardingDecisionTable.applyForwardingPolicy,exactSlot),(ForwardingDirectMatch.applyForwardingPolicy,exactSlot),
    (ForwardingTransitionModel.applyForwardingPolicy,foldedSlot),(ForwardingCentralTransition.applyForwardingPolicy,exactSlot),
    (ForwardingPrimitiveBoundary.applyForwardingPolicy,exactSlot)]

theorem registered_lookups : forwardingLookups.map (·.1) = forwardingImplementations := rfl

theorem lookup_appends {address : IpAddr} {policy : ForwardingPolicy} (served : Served address policy) (headers : HeaderBlock)
    {entry : (ForwardingPolicy → HeaderBlock → Result ForwardingResult) × (List UInt8 → Option (Fin 4))}
    (registered : entry ∈ forwardingLookups) : Appends entry.1 entry.2 address policy headers := by
  simp only [forwardingLookups,List.mem_cons,List.not_mem_nil,or_false] at registered
  rcases registered with rfl | rfl | rfl | rfl | rfl
  · exact reference_appends served (strict_skips exactSlot) (strict_ok exactSlot) (table_reference served) headers
  · exact reference_appends served (strict_skips exactSlot) (strict_ok exactSlot) (direct_reference served) headers
  · exact reference_appends served (eager_skips foldedSlot) (eager_ends foldedSlot) (transition_reference served) headers
  · exact reference_appends served (eager_skips exactSlot) (eager_ends exactSlot) (central_reference served) headers
  · exact reference_appends served (eager_skips exactSlot) (eager_ends exactSlot) (primitive_reference served) headers

theorem heldBy_congr {lookup other : List UInt8 → Option (Fin 4)} {fields : List HeaderField}
    (same : ∀ field ∈ fields, lookup field.name = other field.name) : heldBy lookup fields = heldBy other fields := by
  funext slot
  unfold heldBy
  rw [← List.head?_filter,← List.head?_filter,List.filter_congr fun field member => by rw [same field member]]

theorem clean_congr {lookup other : List UInt8 → Option (Fin 4)} {fields : List HeaderField}
    (same : ∀ field ∈ fields, lookup field.name = other field.name) : Clean lookup fields ↔ Clean other fields := by
  have counted (slot : Fin 4) : fields.countP (fun field => lookup field.name == some slot) =
      fields.countP fun field => other field.name == some slot :=
    List.countP_congr fun field member => by rw [same field member]
  constructor
  · exact fun clean => ⟨fun slot => counted slot ▸ clean.single slot,
      fun field member placed => clean.values field member ((same field member).symm ▸ placed)⟩
  · exact fun clean => ⟨fun slot => (counted slot).symm ▸ clean.single slot,
      fun field member placed => clean.values field member (same field member ▸ placed)⟩

/-- Two ways to look that agree on the names of the block say the same about a function. -/
theorem Appends.relook {apply : ForwardingPolicy → HeaderBlock → Result ForwardingResult} {lookup other : List UInt8 → Option (Fin 4)}
    {address : IpAddr} {policy : ForwardingPolicy} {headers : HeaderBlock}
    (same : ∀ field ∈ headers.fields, lookup field.name = other field.name) (appends : Appends apply lookup address policy headers) :
    Appends apply other address policy headers := by
  have held : heldBy lookup headers.fields = heldBy other headers.fields := heldBy_congr same
  refine ⟨?_,fun result accepted slot => ?_,fun bytes => ?_⟩
  · rw [appends.accepted,held,clean_congr same]
  · rw [appends.output result accepted slot]
    unfold previous
    rw [held]
  · rw [← appends.others bytes]
    exact congrArg (fun fields => apply policy ⟨fields,bytes⟩)
      (List.filter_congr fun field member => by rw [same field member])

/-- Every implementation appends to the values of the fields that it finds. Names in lowercase
are found by all of them alike. -/
theorem forwarding_append_law (address : IpAddr) (authority : EffectiveAuthority) (reconciled : Reconciled authority)
    (policy : ForwardingPolicy) (built : PolicyFor address authority policy) (headers : HeaderBlock) :
    (∀ entry ∈ forwardingLookups, Appends entry.1 entry.2 address policy headers) ∧
      (Canonical headers.fields → ∀ f ∈ forwardingImplementations, Appends f exactSlot address policy headers) := by
  have each : ∀ entry ∈ forwardingLookups, Appends entry.1 entry.2 address policy headers :=
    fun entry registered => lookup_appends (built.served reconciled) headers registered
  refine ⟨each,fun canonical f registered => ?_⟩
  rw [← registered_lookups] at registered
  obtain ⟨entry,listed,rfl⟩ := List.mem_map.mp registered
  have lower : ∀ field ∈ headers.fields, foldedSlot field.name = exactSlot field.name :=
    fun field member => congrArg exactSlot (canonical field member)
  have found : entry.2 = exactSlot ∨ entry.2 = foldedSlot := by
    simp only [forwardingLookups,List.mem_cons,List.not_mem_nil,or_false] at listed
    rcases listed with rfl | rfl | rfl | rfl | rfl
    · exact .inl rfl
    · exact .inl rfl
    · exact .inr rfl
    · exact .inl rfl
    · exact .inl rfl
  have appends := each entry listed
  rcases found with exact | folded
  · rwa [exact] at appends
  · rw [folded] at appends
    exact appends.relook lower

theorem forwarding_append_law_single :
    (∀ entry ∈ forwardingLookups, Appends entry.1 entry.2 localhost trustedPolicy ⟨[⟨ascii "forwarded",ascii "for=a"⟩],20⟩) ∧
      (Canonical [⟨ascii "forwarded",ascii "for=a"⟩] → ∀ f ∈ forwardingImplementations,
        Appends f exactSlot localhost trustedPolicy ⟨[⟨ascii "forwarded",ascii "for=a"⟩],20⟩) :=
  forwarding_append_law localhost namedHost namedHost_reconciled trustedPolicy trustedPolicy_for _

/-- One implementation takes a name in capitals for the field. -/
theorem forwarding_capital_name : Reconciled namedHost ∧ PolicyFor localhost namedHost trustedPolicy ∧
    ¬ ∀ f ∈ forwardingImplementations, Appends f exactSlot localhost trustedPolicy ⟨[⟨ascii "Forwarded",ascii "for=a"⟩],20⟩ := by
  refine ⟨namedHost_reconciled,trustedPolicy_for,fun law => ?_⟩
  have appends := law ForwardingTransitionModel.applyForwardingPolicy (by simp [forwardingImplementations])
  have computed : ForwardingTransitionModel.applyForwardingPolicy trustedPolicy ⟨[⟨ascii "Forwarded",ascii "for=a"⟩],20⟩ =
      .ok ⟨ascii "for=a, for=127.0.0.1;proto=http;host=\"example.test\"",ascii "127.0.0.1",ascii "http",ascii "example.test"⟩ := by
    decide +kernel
  exact absurd (appends.output _ computed 0) (by decide +kernel)

end Appending

end Polyguard.ForwardingAgreement

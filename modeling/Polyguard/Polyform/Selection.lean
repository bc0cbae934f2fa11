import Polyguard.Polyform.Runs
import Polyguard.Proxy.Composition

/-! The composition in the agreement set.
What a client took over names for each protocol function an entry of the registry that
implements it. As the primaries of an agreement, these entries are asked first, unless
the configuration quarantines them. -/
namespace Polyguard.Polyform
open Std Proxy

section Inventory
variable {Operation : Type}

def specFunctions : List String :=
  ["parse_request_line","parse_header_section","determine_body_framing","parse_chunk_metadata","parse_trailer_section",
    "normalize_request_target","reconcile_authority","remove_hop_by_hop_headers","construct_canonical_upstream_head",
    "match_route","apply_forwarding_policy","decide_upgrade","classify_telemetry_outcome"]

/-- The ids of the entries that implement a function. -/
def implementers (registry : List (Implementation Operation)) (function : String) : List String :=
  (registry.filter fun entry => (entry.operation function).isSome).map (·.id)

def implementationInventory (registry : List (Implementation Operation)) : ImplementationInventory :=
  ExtTreeMap.ofList (specFunctions.map fun function => (function,ExtTreeSet.ofList (implementers registry function)))

theorem specFunctions_nodup : specFunctions.Nodup := by decide +kernel

theorem inventory_lookup (registry : List (Implementation Operation)) {function : String} (spec : function ∈ specFunctions) :
    (implementationInventory registry)[function]? = some (ExtTreeSet.ofList (implementers registry function)) := by
  apply ExtTreeMap.getElem?_ofList_of_mem (k := function) (by simp)
  · rw [List.pairwise_map]
    apply specFunctions_nodup.imp
    intro left right apart same
    exact apart (LawfulEqOrd.eq_of_compare same)
  · exact List.mem_map.mpr ⟨function,spec,rfl⟩

theorem composition_entry {registry : List (Implementation Operation)} {implementations statuses : ExtTreeMap String String}
    (fits : Fits (implementationInventory registry) implementations statuses) {function : String} (spec : function ∈ specFunctions) :
    ∃ entry ∈ registry, implementations[function]? = some entry.id ∧ (entry.operation function).isSome := by
  have known : function ∈ implementationInventory registry := by
    rw [ExtTreeMap.mem_iff_isSome_getElem?,inventory_lookup registry spec]
    rfl
  rw [← ExtTreeMap.mem_keys,← fits.functions,ExtTreeMap.mem_keys,ExtTreeMap.mem_iff_isSome_getElem?] at known
  obtain ⟨implementation,assigned⟩ := Option.isSome_iff_exists.mp known
  have compiled := fits.compiled function implementation assigned
  rw [isCompiled,inventory_lookup registry spec,Option.any_some,ExtTreeSet.contains_iff_mem,ExtTreeSet.mem_ofList,
    List.contains_iff_mem] at compiled
  obtain ⟨entry,member,rfl⟩ := List.mem_map.mp compiled
  obtain ⟨registered,implemented⟩ := List.mem_filter.mp member
  exact ⟨entry,registered,assigned,implemented⟩

end Inventory

section Order
variable {Operation T : Type} [DecidableEq T] {agreement : Agreement} {function : String}

/-- A loop only adds to the entries that it has called. -/
theorem callLoop_extends (agreement : Agreement) (function : String) (invoke : Implementation Operation → Option (Result T))
    (candidates called : List (Implementation Operation)) (reference : Option (Result T)) :
    called <+: (agreement.callLoop function invoke candidates reference called).1 := by
  induction candidates generalizing called reference with
  | nil => exact List.prefix_refl called
  | cons entry candidates ih =>
    have grown : called <+: called ++ [entry] := List.prefix_append _ _
    have further (reference : Option (Result T)) := grown.trans (ih (called ++ [entry]) reference)
    rw [Agreement.callLoop]
    split
    · exact ih called reference
    · split
      · exact ih called reference
      · cases reference with
        | none =>
          dsimp only
          split
          · exact grown
          · exact further _
        | some expected =>
          dsimp only
          split
          · exact grown
          · split
            · exact grown
            · exact further _

/-- An eligible primary is the first entry that a run asks, whatever it and the others answer. -/
theorem primary_first {registry : List (Implementation Operation)} (unique : (registry.map (·.id)).Nodup)
    {entry : Implementation Operation} (registered : entry ∈ registry) (assigned : agreement.primary function = some entry.id)
    (eligible : agreement.isEligible function entry) (apply : Operation → Result T) :
    (agreement.run registry function apply).1.head? = some entry ∧
      (1 ≤ agreement.width → (agreement.selectedIds registry function).head? = some entry.id) := by
  -- the assigned entry is the only one of its id, so it is the head of the eligible entries
  have primary : registry.filter (fun other => agreement.isEligible function other && some other.id == agreement.primary function) =
      [entry] := by
    rw [assigned]
    simp only [Option.some_beq_some]
    rw [← Agreement.find_unique unique entry.id (agreement.isEligible function)]
    obtain ⟨found,hit⟩ := Option.isSome_iff_exists.mp (List.find?_isSome
      (p := fun other => other.id == entry.id && agreement.isEligible function other).mpr ⟨entry,registered,by simp [eligible]⟩)
    have same : found.id = entry.id := by
      have test := List.find?_some hit
      simp only [Bool.and_eq_true,beq_iff_eq] at test
      exact test.1
    rw [hit,List.inj_on_of_nodup_map unique (List.mem_of_find?_eq_some hit) registered same]
    rfl
  obtain ⟨others,listed⟩ : ∃ others, agreement.eligible registry function = entry :: others := by
    unfold Agreement.eligible
    rw [primary]
    exact ⟨_,rfl⟩
  constructor
  · have implemented : ∀ other : Implementation Operation, ((other.operation function).map apply).isSome = (other.operation function).isSome :=
      fun other => Option.isSome_map
    have ordered := Agreement.candidates_eligible agreement unique function
    rw [listed] at ordered
    obtain ⟨rest,-,reached⟩ := Agreement.callLoop_first agreement function implemented _ ordered
    simp only [Agreement.isEligible,Bool.and_eq_true] at eligible
    obtain ⟨given,answered⟩ := Option.isSome_iff_exists.mp ((implemented entry).trans eligible.2)
    rw [Agreement.run,reached,Agreement.callLoop_call agreement function ?_ answered rest (.inr rfl)]
    · split
      · rfl
      · obtain ⟨more,grown⟩ := callLoop_extends agreement function (fun other => (other.operation function).map apply)
          rest ([] ++ [entry]) (some given)
        rw [← grown]
        rfl
    · simpa only [Agreement.isEligible,Bool.and_eq_true] using eligible
  · intro positive
    rw [Agreement.selectedIds_eligible agreement unique positive,listed,List.head?_map,List.head?_take,if_neg (by omega)]
    rfl

end Order

section Adopted
variable {Operation T : Type} [DecidableEq T] {crypto : Cryptography} {allowed : Installation → Event → Prop}

/-- The agreement with the composition of a client as its primaries, as a generation is built and as a refresh updates it. -/
def Client.adopted (client : Client) (agreement : Agreement) : Agreement :=
  agreement.updatePrimary fun function => client.composition[function]?

/-- In every reachable installation the composition of each client names for each protocol function a registered
implementation of it, and an agreement that adopts the composition asks it first. -/
theorem composition_is_asked_first {registry : List (Implementation Operation)} (unique : (registry.map (·.id)).Nodup)
    {here : Installation} (run : Run crypto allowed fresh here) {client : Client} (holds : client ∈ here.clients)
    (built : client.inventory = implementationInventory registry) (agreement : Agreement) {function : String}
    (spec : function ∈ specFunctions) (apply : Operation → Result T) :
    ∃ entry ∈ registry, client.composition[function]? = some entry.id ∧ (entry.operation function).isSome ∧
      (entry.id ∉ agreement.quarantined →
        ((client.adopted agreement).run registry function apply).1.head? = some entry) := by
  obtain ⟨made,fits⟩ := run_holds run client holds
  have composed : client.composition = client.state.implementations := congrArg Client.composition made
  rw [← composed,built] at fits
  obtain ⟨entry,registered,assigned,implemented⟩ := composition_entry fits spec
  refine ⟨entry,registered,assigned,implemented,?_⟩
  intro free
  refine (primary_first unique registered assigned ?_ apply).1
  simp only [Agreement.isEligible,Bool.and_eq_true,Bool.not_eq_true',List.contains_eq_mem,decide_eq_false_iff_not]
  exact ⟨free,implemented⟩

def sampleRegistry : List (Implementation Bool) := [⟨"one",fun _ => some true⟩,⟨"two",fun _ => some false⟩]

def sampleOffered : Assignment := sampleOffer (specFunctions.map (·,"two")) [("one","active"),("two","active")] 1

def sampleIssuer : Cryptography := sampleCrypto [compositionAssignmentMessage sampleOffered]

/-- A registration of the sample registry. -/
def sampleStart : Event := .load sampleTrust (implementationInventory sampleRegistry) (sampleWorld sampleOffered)

def sampleComposed : Installation :=
  (fresh.step sampleIssuer sampleStart).step sampleIssuer (.complete 0 (sampleWorld sampleOffered))

theorem sampleComposed_run : Run sampleIssuer (fun _ _ => True) fresh sampleComposed :=
  (Relation.ReflTransGen.single ⟨sampleStart,trivial,rfl⟩).tail ⟨.complete 0 (sampleWorld sampleOffered),trivial,rfl⟩

theorem sampleComposed_inventory {client : Client} (holds : client ∈ sampleComposed.clients) :
    client.inventory = implementationInventory sampleRegistry := by
  have loaded : fresh.step sampleIssuer sampleStart =
      ⟨none,[.registering sampleTrust (implementationInventory sampleRegistry) none]⟩ := rfl
  rw [mem_clients,sampleComposed,loaded,Installation.step] at holds
  simp only [List.getElem?_cons_zero,complete_run] at holds
  cases accepted : (sampleWorld sampleOffered).accept sampleIssuer sampleTrust (implementationInventory sampleRegistry) none with
  | error error =>
    rw [accepted] at holds
    cases List.mem_singleton.mp holds
  | ok state =>
    rw [accepted] at holds
    cases List.mem_singleton.mp holds
    rfl

theorem composition_is_asked_first_sample : ∃ client ∈ sampleComposed.clients, ∃ entry ∈ sampleRegistry,
    client.composition["match_route"]? = some entry.id ∧
      ((client.adopted ⟨2,[],fun _ => none⟩).run sampleRegistry "match_route" fun bit => (.ok bit : Result Bool)).1.head? =
        some entry := by
  have served : 0 < sampleComposed.clients.length := by decide +kernel
  obtain ⟨client,holds⟩ := List.exists_mem_of_length_pos served
  have unique : (sampleRegistry.map (·.id)).Nodup := by decide
  have spec : "match_route" ∈ specFunctions := by decide +kernel
  obtain ⟨entry,registered,assigned,-,first⟩ := composition_is_asked_first unique sampleComposed_run holds
    (sampleComposed_inventory holds) ⟨2,[],fun _ => none⟩ spec fun bit => (.ok bit : Result Bool)
  exact ⟨client,holds,entry,registered,assigned,first (by simp)⟩

end Adopted
end Polyguard.Polyform

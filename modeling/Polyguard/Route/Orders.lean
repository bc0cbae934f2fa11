import Polyguard.Route.Implementations
import Polyguard.Collections.Probing

/-! The declaration orders of the bounded matcher.
Its table of 256 slots and its bitmap are one ring of optional values, searched
by linear probing; an order is reported as new exactly when it was not inserted
before, as long as at most 256 orders are. -/
namespace Polyguard.Route
open RouteBoundedMatch Probing

/-- The slots of a table as a bitmap and an array spell them. -/
def slots (orders : DeclarationOrders) (slot : Nat) : Option UInt64 :=
  if orders.isOccupied slot then some (orders.values.getD slot 0) else none

structure Sized (orders : DeclarationOrders) : Prop where
  values : orders.values.length = 256
  occupied : orders.occupied.length = 4

theorem mask_disjoint {left right : Nat} (differ : left % 64 ≠ right % 64) : slotMask left &&& slotMask right = 0 := by
  have table : ∀ n m : Fin 64, n ≠ m → ((1 : UInt64) <<< UInt64.ofNat n.val) &&& (1 <<< UInt64.ofNat m.val) = 0 := by
    decide +kernel
  exact table ⟨left % 64,Nat.mod_lt _ (by decide)⟩ ⟨right % 64,Nat.mod_lt _ (by decide)⟩ (by simpa using differ)

theorem mask_self (slot : Nat) : slotMask slot ≠ 0 := by
  have table : ∀ n : Fin 64, (1 : UInt64) <<< UInt64.ofNat n.val ≠ 0 := by decide +kernel
  exact table ⟨slot % 64,Nat.mod_lt _ (by decide)⟩

theorem and_or_distrib (word left right : UInt64) : (word ||| left) &&& right = (word &&& right) ||| (left &&& right) := by
  apply UInt64.toBitVec_inj.mp
  exact BitVec.and_or_distrib_right

theorem or_masked (word mask : UInt64) : (word ||| mask) &&& mask = mask := by
  rw [and_or_distrib,UInt64.and_self]
  apply UInt64.toBitVec_inj.mp
  ext bit
  simp

theorem occupy_self {orders : DeclarationOrders} (sized : Sized orders) {slot : Nat} (inside : slot < 256) (value : UInt64) :
    slots (orders.occupy slot value) slot = some value := by
  have word : slot / 64 < orders.occupied.length := by
    rw [sized.occupied]
    omega
  have cell : slot < orders.values.length := by
    rw [sized.values]
    exact inside
  have set : (orders.occupy slot value).isOccupied slot = true := by
    simp [DeclarationOrders.isOccupied,DeclarationOrders.occupy,List.getD_eq_getElem?_getD,word,or_masked,mask_self]
  rw [slots,set,if_pos rfl]
  simp [DeclarationOrders.occupy,List.getD_eq_getElem?_getD,cell]

theorem occupy_other {orders : DeclarationOrders} (sized : Sized orders) {slot other : Nat} (inside : slot < 256)
    (differ : other ≠ slot) (value : UInt64) : slots (orders.occupy slot value) other = slots orders other := by
  have word : slot / 64 < orders.occupied.length := by
    rw [sized.occupied]
    omega
  have kept : (orders.occupy slot value).isOccupied other = orders.isOccupied other := by
    unfold DeclarationOrders.isOccupied DeclarationOrders.occupy
    by_cases same : slot / 64 = other / 64
    · have bits : slot % 64 ≠ other % 64 := by omega
      rw [← same]
      simp only [List.getD_eq_getElem?_getD,List.getElem?_set_self word,Option.getD_some]
      rw [and_or_distrib,mask_disjoint bits,UInt64.or_zero]
    · simp only [List.getD_eq_getElem?_getD,List.getElem?_set_ne same]
  rw [slots,slots,kept]
  simp [DeclarationOrders.occupy,List.getD_eq_getElem?_getD,List.getElem?_set_ne (Ne.symm differ)]

theorem occupy_sized {orders : DeclarationOrders} (sized : Sized orders) (slot : Nat) (value : UInt64) :
    Sized (orders.occupy slot value) := by
  constructor
  · rw [← sized.values]
    exact List.length_set
  · rw [← sized.occupied]
    exact List.length_set

/-- The probing loop acts on the outcome of the search. -/
theorem probe_search (orders : DeclarationOrders) (value : UInt64) (rounds slot : Nat) :
    orders.probe value rounds slot = match search 256 (slots orders) value rounds slot with
      | .free free => (true,orders.occupy free value)
      | .found => (false,orders)
      | .full => (true,orders) := by
  induction rounds generalizing slot with
  | zero => rfl
  | succ rounds ih =>
    have ring : (slot + 1) &&& (maxRoutes - 1) = (slot + 1) % 256 := Nat.and_two_pow_sub_one_eq_mod (slot + 1) 8
    unfold DeclarationOrders.probe search
    rw [ring,ih,slots]
    cases orders.isOccupied slot with
    | false => rfl
    | true =>
      by_cases same : orders.values.getD slot 0 = value
      · simp only [same,beq_self_eq_true,if_true]
      · simp only [same,if_true,if_false,beq_eq_false_iff_ne.mpr same]

theorem homeSlot_lt (value : UInt64) : homeSlot value < 256 := by
  unfold homeSlot
  rw [UInt64.toNat_and]
  exact Nat.lt_of_le_of_lt Nat.and_le_right (by decide)

/-- A table that holds these orders, each in a slot of its own. -/
structure Records (orders : DeclarationOrders) (members : List UInt64) : Prop where
  sized : Sized orders
  holds : Holds 256 homeSlot (slots orders) members

theorem records_empty : Records DeclarationOrders.empty [] := by
  refine ⟨⟨List.length_replicate,List.length_replicate⟩,holds_empty homeSlot fun slot inside => ?_⟩
  have table : ∀ n : Fin 256, slots DeclarationOrders.empty n.val = none := by decide +kernel
  exact table ⟨slot,inside⟩

theorem insert_repeated {orders : DeclarationOrders} {members : List UInt64} (records : Records orders members)
    {value : UInt64} (member : value ∈ members) : orders.insert value = (false,orders) := by
  have found := search_member records.holds member
  rw [Nat.mod_eq_of_lt (homeSlot_lt value)] at found
  rw [DeclarationOrders.insert,probe_search,show maxRoutes = 256 from rfl,found]

theorem insert_fresh {orders : DeclarationOrders} {members : List UInt64} (records : Records orders members)
    {value : UInt64} (fresh : value ∉ members) (room : members.length < 256) :
    ∃ next, orders.insert value = (true,next) ∧ Records next (value :: members) := by
  have absent : ∀ slot < 256, slots orders slot ≠ some value := fun slot inside stored =>
    fresh (records.holds.sound slot inside value stored)
  rcases search_absent (by decide) absent 256 (homeSlot value) with ⟨distance,inside,stopped,free,row⟩ | ⟨-,row⟩
  · have within : (homeSlot value + distance) % 256 < 256 := Nat.mod_lt _ (by decide)
    refine ⟨orders.occupy ((homeSlot value + distance) % 256) value,?_,occupy_sized records.sized _ _,?_⟩
    · rw [Nat.mod_eq_of_lt (homeSlot_lt value)] at stopped
      rw [DeclarationOrders.insert,probe_search,show maxRoutes = 256 from rfl,stopped]
    · exact records.holds.insert inside fresh free row (occupy_self records.sized within value)
        fun slot _ differ => occupy_other records.sized within differ value
  · have crowded := records.holds.full row
    omega

/-- The table behind these calls, from the empty one. -/
def inserted (values : List UInt64) : DeclarationOrders :=
  values.foldl (fun orders value => (orders.insert value).2) .empty

/-- Where the probing loop comes to rest: at a free slot or at the value, behind slots that hold other values. -/
def Rests (orders : DeclarationOrders) (value : UInt64) : Prop :=
  ∃ distance < 256, (slots orders ((homeSlot value + distance) % 256) = none ∨
    slots orders ((homeSlot value + distance) % 256) = some value) ∧
    ∀ nearer < distance, ∃ held, slots orders ((homeSlot value + nearer) % 256) = some held ∧ held ≠ value

theorem insert_records {orders : DeclarationOrders} {members : List UInt64} (records : Records orders members)
    (room : members.length < 256) (value : UInt64) : (orders.insert value).1 = decide (value ∉ members) ∧
      ∃ next, Records (orders.insert value).2 next ∧ next.length ≤ members.length + 1 ∧
        ∀ held, held ∈ next ↔ held ∈ members ∨ held = value := by
  by_cases member : value ∈ members
  · rw [insert_repeated records member]
    refine ⟨by simp [member],members,records,by omega,fun held => ?_⟩
    constructor
    · exact .inl
    · rintro (before | rfl)
      · exact before
      · exact member
  · obtain ⟨next,ran,after⟩ := insert_fresh records member room
    rw [ran]
    refine ⟨by simp [member],value :: members,after,Nat.le_refl _,fun held => ?_⟩
    rw [List.mem_cons]
    exact or_comm

theorem inserted_records (values : List UInt64) (bounded : values.length ≤ 256) :
    ∃ members, Records (inserted values) members ∧ members.length ≤ values.length ∧ ∀ held, held ∈ members ↔ held ∈ values := by
  induction values using List.reverseRecOn with
  | nil => exact ⟨[],records_empty,Nat.le_refl _,fun held => Iff.rfl⟩
  | append_singleton values value ih =>
    rw [List.length_append,List.length_singleton] at bounded
    obtain ⟨members,records,few,same⟩ := ih (by omega)
    obtain ⟨-,next,after,more,all⟩ := insert_records records (by omega) value
    have last : inserted (values ++ [value]) = ((inserted values).insert value).2 := List.foldl_concat ..
    refine ⟨next,last ▸ after,?_,fun held => ?_⟩
    · rw [List.length_append,List.length_singleton]
      omega
    · rw [all,same,List.mem_append,List.mem_singleton]

theorem records_rests {orders : DeclarationOrders} {members : List UInt64} (records : Records orders members)
    (room : members.length < 256) (value : UInt64) : Rests orders value := by
  by_cases member : value ∈ members
  · obtain ⟨distance,inside,found,row⟩ := records.holds.complete value member
    refine ⟨distance,inside,.inr found,fun nearer near => ?_⟩
    obtain ⟨held,taken⟩ := Option.isSome_iff_exists.mp (row nearer near)
    refine ⟨held,taken,?_⟩
    rintro rfl
    have same := records.holds.single _ (Nat.mod_lt _ (by decide)) _ (Nat.mod_lt _ (by decide)) held found taken
    omega
  · have absent : ∀ slot < 256, slots orders slot ≠ some value := fun slot inside stored =>
      member (records.holds.sound slot inside value stored)
    rcases search_absent (by decide) absent 256 (homeSlot value) with ⟨distance,inside,-,free,row⟩ | ⟨-,row⟩
    · refine ⟨distance,inside,.inl free,fun nearer near => ?_⟩
      obtain ⟨held,taken⟩ := Option.isSome_iff_exists.mp (row nearer near)
      refine ⟨held,taken,?_⟩
      rintro rfl
      exact absent _ (Nat.mod_lt _ (by decide)) taken
    · have crowded := records.holds.full row
      omega

/-- The table is a set: of at most 256 calls, each one reports whether its value is new, and its loop comes to rest. -/
theorem declaration_orders_set (values : List UInt64) (bounded : values.length ≤ 256) (index : Nat) (inside : index < values.length) :
    ((inserted (values.take index)).insert values[index]).1 = decide (values[index] ∉ values.take index) ∧
      Rests (inserted (values.take index)) values[index] := by
  have short : (values.take index).length = index := List.length_take_of_le (by omega)
  obtain ⟨members,records,few,same⟩ := inserted_records (values.take index) (by omega)
  obtain ⟨reported,-⟩ := insert_records records (by omega) values[index]
  refine ⟨?_,records_rests records (by omega) values[index]⟩
  rw [reported]
  exact decide_eq_decide.mpr (not_congr (same _))

/-- Two values with one home slot, and the first of them once more. -/
theorem declaration_orders_set_colliding : ((inserted [0,256]).insert 0).1 = decide ((0 : UInt64) ∉ ([0,256] : List UInt64)) :=
  (declaration_orders_set [0,256,0,256] (by decide) 2 (by decide)).1

end Polyguard.Route

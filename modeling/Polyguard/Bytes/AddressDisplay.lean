import Polyguard.Bytes.AddressText

/-! Reading the display texts of IP addresses back, and how long a read address is.
The groups of an IPv6 text are read up to the place where zeros are left out, and the
rest behind it; what was left out are the zeros of the longest run. -/
namespace Polyguard.Address
open Ascii Decimal

section Zeros

/-- The part of a row that a span covers is zeros. -/
def ZeroRun (segments : List Nat) (span : Span) : Prop :=
  ∃ before after, segments = before ++ (List.replicate span.length 0 ++ after) ∧ (0 < span.length → before.length = span.start)

/-- The zeros that a row ends in. -/
def ZeroEnd (segments : List Nat) (span : Span) : Prop :=
  ∃ before, segments = before ++ List.replicate span.length 0 ∧ (0 < span.length → before.length = span.start)

theorem ZeroEnd.run {segments : List Nat} {span : Span} (ends : ZeroEnd segments span) : ZeroRun segments span := by
  obtain ⟨before,same,start⟩ := ends
  exact ⟨before,[],by rw [List.append_nil]; exact same,start⟩

theorem ZeroRun.push {segments : List Nat} {span : Span} (run : ZeroRun segments span) (last : Nat) :
    ZeroRun (segments ++ [last]) span := by
  obtain ⟨before,after,rfl,start⟩ := run
  exact ⟨before,after ++ [last],by simp only [List.append_assoc],start⟩

theorem zeroEnd_push {segments : List Nat} {span : Span} (ends : ZeroEnd segments span) :
    ZeroEnd (segments ++ [0]) ⟨if span.length = 0 then segments.length else span.start,span.length + 1⟩ := by
  obtain ⟨before,rfl,start⟩ := ends
  refine ⟨before,?_,fun _ => ?_⟩
  · rw [List.append_assoc,← List.replicate_succ']
  · dsimp only
    split
    · rename_i none
      rw [none,List.replicate_zero,List.append_nil]
    · exact start (by omega)

theorem spans_zeros (segments : List Nat) : ZeroRun segments (segments.zipIdx.foldl spanRound (⟨0,0⟩,⟨0,0⟩)).1 ∧
    ZeroEnd segments (segments.zipIdx.foldl spanRound (⟨0,0⟩,⟨0,0⟩)).2 := by
  induction segments using List.reverseRecOn with
  | nil => exact ⟨⟨[],[],rfl,fun _ => rfl⟩,⟨[],rfl,fun _ => rfl⟩⟩
  | append_singleton segments last ih =>
    rw [List.zipIdx_append,List.foldl_append,List.zipIdx_singleton,List.foldl_cons,List.foldl_nil,Nat.zero_add]
    obtain ⟨longest,current⟩ := ih
    generalize segments.zipIdx.foldl spanRound (⟨0,0⟩,⟨0,0⟩) = spans at longest current ⊢
    unfold spanRound
    dsimp only
    split
    · rename_i zero
      subst zero
      have pushed := zeroEnd_push current
      refine ⟨?_,pushed⟩
      dsimp only
      split
      · exact pushed.run
      · exact longest.push 0
    · exact ⟨longest.push last,segments ++ [last],by simp,fun impossible => absurd impossible (Nat.lt_irrefl 0)⟩

/-- A row is what stands before a run of zeros, the zeros, and what stands behind them. -/
theorem ZeroRun.split {segments : List Nat} {span : Span} (run : ZeroRun segments span) (some : 0 < span.length) :
    segments = segments.take span.start ++ (List.replicate span.length 0 ++ segments.drop (span.start + span.length)) := by
  obtain ⟨before,after,rfl,start⟩ := run
  rw [← start some,List.take_left,← List.drop_drop,List.drop_left,List.drop_left' List.length_replicate]

end Zeros

section Groups

theorem readSeparator_first {α : Type} (separator : UInt8) (inner : Reader α) (text : List UInt8) :
    readSeparator separator 0 inner text = inner text := rfl

theorem readSeparator_later {α : Type} (separator : UInt8) {index : Nat} (later : 0 < index) (inner : Reader α)
    (text : List UInt8) : readSeparator separator index inner (separator :: text) = inner text := by
  rw [readSeparator,if_pos later,readGivenChar_cons,Option.bind_some]

/-- The text of groups that stand behind `index` others. -/
def groupsFrom (index : Nat) (groups : List Nat) : List UInt8 :=
  if 0 < index then groups.flatMap fun group => 0x3a :: render 16 group else groupsText groups

theorem groupsFrom_cons (index group : Nat) (groups : List Nat) :
    groupsFrom index (group :: groups) = (if 0 < index then [0x3a] else []) ++ (render 16 group ++ groupsFrom (index + 1) groups) := by
  unfold groupsFrom
  rw [if_pos (Nat.succ_pos index)]
  split
  · rw [List.flatMap_cons,List.cons_append,List.singleton_append]
  · simp [groupsText,separated,List.flatMap_map]

theorem colon_stops : toDigit 16 0x3a = none := by decide

/-- No group is read off the rest of a row that `index` groups stand before. -/
def Stops (index : Nat) (rest : List UInt8) : Prop :=
  readSeparator 0x3a index (readNumber 16 4 true 65535) rest = none ∧ readSeparator 0x3a index readIpv4Addr rest = none

theorem readGroup (index : Nat) {group : Nat} (small : group < 65536) {rest : List UInt8}
    (stops : ∀ b ∈ rest.head?, toDigit 16 b = none) :
    readSeparator 0x3a index (readNumber 16 4 true 65535) ((if 0 < index then [0x3a] else []) ++ (render 16 group ++ rest)) =
      some (group,rest) := by
  have number := readNumber_render (by decide) (by decide) true (by decide) (show group < 16 ^ 4 by omega)
    (show group ≤ 65535 by omega) stops
  split
  · rename_i later
    rw [List.singleton_append,readSeparator_later 0x3a later]
    exact number
  · rename_i first
    obtain rfl : index = 0 := by omega
    exact number

theorem groupsFrom_dotless (index : Nat) (groups : List Nat) : (0x2e : UInt8) ∉ groupsFrom index groups := by
  have digits (group : Nat) : (0x2e : UInt8) ∉ render 16 group := fun member =>
    absurd (render_digits (by decide) (by decide) group 0x2e member) (by decide)
  induction groups generalizing index with
  | nil => unfold groupsFrom; split <;> exact List.not_mem_nil
  | cons group groups ih =>
    rw [groupsFrom_cons,List.mem_append,List.mem_append,not_or,not_or]
    refine ⟨?_,digits group,ih (index + 1)⟩
    split <;> decide

theorem groupsFrom_head (index : Nat) (groups : List Nat) {rest : List UInt8} (later : 0 < index)
    (stops : ∀ b ∈ rest.head?, toDigit 16 b = none) : ∀ b ∈ (groupsFrom index groups ++ rest).head?, toDigit 16 b = none := by
  unfold groupsFrom
  rw [if_pos later]
  cases groups with
  | nil => exact stops
  | cons group groups =>
    intro b member
    obtain rfl : b = 0x3a := by simpa [eq_comm] using member
    exact colon_stops

/-- Rendered groups are read off the front of a text that goes on with no group and has no dot. -/
theorem readGroups_render (groups : List Nat) : ∀ {index left : Nat} {rest : List UInt8}, groups.length ≤ left →
    (∀ group ∈ groups, group < 65536) → (0x2e : UInt8) ∉ rest → (∀ b ∈ rest.head?, toDigit 16 b = none) →
    (groups.length < left → Stops (index + groups.length) rest) →
      readGroups index left (groupsFrom index groups ++ rest) = ((groups,false),rest) := by
  induction groups with
  | nil =>
    intro index left rest _ _ _ _ stops
    have text : groupsFrom index [] ++ rest = rest := by
      unfold groupsFrom
      split <;> rfl
    rw [text]
    cases left with
    | zero => rfl
    | succ left =>
      obtain ⟨group,embedded⟩ := stops (Nat.succ_pos left)
      rw [List.length_nil,Nat.add_zero] at group embedded
      rw [readGroups,embedded,group,ite_self]
  | cons group groups ih =>
    intro index left rest fits small dotless head stops
    cases left with
    | zero => cases fits
    | succ left =>
      rw [List.length_cons,Nat.succ_le_succ_iff] at fits
      have ends := groupsFrom_head (index + 1) groups (Nat.succ_pos index) head
      have undotted : (0x2e : UInt8) ∉ groupsFrom index (group :: groups) ++ rest := by
        rw [List.mem_append,not_or]
        exact ⟨groupsFrom_dotless index (group :: groups),dotless⟩
      rw [readGroups,readSeparator_dot undotted,ite_self]
      rw [groupsFrom_cons,List.append_assoc,List.append_assoc,readGroup index (small group List.mem_cons_self) ends]
      dsimp only
      rw [ih fits (fun other member => small other (List.mem_cons_of_mem group member)) dotless head fun more => by
        have later := stops (by rw [List.length_cons]; omega)
        rwa [List.length_cons,show index + (groups.length + 1) = index + 1 + groups.length by omega] at later]

theorem readNumber_none {radix maxDigits max : Nat} {allowZeroPrefix : Bool} {text : List UInt8}
    (stops : ∀ b ∈ text.head?, toDigit radix b = none) : readNumber radix maxDigits allowZeroPrefix max text = none := by
  have digits : text.takeWhile (fun byte => (toDigit radix byte).isSome) = [] := by
    cases text with
    | nil => rfl
    | cons first rest => rw [List.takeWhile_cons_of_neg (by simp [stops first (by simp)])]
  simp only [readNumber,digits,List.isEmpty_nil,Bool.or_true,if_true]

theorem stops_nil (index : Nat) : Stops index [] := by
  unfold Stops readSeparator
  split
  · exact ⟨rfl,rfl⟩
  · exact ⟨readNumber_none (by simp),readIpv4Addr_dot List.not_mem_nil⟩

theorem stops_colons (index : Nat) {rest : List UInt8} (dotless : (0x2e : UInt8) ∉ rest) : Stops index (0x3a :: 0x3a :: rest) := by
  have colon (text : List UInt8) : ∀ b ∈ ((0x3a : UInt8) :: text).head?, toDigit 16 b = none := by simp [colon_stops]
  refine ⟨?_,readSeparator_dot (by simp [dotless]) index⟩
  unfold readSeparator
  split
  · rw [readGivenChar_cons,Option.bind_some,readNumber_none (colon rest)]
  · exact readNumber_none (colon _)

end Groups

section Display

theorem readIpv6Addr_full {segments : List Nat} (eight : segments.length = 8) (small : ∀ segment ∈ segments, segment < 65536) :
    readIpv6Addr (groupsText segments) = some (segments,[]) := by
  have groups := @readGroups_render segments 0 8 [] (by omega) small (by simp) (by simp) (by omega)
  rw [List.append_nil] at groups
  change readGroups 0 8 (groupsText segments) = _ at groups
  rw [readIpv6Addr,groups]
  dsimp only
  rw [if_pos eight]

theorem readIpv6Addr_short {head tail : List Nat} {zeros : Nat} (some : 0 < zeros) (eight : head.length + (zeros + tail.length) = 8)
    (headSmall : ∀ segment ∈ head, segment < 65536) (tailSmall : ∀ segment ∈ tail, segment < 65536) :
    readIpv6Addr (groupsText head ++ (0x3a :: 0x3a :: groupsText tail)) = .some (head ++ (List.replicate zeros 0 ++ tail),[]) := by
  have dotless : (0x2e : UInt8) ∉ groupsText tail := groupsFrom_dotless 0 tail
  have front := @readGroups_render head 0 8 (0x3a :: 0x3a :: groupsText tail) (by omega) headSmall
    (by simp [dotless]) (by simp [colon_stops]) fun _ => stops_colons _ dotless
  have back := @readGroups_render tail 0 (8 - (head.length + 1)) [] (by omega) tailSmall (by simp) (by simp)
    fun _ => stops_nil _
  rw [List.append_nil] at back
  change readGroups 0 8 (groupsText head ++ _) = _ at front
  change readGroups 0 _ (groupsText tail) = _ at back
  rw [readIpv6Addr,front]
  dsimp only
  rw [if_neg (by omega),if_neg Bool.false_ne_true,readGivenChar_cons,Option.bind_eq_bind,Option.bind_some,readGivenChar_cons,
    Option.bind_some,back,show 8 - (head.length + tail.length) = zeros by omega,List.append_assoc]

theorem mappedOctets_some {segments octets : List Nat} (mapped : mappedOctets segments = some octets) :
    ∃ high low, segments = [0,0,0,0,0,65535,high,low] ∧ octets = [high / 256,high % 256,low / 256,low % 256] := by
  unfold mappedOctets at mapped
  split at mapped
  · cases mapped
    exact ⟨_,_,rfl,rfl⟩
  · cases mapped

theorem readIpv6Addr_mapped {high low : Nat} (highSmall : high < 65536) (lowSmall : low < 65536) :
    readIpv6Addr (ascii "::ffff:" ++ displayIpv4 [high / 256,high % 256,low / 256,low % 256]) =
      some ([0,0,0,0,0,65535,high,low],[]) := by
  have octets := @readIpv4Addr_display [high / 256,high % 256,low / 256,low % 256] rfl
    (by simp only [List.mem_cons,List.not_mem_nil,or_false]; rintro octet (rfl | rfl | rfl | rfl) <;> omega) [] (by simp)
  rw [List.append_nil] at octets
  generalize displayIpv4 [high / 256,high % 256,low / 256,low % 256] = text at octets ⊢
  have colon (text : List UInt8) : ∀ b ∈ ((0x3a : UInt8) :: text).head?, toDigit 16 b = none := by simp [colon_stops]
  have unread (text : List UInt8) (head : ∀ b ∈ text.head?, toDigit 10 b = none) : readIpv4Addr text = none := by
    unfold readIpv4Addr readOctet
    rw [readSeparator_first,readNumber_none head]
    rfl
  have written : ascii "::ffff:" ++ text = 0x3a :: 0x3a :: (ascii "ffff" ++ 0x3a :: text) := by simp [show ascii "::ffff:" = [0x3a,0x3a] ++ (ascii "ffff" ++ [0x3a]) from by decide]
  have front : readGroups 0 8 (0x3a :: 0x3a :: (ascii "ffff" ++ 0x3a :: text)) = (([],false),0x3a :: 0x3a :: (ascii "ffff" ++ 0x3a :: text)) := by
    rw [readGroups,readSeparator_first,unread _ (by simp [show toDigit 10 0x3a = none from by decide]),ite_self,readSeparator_first,
      readNumber_none (colon _)]
  have sixteen : readNumber 16 4 true 65535 (ascii "ffff" ++ 0x3a :: text) = some (65535,0x3a :: text) := by
    have read := @readNumber_render 16 (by decide) (by decide) 4 65535 65535 true (by decide) (by decide) (by decide) _ (colon text)
    rwa [show render 16 65535 = ascii "ffff" from by decide] at read
  have back : readGroups 0 7 (ascii "ffff" ++ 0x3a :: text) = (([65535,high,low],true),[]) := by
    rw [readGroups,readSeparator_first,unread _ (by simp [show (ascii "ffff").head? = some 0x66 from by decide, show toDigit 10 0x66 = none from by decide]),
      ite_self,readSeparator_first,sixteen]
    dsimp only
    rw [readGroups,if_pos (by decide),readSeparator_later 0x3a (by decide),octets]
    dsimp only [embeddedGroups]
    rw [Nat.div_add_mod',Nat.div_add_mod']
  rw [written,readIpv6Addr,front]
  dsimp only
  rw [if_neg (by decide),if_neg Bool.false_ne_true,readGivenChar_cons,Option.bind_eq_bind,Option.bind_some,readGivenChar_cons,
    Option.bind_some]
  dsimp only [List.length_nil,Nat.zero_add,Nat.reduceSub]
  rw [back]
  rfl

/-- What an address displays as: an IPv4-mapped address, a row with zeros left out, or the whole row. -/
theorem displayIpv6_cases {segments : List Nat} (eight : segments.length = 8) (small : ∀ segment ∈ segments, segment < 65536) :
    (∃ high < 65536, ∃ low < 65536, segments = [0,0,0,0,0,65535,high,low] ∧
      displayIpv6 segments = ascii "::ffff:" ++ displayIpv4 [high / 256,high % 256,low / 256,low % 256]) ∨
    (∃ head zeros tail, 0 < zeros ∧ segments = head ++ (List.replicate zeros 0 ++ tail) ∧
      displayIpv6 segments = groupsText head ++ (0x3a :: 0x3a :: groupsText tail)) ∨
    displayIpv6 segments = groupsText segments := by
  unfold displayIpv6
  split
  · rename_i octets mapped
    obtain ⟨high,low,rfl,rfl⟩ := mappedOctets_some mapped
    exact .inl ⟨high,small high (by simp),low,small low (by simp),rfl,rfl⟩
  · dsimp only
    split
    · rename_i long
      have some : 0 < (longestZeros segments).length := by omega
      refine .inr (.inl ⟨_,_,_,some,(spans_zeros segments).1.split some,?_⟩)
      rw [List.append_assoc]
      rfl
    · exact .inr (.inr rfl)

theorem readIpv6Addr_display {segments : List Nat} (eight : segments.length = 8) (small : ∀ segment ∈ segments, segment < 65536) :
    readIpv6Addr (displayIpv6 segments) = some (segments,[]) := by
  rcases displayIpv6_cases eight small with ⟨high,highSmall,low,lowSmall,rfl,text⟩ | ⟨head,zeros,tail,some,rfl,text⟩ | text
  · rw [text,readIpv6Addr_mapped highSmall lowSmall]
  · rw [List.length_append,List.length_append,List.length_replicate] at eight
    rw [text,readIpv6Addr_short some eight]
    · exact fun segment member => small segment (List.mem_append_left _ member)
    · exact fun segment member => small segment (List.mem_append_right _ (List.mem_append_right _ member))
  · rw [text,readIpv6Addr_full eight small]

theorem readIpv4Addr_groups {segments : List Nat} (eight : segments.length = 8) (small : ∀ segment ∈ segments, segment < 65536) :
    readIpv4Addr (displayIpv6 segments) = none := by
  rcases displayIpv6_cases eight small with ⟨high,-,low,-,-,text⟩ | ⟨head,zeros,tail,-,-,text⟩ | text
  · rw [text]
    rfl
  · rw [text]
    refine readIpv4Addr_dot ?_
    have front : (0x2e : UInt8) ∉ groupsText head := groupsFrom_dotless 0 head
    have back : (0x2e : UInt8) ∉ groupsText tail := groupsFrom_dotless 0 tail
    simp [front,back]
  · rw [text]
    exact readIpv4Addr_dot (groupsFrom_dotless 0 segments)

theorem parseIpv6_display {segments : List Nat} (eight : segments.length = 8) (small : ∀ segment ∈ segments, segment < 65536) :
    parseIpv6 (displayIpv6 segments) = some segments := by
  rw [parseIpv6,parseWith,readIpv6Addr_display eight small]

theorem readIpv4Addr_octets {octets : List Nat} (four : octets.length = 4) (small : ∀ octet ∈ octets, octet < 256) :
    readIpv4Addr (displayIpv4 octets) = some (octets,[]) := by
  have read := @readIpv4Addr_display _ four small [] (by simp)
  rwa [List.append_nil] at read

end Display

section Lengths

/-- The reader takes no more than `limit` bytes off a text. -/
def Within {α : Type} (limit : Nat) (reader : Reader α) : Prop :=
  ∀ text value rest, reader text = some (value,rest) → text.length ≤ rest.length + limit

theorem within_number (radix maxDigits : Nat) (allowZeroPrefix : Bool) (max : Nat) :
    Within maxDigits (readNumber radix maxDigits allowZeroPrefix max) := by
  intro text value rest read
  have parts := congrArg List.length
    (List.takeWhile_append_dropWhile (p := fun byte => (toDigit radix byte).isSome) (l := text))
  rw [List.length_append] at parts
  simp only [readNumber] at read
  split at read
  · cases read
  · rename_i short
    simp only [Bool.or_eq_true,decide_eq_true_eq,not_or,gt_iff_lt,Nat.not_lt] at short
    split at read
    · cases read
    · split at read
      · cases read
        omega
      · cases read

theorem within_separator {α : Type} (separator : UInt8) (index : Nat) {limit : Nat} {inner : Reader α} (inside : Within limit inner) :
    Within (limit + 1) (readSeparator separator index inner) := by
  intro text value rest read
  unfold readSeparator at read
  split at read
  · obtain ⟨⟨_,behind⟩,separated,within⟩ := Option.bind_eq_some_iff.mp read
    cases text with
    | nil => cases separated
    | cons first text =>
      simp only [readGivenChar] at separated
      split at separated
      · cases separated
        have := inside behind _ _ within
        rw [List.length_cons]
        omega
      · cases separated
  · have := inside text value rest read
    omega

theorem within_ipv4 : Within 16 readIpv4Addr := by
  intro text value rest read
  have octet (index : Nat) : Within 4 (readOctet index) := within_separator 0x2e index (within_number 10 3 false 255)
  obtain ⟨⟨one,behindOne⟩,first,read⟩ := Option.bind_eq_some_iff.mp read
  obtain ⟨⟨two,behindTwo⟩,second,read⟩ := Option.bind_eq_some_iff.mp read
  obtain ⟨⟨three,behindThree⟩,third,read⟩ := Option.bind_eq_some_iff.mp read
  obtain ⟨⟨four,behindFour⟩,fourth,read⟩ := Option.bind_eq_some_iff.mp read
  cases read
  have := octet 0 _ _ _ first
  have := octet 1 _ _ _ second
  have := octet 2 _ _ _ third
  have := octet 3 _ _ _ fourth
  omega

theorem readGroups_length (left : Nat) : ∀ (index : Nat) (text : List UInt8),
    text.length ≤ (readGroups index left text).2.length + 17 * left := by
  induction left with
  | zero => exact fun _ _ => Nat.le_refl _
  | succ left ih =>
    intro index text
    rw [readGroups]
    split
    · rename_i octets rest embedded
      split at embedded
      · have := within_separator 0x3a index within_ipv4 text octets rest embedded
        dsimp only
        omega
      · cases embedded
    · split
      · rename_i group rest number
        have := within_separator 0x3a index (within_number 16 4 true 65535) text group rest number
        have := ih (index + 1) rest
        dsimp only
        omega
      · dsimp only
        omega

theorem readGivenChar_length {target : UInt8} {text rest : List UInt8} (read : readGivenChar target text = some ((),rest)) :
    text.length = rest.length + 1 := by
  cases text with
  | nil => cases read
  | cons first text =>
    simp only [readGivenChar] at read
    split at read
    · cases read
      rfl
    · cases read

theorem within_ipv6 : Within 274 readIpv6Addr := by
  intro text value rest read
  have front := readGroups_length 8 0 text
  unfold readIpv6Addr at read
  split at read
  rename_i head headIpv4 behind groups
  rw [groups] at front
  dsimp only at front
  split at read
  · cases read
    omega
  · rename_i partial'
    split at read
    · cases read
    · obtain ⟨⟨_,afterOne⟩,first,read⟩ := Option.bind_eq_some_iff.mp read
      obtain ⟨⟨_,afterTwo⟩,second,read⟩ := Option.bind_eq_some_iff.mp read
      cases read
      have := readGroups_length (8 - (head.length + 1)) 0 afterTwo
      have := readGivenChar_length first
      have := readGivenChar_length second
      omega

end Lengths

end Polyguard.Address

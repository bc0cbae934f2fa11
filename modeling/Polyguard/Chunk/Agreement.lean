import Polyguard.Chunk.Segments

/-! Whole chunk lines.
The five implementations share the boundary and the size of a line and read the
same extension list. They differ in what they answer to three kinds of lists:
text that is not ASCII, bytes that are no text, and faults in a long list. -/
namespace Polyguard.ChunkAgreement
open Ascii Slices ChunkGrammar ChunkRefinement ChunkSegments

/-- A line with its size in front and an answer to its extension list. -/
def assembled (answer : Option (List UInt8) → Result (List ChunkExtension)) (input : List UInt8) :
    Result ChunkMeta := do
  let stop ← frameFrom 0 input
  let size ← chunkSize (splitPlain (input.take stop)).1
  let extensions ← answer (splitPlain (input.take stop)).2
  .ok ⟨size,extensions,stop + 2⟩

private theorem size_end (line : List UInt8) :
    (position (· == 0x3b) line).getD line.length = (splitPlain line).1.length ∧
      (position (· == 0x3b) line).isSome = (splitPlain line).2.isSome := by
  have negated : (fun byte => !isPlain byte) = fun byte : UInt8 => byte == 0x3b := by
    funext byte
    simp [isPlain,bne]
  constructor
  · have found := position_takeWhile isPlain line
    rwa [negated] at found
  · have join := splitPlain_join line
    cases rest : (splitPlain line).2 with
    | none =>
      rw [rest,joined,List.append_nil] at join
      have miss : ∀ b ∈ line, (b == 0x3b) = false := by
        intro b member
        rw [← join] at member
        simpa using splitPlain_plain line b member
      rw [position_none miss]
      rfl
    | some text =>
      rw [rest,joined] at join
      have miss : ∀ b ∈ (splitPlain line).1, (b == 0x3b) = false := by
        intro b member
        simpa using splitPlain_plain line b member
      have found := position_append text miss (show ((0x3b : UInt8) == 0x3b) = true by rfl)
      rw [join] at found
      rw [found]
      rfl

private theorem size_split (line : List UInt8) :
    line.take (splitPlain line).1.length = (splitPlain line).1 ∧
      line.drop (splitPlain line).1.length = joined (splitPlain line).2 := by
  have join := splitPlain_join line
  constructor
  · have cutting := congrArg (List.take (splitPlain line).1.length) join
    rw [List.take_left] at cutting
    exact cutting.symm
  · have cutting := congrArg (List.drop (splitPlain line).1.length) join
    rw [List.drop_left] at cutting
    exact cutting.symm

/-- The line that a boundary leaves. -/
private theorem framed_line {input : List UInt8} {stop : Nat} (framed : frameFrom 0 input = .ok stop) :
    (∀ b ∈ input.take stop, Inner b) ∧ (input.take stop).length = stop ∧ stop ≤ chunkLineBytes := by
  obtain ⟨line,rest,rfl,clean,rfl,fits⟩ := (frameFrom_ok 0 stop input (by decide)).mp framed
  rw [Nat.zero_add] at fits ⊢
  rw [List.take_left]
  exact ⟨clean,rfl,fits⟩

theorem pipeline_meta (input : List UInt8) :
    ChunkRulePipeline.parseChunkMetadata input =
      assembled (fun rest => listed "invalid_extension_value" (readAll chunkExtensions rest)) input := by
  have marks : (fun byte => ChunkRulePipeline.classify byte == .semicolon) = fun byte : UInt8 => byte == 0x3b := by
    funext byte
    exact forall_byte (p := fun b => (ChunkRulePipeline.classify b == .semicolon) = (b == 0x3b))
      (by decide) byte
  unfold ChunkRulePipeline.parseChunkMetadata assembled
  rw [pipeline_line,framed,bind_assoc]
  simp only [bind_ok,marks,(size_end _).1,(size_split _).1,(size_split _).2,pipeline_size,
    pipeline_list chunkExtensions (chunkExtensions + 1) 0 _ (by decide) (by decide)]

theorem guarded_meta (input : List UInt8) :
    ChunkGuardedParts.parseChunkMetadata input =
      assembled (fun rest => listed "invalid_quoted_string" (readAll chunkExtensions rest)) input := by
  have parts (line : List UInt8) : ChunkGuardedParts.separateSize line = splitPlain line := by
    have ends := size_end line
    have split := size_split line
    unfold ChunkGuardedParts.separateSize
    cases found : position (· == 0x3b) line with
    | none =>
      rw [found] at ends
      cases rest : (splitPlain line).2 with
      | none =>
        have whole := splitPlain_join line
        rw [rest,joined,List.append_nil] at whole
        exact Prod.ext whole.symm rest.symm
      | some text =>
        rw [rest] at ends
        cases ends.2
    | some delimiter =>
      rw [found] at ends
      cases rest : (splitPlain line).2 with
      | none =>
        rw [rest] at ends
        cases ends.2
      | some text =>
        simp only [Option.getD_some] at ends
        rw [rest,joined] at split
        refine Prod.ext ?_ ?_
        · rw [ends.1]
          exact split.1
        · change some (line.drop (delimiter + 1)) = _
          rw [rest,ends.1,← List.drop_drop,split.2]
          rfl
  unfold ChunkGuardedParts.parseChunkMetadata assembled
  rw [guarded_line,framed,bind_assoc]
  simp only [bind_ok,parts,guarded_size]
  congr 1
  funext stop
  congr 1
  funext size
  cases (splitPlain (input.take stop)).2 with
  | none => rfl
  | some text =>
    have ran := guarded_list chunkExtensions (chunkExtensions + 1) [] text (by decide) rfl
    simp only [List.nil_append,bind_self] at ran
    simp only [ChunkGuardedParts.parseExtensions,ran]

theorem spans_meta (input : List UInt8) :
    ChunkInvariantSpans.parseChunkMetadata input =
      assembled (fun rest => listed "invalid_quoted_string" (readAll chunkExtensions rest)) input := by
  unfold ChunkInvariantSpans.parseChunkMetadata assembled
  rw [spans_line,framed,bind_assoc]
  cases framed : frameFrom 0 input with
  | error error => rfl
  | ok stop =>
    obtain ⟨_,length,fits⟩ := framed_line framed
    have ran := spans_list (input.take stop) chunkExtensions (chunkExtensions + 1)
      (splitPlain (input.take stop)).1.length [] (splitPlain (input.take stop)).2 (by omega) (by decide) rfl
      (size_split _).2
    simp only [List.map_nil,List.nil_append,bind_self] at ran
    simp only [bind_ok,ChunkInvariantSpans.validateLineGrammar,(size_end _).1,(size_split _).1,spans_size,
      ← ran,bind_assoc]

theorem iterator_meta (input : List UInt8) :
    ChunkSymbolRuleIterator.parseChunkMetadata input =
      assembled (fun rest => iteratedList (readAll chunkExtensions rest)) input := by
  unfold ChunkSymbolRuleIterator.parseChunkMetadata assembled
  rw [iterator_line,bind_assoc]
  cases framed : frameFrom 0 input with
  | error error => rfl
  | ok stop =>
    obtain ⟨clean,length,_⟩ := framed_line framed
    have inner : ∀ b ∈ joined (splitPlain (input.take stop)).2, Inner b := by
      intro b member
      rw [← (size_split (input.take stop)).2] at member
      exact clean b (List.mem_of_mem_drop member)
    simp only [bind_ok,(size_end _).1,(size_split _).1,(size_split _).2,iterator_size,length,
      iterator_list chunkExtensions (chunkExtensions + 1) 0 _ (by decide) (by decide) inner]

theorem segments_meta (input : List UInt8) :
    ChunkComposableSegments.parseChunkMetadata input =
      assembled segmented input := by
  unfold ChunkComposableSegments.parseChunkMetadata assembled
  rw [segments_line,framed,bind_assoc]
  cases frameFrom 0 input with
  | error error => rfl
  | ok stop =>
    have ran := segments_list (input.take stop) (splitPlain (input.take stop)).2
      (position (· == 0x3b) (input.take stop)) (size_end _).2 (by rw [(size_end _).1,(size_split _).2])
    simp only [bind_ok,(size_end _).1,(size_split _).1,segments_size,← ran,bind_assoc]

/-- The input starts with a framed line of a valid size, and this is the extension list behind the size. -/
def Extensions (input : List UInt8) (rest : Option (List UInt8)) : Prop :=
  ∃ stop size, frameFrom 0 input = .ok stop ∧ chunkSize (splitPlain (input.take stop)).1 = .ok size ∧
    rest = (splitPlain (input.take stop)).2

theorem assembled_eq_iff {input : List UInt8} {rest : Option (List UInt8)} (extensions : Extensions input rest)
    (first second : Option (List UInt8) → Result (List ChunkExtension)) :
    assembled first input = assembled second input ↔ first rest = second rest := by
  obtain ⟨stop,size,framed,sized,rfl⟩ := extensions
  unfold assembled
  rw [framed,bind_ok,bind_ok,sized,bind_ok,bind_ok]
  cases first (splitPlain (input.take stop)).2 <;> cases second (splitPlain (input.take stop)).2 <;> simp

theorem assembled_unframed {input : List UInt8} (unframed : ∀ rest, ¬ Extensions input rest)
    (first second : Option (List UInt8) → Result (List ChunkExtension)) :
    assembled first input = assembled second input := by
  unfold assembled
  cases framed : frameFrom 0 input with
  | error error => rfl
  | ok stop =>
    rw [bind_ok,bind_ok]
    cases sized : chunkSize (splitPlain (input.take stop)).1 with
    | error error => rfl
    | ok size => exact absurd ⟨stop,size,framed,sized,rfl⟩ (unframed _)

/-- The lists on which the implementations answer differently. `rest` is read up to its first fault and
up to sixteen extensions. -/
inductive Divisive (rest : Option (List UInt8)) : Prop where
  | torn : (readAll chunkExtensions rest).2 = .faulty .torn → Divisive rest
  | crowded {fault : Fault} : (readAll chunkExtensions rest).2 = .faulty fault →
      cutAll chunkExtensions rest = none → Divisive rest
  | foreign {extension : Extension} : extension ∈ (readAll chunkExtensions rest).1 → extension.isForeign →
      (readAll chunkExtensions rest).2 ≠ .faulty .quoted → Divisive rest
  | stray {raw : List UInt8} : (readAll chunkExtensions rest).2 = .faulty (.stray raw) → isForeign raw →
      Divisive rest

private theorem pipeline_iff (reading : List Extension × Ending) :
    listed "invalid_extension_value" reading = listed "invalid_quoted_string" reading ↔
      reading.2 ≠ .faulty .torn := by
  obtain ⟨extensions,ending⟩ := reading
  cases ending with
  | done => simp [listed]
  | overflow => simp [listed]
  | faulty fault => cases fault <;> simp [listed,reason,invalidChunk]

private theorem iterator_iff (reading : List Extension × Ending) (whole : reading.2 ≠ .faulty .torn) :
    iteratedList reading = listed "invalid_quoted_string" reading ↔
      ¬ ((∃ extension ∈ reading.1, extension.isForeign) ∧ reading.2 ≠ .faulty .quoted) ∧
      ¬ ∃ raw, reading.2 = .faulty (.stray raw) ∧ isForeign raw := by
  obtain ⟨extensions,ending⟩ := reading
  rw [← List.any_eq_true]
  cases foreign : extensions.any Extension.isForeign with
  | true =>
    cases ending with
    | done => simp [iteratedList,foreign,listed,invalidChunk]
    | overflow => simp [iteratedList,foreign,listed,invalidChunk,extensionLimit]
    | faulty fault =>
      cases fault with
      | torn => exact absurd rfl whole
      | stray raw => cases other : isForeign raw <;> simp [iteratedList,foreign,listed,reason,invalidChunk]
      | _ => simp [iteratedList,foreign,listed,reason,invalidChunk]
  | false =>
    cases ending with
    | faulty fault =>
      cases fault with
      | stray raw => cases other : isForeign raw <;> simp [iteratedList,foreign,listed,reason,invalidChunk,other]
      | _ => simp [iteratedList,foreign]
    | _ => simp [iteratedList,foreign]

private theorem segments_iff (rest : Option (List UInt8)) (whole : (readAll chunkExtensions rest).2 ≠ .faulty .torn) :
    segmented rest = listed "invalid_quoted_string" (readAll chunkExtensions rest) ↔
      ¬ ∃ fault, (readAll chunkExtensions rest).2 = .faulty fault ∧ cutAll chunkExtensions rest = none := by
  have same := (pipeline_iff (readAll chunkExtensions rest)).mpr whole
  have ends := cutAll_ending chunkExtensions rest
  unfold segmented
  cases cuts : cutAll chunkExtensions rest with
  | some segments => simp [same]
  | none =>
    rw [cuts] at ends
    generalize readAll chunkExtensions rest = reading at ends
    obtain ⟨extensions,ending⟩ := reading
    cases ending with
    | done => exact absurd rfl (ends.2 rfl)
    | overflow => simp [listed]
    | faulty fault => simp [listed,extensionLimit,invalidChunk]

theorem answers_iff (rest : Option (List UInt8)) :
    (listed "invalid_extension_value" (readAll chunkExtensions rest) =
        listed "invalid_quoted_string" (readAll chunkExtensions rest) ∧
      iteratedList (readAll chunkExtensions rest) = listed "invalid_quoted_string" (readAll chunkExtensions rest) ∧
      segmented rest = listed "invalid_quoted_string" (readAll chunkExtensions rest)) ↔ ¬ Divisive rest := by
  rw [pipeline_iff]
  by_cases torn : (readAll chunkExtensions rest).2 = .faulty .torn
  · constructor
    · intro same
      exact absurd torn same.1
    · intro settled
      exact absurd (.torn torn) settled
  · rw [iterator_iff _ torn,segments_iff _ torn]
    constructor
    · intro same divisive
      obtain ⟨_,⟨plain,unstray⟩,uncrowded⟩ := same
      cases divisive with
      | torn found => exact torn found
      | crowded found cuts => exact uncrowded ⟨_,found,cuts⟩
      | foreign member found ending => exact plain ⟨⟨_,member,found⟩,ending⟩
      | stray found outside => exact unstray ⟨_,found,outside⟩
    · intro settled
      refine ⟨torn,⟨?_,?_⟩,?_⟩
      · intro found
        obtain ⟨⟨extension,member,foreign⟩,ending⟩ := found
        exact settled (.foreign member foreign ending)
      · intro found
        obtain ⟨raw,ending,foreign⟩ := found
        exact settled (.stray ending foreign)
      · intro found
        obtain ⟨fault,ending,cuts⟩ := found
        exact settled (.crowded ending cuts)

/-- The implementations agree on an input exactly when it has no divisive extension list. -/
theorem chunk_agreement_iff (input : List UInt8) :
    Agree chunkImplementations input ↔ ¬ ∃ rest, Extensions input rest ∧ Divisive rest := by
  have reference : Agree chunkImplementations input ↔
      ChunkRulePipeline.parseChunkMetadata input = ChunkGuardedParts.parseChunkMetadata input ∧
      ChunkSymbolRuleIterator.parseChunkMetadata input = ChunkGuardedParts.parseChunkMetadata input ∧
      ChunkComposableSegments.parseChunkMetadata input = ChunkGuardedParts.parseChunkMetadata input := by
    constructor
    · intro agree
      refine ⟨?_,?_,?_⟩
      all_goals exact agree _ (by simp [chunkImplementations]) _ (by simp [chunkImplementations])
    · intro same
      apply agree_of_reference (ChunkGuardedParts.parseChunkMetadata input)
      intro parse member
      simp only [chunkImplementations,List.mem_cons,List.not_mem_nil,or_false] at member
      rcases member with rfl | rfl | rfl | rfl | rfl
      · exact same.1
      · rfl
      · rw [spans_meta,guarded_meta]
      · exact same.2.1
      · exact same.2.2
  rw [reference,pipeline_meta,guarded_meta,iterator_meta,segments_meta]
  by_cases framed : ∃ rest, Extensions input rest
  · obtain ⟨rest,extensions⟩ := framed
    rw [assembled_eq_iff extensions,assembled_eq_iff extensions,assembled_eq_iff extensions,answers_iff]
    constructor
    · intro settled divided
      obtain ⟨other,found,divisive⟩ := divided
      obtain ⟨stop,size,framed,_,rfl⟩ := extensions
      obtain ⟨stop',size',framed',_,rfl⟩ := found
      rw [framed] at framed'
      cases framed'
      exact settled divisive
    · intro settled divisive
      exact settled ⟨rest,extensions,divisive⟩
  · have unframed : ∀ rest, ¬ Extensions input rest := fun rest extensions => framed ⟨rest,extensions⟩
    constructor
    · intro _ divided
      obtain ⟨rest,extensions,_⟩ := divided
      exact unframed rest extensions
    · intro _
      exact ⟨assembled_unframed unframed _ _,assembled_unframed unframed _ _,assembled_unframed unframed _ _⟩

/-- A quoted value with one letter outside ASCII. -/
theorem chunk_disagreement :
    ¬ Agree chunkImplementations (ascii "1;a=\"" ++ [0xc3,0xa9] ++ ascii "\"\r\n") := by
  decide +kernel

/-- Extensions as they stand in a line, each behind its semicolon. -/
def listText (extensions : List Extension) : List UInt8 := extensions.flatMap fun extension => 0x3b :: extension.text

theorem readAll_done_iff (count : Nat) (rest : Option (List UInt8)) (extensions : List Extension) :
    readAll count rest = (extensions,.done) ↔
      extensions.length ≤ count ∧ (∀ extension ∈ extensions, extension.Sound) ∧ joined rest = listText extensions := by
  induction count generalizing rest extensions with
  | zero =>
    cases rest with
    | none =>
      cases extensions with
      | nil => simp [readAll,joined,listText]
      | cons extension extensions => simp [readAll]
    | some text =>
      cases extensions with
      | nil => simp [readAll,joined,listText]
      | cons extension extensions => simp [readAll]
  | succ count ih =>
    cases rest with
    | none =>
      cases extensions with
      | nil => simp [readAll,joined,listText]
      | cons extension extensions => simp [readAll,joined,listText]
    | some text =>
      rw [readAll]
      constructor
      · intro done
        cases read : readExtension text with
        | error fault =>
          rw [read] at done
          cases done
        | ok parts =>
          obtain ⟨extension,rest⟩ := parts
          rw [read] at done
          simp only [Prod.mk.injEq] at done
          obtain ⟨rfl,ended⟩ := done
          obtain ⟨sound,rfl⟩ := (readExtension_ok_iff text extension rest).mp read
          obtain ⟨length,others,joins⟩ := (ih rest _).mp (Prod.ext rfl ended)
          refine ⟨Nat.succ_le_succ length,?_,?_⟩
          · intro other member
            rcases List.mem_cons.mp member with rfl | inside
            · exact sound
            · exact others other inside
          · change 0x3b :: (extension.text ++ joined rest) = _
            rw [joins]
            rfl
      · intro described
        obtain ⟨length,sound,joins⟩ := described
        cases extensions with
        | nil => simp [joined,listText] at joins
        | cons extension extensions =>
          obtain ⟨rest,same⟩ : ∃ rest, joined rest = listText extensions := by
            cases extensions with
            | nil => exact ⟨none,rfl⟩
            | cons other others => exact ⟨some (other.text ++ listText others),rfl⟩
          have text_eq : text = extension.text ++ joined rest := by
            rw [same]
            exact (List.cons_eq_cons.mp joins).2
          have read := (readExtension_ok_iff text extension rest).mpr ⟨sound extension (by simp),text_eq⟩
          have later := (ih rest extensions).mpr ⟨by simpa using length,fun other member => sound other (by simp [member]),same⟩
          rw [read]
          simp [later]

/-- What a line of an accepted input says: its size, its extensions and its CRLF. -/
structure ChunkLine where
  digits : List UInt8
  extensions : List Extension
  sized : digits ≠ [] ∧ digits.length ≤ 16 ∧ digits.all isAsciiHexdigit ∧ hexNumber digits ≤ chunkSizeLimit
  formed : extensions.length ≤ chunkExtensions ∧ ∀ extension ∈ extensions, extension.Formed
  bounded : (digits ++ listText extensions).length ≤ chunkLineBytes ∧
    ∀ b ∈ digits ++ listText extensions, isAsciiControl b = false

def ChunkLine.content (line : ChunkLine) : List UInt8 := line.digits ++ listText line.extensions

def ChunkLine.denote (line : ChunkLine) : ChunkMeta :=
  ⟨hexNumber line.digits,line.extensions.map Extension.denote,line.content.length + 2⟩

theorem chunkSize_ok_iff (digits : List UInt8) (size : Nat) :
    chunkSize digits = .ok size ↔
      (digits ≠ [] ∧ digits.length ≤ 16 ∧ digits.all isAsciiHexdigit ∧ hexNumber digits ≤ chunkSizeLimit) ∧
        size = hexNumber digits := by
  unfold chunkSize
  constructor
  · intro ok
    repeat' split at ok
    all_goals cases ok
    rename_i checked within
    simp only [not_or,Bool.not_eq_false] at checked
    exact ⟨⟨checked.1,by omega,checked.2.2,by omega⟩,rfl⟩
  · intro described
    obtain ⟨⟨filled,short,hex,within⟩,rfl⟩ := described
    rw [if_neg (by simp only [not_or,Bool.not_eq_false]; exact ⟨filled,by omega,hex⟩),if_neg (by omega)]

/-- The list is read to its end and its value is the metadata. -/
private def Read (input : List UInt8) (chunk : ChunkMeta) (sound : Extension → Prop) : Prop :=
  ∃ stop size extensions, frameFrom 0 input = .ok stop ∧ chunkSize (splitPlain (input.take stop)).1 = .ok size ∧
    readAll chunkExtensions (splitPlain (input.take stop)).2 = (extensions,.done) ∧
    (∀ extension ∈ extensions, sound extension) ∧ chunk = ⟨size,extensions.map Extension.denote,stop + 2⟩

private theorem assembled_ok_iff (answer : Option (List UInt8) → Result (List ChunkExtension))
    (sound : Extension → Prop)
    (answers : ∀ rest list, answer rest = .ok list ↔ ∃ extensions,
      readAll chunkExtensions rest = (extensions,.done) ∧ (∀ extension ∈ extensions, sound extension) ∧
        list = extensions.map Extension.denote)
    (input : List UInt8) (chunk : ChunkMeta) : assembled answer input = .ok chunk ↔ Read input chunk sound := by
  unfold assembled Read
  constructor
  · intro ok
    obtain ⟨stop,framed,ok⟩ := bind_success ok
    obtain ⟨size,sized,ok⟩ := bind_success ok
    obtain ⟨list,answered,same⟩ := bind_success ok
    obtain ⟨extensions,read,each,rfl⟩ := (answers _ _).mp answered
    cases same
    exact ⟨stop,size,extensions,framed,sized,read,each,rfl⟩
  · intro described
    obtain ⟨stop,size,extensions,framed,sized,read,each,rfl⟩ := described
    rw [framed,bind_ok,sized,bind_ok,(answers _ _).mpr ⟨extensions,read,each,rfl⟩]
    rfl

private theorem listed_ok_iff (torn : String) (reading : List Extension × Ending) (list : List ChunkExtension) :
    listed torn reading = .ok list ↔ ∃ extensions, reading = (extensions,.done) ∧
      (∀ extension ∈ extensions, True) ∧ list = extensions.map Extension.denote := by
  obtain ⟨extensions,ending⟩ := reading
  cases ending <;> simp [listed,extensionLimit,invalidChunk,eq_comm]

private theorem segmented_ok_iff (rest : Option (List UInt8)) (list : List ChunkExtension) :
    segmented rest = .ok list ↔ ∃ extensions, readAll chunkExtensions rest = (extensions,.done) ∧
      (∀ extension ∈ extensions, True) ∧ list = extensions.map Extension.denote := by
  have ends := cutAll_ending chunkExtensions rest
  rw [← listed_ok_iff "invalid_extension_value"]
  unfold segmented
  cases cuts : cutAll chunkExtensions rest with
  | some segments => rfl
  | none =>
    rw [cuts] at ends
    generalize readAll chunkExtensions rest = reading at ends
    obtain ⟨extensions,ending⟩ := reading
    cases ending with
    | done => exact absurd rfl (ends.2 rfl)
    | _ => simp [listed,extensionLimit,invalidChunk]

private theorem iterated_ok_iff (reading : List Extension × Ending) (list : List ChunkExtension) :
    iteratedList reading = .ok list ↔ ∃ extensions, reading = (extensions,.done) ∧
      (∀ extension ∈ extensions, extension.isForeign = false) ∧ list = extensions.map Extension.denote := by
  obtain ⟨extensions,ending⟩ := reading
  cases foreign : extensions.any Extension.isForeign with
  | true =>
    obtain ⟨extension,member,outside⟩ := List.any_eq_true.mp foreign
    constructor
    · intro ok
      simp [iteratedList,foreign,invalidChunk] at ok
    · intro described
      obtain ⟨others,same,plain,_⟩ := described
      obtain ⟨rfl,_⟩ := Prod.mk.inj same
      rw [plain extension member] at outside
      cases outside
  | false =>
    have plain : ∀ extension ∈ extensions, extension.isForeign = false := by simpa using foreign
    cases ending with
    | done =>
      simp only [iteratedList,foreign,Bool.false_eq_true,if_false,listed]
      constructor
      · intro ok
        cases ok
        exact ⟨extensions,rfl,plain,rfl⟩
      · intro described
        obtain ⟨others,same,_,rfl⟩ := described
        cases same
        rfl
    | overflow => simp [iteratedList,foreign,listed,extensionLimit]
    | faulty fault =>
      cases fault with
      | stray raw => cases other : isForeign raw <;> simp [iteratedList,foreign,invalidChunk,other]
      | _ => simp [iteratedList,foreign,listed,invalidChunk]

/-- On ASCII a formed value is a text and no value is foreign. -/
private theorem ascii_extension {extension : Extension} (small : ∀ b ∈ extension.text, isAscii b) :
    (extension.Formed → extension.Sound) ∧ extension.isForeign = false := by
  obtain ⟨name,value⟩ := extension
  cases value with
  | none => exact ⟨fun formed => ⟨formed.1,formed.2.1,by simp⟩,rfl⟩
  | some value =>
    cases value with
    | token bytes =>
      refine ⟨fun formed => ⟨formed.1,formed.2.1,?_⟩,rfl⟩
      intro value same
      cases same
      have shape := formed.2.2 _ rfl
      exact ⟨shape,token_text shape.2⟩
    | quoted raw =>
      have rawSmall : ∀ b ∈ raw, isAscii b := by
        intro b member
        apply small b
        simp [Extension.text,Value.text,member]
      refine ⟨fun formed => ⟨formed.1,formed.2.1,?_⟩,?_⟩
      · intro value same
        cases same
        exact ⟨formed.2.2 _ rfl,Utf8.valid_of_ascii fun b member => rawSmall b (unescape_subset member)⟩
      · simpa [Extension.isForeign,Value.isForeign,isForeign] using rawSmall

private theorem formed_of_sound {extension : Extension} (sound : extension.Sound) : extension.Formed :=
  ⟨sound.1,sound.2.1,fun value member => (sound.2.2 value member).1⟩

private theorem list_mem {extensions : List Extension} {extension : Extension} (member : extension ∈ extensions)
    {b : UInt8} (inside : b ∈ extension.text) : b ∈ listText extensions := by
  unfold listText
  rw [List.mem_flatMap]
  exact ⟨extension,member,by simp [inside]⟩

/-- A read line is a line of the grammar, for every reader that takes ASCII extensions. -/
private theorem read_iff (sound : Extension → Prop) (input : List UInt8) (chunk : ChunkMeta)
    (small : ∀ b ∈ input, isAscii b)
    (takes : ∀ extension : Extension, (∀ b ∈ extension.text, isAscii b) → sound extension) :
    Read input chunk sound ↔ ∃ (line : ChunkLine) (rest : List UInt8),
      input = line.content ++ 0x0d :: 0x0a :: rest ∧ chunk = line.denote := by
  constructor
  · intro read
    obtain ⟨stop,size,extensions,framed,sized,done,_,rfl⟩ := read
    obtain ⟨line,rest,rfl,clean,rfl,fits⟩ := (frameFrom_ok 0 stop _ (by decide)).mp framed
    rw [Nat.zero_add,List.take_left] at sized done
    obtain ⟨shape,rfl⟩ := (chunkSize_ok_iff _ _).mp sized
    obtain ⟨length,each,joins⟩ := (readAll_done_iff _ _ _).mp done
    have join := splitPlain_join line
    rw [joins] at join
    refine ⟨⟨(splitPlain line).1,extensions,shape,⟨length,fun extension member => formed_of_sound (each extension member)⟩,
      ?_⟩,rest,?_,?_⟩
    · rw [join]
      exact ⟨by omega,clean⟩
    · simp only [ChunkLine.content]
      rw [join]
    · simp only [ChunkLine.denote,ChunkLine.content]
      rw [join,Nat.zero_add]
  · intro described
    obtain ⟨line,rest,rfl,rfl⟩ := described
    obtain ⟨digits,extensions,sized,⟨length,formed⟩,fits,clean⟩ := line
    simp only [ChunkLine.content,ChunkLine.denote] at small ⊢
    have framed := (frameFrom_ok 0 (digits ++ listText extensions).length _ (by decide)).mpr
      ⟨digits ++ listText extensions,rest,rfl,clean,by rw [Nat.zero_add],fits⟩
    have textSmall (extension : Extension) (member : extension ∈ extensions) : ∀ b ∈ extension.text, isAscii b := by
      intro b inside
      apply small b
      simp [list_mem member inside]
    obtain ⟨behind,same⟩ : ∃ behind, joined behind = listText extensions := by
      cases extensions with
      | nil => exact ⟨none,rfl⟩
      | cons other others => exact ⟨some (other.text ++ listText others),rfl⟩
    have plain : ∀ b ∈ digits, isPlain b := by
      intro b member
      have hex := List.all_eq_true.mp sized.2.2.1 b member
      revert hex
      exact forall_byte (p := fun b => isAsciiHexdigit b → isPlain b) (by decide) b
    have split : splitPlain (digits ++ listText extensions) = (digits,behind) := by
      rw [← same,splitPlain,List.takeWhile_append_of_pos plain,List.dropWhile_append_of_pos plain]
      cases behind <;> simp [joined,isPlain]
    refine ⟨_,_,extensions,framed,?_,?_,fun extension member => takes extension (textSmall extension member),rfl⟩
    · rw [List.take_left,split]
      exact (chunkSize_ok_iff _ _).mpr ⟨sized,rfl⟩
    · rw [List.take_left,split]
      refine (readAll_done_iff _ _ _).mpr ⟨length,?_,same⟩
      intro extension member
      exact (ascii_extension (textSmall extension member)).1 (formed extension member)

/-- Every implementation reads a line with the extensions it takes, which the ASCII ones are. -/
private theorem readers (parse : List UInt8 → Result ChunkMeta) (member : parse ∈ chunkImplementations) :
    ∃ sound : Extension → Prop, (∀ extension : Extension, (∀ b ∈ extension.text, isAscii b) → sound extension) ∧
      ∀ input chunk, parse input = .ok chunk ↔ Read input chunk sound := by
  simp only [chunkImplementations,List.mem_cons,List.not_mem_nil,or_false] at member
  rcases member with rfl | rfl | rfl | rfl | rfl
  · refine ⟨_,fun _ _ => trivial,fun input chunk => ?_⟩
    rw [pipeline_meta,assembled_ok_iff _ _ (fun rest list => listed_ok_iff _ _ list)]
  · refine ⟨_,fun _ _ => trivial,fun input chunk => ?_⟩
    rw [guarded_meta,assembled_ok_iff _ _ (fun rest list => listed_ok_iff _ _ list)]
  · refine ⟨_,fun _ _ => trivial,fun input chunk => ?_⟩
    rw [spans_meta,assembled_ok_iff _ _ (fun rest list => listed_ok_iff _ _ list)]
  · refine ⟨_,fun _ text => (ascii_extension text).2,fun input chunk => ?_⟩
    rw [iterator_meta,assembled_ok_iff _ _ (fun rest list => iterated_ok_iff _ list)]
  · refine ⟨_,fun _ _ => trivial,fun input chunk => ?_⟩
    rw [segments_meta,assembled_ok_iff _ _ segmented_ok_iff]

theorem line_read (line : ChunkLine) (small : ∀ b ∈ line.content, isAscii b) :
    ∀ parse ∈ chunkImplementations, parse (line.content ++ [0x0d,0x0a]) = .ok line.denote := by
  intro parse member
  obtain ⟨sound,takes,reads⟩ := readers parse member
  rw [reads,read_iff sound _ _ ?_ takes]
  · exact ⟨line,[],rfl,rfl⟩
  · intro b inside
    rcases List.mem_append.mp inside with content | ending
    · exact small b content
    · simp only [List.mem_cons,List.not_mem_nil,or_false] at ending
      rcases ending with rfl | rfl
      · rfl
      · rfl

/-- On ASCII input every implementation accepts exactly the lines of the grammar. -/
theorem chunk_exact_ascii (input : List UInt8) (small : ∀ b ∈ input, isAscii b) (chunk : ChunkMeta) :
    ∀ parse ∈ chunkImplementations, parse input = .ok chunk ↔
      ∃ (line : ChunkLine) (rest : List UInt8),
        input = line.content ++ 0x0d :: 0x0a :: rest ∧ chunk = line.denote := by
  intro parse member
  obtain ⟨sound,takes,reads⟩ := readers parse member
  rw [reads]
  exact read_iff sound input chunk small takes

/-- A size, a token value, a quoted pair and bytes of the chunk behind the line. -/
theorem chunk_line_accepted :
    (∀ b ∈ ascii "a;Foo=bar;x=\"a\\\"b\"\r\n0123456789", isAscii b) ∧
      ∃ (line : ChunkLine) (rest : List UInt8),
        ascii "a;Foo=bar;x=\"a\\\"b\"\r\n0123456789" = line.content ++ 0x0d :: 0x0a :: rest ∧
        ⟨10,[⟨ascii "foo",some (ascii "bar")⟩,⟨ascii "x",some (ascii "a\"b")⟩],20⟩ = line.denote := by
  have small : ∀ b ∈ ascii "a;Foo=bar;x=\"a\\\"b\"\r\n0123456789", isAscii b := List.all_eq_true.mp (by decide)
  refine ⟨small,?_⟩
  exact (chunk_exact_ascii _ small _ ChunkGuardedParts.parseChunkMetadata (by simp [chunkImplementations])).mp
    (by decide +kernel)

end Polyguard.ChunkAgreement

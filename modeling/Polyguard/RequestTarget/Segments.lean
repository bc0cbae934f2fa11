import Polyguard.RequestTarget.Escapes

/-! Dot segments of a path.
The segments of a path act on the stack of those still open: a dot leaves it, two
dots close the last one and fail at the root, every other segment is opened. A path
that ends in a dot segment ends in a slash. The implementations keep the stack
itself, its depth, or the offsets of its members in the output. -/
namespace Polyguard.RequestTarget
open Ascii Slices TargetBytes

def slash : Token := .literal 0x2f

def isDotSegment (segment : List UInt8) : Bool := segment == ascii "." || segment == ascii ".."

def advance (kept : List (List UInt8)) (segment : List UInt8) : Option (List (List UInt8)) :=
  if segment == ascii "." then some kept
  else if segment == ascii ".." then if kept.isEmpty then none else some kept.dropLast
  else some (kept ++ [segment])

/-- The open segments behind a whole path, none when it leaves the root. -/
def openSegments (segments : List (List UInt8)) : Option (List (List UInt8)) := segments.foldlM advance []

/-- The segments of the normalized path, from the open ones and the last segment. -/
def settle (kept : List (List UInt8)) (last : Option (List UInt8)) : List (List UInt8) :=
  if last.any isDotSegment then kept ++ [[]] else kept

/-- Every segment behind a slash. -/
def joined (segments : List (List UInt8)) : List UInt8 := segments.flatMap (0x2f :: ·)

/-- The canonical segments behind the first slash of a path. -/
def segmentsOf (parts : List Token) : List (List UInt8) := (parts.splitOn slash).map spelling

@[simp] theorem joined_nil : joined [] = [] := rfl

@[simp] theorem joined_append (first second : List (List UInt8)) :
    joined (first ++ second) = joined first ++ joined second := List.flatMap_append

@[simp] theorem joined_singleton (segment : List UInt8) : joined [segment] = 0x2f :: segment := by simp [joined]

theorem joined_intercalate {segments : List (List UInt8)} (some : segments ≠ []) :
    joined segments = 0x2f :: List.intercalate [0x2f] segments := by
  induction segments with
  | nil => exact absurd rfl some
  | cons first rest ih =>
    cases rest with
    | nil => simp [joined,List.intercalate]
    | cons second rest =>
      have tail := ih (by simp)
      unfold joined at tail ⊢
      rw [List.flatMap_cons,tail]
      simp [List.intercalate]

theorem segmentsOf_ne_nil (parts : List Token) : segmentsOf parts ≠ [] := by
  simp [segmentsOf,List.splitOn_ne_nil]

theorem spell_slash {token : Token} (other : token ≠ slash) : (0x2f : UInt8) ∉ spell token := by
  cases token with
  | literal byte =>
    simp only [slash,ne_eq,Token.literal.injEq] at other
    simpa [spell,eq_comm] using other
  | encoded byte =>
    exact forall_byte (p := fun b => (0x2f : UInt8) ∉ spell (.encoded b)) (by decide) byte

theorem spelling_splitOn (parts : List Token) : (spelling parts).splitOn 0x2f = segmentsOf parts := by
  unfold segmentsOf
  induction parts with
  | nil => rfl
  | cons token parts ih =>
    by_cases separator : token = slash
    · subst separator
      rw [List.splitOn_cons_eq_if_modifyHead,beq_self_eq_true,if_pos rfl,List.map_cons,← ih,spelling_cons]
      simp [slash,spell,List.splitOn_cons_eq_if_modifyHead]
    · rw [spelling_cons,splitOn_prepend (spell_slash separator),ih,List.splitOn_cons_eq_if_modifyHead,
        if_neg (by simpa using separator)]
      obtain ⟨first,rest,split⟩ := List.exists_cons_of_ne_nil (List.splitOn_ne_nil slash parts)
      simp [split]

theorem reads_splitOn {text : List UInt8} {parts : List Token} (read : Reads text parts) :
    List.Forall₂ Reads (text.splitOn 0x2f) (parts.splitOn slash) := by
  induction read with
  | nil => simpa using Reads.nil
  | @literal byte bytes parts plain rest ih =>
    obtain ⟨first,others,split⟩ := List.exists_cons_of_ne_nil (List.splitOn_ne_nil 0x2f bytes)
    obtain ⟨part,more,partSplit⟩ := List.exists_cons_of_ne_nil (List.splitOn_ne_nil slash parts)
    rw [split,partSplit] at ih
    obtain ⟨head,tail⟩ := List.forall₂_cons.mp ih
    rw [List.splitOn_cons_eq_if_modifyHead,List.splitOn_cons_eq_if_modifyHead,split,partSplit]
    by_cases separator : byte = 0x2f
    · subst separator
      simpa [slash] using ⟨Reads.nil,head,tail⟩
    · simpa [slash,separator] using ⟨Reads.literal plain head,tail⟩
  | @encoded high low first second bytes parts left right rest ih =>
    obtain ⟨segment,others,split⟩ := List.exists_cons_of_ne_nil (List.splitOn_ne_nil 0x2f bytes)
    obtain ⟨part,more,partSplit⟩ := List.exists_cons_of_ne_nil (List.splitOn_ne_nil slash parts)
    rw [split,partSplit] at ih
    obtain ⟨head,tail⟩ := List.forall₂_cons.mp ih
    have highOther := hexValue_slash high (by simp [left])
    have lowOther := hexValue_slash low (by simp [right])
    simp only [List.splitOn_cons_eq_if_modifyHead,split,partSplit]
    simpa [slash,highOther,lowOther] using ⟨Reads.encoded left right head,tail⟩

theorem settle_ne_nil {kept : List (List UInt8)} {segments : List (List UInt8)} (some : segments ≠ [])
    (start : List (List UInt8)) (walked : segments.foldlM advance start = .some kept) :
    settle kept segments.getLast? ≠ [] := by
  induction segments generalizing start with
  | nil => exact absurd rfl some
  | cons segment segments ih =>
    rw [List.foldlM_cons] at walked
    obtain ⟨next,stepped,walked⟩ := Option.bind_eq_some_iff.mp walked
    cases segments with
    | nil =>
      cases walked
      unfold settle
      split
      · simp
      · rename_i ordinary
        simp only [List.getLast?_singleton,Option.any_some,isDotSegment,Bool.or_eq_true,not_or] at ordinary
        simp only [advance,ordinary.1,ordinary.2,if_false,Option.some.injEq,Bool.false_eq_true] at stepped
        simp [← stepped]
    | cons other segments =>
      rw [List.getLast?_cons_cons]
      exact ih (by simp) next walked

theorem zipIdx_foldlM {σ τ : Type} (embed : τ → σ) {step : σ → List UInt8 × Nat → Result σ}
    {inner : τ → List UInt8 → Result τ} {final : τ → List UInt8 → Result σ} {count : Nat}
    (steps : ∀ state segment index, step (embed state) (segment,index) =
      if index + 1 = count then final state segment else inner state segment >>= fun next => .ok (embed next))
    (init : List (List UInt8)) (last : List UInt8) (offset : Nat) (state : τ) (whole : offset + init.length + 1 = count) :
    ((init ++ [last]).zipIdx offset).foldlM step (embed state) =
      (init.foldlM inner state >>= fun reached => final reached last) := by
  induction init generalizing offset state with
  | nil => simp [steps,show offset + 1 = count by simpa using whole]
  | cons segment init ih =>
    simp only [List.length_cons] at whole
    rw [List.cons_append,List.zipIdx_cons,List.foldlM_cons,steps,if_neg (by omega),List.foldlM_cons,bind_assoc,bind_assoc]
    congr 1
    funext reached
    exact ih (offset + 1) reached (by omega)

theorem zipIdx_foldl {σ : Type} {step : σ → List UInt8 × Nat → σ} {inner final : σ → List UInt8 → σ} {last : Nat}
    (steps : ∀ state segment index, step state (segment,index) =
      if index = last then final state segment else inner state segment)
    (init : List (List UInt8)) (segment : List UInt8) (offset : Nat) (state : σ) (whole : offset + init.length = last) :
    ((init ++ [segment]).zipIdx offset).foldl step state = final (init.foldl inner state) segment := by
  induction init generalizing offset state with
  | nil => simp [steps,show offset = last by simpa using whole]
  | cons first init ih =>
    simp only [List.length_cons] at whole
    rw [List.cons_append,List.zipIdx_cons,List.foldl_cons,steps,if_neg (by omega),List.foldl_cons]
    exact ih (offset + 1) _ (by omega)

theorem openSegments_snoc (init : List (List UInt8)) (last : List UInt8) :
    openSegments (init ++ [last]) = (init.foldlM advance []).bind fun kept => advance kept last := by
  simp [openSegments,List.foldlM_append]

/-- A stack that fails at the root as a result. -/
def rooted {α : Type} (walked : Option α) : Result α := walked.elim (invalidTarget "path_traversal") .ok

@[simp] theorem rooted_none {α : Type} : rooted (none : Option α) = invalidTarget "path_traversal" := rfl

@[simp] theorem rooted_some {α : Type} (value : α) : rooted (some value) = .ok value := rfl

theorem foldlM_rooted (segments : List (List UInt8)) (kept : List (List UInt8)) :
    segments.foldlM (fun kept segment => rooted (advance kept segment)) kept = rooted (segments.foldlM advance kept) := by
  induction segments generalizing kept with
  | nil => rfl
  | cons segment segments ih =>
    rw [List.foldlM_cons,List.foldlM_cons]
    cases advance kept segment with
    | none => rfl
    | some next => exact ih next

theorem rules_step (count : Nat) (kept : List (List UInt8)) (segment : List UInt8) (index : Nat) :
    RequestTargetRules.keepSegment count kept (segment,index) =
      if index + 1 = count then rooted (advance kept segment) >>= fun kept => .ok (settle kept (some segment))
      else rooted (advance kept segment) >>= fun kept => .ok (id kept) := by
  unfold RequestTargetRules.keepSegment advance settle isDotSegment
  by_cases final : index + 1 = count <;> by_cases dot : segment == ascii "."
  · simp [dot,final]
  · by_cases dots : segment == ascii ".."
    · cases kept <;> simp [dot,dots,final]
    · simp [dot,dots,final]
  · simp [dot,final]
  · by_cases dots : segment == ascii ".."
    · cases kept <;> simp [dot,dots,final]
    · simp [dot,dots,final]

theorem rules_segments (segments : List (List UInt8)) (some : segments ≠ []) :
    segments.zipIdx.foldlM (RequestTargetRules.keepSegment segments.length) [] =
      (rooted (openSegments segments) >>= fun kept => .ok (settle kept segments.getLast?)) := by
  obtain ⟨init,last,rfl⟩ := exists_snoc some
  have run := zipIdx_foldlM id (rules_step (init ++ [last]).length) init last 0 [] (by simp)
  rw [id_eq] at run
  rw [run,foldlM_rooted,openSegments_snoc,List.getLast?_concat]
  cases init.foldlM advance [] <;> rfl

/-- The fold that drops dot segments once the walk is known to stay below the root. -/
def keepOpen (kept : List (List UInt8)) (segment : List UInt8) : List (List UInt8) := (advance kept segment).getD []

theorem foldl_keepOpen {segments kept reached : List (List UInt8)} (walked : segments.foldlM advance kept = some reached) :
    segments.foldl keepOpen kept = reached := by
  induction segments generalizing kept with
  | nil => exact Option.some.inj walked
  | cons segment segments ih =>
    rw [List.foldlM_cons] at walked
    obtain ⟨next,stepped,walked⟩ := Option.bind_eq_some_iff.mp walked
    rw [List.foldl_cons,keepOpen,stepped]
    exact ih walked

theorem pipeline_step (last : Nat) (kept : List (List UInt8)) (segment : List UInt8) (index : Nat) :
    RequestTargetValidatedPipeline.keepSegment last kept (segment,index) =
      if index = last then settle (keepOpen kept segment) (some segment) else keepOpen kept segment := by
  unfold RequestTargetValidatedPipeline.keepSegment keepOpen advance settle isDotSegment
  by_cases final : index = last <;> by_cases dot : segment == ascii "."
  · simp [dot,final]
  · by_cases dots : segment == ascii ".."
    · cases kept <;> simp [dot,dots,final]
    · simp [dot,dots,final]
  · simp [dot,final]
  · by_cases dots : segment == ascii ".."
    · cases kept <;> simp [dot,dots,final]
    · simp [dot,dots,final]

theorem pipeline_segments {segments kept : List (List UInt8)} (some : segments ≠ [])
    (walked : openSegments segments = .some kept) :
    segments.zipIdx.foldl (RequestTargetValidatedPipeline.keepSegment (segments.length - 1)) [] =
      settle kept segments.getLast? := by
  obtain ⟨init,last,rfl⟩ := exists_snoc some
  rw [zipIdx_foldl (pipeline_step _) init last 0 [] (by simp),List.getLast?_concat]
  rw [openSegments_snoc] at walked
  obtain ⟨before,walkedInit,stepped⟩ := Option.bind_eq_some_iff.mp walked
  rw [foldl_keepOpen walkedInit,keepOpen,stepped,Option.getD_some]

theorem advance_dots (kept : List (List UInt8)) (parts : List Token) :
    advance kept (spelling parts) =
      if dotCount parts = 1 then some kept
      else if dotCount parts = 2 then if kept.isEmpty then none else some kept.dropLast
      else some (kept ++ [spelling parts]) := by
  simp only [advance,beq_iff_eq,dotCount_one,dotCount_two]

/-- What the number of dots of a segment does to the depth of the stack. -/
def descent (dots depth : Nat) : Result Nat :=
  if dots = 1 then .ok depth
  else if dots = 2 then if depth = 0 then invalidTarget "path_traversal" else .ok (depth - 1)
  else .ok (depth + 1)

theorem depth_walk {descend : Nat → List UInt8 → Result Nat}
    (step : ∀ {text parts}, Reads text parts → ∀ depth, descend depth text = descent (dotCount parts) depth)
    {texts : List (List UInt8)} {parts : List (List Token)} (read : List.Forall₂ Reads texts parts)
    (kept : List (List UInt8)) :
    texts.foldlM descend kept.length =
      (rooted ((parts.map spelling).foldlM advance kept) >>= fun kept => .ok kept.length) := by
  induction read generalizing kept with
  | nil => rfl
  | @cons text part texts parts head tail ih =>
    rw [List.foldlM_cons,step head,List.map_cons,List.foldlM_cons,advance_dots,descent]
    by_cases one : dotCount part = 1
    · simpa [one] using ih kept
    · by_cases two : dotCount part = 2
      · by_cases empty : kept = []
        · simp [two,empty]
        · have shorter := ih kept.dropLast
          rw [List.length_dropLast] at shorter
          simpa [one,two,empty] using shorter
      · have longer := ih (kept ++ [spelling part])
        rw [List.length_append,List.length_singleton] at longer
        simpa [one,two] using longer

theorem root_walk {descend : Nat → List UInt8 → Result Nat}
    (step : ∀ {text parts}, Reads text parts → ∀ depth, descend depth text = descent (dotCount parts) depth)
    {text : List UInt8} {parts : List Token} (read : Reads text parts) :
    ((text.splitOn 0x2f).foldlM descend 0 >>= fun _ => .ok ()) =
      (rooted (openSegments (segmentsOf parts)) >>= fun _ => .ok ()) := by
  have walked := depth_walk step (reads_splitOn read) []
  rw [List.length_nil] at walked
  rw [walked,bind_assoc]
  rfl

theorem pipeline_root {text : List UInt8} {parts : List Token} (read : Reads text parts) (first : UInt8) :
    RequestTargetValidatedPipeline.validateNoRootEscape (first :: text) =
      (rooted (openSegments (segmentsOf parts)) >>= fun _ => .ok ()) := by
  apply root_walk _ read
  intro text parts read depth
  rw [RequestTargetValidatedPipeline.descend,pipeline_dots read,descent]
  by_cases one : dotCount parts = 1
  · simp [one]
  · by_cases two : dotCount parts = 2 <;> simp [one,two]

theorem composable_root {text : List UInt8} {parts : List Token} (read : Reads text parts) (first : UInt8) :
    RequestTargetComposableValidators.validateRootBoundary (first :: text) =
      (rooted (openSegments (segmentsOf parts)) >>= fun _ => .ok ()) := by
  apply root_walk _ read
  intro text parts read depth
  rw [RequestTargetComposableValidators.descend,composable_dots read,bind_ok,descent]
  by_cases one : dotCount parts = 1
  · simp [one]
  · by_cases two : dotCount parts = 2 <;> simp [one,two]

/-- One round of `validate_root_balance`. -/
def balance (depth : Nat) (segment : List UInt8) : Result Nat :=
  descent (RequestTargetInvariantOffsets.decodedDotCount segment) depth

theorem offsets_balance (fuel depth : Nat) (bytes : List UInt8) (enough : bytes.length < fuel) :
    RequestTargetInvariantOffsets.rootBalanceFrom depth fuel bytes =
      ((bytes.splitOn 0x2f).foldlM balance depth >>= fun _ => .ok ()) := by
  induction fuel generalizing depth bytes with
  | zero => omega
  | succ fuel ih =>
    have round (segment : List UInt8) (next : Nat → Result Unit) :
        (balance depth segment >>= next) =
          if RequestTargetInvariantOffsets.decodedDotCount segment == 2 && depth == 0 then
            invalidTarget "path_traversal"
          else next (if RequestTargetInvariantOffsets.decodedDotCount segment == 2 then depth - 1
            else if RequestTargetInvariantOffsets.decodedDotCount segment != 1 then depth + 1 else depth) := by
      unfold balance descent
      by_cases one : RequestTargetInvariantOffsets.decodedDotCount segment = 1
      · simp [one]
      · by_cases two : RequestTargetInvariantOffsets.decodedDotCount segment = 2
        · by_cases zero : depth = 0 <;> simp [two,zero]
        · simp [one,two]
    unfold RequestTargetInvariantOffsets.rootBalanceFrom
    rw [splitOn_position]
    cases found : position (· == 0x2f) bytes with
    | none =>
      simp only [Option.getD_none,List.take_length,beq_self_eq_true,if_true,List.foldlM_cons,List.foldlM_nil,
        pure_result,bind_self]
      rw [round]
    | some index =>
      have inside : index < bytes.length := position_lt found
      simp only [Option.getD_some,List.foldlM_cons,bind_assoc]
      rw [round]
      have other : (index == bytes.length) = false := by simp; omega
      simp only [other,Bool.false_eq_true,if_false]
      rw [ih _ _ (by simp; omega)]

theorem offsets_root {text : List UInt8} {parts : List Token} (read : Reads text parts) (first : UInt8) :
    RequestTargetInvariantOffsets.validateRootBalance (first :: text) =
      (rooted (openSegments (segmentsOf parts)) >>= fun _ => .ok ()) := by
  unfold RequestTargetInvariantOffsets.validateRootBalance
  rw [offsets_balance _ _ _ (by simp),List.drop_one,List.tail_cons]
  apply root_walk _ read
  intro text parts read depth
  rw [balance,offsets_dots read]

/-- The output and its offsets as the stack they stand for. -/
inductive Tracks : List UInt8 → List Nat → List (List UInt8) → Prop where
  | nil : Tracks [] [] []
  | push {output : List UInt8} {offsets : List Nat} {kept : List (List UInt8)} (segment : List UInt8)
      (below : Tracks output offsets kept) :
      Tracks (output ++ 0x2f :: segment) (offsets ++ [output.length]) (kept ++ [segment])

theorem Tracks.output_eq {output : List UInt8} {offsets : List Nat} {kept : List (List UInt8)}
    (tracked : Tracks output offsets kept) : output = joined kept := by
  induction tracked with
  | nil => rfl
  | push segment below ih => simp [ih]

theorem Tracks.pop {output : List UInt8} {offsets : List Nat} {kept : List (List UInt8)}
    (tracked : Tracks output offsets kept) (some : kept ≠ []) :
    Tracks (output.take (offsets.getLast?.getD 0)) offsets.dropLast kept.dropLast := by
  cases tracked with
  | nil => exact absurd rfl some
  | push segment below => simpa using below

theorem transform_round {output raw : List UInt8} {offsets : List Nat} {kept next : List (List UInt8)}
    {parts : List Token} (tracked : Tracks output offsets kept) (read : Reads raw parts)
    (small : ∀ b ∈ raw, isAscii b) (walked : advance kept (spelling parts) = some next) :
    (RequestTargetInvariantOffsets.transformSegment output offsets raw true).1 =
      joined (settle next (some (spelling parts))) ∧
    Tracks (RequestTargetInvariantOffsets.transformSegment output offsets raw false).1
      (RequestTargetInvariantOffsets.transformSegment output offsets raw false).2 next := by
  have segment : (output ++ [0x2f] ++ spelling parts).drop (output.length + 1) = spelling parts := by
    rw [show output.length + 1 = (output ++ [0x2f]).length by simp,List.drop_left]
  have cut : (output ++ [0x2f] ++ spelling parts).take output.length = output := by
    rw [List.append_assoc,List.take_left]
  simp only [RequestTargetInvariantOffsets.transformSegment,offsets_append read small,segment,cut]
  unfold advance at walked
  unfold settle isDotSegment
  by_cases dot : spelling parts == ascii "."
  · simp only [dot,if_true,Option.some.injEq] at walked
    subst walked
    constructor
    · simp [dot,tracked.output_eq]
    · simpa [dot] using tracked
  · by_cases dots : spelling parts == ascii ".."
    · simp only [dot,dots,if_true,if_false,Bool.false_eq_true] at walked
      split at walked
      · cases walked
      · rename_i nonempty
        cases walked
        have popped := tracked.pop (by simpa using nonempty)
        constructor
        · simp [dot,dots,popped.output_eq]
        · simpa [dot,dots] using popped
    · simp only [dot,dots,if_false,Bool.false_eq_true,Option.some.injEq] at walked
      subst walked
      have pushed := tracked.push (spelling parts)
      constructor
      · simp [dot,dots,tracked.output_eq]
      · simpa [dot,dots] using pushed

theorem offsets_transform {texts : List (List UInt8)} {parts : List (List Token)}
    (read : List.Forall₂ Reads texts parts) (fuel : Nat) {output bytes : List UInt8} {offsets : List Nat}
    {kept reached : List (List UInt8)} (split : bytes.splitOn 0x2f = texts) (enough : bytes.length < fuel)
    (small : ∀ b ∈ bytes, isAscii b) (tracked : Tracks output offsets kept)
    (walked : (parts.map spelling).foldlM advance kept = some reached) :
    RequestTargetInvariantOffsets.transformFrom output offsets fuel bytes =
      joined (settle reached (parts.map spelling).getLast?) := by
  induction read generalizing fuel output bytes offsets kept with
  | nil => exact absurd split (List.splitOn_ne_nil _ _)
  | @cons text part texts parts head tail ih =>
    cases fuel with
    | zero => omega
    | succ fuel =>
      rw [List.map_cons,List.foldlM_cons] at walked
      obtain ⟨next,stepped,walked⟩ := Option.bind_eq_some_iff.mp walked
      unfold RequestTargetInvariantOffsets.transformFrom
      rw [splitOn_position] at split
      cases found : position (· == 0x2f) bytes with
      | none =>
        rw [found] at split
        obtain ⟨rfl,rfl⟩ := List.cons_eq_cons.mp split
        cases tail
        cases walked
        have round := (transform_round tracked head small stepped).1
        simpa using round
      | some index =>
        rw [found] at split
        obtain ⟨rfl,rest⟩ := List.cons_eq_cons.mp split
        have inside : index < bytes.length := position_lt found
        have other : (index == bytes.length) = false := by simp; omega
        have round := (transform_round tracked head (fun b member => small b (List.mem_of_mem_take member)) stepped).2
        have more : parts.map spelling ≠ [] := by
          intro none
          rw [List.map_eq_nil_iff] at none
          subst none
          cases tail
          exact List.splitOn_ne_nil _ _ rest
        simp only [Option.getD_some,other,Bool.false_eq_true,if_false,List.map_cons]
        rw [List.getLast?_cons_of_ne_nil more]
        exact ih fuel rest (by simp; omega) (fun b member => small b (List.mem_of_mem_drop member)) round walked

/-- Two final dots behind an empty open segment, which one implementation takes for the closing slash. -/
def losesSlash (kept : List (List UInt8)) (last : Option (List UInt8)) : Bool :=
  last == some (ascii "..") && !kept.isEmpty && kept.getLast? == some []

/-- The typed fold on the last segment; its stack has the empty text before the first slash at the bottom. -/
def settleTyped (kept : List (List UInt8)) (last : List UInt8) : List (List UInt8) :=
  if last == ascii ".." && ([] :: kept).getLast? == some [] then [] :: kept else [] :: settle kept (some last)

theorem typed_step (count : Nat) (kept : List (List UInt8)) (segment : List UInt8) (index : Nat) :
    RequestTargetTypedMatrix.keepSegment count ([] :: kept) (segment,index) =
      if index + 1 = count then rooted (advance kept segment) >>= fun kept => .ok (settleTyped kept segment)
      else rooted (advance kept segment) >>= fun kept => .ok ([] :: kept) := by
  unfold RequestTargetTypedMatrix.keepSegment advance settleTyped settle isDotSegment
  by_cases final : index + 1 = count <;> by_cases dot : segment == ascii "."
  · have single : (segment == ascii "..") = false := by
      rw [beq_iff_eq] at dot
      rw [dot]
      decide
    simp [dot,final,single]
  · by_cases dots : segment == ascii ".."
    · cases kept with
      | nil => simp [dot,dots]
      | cons first kept => simp [dot,dots,final]
    · simp [dot,dots,final]
  · simp [dot,final]
  · by_cases dots : segment == ascii ".."
    · cases kept <;> simp [dot,dots,final]
    · simp [dot,dots,final]

theorem intercalate_bottom {kept : List (List UInt8)} (some : kept ≠ []) :
    List.intercalate [0x2f] ([] :: kept) = joined kept := by
  rw [joined_intercalate some]
  cases kept with
  | nil => exact absurd rfl some
  | cons first kept => simp [List.intercalate]

theorem joined_isEmpty {kept : List (List UInt8)} (some : kept ≠ []) : (joined kept).isEmpty = false := by
  rw [joined_intercalate some,List.isEmpty_cons]

theorem typed_text {kept : List (List UInt8)} {last : List UInt8} (settled : settle kept (some last) ≠ []) :
    (let result := List.intercalate [0x2f] (settleTyped kept last)
     if result.isEmpty then result ++ [0x2f] else result) =
      if losesSlash kept (some last) then joined kept else joined (settle kept (some last)) := by
  unfold settleTyped
  by_cases dots : last == ascii ".."
  · cases kept with
    | nil => simp [dots,losesSlash,settle,isDotSegment,List.intercalate]
    | cons first kept =>
      rw [List.getLast?_cons_cons]
      by_cases empty : (first :: kept).getLast? == some []
      · simp only [dots,empty,Bool.and_self,if_true,intercalate_bottom (List.cons_ne_nil _ _),
          joined_isEmpty (List.cons_ne_nil _ _),Bool.false_eq_true,if_false]
        simp_all [losesSlash]
      · simp only [dots,empty,Bool.and_false,Bool.false_eq_true,if_false,intercalate_bottom settled,
          joined_isEmpty settled]
        simp_all [losesSlash]
  · simp only [dots,Bool.false_and,Bool.false_eq_true,if_false,intercalate_bottom settled,joined_isEmpty settled]
    simp_all [losesSlash]

theorem typed_segments (parts : List Token) :
    RequestTargetTypedMatrix.reduceDotSegments (0x2f :: spelling parts) =
      (rooted (openSegments (segmentsOf parts)) >>= fun kept =>
        .ok (if losesSlash kept (segmentsOf parts).getLast? then joined kept
          else joined (settle kept (segmentsOf parts).getLast?))) := by
  have split : ((0x2f :: spelling parts).splitOn 0x2f).drop 1 = segmentsOf parts := by
    rw [List.splitOn_cons_eq_if_modifyHead,beq_self_eq_true,if_pos rfl,List.drop_one,List.tail_cons,spelling_splitOn]
  unfold RequestTargetTypedMatrix.reduceDotSegments
  simp only [split]
  have nonempty := segmentsOf_ne_nil parts
  generalize segmentsOf parts = segments at nonempty
  obtain ⟨init,last,rfl⟩ := exists_snoc nonempty
  have run := zipIdx_foldlM (List.cons []) (typed_step (init ++ [last]).length) init last 0 [] (by simp)
  rw [run,foldlM_rooted,bind_assoc]
  cases walked : init.foldlM advance [] with
  | none => simp [openSegments_snoc,walked]
  | some before =>
    cases stepped : advance before last with
    | none => simp [openSegments_snoc,walked,stepped]
    | some kept =>
      have whole : (init ++ [last]).foldlM advance [] = some kept := by
        simpa [walked] using stepped
      have settled := settle_ne_nil nonempty [] whole
      simp only [openSegments_snoc,walked,Option.bind_some,stepped,rooted_some,bind_ok,List.getLast?_concat] at settled ⊢
      exact congrArg Except.ok (typed_text settled)

theorem losesSlash_differs {kept : List (List UInt8)} {last : Option (List UInt8)} (loses : losesSlash kept last) :
    joined kept ≠ joined (settle kept last) := by
  obtain rfl : last = some (ascii "..") := by
    simp only [losesSlash,Bool.and_eq_true,beq_iff_eq] at loses
    exact loses.1.1
  intro same
  have length := congrArg List.length same
  simp [settle,isDotSegment] at length

/-- Opening a segment adds its text at most, and a dot segment leaves room for the final slash. -/
theorem advance_length {kept next : List (List UInt8)} {segment : List UInt8} (stepped : advance kept segment = some next) :
    (joined (settle next (some segment))).length ≤ (joined kept).length + (joined [segment]).length ∧
      (joined next).length ≤ (joined kept).length + (joined [segment]).length := by
  have popped : (joined kept.dropLast).length ≤ (joined kept).length := by
    by_cases some : kept = []
    · simp [some]
    · have split := congrArg (fun segments => (joined segments).length) (List.dropLast_append_getLast some)
      simp only [joined_append,List.length_append] at split
      omega
  unfold advance at stepped
  unfold settle isDotSegment
  by_cases dot : segment == ascii "."
  · simp only [dot,if_true,Option.some.injEq] at stepped
    subst stepped
    simp [dot]
  · by_cases dots : segment == ascii ".."
    · simp only [dot,dots,if_true,if_false,Bool.false_eq_true] at stepped
      split at stepped
      · cases stepped
      · cases stepped
        simp [dot,dots]
        omega
    · simp only [dot,dots,if_false,Bool.false_eq_true,Option.some.injEq] at stepped
      subst stepped
      simp [dot,dots]

theorem settle_length {segments kept reached : List (List UInt8)} (walked : segments.foldlM advance kept = some reached) :
    (joined (settle reached segments.getLast?)).length ≤ (joined kept).length + (joined segments).length := by
  induction segments generalizing kept with
  | nil =>
    cases walked
    simp [settle]
  | cons segment segments ih =>
    rw [List.foldlM_cons] at walked
    obtain ⟨next,stepped,walked⟩ := Option.bind_eq_some_iff.mp walked
    have step := advance_length stepped
    cases segments with
    | nil =>
      cases walked
      exact step.1
    | cons other segments =>
      have tail := ih walked
      rw [List.getLast?_cons_cons]
      have whole : (joined (segment :: other :: segments)).length =
          (joined [segment]).length + (joined (other :: segments)).length := by
        rw [← List.length_append,← joined_append,List.singleton_append]
      omega

theorem path_length {parts : List Token} {kept : List (List UInt8)} (walked : openSegments (segmentsOf parts) = some kept) :
    (joined (settle kept (segmentsOf parts).getLast?)).length ≤ (spelling parts).length + 1 := by
  have bound := settle_length walked
  rw [joined_intercalate (segmentsOf_ne_nil parts),← spelling_splitOn,List.intercalate_splitOn] at bound
  simpa [spelling_splitOn] using bound

end Polyguard.RequestTarget

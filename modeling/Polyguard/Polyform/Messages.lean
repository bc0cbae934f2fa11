import Polyguard.Polyform.Assignments
import Polyguard.Bytes.Slices

/-! The signed message determines the assignment.
The message has one line for each part of an assignment. Where the names of the binary,
the release and the nonce have no line end, the lines of an accepted assignment can be
read back from the message, whatever client the reply names; so a signature that was
made for one assignment cannot be used for another one. -/
namespace Polyguard.Polyform
open Std Slices

section Lines

def Plain (text : String) : Prop := '\n' ∉ text.toList

instance decidablePlain (text : String) : Decidable (Plain text) := inferInstanceAs (Decidable ('\n' ∉ text.toList))

theorem Plain.append {left right : String} (first : Plain left) (second : Plain right) : Plain (left ++ right) := by
  unfold Plain
  rw [String.toList_append,List.mem_append]
  rintro (inside | inside)
  · exact first inside
  · exact second inside

theorem plain_number (number : Nat) : Plain (toString number) := by
  intro inside
  rw [Nat.toString_eq_repr,Nat.toList_repr] at inside
  exact absurd (Nat.isDigit_of_mem_toDigits (by decide) (by decide) inside) (by decide)

theorem number_injective {left right : Nat} (same : toString left = toString right) : left = right := by
  have digits : Nat.toDigits 10 left = Nat.toDigits 10 right := by
    rw [← Nat.toList_repr,← Nat.toList_repr,← Nat.toString_eq_repr,← Nat.toString_eq_repr,same]
  simpa using congrArg (Nat.ofDigitChars 10 · 0) digits

theorem named_injective {name other value text : List Char} (plain : '=' ∉ name) (free : '=' ∉ other)
    (same : name ++ '=' :: value = other ++ '=' :: text) : name = other ∧ value = text := by
  have before : name = other := by
    have cut := congrArg (List.takeWhile (· != '=')) same
    rwa [List.takeWhile_append_of_pos (by
        intro char member
        simpa using fun (equal : char = '=') => plain (equal ▸ member)),
      List.takeWhile_append_of_pos (by
        intro char member
        simpa using fun (equal : char = '=') => free (equal ▸ member)),
      List.takeWhile_cons_of_neg (by decide),List.takeWhile_cons_of_neg (by decide),List.append_nil,List.append_nil] at cut
  subst before
  exact ⟨rfl,(List.cons.inj (List.append_cancel_left same)).2⟩

/-- The lines behind the one of the client. -/
def laterLines (assignment : Assignment) : List String :=
  ["release_id=" ++ jsonScalar assignment.releaseId,
    "list_version=" ++ toString assignment.listVersion,
    "revision=" ++ toString assignment.revision,
    "nonce=" ++ assignment.nonce] ++
  assignment.implementations.toList.map assignmentLine ++ assignment.statuses.toList.map statusLine

theorem assignmentLines_later (assignment : Assignment) : assignmentLines assignment =
    "polyform-composition-v1" :: ("client_id=" ++ assignment.clientId) :: laterLines assignment := rfl

/-- The names of an entry and what it says have no line end, and its name has no equals sign. -/
def PlainEntries (entries : ExtTreeMap String String) : Prop :=
  ∀ name value : String, entries[name]? = some value → Plain name ∧ Plain value ∧ '=' ∉ name.toList

theorem PlainEntries.of_list {entries : ExtTreeMap String String}
    (plain : ∀ entry ∈ entries.toList, Plain entry.1 ∧ Plain entry.2 ∧ '=' ∉ entry.1.toList) : PlainEntries entries :=
  fun _ _ held => plain _ (ExtTreeMap.mem_toList_iff_getElem?_eq_some.mpr held)

/-- The parts of the later lines have no line end. -/
structure PlainBehind (assignment : Assignment) : Prop where
  release : Plain (jsonScalar assignment.releaseId)
  nonce : Plain assignment.nonce
  implementations : PlainEntries assignment.implementations
  statuses : PlainEntries assignment.statuses

theorem laterLines_plain {assignment : Assignment} (plain : PlainBehind assignment) :
    ∀ line ∈ laterLines assignment, Plain line := by
  have entry {entries : ExtTreeMap String String} (all : PlainEntries entries) {listed : String × String}
      (member : listed ∈ entries.toList) : Plain listed.1 ∧ Plain listed.2 ∧ '=' ∉ listed.1.toList :=
    all _ _ (ExtTreeMap.mem_toList_iff_getElem?_eq_some.mp member)
  intro line member
  simp only [laterLines,List.mem_append,List.mem_cons,List.not_mem_nil,or_false,List.mem_map] at member
  rcases member with ((rfl | rfl | rfl | rfl) | ⟨listed,among,rfl⟩) | ⟨listed,among,rfl⟩
  · exact .append (by decide) plain.release
  · exact .append (by decide) (plain_number _)
  · exact .append (by decide) (plain_number _)
  · exact .append (by decide) plain.nonce
  · obtain ⟨name,value,-⟩ := entry plain.implementations among
    exact .append (.append (.append (by decide) name) (by decide)) value
  · obtain ⟨name,value,-⟩ := entry plain.statuses among
    exact .append (.append (.append (by decide) name) (by decide)) value

theorem message_split {assignment : Assignment} (plain : PlainBehind assignment) :
    (compositionAssignmentMessage assignment).toList.splitOn '\n' =
      "polyform-composition-v1".toList :: (("client_id=" ++ assignment.clientId).toList.splitOn '\n' ++
        (laterLines assignment).map String.toList) := by
  have later : (laterLines assignment).map String.toList ≠ [] := by simp [laterLines]
  have free : ∀ line ∈ (laterLines assignment).map String.toList, '\n' ∉ line := by
    intro line member
    obtain ⟨text,among,rfl⟩ := List.mem_map.mp member
    exact laterLines_plain plain text among
  rw [compositionAssignmentMessage,String.toList_intercalate,assignmentLines_later,List.map_cons,List.map_cons,
    List.intercalate_cons_cons,List.intercalate_cons_of_ne_nil later]
  rw [show "\n".toList = ['\n'] from rfl,List.append_assoc,List.singleton_append,List.append_assoc,List.singleton_append,
    List.splitOn_append_cons_self,List.splitOn_append_cons_self,List.splitOn_intercalate _ free later,
    List.splitOn_eq_singleton (by decide),List.singleton_append]

theorem laterLines_tail (assignment : Assignment) :
    ∀ line ∈ (laterLines assignment).tail, ¬"release_id=".toList <+: line.toList := by
  intro line member
  simp only [laterLines,List.cons_append,List.tail_cons,List.mem_append,List.mem_cons,List.nil_append,List.mem_map] at member
  rcases member with rfl | rfl | rfl | ⟨listed,-,rfl⟩ | ⟨listed,-,rfl⟩
  all_goals simp [assignmentLine,statusLine,entryLine,List.cons_prefix_cons]

theorem kinds_split {α : Type} {left right left' right' : List α} (p : α → Bool) (same : left ++ right = left' ++ right')
    (kind : ∀ entry ∈ left, p entry) (kind' : ∀ entry ∈ left', p entry) (other : ∀ entry ∈ right, ¬p entry)
    (other' : ∀ entry ∈ right', ¬p entry) : left = left' ∧ right = right' := by
  have cut := congrArg (List.filter p) same
  rw [List.filter_append,List.filter_append,List.filter_eq_self.mpr kind,List.filter_eq_self.mpr kind',
    List.filter_eq_nil_iff.mpr other,List.filter_eq_nil_iff.mpr other',List.append_nil,List.append_nil] at cut
  subst cut
  exact ⟨rfl,List.append_cancel_left same⟩

theorem label_injective {label left right : String} (same : label ++ left = label ++ right) : left = right := by
  have chars := congrArg String.toList same
  rw [String.toList_append,String.toList_append] at chars
  exact String.toList_inj.mp (List.append_cancel_left chars)

theorem map_determines {α β : Type} {f : α → β} {p : α → Prop} (apart : ∀ x y, p x → p y → f x = f y → x = y) :
    ∀ {left right : List α}, (∀ x ∈ left, p x) → (∀ x ∈ right, p x) → left.map f = right.map f → left = right := by
  intro left
  induction left with
  | nil =>
    intro right _ _ same
    exact (List.map_eq_nil_iff.mp same.symm).symm
  | cons x left ih =>
    intro right all all' same
    cases right with
    | nil => cases same
    | cons y right =>
      obtain ⟨first,rest⟩ := List.cons.inj same
      rw [apart x y (all x List.mem_cons_self) (all' y List.mem_cons_self) first,
        ih (fun z member => all z (List.mem_cons_of_mem _ member)) (fun z member => all' z (List.mem_cons_of_mem _ member)) rest]

theorem entries_injective {label : String} {left right : ExtTreeMap String String} (plain : PlainEntries left)
    (plain' : PlainEntries right) (same : left.toList.map (entryLine label) = right.toList.map (entryLine label)) : left = right := by
  apply ExtTreeMap.toList_inj.mp
  have free {entries : ExtTreeMap String String} (all : PlainEntries entries) : ∀ entry ∈ entries.toList, '=' ∉ entry.1.toList :=
    fun entry member => (all _ _ (ExtTreeMap.mem_toList_iff_getElem?_eq_some.mp member)).2.2
  refine map_determines (fun entry other plain free equal => ?_) (free plain) (free plain') same
  simp only [entryLine,String.append_assoc] at equal
  have chars := congrArg String.toList (label_injective equal)
  simp only [String.toList_append] at chars
  obtain ⟨names,values⟩ := named_injective plain free chars
  exact Prod.ext (String.toList_inj.mp names) (String.toList_inj.mp values)

/-- What the message says of an assignment. -/
structure SameContents (left right : Assignment) : Prop where
  client : left.clientId = right.clientId
  release : jsonScalar left.releaseId = jsonScalar right.releaseId
  listVersion : left.listVersion = right.listVersion
  revision : left.revision = right.revision
  nonce : left.nonce = right.nonce
  implementations : left.implementations = right.implementations
  statuses : left.statuses = right.statuses

theorem laterLines_determine {left right : Assignment} (behind : PlainBehind left) (plain : PlainBehind right)
    (client : left.clientId = right.clientId) (same : laterLines left = laterLines right) : SameContents left right := by
  simp only [laterLines,List.cons_append,List.nil_append,List.cons.injEq] at same
  obtain ⟨release,lists,revisions,nonces,entries⟩ := same
  have assigned (entries : List (String × String)) : ∀ line ∈ entries.map assignmentLine, line.toList.head? == some 'a' := by
    intro line member
    obtain ⟨entry,-,rfl⟩ := List.mem_map.mp member
    simp [assignmentLine,entryLine]
  have listed (entries : List (String × String)) : ∀ line ∈ entries.map statusLine, ¬(line.toList.head? == some 'a') = true := by
    intro line member
    obtain ⟨entry,-,rfl⟩ := List.mem_map.mp member
    simp [statusLine,entryLine]
  obtain ⟨implementations,statuses⟩ := kinds_split (fun line : String => line.toList.head? == some 'a') entries
    (assigned _) (assigned _) (listed _) (listed _)
  exact ⟨client,label_injective release,number_injective (label_injective lists),number_injective (label_injective revisions),
    label_injective nonces,entries_injective behind.implementations plain.implementations implementations,
    entries_injective behind.statuses plain.statuses statuses⟩

theorem message_determines {left right : Assignment} (behind : PlainBehind left) (plain : PlainBehind right)
    (client : Plain right.clientId)
    (same : compositionAssignmentMessage left = compositionAssignmentMessage right) : SameContents left right := by
  have cut := congrArg (fun message : String => message.toList.splitOn '\n') same
  simp only [message_split behind,message_split plain] at cut
  have whole : Plain ("client_id=" ++ right.clientId) := .append (by decide) client
  rw [List.splitOn_eq_singleton whole,List.singleton_append] at cut
  have parts := (List.cons.inj cut).2
  cases pieces : ("client_id=" ++ left.clientId).toList.splitOn '\n' with
  | nil => exact absurd pieces (List.splitOn_ne_nil _ _)
  | cons piece others =>
    rw [pieces,List.cons_append] at parts
    obtain ⟨first,rest⟩ := List.cons.inj parts
    cases others with
    | cons _ others =>
      -- a second line of the client would push the release behind the place that the other message has it at
      have inside : "release_id=".toList ++ (jsonScalar left.releaseId).toList ∈ ((laterLines right).map String.toList).tail := by
        rw [← rest]
        simp [laterLines]
      rw [← List.map_tail] at inside
      obtain ⟨line,among,spelled⟩ := List.mem_map.mp inside
      exact absurd (spelled ▸ List.prefix_append _ _) (laterLines_tail right line among)
    | nil =>
      have joined := @List.intercalate_splitOn Char ("client_id=" ++ left.clientId).toList _ _ '\n'
      rw [pieces,List.intercalate_singleton,first] at joined
      have client : left.clientId = right.clientId := (label_injective (String.toList_inj.mp joined)).symm
      have lines : laterLines left = laterLines right := List.map_injective_iff.mpr (fun _ _ => String.toList_inj.mp) rest
      exact laterLines_determine behind plain client lines

end Lines
end Polyguard.Polyform

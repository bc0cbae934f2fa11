import Polyguard.Proxy.Config

/-! What a template is expanded to.
A template is cut into literals and the names of its variables, each name as long as it can
be. The check, the length and the rendering all walk over these pieces, so that they agree
on where a variable ends. -/
namespace Polyguard.Proxy
open Ascii

section Cuts

def isLiteralByte (byte : UInt8) : Bool := byte != 0x24

inductive Piece where
  | literal (text : List UInt8)
  | named (name : List UInt8)
deriving DecidableEq, Repr

/-- The text of a piece in the template. -/
def Piece.text : Piece → List UInt8
  | .literal text => text
  | .named name => 0x24 :: name

/-- A text and its pieces: literals without a dollar up to the next one, and names up to the
first byte that is none of a name. -/
inductive Cuts : List UInt8 → List Piece → Prop where
  | nil : Cuts [] []
  | literal {text rest : List UInt8} {pieces : List Piece} (given : text ≠ []) (inside : ∀ b ∈ text, isLiteralByte b)
      (stops : ∀ b ∈ rest.head?, ¬ isLiteralByte b) (cuts : Cuts rest pieces) : Cuts (text ++ rest) (.literal text :: pieces)
  | named {name rest : List UInt8} {pieces : List Piece} (inside : ∀ b ∈ name, isVariableByte b)
      (stops : ∀ b ∈ rest.head?, ¬ isVariableByte b) (cuts : Cuts rest pieces) :
      Cuts (0x24 :: (name ++ rest)) (.named name :: pieces)

/-- A run of bytes up to the first one outside is what `takeWhile` takes. -/
theorem run_split {p : UInt8 → Bool} {run rest : List UInt8} (inside : ∀ b ∈ run, p b) (stops : ∀ b ∈ rest.head?, ¬ p b) :
    (run ++ rest).takeWhile p = run ∧ (run ++ rest).dropWhile p = rest := by
  rw [List.takeWhile_append_of_pos inside,List.dropWhile_append_of_pos inside]
  cases rest with
  | nil => exact ⟨List.append_nil run,rfl⟩
  | cons byte rest =>
    have outside := stops byte rfl
    rw [List.takeWhile_cons_of_neg outside,List.dropWhile_cons_of_neg outside]
    exact ⟨List.append_nil run,rfl⟩

theorem head_dropWhile (p : UInt8 → Bool) (text : List UInt8) : ∀ b ∈ (text.dropWhile p).head?, ¬ p b := by
  intro b member
  have := List.head?_dropWhile_not p text
  rw [Option.mem_def.mp member] at this
  simpa using this

theorem cuts_exist (text : List UInt8) : ∃ pieces, Cuts text pieces := by
  induction sized : text.length using Nat.strong_induction_on generalizing text with
  | _ size ih =>
    subst sized
    cases text with
    | nil => exact ⟨[],.nil⟩
    | cons byte rest =>
      by_cases dollar : isLiteralByte byte
      · have shorter : ((byte :: rest).dropWhile isLiteralByte).length < (byte :: rest).length := by
          rw [List.dropWhile_cons_of_pos dollar]
          exact Nat.lt_succ_of_le (List.dropWhile_sublist _).length_le
        obtain ⟨pieces,cuts⟩ := ih _ shorter _ rfl
        have given : (byte :: rest).takeWhile isLiteralByte ≠ [] := by
          rw [List.takeWhile_cons_of_pos dollar]
          exact List.cons_ne_nil _ _
        have cut := Cuts.literal given (fun _ => List.mem_takeWhile_imp) (head_dropWhile isLiteralByte (byte :: rest)) cuts
        rw [List.takeWhile_append_dropWhile] at cut
        exact ⟨_,cut⟩
      · obtain rfl : byte = 0x24 := by simpa [isLiteralByte] using dollar
        have shorter : (rest.dropWhile isVariableByte).length < (0x24 :: rest).length :=
          Nat.lt_succ_of_le (List.dropWhile_sublist _).length_le
        obtain ⟨pieces,cuts⟩ := ih _ shorter _ rfl
        have inside : ∀ b ∈ rest.takeWhile isVariableByte, isVariableByte b := fun _ => List.mem_takeWhile_imp
        have cut := Cuts.named inside (head_dropWhile isVariableByte rest) cuts
        rw [List.takeWhile_append_dropWhile] at cut
        exact ⟨_,cut⟩

theorem cuts_unique {text : List UInt8} {pieces others : List Piece} (cuts : Cuts text pieces) (other : Cuts text others) :
    pieces = others := by
  induction cuts generalizing others with
  | nil =>
    generalize empty : ([] : List UInt8) = text at other
    cases other with
    | nil => rfl
    | literal given => exact absurd (List.append_eq_nil_iff.mp empty.symm).1 given
    | named => cases empty
  | @literal run rest pieces given inside stops cuts ih =>
    generalize same : run ++ rest = text at other
    have split := run_split inside stops
    cases other with
    | nil => exact absurd (List.append_eq_nil_iff.mp same).1 given
    | literal given' inside' stops' cuts' =>
      have split' := run_split inside' stops'
      rw [same] at split
      obtain rfl := split.1.symm.trans split'.1
      obtain rfl := split.2.symm.trans split'.2
      rw [ih cuts']
    | named =>
      obtain ⟨first,run,rfl⟩ := List.exists_cons_of_ne_nil given
      cases (List.cons.inj same).1
      exact absurd (inside _ List.mem_cons_self) (by decide)
  | @named name rest pieces inside stops cuts ih =>
    generalize same : 0x24 :: (name ++ rest) = text at other
    have split := run_split inside stops
    cases other with
    | nil => cases same
    | literal given' inside' stops' cuts' =>
      obtain ⟨first,run,rfl⟩ := List.exists_cons_of_ne_nil given'
      cases (List.cons.inj same).1
      exact absurd (inside' _ List.mem_cons_self) (by decide)
    | named inside' stops' cuts' =>
      have split' := run_split inside' stops'
      rw [(List.cons.inj same).2] at split
      obtain rfl := split.1.symm.trans split'.1
      obtain rfl := split.2.symm.trans split'.2
      rw [ih cuts']

end Cuts

section Rendering
variable (context : TemplateContext)

/-- The variables with their values. -/
def TemplateContext.table : List (List UInt8 × List UInt8) :=
  [(ascii "host",context.host),(ascii "http_host",context.httpHost),(ascii "remote_addr",context.remoteAddr),
    (ascii "scheme",context.scheme),(ascii "request_uri",context.requestUri),
    (ascii "proxy_add_x_forwarded_for",context.proxyAddXForwardedFor)]

def TemplateContext.lookup (name : List UInt8) : Option (List UInt8) := context.table.lookup name

/-- What a piece is rendered as: a literal as it is, a variable once as its value. -/
def Piece.rendered : Piece → List UInt8
  | .literal text => text
  | .named name => (context.lookup name).getD []

def expansion (pieces : List Piece) : List UInt8 := pieces.flatMap (Piece.rendered context)

/-- A name of no variable is rendered as nothing, and refused. -/
def Piece.known : Piece → Bool
  | .literal _ => true
  | .named name => (context.lookup name).isSome

theorem templateVariables_words : templateVariables = [ascii "host",ascii "http_host",ascii "remote_addr",ascii "scheme",
    ascii "request_uri",ascii "proxy_add_x_forwarded_for"].map (0x24 :: ·) := by
  decide

theorem lookup_cases (word : List UInt8) (value : List UInt8) (table : List (List UInt8 × List UInt8)) (name : List UInt8) :
    ((word,value) :: table).lookup name = if name = word then some value else table.lookup name := by
  rw [List.lookup_cons]
  by_cases same : name = word
  · rw [if_pos same,beq_iff_eq.mpr same]
  · rw [if_neg same,beq_false_of_ne same]

theorem dollar_word {name word : List UInt8} : 0x24 :: name = 0x24 :: word ↔ name = word :=
  ⟨fun same => (List.cons.inj same).2,congrArg _⟩

theorem templateReplacement_lookup (name : List UInt8) : templateReplacement (0x24 :: name) context =
    match context.lookup name with
    | some value => .ok value
    | none => .error .internal := by
  have host : ascii "$host" = 0x24 :: ascii "host" := by decide
  have httpHost : ascii "$http_host" = 0x24 :: ascii "http_host" := by decide
  have remote : ascii "$remote_addr" = 0x24 :: ascii "remote_addr" := by decide
  have scheme : ascii "$scheme" = 0x24 :: ascii "scheme" := by decide
  have uri : ascii "$request_uri" = 0x24 :: ascii "request_uri" := by decide
  have forwarded : ascii "$proxy_add_x_forwarded_for" = 0x24 :: ascii "proxy_add_x_forwarded_for" := by decide
  unfold templateReplacement TemplateContext.lookup TemplateContext.table
  simp only [host,httpHost,remote,scheme,uri,forwarded,dollar_word,lookup_cases,List.lookup_nil]
  split_ifs <;> rfl

theorem templateVariables_lookup (name : List UInt8) : templateVariables.contains (0x24 :: name) = (context.lookup name).isSome := by
  rw [templateVariables_words,Bool.eq_iff_iff,List.contains_iff_mem,List.mem_map]
  unfold TemplateContext.lookup TemplateContext.table
  simp only [lookup_cases,List.lookup_nil]
  split_ifs <;> simp [*]

theorem expansion_literal (text : List UInt8) (pieces : List Piece) :
    expansion context (.literal text :: pieces) = text ++ expansion context pieces := by
  rw [expansion,List.flatMap_cons]
  rfl

theorem expansion_named {name value : List UInt8} (found : context.lookup name = some value) (pieces : List Piece) :
    expansion context (.named name :: pieces) = value ++ expansion context pieces := by
  rw [expansion,List.flatMap_cons,Piece.rendered,found]
  rfl

variable {context}

theorem validTemplateLoop_run {run : List UInt8} (inside : ∀ b ∈ run, isLiteralByte b) (rest : List UInt8) :
    validTemplateLoop (run ++ rest) = validTemplateLoop rest := by
  induction run with
  | nil => rfl
  | cons byte run ih =>
    have literal : byte ≠ 0x24 := bne_iff_ne.mp (inside byte List.mem_cons_self)
    rw [List.cons_append,validTemplateLoop,if_pos literal,ih fun b member => inside b (List.mem_cons_of_mem byte member)]

theorem validTemplateLoop_known (context : TemplateContext) {text : List UInt8} {pieces : List Piece} (cuts : Cuts text pieces) :
    validTemplateLoop text = pieces.all (Piece.known context) := by
  induction cuts with
  | nil =>
    rw [validTemplateLoop]
    rfl
  | literal given inside stops cuts ih => rw [validTemplateLoop_run inside,ih,List.all_cons,Piece.known,Bool.true_and]
  | named inside stops cuts ih =>
    obtain ⟨taken,dropped⟩ := run_split inside stops
    rw [validTemplateLoop,if_neg (by decide),taken,dropped,ih,List.all_cons,Piece.known,templateVariables_lookup context]

theorem renderTemplateLoop_run {run : List UInt8} (inside : ∀ b ∈ run, isLiteralByte b) (rendered rest : List UInt8) :
    renderTemplateLoop context rendered (run ++ rest) = renderTemplateLoop context (rendered ++ run) rest := by
  induction run generalizing rendered with
  | nil => rw [List.append_nil,List.nil_append]
  | cons byte run ih =>
    have literal : byte ≠ 0x24 := bne_iff_ne.mp (inside byte List.mem_cons_self)
    rw [List.cons_append,renderTemplateLoop,if_pos literal,ih fun b member => inside b (List.mem_cons_of_mem byte member),
      List.append_assoc,List.singleton_append]

theorem renderTemplateLoop_expansion {text : List UInt8} {pieces : List Piece} (cuts : Cuts text pieces)
    (known : pieces.all (Piece.known context)) (rendered : List UInt8) :
    renderTemplateLoop context rendered text = .ok (rendered ++ expansion context pieces) := by
  induction cuts generalizing rendered with
  | nil =>
    rw [renderTemplateLoop]
    exact congrArg Except.ok (List.append_nil rendered).symm
  | literal given inside stops cuts ih =>
    rw [List.all_cons,Bool.and_eq_true] at known
    rw [renderTemplateLoop_run inside,ih known.2,expansion_literal,List.append_assoc]
  | named inside stops cuts ih =>
    rw [List.all_cons,Bool.and_eq_true] at known
    obtain ⟨value,found⟩ := Option.isSome_iff_exists.mp known.1
    obtain ⟨taken,dropped⟩ := run_split inside stops
    rw [renderTemplateLoop,if_neg (by decide),taken,dropped,templateReplacement_lookup,found]
    change renderTemplateLoop context (rendered ++ value) _ = _
    rw [ih known.2,expansion_named context found,List.append_assoc]

theorem renderedTemplateLengthLoop_run {run : List UInt8} (inside : ∀ b ∈ run, isLiteralByte b) (max literal length : Nat)
    (rest : List UInt8) : renderedTemplateLengthLoop context max literal length (run ++ rest) =
      renderedTemplateLengthLoop context max (literal + run.length) length rest := by
  induction run generalizing literal with
  | nil => rfl
  | cons byte run ih =>
    have plain : byte ≠ 0x24 := bne_iff_ne.mp (inside byte List.mem_cons_self)
    rw [List.cons_append,renderedTemplateLengthLoop,if_pos plain,ih fun b member => inside b (List.mem_cons_of_mem byte member),
      List.length_cons,Nat.add_assoc,Nat.add_comm 1]

theorem boundedLength_bind (length first second max : Nat) :
    (boundedLength length first max >>= fun length => boundedLength length second max) = boundedLength length (first + second) max := by
  unfold boundedLength
  by_cases fits : length + first ≤ max
  · rw [if_pos fits,← Nat.add_assoc]
    rfl
  · rw [if_neg fits,if_neg (by omega)]
    rfl

/-- The length is that of the expansion, whatever bound a part of it breaks first. -/
theorem renderedTemplateLengthLoop_expansion {text : List UInt8} {pieces : List Piece} (cuts : Cuts text pieces)
    (known : pieces.all (Piece.known context)) (max literal length : Nat) :
    renderedTemplateLengthLoop context max literal length text =
      boundedLength length (literal + (expansion context pieces).length) max := by
  induction cuts generalizing literal length with
  | nil =>
    rw [renderedTemplateLengthLoop]
    rfl
  | @literal run rest pieces given inside stops cuts ih =>
    rw [List.all_cons,Bool.and_eq_true] at known
    rw [renderedTemplateLengthLoop_run inside,ih known.2,expansion_literal,List.length_append,Nat.add_assoc]
  | @named name rest pieces inside stops cuts ih =>
    rw [List.all_cons,Bool.and_eq_true] at known
    obtain ⟨value,found⟩ := Option.isSome_iff_exists.mp known.1
    obtain ⟨taken,dropped⟩ := run_split inside stops
    have rendered : (expansion context (.named name :: pieces)).length = value.length + (0 + (expansion context pieces).length) := by
      rw [expansion_named context found,List.length_append,Nat.zero_add]
    rw [rendered,← boundedLength_bind,renderedTemplateLengthLoop,if_neg (by decide),taken,dropped,templateReplacement_lookup,found]
    apply congrArg
    funext length
    change (boundedLength length value.length max >>= fun length => renderedTemplateLengthLoop context max 0 length rest) = _
    simp only [ih known.2]
    exact boundedLength_bind length value.length _ max
/-- A line end or a zero byte, refused in templates and in what they are rendered as. -/
def isBreak (byte : UInt8) : Bool := byte == 0x0d || byte == 0x0a || byte == 0

theorem expansion_plain (plain : ∀ entry ∈ context.table, ¬ entry.2.any isBreak) {text : List UInt8} {pieces : List Piece}
    (cuts : Cuts text pieces) (unbroken : ¬ text.any isBreak) : ¬ (expansion context pieces).any isBreak := by
  induction cuts with
  | nil => exact Bool.false_ne_true
  | literal given inside stops cuts ih =>
    rw [expansion_literal,List.any_append,Bool.or_eq_true,not_or]
    rw [List.any_append,Bool.or_eq_true,not_or] at unbroken
    exact ⟨unbroken.1,ih unbroken.2⟩
  | @named name rest pieces inside stops cuts ih =>
    rw [List.any_cons,List.any_append,Bool.or_eq_true,Bool.or_eq_true,not_or,not_or] at unbroken
    rw [expansion,List.flatMap_cons,List.any_append,Bool.or_eq_true,not_or]
    refine ⟨?_,ih unbroken.2.2⟩
    rw [Piece.rendered]
    cases found : context.lookup name with
    | none => exact Bool.false_ne_true
    | some value =>
      obtain ⟨front,back,split,-⟩ := List.lookup_eq_some_iff.mp found
      exact plain (name,value) (split ▸ List.mem_append_right front List.mem_cons_self)

theorem variable_ascii {byte : UInt8} (inside : isVariableByte byte) : isAscii byte := by
  revert inside
  exact forall_byte (p := fun b => isVariableByte b → isAscii b) (by decide) byte

theorem pieces_valid {text : List UInt8} {pieces : List Piece} (cuts : Cuts text pieces) (valid : Utf8.valid text) :
    ∀ piece ∈ pieces, Utf8.valid piece.text := by
  induction cuts with
  | nil => exact List.forall_mem_nil _
  | @literal run rest pieces given inside stops cuts ih =>
    have front : Utf8.valid run := by
      cases rest with
      | nil => rwa [List.append_nil] at valid
      | cons byte rest =>
        have dollar : byte = 0x24 := by simpa [isLiteralByte] using stops byte rfl
        exact Utf8.valid_before (dollar ▸ by decide) valid
    rw [Utf8.valid_append front] at valid
    exact List.forall_mem_cons.mpr ⟨front,ih valid⟩
  | @named name rest pieces inside stops cuts ih =>
    have front : Utf8.valid (0x24 :: name) := by
      rw [Utf8.valid_cons (by decide)]
      exact Utf8.valid_of_ascii fun byte member => variable_ascii (inside byte member)
    rw [← List.cons_append,Utf8.valid_append front] at valid
    exact List.forall_mem_cons.mpr ⟨front,ih valid⟩

/-- An accepted template is cut in one way into characters and known variables, and is rendered as its pieces one after the
other, where these fit the limit. -/
theorem template_rendering_exact (value : List UInt8) (text : Utf8.valid value) (accepted : validTemplate value)
    (context : TemplateContext) (plain : ∀ entry ∈ context.table, ¬ entry.2.any isBreak) (max : Nat) :
    ∃ pieces, (Cuts value pieces ∧ ∀ others, Cuts value others → others = pieces) ∧
      (∀ piece ∈ pieces, piece.known context ∧ Utf8.valid piece.text) ∧
      renderTemplate value context max =
        (if (expansion context pieces).length ≤ max then .ok (expansion context pieces) else .error .tooLarge) ∧
      renderedTemplateLength value context max =
        if (expansion context pieces).length ≤ max then .ok (expansion context pieces).length else .error .tooLarge := by
  obtain ⟨pieces,cuts⟩ := cuts_exist value
  rw [validTemplate,Bool.and_eq_true,Bool.not_eq_true'] at accepted
  have known : pieces.all (Piece.known context) := by
    rw [← validTemplateLoop_known context cuts]
    exact accepted.2
  have counted : renderedTemplateLength value context max =
      if (expansion context pieces).length ≤ max then .ok (expansion context pieces).length else .error .tooLarge := by
    rw [renderedTemplateLength,renderedTemplateLengthLoop_expansion cuts known,boundedLength,Nat.zero_add,Nat.zero_add]
  refine ⟨pieces,⟨cuts,fun others other => cuts_unique other cuts⟩,fun piece member =>
    ⟨List.all_eq_true.mp known piece member,pieces_valid cuts text piece member⟩,?_,counted⟩
  have unbroken := expansion_plain plain cuts (by rw [show value.any isBreak = false from accepted.1]; exact Bool.false_ne_true)
  rw [renderTemplate,counted,renderTemplateLoop_expansion cuts known]
  by_cases fits : (expansion context pieces).length ≤ max
  · rw [if_pos fits,if_pos fits]
    exact if_neg unbroken
  · rw [if_neg fits,if_neg fits]
    rfl

/-- The dollar in a value is no variable, and the character before the variables is kept. -/
theorem template_rendering_closed :
    renderTemplate ([0xc3,0xa9,0x20] ++ ascii "$host$request_uri")
      ⟨ascii "a",ascii "a",ascii "1",ascii "http",ascii "/$host",ascii "1"⟩ 10 = .ok ([0xc3,0xa9,0x20] ++ ascii "a/$host") := by
  have cuts : Cuts ([0xc3,0xa9,0x20] ++ ascii "$host$request_uri")
      [.literal [0xc3,0xa9,0x20],.named (ascii "host"),.named (ascii "request_uri")] := by
    have last : Cuts (ascii "$request_uri") [.named (ascii "request_uri")] :=
      @Cuts.named (ascii "request_uri") [] [] (by decide +kernel) (by decide +kernel) .nil
    have named : Cuts (ascii "$host$request_uri") [.named (ascii "host"),.named (ascii "request_uri")] :=
      @Cuts.named (ascii "host") (ascii "$request_uri") _ (by decide +kernel) (by decide +kernel) last
    exact .literal (by decide +kernel) (by decide +kernel) (by decide +kernel) named
  obtain ⟨pieces,unique,-,rendered,-⟩ := template_rendering_exact ([0xc3,0xa9,0x20] ++ ascii "$host$request_uri")
    (by decide +kernel) (by decide +kernel) ⟨ascii "a",ascii "a",ascii "1",ascii "http",ascii "/$host",ascii "1"⟩ (by decide +kernel) 10
  rw [rendered,← unique.2 _ cuts]
  decide +kernel

end Rendering

end Polyguard.Proxy

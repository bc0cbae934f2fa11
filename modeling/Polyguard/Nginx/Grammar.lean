import Polyguard.Nginx.Tokens
import Polyguard.Collections.Fallible

/-! The directives that a list of tokens spells. A block calls itself for each block inside
it and shares one offset with it; the offset is kept as the tokens that are left. -/
namespace Polyguard.Nginx
open Ascii

/-- The words up to the token that ends the arguments, and the tokens from there. -/
def takeArgs : List Token → List (List UInt8) × List Token
  | ⟨.word value,_⟩ :: tokens => (value :: (takeArgs tokens).1,(takeArgs tokens).2)
  | tokens => ([],tokens)

theorem takeArgs_length (tokens : List Token) : (takeArgs tokens).2.length ≤ tokens.length := by
  fun_induction takeArgs tokens with
  | case1 value line tokens ih =>
    simp only [List.length_cons]
    omega
  | case2 tokens other => exact Nat.le_refl _

/-- The directives of a block and the tokens after it, which are no more than it was given. -/
structure Block (tokens : List Token) where
  directives : List Directive
  rest : List Token
  shorter : rest.length ≤ tokens.length

def Block.within {inner tokens : List Token} (block : Block inner) (fewer : inner.length ≤ tokens.length) : Block tokens :=
  ⟨block.directives,block.rest,block.shorter.trans fewer⟩

def missingTerminator (path name : List UInt8) (line : Nat) : NginxError :=
  .syntaxError path line (ascii "directive " ++ name ++ ascii " is missing a terminator")

/-- The loop over the directives of one block; `last` is the line of the last token of the file. -/
def parseBlock (path : List UInt8) (last : Nat) (nested : Bool) (directives : List Directive) (tokens : List Token) :
    Except NginxError (Block tokens) :=
  match tokens with
  | [] =>
    if nested then .error (.syntaxError path last (ascii "unterminated block"))
    else .ok ⟨directives,[],Nat.le_refl _⟩
  | ⟨.rightBrace,line⟩ :: rest =>
    if nested then .ok ⟨directives,rest,by simp⟩
    else .error (.syntaxError path line (ascii "unexpected closing brace"))
  | ⟨.word name,line⟩ :: tokens =>
    match ended : takeArgs tokens with
    | (_,[]) => .error (missingTerminator path name line)
    | (args,⟨.semicolon,_⟩ :: rest) =>
      have fewer : rest.length < tokens.length := by
        have := takeArgs_length tokens
        simp only [ended,List.length_cons] at this
        omega
      (parseBlock path last nested (directives ++ [⟨name,args,[],path,line⟩]) rest).map
        (·.within (by simp only [List.length_cons]; omega))
    | (args,⟨.leftBrace,_⟩ :: rest) =>
      have fewer : rest.length < tokens.length := by
        have := takeArgs_length tokens
        simp only [ended,List.length_cons] at this
        omega
      (parseBlock path last true [] rest).bind fun children =>
        have := children.shorter
        (parseBlock path last nested (directives ++ [⟨name,args,children.directives,path,line⟩]) children.rest).map
          (·.within (by simp only [List.length_cons]; omega))
    | (_,⟨_,closing⟩ :: _) => .error (missingTerminator path name closing)
  | ⟨_,line⟩ :: _ => .error (.syntaxError path line (ascii "expected directive name"))
termination_by tokens.length
decreasing_by
  all_goals
    simp only [List.length_cons]
    omega

def parseDirectives (path : List UInt8) (tokens : List Token) : Except NginxError (List Directive) :=
  (parseBlock path (tokens.getLast?.elim 1 (·.line)) false [] tokens).map Block.directives

section Statements

structure Word where
  value : List UInt8
  line : Nat

def Word.token (word : Word) : Token := ⟨.word word.value,word.line⟩

/-- A directive with the lines of its words and of the tokens that end it. -/
inductive Statement where
  | simple (name : Word) (args : List Word) (line : Nat)
  | block (name : Word) (args : List Word) (opened : Nat) (body : List Statement) (closed : Nat)

mutual

def Statement.printed : Statement → List Token
  | .simple name args line => name.token :: (args.map Word.token ++ [⟨.semicolon,line⟩])
  | .block name args opened body closed =>
    name.token :: (args.map Word.token ++ ⟨.leftBrace,opened⟩ :: (printedAll body ++ [⟨.rightBrace,closed⟩]))

def printedAll : List Statement → List Token
  | [] => []
  | statement :: statements => statement.printed ++ printedAll statements

end

mutual

def Statement.directive (path : List UInt8) : Statement → Directive
  | .simple name args _ => ⟨name.value,args.map Word.value,[],path,name.line⟩
  | .block name args _ body _ => ⟨name.value,args.map Word.value,directivesOf path body,path,name.line⟩

def directivesOf (path : List UInt8) : List Statement → List Directive
  | [] => []
  | statement :: statements => statement.directive path :: directivesOf path statements

end

end Statements

section Reading
variable (path : List UInt8) (last : Nat)

/-- The outcome of a block without the bound on what it leaves. -/
def readBlock (nested : Bool) (directives : List Directive) (tokens : List Token) :
    Except NginxError (List Directive × List Token) :=
  (parseBlock path last nested directives tokens).map fun block => (block.directives,block.rest)

theorem takeArgs_words (args : List Word) {kind : TokenKind} (ends : ∀ value, kind ≠ .word value) (line : Nat)
    (rest : List Token) :
    takeArgs (args.map Word.token ++ ⟨kind,line⟩ :: rest) = (args.map Word.value,⟨kind,line⟩ :: rest) := by
  induction args with
  | nil =>
    cases kind with
    | word value => exact absurd rfl (ends value)
    | _ => rfl
  | cons word args ih => simp [takeArgs,Word.token,ih]

theorem readBlock_nil (directives : List Directive) : readBlock path last false directives [] = .ok (directives,[]) := by
  rw [readBlock,parseBlock]
  rfl

theorem readBlock_close (directives : List Directive) (line : Nat) (rest : List Token) :
    readBlock path last true directives (⟨.rightBrace,line⟩ :: rest) = .ok (directives,rest) := by
  rw [readBlock,parseBlock]
  rfl

theorem readBlock_simple (nested : Bool) (directives : List Directive) (name : Word) (args : List Word) (line : Nat)
    (rest : List Token) :
    readBlock path last nested directives ((Statement.simple name args line).printed ++ rest) =
      readBlock path last nested (directives ++ [(Statement.simple name args line).directive path]) rest := by
  have words : takeArgs (args.map Word.token ++ ⟨.semicolon,line⟩ :: rest) =
      (args.map Word.value,⟨.semicolon,line⟩ :: rest) := takeArgs_words args (by simp) line rest
  rw [Statement.printed,List.cons_append,List.append_assoc,List.cons_append,List.nil_append,readBlock,Word.token,parseBlock]
  split
  · simp_all
  · rename_i ended
    rw [words] at ended
    cases ended
    rw [readBlock,Statement.directive]
    cases parseBlock path last nested (directives ++ [⟨name.value,args.map Word.value,[],path,name.line⟩]) rest <;> rfl
  · simp_all
  · simp_all

theorem readBlock_block (nested : Bool) (directives : List Directive) (name : Word) (args : List Word) (opened : Nat)
    (rest : List Token) :
    readBlock path last nested directives (name.token :: (args.map Word.token ++ ⟨.leftBrace,opened⟩ :: rest)) =
      (readBlock path last true [] rest).bind fun children =>
        readBlock path last nested (directives ++ [⟨name.value,args.map Word.value,children.1,path,name.line⟩]) children.2 := by
  have words : takeArgs (args.map Word.token ++ ⟨.leftBrace,opened⟩ :: rest) =
      (args.map Word.value,⟨.leftBrace,opened⟩ :: rest) := takeArgs_words args (by simp) opened rest
  rw [readBlock,Word.token,parseBlock]
  split
  · simp_all
  · simp_all
  · rename_i ended
    rw [words] at ended
    cases ended
    rw [readBlock]
    cases parseBlock path last true [] rest with
    | error error => rfl
    | ok children =>
      simp only [Except.map,Except.bind,readBlock]
      cases parseBlock path last nested
        (directives ++ [⟨name.value,args.map Word.value,children.directives,path,name.line⟩]) children.rest <;> rfl
  · simp_all

mutual

theorem readBlock_statement (statement : Statement) (nested : Bool) (directives : List Directive) (rest : List Token) :
    readBlock path last nested directives (statement.printed ++ rest) =
      readBlock path last nested (directives ++ [statement.directive path]) rest := by
  cases statement with
  | simple name args line => exact readBlock_simple path last nested directives name args line rest
  | block name args opened body closed =>
    have inner := readBlock_statements body true [] (⟨.rightBrace,closed⟩ :: rest)
    rw [List.nil_append,readBlock_close] at inner
    rw [Statement.printed,List.cons_append,List.append_assoc,List.cons_append,List.append_assoc,List.cons_append,
      List.nil_append,readBlock_block,inner]
    rfl

theorem readBlock_statements (statements : List Statement) (nested : Bool) (directives : List Directive)
    (rest : List Token) : readBlock path last nested directives (printedAll statements ++ rest) =
      readBlock path last nested (directives ++ directivesOf path statements) rest := by
  cases statements with
  | nil => rw [printedAll,directivesOf,List.nil_append,List.append_nil]
  | cons statement statements =>
    rw [printedAll,List.append_assoc,readBlock_statement statement,readBlock_statements statements,directivesOf,
      List.append_assoc]
    rfl

end

theorem takeArgs_split {tokens : List Token} {args : List (List UInt8)} {rest : List Token}
    (split : takeArgs tokens = (args,rest)) : ∃ words : List Word,
      words.map Word.value = args ∧ tokens = words.map Word.token ++ rest := by
  fun_induction takeArgs tokens generalizing args with
  | case1 value line tokens ih =>
    cases split
    obtain ⟨words,same,spelled⟩ := ih rfl
    refine ⟨⟨value,line⟩ :: words,by rw [List.map_cons,same],?_⟩
    rw [List.map_cons,List.cons_append,← spelled]
    rfl
  | case2 tokens other =>
    cases split
    exact ⟨[],rfl,rfl⟩

/-- What a block has read: statements, and the brace that closes it where it is nested. -/
def Spelled (nested : Bool) (tokens rest : List Token) (statements : List Statement) : Prop :=
  if nested then ∃ line, tokens = printedAll statements ++ ⟨.rightBrace,line⟩ :: rest
  else tokens = printedAll statements ∧ rest = []

theorem Spelled.cons {nested : Bool} {tokens rest : List Token} {statements : List Statement}
    (spelled : Spelled nested tokens rest statements) (statement : Statement) :
    Spelled nested (statement.printed ++ tokens) rest (statement :: statements) := by
  cases nested with
  | true =>
    obtain ⟨line,rfl⟩ : ∃ line, tokens = printedAll statements ++ ⟨.rightBrace,line⟩ :: rest := by
      simpa [Spelled] using spelled
    simp [Spelled,printedAll]
  | false =>
    obtain ⟨rfl,rfl⟩ : tokens = printedAll statements ∧ rest = [] := by simpa [Spelled] using spelled
    simp [Spelled,printedAll]

theorem parseBlock_sound {nested : Bool} {directives : List Directive} {tokens : List Token} {block : Block tokens}
    (ok : parseBlock path last nested directives tokens = .ok block) : ∃ statements,
      block.directives = directives ++ directivesOf path statements ∧ Spelled nested tokens block.rest statements := by
  fun_induction parseBlock path last nested directives tokens with
  | case1 directives => cases ok
  | case2 nested directives plain =>
    cases ok
    exact ⟨[],by simp [directivesOf],by simp [Spelled,plain,printedAll]⟩
  | case3 directives line rest =>
    cases ok
    exact ⟨[],by simp [directivesOf],by simp [Spelled,printedAll]⟩
  | case4 nested directives line rest plain => cases ok
  | case5 nested directives name line tokens args ended => cases ok
  | case6 nested directives name line tokens args closed rest ended fewer ih =>
    obtain ⟨inner,read,rfl⟩ := Fallible.map_iff.mp ok
    obtain ⟨statements,same,spelled⟩ := ih read
    obtain ⟨words,values,rfl⟩ := takeArgs_split ended
    refine ⟨.simple ⟨name,line⟩ words closed :: statements,?_,?_⟩
    · simp [Block.within,same,directivesOf,Statement.directive,values]
    · simpa [Statement.printed,Word.token,Block.within] using spelled.cons (.simple ⟨name,line⟩ words closed)
  | case7 nested directives name line tokens args opened rest ended fewer ihBody ihRest =>
    cases body : parseBlock path last true [] rest with
    | error error =>
      rw [body] at ok
      cases ok
    | ok children =>
      rw [body] at ok
      obtain ⟨after,read,rfl⟩ := Fallible.map_iff.mp ok
      obtain ⟨inside,sameBody,spelledBody⟩ := ihBody body
      obtain ⟨statements,same,spelled⟩ := ihRest children read
      obtain ⟨words,values,rfl⟩ := takeArgs_split ended
      obtain ⟨closed,whole⟩ : ∃ closed, rest = printedAll inside ++ ⟨.rightBrace,closed⟩ :: children.rest := by
        simpa [Spelled] using spelledBody
      refine ⟨.block ⟨name,line⟩ words opened inside closed :: statements,?_,?_⟩
      · simp [Block.within,same,directivesOf,Statement.directive,values,sameBody]
      · have longer := spelled.cons (.block ⟨name,line⟩ words opened inside closed)
        simpa [Statement.printed,Word.token,Block.within,whole] using longer
  | case8 nested directives name line tokens args kind closing tail noEnd noBlock ended => cases ok
  | case9 nested directives kind line tail noBrace noWord => cases ok

theorem parseBlock_error {nested : Bool} {directives : List Directive} {tokens : List Token} {error : NginxError}
    (failed : parseBlock path last nested directives tokens = .error error) :
    ∃ line message, error = .syntaxError path line message := by
  fun_induction parseBlock path last nested directives tokens with
  | case1 directives => cases failed; exact ⟨_,_,rfl⟩
  | case2 nested directives plain => cases failed
  | case3 directives line rest => cases failed
  | case4 nested directives line rest plain => cases failed; exact ⟨_,_,rfl⟩
  | case5 nested directives name line tokens args ended => cases failed; exact ⟨_,_,rfl⟩
  | case6 nested directives name line tokens args closed rest ended fewer ih =>
    cases inner : parseBlock path last nested (directives ++ [⟨name,args,[],path,line⟩]) rest with
    | error error' =>
      rw [inner] at failed
      cases failed
      exact ih inner
    | ok block =>
      rw [inner] at failed
      cases failed
  | case7 nested directives name line tokens args opened rest ended fewer ihBody ihRest =>
    cases body : parseBlock path last true [] rest with
    | error error' =>
      rw [body] at failed
      cases failed
      exact ihBody body
    | ok children =>
      rw [body] at failed
      cases inner : parseBlock path last nested (directives ++ [⟨name,args,children.directives,path,line⟩]) children.rest with
      | error error' =>
        simp only [Except.bind,inner] at failed
        cases failed
        exact ihRest children inner
      | ok block =>
        simp only [Except.bind,inner] at failed
        cases failed
  | case8 nested directives name line tokens args kind closing tail noEnd noBlock ended => cases failed; exact ⟨_,_,rfl⟩
  | case9 nested directives kind line tail noBrace noWord => cases failed; exact ⟨_,_,rfl⟩

end Reading

theorem parseDirectives_printed (path : List UInt8) (statements : List Statement) :
    parseDirectives path (printedAll statements) = .ok (directivesOf path statements) := by
  have read := readBlock_statements path ((printedAll statements).getLast?.elim 1 (·.line)) statements false [] []
  rw [List.append_nil,List.nil_append,readBlock_nil,readBlock] at read
  obtain ⟨block,parsed,same⟩ := Fallible.map_iff.mp read
  rw [parseDirectives,parsed]
  exact congrArg Except.ok (congrArg Prod.fst same)

/-- A list of tokens parses exactly as the statements that print as it, and any other list is a syntax error. -/
theorem parser_accepts_grammar (path : List UInt8) (tokens : List Token) :
    (∀ tree, parseDirectives path tokens = .ok tree ↔
        ∃ statements, printedAll statements = tokens ∧ directivesOf path statements = tree) ∧
      ((¬∃ statements, printedAll statements = tokens) →
        ∃ line message, parseDirectives path tokens = .error (.syntaxError path line message)) := by
  have sound : ∀ tree, parseDirectives path tokens = .ok tree →
      ∃ statements, printedAll statements = tokens ∧ directivesOf path statements = tree := by
    intro tree ok
    obtain ⟨block,parsed,rfl⟩ := Fallible.map_iff.mp ok
    obtain ⟨statements,same,spelled⟩ := parseBlock_sound _ _ parsed
    obtain ⟨printed,_⟩ : tokens = printedAll statements ∧ block.rest = [] := by simpa [Spelled] using spelled
    exact ⟨statements,printed.symm,by simpa using same.symm⟩
  constructor
  · intro tree
    constructor
    · exact sound tree
    · rintro ⟨statements,rfl,rfl⟩
      exact parseDirectives_printed path statements
  · intro none
    cases outcome : parseDirectives path tokens with
    | ok tree =>
      obtain ⟨statements,printed,_⟩ := sound tree outcome
      exact absurd ⟨statements,printed⟩ none
    | error error =>
      unfold parseDirectives at outcome
      cases parsed : parseBlock path (tokens.getLast?.elim 1 (·.line)) false [] tokens with
      | ok block =>
        rw [parsed] at outcome
        cases outcome
      | error failure =>
        rw [parsed] at outcome
        cases outcome
        obtain ⟨line,message,rfl⟩ := parseBlock_error _ _ parsed
        exact ⟨line,message,rfl⟩

theorem parser_rejects_stray : ∃ line message,
    parseDirectives (ascii "nginx.conf") [⟨.rightBrace,1⟩] = .error (.syntaxError (ascii "nginx.conf") line message) := by
  refine (parser_accepts_grammar (ascii "nginx.conf") [⟨.rightBrace,1⟩]).2 ?_
  rintro ⟨statements,printed⟩
  cases statements with
  | nil => cases printed
  | cons statement statements =>
    cases statement <;> simp [printedAll,Statement.printed,Word.token] at printed

end Polyguard.Nginx

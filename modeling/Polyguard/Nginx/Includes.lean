import Polyguard.Nginx.Grammar
import Polyguard.Nginx.Wildcards
import Polyguard.Collections.Ordered

/-! The loading of a configuration file with the files it includes. The file system is
given by what its calls answer. A load keeps the files on the way to it on a stack and
counts files and bytes over the whole run. -/
namespace Polyguard.Nginx
open Ascii Slices

/-- The answers of the file system; an error is its text, and a directory lists the names of its entries. -/
structure FileSystem where
  canonicalize : List UInt8 → Except (List UInt8) (List UInt8)
  readToString : List UInt8 → Except (List UInt8) (List UInt8)
  readDir : List UInt8 → Except (List UInt8) (List (List UInt8))

section Paths

def isAbsolute (path : List UInt8) : Bool := path.head? == some 0x2f

/-- The front of a path that stands for the root or for the current directory. -/
def pathLead (path : List UInt8) : List UInt8 :=
  if isAbsolute path then [0x2f]
  else if path == ascii "." || (ascii "./").isPrefixOf path then [0x2e]
  else []

/-- A part of a path that is no component of it. -/
def isSkipped (part : List UInt8) : Bool := part.isEmpty || part == ascii "."

/-- The last component behind the lead and the parts before it, from the back. -/
def lastComponent (path : List UInt8) : Option (List UInt8 × List (List UInt8)) :=
  match ((path.drop (pathLead path).length).splitOn 0x2f).reverse.dropWhile isSkipped with
  | [] => none
  | part :: before => some (part,before)

def joinParts (parts : List (List UInt8)) : List UInt8 := [0x2f].intercalate parts

def parent (path : List UInt8) : Option (List UInt8) :=
  match lastComponent path with
  | some (_,before) => some (pathLead path ++ joinParts (before.dropWhile isSkipped).reverse)
  | none => if pathLead path == ascii "." then some [] else none

def fileName (path : List UInt8) : Option (List UInt8) :=
  match lastComponent path with
  | some (part,_) => if part == ascii ".." then none else some part
  | none => none

def joinPath (path suffix : List UInt8) : List UInt8 :=
  if isAbsolute suffix then suffix
  else if path.getLast?.all (· == 0x2f) then path ++ suffix
  else path ++ 0x2f :: suffix

end Paths

def isWild (byte : UInt8) : Bool := byte == 0x2a || byte == 0x3f

def ioFailure {α : Type} (path : List UInt8) (answer : Except (List UInt8) α) : Except NginxError α :=
  answer.mapError (.ioError path)

/-- The paths of one directory differ in their names only and are sorted by them. -/
def expandInclude (fs : FileSystem) (pattern : List UInt8) : Except NginxError (List (List UInt8)) :=
  if !(Utf8.lossy pattern).any isWild then .ok [pattern]
  else
    let directory := (parent pattern).getD (ascii ".")
    if (Utf8.lossy directory).any isWild then
      .error (.invalid (ascii "include wildcard directories are unsupported: " ++ Utf8.lossy pattern))
    else match (fileName pattern).bind Utf8.fromUtf8 with
      | none => .error (.invalid (ascii "include pattern must be UTF-8"))
      | some filePattern =>
        (ioFailure directory (fs.readDir directory)).map fun names =>
          (Ordered.sort (names.filter fun name => wildcardMatches filePattern (Utf8.lossy name))).map (joinPath directory)

structure Loader where
  prefixPath : List UInt8
  stack : List (List UInt8)
  files : Nat
  totalBytes : Nat

def maxConfigBytes : Nat := 32 * 1024 * 1024
def maxIncludeDepth : Nat := 16
def maxIncludedFiles : Nat := 1024

section Loading
variable (fs : FileSystem)

/-- The loads of the matched files, one after the other. -/
def loadEach (loadFile : List UInt8 → Loader → Except NginxError (List Directive × Loader)) :
    List (List UInt8) → Loader → Except NginxError (List Directive × Loader)
  | [], loader => .ok ([],loader)
  | path :: paths, loader => do
    let (directives,loader) ← loadFile path loader
    let (others,loader) ← loadEach loadFile paths loader
    .ok (directives ++ others,loader)

def expandDirectives (loadFile : List UInt8 → Loader → Except NginxError (List Directive × Loader)) :
    List Directive → Loader → Except NginxError (List Directive × Loader)
  | [], loader => .ok ([],loader)
  | ⟨name,args,children,path,line⟩ :: directives, loader =>
    if name == ascii "include" then
      match args, children with
      | [requested], [] => do
        let paths ← expandInclude fs (joinPath loader.prefixPath requested)
        let (spliced,loader) ← loadEach loadFile paths loader
        let (others,loader) ← expandDirectives loadFile directives loader
        .ok (spliced ++ others,loader)
      | _, _ => .error (.syntaxError path line (ascii "include requires exactly one path"))
    else do
      let (inner,loader) ← expandDirectives loadFile children loader
      let (others,loader) ← expandDirectives loadFile directives loader
      .ok (⟨name,args,inner,path,line⟩ :: others,loader)

/-- `levels` counts the depths that are left, this one among them. -/
def loadFile (levels : Nat) (path : List UInt8) (loader : Loader) : Except NginxError (List Directive × Loader) :=
  match levels with
  | 0 => .error (.invalid (ascii "Nginx include depth exceeds 16"))
  | levels + 1 => do
    let canonical ← ioFailure path (fs.canonicalize path)
    if loader.stack.contains canonical then
      .error (.invalid (ascii "Nginx include cycle: " ++ Utf8.lossy canonical))
    else if loader.files + 1 > maxIncludedFiles then
      .error (.invalid (ascii "Nginx configuration includes too many files"))
    else do
      let source ← ioFailure canonical (fs.readToString canonical)
      let totalBytes := min (loader.totalBytes + source.length) usizeMax
      if totalBytes > maxConfigBytes then .error (.invalid (ascii "Nginx configuration exceeds 32 MiB"))
      else do
        let tokens ← tokenize canonical source
        let directives ← parseDirectives canonical tokens
        let (expanded,loader) ← expandDirectives fs (loadFile levels) directives
          ⟨loader.prefixPath,canonical :: loader.stack,loader.files + 1,totalBytes⟩
        .ok (expanded,{ loader with stack := loader.stack.erase canonical })

def load (path : List UInt8) : Except NginxError (List Directive) := do
  let canonical ← ioFailure path (fs.canonicalize path)
  let (directives,_) ← loadFile fs (maxIncludeDepth + 1) canonical ⟨(parent canonical).getD (ascii "."),[],0,0⟩
  .ok directives

end Loading

section Loads

/-- One load of a file: its canonical path, its text and the loads that its includes make. -/
inductive Load where
  | file (canonical source : List UInt8) (loads : List Load)

mutual

/-- The texts that a load and the loads inside it read. -/
def Load.sources : Load → List (List UInt8)
  | .file _ source loads => source :: sourcesOf loads

def sourcesOf : List Load → List (List UInt8)
  | [] => []
  | load :: loads => load.sources ++ sourcesOf loads

end

mutual

/-- The chains of files from a load down to each load inside it. -/
def Load.chains : Load → List (List (List UInt8))
  | .file canonical _ loads => [canonical] :: (chainsOf loads).map (canonical :: ·)

def chainsOf : List Load → List (List (List UInt8))
  | [] => []
  | load :: loads => load.chains ++ chainsOf loads

end

def bytesRead (sources : List (List UInt8)) : Nat := (sources.map List.length).sum

/-- The files that an include names: the path itself, or the names of one directory in order. -/
inductive Matched (fs : FileSystem) (pattern : List UInt8) : List (List UInt8) → Prop
  | plain (tame : (Utf8.lossy pattern).any isWild = false) : Matched fs pattern [pattern]
  | wild (marked : (Utf8.lossy pattern).any isWild) {directory filePattern : List UInt8} {names sorted : List (List UInt8)}
      (inside : (parent pattern).getD (ascii ".") = directory) (tame : (Utf8.lossy directory).any isWild = false)
      (last : fileName pattern = some filePattern) (text : Utf8.valid filePattern) (listed : fs.readDir directory = .ok names)
      (ordered : sorted.Pairwise (· ≤ ·))
      (chosen : sorted.Perm (names.filter fun name => wildcardMatches filePattern (Utf8.lossy name))) :
      Matched fs pattern (sorted.map (joinPath directory))

mutual

/-- The directives that a file stands for when it is included. -/
inductive Loads (fs : FileSystem) (prefixPath : List UInt8) : List UInt8 → Load → List Directive → Prop
  | file {path canonical source : List UInt8} {tokens : List Token} {tree : List Directive} {loads : List Load}
      {result : List Directive} (found : fs.canonicalize path = .ok canonical)
      (read : fs.readToString canonical = .ok source) (tokenized : tokenize canonical source = .ok tokens)
      (parsed : parseDirectives canonical tokens = .ok tree) (splices : Splices fs prefixPath tree loads result) :
      Loads fs prefixPath path (.file canonical source loads) result

inductive LoadsEach (fs : FileSystem) (prefixPath : List UInt8) :
    List (List UInt8) → List Load → List Directive → Prop
  | nil : LoadsEach fs prefixPath [] [] []
  | cons {path : List UInt8} {paths : List (List UInt8)} {load : Load} {loads : List Load}
      {directives others : List Directive} (first : Loads fs prefixPath path load directives)
      (later : LoadsEach fs prefixPath paths loads others) :
      LoadsEach fs prefixPath (path :: paths) (load :: loads) (directives ++ others)

/-- A tree with every include replaced in place by the directives of its files. -/
inductive Splices (fs : FileSystem) (prefixPath : List UInt8) : List Directive → List Load → List Directive → Prop
  | nil : Splices fs prefixPath [] [] []
  | keep {name : List UInt8} {args : List (List UInt8)} {children rest inner outer : List Directive} {path : List UInt8}
      {line : Nat} {insideLoads laterLoads : List Load} (other : name ≠ ascii "include")
      (inside : Splices fs prefixPath children insideLoads inner) (later : Splices fs prefixPath rest laterLoads outer) :
      Splices fs prefixPath (⟨name,args,children,path,line⟩ :: rest) (insideLoads ++ laterLoads)
        (⟨name,args,inner,path,line⟩ :: outer)
  | splice {requested path : List UInt8} {line : Nat} {paths : List (List UInt8)} {rest spliced outer : List Directive}
      {madeLoads laterLoads : List Load} (matched : Matched fs (joinPath prefixPath requested) paths)
      (made : LoadsEach fs prefixPath paths madeLoads spliced) (later : Splices fs prefixPath rest laterLoads outer) :
      Splices fs prefixPath (⟨ascii "include",[requested],[],path,line⟩ :: rest) (madeLoads ++ laterLoads) (spliced ++ outer)

end

theorem sourcesOf_append (first second : List Load) : sourcesOf (first ++ second) = sourcesOf first ++ sourcesOf second := by
  induction first with
  | nil => rfl
  | cons load first ih => rw [List.cons_append,sourcesOf,sourcesOf,ih,List.append_assoc]

theorem chainsOf_append (first second : List Load) : chainsOf (first ++ second) = chainsOf first ++ chainsOf second := by
  induction first with
  | nil => rfl
  | cons load first ih => rw [List.cons_append,chainsOf,chainsOf,ih,List.append_assoc]

end Loads

section Accounting

def Loader.after (loader : Loader) (loads : List Load) : Loader :=
  { loader with
    files := loader.files + (sourcesOf loads).length
    totalBytes := loader.totalBytes + bytesRead (sourcesOf loads) }

structure Loader.Within (loader : Loader) : Prop where
  files : loader.files ≤ maxIncludedFiles
  bytes : loader.totalBytes ≤ maxConfigBytes

/-- The loads keep to the depths that are left, meet no file twice on a way down, and leave the counters in bounds. -/
structure Bounded (levels : Nat) (loader : Loader) (loads : List Load) : Prop where
  chain : ∀ chain ∈ chainsOf loads, chain.length ≤ levels ∧ chain.Nodup ∧ ∀ canonical ∈ chain, canonical ∉ loader.stack
  within : (loader.after loads).Within

theorem after_append (loader : Loader) (first second : List Load) :
    loader.after (first ++ second) = (loader.after first).after second := by
  simp [Loader.after,sourcesOf_append,bytesRead,Nat.add_assoc]

@[simp] theorem after_nil (loader : Loader) : loader.after [] = loader := rfl

theorem bounded_nil (levels : Nat) {loader : Loader} (within : loader.Within) : Bounded levels loader [] :=
  ⟨by simp [chainsOf],within⟩

theorem bounded_append (levels : Nat) (loader : Loader) (first second : List Load) :
    Bounded levels loader (first ++ second) ↔
      Bounded levels loader first ∧ Bounded levels (loader.after first) second := by
  constructor
  · rintro ⟨chain,within⟩
    rw [after_append] at within
    rw [chainsOf_append] at chain
    refine ⟨⟨fun _ member => chain _ (List.mem_append_left _ member),?_⟩,
      fun _ member => chain _ (List.mem_append_right _ member),within⟩
    exact ⟨(Nat.le_add_right _ _).trans within.files,(Nat.le_add_right _ _).trans within.bytes⟩
  · rintro ⟨before,after⟩
    refine ⟨?_,by rw [after_append]; exact after.within⟩
    intro chain member
    rw [chainsOf_append,List.mem_append] at member
    obtain member | member := member
    · exact before.chain chain member
    · exact after.chain chain member

end Accounting

section Expansion
variable {fs : FileSystem}

theorem ioFailure_iff {α : Type} {path : List UInt8} {answer : Except (List UInt8) α} {value : α} :
    ioFailure path answer = .ok value ↔ answer = .ok value := Fallible.mapError_iff

theorem expandInclude_iff {pattern : List UInt8} {paths : List (List UInt8)} :
    expandInclude fs pattern = .ok paths ↔ Matched fs pattern paths := by
  have sameSort : ∀ {names sorted : List (List UInt8)}, sorted.Pairwise (· ≤ ·) → sorted.Perm names →
      sorted = Ordered.sort names := by
    intro names sorted ordered chosen
    exact List.Perm.eq_of_pairwise (fun _ _ _ _ => le_antisymm) ordered (Ordered.pairwise_sort _)
      (chosen.trans (List.perm_insertionSort (· ≤ ·) names).symm)
  unfold expandInclude
  constructor
  · intro ok
    split at ok
    · rename_i tame
      cases ok
      exact .plain (by simpa using tame)
    · rename_i marked
      obtain ⟨tame,ok⟩ := Fallible.unless_iff.mp ok
      split at ok
      · cases ok
      · rename_i filePattern last
        obtain ⟨names,listed,rfl⟩ := Fallible.map_iff.mp ok
        obtain ⟨name,found,decoded⟩ := Option.bind_eq_some_iff.mp last
        obtain ⟨text,rfl⟩ : Utf8.valid name ∧ name = filePattern := by simpa [Utf8.fromUtf8] using decoded
        exact .wild (by simpa using marked) rfl (by simpa using tame) found text (ioFailure_iff.mp listed)
          (Ordered.pairwise_sort _) (List.perm_insertionSort (· ≤ ·) _)
  · intro matched
    cases matched with
    | plain tame => rw [if_pos (by simp [tame])]
    | wild marked inside tame last text listed ordered chosen =>
      subst inside
      rw [if_neg (by simp [marked]),if_neg (by simp [tame]),last]
      simp only [Option.bind_some,Utf8.fromUtf8,text,if_true,listed]
      rw [sameSort ordered chosen]
      rfl

/-- A loader of files that answers exactly with the directives of a load in bounds. -/
def Faithful (fs : FileSystem) (levels : Nat)
    (loadFile : List UInt8 → Loader → Except NginxError (List Directive × Loader)) : Prop :=
  ∀ path loader directives next, loader.Within → (loadFile path loader = .ok (directives,next) ↔
    ∃ load, Loads fs loader.prefixPath path load directives ∧ Bounded levels loader [load] ∧ next = loader.after [load])

variable {levels : Nat} {loadFile : List UInt8 → Loader → Except NginxError (List Directive × Loader)}

theorem loadEach_iff (faithful : Faithful fs levels loadFile) {paths : List (List UInt8)} {loader next : Loader}
    {directives : List Directive} (within : loader.Within) : loadEach loadFile paths loader = .ok (directives,next) ↔
      ∃ loads, LoadsEach fs loader.prefixPath paths loads directives ∧ Bounded levels loader loads ∧
        next = loader.after loads := by
  induction paths generalizing loader directives next with
  | nil =>
    constructor
    · intro ok
      cases ok
      exact ⟨[],.nil,bounded_nil levels within,rfl⟩
    · rintro ⟨loads,made,_,rfl⟩
      cases made
      rfl
  | cons path paths ih =>
    rw [loadEach,Fallible.bind_iff]
    constructor
    · rintro ⟨⟨first,middle⟩,began,ok⟩
      obtain ⟨load,loads,bounded,rfl⟩ := (faithful path loader first middle within).mp began
      obtain ⟨⟨others,last⟩,went,ok⟩ := Fallible.bind_iff.mp ok
      obtain ⟨later,made,rest,rfl⟩ := (ih bounded.within).mp went
      cases ok
      exact ⟨load :: later,.cons loads made,(bounded_append levels loader [load] later).mpr ⟨bounded,rest⟩,
        (after_append loader [load] later).symm⟩
    · rintro ⟨loads,made,bounded,rfl⟩
      cases made with
      | @cons _ _ load later first others loads made =>
        obtain ⟨start,rest⟩ := (bounded_append levels loader [load] later).mp bounded
        refine ⟨(first,loader.after [load]),(faithful path loader _ _ within).mpr ⟨load,loads,start,rfl⟩,?_⟩
        refine Fallible.bind_iff.mpr ⟨(others,(loader.after [load]).after later),(ih start.within).mpr ⟨later,made,rest,rfl⟩,?_⟩
        rw [← after_append]
        rfl

theorem expandDirectives_iff (faithful : Faithful fs levels loadFile) {tree : List Directive} {loader next : Loader}
    {directives : List Directive} (within : loader.Within) :
    expandDirectives fs loadFile tree loader = .ok (directives,next) ↔
      ∃ loads, Splices fs loader.prefixPath tree loads directives ∧ Bounded levels loader loads ∧
        next = loader.after loads := by
  fun_induction expandDirectives fs loadFile tree loader generalizing directives next with
  | case1 loader =>
    constructor
    · intro ok
      cases ok
      exact ⟨[],.nil,bounded_nil levels within,rfl⟩
    · rintro ⟨loads,splices,_,rfl⟩
      cases splices
      rfl
  | case2 name path line rest loader included requested ih =>
    rw [beq_iff_eq] at included
    subst included
    rw [Fallible.bind_iff]
    constructor
    · rintro ⟨paths,matched,ok⟩
      obtain ⟨⟨spliced,middle⟩,began,ok⟩ := Fallible.bind_iff.mp ok
      obtain ⟨made,each,bounded,rfl⟩ := (loadEach_iff faithful within).mp began
      obtain ⟨⟨others,last⟩,went,ok⟩ := Fallible.bind_iff.mp ok
      obtain ⟨later,splices,after,rfl⟩ := (ih _ bounded.within).mp went
      cases ok
      exact ⟨made ++ later,.splice (expandInclude_iff.mp matched) each splices,
        (bounded_append levels loader made later).mpr ⟨bounded,after⟩,(after_append loader made later).symm⟩
    · rintro ⟨loads,splices,bounded,rfl⟩
      cases splices with
      | keep other _ _ => exact absurd rfl other
      | @splice _ _ _ paths _ spliced outer made later matched each splices =>
        obtain ⟨start,after⟩ := (bounded_append levels loader made later).mp bounded
        refine ⟨paths,expandInclude_iff.mpr matched,?_⟩
        refine Fallible.bind_iff.mpr ⟨(spliced,loader.after made),(loadEach_iff faithful within).mpr ⟨made,each,start,rfl⟩,?_⟩
        refine Fallible.bind_iff.mpr ⟨(outer,(loader.after made).after later),(ih _ start.within).mpr ⟨later,splices,after,rfl⟩,?_⟩
        rw [← after_append]
  | case3 name args children path line rest loader included malformed =>
    rw [beq_iff_eq] at included
    constructor
    · intro ok
      cases ok
    · rintro ⟨loads,splices,_,rfl⟩
      cases splices with
      | keep other _ _ => exact absurd included other
      | splice _ _ _ => exact absurd rfl (malformed _ rfl)
  | case4 name args children path line rest loader other ihChildren ih =>
    rw [beq_iff_eq] at other
    rw [Fallible.bind_iff]
    constructor
    · rintro ⟨⟨inner,middle⟩,began,ok⟩
      obtain ⟨inside,splicesInner,bounded,rfl⟩ := (ihChildren within).mp began
      obtain ⟨⟨others,last⟩,went,ok⟩ := Fallible.bind_iff.mp ok
      obtain ⟨later,splices,after,rfl⟩ := (ih _ bounded.within).mp went
      cases ok
      exact ⟨inside ++ later,.keep other splicesInner splices,
        (bounded_append levels loader inside later).mpr ⟨bounded,after⟩,(after_append loader inside later).symm⟩
    · rintro ⟨loads,splices,bounded,rfl⟩
      cases splices with
      | splice _ _ _ => exact absurd rfl other
      | @keep _ _ _ _ inner outer _ _ inside later _ splicesInner splices =>
        obtain ⟨start,after⟩ := (bounded_append levels loader inside later).mp bounded
        refine ⟨(inner,loader.after inside),(ihChildren within).mpr ⟨inside,splicesInner,start,rfl⟩,?_⟩
        refine Fallible.bind_iff.mpr ⟨(outer,(loader.after inside).after later),(ih _ start.within).mpr ⟨later,splices,after,rfl⟩,?_⟩
        rw [← after_append]

end Expansion

section Files

/-- The loader while it reads a file. -/
def Loader.inside (loader : Loader) (canonical source : List UInt8) : Loader :=
  ⟨loader.prefixPath,canonical :: loader.stack,loader.files + 1,loader.totalBytes + source.length⟩

theorem after_file (loader : Loader) (canonical source : List UInt8) (loads : List Load) :
    loader.after [.file canonical source loads] =
      { (loader.inside canonical source).after loads with stack := (canonical :: loader.stack).erase canonical } := by
  simp only [Loader.after,Loader.inside,sourcesOf,Load.sources,List.append_nil,List.length_cons,bytesRead,List.map_cons,
    List.sum_cons,List.erase_cons_head,Loader.mk.injEq,true_and]
  omega

theorem bounded_file {levels : Nat} {loader : Loader} {canonical source : List UInt8} {loads : List Load} :
    Bounded (levels + 1) loader [.file canonical source loads] ↔
      canonical ∉ loader.stack ∧ Bounded levels (loader.inside canonical source) loads := by
  have same : (loader.after [.file canonical source loads]).Within ↔
      ((loader.inside canonical source).after loads).Within := by
    rw [after_file]
    exact ⟨fun within => ⟨within.files,within.bytes⟩,fun within => ⟨within.files,within.bytes⟩⟩
  have chains : ∀ chain, chain ∈ chainsOf [.file canonical source loads] ↔
      chain = [canonical] ∨ ∃ rest ∈ chainsOf loads, chain = canonical :: rest := by
    intro chain
    simp [chainsOf,Load.chains,eq_comm]
  constructor
  · rintro ⟨chain,within⟩
    refine ⟨(chain [canonical] ((chains _).mpr (.inl rfl))).2.2 canonical (by simp),?_,same.mp within⟩
    intro rest member
    obtain ⟨short,distinct,outside⟩ := chain (canonical :: rest) ((chains _).mpr (.inr ⟨rest,member,rfl⟩))
    rw [List.nodup_cons] at distinct
    rw [List.length_cons] at short
    refine ⟨by omega,distinct.2,?_⟩
    intro other inside
    simp only [Loader.inside,List.mem_cons,not_or]
    refine ⟨?_,outside other (List.mem_cons_of_mem _ inside)⟩
    rintro rfl
    exact distinct.1 inside
  · rintro ⟨fresh,chain,within⟩
    refine ⟨?_,same.mpr within⟩
    intro whole member
    obtain rfl | ⟨rest,inner,rfl⟩ := (chains whole).mp member
    · simpa using fresh
    · obtain ⟨short,distinct,outside⟩ := chain rest inner
      refine ⟨by rw [List.length_cons]; omega,?_,?_⟩
      · rw [List.nodup_cons]
        exact ⟨fun inside => outside canonical inside (by simp [Loader.inside]),distinct⟩
      · intro other inside
        obtain rfl | inside := List.mem_cons.mp inside
        · exact fresh
        · exact fun stacked => outside other inside (List.mem_cons_of_mem _ stacked)

theorem loadFile_faithful (fs : FileSystem) (levels : Nat) : Faithful fs levels (loadFile fs levels) := by
  induction levels with
  | zero =>
    intro path loader directives next within
    constructor
    · intro ok
      cases ok
    · rintro ⟨⟨canonical,source,inner⟩,_,bounded,_⟩
      have short := (bounded.chain [canonical] (by simp [chainsOf,Load.chains])).1
      simp at short
  | succ levels ih =>
    intro path loader directives next within
    have bound : maxConfigBytes < usizeMax := by decide
    have lines : ∀ source : List UInt8, loader.totalBytes + source.length ≤ maxConfigBytes →
        min (loader.totalBytes + source.length) usizeMax = loader.totalBytes + source.length := by
      intro source small
      omega
    unfold loadFile
    rw [Fallible.bind_iff]
    constructor
    · rintro ⟨canonical,found,ok⟩
      obtain ⟨fresh,ok⟩ := Fallible.unless_iff.mp ok
      obtain ⟨few,ok⟩ := Fallible.unless_iff.mp ok
      obtain ⟨source,read,ok⟩ := Fallible.bind_iff.mp ok
      obtain ⟨small,ok⟩ := Fallible.unless_iff.mp ok
      obtain ⟨tokens,tokenized,ok⟩ := Fallible.bind_iff.mp ok
      obtain ⟨tree,parsed,ok⟩ := Fallible.bind_iff.mp ok
      obtain ⟨⟨expanded,last⟩,expands,ok⟩ := Fallible.bind_iff.mp ok
      rw [lines source (by omega)] at expands
      have inside : (loader.inside canonical source).Within :=
        ⟨by simp only [Loader.inside]; omega,by simp only [Loader.inside]; omega⟩
      obtain ⟨loads,splices,bounded,rfl⟩ := (expandDirectives_iff ih inside).mp expands
      cases ok
      refine ⟨.file canonical source loads,.file (ioFailure_iff.mp found) (ioFailure_iff.mp read) tokenized parsed splices,?_,?_⟩
      · exact bounded_file.mpr ⟨by simpa using fresh,bounded⟩
      · rw [after_file]
        rfl
    · rintro ⟨load,made,bounded,rfl⟩
      cases made with
      | @file _ canonical source tokens tree loads result found read tokenized parsed splices =>
        obtain ⟨fresh,bounded⟩ := bounded_file.mp bounded
        have small : loader.totalBytes + source.length ≤ maxConfigBytes :=
          (Nat.le_add_right _ _).trans bounded.within.bytes
        have few : loader.files + 1 ≤ maxIncludedFiles := (Nat.le_add_right _ _).trans bounded.within.files
        have inside : (loader.inside canonical source).Within := ⟨few,small⟩
        refine ⟨canonical,ioFailure_iff.mpr found,Fallible.unless_iff.mpr ⟨by simpa using fresh,?_⟩⟩
        refine Fallible.unless_iff.mpr ⟨by omega,Fallible.bind_iff.mpr ⟨source,ioFailure_iff.mpr read,?_⟩⟩
        rw [lines source small]
        refine Fallible.unless_iff.mpr ⟨by omega,Fallible.bind_iff.mpr ⟨tokens,tokenized,?_⟩⟩
        have expands := (expandDirectives_iff ih inside).mpr ⟨loads,splices,bounded,rfl⟩
        refine Fallible.bind_iff.mpr ⟨tree,parsed,Fallible.bind_iff.mpr ⟨(directives,_),expands,?_⟩⟩
        rw [after_file]
        rfl

/-- No directive at any depth is an include. -/
inductive IncludeFree : List Directive → Prop
  | nil : IncludeFree []
  | cons {name : List UInt8} {args : List (List UInt8)} {children rest : List Directive} {path : List UInt8} {line : Nat}
      (other : name ≠ ascii "include") (inside : IncludeFree children) (later : IncludeFree rest) :
      IncludeFree (⟨name,args,children,path,line⟩ :: rest)

theorem IncludeFree.append {first second : List Directive} (free : IncludeFree first) (rest : IncludeFree second) :
    IncludeFree (first ++ second) := by
  induction free with
  | nil => exact rest
  | cons other inside _ _ ih => exact .cons other inside ih

variable {fs : FileSystem} {prefixPath : List UInt8}

mutual

theorem Loads.free {path : List UInt8} {load : Load} {result : List Directive} :
    Loads fs prefixPath path load result → IncludeFree result
  | .file _ _ _ _ splices => splices.free

theorem LoadsEach.free {paths : List (List UInt8)} {loads : List Load} {result : List Directive} :
    LoadsEach fs prefixPath paths loads result → IncludeFree result
  | .nil => .nil
  | .cons first later => first.free.append later.free

theorem Splices.free {tree : List Directive} {loads : List Load} {result : List Directive} :
    Splices fs prefixPath tree loads result → IncludeFree result
  | .nil => .nil
  | .keep other inside later => .cons other inside.free later.free
  | .splice _ made later => made.free.append later.free

end

end Files

/-- A load succeeds exactly with the spliced tree of a file whose loads keep to the bounds and never meet a file inside
itself, and what it returns has no include left. -/
theorem includes_spliced (fs : FileSystem) (path : List UInt8) (directives : List Directive) :
    (load fs path = .ok directives ↔ ∃ canonical root, fs.canonicalize path = .ok canonical ∧
      Loads fs ((parent canonical).getD (ascii ".")) canonical root directives ∧
      (∀ chain ∈ root.chains, chain.Nodup ∧ chain.length ≤ maxIncludeDepth + 1) ∧
      root.sources.length ≤ maxIncludedFiles ∧ bytesRead root.sources ≤ maxConfigBytes) ∧
      (load fs path = .ok directives → IncludeFree directives) := by
  have spliced : load fs path = .ok directives ↔ ∃ canonical root, fs.canonicalize path = .ok canonical ∧
      Loads fs ((parent canonical).getD (ascii ".")) canonical root directives ∧
      (∀ chain ∈ root.chains, chain.Nodup ∧ chain.length ≤ maxIncludeDepth + 1) ∧
      root.sources.length ≤ maxIncludedFiles ∧ bytesRead root.sources ≤ maxConfigBytes := by
    have faithful := loadFile_faithful fs (maxIncludeDepth + 1)
    have fresh : ∀ canonical, (Loader.mk ((parent canonical).getD (ascii ".")) [] 0 0).Within :=
      fun canonical => ⟨Nat.zero_le _,Nat.zero_le _⟩
    rw [load,Fallible.bind_iff]
    constructor
    · rintro ⟨canonical,found,ok⟩
      obtain ⟨⟨result,last⟩,loaded,ok⟩ := Fallible.bind_iff.mp ok
      cases ok
      obtain ⟨root,loads,bounded,rfl⟩ := (faithful _ _ _ _ (fresh canonical)).mp loaded
      refine ⟨canonical,root,ioFailure_iff.mp found,loads,?_,?_,?_⟩
      · intro chain member
        obtain ⟨short,distinct,_⟩ := bounded.chain chain (by simpa [chainsOf] using member)
        exact ⟨distinct,short⟩
      · simpa [Loader.after,sourcesOf] using bounded.within.files
      · simpa [Loader.after,sourcesOf] using bounded.within.bytes
    · rintro ⟨canonical,root,found,loads,chains,files,bytes⟩
      have bounded : Bounded (maxIncludeDepth + 1) ⟨(parent canonical).getD (ascii "."),[],0,0⟩ [root] := by
        refine ⟨?_,?_,?_⟩
        · intro chain member
          obtain ⟨distinct,short⟩ := chains chain (by simpa [chainsOf] using member)
          exact ⟨short,distinct,by simp⟩
        · simpa [Loader.after,sourcesOf] using files
        · simpa [Loader.after,sourcesOf] using bytes
      have loaded := (faithful _ _ _ _ (fresh canonical)).mpr ⟨root,loads,bounded,rfl⟩
      exact ⟨canonical,ioFailure_iff.mpr found,Fallible.bind_iff.mpr ⟨_,loaded,rfl⟩⟩
  refine ⟨spliced,?_⟩
  intro ok
  obtain ⟨_,_,_,loads,_⟩ := spliced.mp ok
  exact loads.free

/-- Two files, where the first includes the second twice, once inside a block. -/
def twiceIncluded : FileSystem where
  canonicalize path := .ok path
  readToString path := if path = ascii "/n/a" then .ok (ascii "include b;d{include b;}") else .ok (ascii "c;")
  readDir _ := .error []

def twiceStatements : List Statement :=
  [.simple ⟨ascii "include",1⟩ [⟨ascii "b",1⟩] 1,
    .block ⟨ascii "d",1⟩ [] 1 [.simple ⟨ascii "include",1⟩ [⟨ascii "b",1⟩] 1] 1]

theorem twiceIncluded_tokens : tokenize (ascii "/n/a") (ascii "include b;d{include b;}") = .ok (printedAll twiceStatements) ∧
    tokenize (ascii "/n/b") (ascii "c;") = .ok (printedAll [.simple ⟨ascii "c",1⟩ [] 1]) := by
  decide +kernel

/-- The directives of the included file stand in the place of both includes. -/
theorem includes_spliced_twice :
    load twiceIncluded (ascii "/n/a") = .ok [⟨ascii "c",[],[],ascii "/n/b",1⟩,
      ⟨ascii "d",[],[⟨ascii "c",[],[],ascii "/n/b",1⟩],ascii "/n/a",1⟩] ∧
    IncludeFree [⟨ascii "c",[],[],ascii "/n/b",1⟩,⟨ascii "d",[],[⟨ascii "c",[],[],ascii "/n/b",1⟩],ascii "/n/a",1⟩] := by
  have plain : Splices twiceIncluded ((parent (ascii "/n/a")).getD (ascii ".")) [⟨ascii "c",[],[],ascii "/n/b",1⟩] []
      [⟨ascii "c",[],[],ascii "/n/b",1⟩] := .keep (by decide) .nil .nil
  have inner : Loads twiceIncluded ((parent (ascii "/n/a")).getD (ascii ".")) (ascii "/n/b") (.file (ascii "/n/b") (ascii "c;") [])
      [⟨ascii "c",[],[],ascii "/n/b",1⟩] :=
    .file rfl rfl twiceIncluded_tokens.2 (parseDirectives_printed (ascii "/n/b") _) plain
  have both : LoadsEach twiceIncluded ((parent (ascii "/n/a")).getD (ascii ".")) [ascii "/n/b"]
      [.file (ascii "/n/b") (ascii "c;") []] [⟨ascii "c",[],[],ascii "/n/b",1⟩] := .cons inner .nil
  have matched : Matched twiceIncluded (joinPath ((parent (ascii "/n/a")).getD (ascii ".")) (ascii "b")) [ascii "/n/b"] := by
    have joined : joinPath ((parent (ascii "/n/a")).getD (ascii ".")) (ascii "b") = ascii "/n/b" := by decide +kernel
    rw [joined]
    exact .plain (by decide +kernel)
  have spliced : Splices twiceIncluded ((parent (ascii "/n/a")).getD (ascii ".")) (directivesOf (ascii "/n/a") twiceStatements)
      [.file (ascii "/n/b") (ascii "c;") [],.file (ascii "/n/b") (ascii "c;") []]
      [⟨ascii "c",[],[],ascii "/n/b",1⟩,⟨ascii "d",[],[⟨ascii "c",[],[],ascii "/n/b",1⟩],ascii "/n/a",1⟩] :=
    .splice matched both (.keep (by decide) (.splice matched both .nil) .nil)
  have made : Loads twiceIncluded ((parent (ascii "/n/a")).getD (ascii ".")) (ascii "/n/a") _ _ :=
    .file rfl rfl twiceIncluded_tokens.1 (parseDirectives_printed (ascii "/n/a") twiceStatements) spliced
  have ok := (includes_spliced twiceIncluded (ascii "/n/a") _).1.mpr ⟨ascii "/n/a",_,rfl,made,by decide,by decide,by decide⟩
  exact ⟨ok,(includes_spliced twiceIncluded (ascii "/n/a") _).2 ok⟩

/-- Two files, where the first includes the second and gives the include a block. -/
def blockInclude : FileSystem where
  canonicalize path := .ok path
  readToString path := if path = ascii "/n/a" then .ok (ascii "include b{c;}") else .ok []
  readDir _ := .error []

def blockStatements : List Statement :=
  [.block ⟨ascii "include",1⟩ [⟨ascii "b",1⟩] 1 [.simple ⟨ascii "c",1⟩ [] 1] 1]

theorem blockInclude_tokens : tokenize (ascii "/n/a") (ascii "include b{c;}") = .ok (printedAll blockStatements) := by
  decide +kernel

/-- The one include has one argument and names a readable file of no directives, and nothing is loaded. -/
theorem includes_spliced_block :
    (tokenize (ascii "/n/a") (ascii "include b{c;}") >>= parseDirectives (ascii "/n/a")) = .ok [⟨ascii "include",[ascii "b"],
        [⟨ascii "c",[],[],ascii "/n/a",1⟩],ascii "/n/a",1⟩] ∧
      expandInclude blockInclude (joinPath (ascii "/n") (ascii "b")) = .ok [ascii "/n/b"] ∧
      (blockInclude.readToString (ascii "/n/b")).toOption = some [] ∧
      ∀ directives, load blockInclude (ascii "/n/a") ≠ .ok directives := by
  have parsed := parseDirectives_printed (ascii "/n/a") blockStatements
  refine ⟨?_,by decide +kernel,by decide +kernel,?_⟩
  · rw [blockInclude_tokens]
    exact parsed
  · intro directives ok
    obtain ⟨canonical,found,ok⟩ := Fallible.bind_iff.mp ok
    cases found
    obtain ⟨⟨result,last⟩,loaded,ok⟩ := Fallible.bind_iff.mp ok
    have fresh : (Loader.mk ((parent (ascii "/n/a")).getD (ascii ".")) [] 0 0).Within := ⟨Nat.zero_le _,Nat.zero_le _⟩
    obtain ⟨root,loads,_,_⟩ := (loadFile_faithful blockInclude (maxIncludeDepth + 1) _ _ _ _ fresh).mp loaded
    cases loads with
    | file found read tokenized read' splices =>
      cases found
      cases read
      rw [blockInclude_tokens] at tokenized
      cases tokenized
      rw [parsed] at read'
      cases read'
      cases splices with
      | keep other _ _ => exact other rfl

end Polyguard.Nginx

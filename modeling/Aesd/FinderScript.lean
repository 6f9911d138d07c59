import Mathlib.Data.List.Basic

/-! finder.sh on a directory of regular files and directories. Its first count comes from a
    glob, with globstar and dotglob off, and its second one from grep -R. -/
namespace FinderScript

abbrev Text := List Char

/-- A directory's first entry, what lies inside of it, and the entries after it. -/
inductive Listing where
  | done
  | file (name : Text) (lines : List Text) (rest : Listing)
  | directory (name : Text) (inside rest : Listing)
  deriving DecidableEq, Repr

def Listing.names : Listing → List Text
  | .done => []
  | .file name _ rest => name :: rest.names
  | .directory name _ rest => name :: rest.names

def Listing.regularFiles : Listing → Nat
  | .done => 0
  | .file _ _ rest => rest.regularFiles + 1
  | .directory _ inside rest => inside.regularFiles + rest.regularFiles

def Listing.matchingLines (matching : Text → Text → Bool) (searchstr : Text) : Listing → Nat
  | .done => 0
  | .file _ lines rest =>
      (lines.filter (matching searchstr)).length + rest.matchingLines matching searchstr
  | .directory _ inside rest =>
      inside.matchingLines matching searchstr + rest.matchingLines matching searchstr

def hidden (name : Text) : Bool := name.head? = some '.'

/-- What stands for the name in the words of the glob: a pattern without a match is left
    as it is. -/
def Listing.globWords (tree : Listing) : List Text :=
  let visible := tree.names.filter fun name => !hidden name
  if visible = [] then [['*', '*']] else visible

/-- The loop over these words. A failing test on the left of && does not end the script. -/
def countFiles (tree : Listing) (words : List Text) : Nat :=
  words.foldl (fun numFiles f => if f ∈ tree.names then numFiles + 1 else numFiles) 0

/-- grep, as the number of lines that it prints and its exit status. -/
structure GrepRun where
  printed : Nat
  status : Nat
  deriving DecidableEq, Repr

inductive Output where
  | usage
  | summary (numFiles numLineMatches : Nat)
  deriving DecidableEq, Repr

/-- wc names its operand, so a hyphen follows the second number. -/
def Output.text : Output → String
  | .usage => "Usage: finder.sh <filesdir> <searchstr>\n    filesdir: The directory to search in\n    searchstr: The string to find matches on\n\n"
  | .summary numFiles numLineMatches =>
      s!"The number of files are {numFiles} and the number of matching lines are {numLineMatches} -\n"

structure ScriptRun where
  status : Nat
  output : Option Output
  deriving DecidableEq, Repr

def pipefail (first last : Nat) : Nat := if last ≠ 0 then last else first

def printUsage : ScriptRun := ⟨1, some .usage⟩

def finder (lookup : Text → Option Listing) (grep : Text → Text → GrepRun) (args : List Text) :
    ScriptRun :=
  match args with
  | [filesdir, searchstr] =>
      -- the two tests for emptiness look at the words filesdir and searchstr themselves
      if "filesdir" = "" then printUsage
      else match lookup filesdir with
        | none => printUsage
        | some tree =>
            if "searchstr" = "" then printUsage
            else
              let numFiles := countFiles tree tree.globWords
              let lineMatches := grep searchstr filesdir
              let status := pipefail lineMatches.status 0
              -- errexit: the assignment has the status of the pipeline
              if status ≠ 0 then ⟨status, none⟩
              else ⟨0, some (.summary numFiles lineMatches.printed)⟩
  | _ => printUsage

/-- grep takes an argument that begins with a hyphen for an option, except for a hyphen alone. -/
def isOption (argument : Text) : Bool := argument.head? = some '-' && argument ≠ ['-']

def newlines (name : Text) : Nat := name.count '\n'

/-- What grep does with the lines of one file: which match, and of how many matching ones it
    keeps back because it takes the file for binary. -/
structure Searching where
  matching : Text → Text → Bool
  withheld : Text → List Text → Nat

def Searching.found (search : Searching) (searchstr : Text) (lines : List Text) : Nat :=
  (lines.filter (search.matching searchstr)).length

/-- The lines that grep -R prints. Each begins with the path of its file, so that a newline
    in a name of the path makes two of one. -/
def Listing.printedLines (search : Searching) (searchstr : Text) (above : Nat) : Listing → Nat
  | .done => 0
  | .file name lines rest =>
      (search.found searchstr lines - search.withheld searchstr lines) * (above + newlines name + 1) +
        rest.printedLines search searchstr above
  | .directory name inside rest =>
      inside.printedLines search searchstr (above + newlines name) +
        rest.printedLines search searchstr above

/-- What is assumed of grep -R where neither argument is an option: it visits every regular
    file, and only fails if no line matches. -/
structure GrepSearches (search : Searching) (searchstr filesdir : Text) (tree : Listing)
    (run : GrepRun) : Prop where
  within : ∀ lines, search.withheld searchstr lines ≤ search.found searchstr lines
  printed : run.printed = tree.printedLines search searchstr (newlines filesdir)
  status : run.status = 0 ↔ 0 < tree.matchingLines search.matching searchstr

def Listing.missedFiles : Listing → Nat
  | .done => 0
  | .file name _ rest => rest.missedFiles + if hidden name then 1 else 0
  | .directory _ inside rest => inside.regularFiles + rest.missedFiles

def Listing.countedDirectories : Listing → Nat
  | .done => 0
  | .file _ _ rest => rest.countedDirectories
  | .directory name _ rest => rest.countedDirectories + if hidden name then 0 else 1

def Listing.withheldLines (search : Searching) (searchstr : Text) : Listing → Nat
  | .done => 0
  | .file _ lines rest => search.withheld searchstr lines + rest.withheldLines search searchstr
  | .directory _ inside rest =>
      inside.withheldLines search searchstr + rest.withheldLines search searchstr

def Listing.addedLines (search : Searching) (searchstr : Text) (above : Nat) : Listing → Nat
  | .done => 0
  | .file name lines rest =>
      (search.found searchstr lines - search.withheld searchstr lines) * (above + newlines name) +
        rest.addedLines search searchstr above
  | .directory name inside rest =>
      inside.addedLines search searchstr (above + newlines name) +
        rest.addedLines search searchstr above

structure CountsAgree (search : Searching) (searchstr filesdir : Text) (tree : Listing) :
    Prop where
  files : tree.countedDirectories = tree.missedFiles
  lines : 0 < tree.matchingLines search.matching searchstr
  output : tree.withheldLines search searchstr =
    tree.addedLines search searchstr (newlines filesdir)

theorem countFiles_from (tree : Listing) (words : List Text) (start : Nat) :
    words.foldl (fun numFiles f => if f ∈ tree.names then numFiles + 1 else numFiles) start =
      start + (words.filter (· ∈ tree.names)).length := by
  induction words generalizing start with
  | nil => rfl
  | cons word later ih =>
    rw [List.foldl_cons, ih]
    by_cases member : word ∈ tree.names
    · rw [if_pos member, List.filter_cons_of_pos (by simpa using member), List.length_cons]
      omega
    · rw [if_neg member, List.filter_cons_of_neg (by simpa using member)]

/-- The pattern itself is no name where nothing matches it. -/
theorem countFiles_glob (tree : Listing) :
    countFiles tree tree.globWords = (tree.names.filter fun name => !hidden name).length := by
  unfold countFiles Listing.globWords
  rw [countFiles_from, Nat.zero_add]
  by_cases empty : (tree.names.filter fun name => !hidden name) = []
  · have absent : ['*', '*'] ∉ tree.names := by
      intro member
      have visible : ['*', '*'] ∈ tree.names.filter fun name => !hidden name :=
        List.mem_filter.mpr ⟨member, by decide⟩
      rw [empty] at visible
      cases visible
    simp only [empty, ↓reduceIte]
    rw [List.filter_cons_of_neg (by simpa using absent)]
    rfl
  · simp only [empty, ↓reduceIte]
    congr 1
    rw [List.filter_eq_self]
    intro name member
    simpa using (List.mem_filter.mp member).1

theorem visible_balance (tree : Listing) :
    (tree.names.filter fun name => !hidden name).length + tree.missedFiles =
      tree.regularFiles + tree.countedDirectories := by
  induction tree with
  | done => rfl
  | file name lines rest ih =>
    simp only [Listing.names, Listing.missedFiles, Listing.regularFiles,
      Listing.countedDirectories, List.filter_cons]
    cases hidden name with
    | true => simp; omega
    | false => simp; omega
  | directory name inside rest _ ih =>
    simp only [Listing.names, Listing.missedFiles, Listing.regularFiles,
      Listing.countedDirectories, List.filter_cons]
    cases hidden name with
    | true => simp; omega
    | false => simp; omega

theorem finder_eq {lookup : Text → Option Listing} {grep : Text → Text → GrepRun}
    {filesdir searchstr : Text} {tree : Listing} (found : lookup filesdir = some tree) :
    finder lookup grep [filesdir, searchstr] =
      if (grep searchstr filesdir).status ≠ 0 then ⟨(grep searchstr filesdir).status, none⟩
      else ⟨0, some (.summary (tree.names.filter fun name => !hidden name).length
        (grep searchstr filesdir).printed)⟩ := by
  unfold finder
  simp only [found, pipefail, countFiles_glob]
  simp

theorem printed_balance {search : Searching} {searchstr : Text}
    (within : ∀ lines, search.withheld searchstr lines ≤ search.found searchstr lines)
    (tree : Listing) (above : Nat) :
    tree.printedLines search searchstr above + tree.withheldLines search searchstr =
      tree.matchingLines search.matching searchstr + tree.addedLines search searchstr above := by
  induction tree generalizing above with
  | done => rfl
  | file name lines rest ih =>
    have here := within lines
    have later := ih above
    simp only [Listing.printedLines, Listing.withheldLines, Listing.matchingLines,
      Listing.addedLines, Nat.mul_add, Nat.mul_one] at later ⊢
    unfold Searching.found at here ⊢
    omega
  | directory name inside rest ihInside ihRest =>
    have below := ihInside (above + newlines name)
    have later := ihRest above
    simp only [Listing.printedLines, Listing.withheldLines, Listing.matchingLines,
      Listing.addedLines]
    omega

theorem counts_of_searches {search : Searching} {lookup : Text → Option Listing}
    {grep : Text → Text → GrepRun} {filesdir searchstr : Text} {tree : Listing}
    (found : lookup filesdir = some tree)
    (searches : GrepSearches search searchstr filesdir tree (grep searchstr filesdir)) :
    finder lookup grep [filesdir, searchstr] =
        ⟨0, some (.summary tree.regularFiles (tree.matchingLines search.matching searchstr))⟩ ↔
      CountsAgree search searchstr filesdir tree := by
  have balance := visible_balance tree
  have output := printed_balance searches.within tree (newlines filesdir)
  have exits := searches.status
  rw [finder_eq found, searches.printed]
  by_cases matches_any : 0 < tree.matchingLines search.matching searchstr
  · rw [if_neg (by simpa using exits.mpr matches_any)]
    constructor
    · intro same
      simp only [ScriptRun.mk.injEq, Option.some.injEq, Output.summary.injEq, true_and] at same
      exact ⟨by omega, matches_any, by omega⟩
    · rintro ⟨files, _, balanced⟩
      have counted : (tree.names.filter fun name => !hidden name).length = tree.regularFiles := by
        omega
      have printed : tree.printedLines search searchstr (newlines filesdir) =
          tree.matchingLines search.matching searchstr := by omega
      rw [counted, printed]
  · rw [if_pos (fun zero => matches_any (exits.mp zero))]
    constructor
    · intro same
      simp at same
    · exact fun agree => absurd agree.lines matches_any

def ReadsOperands (searchstr filesdir : Text) : Prop :=
  isOption searchstr = false ∧ filesdir.head? ≠ some '-'

instance (searchstr filesdir : Text) : Decidable (ReadsOperands searchstr filesdir) :=
  inferInstanceAs (Decidable (_ ∧ _))

/-- An argument that grep takes for an option makes it search for something else, and only
    then can the counts be right by accident. -/
theorem finder_counts_iff {search : Searching} {lookup : Text → Option Listing}
    {grep : Text → Text → GrepRun} {filesdir searchstr : Text} {tree : Listing}
    (found : lookup filesdir = some tree)
    (searches : ReadsOperands searchstr filesdir →
      GrepSearches search searchstr filesdir tree (grep searchstr filesdir)) :
    (ReadsOperands searchstr filesdir ∧ CountsAgree search searchstr filesdir tree →
      finder lookup grep [filesdir, searchstr] =
        ⟨0, some (.summary tree.regularFiles (tree.matchingLines search.matching searchstr))⟩) ∧
    (finder lookup grep [filesdir, searchstr] =
        ⟨0, some (.summary tree.regularFiles (tree.matchingLines search.matching searchstr))⟩ →
      ReadsOperands searchstr filesdir → CountsAgree search searchstr filesdir tree) := by
  constructor
  · rintro ⟨operands, agree⟩
    exact (counts_of_searches found (searches operands)).mpr agree
  · intro counted operands
    exact (counts_of_searches found (searches operands)).mp counted

def wholeLines : Searching := ⟨fun searchstr line => searchstr = line, fun _ _ => 0⟩

def grepTree (tree : Listing) (searchstr filesdir : Text) : GrepRun :=
  ⟨tree.printedLines wholeLines searchstr (newlines filesdir),
    if tree.matchingLines wholeLines.matching searchstr = 0 then 1 else 0⟩

theorem grepTree_searches (tree : Listing) (searchstr filesdir : Text) :
    GrepSearches wholeLines searchstr filesdir tree (grepTree tree searchstr filesdir) where
  within _ := Nat.zero_le _
  printed := rfl
  status := by
    simp only [grepTree]
    split <;> omega

def flatDirectory : Listing :=
  .file ['a'] [['x'], ['y']] (.file ['b'] [['x']] .done)

theorem flat_directory_counted :
    finder (fun _ => some flatDirectory) (grepTree flatDirectory) [['d'], ['x']] =
      ⟨0, some (.summary 2 2)⟩ :=
  (finder_counts_iff rfl fun _ => grepTree_searches flatDirectory ['x'] ['d']).1
    ⟨by decide, by decide, by decide, by decide⟩

def nestedDirectory : Listing := .directory ['s'] flatDirectory .done

theorem nested_files_not_counted :
    GrepSearches wholeLines ['x'] ['d'] nestedDirectory (grepTree nestedDirectory ['x'] ['d']) ∧
      finder (fun _ => some nestedDirectory) (grepTree nestedDirectory) [['d'], ['x']] ≠
        ⟨0, some (.summary nestedDirectory.regularFiles
          (nestedDirectory.matchingLines wholeLines.matching ['x']))⟩ := by
  constructor
  · exact grepTree_searches _ _ _
  · decide

end FinderScript

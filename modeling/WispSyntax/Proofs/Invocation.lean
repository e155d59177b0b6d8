import Mathlib.Data.List.Nodup
import WispSyntax.Proofs.Transport

/-!
Runs of the command line. What a run prints and how it exits follow from the text of its file and
from whether the whole tree is asked for, by what the parser makes of the text (`run_of_requests`).
-/

namespace WispSyntax

namespace Parser

-- A program is the same, or has the same fault, in a file as it is in memory.
theorem sameResult_ofReads {text : String} {reads : List Read}
    (h : Read.Yields text.toUTF8.data.toList reads) :
    SameResult (parse text) (Feed.ofReads reads).withoutComments.parse.1 := by
  have ⟨kept, kept_eq, kept_eq'⟩ := Feed.filtered_withoutReturns (Feed.ofText text).lines 1
  have inMemory : parse text = (Feed.parse { lines := kept }).1 := by
    rw [← kept_eq]
    rfl
  have inFile : (Feed.ofReads reads).withoutComments.parse.1 =
      (Feed.parse { lines := kept.map SourceLine.withoutReturns }).1 := by
    rw [← kept_eq', ← Read.ofReads_of_yields h]
    rfl
  rw [inMemory, inFile]
  exact sameResult_readFrom {} rfl kept

end Parser

namespace CommandLine

-- The words for flags that a run without a viewer can be given.
def flagWords : List (String × Flag) :=
  [("--tree", .tree), ("-v", .verbose), ("--no-color", .noColor)]

def flag? (word : String) : Option Flag :=
  (flagWords.find? (·.1 = word)).map (·.2)

-- The arguments ask for a file, with any of the flags, each at most once, in any order. The default
-- file need not be named.
structure Requests (file : String) (args : List String) : Prop where
  undashed : file.toList.head? ≠ some '-'
  words    : ∀ arg ∈ args, arg = file ∨ arg ∈ flagWords.map (·.1)
  once     : args.Nodup
  named    : file ∈ args ∨ file = defaultFile

section
variable {file word : String} {args : List String} {a : Arguments}

theorem mem_flagWords {flag : Flag} (h : flag? word = some flag) : (word, flag) ∈ flagWords := by
  obtain ⟨⟨_, _⟩, found, rfl⟩ := Option.map_eq_some_iff.mp h
  obtain rfl : _ = word := by simpa using List.find?_some found
  exact List.mem_of_find?_eq_some found

theorem flag?_eq_none (undashed : file.toList.head? ≠ some '-') : flag? file = none := by
  by_contra h
  obtain ⟨flag, h⟩ := Option.ne_none_iff_exists'.mp h
  have dashed : ∀ p ∈ flagWords, p.1.toList.head? = some '-' := by decide
  exact undashed (dashed _ (mem_flagWords h))

theorem exists_flag? (h : word ∈ flagWords.map (·.1)) : ∃ flag, flag? word = some flag := by
  have all : ∀ p ∈ flagWords, flag? p.1 = some p.2 := by decide
  obtain ⟨p, hp, rfl⟩ := List.mem_map.mp h
  exact ⟨p.2, all p hp⟩

theorem flag?_injective {word' : String} {flag : Flag} (h : flag? word = some flag)
    (h' : flag? word' = some flag) : word = word' := by
  have distinct : ∀ p ∈ flagWords, ∀ q ∈ flagWords, p.2 = q.2 → p.1 = q.1 := by decide
  exact distinct _ (mem_flagWords h) _ (mem_flagWords h') rfl

namespace Arguments

theorem readAll_flag {flag : Flag} (h : flag? word = some flag) (new : flag ∉ a.flags)
    (rest : List String) :
    readAll a false (word :: rest) = readAll { a with flags := a.flags ++ [flag] } false rest := by
  have given : a.giveFlag flag = .ok { a with flags := a.flags ++ [flag] } := if_neg new
  have mem := mem_flagWords h
  simp only [flagWords, List.mem_cons, List.not_mem_nil, or_false, Prod.mk.injEq] at mem
  rcases mem with ⟨rfl, rfl⟩ | ⟨rfl, rfl⟩ | ⟨rfl, rfl⟩
  case inr.inl =>
    change (a.giveFlag .verbose >>= fun b => readShort b []) >>= (readAll · false rest) = _
    rw [given]
    rfl
  all_goals
    change a.giveFlag _ >>= (readAll · false rest) = _
    rw [given]
    rfl

theorem readAll_file (undashed : file.toList.head? ≠ some '-') (none : a.file = none)
    (rest : List String) :
    readAll a false (file :: rest) = readAll { a with file := some file } false rest := by
  have given : a.giveFile file = .ok { a with file := some file } := by
    rw [giveFile, none]
  rw [readAll, if_neg Bool.false_ne_true]
  split
  case h_4 =>
    rw [given]
    rfl
  all_goals simp_all

theorem readAll_of_words (undashed : file.toList.head? ≠ some '-')
    (words : ∀ arg ∈ args, arg = file ∨ arg ∈ flagWords.map (·.1)) (once : args.Nodup)
    (new : ∀ flag ∈ args.filterMap flag?, flag ∉ a.flags) (unnamed : file ∈ args → a.file = none) :
    readAll a false args = .ok
      { flags := a.flags ++ args.filterMap flag?
        file  := if file ∈ args then some file else a.file } := by
  induction args generalizing a
  case nil => simp [readAll]
  case cons arg args hi =>
    obtain ⟨known, words⟩ := List.forall_mem_cons.mp words
    obtain ⟨fresh, once⟩ := List.nodup_cons.mp once
    rcases known with rfl | known
    case inl =>
      have noFlag := flag?_eq_none undashed
      rw [List.filterMap_cons_none noFlag] at new ⊢
      have rest := @hi { a with file := some arg } words once new (absurd · fresh)
      rw [readAll_file undashed (unnamed (.head _)), rest]
      simp [fresh]
    case inr =>
      obtain ⟨flag, isFlag⟩ := exists_flag? known
      have ne : file ≠ arg := by
        rintro rfl
        simp [flag?_eq_none undashed] at isFlag
      rw [List.filterMap_cons_some isFlag] at new ⊢
      obtain ⟨newFlag, new⟩ := List.forall_mem_cons.mp new
      have later : ∀ other ∈ args.filterMap flag?, other ∉ a.flags ++ [flag] := by
        intro other mem
        obtain ⟨word, hw, isOther⟩ := List.mem_filterMap.mp mem
        have differs : other ≠ flag := by
          rintro rfl
          exact fresh (flag?_injective isOther isFlag ▸ hw)
        simp [differs, new other mem]
      have rest := @hi { a with flags := a.flags ++ [flag] } words once later
        fun h => unnamed (.tail _ h)
      rw [readAll_flag isFlag newFlag, rest]
      simp [ne]

-- Only the flag for the viewer gets in the way of another one.
theorem check_eq_ok (nodup : a.flags.Nodup) (noViewer : .tui ∉ a.flags) : a.check = .ok a := by
  unfold check
  split
  case h_1 flag other rest ways =>
    have isTree : ∀ f ∈ flag :: other :: rest, f = .tree := by
      intro f hf
      obtain ⟨mem, way⟩ := List.mem_filter.mp (ways ▸ hf)
      have ne : f ≠ .tui := fun isTui => noViewer (isTui ▸ mem)
      simpa [ne] using way
    have distinct := nodup.filter fun f => f = .tree || f = .tui
    rw [ways, isTree flag (by simp), isTree other (by simp)] at distinct
    simp at distinct
  case h_2 => rfl

theorem read_of_requests (h : Requests file args) :
    ∃ a, read args = .ok a ∧ a.path = file ∧ a.has .tree = decide ("--tree" ∈ args) ∧
      a.has .tui = false := by
  have all := @readAll_of_words file args {} h.undashed h.words h.once
    (fun _ _ => List.not_mem_nil) fun _ => rfl
  rw [List.nil_append] at all
  have noViewer : .tui ∉ args.filterMap flag? := by
    intro mem
    obtain ⟨word, _, isFlag⟩ := List.mem_filterMap.mp mem
    have others : ∀ p ∈ flagWords, p.2 ≠ .tui := by decide
    exact others _ (mem_flagWords isFlag) rfl
  have tree : .tree ∈ args.filterMap flag? ↔ "--tree" ∈ args := by
    have isFlag : flag? "--tree" = some .tree := by decide
    refine ⟨fun mem => ?_, fun mem => List.mem_filterMap.mpr ⟨_, mem, isFlag⟩⟩
    obtain ⟨word, hw, isTree⟩ := List.mem_filterMap.mp mem
    rwa [flag?_injective isFlag isTree]
  have nodup : (args.filterMap flag?).Nodup :=
    .filterMap (fun _ _ _ isFlag isFlag' => flag?_injective isFlag isFlag') h.once
  have found : read args = _ := (congrArg (· >>= check) all).trans (check_eq_ok nodup noViewer)
  refine ⟨_, found, ?path, ?tree, ?viewer⟩
  case path =>
    rw [path]
    split
    case isTrue          => rfl
    case isFalse unnamed => exact (h.named.resolve_left unnamed).symm
  case tree   => simpa [has] using tree
  case viewer => simpa [has] using noViewer

end Arguments

-- The exit code and the output of a run on a text.
def printed (whole : Bool) (text : String) : Nat × String :=
  match parse text with
  | .ok root       => (0, if whole then root.outlineText else unlines root.summary)
  | .error failure => (failure.diagnostic.faultClass.exitCode, "")

theorem run_eq_printed {files : Files} {text : String} {reads : List Read}
    (asked : Requests file args) (opened : files file = .ok reads)
    (content : Read.Yields text.toUTF8.data.toList reads) (coloured : Bool) :
    ((run coloured files args).exitCode, (run coloured files args).out) =
      printed ("--tree" ∈ args) text := by
  obtain ⟨a, read_eq, rfl, tree, noViewer⟩ := Arguments.read_of_requests asked
  have result := Parser.sameResult_ofReads content
  rw [printed, ← tree]
  simp only [run, read_eq, runWith, opened]
  generalize parse text = x, (Feed.ofReads reads).withoutComments.parse.1 = y at result
  cases result
  case ok root =>
    rw [noViewer]
    cases a.has .tree <;> rfl
  case error faultClass _ => simp [fail, Failure.diagnostic, faultClass]

-- A file is run by its name, or without it if it is the default one. What is printed is the tree
-- of the text, or a summary of it, and if the text has none, nothing is; the exit code is that of
-- the fault then. Neither the other flags nor the colours of the terminal have a part in that.
theorem run_of_requests {files : Files} {text : String} {reads : List Read}
    (asked : Requests file args) (opened : files file = .ok reads)
    (content : Read.Yields text.toUTF8.data.toList reads) (coloured : Bool) :
    (∀ root, parse text = .ok root →
      (run coloured files args).exitCode = 0 ∧
      (run coloured files args).out =
        if "--tree" ∈ args then root.outlineText else unlines root.summary) ∧
    (∀ failure, parse text = .error failure →
      (run coloured files args).exitCode = failure.diagnostic.faultClass.exitCode ∧
      (run coloured files args).out = "") ∧
    ∀ coloured' args', Requests file args' → ("--tree" ∈ args' ↔ "--tree" ∈ args) →
      (run coloured' files args').exitCode = (run coloured files args).exitCode ∧
      (run coloured' files args').out = (run coloured files args).out := by
  have eq := run_eq_printed asked opened content coloured
  refine ⟨fun root accepted => ?_, fun failure rejected => ?_,
    fun coloured' args' asked' same => ?_⟩
  · simpa [printed, accepted] using eq
  · simpa [printed, rejected] using eq
  · have eq' := run_eq_printed asked' opened content coloured'
    rw [decide_eq_decide.mpr same, ← eq] at eq'
    exact Prod.mk.inj eq'

theorem run_of_requests_tree :
    let files : Files := fun _ =>
      .ok [.bytes [97, 13, 13], .bytes [10, 195], .bytes [169], .bytes []]
    ∃ root, parse "a\r\r\né" = .ok root ∧
      (run true files ["-v", "demo.wp", "--tree"]).exitCode = 0 ∧
      (run true files ["-v", "demo.wp", "--tree"]).out = root.outlineText ∧
      (run false files ["--tree", "demo.wp"]).out =
        (run true files ["-v", "demo.wp", "--tree"]).out := by
  intro files
  have asked : Requests "demo.wp" ["-v", "demo.wp", "--tree"] :=
    ⟨by decide, by decide, by decide, by decide⟩
  have asked' : Requests "demo.wp" ["--tree", "demo.wp"] :=
    ⟨by decide, by decide, by decide, by decide⟩
  have bytes : "a\r\r\né".toUTF8.data.toList = [97, 13, 13] ++ ([10, 195] ++ ([169] ++ [])) := by
    decide
  have content : Read.Yields "a\r\r\né".toUTF8.data.toList
      [.bytes [97, 13, 13], .bytes [10, 195], .bytes [169], .bytes []] :=
    bytes ▸ .part (by simp) (.part (by simp) (.part (by simp) (.done 1)))
  have opened : files "demo.wp" =
      .ok [.bytes [97, 13, 13], .bytes [10, 195], .bytes [169], .bytes []] := rfl
  have ⟨accepted, _, others⟩ := run_of_requests asked opened content true
  have parsed : parse "a\r\r\né" = .ok
      { kind := .root, children := [.leaf .identifier "a" ⟨1, 1⟩, .leaf .identifier "é" ⟨2, 1⟩]
        location := ⟨1, 1⟩ } := rfl
  have ⟨exitCode, out⟩ := accepted _ parsed
  exact ⟨_, parsed, exitCode, out, (others false _ asked' (by simp)).2⟩

end
end CommandLine
end WispSyntax

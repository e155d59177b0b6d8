import WispSyntax.Proofs.Encoding
import WispSyntax.Proofs.Resumption

/-!
The ways of a text to the parser. A stream of the bytes of a text loses carriage returns that the
text itself keeps, but blanks at the end of a line are not seen, so that both come to the same tree,
or to the same fault on the same line (`parseProgram_streamed`).
-/

namespace WispSyntax

namespace Token

variable {c : Char} {xs ys : List Char}

-- Blanks after a token do not make it longer, unless it is a string that lacks its end.
theorem length_read_respaced (h : Respaced (isQuote c) xs ys) :
    (read c xs).2 = (read c ys).2 ∨
      (read c xs = (openString, xs.length) ∧ read c ys = (openString, ys.length)) := by
  cases quote : isQuote c
  case true =>
    obtain ⟨letter, digit, _⟩ := ordinary_of_isQuote quote
    have read_eq (rest : List Char) : read c rest = readString rest := by
      simp [read, letter, digit, quote]
    rw [quote] at h
    rw [read_eq, read_eq]
    exact (readString_cases h).symm.imp_left fun same => congrArg Prod.snd same.1
  case false =>
    rw [quote] at h
    left
    cases letter : isLetter c
    case true =>
      have word := (h.takeWhile (p := isLetter) fun _ => isPlain_of_isLetter).1
      simp [read, letter, word]
    case false =>
      cases digit : c.isDigit
      case true =>
        have number : Respaced false (c :: xs) (c :: ys) := .char c (by simpa [quote] using h)
        simp [read, letter, digit, readNumber_respaced number]
      case false =>
        have symbol := (readSymbol_next c xs).2
        rw [h.next?_eq, ← (readSymbol_next c ys).2] at symbol
        simpa [read, letter, digit, quote] using symbol

end Token

namespace Lexeme

-- The same token for the parser in the same place. Only a string that lacks its end can reach over
-- more blanks or less.
structure InPlace (l l' : Lexeme) : Prop where
  token : l.token.Alike l'.token
  start : l.start = l'.start
  stop  : l.token ≠ .openString → l.stop = l'.stop

variable {blanks blanks' : List Char}

theorem ofChars_eq_nil (blank : ∀ c ∈ blanks, isBlank c) (place : Location) (skip : Nat) :
    ofChars place skip blanks = [] := by
  obtain ⟨n, eq⟩ := ofChars_dropBlanks (place.right skip) (blanks.drop skip)
  have none : (blanks.drop skip).dropWhile isBlank = [] :=
    List.dropWhile_eq_nil_iff.mpr fun c hc => blank c (List.mem_of_mem_drop hc)
  rw [ofChars_drop, eq, none, ofChars]

theorem inPlace_ofChars (blank : ∀ c ∈ blanks, isBlank c) (blank' : ∀ c ∈ blanks', isBlank c)
    (place : Location) (skip : Nat) (text : List Char) :
    List.Forall₂ InPlace (ofChars place skip (text ++ blanks))
      (ofChars place skip (text ++ blanks')) := by
  induction text generalizing place skip
  case nil =>
    rw [List.nil_append, List.nil_append, ofChars_eq_nil blank, ofChars_eq_nil blank']
    exact .nil
  case cons c text hi =>
    rw [List.cons_append, List.cons_append]
    cases skip
    case succ skip => exact hi ..
    case zero =>
      rw [ofChars, ofChars]
      split
      case isTrue => exact hi ..
      case isFalse =>
        have next := Respaced.append_blanks blank blank' (Token.isQuote c) text
        obtain ⟨alike, _⟩ := Token.read_respaced next
        have length := Token.length_read_respaced next
        generalize Token.read c (text ++ blanks) = r,
          Token.read c (text ++ blanks') = r' at alike length
        obtain ⟨token, more⟩ := r
        obtain ⟨token', more'⟩ := r'
        rcases length with rfl | ⟨eq, eq'⟩
        case inl => exact .cons ⟨alike, rfl, fun _ => rfl⟩ (hi ..)
        case inr =>
          have ended (text : List Char) : ofChars (place.right 1) text.length text = [] := by
            rw [ofChars_drop, List.drop_length, ofChars]
          cases eq
          cases eq'
          dsimp only
          rw [ended, ended]
          exact .cons ⟨.refl _, rfl, absurd rfl⟩ .nil

end Lexeme

namespace Parser
namespace State

variable {l l' : Lexeme} {stop stop' : Location}

-- A string that lacks its end is at fault where it begins.
theorem step_openString (s : State) (start stop stop' : Location) :
    s.step ⟨.openString, start, stop⟩ = s.step ⟨.openString, start, stop'⟩ := by
  obtain ⟨awaited, _, _⟩ := s
  cases awaited <;> rfl

theorem sameOutcome_step (s : State) (h : l.InPlace l') : SameOutcome (s.step l) (s.step l') := by
  obtain ⟨token, start, stop⟩ := l
  obtain ⟨token', start', stop'⟩ := l'
  obtain ⟨alike, rfl, stop_eq⟩ := h
  cases alike
  case refl =>
    by_cases isOpen : token = .openString
    case pos =>
      rw [isOpen, step_openString s start stop stop']
      exact .refl _
    case neg =>
      obtain rfl := stop_eq isOpen
      exact .refl _
  case dot =>
    obtain rfl := stop_eq nofun
    exact step_dot ..

theorem sameOutcome_endLine (s : State) (line : stop.line = stop'.line) :
    SameOutcome (s.endLine stop) (s.endLine stop') := by
  unfold endLine
  refine .bind (.refl _) fun t => ?_
  obtain ⟨awaited, stack, program⟩ := t
  cases awaited
  case anything =>
    rcases stack with _ | ⟨frame, stack⟩
    case nil => exact .refl _
    case cons =>
      cases frame
      case operator | naming => exact .error ⟨rfl, line⟩
      case list opening place entries entry budget => cases entry <;> exact .refl _
      case block => exact .refl _
  all_goals exact .refl _

theorem sameOutcome_foldlM (s : State) {lexemes lexemes' : List Lexeme}
    (h : List.Forall₂ Lexeme.InPlace lexemes lexemes') :
    SameOutcome (lexemes.foldlM step s) (lexemes'.foldlM step s) := by
  induction h generalizing s
  case nil            => exact .ok s
  case cons here _ hi =>
    rw [List.foldlM_cons, List.foldlM_cons]
    exact (s.sameOutcome_step here).bind hi

theorem sameOutcome_readLine (s : State) (l : SourceLine) :
    SameOutcome (s.readLine l) (s.readLine l.withoutReturns) := by
  have ⟨blanks, text_eq, blank⟩ := dropReturns_append l.text.toList
  have lexemes : List.Forall₂ Lexeme.InPlace l.lexemes l.withoutReturns.lexemes := by
    have inPlace := @Lexeme.inPlace_ofChars blanks [] blank nofun l.start 0
      (Read.dropReturns l.text.toList)
    rw [List.append_nil, ← text_eq] at inPlace
    simpa [SourceLine.lexemes, SourceLine.withoutReturns, SourceLine.start] using inPlace
  exact (sameOutcome_foldlM s lexemes).bind fun t =>
    t.sameOutcome_endLine (Eq.refl l.number)

end State

-- The same tree, or faults with the same exit code on the same line.
inductive SameResult : Except Failure Node → Except Failure Node → Prop
  | ok (root : Node) : SameResult (.ok root) (.ok root)
  | error {fault fault' : Fault} {place place' : Location} {text text' : String}
      (faultClass : fault.faultClass = fault'.faultClass) (line : place.line = place'.line) :
      SameResult (.error (.rejected fault place text)) (.error (.rejected fault' place' text'))

theorem sameResult_readFrom (s : State) {last last' : SourceLine}
    (number : last.number = last'.number) (lines : List SourceLine) :
    SameResult (readFrom s last none lines).1
      (readFrom s last' none (lines.map SourceLine.withoutReturns)).1 := by
  induction lines generalizing s last last'
  case nil =>
    simp only [List.map_nil, readFrom]
    cases s.unclosed
    case none => exact .ok s.root
    case some => exact .error rfl number
  case cons l lines hi =>
    have outcome := s.sameOutcome_readLine l
    simp only [List.map_cons, readFrom]
    generalize s.readLine l = x, s.readLine l.withoutReturns = y at outcome
    cases outcome
    case ok t        => exact hi t rfl
    case error alike => exact .error alike.faultClass alike.line

end Parser

namespace Feed

-- What is skipped is the same with carriage returns and without them.
theorem filtered_withoutReturns (lines : List SourceLine) (filters : Nat) :
    ∃ kept, filtered { lines } filters = { lines := kept } ∧
      filtered { lines := lines.map SourceLine.withoutReturns } filters =
        { lines := kept.map SourceLine.withoutReturns } := by
  cases filters
  case zero => exact ⟨lines, rfl, rfl⟩
  case succ =>
    have same (l : SourceLine) : SourceLine.isSkippable l.withoutReturns.text =
        SourceLine.isSkippable l.text := by
      have ⟨blanks, eq, blank⟩ := dropReturns_append l.text.toList
      rw [SourceLine.withoutReturns, isSkippable_append_blanks blank, ← eq, String.ofList_toList]
    exact ⟨_, rfl, by simp [filtered, withoutComments, List.filter_map, Function.comp_def, same]⟩

end Feed

namespace Session

-- A text and a stream of its bytes, however they are cut into reads that bring something. Either
-- both are accepted and have the same tree with the same places, or both are rejected with the same
-- exit code for the same line.
theorem parseProgram_streamed {text : String} {parts : List (List UInt8)}
    (cut : parts.flatten = text.toUTF8.data.toList) (ne : ∀ part ∈ parts, part ≠ [])
    (filters : Nat) :
    let inMemory := (parseProgram (start (Filtered.wrap (TextLines.ofText text) filters))).1
    let streamed := (parseProgram (start (Filtered.wrap
      (ReaderLines.ofReads (parts.map Read.bytes)) filters))).1
    (∃ root, inMemory = .ok root ∧ streamed = .ok root) ∨
    ∃ failure failure', inMemory = .error failure ∧ streamed = .error failure' ∧
      failure.diagnostic.faultClass = failure'.diagnostic.faultClass ∧
      ∃ line, failure.diagnostic.location.map (·.line) = some line ∧
        failure'.diagnostic.location.map (·.line) = some line := by
  intro inMemory streamed
  have result : Parser.SameResult inMemory streamed := by
    have ⟨kept, kept_eq, kept_eq'⟩ := Feed.filtered_withoutReturns (Feed.ofText text).lines filters
    have inMemory_eq : inMemory = (Feed.parse { lines := kept }).1 := by
      rw [← kept_eq]
      exact parseProgram_wrap (a := TextLines.ofText text) trivial filters
    have streamed_eq :
        streamed = (Feed.parse { lines := kept.map SourceLine.withoutReturns }).1 := by
      rw [← kept_eq', ← Read.ofReads_of_cut cut ne, ← ReaderLines.feed_ofReads]
      exact parseProgram_wrap (ReaderLines.isValid_ofReads _) filters
    rw [inMemory_eq, streamed_eq]
    exact Parser.sameResult_readFrom {} rfl kept
  generalize inMemory = x, streamed = y at result
  cases result
  case ok root               => exact .inl ⟨root, rfl, rfl⟩
  case error faultClass line =>
    exact .inr ⟨_, _, rfl, rfl, faultClass, _, rfl, congrArg some line.symm⟩

theorem parseProgram_streamed_returns :
    let text := "a\r\r\nb + é\r"
    let parts : List (List UInt8) := [[97, 13, 13], [10, 98, 32, 43, 32, 195], [169, 13]]
    Feed.ofText text ≠ Feed.ofReads (parts.map Read.bytes) ∧
    ∃ root, (parseProgram (start (Filtered.wrap (TextLines.ofText text) 1))).1 = .ok root ∧
      (parseProgram (start (Filtered.wrap (ReaderLines.ofReads (parts.map Read.bytes)) 1))).1 =
        .ok root := by
  intro text parts
  have cut : parts.flatten = text.toUTF8.data.toList := by decide
  have ne : ∀ part ∈ parts, part ≠ [] := by decide
  refine ⟨?_, ?_⟩
  · rw [Read.ofReads_of_cut cut ne]
    decide
  · rcases parseProgram_streamed cut ne 1 with accepted | ⟨_, _, rejected, _⟩
    case inl => exact accepted
    case inr =>
      have parsed : (parse text).isOk := by decide
      rw [← parseProgram_text text 0, rejected] at parsed
      contradiction

end Session
end WispSyntax

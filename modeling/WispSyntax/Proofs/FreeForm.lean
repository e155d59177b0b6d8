import WispSyntax.Proofs.Composition
import WispSyntax.Proofs.Spacing

/-!
Blanks mean nothing but that there is a blank. Texts that differ only in which blanks part their
tokens, and in how many, have the same tree but for the columns in it, or the same fault on the same
line (`parse_respaced`).
-/

namespace WispSyntax

-- The place with its line only.
def Location.withoutColumn (l : Location) : Location :=
  { l with column := 0 }

theorem Location.withoutColumn_eq {l l' : Location} (h : l.line = l'.line) :
    l.withoutColumn = l'.withoutColumn := by
  rw [withoutColumn, withoutColumn, h]

-- Lines with the same number that differ in blanks outside strings.
structure SourceLine.Alike (l l' : SourceLine) : Prop where
  number : l.number = l'.number
  text   : IsRespaced l.text.toList l'.text.toList

namespace Parser

-- Faults with the same exit code on the same line.
structure Refusal.Alike (r r' : Refusal) : Prop where
  faultClass : r.fault.faultClass = r'.fault.faultClass
  line       : r.place.line = r'.place.line

-- The same outcome but for the words for a fault and the column of its place.
inductive SameOutcome {α : Type} : Except Refusal α → Except Refusal α → Prop
  | ok (a : α) : SameOutcome (.ok a) (.ok a)
  | error {r r' : Refusal} (alike : r.Alike r') : SameOutcome (.error r) (.error r')

namespace SameOutcome

variable {α β : Type} {x y : Except Refusal α} {k k' : α → Except Refusal β}

theorem refl : (x : Except Refusal α) → SameOutcome x x
  | .ok a    => .ok a
  | .error _ => .error ⟨rfl, rfl⟩

theorem bind (h : SameOutcome x y) (next : ∀ a, SameOutcome (k a) (k' a)) :
    SameOutcome (x >>= k) (y >>= k') := by
  cases h
  case ok a        => exact next a
  case error alike => exact .error alike

end SameOutcome

namespace State

-- States that differ in columns.
def Alike (s s' : State) : Prop :=
  s.relocate Location.withoutColumn [] = s'.relocate Location.withoutColumn []

-- Outcomes that differ in columns and in the words for a fault.
inductive AlikeOutcome : Except Refusal State → Except Refusal State → Prop
  | ok {s s'} (alike : s.Alike s') : AlikeOutcome (.ok s) (.ok s')
  | error {r r' : Refusal} (alike : r.Alike r') : AlikeOutcome (.error r) (.error r')

variable {s s' : State} {l l' : Lexeme}

theorem AlikeOutcome.trans {x y z : Except Refusal State} (h : AlikeOutcome x y)
    (h' : AlikeOutcome y z) : AlikeOutcome x z := by
  cases h
  case ok alike =>
    cases h'
    case ok alike' => exact .ok (Eq.trans alike alike')
  case error alike =>
    cases h'
    case error alike' =>
      exact .error ⟨alike.faultClass.trans alike'.faultClass, alike.line.trans alike'.line⟩

theorem AlikeOutcome.bind {x y : Except Refusal State} {k k' : State → Except Refusal State}
    (h : AlikeOutcome x y) (next : ∀ s s', s.Alike s' → AlikeOutcome (k s) (k' s')) :
    AlikeOutcome (x >>= k) (y >>= k') := by
  cases h
  case ok alike    => exact next _ _ alike
  case error alike => exact .error alike

theorem alikeOutcome_of_relocated {x y : Except Refusal State}
    (h : relocated Location.withoutColumn (relocate Location.withoutColumn []) x =
      relocated Location.withoutColumn (relocate Location.withoutColumn []) y) :
    AlikeOutcome x y := by
  cases x <;> cases y <;> simp only [relocated, Except.ok.injEq, Except.error.injEq,
    reduceCtorEq] at h
  case ok.ok => exact .ok h
  case error.error =>
    simp only [Refusal.relocate, Location.withoutColumn, Refusal.mk.injEq, Location.mk.injEq] at h
    obtain ⟨fault, line, _⟩ := h
    exact .error ⟨by rw [fault], line⟩

theorem alikeOutcome_of_same {x y : Except Refusal State} (h : SameOutcome x y) :
    AlikeOutcome x y := by
  cases h
  case ok          => exact .ok rfl
  case error alike => exact .error alike

-- What follows a dot is told only in the message.
theorem step_dot (s : State) (start stop : Location) (next next' : Option Char) :
    SameOutcome (s.step ⟨.dot next, start, stop⟩) (s.step ⟨.dot next', start, stop⟩) := by
  obtain ⟨awaited, stack, program⟩ := s
  rcases awaited with _ | _ | _ | _
  case anything =>
    change SameOutcome (accept ⟨.anything, stack, program⟩ ⟨.dot next, start, stop⟩)
      (accept ⟨.anything, stack, program⟩ ⟨.dot next', start, stop⟩)
    simp only [accept]
    cases takeLeft ⟨.anything, stack, program⟩ .math start
    case error => exact .error ⟨rfl, rfl⟩
    case ok    => cases next <;> cases next' <;> exact .error ⟨rfl, rfl⟩
  all_goals exact .error ⟨rfl, rfl⟩

theorem alike_step (h : s.Alike s') (hl : l.Alike l') : AlikeOutcome (s.step l) (s'.step l') := by
  have same {l l' : Lexeme} (eq : l.relocate Location.withoutColumn =
      l'.relocate Location.withoutColumn) : AlikeOutcome (s.step l) (s'.step l') := by
    refine alikeOutcome_of_relocated ?_
    rw [← step_relocate, ← step_relocate, eq, h]
  obtain ⟨token, start, stop⟩ := l
  obtain ⟨token', start', stop'⟩ := l'
  obtain ⟨token_alike, start_eq, stop_eq⟩ := hl
  have places (token : Token) : (Lexeme.mk token start stop).relocate Location.withoutColumn =
      (Lexeme.mk token start' stop').relocate Location.withoutColumn := by
    simp only [Lexeme.relocate, Location.withoutColumn_eq start_eq,
      Location.withoutColumn_eq stop_eq]
  cases token_alike
  case refl         => exact same (places token)
  case dot next next' => exact (alikeOutcome_of_same (step_dot ..)).trans (same (places _))

theorem alike_endLine {stop stop' : Location} (h : s.Alike s') (line : stop.line = stop'.line) :
    AlikeOutcome (s.endLine stop) (s'.endLine stop') := by
  refine alikeOutcome_of_relocated ?_
  rw [← endLine_relocate, ← endLine_relocate, h, Location.withoutColumn_eq line]

theorem alike_foldlM {lexemes lexemes' : List Lexeme} (h : s.Alike s')
    (hl : List.Forall₂ Lexeme.Alike lexemes lexemes') :
    AlikeOutcome (lexemes.foldlM step s) (lexemes'.foldlM step s') := by
  induction hl generalizing s s'
  case nil => exact .ok h
  case cons here _ hi =>
    rw [List.foldlM_cons, List.foldlM_cons]
    exact (alike_step h here).bind fun s s' h => hi h

theorem alike_readLine {l l' : SourceLine} (h : s.Alike s') (hl : l.Alike l') :
    AlikeOutcome (s.readLine l) (s'.readLine l') :=
  (alike_foldlM h (Lexeme.alike_ofChars hl.text l.start l'.start hl.number)).bind
    fun _ _ h => alike_endLine h hl.number

theorem alike_unclosed (h : s.Alike s') : s.unclosed = s'.unclosed := by
  have same (q : State) : (q.relocate Location.withoutColumn []).unclosed = q.unclosed :=
    unclosed_relocate q
  rw [← same s, h, same s']

theorem alike_root (h : s.Alike s') :
    s.root.relocate Location.withoutColumn = s'.root.relocate Location.withoutColumn := by
  have root_eq := congrArg State.root h
  rw [root_relocate, root_relocate] at root_eq
  have children := congrArg Node.children root_eq
  rw [Node.relocate_eq, Node.relocate_eq]
  simpa [root] using children

end State

-- Outcomes of programs that differ in columns and in the words for a fault.
inductive AlikeResult : Except Failure Node → Except Failure Node → Prop
  | ok {root root' : Node}
      (alike : root.relocate Location.withoutColumn = root'.relocate Location.withoutColumn) :
      AlikeResult (.ok root) (.ok root')
  | error {failure failure' : Failure}
      (faultClass : failure.diagnostic.faultClass = failure'.diagnostic.faultClass)
      (line : failure.diagnostic.location.map (·.line) =
        failure'.diagnostic.location.map (·.line)) :
      AlikeResult (.error failure) (.error failure')

theorem alike_readFrom {s s' : State} {last last' : SourceLine} {lines lines' : List SourceLine}
    (h : s.Alike s') (number : last.number = last'.number)
    (hl : List.Forall₂ SourceLine.Alike lines lines') :
    AlikeResult (readFrom s last none lines).1 (readFrom s' last' none lines').1 := by
  induction hl generalizing s s' last last'
  case nil =>
    simp only [readFrom, State.alike_unclosed h]
    cases s'.unclosed
    case none => exact .ok (State.alike_root h)
    case some => exact .error rfl (congrArg some number)
  case cons l l' _ _ here _ hi =>
    have outcome := State.alike_readLine h here
    simp only [readFrom]
    generalize s.readLine l = x, s'.readLine l' = y at outcome
    cases outcome
    case ok alike    => exact hi alike here.number
    case error alike => exact .error alike.faultClass (congrArg some alike.line)

theorem alike_isSkippable {text text' : String} (h : IsRespaced text.toList text'.toList) :
    SourceLine.isSkippable text = SourceLine.isSkippable text' := by
  have isComment {rest rest' : List Char} (next : Respaced false rest rest')
      (comment : ∃ after, rest = '/' :: after) : ∃ after, rest' = '/' :: after := by
    obtain ⟨after, rfl⟩ := comment
    obtain ⟨after', eq, _⟩ := next.cons rfl
    exact ⟨after', eq⟩
  unfold SourceLine.isSkippable
  rcases h.cases with ⟨none, none'⟩ | ⟨c, rest, rest', some, some', _, next⟩
  case inl => rw [none, none']
  case inr =>
    rw [some, some']
    by_cases slash : c = '/'
    case neg => simp [slash]
    case pos =>
      subst slash
      by_cases comment : ∃ after, rest = '/' :: after
      case pos =>
        obtain ⟨after', rfl⟩ := isComment next comment
        obtain ⟨after, rfl⟩ := comment
        rfl
      case neg =>
        have code : ¬∃ after, rest' = '/' :: after := fun h => comment (isComment next.symm h)
        simp_all

theorem alike_enumerate {lines lines' : List (List Char)} (h : List.Forall₂ IsRespaced lines lines')
    (first : Nat) :
    List.Forall₂ SourceLine.Alike (SourceLine.enumerate first (lines.map String.ofList))
      (SourceLine.enumerate first (lines'.map String.ofList)) := by
  induction h generalizing first
  case nil => exact .nil
  case cons here _ hi =>
    simp only [List.map_cons, SourceLine.enumerate, List.zipIdx_cons]
    exact .cons ⟨rfl, by simpa using here⟩ (hi (first + 1))

theorem alike_keptLines {first second : String}
    (h : List.Forall₂ IsRespaced (splitLines first.toList) (splitLines second.toList)) :
    List.Forall₂ SourceLine.Alike (keptLines first) (keptLines second) :=
  List.rel_filter (fun l l' hl => by simp [alike_isSkippable hl.text]) (alike_enumerate h 1)

-- Texts whose lines differ in blanks outside strings. Either both are accepted and have the same
-- tree but for its columns, or both are rejected with the same exit code for the same line.
theorem parse_respaced {first second : String}
    (h : List.Forall₂ IsRespaced (splitLines first.toList) (splitLines second.toList)) :
    (∃ root root', parse first = .ok root ∧ parse second = .ok root' ∧
      root.relocate Location.withoutColumn = root'.relocate Location.withoutColumn) ∨
    ∃ failure failure', parse first = .error failure ∧ parse second = .error failure' ∧
      failure.diagnostic.faultClass = failure'.diagnostic.faultClass ∧
      failure.diagnostic.location.map (·.line) = failure'.diagnostic.location.map (·.line) := by
  have result : AlikeResult (parse first) (parse second) := by
    rw [parse_eq, parse_eq]
    exact alike_readFrom rfl rfl (alike_keptLines h)
  generalize parse first = x, parse second = y at result
  cases result
  case ok alike              => exact .inl ⟨_, _, rfl, rfl, alike⟩
  case error faultClass line => exact .inr ⟨_, _, rfl, rfl, faultClass, line⟩

theorem parse_respaced_sum :
    ∃ root root', parse "x  + ' '" = .ok root ∧ parse "\tx +\t' ' " = .ok root' ∧
      root.relocate Location.withoutColumn = root'.relocate Location.withoutColumn := by
  have space : isBlank ' ' := rfl
  have tab : isBlank '\t' := rfl
  have line : IsRespaced "x  + ' '".toList "\tx +\t' ' ".toList := by
    refine .char 'x' (@Respaced.run [' ', ' '] [' '] _ _ ?_ ?_ ?_ ?_ (.char '+'
      (@Respaced.run [' '] ['\t'] _ _ ?_ ?_ ?_ ?_ (.char '\'' (.char ' ' (.char '\''
        (@Respaced.trailing _ [] [' '] ?_ ?_)))))))
    all_goals simp [space, tab]
  have lines : List.Forall₂ IsRespaced (splitLines "x  + ' '".toList)
      (splitLines "\tx +\t' ' ".toList) := .cons line .nil
  let sum : Node :=
    .between .add (.leaf .identifier "x" ⟨1, 1⟩) (.leaf .string " " ⟨1, 6⟩) ⟨1, 4⟩
  have first : parse "x  + ' '" =
      .ok { kind := .root, children := [sum], location := ⟨1, 1⟩ } := rfl
  rcases parse_respaced lines with accepted | ⟨_, _, rejected, _⟩
  · exact accepted
  · exact absurd (first.symm.trans rejected) (by simp)

end Parser
end WispSyntax

import WispSyntax.Proofs.Renumbering

/-!
Programs one after the other. An accepted text leaves nothing behind for the text after it, and no
line can change what is wrong with a line before it (`parse_append`).
-/

namespace WispSyntax

section
variable {c : Char} {text : List Char}

-- A character that is part of a line, whatever follows the text.
def IsInner (c : Char) (text : List Char) : Prop :=
  c ≠ '\n' ∧ (c = '\r' → text ≠ [] ∧ text.head? ≠ some '\n')

-- The ways in which a text goes on with a line or ends it.
theorem lines_induction {motive : List Char → Prop} (none : motive [])
    (feed : ∀ text, motive text → motive ('\n' :: text))
    (pair : ∀ text, motive text → motive ('\r' :: '\n' :: text)) (single : motive ['\r'])
    (inner : ∀ c text, IsInner c text → motive text → motive (c :: text)) (text : List Char) :
    motive text := by
  have other (c : Char) (text : List Char) (notFeed : c ≠ '\n')
      (notPair : ∀ after, c = '\r' → text = '\n' :: after → False) (hi : motive text) :
      motive (c :: text) := by
    by_cases isSingle : c = '\r' ∧ text = []
    case pos =>
      obtain ⟨rfl, rfl⟩ := isSingle
      exact single
    case neg =>
      refine inner c text ⟨notFeed, fun isReturn => ⟨fun h => isSingle ⟨isReturn, h⟩, ?_⟩⟩ hi
      rintro h
      obtain ⟨after, eq⟩ := List.head?_eq_some_iff.mp h
      exact notPair after isReturn eq
  induction text using splitLines.induct
  case case1                                => exact none
  case case2 text hi                        => exact feed text hi
  case case3 text hi                        => exact pair text hi
  case case4 c text notFeed notPair _ hi    => exact other c text notFeed notPair hi
  case case5 c text notFeed notPair _ _ _ hi => exact other c text notFeed notPair hi

theorem splitLines_cons (h : IsInner c text) (rest : List Char) :
    splitLines (c :: text ++ rest) =
      (c :: (splitLines (text ++ rest)).headD []) :: (splitLines (text ++ rest)).tail := by
  obtain ⟨feed, pair⟩ := h
  rw [List.cons_append, splitLines]
  · cases splitLines (text ++ rest) <;> rfl
  · exact feed
  · rintro after rfl eq
    cases text
    case nil       => simp at pair
    case cons d ds => simp_all

-- Whatever follows a line feed, the lines before it are the same.
theorem splitLines_append (text rest : List Char) :
    splitLines (text ++ '\n' :: rest) = splitLines (text ++ ['\n']) ++ splitLines rest := by
  induction text using lines_induction
  case none    => rfl
  case feed hi => simpa [splitLines] using hi
  case pair hi => simpa [splitLines] using hi
  case single  => simp [splitLines]
  case inner c text inner hi =>
    have ne : splitLines (text ++ ['\n']) ≠ [] := by simp [splitLines_eq_nil_iff]
    obtain ⟨line, lines, eq⟩ := List.exists_cons_of_ne_nil ne
    rw [splitLines_cons inner, splitLines_cons inner, hi, eq]
    rfl

theorem length_splitLines (text : List Char) :
    (splitLines (text ++ ['\n'])).length = text.count '\n' + 1 := by
  induction text using lines_induction
  case none    => rfl
  case feed hi => simpa [splitLines] using hi
  case pair hi => simpa [splitLines] using hi
  case single  => rfl
  case inner c text inner hi =>
    rw [splitLines_cons inner, List.length_cons, List.length_tail, hi,
      List.count_cons_of_ne inner.1]
    omega

-- A line feed at the end of a text adds at most an empty line.
theorem splitLines_newline (h : text.getLast? ≠ some '\r') :
    splitLines (text ++ ['\n']) = splitLines text ∨
      splitLines (text ++ ['\n']) = splitLines text ++ [[]] := by
  induction text using lines_induction
  case none         => exact .inr rfl
  case feed text hi =>
    have := hi (by cases text <;> simp_all)
    simpa [splitLines] using this
  case pair text hi =>
    have := hi (by cases text <;> simp_all)
    simpa [splitLines] using this
  case single => exact absurd rfl h
  case inner c text inner hi =>
    have split := splitLines_cons inner []
    rw [List.append_nil, List.append_nil] at split
    rw [splitLines_cons inner, split]
    rcases text with _ | ⟨d, ds⟩
    case nil => exact .inl rfl
    case cons =>
      have ne : splitLines (d :: ds) ≠ [] := by simp [splitLines_eq_nil_iff]
      obtain ⟨line, lines, eq⟩ := List.exists_cons_of_ne_nil ne
      rcases hi (by simpa using h) with next | next
      · exact .inl (by rw [next])
      · exact .inr (by rw [next, eq]; rfl)

end

-- How far down a line feed moves the lines of a text that comes after another.
def linesBefore (text : String) : Nat :=
  text.toList.count '\n' + 1

theorem keptLines_append {first : String} (h : first.toList.getLast? ≠ some '\r')
    (second : String) :
    keptLines (first ++ "\n" ++ second) =
      keptLines first ++ (keptLines second).map (SourceLine.renumber (· + linesBefore first)) := by
  have before : ((SourceLine.enumerate 1
      ((splitLines (first.toList ++ ['\n'])).map String.ofList)).filter
        (!SourceLine.isSkippable ·.text)) = keptLines first := by
    rcases splitLines_newline h with eq | eq <;> rw [eq]
    case inl => rfl
    case inr =>
      rw [List.map_append, SourceLine.enumerate_append, List.filter_append]
      exact List.append_nil _
  have text : (first ++ "\n" ++ second).toList = first.toList ++ '\n' :: second.toList := by simp
  rw [keptLines, Feed.withoutComments, Feed.ofText, text, splitLines_append, List.map_append,
    SourceLine.enumerate_append, List.length_map, length_splitLines, List.filter_append, before,
    SourceLine.enumerate_renumber, List.filter_map]
  rfl

namespace Parser
variable {s t : State} {last : SourceLine} {failure : Option String} {xs ys : List SourceLine}

-- Lines that are accepted are followed by the others.
theorem readFrom_append (h : s.readLines xs = .ok t) :
    ∃ last', readFrom s last failure (xs ++ ys) = readFrom t last' failure ys := by
  induction xs generalizing s last
  case nil =>
    cases h
    exact ⟨last, rfl⟩
  case cons l xs hi =>
    obtain ⟨u, here, next⟩ := bind_eq_ok_iff.mp h
    simp only [List.cons_append, readFrom, here]
    exact hi next

-- The line before is named only for a construct that is open.
theorem readFrom_of_closed (h : s.unclosed = none) (last last' : SourceLine) :
    readFrom s last failure xs = readFrom s last' failure xs := by
  cases xs
  case nil =>
    simp only [readFrom, h]
    cases failure <;> rfl
  case cons => rfl

-- Without a failure of the input there is none but of the program.
theorem rejected_of_readFrom {e : Failure} (h : (readFrom s last none xs).1 = .error e) :
    ∃ fault place line, e = .rejected fault place line := by
  induction xs generalizing s last
  case nil =>
    cases closed : s.unclosed <;> simp only [readFrom, closed] at h <;> cases h
    exact ⟨_, _, _, rfl⟩
  case cons l xs hi =>
    cases here : s.readLine l <;> simp only [readFrom, here] at h
    case error =>
      cases h
      exact ⟨_, _, _, rfl⟩
    case ok => exact hi h

-- A line that is at fault is not followed by any other.
theorem readFrom_append_of_error {fault : Fault} {place : Location} {text : String}
    (h : (readFrom s last none xs).1 = .error (.rejected fault place text))
    (within : ∀ construct, fault ≠ .openConstruct construct) :
    (readFrom s last failure (xs ++ ys)).1 = .error (.rejected fault place text) := by
  induction xs generalizing s last
  case nil =>
    cases closed : s.unclosed <;> simp only [readFrom, closed] at h <;> cases h
    case some.refl construct => exact absurd rfl (within construct)
  case cons l xs hi =>
    cases here : s.readLine l <;> simp only [List.cons_append, readFrom, here] at h ⊢
    case error => exact h
    case ok    => exact hi h

namespace State

-- Between lines, nodes outside of all constructs can no longer become operands.
def IsSettled (s : State) : Prop :=
  s.Rests ∧ (s.awaited = .anything → s.stack = [] → s.program.recent = [])

theorem LineBreak.isSettled (h : LineBreak s t) (hs : s.InList) : t.IsSettled := by
  refine ⟨h.rests hs, fun awaited stack => ?_⟩
  cases h <;> try contradiction
  case program => rfl
  case separator =>
    obtain ⟨_, _, _, _, _, _, eq⟩ := hs rfl
    simp_all

theorem isSettled_of_readLine {l : SourceLine} (h : s.readLine l = .ok t) (hs : s.Rests) :
    t.IsSettled := by
  refine @readLine_induction (fun _ => InList) (fun _ => IsSettled) l [] s t ?_ ?_ ?_ h
  · intro _ s x t _ _ ht
    obtain ⟨u, _, hu⟩ := transition_of_step ht
    exact hu.inList
  · intro _ s t hs ht
    obtain ⟨u, settled, hu⟩ := lineBreak_of_endLine ht
    refine hu.isSettled ?_
    rcases settled with rfl | settled
    · exact hs
    · exact settled.inList
  · exact fun h => absurd h hs.1

theorem isSettled_of_readLines (h : State.readLines {} xs = .ok t) : t.IsSettled := by
  have start : IsSettled {} := by simp [IsSettled, Rests]
  exact @foldlM_induction _ _ _ _ (fun _ => IsSettled) xs [] _ _
    (fun _ s l t _ hs ht => isSettled_of_readLine ht hs.1) start h

end State

theorem isPrefix_message (construct : Construct) :
    "Unexpected EOF".toList <+: (Fault.openConstruct construct).message.toList := by
  cases construct <;> decide

-- Nothing is left of an accepted text but its nodes.
theorem readLines_of_parse {text : String} {root : Node} (h : parse text = .ok root)
    (f : Location → Location) :
    State.readLines {} (keptLines text) = .ok (State.relocate f root.children.reverse {}) := by
  obtain ⟨⟨awaited, stack, settled, recent⟩, read, closed, rfl⟩ := parse_eq_ok_iff.mp h
  obtain ⟨rests, recent_eq⟩ := State.isSettled_of_readLines read
  obtain ⟨rfl, rfl⟩ := rests.stack_eq_nil closed
  obtain rfl : recent = [] := recent_eq rfl rfl
  rw [read]
  simp [State.relocate, State.root, Sequence.toList, Sequence.relocate, Sequence.after,
    Awaited.relocate]

theorem parse_eq (text : String) :
    parse text = (readFrom {} { number := 0, text := "" } none (keptLines text)).1 :=
  rfl

-- Two texts with a line feed between them. The nodes of the first are followed by those of the
-- second, and so is its success by the failure of the second, but a failure of the first that is
-- not due to its end stays whatever follows.
theorem parse_append {first : String} (h : first.toList.getLast? ≠ some '\r') (second : String) :
    (∀ root, parse first = .ok root →
      parse (first ++ "\n" ++ second) =
        match parse second with
        | .ok root'      =>
          .ok { root with
            children := root.children ++ root'.children.map
              (Node.relocate (Location.renumber (· + linesBefore first))) }
        | .error failure => .error (failure.renumber (· + linesBefore first))) ∧
    (∀ failure, parse first = .error failure →
      ¬"Unexpected EOF".toList <+: failure.diagnostic.message.toList →
      parse (first ++ "\n" ++ second) = .error failure) := by
  refine ⟨fun root accepted => ?_, fun failure rejected within => ?_⟩
  case refine_1 =>
    have read := readLines_of_parse accepted (Location.renumber (· + linesBefore first))
    obtain ⟨last, eq⟩ := @readFrom_append _ _ { number := 0, text := "" } none _
      ((keptLines second).map (SourceLine.renumber (· + linesBefore first))) read
    rw [parse_eq, keptLines_append h, eq, readFrom_of_closed rfl last
      (SourceLine.renumber (· + linesBefore first) { number := 0, text := "" }), readFrom_renumber,
      ← parse_eq, outcomeAfter.eq_def, List.reverse_reverse]
    obtain ⟨s, _, _, rfl⟩ := parse_eq_ok_iff.mp accepted
    cases parsed : parse second
    case error => rfl
    case ok root' =>
      obtain ⟨t, _, _, rfl⟩ := parse_eq_ok_iff.mp parsed
      rfl
  case refine_2 =>
    rw [parse_eq] at rejected ⊢
    obtain ⟨fault, place, line, rfl⟩ := rejected_of_readFrom rejected
    rw [keptLines_append h]
    refine readFrom_append_of_error rejected ?_
    rintro construct rfl
    exact within (isPrefix_message construct)

theorem parse_append_sum :
    (∃ root root', parse "a\n(b)" = .ok root ∧ parse "c + 1" = .ok root' ∧
      parse ("a\n(b)" ++ "\n" ++ "c + 1") = .ok { root with
        children := root.children ++ root'.children.map
          (Node.relocate (Location.renumber (· + linesBefore "a\n(b)"))) }) ∧
    ∃ failure, parse "(a\n+ 1)" = .error failure ∧
      parse ("(a\n+ 1)" ++ "\n" ++ "b") = .error failure := by
  let name (text : String) (place : Location) : Node := .leaf .identifier text place
  let group : Node := { kind := .group, params := [[name "b" ⟨2, 2⟩]], location := ⟨2, 1⟩ }
  have first : parse "a\n(b)" =
      .ok { kind := .root, children := [name "a" ⟨1, 1⟩, group], location := ⟨1, 1⟩ } := rfl
  let sum : Node := .between .add (name "c" ⟨1, 1⟩) (.leaf .integer "1" ⟨1, 5⟩) ⟨1, 3⟩
  have second : parse "c + 1" = .ok { kind := .root, children := [sum], location := ⟨1, 1⟩ } := rfl
  have both := (parse_append (by decide) "c + 1").1 _ first
  rw [second] at both
  have fault : parse "(a\n+ 1)" = .error (.rejected (.leftOperand .math) ⟨2, 1⟩ "+ 1)") := rfl
  exact ⟨⟨_, _, first, second, both⟩, _, fault,
    (parse_append (by decide) "b").2 _ fault (by decide)⟩

end Parser
end WispSyntax

import WispSyntax.Proofs.Encoding
import WispSyntax.Proofs.Refusals
import WispSyntax.Proofs.Resumption

/-!
Streams that break off. The failure is what a program ends with if its lines up to there have no
fault, or none but that they leave something open (`parseProgram_broken`).
-/

namespace WispSyntax

-- A fault that is found in a line, and not at the end of the input.
def Fault.IsLocal : Fault → Prop
  | .openConstruct _ => False
  | _                => True

namespace Parser

-- An outcome that is no fault but in the line.
inductive StaysLocal {α : Type} : Except Refusal α → Prop
  | ok (a : α) : StaysLocal (.ok a)
  | error {r : Refusal} (isLocal : r.fault.IsLocal) : StaysLocal (.error r)

theorem isLocal_of_isStructural {fault : Fault} (h : fault.isStructural) : fault.IsLocal := by
  cases fault <;> trivial

theorem isLocal_of_refusal? {l : Lexeme} {r : Refusal} (h : refusal? l = some r) :
    r.fault.IsLocal := by
  unfold refusal? at h
  split at h <;> cases h <;> trivial

theorem State.staysLocal_readLine (s : State) (l : SourceLine) : StaysLocal (s.readLine l) := by
  have raises := s.raises_readLine l
  generalize s.readLine l = outcome at raises ⊢
  cases raises
  case ok a         => exact .ok a
  case structural h => exact .error (isLocal_of_isStructural h)
  case own h        =>
    have ⟨_, _, refused⟩ := h
    exact .error (isLocal_of_refusal? refused)

variable {s : State} {last : SourceLine} {lines : List SourceLine} {reason : String}

-- Where reading breaks off, a program that has no fault in its lines does not get to its end.
theorem readFrom_broken
    (within : ∀ fault place text,
      (readFrom s last none lines).1 = .error (.rejected fault place text) → ¬fault.IsLocal) :
    (readFrom s last (some reason) lines).1 = .error (.unreadable reason) := by
  induction lines generalizing s last
  case nil => rfl
  case cons l lines hi =>
    have outcome := s.staysLocal_readLine l
    simp only [readFrom] at within ⊢
    cases here : s.readLine l <;> simp only [here] at outcome within ⊢
    case ok t => exact hi within
    case error r =>
      cases outcome
      case error isLocal => exact absurd isLocal (within _ _ _ rfl)

end Parser

theorem NumberFault.head?_message (fault : NumberFault) :
    fault.message.toList.head? ≠ some 'U' := by
  unfold message
  split <;> simp [toString]

theorem Fault.head?_message {fault : Fault} (isLocal : fault.IsLocal) :
    fault.message.toList.head? ≠ some 'U' := by
  cases fault <;> unfold message
  case number fault  => exact fault.head?_message
  case openConstruct => exact isLocal.elim
  all_goals simp [toString]

-- The words tell what is found in a line from what is found at the end of the input.
theorem Fault.isLocal_iff (fault : Fault) :
    fault.IsLocal ↔ ¬"Unexpected EOF".toList <+: fault.message.toList := by
  refine ⟨fun isLocal isPrefix => ?_, fun h => ?_⟩
  · have ⟨rest, eq⟩ := isPrefix
    refine Fault.head?_message isLocal ?_
    rw [← eq]
    simp
  · cases fault
    case openConstruct construct => exact h (Parser.isPrefix_message construct)
    all_goals trivial

-- A program whose input breaks off after its lines has the fault that it has without more lines,
-- unless that is due to its end.
theorem Feed.parse_broken (lines : List SourceLine) (reason : String) :
    (∀ failure, (Feed.parse { lines }).1 = .error failure →
      ¬"Unexpected EOF".toList <+: failure.diagnostic.message.toList →
      (Feed.parse { lines, failure := reason }).1 = .error failure) ∧
    ((∀ failure, (Feed.parse { lines }).1 = .error failure →
        "Unexpected EOF".toList <+: failure.diagnostic.message.toList) →
      (Feed.parse { lines, failure := reason }).1 = .error (.unreadable reason)) := by
  refine ⟨fun failure rejected within => ?_, fun within => ?_⟩
  · obtain ⟨fault, place, text, rfl⟩ := Parser.rejected_of_readFrom rejected
    have kept := @Parser.readFrom_append_of_error _ _ (some reason) _ [] _ _ _ rejected
    rw [List.append_nil] at kept
    refine kept ?_
    rintro construct rfl
    exact within (Parser.isPrefix_message construct)
  · refine Parser.readFrom_broken fun fault place text rejected isLocal => ?_
    exact fault.isLocal_iff.mp isLocal (within _ rejected)

namespace Session

open CommandLine (unlines)

-- A stream that breaks off after some lines, and the text that is made of these lines. A fault in
-- the lines is told for both. But where the text is a program, or only leaves something open, the
-- failure of the stream is told.
theorem parseProgram_broken {reads : List Read} {lines : List SourceLine} {reason : String}
    (delivers : Read.Delivers 0 (reads.flatMap Read.signals) lines (some reason)) (filters : Nat) :
    let text := unlines (lines.map (·.text))
    let alone := (parseProgram (start (Filtered.wrap (TextLines.ofText text) filters))).1
    let broken := (parseProgram (start (Filtered.wrap (ReaderLines.ofReads reads) filters))).1
    (∀ failure, alone = .error failure →
      ¬"Unexpected EOF".toList <+: failure.diagnostic.message.toList → broken = .error failure) ∧
    ((∀ failure, alone = .error failure →
        "Unexpected EOF".toList <+: failure.diagnostic.message.toList) →
      ∃ failure, broken = .error failure ∧
        failure.diagnostic =
          { faultClass := .sourceUnavailable
            message := "Failed to read source: " ++ reason
            location := none
            line := none }) ∧
    ∀ root, broken ≠ .ok root := by
  intro text alone broken
  obtain ⟨kept, alone_eq, broken_eq⟩ : ∃ kept, alone = (Feed.parse { lines := kept }).1 ∧
      broken = (Feed.parse { lines := kept, failure := reason }).1 := by
    have alone_eq := parseProgram_wrap (a := TextLines.ofText text) trivial filters
    have broken_eq := parseProgram_wrap (ReaderLines.isValid_ofReads reads) filters
    rw [TextLines.feed_ofText, Read.ofText_of_delivers delivers] at alone_eq
    rw [ReaderLines.feed_ofReads, Read.delivers_iff.mp delivers] at broken_eq
    cases filters <;> exact ⟨_, alone_eq, broken_eq⟩
  have ⟨fault, failed⟩ := Feed.parse_broken kept reason
  rw [alone_eq, broken_eq]
  refine ⟨fault, fun within => ⟨_, failed within, rfl⟩, fun root accepted => ?_⟩
  by_cases within : ∀ failure, (Feed.parse { lines := kept }).1 = .error failure →
    "Unexpected EOF".toList <+: failure.diagnostic.message.toList
  case pos => simp [failed within] at accepted
  case neg =>
    simp only [not_forall] at within
    obtain ⟨failure, rejected, within⟩ := within
    simp [fault failure rejected within] at accepted

theorem parseProgram_broken_comment :
    let broken (reads : List Read) :=
      (parseProgram (start (Filtered.wrap (ReaderLines.ofReads reads) 1))).1
    (∃ failure, broken [.bytes [40, 97, 10, 47, 47], .bytes [255, 10, 41]] = .error failure ∧
      failure.diagnostic =
        { faultClass := .sourceUnavailable
          message := "Failed to read source: " ++ Read.undecodable
          location := none
          line := none }) ∧
    broken [.bytes [41, 10, 98], .failed "reset"] =
      .error (.rejected (.strayCharacter ')') ⟨1, 1⟩ ")") := by
  have undecodable : Read.Delivers 0
      (([.bytes [40, 97, 10, 47, 47], .bytes [255, 10, 41]] : List Read).flatMap Read.signals)
      [⟨1, "(a"⟩] (some Read.undecodable) :=
    .line (@Read.Begins.fed [40, 97] _ (by decide)) (by decide)
      (.ends (.undecodable (@Read.Begins.fed [47, 47, 255] _ (by decide)) (by decide)))
  have failed : Read.Delivers 0
      (([.bytes [41, 10, 98], .failed "reset"] : List Read).flatMap Read.signals)
      [⟨1, ")"⟩] (some "reset") :=
    .line (@Read.Begins.fed [41] _ (by decide)) (by decide)
      (.ends (@Read.Ends.failed [98] _ _ (by decide)))
  refine ⟨(parseProgram_broken undecodable 1).2.1 ?_, (parseProgram_broken failed 1).1 _ ?_ ?_⟩
  · rw [parseProgram_text]
    intro failure rejected
    obtain rfl : _ = failure := Except.error.inj rejected
    exact Parser.isPrefix_message .group
  · rw [parseProgram_text]
    rfl
  · exact (Fault.isLocal_iff _).mp trivial

end Session
end WispSyntax

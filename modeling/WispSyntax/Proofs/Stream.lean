import WispSyntax.Proofs.Supplier

/-!
What a stream of bytes delivers, told by the forms that its lines and its end can take. Every stream
delivers some lines and comes to an end, and its feed tells which (`delivers_iff`).
-/

namespace WispSyntax
namespace Read

-- A stream begins with the bytes of a line and goes on with the rest. A line ends with a line feed,
-- or where nothing follows, for now or for good, unless nothing of it is there.
inductive Begins : List Signal → List UInt8 → List Signal → Prop
  | fed {record : List UInt8} {rest} (inner : lineFeed ∉ record) :
      Begins (record.map .byte ++ .byte lineFeed :: rest) record rest
  | paused {record : List UInt8} {rest} (inner : lineFeed ∉ record) (ne : record ≠ []) :
      Begins (record.map .byte ++ .pause :: rest) record rest
  | last {record : List UInt8} (inner : lineFeed ∉ record) (ne : record ≠ []) :
      Begins (record.map .byte) record []

-- A stream has no further line, and may tell a reason for that. What comes after its end is never
-- read.
inductive Ends : List Signal → Option String → Prop
  | done : Ends [] none
  | paused {rest} : Ends (.pause :: rest) none
  | failed {record : List UInt8} {reason rest} (inner : lineFeed ∉ record) :
      Ends (record.map .byte ++ .failed reason :: rest) (some reason)
  | undecodable {signals record rest} (begins : Begins signals record rest)
      (fault : decode record = none) : Ends signals (some undecodable)

-- The lines of a stream after the given number of lines, and how it ends after them.
inductive Delivers : Nat → List Signal → List SourceLine → Option String → Prop
  | ends {n signals failure} (ends : Ends signals failure) : Delivers n signals [] failure
  | line {n signals record text rest lines failure} (begins : Begins signals record rest)
      (decoded : decode record = some text) (next : Delivers (n + 1) rest lines failure) :
      Delivers n signals (⟨n + 1, text⟩ :: lines) failure

variable {n : Nat} {signals rest : List Signal} {record : List UInt8} {lines : List SourceLine}
  {failure : Option String}

theorem Begins.length_lt (h : Begins signals record rest) : rest.length < signals.length := by
  cases h
  case last ne => simpa [List.length_pos_iff] using ne
  all_goals
    simp only [List.length_append, List.length_cons]
    omega

-- Some bytes of a line have been seen, and then whatever comes next adds to them or ends the line.
theorem begins_or_ends (inner : lineFeed ∉ record) (signals : List Signal) :
    (∃ record' rest, Begins (record.map .byte ++ signals) record' rest) ∨
      ∃ failure, Ends (record.map .byte ++ signals) failure := by
  induction signals generalizing record
  case nil =>
    rw [List.append_nil]
    by_cases ne : record = []
    case pos => exact .inr ⟨none, ne ▸ .done⟩
    case neg => exact .inl ⟨record, [], .last inner ne⟩
  case cons signal signals hi =>
    cases signal
    case failed reason => exact .inr ⟨some reason, .failed inner⟩
    case pause =>
      by_cases ne : record = []
      case pos => exact .inr ⟨none, ne ▸ .paused⟩
      case neg => exact .inl ⟨record, signals, .paused inner ne⟩
    case byte b =>
      by_cases isFeed : b = lineFeed
      case pos => exact .inl ⟨record, signals, isFeed ▸ .fed inner⟩
      case neg =>
        have := @hi (record ++ [b]) (by simp [inner, Ne.symm isFeed])
        simpa using this

-- A stream delivers something in any case.
theorem exists_delivers (n : Nat) (signals : List Signal) :
    ∃ lines failure, Delivers n signals lines failure := by
  induction size : signals.length using Nat.strongRecOn generalizing n signals
  case ind hi =>
    cases begins_or_ends List.not_mem_nil signals
    case inl begins =>
      have ⟨record, rest, begins⟩ := begins
      cases decoded : decode record
      case none => exact ⟨[], _, .ends (.undecodable begins decoded)⟩
      case some text =>
        have ⟨lines, failure, next⟩ := hi rest.length (size ▸ begins.length_lt) (n + 1) rest rfl
        exact ⟨_, failure, .line begins decoded next⟩
    case inr ends =>
      have ⟨failure, ends⟩ := ends
      exact ⟨[], failure, .ends ends⟩

theorem takeRecord_append (inner : lineFeed ∉ record) (begun : List UInt8) (rest : List Signal) :
    Reader.takeRecord begun (record.map .byte ++ rest) =
      Reader.takeRecord (record.reverse ++ begun) rest := by
  induction record generalizing begun
  case nil => rfl
  case cons b record hi =>
    rw [List.mem_cons, not_or] at inner
    rw [List.map_cons, List.cons_append, Reader.takeRecord, if_neg (Ne.symm inner.1), hi inner.2,
      List.reverse_cons, List.append_assoc, List.singleton_append]

theorem takeRecord_of_begins (h : Begins signals record rest) :
    Reader.takeRecord [] signals = (.ok (some record), rest) := by
  cases h
  case fed inner       => simp [takeRecord_append inner, Reader.takeRecord]
  case paused inner ne => simp [takeRecord_append inner, Reader.takeRecord, ne]
  case last inner ne   =>
    rw [← List.append_nil (record.map _), takeRecord_append inner]
    simp [Reader.takeRecord, ne]

-- A stream in the middle of which so many lines have been read.
def feedFrom (n : Nat) (signals : List Signal) : Feed :=
  decodeAll (n + 1) (deliver [] signals).failure (deliver [] signals).records

theorem feedFrom_of_begins (h : Begins signals record rest) :
    feedFrom n signals =
      match decode record with
      | none      => { lines := [], failure := some undecodable }
      | some text => { feedFrom (n + 1) rest with
                        lines := ⟨n + 1, text⟩ :: (feedFrom (n + 1) rest).lines } := by
  rw [feedFrom, Reader.deliver_eq, takeRecord_of_begins h]
  rfl

theorem feedFrom_of_ends (h : Ends signals failure) :
    feedFrom n signals = { lines := [], failure } := by
  cases h
  case done                      => rfl
  case paused                    => rfl
  case failed inner              =>
    rw [feedFrom, Reader.deliver_eq, takeRecord_append inner]
    rfl
  case undecodable fault begins => rw [feedFrom_of_begins begins, fault]

theorem feedFrom_of_delivers (h : Delivers n signals lines failure) :
    feedFrom n signals = { lines, failure } := by
  induction h
  case ends ends              => exact feedFrom_of_ends ends
  case line begins decoded _ hi => rw [feedFrom_of_begins begins, decoded, hi]

-- There is one thing that a stream delivers.
theorem delivers_iff {reads : List Read} :
    Delivers 0 (reads.flatMap Read.signals) lines failure ↔
      Feed.ofReads reads = { lines, failure } := by
  refine ⟨feedFrom_of_delivers, fun feed => ?_⟩
  have ⟨lines', failure', delivers⟩ := exists_delivers 0 (reads.flatMap Read.signals)
  have feed' : Feed.ofReads reads = { lines := lines', failure := failure' } :=
    feedFrom_of_delivers delivers
  cases feed.symm.trans feed'
  exact delivers

end Read
end WispSyntax
